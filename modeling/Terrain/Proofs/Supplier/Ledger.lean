import Terrain.Proofs.Supplier.Value

/-! Why the suppliers of compiled nodes are constant. A ledger says of every cell that was handed
out which supplier it remembers the value of; a store that keeps to its ledger remembers no other
value, and where it remembers none, the stream of that supplier is at its start. Pulls and resets
of the suppliers entered in a ledger keep to it, so each of them yields one value for ever. -/
namespace Terrain

/-- A supplier together with the sort of its values. -/
structure AnySupplier where
  {sort : Signal}
  supplier : Supplier sort

/-- For every cell that was handed out, the supplier whose value it remembers, if it does. -/
abbrev Ledger := List (Option AnySupplier)

theorem Ledger.getElem?_of_prefix {Γ Γ' : Ledger} {c : Nat} {x : Option AnySupplier}
    (h : Γ <+: Γ') (hc : Γ[c]? = some x) : Γ'[c]? = some x := by
  obtain ⟨rest, rfl⟩ := h
  rw [List.getElem?_append_left (List.getElem?_eq_some_iff.1 hc).1, hc]

namespace Supplier

/-- The cell that counts the draws of a supplier. -/
def stream? {s : Signal} : Supplier s → Option Nat
  | .random _ _ _ cell => some cell
  | .operated _ _ _ _ cell => some cell
  | _ => none

/-- The suppliers that compiled nodes hold, with all their cells below a bound. A supplier that
draws is remembered, in the cell right after that of its stream. -/
inductive Steady (Γ : Ledger) : Nat → {s : Signal} → Supplier s → Prop
  | const {n : Nat} {s : Signal} (v : s.Carrier) : Steady Γ n (.const v)
  | drawn {n d : Nat} {lo hi : Scalar} {seed : Seed} (below : d + 1 < n)
      (entry : Γ[d + 1]? = some (some ⟨.random lo hi seed d⟩)) :
      Steady Γ n (.cached (.random lo hi seed d) (d + 1))
  | folded {n d : Nat} {operation : Operation} {slots : Slots .number} {chance : Scalar}
      {seed : Seed} (below : d + 1 < n)
      (entry : Γ[d + 1]? = some (some ⟨.operated operation slots chance seed d⟩))
      (layers : ∀ x, some x ∈ slots.toList → Steady Γ d x) :
      Steady Γ n (.cached (.operated operation slots chance seed d) (d + 1))
  | chosen {n c : Nat} {s : Signal} {axis : Supplier .number} {thresholds : List Scalar}
      {options : Slots s} (below : c < n)
      (entry : Γ[c]? = some (some ⟨.selected axis thresholds options⟩))
      (reads : Steady Γ c axis) (offers : ∀ x, some x ∈ options.toList → Steady Γ c x) :
      Steady Γ n (.cached (.selected axis thresholds options) c)
  | mapped {n : Nat} {s t : Signal} {inner : Supplier s} {f : s.Carrier → t.Carrier}
      (reads : Steady Γ n inner) : Steady Γ n (.map inner f)

theorem Steady.mono {Γ Γ' : Ledger} {n m : Nat} {s : Signal} {x : Supplier s}
    (h : x.Steady Γ n) (hΓ : Γ <+: Γ') (hn : n ≤ m) : x.Steady Γ' m := by
  induction h generalizing m with
  | const v => exact .const v
  | drawn below entry => exact .drawn (by omega) (Ledger.getElem?_of_prefix hΓ entry)
  | folded below entry _ ih =>
    exact .folded (by omega) (Ledger.getElem?_of_prefix hΓ entry) fun x hx =>
      ih x hx (Nat.le_refl _)
  | chosen below entry _ _ iha ih =>
    exact .chosen (by omega) (Ledger.getElem?_of_prefix hΓ entry) (iha (Nat.le_refl _))
      fun x hx => ih x hx (Nat.le_refl _)
  | mapped _ ih => exact .mapped (ih hn)

end Supplier

namespace Store

/-- A store keeps to a ledger in a cell: the cell remembers no value but that of its supplier, and
where it remembers none, the stream of that supplier is at its start. -/
def KeepsAt (st : Store) (Γ : Ledger) (c : Nat) : Prop :=
  ∀ x : AnySupplier, Γ[c]? = some (some x) →
    (∀ v, st.recalled x.sort c = some v → v = x.supplier.value) ∧
      (st.recalled x.sort c = none →
        ∀ d, x.supplier.stream? = some d → d + 1 = c → st.position d = 0)

def KeepsBelow (st : Store) (Γ : Ledger) (n : Nat) : Prop := ∀ c < n, st.KeepsAt Γ c

/-- Two stores agree in the cells from a bound on, and in the streams of suppliers that such
cells remember. -/
structure SameFrom (n : Nat) (st st' : Store) : Prop where
  recalled : ∀ c, n ≤ c → ∀ s, st'.recalled s c = st.recalled s c
  position : ∀ c, n ≤ c + 1 → st'.position c = st.position c
  fresh : st'.fresh = st.fresh

namespace SameFrom
variable {n m : Nat} {st st₁ st₂ : Store}

theorem refl (n : Nat) (st : Store) : SameFrom n st st :=
  ⟨fun _ _ _ => rfl, fun _ _ => rfl, rfl⟩

theorem trans (h : SameFrom n st st₁) (h' : SameFrom n st₁ st₂) : SameFrom n st st₂ where
  recalled c hc s := (h'.recalled c hc s).trans (h.recalled c hc s)
  position c hc := (h'.position c hc).trans (h.position c hc)
  fresh := h'.fresh.trans h.fresh

theorem mono (h : SameFrom n st st₁) (hn : n ≤ m) : SameFrom m st st₁ where
  recalled c hc := h.recalled c (by omega)
  position c hc := h.position c (by omega)
  fresh := h.fresh

theorem move {c : Nat} (st : Store) (k : Nat) (hc : c + 1 < n) : SameFrom n st (st.move c k) where
  recalled d _ s := by simp
  position d hd := position_move_of_ne st k (Nat.ne_of_lt (by omega))
  fresh := rfl

theorem remember {c : Nat} {s : Signal} (st : Store) (v : s.Carrier) (hc : c < n) :
    SameFrom n st (st.remember s c v) where
  recalled d hd t := recalled_remember_of_ne st v (Nat.ne_of_lt (by omega))
  position d _ := by simp
  fresh := by simp

theorem forget {c : Nat} (st : Store) (s : Signal) (hc : c < n) :
    SameFrom n st (st.forget s c) where
  recalled d hd t := recalled_forget_of_ne st (Nat.ne_of_lt (by omega))
  position d _ := by simp
  fresh := by simp

end SameFrom

theorem KeepsAt.of_same {Γ : Ledger} {n c : Nat} {st st' : Store} (h : st.KeepsAt Γ c)
    (hs : SameFrom n st st') (hc : n ≤ c) : st'.KeepsAt Γ c := by
  intro x hx
  rw [hs.recalled c hc]
  refine ⟨(h x hx).1, fun hnone d hd hdc => ?_⟩
  rw [hs.position d (by omega)]
  exact (h x hx).2 hnone d hd hdc

/-- Keeping to a ledger below a bound is enough where the cells from the bound on are as they
were. -/
theorem KeepsBelow.of_same {Γ : Ledger} {n m : Nat} {st st' : Store} (h : st.KeepsBelow Γ m)
    (hs : SameFrom n st st') (h' : st'.KeepsBelow Γ n) : st'.KeepsBelow Γ m := by
  intro c hc
  by_cases hn : c < n
  · exact h' c hn
  · exact (h c hc).of_same hs (by omega)

theorem KeepsBelow.mono {Γ : Ledger} {n m : Nat} {st : Store} (h : st.KeepsBelow Γ m)
    (hn : n ≤ m) : st.KeepsBelow Γ n := fun c hc => h c (by omega)

/-- A stream that is moved concerns the cell right after it alone. -/
theorem KeepsBelow.move {Γ : Ledger} {n d : Nat} {st : Store} (h : st.KeepsBelow Γ n)
    (k : Nat) (hd : n ≤ d + 1) : (st.move d k).KeepsBelow Γ n := by
  intro c hc x hx
  rw [recalled_move]
  refine ⟨(h c hc x hx).1, fun hnone e he hec => ?_⟩
  rw [position_move_of_ne st k (Nat.ne_of_gt (by omega))]
  exact (h c hc x hx).2 hnone e he hec

/-- What a pull or a reset below a bound leaves behind. -/
structure Kept (Γ : Ledger) (n : Nat) (st st' : Store) : Prop where
  keeps : st'.KeepsBelow Γ n
  same : SameFrom n st st'

theorem Kept.refl {Γ : Ledger} {n : Nat} {st : Store} (h : st.KeepsBelow Γ n) :
    Kept Γ n st st := ⟨h, .refl n st⟩

theorem Kept.trans {Γ : Ledger} {n : Nat} {st st₁ st₂ : Store} (h : Kept Γ n st st₁)
    (h' : Kept Γ n st₁ st₂) : Kept Γ n st st₂ := ⟨h'.keeps, h.same.trans h'.same⟩

theorem Kept.mono {Γ : Ledger} {n m : Nat} {st st' : Store} (h : Kept Γ n st st')
    (hst : st.KeepsBelow Γ m) (hn : n ≤ m) : Kept Γ m st st' :=
  ⟨hst.of_same h.same h.keeps, h.same.mono hn⟩

end Store

open Store

/-- A supplier pulls its value wherever a store keeps to the ledger below a bound, and the store
goes on to do so. -/
def Supplier.Pulls (Γ : Ledger) (n : Nat) {s : Signal} (x : Supplier s) : Prop :=
  ∀ st : Store, st.KeepsBelow Γ n → (x.get st).1 = x.value ∧ Kept Γ n st (x.get st).2

/-- A store that keeps to the ledger below a bound goes on to do so when a supplier is reset. -/
def Supplier.Resets (Γ : Ledger) (n : Nat) {s : Signal} (x : Supplier s) : Prop :=
  ∀ st : Store, st.KeepsBelow Γ n → Kept Γ n st (x.reset st)

namespace Slots
variable {Γ : Ledger} {n : Nat}

theorem fold_pulls {slots : Slots .number} (operation : Operation) (flip : Nat → Bool)
    (h : slots.All (Supplier.Pulls Γ n)) (k : Nat) (acc : Scalar) (st : Store)
    (hst : st.KeepsBelow Γ n) :
    (slots.fold operation flip k acc st).1 = operation.foldLayers flip slots.values k acc ∧
      Kept Γ n st (slots.fold operation flip k acc st).2 := by
  match slots with
  | .nil => simpa [fold, values, Operation.foldLayers] using Kept.refl hst
  | .hole rest =>
    simpa [fold, values, Operation.foldLayers] using
      fold_pulls operation flip ((all_hole _ _).1 h) (k + 1) acc st hst
  | .cons layer rest =>
    obtain ⟨hlayer, hrest⟩ := (all_cons _ _ _).1 h
    by_cases hk : flip k
    · obtain ⟨hv, hkept⟩ := hlayer st hst
      have ih := fold_pulls operation flip hrest (k + 1) (operation.apply acc layer.value)
        (layer.get st).2 hkept.keeps
      simp only [fold, values, Operation.foldLayers, hk, if_true, hv]
      exact ⟨ih.1, hkept.trans ih.2⟩
    · simpa [fold, values, Operation.foldLayers, hk] using
        fold_pulls operation flip hrest (k + 1) acc st hst

theorem pick_pulls {s : Signal} {slots : Slots s} (h : slots.All (Supplier.Pulls Γ n)) (i : Nat)
    (st : Store) (hst : st.KeepsBelow Γ n) :
    (slots.pick i st).1 = (slots.values[i]?.join).getD s.blank ∧
      Kept Γ n st (slots.pick i st).2 := by
  match slots, i with
  | .nil, _ => simpa [pick, values] using Kept.refl hst
  | .hole rest, 0 => simpa [pick, values] using Kept.refl hst
  | .hole rest, i + 1 =>
    simpa [pick, values] using pick_pulls ((all_hole _ _).1 h) i st hst
  | .cons head rest, 0 => simpa [pick, values] using ((all_cons _ _ _).1 h).1 st hst
  | .cons head rest, i + 1 =>
    simpa [pick, values] using pick_pulls ((all_cons _ _ _).1 h).2 i st hst

theorem reset_resets {s : Signal} {slots : Slots s} (h : slots.All (Supplier.Resets Γ n))
    (st : Store) (hst : st.KeepsBelow Γ n) : Kept Γ n st (slots.reset st) := by
  match slots with
  | .nil => simpa [reset] using Kept.refl hst
  | .hole rest => simpa [reset] using reset_resets ((all_hole _ _).1 h) st hst
  | .cons head rest =>
    obtain ⟨hhead, hrest⟩ := (all_cons _ _ _).1 h
    have hk := hhead st hst
    simpa [reset] using hk.trans (reset_resets hrest _ hk.keeps)

end Slots
end Terrain
