import Terrain.Proofs.Supplier.Ledger

/-! Pulls and resets of steady suppliers: whatever was pulled and reset before, a steady supplier
yields its value, and the store goes on to keep to the ledger. -/
namespace Terrain

open Store

namespace Supplier
variable {Γ : Ledger} {n m c : Nat} {s : Signal} {st : Store}

theorem Pulls.mono {x : Supplier s} (h : x.Pulls Γ n) (hn : n ≤ m) : x.Pulls Γ m := by
  intro st hst
  obtain ⟨hv, hk⟩ := h st (hst.mono hn)
  exact ⟨hv, hk.mono hst hn⟩

theorem Resets.mono {x : Supplier s} (h : x.Resets Γ n) (hn : n ≤ m) : x.Resets Γ m :=
  fun st hst => (h st (hst.mono hn)).mono hst hn

/-- A cell that remembers a supplier pulls its value, provided that the supplier does so from the
start of its stream and touches no other cell from there on. -/
theorem pulls_cached {inner : Supplier s} (entry : Γ[c]? = some (some ⟨inner⟩))
    (hinner : ∀ st : Store, st.KeepsBelow Γ c →
      (∀ d, inner.stream? = some d → d + 1 = c → st.position d = 0) →
        (inner.get st).1 = inner.value ∧ (inner.get st).2.KeepsBelow Γ c ∧
          SameFrom (c + 1) st (inner.get st).2) :
    (Supplier.cached inner c).Pulls Γ (c + 1) := by
  intro st hst
  obtain ⟨hsome, hnone⟩ := hst c (by omega) _ entry
  cases hr : st.recalled s c with
  | some v =>
    simp only [get, hr, value]
    exact ⟨hsome v hr, .refl hst⟩
  | none =>
    obtain ⟨hv, hk, hs⟩ := hinner st (hst.mono (by omega)) (hnone hr)
    simp only [get, hr, value, hv]
    refine ⟨trivial, ?_, hs.trans (.remember _ _ (by omega))⟩
    intro c' hc' x hx
    by_cases hcc : c' = c
    · subst hcc
      obtain rfl : ⟨inner⟩ = x := by simpa [entry] using hx
      simp
    · rw [recalled_remember_of_ne _ _ (Ne.symm hcc)]
      simpa using hk c' (by omega) x hx

/-- A cell that remembers a supplier is reset by a reset of the supplier that takes its stream to
the start and touches no other cell from there on. -/
theorem resets_cached {inner : Supplier s} (entry : Γ[c]? = some (some ⟨inner⟩))
    (hinner : ∀ st : Store, st.KeepsBelow Γ c →
      (inner.reset st).KeepsBelow Γ c ∧ SameFrom (c + 1) st (inner.reset st) ∧
        ∀ d, inner.stream? = some d → d + 1 = c → (inner.reset st).position d = 0) :
    (Supplier.cached inner c).Resets Γ (c + 1) := by
  intro st hst
  obtain ⟨hk, hs, hd⟩ := hinner st (hst.mono (by omega))
  rw [reset]
  refine ⟨?_, hs.trans (.forget _ _ (by omega))⟩
  intro c' hc' x hx
  by_cases hcc : c' = c
  · subst hcc
    obtain rfl : ⟨inner⟩ = x := by simpa [entry] using hx
    simpa using hd
  · rw [recalled_forget_of_ne _ (Ne.symm hcc)]
    simpa using hk c' (by omega) x hx

theorem get_random {lo hi : Scalar} {seed : Seed} {d : Nat} (hst : st.KeepsBelow Γ (d + 1))
    (hd : st.position d = 0) :
    ((Supplier.random lo hi seed d).get st).1 = (Supplier.random lo hi seed d).value ∧
      ((Supplier.random lo hi seed d).get st).2.KeepsBelow Γ (d + 1) ∧
        SameFrom (d + 2) st ((Supplier.random lo hi seed d).get st).2 := by
  simp only [get, hd, value]
  exact ⟨trivial, hst.move _ (by omega), .move _ _ (by omega)⟩

theorem get_operated {operation : Operation} {slots : Slots .number} {chance : Scalar}
    {seed : Seed} {d : Nat} (h : slots.All (Pulls Γ d)) (hst : st.KeepsBelow Γ (d + 1))
    (hd : st.position d = 0) :
    ((Supplier.operated operation slots chance seed d).get st).1 =
        (Supplier.operated operation slots chance seed d).value ∧
      ((Supplier.operated operation slots chance seed d).get st).2.KeepsBelow Γ (d + 1) ∧
        SameFrom (d + 2) st ((Supplier.operated operation slots chance seed d).get st).2 := by
  -- The layers are folded once the stream has been moved, which no layer notices.
  have fold : ∀ (layers : Slots .number) (acc : Scalar) (k : Nat) (st₁ : Store),
      layers.All (Pulls Γ d) → Kept Γ (d + 1) st st₁ →
      (layers.fold operation (Random.flip seed chance) 0 acc (st₁.move d k)).1 =
          operation.foldLayers (Random.flip seed chance) layers.values 0 acc ∧
        (layers.fold operation (Random.flip seed chance) 0 acc (st₁.move d k)).2.KeepsBelow Γ
            (d + 1) ∧
          SameFrom (d + 2) st
            (layers.fold operation (Random.flip seed chance) 0 acc (st₁.move d k)).2 := by
    intro layers acc k st₁ hl hk
    have hm : (st₁.move d k).KeepsBelow Γ (d + 1) := hk.keeps.move k (by omega)
    obtain ⟨hv, hf⟩ := Slots.fold_pulls operation (Random.flip seed chance)
      (hl.mono fun _ hx => Pulls.mono hx (Nat.le_succ d)) 0 acc _ hm
    exact ⟨hv, hf.keeps, (hk.same.mono (by omega)).trans
      ((SameFrom.move _ k (by omega)).trans (hf.same.mono (by omega)))⟩
  match slots with
  | .nil =>
    simp only [get, value, Slots.values, Operation.foldSlots]
    exact ⟨trivial, hst, .refl _ _⟩
  | .hole layers =>
    simp only [get, value, Slots.values, Operation.foldSlots, hd, Option.getD_none]
    exact fold layers _ _ st ((Slots.all_hole _ _).1 h) (.refl hst)
  | .cons base layers =>
    obtain ⟨hbase, hlayers⟩ := (Slots.all_cons _ _ _).1 h
    obtain ⟨hv, hk⟩ := hbase st (hst.mono (by omega))
    have hp : (base.get st).2.position d = 0 := (hk.same.position d (by omega)).trans hd
    simp only [get, value, Slots.values, Operation.foldSlots, hp, hv, Option.getD_some]
    exact fold layers _ _ _ hlayers (hk.mono hst (by omega))

theorem get_selected {axis : Supplier .number} {thresholds : List Scalar} {options : Slots s}
    (haxis : axis.Pulls Γ c) (h : options.All (Pulls Γ c)) :
    (Supplier.selected axis thresholds options).Pulls Γ c := by
  intro st hst
  obtain ⟨hv, hk⟩ := haxis st hst
  simp only [get, value, Signal.chosen, hv, Slots.length_values]
  cases selectIndex axis.value thresholds options.length with
  | none => exact ⟨rfl, hk⟩
  | some i =>
    obtain ⟨hp, hkp⟩ := Slots.pick_pulls h i _ hk.keeps
    exact ⟨hp, hk.trans hkp⟩

theorem Pulls.map {t : Signal} {inner : Supplier s} {f : s.Carrier → t.Carrier}
    (h : inner.Pulls Γ n) : (Supplier.map inner f).Pulls Γ n := by
  intro st hst
  obtain ⟨hv, hk⟩ := h st hst
  simp only [get, value, hv]
  exact ⟨trivial, hk⟩

/-- Every pull of a steady supplier yields its value. -/
theorem Steady.pulls {x : Supplier s} (h : x.Steady Γ n) : x.Pulls Γ n := by
  induction h with
  | const v => exact fun st hst => ⟨by simp [get, value], by simpa [get] using Kept.refl hst⟩
  | drawn below entry =>
    refine (pulls_cached entry fun st hst hd => ?_).mono below
    exact get_random hst (hd _ rfl rfl)
  | folded below entry _ ih =>
    refine (pulls_cached entry fun st hst hd => ?_).mono below
    exact get_operated ih hst (hd _ rfl rfl)
  | chosen below entry _ _ iha ih =>
    refine (pulls_cached entry fun st hst _ => ?_).mono below
    obtain ⟨hv, hk⟩ := get_selected iha ih st hst
    exact ⟨hv, hk.keeps, hk.same.mono (Nat.le_succ _)⟩
  | mapped _ ih => exact ih.map

/-- A reset of a steady supplier keeps to the ledger. -/
theorem Steady.resets {x : Supplier s} (h : x.Steady Γ n) : x.Resets Γ n := by
  induction h with
  | const v => exact fun st hst => by simpa [reset] using Kept.refl hst
  | @drawn n d lo hi seed below entry =>
    refine (resets_cached entry fun st hst => ?_).mono below
    rw [reset]
    refine ⟨hst.move _ (by omega), .move _ _ (by omega), fun e he _ => ?_⟩
    obtain rfl : d = e := by simpa [stream?] using he
    simp
  | @folded n d operation slots chance seed below entry _ ih =>
    refine (resets_cached entry fun st hst => ?_).mono below
    have hm : (st.move d 0).KeepsBelow Γ (d + 1) := hst.move 0 (by omega)
    have hk := Slots.reset_resets ih _ (hm.mono (Nat.le_succ d))
    rw [reset]
    refine ⟨(hk.mono hm (by omega)).keeps,
      (SameFrom.move _ 0 (by omega)).trans (hk.same.mono (by omega)), fun e he _ => ?_⟩
    obtain rfl : d = e := by simpa [stream?] using he
    rw [hk.same.position d (by omega), position_move_self]
  | chosen below entry _ _ iha ih =>
    refine (resets_cached entry fun st hst => ?_).mono below
    have ha := iha st hst
    have ho := Slots.reset_resets ih _ ha.keeps
    rw [reset]
    refine ⟨ho.keeps, (ha.same.trans ho.same).mono (Nat.le_succ _), fun d hd _ => ?_⟩
    simp [stream?] at hd
  | mapped _ ih => exact fun st hst => by simpa [reset] using ih st hst

end Supplier

/-- A store keeps to a ledger: it has handed out the cells that the ledger lists, keeps to it in
all of them, and has not used the others. -/
structure Ledger.Holds (Γ : Ledger) (st : Store) : Prop where
  size : st.fresh = Γ.length
  keeps : st.KeepsBelow Γ Γ.length
  unused : ∀ c, Γ.length ≤ c → st.position c = 0 ∧ ∀ s, st.recalled s c = none

namespace Ledger
variable {Γ : Ledger} {st st' : Store} {s : Signal} {x : Supplier s}

theorem holds_empty : Ledger.Holds [] {} where
  size := rfl
  keeps c hc := absurd hc (Nat.not_lt_zero c)
  unused c _ := by
    refine ⟨by simp [Store.position], fun s => ?_⟩
    cases s <;> simp [Store.recalled]

theorem Holds.of_kept (h : Γ.Holds st) (hk : Kept Γ Γ.length st st') : Γ.Holds st' where
  size := hk.same.fresh.trans h.size
  keeps := hk.keeps
  unused c hc := by
    rw [hk.same.position c (Nat.le_succ_of_le hc)]
    refine ⟨(h.unused c hc).1, fun s => ?_⟩
    rw [hk.same.recalled c hc]
    exact (h.unused c hc).2 s

/-- New cells may be handed out, entered in the ledger with suppliers whose streams are new. -/
theorem Holds.extend (h : Γ.Holds st) (new : Ledger) (hfresh : st'.fresh = (Γ ++ new).length)
    (hposition : ∀ c, st'.position c = st.position c)
    (hrecall : ∀ c s, st'.recalled s c = st.recalled s c)
    (hstream : ∀ x, some x ∈ new → ∀ d, x.supplier.stream? = some d → Γ.length ≤ d) :
    Ledger.Holds (Γ ++ new) st' where
  size := hfresh
  keeps c _ x hx := by
    rw [hrecall]
    by_cases hold : c < Γ.length
    · rw [List.getElem?_append_left hold] at hx
      simpa only [hposition] using h.keeps c hold x hx
    · rw [List.getElem?_append_right (by omega)] at hx
      refine ⟨fun v hv => ?_, fun _ d hd _ => ?_⟩
      · rw [(h.unused c (by omega)).2] at hv
        cases hv
      · rw [hposition]
        exact (h.unused d (hstream x (List.mem_of_getElem? hx) d hd)).1
  unused c hc := by
    rw [List.length_append] at hc
    simpa only [hposition, hrecall] using h.unused c (by omega)

theorem Holds.get (h : Γ.Holds st) (hx : x.Steady Γ Γ.length) : Γ.Holds (x.get st).2 :=
  h.of_kept (hx.pulls st h.keeps).2

theorem Holds.get_eq (h : Γ.Holds st) (hx : x.Steady Γ Γ.length) : (x.get st).1 = x.value :=
  (hx.pulls st h.keeps).1

theorem Holds.reset (h : Γ.Holds st) (hx : x.Steady Γ Γ.length) : Γ.Holds (x.reset st) :=
  h.of_kept (hx.resets st h.keeps)

theorem Holds.read (h : Γ.Holds st) (hx : x.Steady Γ Γ.length) : Γ.Holds (x.read st).2 :=
  (h.reset hx).get hx

theorem Holds.read_eq (h : Γ.Holds st) (hx : x.Steady Γ Γ.length) : (x.read st).1 = x.value :=
  (h.reset hx).get_eq hx

end Ledger
end Terrain
