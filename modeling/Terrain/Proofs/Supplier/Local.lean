import Terrain.Proofs.Supplier.Parts

/-! A supplier sees no cells but those of its parts: from two stores that hold the same in these it
yields the same value, and what it leaves in them is the same again. -/
namespace Terrain

open Relation Store AnySupplier

namespace Store
variable {seen : Cell → Prop} {st st' : Store}

/-- Two stores hold the same in some cells. -/
def SameOn (seen : Cell → Prop) (st st' : Store) : Prop := ∀ c, seen c → SameAt c st st'

theorem sameOn_move (st : Store) {c : Cell} (n : Nat) (hc : ¬ seen c) :
    SameOn seen st (st.move c n) :=
  fun _ hd => sameAt_move st n fun heq => hc (heq ▸ hd)

theorem SameOn.move (h : SameOn seen st st') (c : Cell) (n : Nat) :
    SameOn seen (st.move c n) (st'.move c n) := by
  intro d hd
  refine ⟨?_, fun s => by simpa using (h d hd).recalled s⟩
  by_cases heq : c = d
  · simp [heq]
  · rw [position_move_of_ne _ _ heq, position_move_of_ne _ _ heq, (h d hd).position]

theorem SameOn.remember (h : SameOn seen st st') (s : Signal) (c : Cell) (v : s.Carrier) :
    SameOn seen (st.remember s c v) (st'.remember s c v) := by
  intro d hd
  refine ⟨by simpa using (h d hd).position, fun t => ?_⟩
  by_cases heq : c = d
  · subst heq
    have ht := (h c hd).recalled t
    cases s <;> cases t <;> first | exact ht | simp [recalled, Store.remember]
  · rw [recalled_remember_of_ne _ _ heq, recalled_remember_of_ne _ _ heq, (h d hd).recalled t]

end Store

/-- A supplier sees no more than some cells. -/
def Supplier.Sees (seen : Cell → Prop) {s : Signal} (x : Supplier s) : Prop :=
  ∀ st st', SameOn seen st st' →
    (x.get st').1 = (x.get st).1 ∧ SameOn seen (x.get st).2 (x.get st').2

namespace Slots
variable {seen : Cell → Prop} {s : Signal}

theorem fold_sees {slots : Slots .number} (operation : Operation) (flip : Nat → Bool)
    (h : slots.All (Supplier.Sees seen)) (n : Nat) (acc : Scalar) {st st' : Store}
    (hst : SameOn seen st st') :
    (slots.fold operation flip n acc st').1 = (slots.fold operation flip n acc st).1 ∧
      SameOn seen (slots.fold operation flip n acc st).2
        (slots.fold operation flip n acc st').2 := by
  match slots with
  | .nil =>
    simp only [fold]
    exact ⟨trivial, hst⟩
  | .hole rest =>
    simp only [fold]
    exact fold_sees operation flip ((all_hole _ _).1 h) (n + 1) acc hst
  | .cons layer rest =>
    obtain ⟨hlayer, hrest⟩ := (all_cons _ _ _).1 h
    simp only [fold]
    split
    · obtain ⟨hv, hst⟩ := hlayer st st' hst
      rw [hv]
      exact fold_sees operation flip hrest (n + 1) _ hst
    · exact fold_sees operation flip hrest (n + 1) acc hst

theorem pick_sees {slots : Slots s} (h : slots.All (Supplier.Sees seen)) (i : Nat)
    {st st' : Store} (hst : SameOn seen st st') :
    (slots.pick i st').1 = (slots.pick i st).1 ∧
      SameOn seen (slots.pick i st).2 (slots.pick i st').2 := by
  match slots, i with
  | .nil, _ | .hole _, 0 =>
    simp only [pick]
    exact ⟨trivial, hst⟩
  | .cons head rest, 0 =>
    simp only [pick]
    exact ((all_cons _ _ _).1 h).1 st st' hst
  | .hole rest, i + 1 =>
    simp only [pick]
    exact pick_sees ((all_hole _ _).1 h) i hst
  | .cons head rest, i + 1 =>
    simp only [pick]
    exact pick_sees ((all_cons _ _ _).1 h).2 i hst

end Slots

/-- What a supplier yields, and what it leaves behind, is up to the cells of its parts. -/
theorem Supplier.sees {seen : Cell → Prop} {s : Signal} (x : Supplier s)
    (hx : ∀ y c, HasPart ⟨x⟩ y → y.supplier.cell? = some c → seen c) : x.Sees seen := by
  induction x using Supplier.tree_induction with
  | const v =>
    intro st st' hst
    simp only [get]
    exact ⟨trivial, hst⟩
  | host h cell | random lo hi seed cell =>
    intro st st' hst
    simp only [get, (hst cell (hx _ cell .refl rfl)).position]
    exact ⟨trivial, hst.move cell _⟩
  | @cached s inner cell ih =>
    intro st st' hst
    simp only [get, (hst cell (hx _ cell .refl rfl)).recalled s]
    cases st.recalled s cell with
    | some v => exact ⟨rfl, hst⟩
    | none =>
      obtain ⟨hv, hst⟩ := ih (fun y c hy => hx y c (.head (.cached inner cell) hy)) st st' hst
      simp only [hv]
      exact ⟨trivial, hst.remember s cell _⟩
  | operated operation slots chance seed cell ih =>
    have hslots : slots.All (Sees seen) :=
      fun x h => ih x h fun y c hy => hx y c (.head (.slot h) hy)
    have hown : seen cell := hx _ cell .refl rfl
    intro st st' hst
    cases slots with
    | nil =>
      simp only [get]
      exact ⟨trivial, hst⟩
    | hole layers =>
      simp only [get, (hst cell hown).position]
      exact Slots.fold_sees operation _ ((Slots.all_hole _ _).1 hslots) _ _ (hst.move cell _)
    | cons base layers =>
      obtain ⟨hbase, hlayers⟩ := (Slots.all_cons _ _ _).1 hslots
      obtain ⟨hv, hst⟩ := hbase st st' hst
      simp only [get, hv, (hst cell hown).position]
      exact Slots.fold_sees operation _ hlayers _ _ (hst.move cell _)
  | selected axis thresholds options iha ih =>
    intro st st' hst
    obtain ⟨hv, hst⟩ :=
      iha (fun y c hy => hx y c (.head (.axis axis thresholds options) hy)) st st' hst
    simp only [get, hv]
    cases selectIndex (axis.get st).1 thresholds options.length with
    | none => exact ⟨rfl, hst⟩
    | some i =>
      exact Slots.pick_sees (fun x h => ih x h fun y c hy => hx y c (.head (.option h) hy)) i hst
  | map inner f ih =>
    intro st st' hst
    obtain ⟨hv, hst⟩ := ih (fun y c hy => hx y c (.head (.map inner f) hy)) st st' hst
    simp only [get, hv]
    exact ⟨trivial, hst⟩

end Terrain
