import Terrain.Compile.Fold
import Terrain.Proofs.Supplier.Local

/-! The two folds of an operator agree: at each point, the grid folded from a row of grids has the
value that is pulled first from the fold of a row of suppliers, where these supply the values that
the grids have there. The coins of the grid are flipped once and for all, those of the supplier as
it is pulled; they come up alike since both are the draws of one seed, counted by the slot. -/
namespace Terrain

open Relation Store AnySupplier

/-- Whether the slot at a position takes part in a fold: the base always does, and a layer when its
coin comes up. -/
def takesPart (seed : Seed) (chance : Scalar) : Nat → Bool
  | 0 => true
  | n + 1 => Random.flip seed chance n

/-- A row of slots, pulled one after the other from a store on, supplies what a row of grids has at
a point: it is empty where they are, and each slot that takes part yields the value of its grid
when its turn comes. -/
inductive Slots.Supplies (p : Point) (takes : Nat → Bool) :
    Slots .number → List (Option ValueGrid) → Nat → Store → Prop
  | nil {n : Nat} {st : Store} : Supplies p takes .nil [] n st
  | hole {rest : Slots .number} {grids : List (Option ValueGrid)} {n : Nat} {st : Store}
      (h : Supplies p takes rest grids (n + 1) st) :
      Supplies p takes (.hole rest) (none :: grids) n st
  | pulled {head : Supplier .number} {rest : Slots .number} {grid : ValueGrid}
      {grids : List (Option ValueGrid)} {n : Nat} {st : Store} (hn : takes n = true)
      (hv : grid.valueAt p = .ok (head.get st).1)
      (h : Supplies p takes rest grids (n + 1) (head.get st).2) :
      Supplies p takes (.cons head rest) (some grid :: grids) n st
  | passed {head : Supplier .number} {rest : Slots .number} {grid : ValueGrid}
      {grids : List (Option ValueGrid)} {n : Nat} {st : Store} (hn : takes n = false)
      (h : Supplies p takes rest grids (n + 1) st) :
      Supplies p takes (.cons head rest) (some grid :: grids) n st

namespace Slots
variable {p : Point} {takes : Nat → Bool} {slots : Slots .number} {n : Nat} {st st' : Store}
  {grids : List (Option ValueGrid)}

/-- A row supplies the same from any store that holds the same where the row looks. -/
theorem Supplies.sameOn {seen : Cell → Prop} (h : slots.Supplies p takes grids n st)
    (hslots : slots.All (Supplier.Sees seen)) (hst : SameOn seen st st') :
    slots.Supplies p takes grids n st' := by
  induction h generalizing st' with
  | nil => exact .nil
  | hole _ ih => exact .hole (ih ((all_hole _ _).1 hslots) hst)
  | @pulled head _ _ _ _ st hn hv _ ih =>
    obtain ⟨hhead, hrest⟩ := (all_cons _ _ _).1 hslots
    obtain ⟨heq, hst⟩ := hhead st st' hst
    exact .pulled hn (by rw [hv, heq]) (ih hrest hst)
  | passed hn _ ih => exact .passed hn (ih ((all_cons _ _ _).1 hslots).2 hst)

/-- A fold of layers goes on alike from a grid and from the value that it has at the point. -/
theorem Supplies.foldLayers_eq_fold (operation : Operation)
    (h : slots.Supplies p takes grids (n + 1) st) {acc : ValueGrid} {v : Scalar}
    (hacc : acc.valueAt p = .ok v) :
    (Grid.foldLayers operation (fun k => takes (k + 1)) grids n acc).valueAt p =
      .ok (slots.fold operation (fun k => takes (k + 1)) n v st).1 := by
  generalize hm : n + 1 = m at h
  induction h generalizing n acc v with
  | nil => simpa only [Grid.foldLayers, fold] using hacc
  | hole _ ih =>
    subst hm
    simpa only [Grid.foldLayers, fold] using ih hacc rfl
  | @pulled head _ grid _ _ st hn hv _ ih =>
    subst hm
    have hnext : (Grid.combine operation acc grid).valueAt p =
        .ok (operation.apply v (head.get st).1) := by
      rw [Grid.valueAt_combine, hacc, hv]
      rfl
    simpa only [Grid.foldLayers, fold, hn, if_true] using ih hnext rfl
  | passed hn _ ih =>
    subst hm
    simpa only [Grid.foldLayers, fold, hn, if_neg Bool.false_ne_true] using ih hacc rfl

/-- A reset of a row changes no cell but those of the parts of its slots. -/
theorem sameAt_reset {s : Signal} {slots : Slots s} {c : Cell}
    (h : slots.All fun x => ∀ y, HasPart ⟨x⟩ y → y.supplier.cell? ≠ some c) (st : Store) :
    SameAt c st (slots.reset st) := by
  match slots with
  | .nil => simpa only [reset] using SameAt.refl c st
  | .hole rest =>
    rw [reset]
    exact sameAt_reset ((all_hole _ _).1 h) st
  | .cons head rest =>
    obtain ⟨hhead, hrest⟩ := (all_cons _ _ _).1 h
    rw [reset]
    exact (((head.worksFor .refl).reset st).sameAt hhead).trans (sameAt_reset hrest _)

end Slots

namespace Supplier
variable {operation : Operation} {chance : Scalar} {seed : Seed} {slots : Slots .number}
  {grids : List (Option ValueGrid)} {p : Point} {cell : Cell} {st : Store}

/-- The first pull of a fold, one from which no coin has been taken. -/
theorem foldSlots_eq_get
    (own : slots.All fun x => ∀ y, HasPart ⟨x⟩ y → y.supplier.cell? ≠ some cell)
    (hst : st.position cell = 0) (h : slots.Supplies p (takesPart seed chance) grids 0 st) :
    (Grid.foldSlots operation chance seed grids).valueAt p =
      .ok ((operated operation slots chance seed cell).get st).1 := by
  have hsees : slots.All (Sees (· ≠ cell)) := fun x hx =>
    x.sees fun y _ hy hc heq => own x hx y hy (heq ▸ hc)
  -- The coins are taken before the layers are pulled, and no layer looks at how many were taken.
  have layers : ∀ {rest : Slots .number} {grids : List (Option ValueGrid)} {acc : ValueGrid}
      {v : Scalar} {st₁ : Store} (k : Nat), rest.All (Sees (· ≠ cell)) →
      rest.Supplies p (takesPart seed chance) grids 1 st₁ → acc.valueAt p = .ok v →
      (Grid.foldLayers operation (Random.flip seed chance) grids 0 acc).valueAt p =
        .ok (rest.fold operation (Random.flip seed chance) 0 v (st₁.move cell k)).1 :=
    fun k hrest h hacc => (h.sameOn hrest (sameOn_move _ k fun hne => hne rfl)).foldLayers_eq_fold
      operation hacc
  cases h with
  | nil => rw [get]; rfl
  | hole h =>
    simp only [Grid.foldSlots, Option.getD_none, get, hst]
    exact layers _ ((Slots.all_hole _ _).1 hsees) h rfl
  | @pulled base _ _ _ _ _ _ hv h =>
    obtain ⟨_, hrest⟩ := (Slots.all_cons _ _ _).1 hsees
    have hbase : SameAt cell st (base.get st).2 :=
      ((base.worksFor .refl).get st).sameAt ((Slots.all_cons _ _ _).1 own).1
    simp only [Grid.foldSlots, Option.getD_some, get, hbase.position, hst]
    exact layers _ hrest h hv
  | passed hn => cases hn

/-- For every operation, chance, seed and row of slots: where the slots, from the store on, supply
what a row of grids has at a point, the first value pulled from their fold, of a fold that was
never pulled or of one that is reset, is the value at the point of the fold of the grids. -/
theorem operated_agrees (operation : Operation) (chance : Scalar) (seed : Seed)
    (slots : Slots .number) (grids : List (Option ValueGrid)) (p : Point) {cell : Cell}
    (own : slots.All fun x => ∀ y, HasPart ⟨x⟩ y → y.supplier.cell? ≠ some cell) (st : Store) :
    (st.position cell = 0 → slots.Supplies p (takesPart seed chance) grids 0 st →
      (Grid.foldSlots operation chance seed grids).valueAt p =
        .ok ((operated operation slots chance seed cell).get st).1) ∧
    (slots.Supplies p (takesPart seed chance) grids 0
        ((operated operation slots chance seed cell).reset st) →
      (Grid.foldSlots operation chance seed grids).valueAt p =
        .ok ((operated operation slots chance seed cell).read st).1) := by
  refine ⟨foldSlots_eq_get own, foldSlots_eq_get own ?_⟩
  rw [reset, (Slots.sameAt_reset own _).position, position_move_self]

/-- Numbers counted up from zero. -/
def tally : Supplier .number :=
  .host ⟨fun n => (Scalar.ofCount n.toUInt64, n + 1), fun _ => 0⟩ 0

/-- One tally in three slots, beyond an empty base and about an empty layer. -/
def tallies : Slots .number := .hole (.cons tally (.cons tally (.hole (.cons tally .nil))))

/-- Grids with the values that the tallies supply where their coins come up, which the first of
them does not. -/
def tallyGrids : List (Option ValueGrid) :=
  [none, some (.const 9), some (.const (Scalar.ofCount 0)), none, some (.const (Scalar.ofCount 1))]

def talliesFolded : Supplier .number := .operated .add tallies 0.5 3 1

theorem tallies_supply (p : Point) {st : Store} (h : st.position 0 = 0) :
    tallies.Supplies p (takesPart 3 0.5) tallyGrids 0 st := by
  have pulled : ∀ {st : Store} {n : Nat}, st.position 0 = n →
      (tally.get st).1 = Scalar.ofCount n.toUInt64 ∧ (tally.get st).2.position 0 = n + 1 := by
    intro st n hn
    simp [tally, get, hn]
  obtain ⟨hzero, h⟩ := pulled h
  obtain ⟨hone, _⟩ := pulled h
  refine .hole (.passed (by decide +kernel) (.pulled (by decide +kernel) ?_
    (.hole (.pulled (by decide +kernel) ?_ .nil))))
  · exact congrArg Except.ok hzero.symm
  · exact congrArg Except.ok hone.symm

/-- The fold of the tallies agrees with the fold of the grids, pulled from a fresh store and again
after a reset. -/
theorem tallies_agree :
    (Grid.foldSlots .add 0.5 3 tallyGrids).valueAt Point.origin =
        .ok (talliesFolded.get {}).1 ∧
      (Grid.foldSlots .add 0.5 3 tallyGrids).valueAt Point.origin =
        .ok (talliesFolded.read (talliesFolded.get {}).2).1 := by
  have own : tallies.All fun x => ∀ y, HasPart ⟨x⟩ y → y.supplier.cell? ≠ some 1 := by
    have htally : ∀ y, HasPart ⟨tally⟩ y → y.supplier.cell? ≠ some 1 := by
      intro y hy
      obtain rfl | ⟨_, h, _⟩ := hy.cases_head
      · simp [tally, cell?]
      · cases h
    intro x hx
    simp only [tallies, Slots.toList, List.mem_cons, List.not_mem_nil, Option.some.injEq, or_false,
      reduceCtorEq, false_or, or_self] at hx
    exact hx ▸ htally
  have hfresh : ∀ c, ({} : Store).position c = 0 := by simp [Store.position]
  have agrees := operated_agrees .add 0.5 3 tallies tallyGrids Point.origin own
  refine ⟨(agrees {}).1 (hfresh 1) (tallies_supply _ (hfresh 0)),
    (agrees _).2 (tallies_supply _ ?_)⟩
  simp [reset, Slots.reset, tallies, tally]

end Supplier
end Terrain
