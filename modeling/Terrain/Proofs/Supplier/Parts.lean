import Mathlib.Logic.Relation
import Terrain.Proofs.Supplier.Ledger

/-! The parts of a supplier: what it draws on, and what is below that. Whatever a pull or a reset of
a supplier changes in a store is the own state of one of its parts. -/
namespace Terrain

open Relation

namespace Supplier

/-- Induction on suppliers, which gives for a row of slots that the statement holds of each. -/
theorem tree_induction {P : ∀ {s : Signal}, Supplier s → Prop}
    (const : ∀ {s : Signal} (v : s.Carrier), P (.const v))
    (host : ∀ {s : Signal} (h : Host s.Carrier) (cell : Cell), P (.host h cell : Supplier s))
    (random : ∀ (lo hi : Scalar) (seed : Seed) (cell : Cell), P (.random lo hi seed cell))
    (cached : ∀ {s : Signal} (inner : Supplier s) (cell : Cell), P inner → P (.cached inner cell))
    (operated : ∀ (operation : Operation) (slots : Slots .number) (chance : Scalar) (seed : Seed)
      (cell : Cell), slots.All P → P (.operated operation slots chance seed cell))
    (selected : ∀ {s : Signal} (axis : Supplier .number) (thresholds : List Scalar)
      (options : Slots s), P axis → options.All P → P (.selected axis thresholds options))
    (map : ∀ {s t : Signal} (inner : Supplier s) (f : s.Carrier → t.Carrier), P inner →
      P (.map inner f))
    {s : Signal} (x : Supplier s) : P x :=
  @Supplier.rec (fun _ x => P x) (fun _ slots => slots.All P) const host random cached operated
    selected map (fun _ h => absurd h List.not_mem_nil) (fun _ h => (Slots.all_hole _ _).2 h)
    (fun _ _ hx h => (Slots.all_cons _ _ _).2 ⟨hx, h⟩) s x

/-- The cell that a supplier keeps its own state in, if it has any. -/
def cell? {s : Signal} : Supplier s → Option Cell
  | .host _ cell | .random _ _ _ cell | .cached _ cell | .operated _ _ _ _ cell => some cell
  | .const _ | .selected _ _ _ | .map _ _ => none

end Supplier

namespace AnySupplier

/-- A supplier draws on another, which it pulls and resets. -/
inductive DrawsOn : AnySupplier → AnySupplier → Prop
  | cached {s : Signal} (inner : Supplier s) (cell : Cell) : DrawsOn ⟨.cached inner cell⟩ ⟨inner⟩
  | slot {operation : Operation} {slots : Slots .number} {chance : Scalar} {seed : Seed}
      {cell : Cell} {x : Supplier .number} (h : some x ∈ slots.toList) :
      DrawsOn ⟨.operated operation slots chance seed cell⟩ ⟨x⟩
  | axis {s : Signal} (axis : Supplier .number) (thresholds : List Scalar) (options : Slots s) :
      DrawsOn ⟨.selected axis thresholds options⟩ ⟨axis⟩
  | option {s : Signal} {axis : Supplier .number} {thresholds : List Scalar} {options : Slots s}
      {x : Supplier s} (h : some x ∈ options.toList) :
      DrawsOn ⟨.selected axis thresholds options⟩ ⟨x⟩
  | map {s t : Signal} (inner : Supplier s) (f : s.Carrier → t.Carrier) :
      DrawsOn ⟨.map inner f⟩ ⟨inner⟩

/-- A supplier has another as a part: they are the same, or it draws on one that has. -/
abbrev HasPart : AnySupplier → AnySupplier → Prop := ReflTransGen DrawsOn

end AnySupplier

namespace Store

variable {c d : Cell} {st st' st'' : Store} {x root : AnySupplier} {held : AnySupplier → Prop}

/-- One of some suppliers is pulled or reset. -/
inductive Touch (held : AnySupplier → Prop) (st : Store) : Store → Prop
  | pull {x : AnySupplier} (hx : held x) : Touch held st (x.supplier.get st).2
  | reset {x : AnySupplier} (hx : held x) : Touch held st (x.supplier.reset st)

/-- Any number of pulls and resets of some suppliers. -/
abbrev Touches (held : AnySupplier → Prop) : Store → Store → Prop := ReflTransGen (Touch held)

/-- Two stores hold the same in a cell. -/
structure SameAt (c : Cell) (st st' : Store) : Prop where
  position : st'.position c = st.position c
  recalled : ∀ s, st'.recalled s c = st.recalled s c

theorem SameAt.refl (c : Cell) (st : Store) : SameAt c st st := ⟨rfl, fun _ => rfl⟩

theorem SameAt.trans (h : SameAt c st st') (h' : SameAt c st' st'') : SameAt c st st'' :=
  ⟨h'.position.trans h.position, fun s => (h'.recalled s).trans (h.recalled s)⟩

theorem sameAt_move (st : Store) (n : Nat) (h : c ≠ d) : SameAt d st (st.move c n) :=
  ⟨position_move_of_ne st n h, fun s => recalled_move st c d n s⟩

/-- A supplier changes its own state. -/
inductive Stirs (st : Store) : AnySupplier → Store → Prop
  | advance {s : Signal} (h : Host s.Carrier) (c : Cell) :
      Stirs st ⟨.host h c⟩ (st.move c (h.next (st.position c)).2)
  | rewind {s : Signal} (h : Host s.Carrier) (c : Cell) :
      Stirs st ⟨.host h c⟩ (st.move c (h.rewind (st.position c)))
  | draw (lo hi : Scalar) (seed : Seed) (c n : Nat) :
      Stirs st ⟨.random lo hi seed c⟩ (st.move c n)
  | flip (operation : Operation) (slots : Slots .number) (chance : Scalar) (seed : Seed)
      (c n : Nat) : Stirs st ⟨.operated operation slots chance seed c⟩ (st.move c n)
  | remember {s : Signal} (inner : Supplier s) (c : Cell) (v : s.Carrier) :
      Stirs st ⟨.cached inner c⟩ (st.remember s c v)
  | forget {s : Signal} (inner : Supplier s) (c : Cell) :
      Stirs st ⟨.cached inner c⟩ (st.forget s c)

/-- Nothing changes but in the cell of the supplier. -/
theorem Stirs.sameAt (h : st.Stirs x st') (hd : x.supplier.cell? ≠ some d) : SameAt d st st' := by
  cases h with
  | advance h c | rewind h c => exact sameAt_move st _ fun heq => hd (congrArg some heq)
  | draw _ _ _ c n | flip _ _ _ _ c n => exact sameAt_move st n fun heq => hd (congrArg some heq)
  | remember inner c v =>
    have hne : c ≠ d := fun heq => hd (congrArg some heq)
    exact ⟨position_remember st _ c d v, fun s => recalled_remember_of_ne st v hne⟩
  | forget inner c =>
    have hne : c ≠ d := fun heq => hd (congrArg some heq)
    exact ⟨position_forget st _ c d, fun s => recalled_forget_of_ne st hne⟩

/-- Parts of a supplier change their own states, in any order and number. -/
abbrev Works (root : AnySupplier) : Store → Store → Prop :=
  ReflTransGen fun st st' => ∃ y, root.HasPart y ∧ st.Stirs y st'

theorem Works.sameAt (h : Works root st st')
    (hd : ∀ y, root.HasPart y → y.supplier.cell? ≠ some d) : SameAt d st st' := by
  induction h with
  | refl => exact SameAt.refl d st
  | tail _ h ih =>
    obtain ⟨y, hy, h⟩ := h
    exact ih.trans (h.sameAt (hd y hy))

end Store

open Store

/-- A supplier, pulled or reset, has parts of another work. -/
structure Supplier.WorksFor (root : AnySupplier) {s : Signal} (x : Supplier s) : Prop where
  get : ∀ st, Works root st (x.get st).2
  reset : ∀ st, Works root st (x.reset st)

namespace Slots
variable {root : AnySupplier} {s : Signal}

theorem fold_works {slots : Slots .number} (operation : Operation) (flip : Nat → Bool)
    (h : slots.All (Supplier.WorksFor root)) (n : Nat) (acc : Scalar) (st : Store) :
    Works root st (slots.fold operation flip n acc st).2 := by
  match slots with
  | .nil => rw [fold]
  | .hole rest =>
    rw [fold]
    exact fold_works operation flip ((all_hole _ _).1 h) (n + 1) acc st
  | .cons layer rest =>
    obtain ⟨hlayer, hrest⟩ := (all_cons _ _ _).1 h
    rw [fold]
    split
    · exact (hlayer.get st).trans (fold_works operation flip hrest (n + 1) _ _)
    · exact fold_works operation flip hrest (n + 1) acc st

theorem pick_works {slots : Slots s} (h : slots.All (Supplier.WorksFor root)) (i : Nat)
    (st : Store) : Works root st (slots.pick i st).2 := by
  match slots, i with
  | .nil, _ | .hole _, 0 => rw [pick]
  | .cons head rest, 0 =>
    rw [pick]
    exact ((all_cons _ _ _).1 h).1.get st
  | .hole rest, i + 1 =>
    rw [pick]
    exact pick_works ((all_hole _ _).1 h) i st
  | .cons head rest, i + 1 =>
    rw [pick]
    exact pick_works ((all_cons _ _ _).1 h).2 i st

theorem reset_works {slots : Slots s} (h : slots.All (Supplier.WorksFor root)) (st : Store) :
    Works root st (slots.reset st) := by
  match slots with
  | .nil => rw [reset]
  | .hole rest =>
    rw [reset]
    exact reset_works ((all_hole _ _).1 h) st
  | .cons head rest =>
    obtain ⟨hhead, hrest⟩ := (all_cons _ _ _).1 h
    rw [reset]
    exact (hhead.reset st).trans (reset_works hrest _)

end Slots

/-- All that a pull or a reset of a part changes is the states of parts. -/
theorem Supplier.worksFor {root : AnySupplier} {s : Signal} (x : Supplier s)
    (hx : root.HasPart ⟨x⟩) : x.WorksFor root := by
  have stirs : ∀ {y : AnySupplier} {st st' : Store}, root.HasPart y → st.Stirs y st' →
      Works root st st' := fun hy h => .single ⟨_, hy, h⟩
  induction x using Supplier.tree_induction with
  | const v => constructor <;> intro st <;> simp only [get, reset] <;> exact .refl
  | host h cell =>
    constructor <;> intro st <;> simp only [get, reset]
    · exact stirs hx (.advance h cell)
    · exact stirs hx (.rewind h cell)
  | random lo hi seed cell =>
    constructor <;> intro st <;> simp only [get, reset] <;> exact stirs hx (.draw ..)
  | @cached s inner cell ih =>
    obtain ⟨hget, hreset⟩ := ih (hx.tail (.cached inner cell))
    constructor <;> intro st <;> simp only [get, reset]
    · cases st.recalled s cell with
      | some v => exact .refl
      | none => exact (hget st).trans (stirs hx (.remember inner cell _))
    · exact (hreset st).trans (stirs hx (.forget inner cell))
  | operated operation slots chance seed cell ih =>
    have hslots : slots.All (WorksFor root) := fun x h => ih x h (hx.tail (.slot h))
    have fold : ∀ {layers : Slots .number}, layers.All (WorksFor root) →
        ∀ (st : Store) (n k : Nat) (acc : Scalar), Works root st
          (layers.fold operation (Random.flip seed chance) n acc (st.move cell k)).2 :=
      fun h st n k acc => (stirs hx (.flip ..)).trans (Slots.fold_works _ _ h n acc _)
    constructor
    · intro st
      cases slots with
      | nil => rw [get]
      | hole layers =>
        rw [get]
        exact fold ((Slots.all_hole _ _).1 hslots) st _ _ _
      | cons base layers =>
        obtain ⟨hbase, hlayers⟩ := (Slots.all_cons _ _ _).1 hslots
        rw [get]
        exact (hbase.get st).trans (fold hlayers _ _ _ _)
    · intro st
      rw [reset]
      exact (stirs hx (.flip ..)).trans (Slots.reset_works hslots _)
  | selected axis thresholds options iha ih =>
    have haxis := iha (hx.tail (.axis axis thresholds options))
    have hoptions : options.All (WorksFor root) := fun x h => ih x h (hx.tail (.option h))
    constructor
    · intro st
      refine (haxis.get st).trans ?_
      simp only [get]
      cases selectIndex (axis.get st).1 thresholds options.length with
      | none => exact .refl
      | some i => exact Slots.pick_works hoptions i _
    · intro st
      rw [reset]
      exact (haxis.reset st).trans (Slots.reset_works hoptions _)
  | map inner f ih =>
    obtain ⟨hget, hreset⟩ := ih (hx.tail (.map inner f))
    constructor <;> intro st <;> simp only [get, reset]
    · exact hget st
    · exact hreset st

end Terrain
