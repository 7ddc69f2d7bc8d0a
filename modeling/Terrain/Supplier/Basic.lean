import Terrain.Operation
import Terrain.Random.Draw
import Terrain.Supplier.Store
import Terrain.Threshold

/-! Suppliers: lazy sources of values that can be pulled again and again and reset to their
start. A supplier is a tree; what it remembers lies in the cells it names, so a subtree under
two parents is one supplier that both of them pull. -/
namespace Terrain

/-- A supplier that the host provides. Its state is a number: a pull yields a value and the next
state, and a reset finds the state to start again from. -/
structure Host (α : Type) where
  next : Nat → α × Nat
  rewind : Nat → Nat

mutual
/-- A source of values of one sort. -/
inductive Supplier : Signal → Type
  | const {s : Signal} (v : s.Carrier) : Supplier s
  | host {s : Signal} (h : Host s.Carrier) (cell : Cell) : Supplier s
  /-- A fresh number between two bounds on every pull. -/
  | random (min max : Scalar) (seed : Seed) (cell : Cell) : Supplier .number
  /-- Keeps the first value pulled until the next reset. -/
  | cached {s : Signal} (inner : Supplier s) (cell : Cell) : Supplier s
  /-- The fold of the slots, each beyond the first taking part when its coin comes up. -/
  | operated (operation : Operation) (slots : Slots .number) (chance : Scalar) (seed : Seed)
      (cell : Cell) : Supplier .number
  /-- One of the options, chosen on every pull by where the axis falls among thresholds. -/
  | selected {s : Signal} (axis : Supplier .number) (thresholds : List Scalar)
      (options : Slots s) : Supplier s
  /-- Applies a function to every value pulled. -/
  | map {s t : Signal} (inner : Supplier s) (f : s.Carrier → t.Carrier) : Supplier t
/-- A row of slots, some of which may be empty. -/
inductive Slots : Signal → Type
  | nil {s : Signal} : Slots s
  | hole {s : Signal} (rest : Slots s) : Slots s
  | cons {s : Signal} (head : Supplier s) (rest : Slots s) : Slots s
end

namespace Slots

/-- The row that a list of slots makes. -/
def ofList {s : Signal} : List (Option (Supplier s)) → Slots s
  | [] => nil
  | none :: rest => hole (ofList rest)
  | some head :: rest => cons head (ofList rest)

def toList {s : Signal} : Slots s → List (Option (Supplier s))
  | nil => []
  | hole rest => none :: rest.toList
  | cons head rest => some head :: rest.toList

def length {s : Signal} : Slots s → Nat
  | nil => 0
  | hole rest => rest.length + 1
  | cons _ rest => rest.length + 1

@[simp] theorem toList_ofList {s : Signal} (xs : List (Option (Supplier s))) :
    (ofList xs).toList = xs := by
  induction xs with
  | nil => rfl
  | cons x xs ih => cases x <;> simp [ofList, toList, ih]

@[simp] theorem length_ofList {s : Signal} (xs : List (Option (Supplier s))) :
    (ofList xs).length = xs.length := by
  induction xs with
  | nil => rfl
  | cons x xs ih => cases x <;> simp [ofList, length, ih]

end Slots

mutual
/-- Pulls a value. A fold takes one draw for each slot beyond the first, empty or not, before it
pulls the layers that take part. -/
def Supplier.get {s : Signal} : Supplier s → Store → s.Carrier × Store
  | .const v, st => (v, st)
  | .host h cell, st =>
    let (v, n) := h.next (st.position cell)
    (v, st.move cell n)
  | .random lo hi seed cell, st =>
    let n := st.position cell
    (lo + (hi - lo) * Random.unit (seed.draw n), st.move cell (n + 1))
  | @Supplier.cached s inner cell, st =>
    match st.recalled s cell with
    | some v => (v, st)
    | none =>
      let (v, st) := inner.get st
      (v, st.remember s cell v)
  | .operated operation .nil _ _ _, st => (operation.neutral, st)
  | .operated operation (.hole layers) chance seed cell, st =>
    let n := st.position cell
    layers.fold operation (Random.flip seed chance) n operation.neutral
      (st.move cell (n + layers.length))
  | .operated operation (.cons base layers) chance seed cell, st =>
    let (v, st) := base.get st
    let n := st.position cell
    layers.fold operation (Random.flip seed chance) n v (st.move cell (n + layers.length))
  | .selected axis thresholds options, st =>
    let (v, st) := axis.get st
    match selectIndex v thresholds options.length with
    | some i => options.pick i st
    | none => (s.blank, st)
  | .map inner f, st =>
    let (v, st) := inner.get st
    (f v, st)

/-- Folds a row of layers into a number. The layer whose position is `n` takes part when the
coin of that position comes up; an empty one contributes nothing. -/
def Slots.fold (operation : Operation) (flip : Nat → Bool) :
    Slots .number → Nat → Scalar → Store → Scalar × Store
  | .nil, _, acc, st => (acc, st)
  | .hole rest, n, acc, st => rest.fold operation flip (n + 1) acc st
  | .cons layer rest, n, acc, st =>
    if flip n then
      let (v, st) := layer.get st
      rest.fold operation flip (n + 1) (operation.apply acc v) st
    else rest.fold operation flip (n + 1) acc st

/-- Pulls the slot at an index; an empty slot, or one beyond the end, yields the blank value. -/
def Slots.pick {s : Signal} : Slots s → Nat → Store → s.Carrier × Store
  | .nil, _, st => (s.blank, st)
  | .hole _, 0, st => (s.blank, st)
  | .cons head _, 0, st => head.get st
  | .hole rest, i + 1, st => rest.pick i st
  | .cons _ rest, i + 1, st => rest.pick i st
end

mutual
/-- Takes a supplier, and all below it, back to the start. -/
def Supplier.reset {s : Signal} : Supplier s → Store → Store
  | .const _, st => st
  | .host h cell, st => st.move cell (h.rewind (st.position cell))
  | .random _ _ _ cell, st => st.move cell 0
  | @Supplier.cached s inner cell, st => (inner.reset st).forget s cell
  | .operated _ slots _ _ cell, st => slots.reset (st.move cell 0)
  | .selected axis _ options, st => options.reset (axis.reset st)
  | .map inner _, st => inner.reset st

def Slots.reset {s : Signal} : Slots s → Store → Store
  | .nil, st => st
  | .hole rest, st => rest.reset st
  | .cons head rest, st => rest.reset (head.reset st)
end

/-- The value of a supplier at the start: a reset, then a pull. -/
def Supplier.read {s : Signal} (x : Supplier s) (st : Store) : s.Carrier × Store :=
  x.get (x.reset st)

end Terrain
