import Terrain.Supplier.Basic

/-! The value of a supplier at its start, read off its tree alone. No store takes part: the draws
are those at position zero of the streams, and a supplier that remembers has the value of the
supplier that it remembers. -/
namespace Terrain

namespace Operation

/-- Folds a row of layers into a number. The layer whose position is `n` takes part when the
coin of that position comes up; an empty one contributes nothing. -/
def foldLayers (operation : Operation) (flip : Nat → Bool) :
    List (Option Scalar) → Nat → Scalar → Scalar
  | [], _, acc => acc
  | none :: rest, n, acc => foldLayers operation flip rest (n + 1) acc
  | some v :: rest, n, acc =>
    foldLayers operation flip rest (n + 1) (if flip n then operation.apply acc v else acc)

/-- Folds a row of slots into a number. An empty base starts the fold at the neutral number. -/
def foldSlots (operation : Operation) (chance : Scalar) (seed : Seed) :
    List (Option Scalar) → Scalar
  | [] => operation.neutral
  | base :: layers =>
    foldLayers operation (Random.flip seed chance) layers 0 (base.getD operation.neutral)

end Operation

/-- The option that a number chooses from a row, some of whose slots may be empty. -/
def Signal.chosen (s : Signal) (axis : Scalar) (thresholds : List Scalar)
    (options : List (Option s.Carrier)) : s.Carrier :=
  match selectIndex axis thresholds options.length with
  | some i => (options[i]?.join).getD s.blank
  | none => s.blank

mutual
/-- The value of a supplier at its start. -/
def Supplier.value {s : Signal} : Supplier s → s.Carrier
  | .const v => v
  | .host h _ => (h.next (h.rewind 0)).1
  | .random lo hi seed _ => lo + (hi - lo) * Random.unit (seed.draw 0)
  | .cached inner _ => inner.value
  | .operated operation slots chance seed _ => operation.foldSlots chance seed slots.values
  | .selected axis thresholds options => s.chosen axis.value thresholds options.values
  | .map inner f => f inner.value

/-- The values of the slots of a row at their starts. -/
def Slots.values {s : Signal} : Slots s → List (Option s.Carrier)
  | .nil => []
  | .hole rest => none :: rest.values
  | .cons head rest => some head.value :: rest.values
end

namespace Slots

@[simp] theorem length_values {s : Signal} (slots : Slots s) :
    slots.values.length = slots.length := by
  match slots with
  | .nil => rfl
  | .hole rest => simp [values, length, length_values rest]
  | .cons head rest => simp [values, length, length_values rest]

theorem values_ofList {s : Signal} (xs : List (Option (Supplier s))) :
    (ofList xs).values = xs.map (Option.map Supplier.value) := by
  induction xs with
  | nil => rfl
  | cons x xs ih => cases x <;> simp [ofList, values, ih]

/-- A statement about every supplier of a row. -/
def All {s : Signal} (p : Supplier s → Prop) (slots : Slots s) : Prop :=
  ∀ x, some x ∈ slots.toList → p x

theorem All.mono {s : Signal} {p q : Supplier s → Prop} {slots : Slots s} (h : slots.All p)
    (hpq : ∀ x, p x → q x) : slots.All q := fun x hx => hpq x (h x hx)

@[simp] theorem all_hole {s : Signal} (p : Supplier s → Prop) (rest : Slots s) :
    (hole rest).All p ↔ rest.All p := by
  simp [All, toList]

@[simp] theorem all_cons {s : Signal} (p : Supplier s → Prop) (head : Supplier s)
    (rest : Slots s) : (cons head rest).All p ↔ p head ∧ rest.All p := by
  simp [All, toList]

theorem all_ofList {s : Signal} (p : Supplier s → Prop) (xs : List (Option (Supplier s))) :
    (ofList xs).All p ↔ ∀ x, some x ∈ xs → p x := by
  simp [All]

end Slots
end Terrain
