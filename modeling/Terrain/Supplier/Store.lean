import Std.Data.HashMap
import Terrain.Signal

/-! The mutable part of suppliers. A supplier that remembers something names a cell, and the
store says what its cell holds; suppliers that name one cell share what it holds. -/
namespace Terrain

abbrev Cell := Nat

/-- The contents of all cells. A cell that was never written stands at position zero and
remembers no value. -/
structure Store where
  /-- How far along its stream, or along the states of a host, a cell has come. -/
  positions : Std.HashMap Cell Nat := {}
  /-- The numbers that cells remember. -/
  numbers : Std.HashMap Cell Scalar := {}
  /-- The tokens that cells remember. -/
  tokens : Std.HashMap Cell (Option Token) := {}
  /-- The least cell that no supplier has been given. -/
  fresh : Cell := 0

namespace Store

def position (st : Store) (c : Cell) : Nat := st.positions.getD c 0

def move (st : Store) (c : Cell) (n : Nat) : Store :=
  { st with positions := st.positions.insert c n }

def recalled (st : Store) : (s : Signal) → Cell → Option s.Carrier
  | .number, c => st.numbers[c]?
  | .token, c => st.tokens[c]?

def remember (st : Store) : (s : Signal) → Cell → s.Carrier → Store
  | .number, c, v => { st with numbers := st.numbers.insert c v }
  | .token, c, v => { st with tokens := st.tokens.insert c v }

def forget (st : Store) : (s : Signal) → Cell → Store
  | .number, c => { st with numbers := st.numbers.erase c }
  | .token, c => { st with tokens := st.tokens.erase c }

/-- Hands out a cell that no supplier has been given. -/
def allocate (st : Store) : Cell × Store := (st.fresh, { st with fresh := st.fresh + 1 })

@[simp] theorem position_move_self (st : Store) (c : Cell) (n : Nat) :
    (st.move c n).position c = n := by
  simp [position, move]

theorem position_move_of_ne (st : Store) {c d : Cell} (n : Nat) (h : c ≠ d) :
    (st.move c n).position d = st.position d := by
  simp [position, move, Std.HashMap.getD_insert, h]

@[simp] theorem recalled_move (st : Store) (c d : Cell) (n : Nat) (s : Signal) :
    (st.move c n).recalled s d = st.recalled s d := by
  cases s <;> rfl

@[simp] theorem fresh_move (st : Store) (c : Cell) (n : Nat) : (st.move c n).fresh = st.fresh := rfl

@[simp] theorem position_remember (st : Store) (s : Signal) (c d : Cell) (v : s.Carrier) :
    (st.remember s c v).position d = st.position d := by
  cases s <;> rfl

@[simp] theorem recalled_remember_self (st : Store) (s : Signal) (c : Cell) (v : s.Carrier) :
    (st.remember s c v).recalled s c = some v := by
  cases s <;> simp [recalled, remember]

theorem recalled_remember_of_ne (st : Store) {s t : Signal} {c d : Cell} (v : s.Carrier)
    (h : c ≠ d) : (st.remember s c v).recalled t d = st.recalled t d := by
  cases s <;> cases t <;> simp [recalled, remember, Std.HashMap.getElem?_insert, h]

@[simp] theorem fresh_remember (st : Store) (s : Signal) (c : Cell) (v : s.Carrier) :
    (st.remember s c v).fresh = st.fresh := by
  cases s <;> rfl

@[simp] theorem position_forget (st : Store) (s : Signal) (c d : Cell) :
    (st.forget s c).position d = st.position d := by
  cases s <;> rfl

@[simp] theorem recalled_forget_self (st : Store) (s : Signal) (c : Cell) :
    (st.forget s c).recalled s c = none := by
  cases s <;> simp [recalled, forget]

theorem recalled_forget_of_ne (st : Store) {s t : Signal} {c d : Cell} (h : c ≠ d) :
    (st.forget s c).recalled t d = st.recalled t d := by
  cases s <;> cases t <;> simp [recalled, forget, Std.HashMap.getElem?_erase, h]

@[simp] theorem fresh_forget (st : Store) (s : Signal) (c : Cell) :
    (st.forget s c).fresh = st.fresh := by
  cases s <;> rfl

@[simp] theorem allocate_fst (st : Store) : st.allocate.1 = st.fresh := rfl

@[simp] theorem fresh_allocate (st : Store) : st.allocate.2.fresh = st.fresh + 1 := rfl

@[simp] theorem position_allocate (st : Store) (c : Cell) :
    st.allocate.2.position c = st.position c := rfl

@[simp] theorem recalled_allocate (st : Store) (s : Signal) (c : Cell) :
    st.allocate.2.recalled s c = st.recalled s c := by
  cases s <;> rfl

end Store
end Terrain
