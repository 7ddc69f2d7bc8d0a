import Mathlib.Data.Prod.Lex
import Mathlib.Order.Compare
import Terrain.Scalar

/-! The order of numbers. Each stands at a place on a line, the infinities at its ends, and two
compare as their places do; what is not a number has no place, and compares with nothing. -/
namespace Terrain

open Float.Model UnpackedFloat

namespace Scalar

/-- A place on the line: the part of the line, and within it exponent and digits, which count
downwards among the negative numbers. -/
abbrev Place := Int ×ₗ Int ×ₗ Int

def placeUnpacked : UnpackedFloat → Option Place
  | .notANumber => none
  | .infinity .negative => some (toLex (-2, toLex (0, 0)))
  | .finite .negative m e _ => some (toLex (-1, toLex (-e, -m)))
  | .zero _ => some (toLex (0, toLex (0, 0)))
  | .finite .positive m e _ => some (toLex (1, toLex (e, m)))
  | .infinity .positive => some (toLex (2, toLex (0, 0)))

/-- Where a number stands on the line. -/
def place? (x : Scalar) : Option Place := placeUnpacked x.toModel.unpack

theorem compare_neg (m n : Int) : compare (-m) (-n) = (compare m n).swap := by
  rcases lt_trichotomy m n with h | rfl | h
  · rw [compare_lt_iff_lt.2 h, Ordering.swap, compare_gt_iff_gt]
    omega
  · simp
  · rw [compare_gt_iff_gt.2 h, Ordering.swap, compare_lt_iff_lt]
    omega

theorem compare_natCast (m n : Nat) : compare (m : Int) n = compare m n := by
  rcases lt_trichotomy m n with h | rfl | h
  · rw [compare_lt_iff_lt.2 h, compare_lt_iff_lt]
    omega
  · simp
  · rw [compare_gt_iff_gt.2 h, compare_gt_iff_gt]
    omega

theorem compare_unpacked (a b : UnpackedFloat) :
    a.compare b = (placeUnpacked a).bind fun x => (placeUnpacked b).map (compare x) := by
  rcases a with s | _ | s | ⟨s, m, e, _⟩ <;> rcases b with t | _ | t | ⟨t, n, f, _⟩ <;>
    (try cases s) <;> (try cases t) <;> first
    | rfl
    | dsimp only [UnpackedFloat.compare, placeUnpacked, Option.bind_some, Option.map_some]
      simp [Prod.Lex.compare_def, compareLex, compareOn, compare_neg, compare_natCast,
        Ordering.swap_then]

variable {a b c : Scalar}

theorem lt_iff_place : a < b ↔ ∃ x ∈ a.place?, ∃ y ∈ b.place?, x < y := by
  have : a < b ↔ a.toModel.unpack.compare b.toModel.unpack = some .lt := by
    change Float32.lt a b = true ↔ _
    rw [Float32.lt, decide_eq_true_iff, ← beq_iff_eq]
    exact Iff.rfl
  rw [this, compare_unpacked]
  change (a.place?.bind fun x => b.place?.map (compare x)) = some .lt ↔ _
  simp only [Option.bind_eq_some_iff, Option.map_eq_some_iff, compare_lt_iff_lt, Option.mem_def]

theorem le_iff_place : a ≤ b ↔ ∃ x ∈ a.place?, ∃ y ∈ b.place?, x ≤ y := by
  have : a ≤ b ↔ (a.toModel.unpack.compare b.toModel.unpack).any (·.isLE) = true := by
    change Float32.le a b = true ↔ _
    rw [Float32.le, decide_eq_true_iff]
    exact Iff.rfl
  rw [this, compare_unpacked]
  change (a.place?.bind fun x => b.place?.map (compare x)).any (·.isLE) = true ↔ _
  have isLE_iff (x y : Place) : (compare x y).isLE = true ↔ x ≤ y :=
    Ordering.ne_gt_iff_isLE.symm.trans compare_le_iff_le
  cases a.place? <;> cases b.place? <;> simp [isLE_iff]

theorem isNaN_iff_place : a.isNaN = true ↔ a.place? = none := by
  change a.toModel.unpack.isNaN = true ↔ placeUnpacked a.toModel.unpack = none
  rcases a.toModel.unpack with s | _ | s | ⟨s, m, e, _⟩
  · cases s <;> exact iff_of_false nofun nofun
  · exact iff_of_true rfl rfl
  · exact iff_of_false nofun nofun
  · cases s <;> exact iff_of_false nofun nofun

theorem lt_of_lt_of_le (h : a < b) (h' : b ≤ c) : a < c := by
  obtain ⟨x, hx, y, hy, hxy⟩ := lt_iff_place.1 h
  obtain ⟨y', hy', z, hz, hyz⟩ := le_iff_place.1 h'
  obtain rfl := Option.mem_unique hy hy'
  exact lt_iff_place.2 ⟨x, hx, z, hz, hxy.trans_le hyz⟩

theorem le_trans (h : a ≤ b) (h' : b ≤ c) : a ≤ c := by
  obtain ⟨x, hx, y, hy, hxy⟩ := le_iff_place.1 h
  obtain ⟨y', hy', z, hz, hyz⟩ := le_iff_place.1 h'
  obtain rfl := Option.mem_unique hy hy'
  exact le_iff_place.2 ⟨x, hx, z, hz, hxy.trans hyz⟩

theorem not_lt_of_le (h : a ≤ b) : ¬ b < a := by
  intro h'
  obtain ⟨x, hx, y, hy, hxy⟩ := le_iff_place.1 h
  obtain ⟨y', hy', x', hx', hyx⟩ := lt_iff_place.1 h'
  obtain rfl := Option.mem_unique hx hx'
  obtain rfl := Option.mem_unique hy hy'
  exact hxy.not_gt hyx

theorem not_lt_of_isNaN (h : b.isNaN = true) : ¬ a < b := by
  intro h'
  obtain ⟨_, _, y, hy, _⟩ := lt_iff_place.1 h'
  simp [isNaN_iff_place.1 h] at hy

theorem not_le_of_isNaN (h : b.isNaN = true) : ¬ a ≤ b := by
  intro h'
  obtain ⟨_, _, y, hy, _⟩ := le_iff_place.1 h'
  simp [isNaN_iff_place.1 h] at hy

theorem exists_place_of_not_isNaN (h : a.isNaN = false) : ∃ x, a.place? = some x := by
  refine Option.ne_none_iff_exists'.1 fun hnone => ?_
  rw [isNaN_iff_place.2 hnone] at h
  cases h

theorem le_of_not_lt (ha : a.isNaN = false) (hb : b.isNaN = false) (h : ¬ a < b) : b ≤ a := by
  obtain ⟨x, hx⟩ := exists_place_of_not_isNaN ha
  obtain ⟨y, hy⟩ := exists_place_of_not_isNaN hb
  exact le_iff_place.2 ⟨y, hy, x, hx, not_lt.1 fun hxy => h (lt_iff_place.2 ⟨x, hx, y, hy, hxy⟩)⟩

end Scalar
end Terrain
