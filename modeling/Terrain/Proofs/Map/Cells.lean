import Terrain.Proofs.Map.Baked
import Terrain.Proofs.Scalar.Whole

/-! Cells and points. The middle of a cell is rounded once where it is multiplied by the size of a
cell and once where it is divided by it again, and neither takes it to the edge of the cell as
long as halves are still digits enough. A point off the map is taken for one on it only where it
is not a number, or so little below zero that the quotient by the size of a cell vanishes. -/
namespace Terrain

open Scalar Float.Model UnpackedFloat

namespace HostMap

theorem validate_eq_ok {m : HostMap} : m.validate = .ok () ↔
    m.width ≠ 0 ∧ m.height ≠ 0 ∧ m.fullSize.isFinite = true ∧ 0 < m.fullSize := by
  rw [validate]
  split
  next cells =>
    simp only [Bool.or_eq_true, decide_eq_true_eq] at cells
    exact ⟨nofun, fun h => (cells.elim h.1 h.2.1).elim⟩
  next cells =>
  simp only [Bool.or_eq_true, decide_eq_true_eq, not_or] at cells
  split
  next span =>
    simp only [Bool.and_eq_true, decide_eq_true_eq] at span
    exact ⟨fun _ => ⟨cells.1, cells.2, span⟩, fun _ => rfl⟩
  next span =>
    simp only [Bool.and_eq_true, decide_eq_true_eq] at span
    exact ⟨nofun, fun h => absurd h.2.2 span⟩

/-- What validation leaves: cells along both axes, and a span that is finite and positive. -/
theorem of_validate {m : HostMap} (h : m.validate = .ok ()) :
    0 < m.width.toNat ∧ 0 < m.height.toNat ∧ ∃ span, m.fullSize.value? = some span ∧ 0 < span := by
  obtain ⟨width, height, finite, positive⟩ := validate_eq_ok.1 h
  obtain ⟨span, hspan⟩ := isFinite_iff_value.1 finite
  refine ⟨?_, ?_, span, hspan, (lt_iff_value value?_zero hspan).1 positive⟩
  · exact Nat.pos_of_ne_zero fun h => width (UInt64.toNat_inj.1 h)
  · exact Nat.pos_of_ne_zero fun h => height (UInt64.toNat_inj.1 h)

section Axis
/-! One axis of a map, which spans `full` and has `count` cells along it. -/
variable {full : Scalar} {span : ℚ} {count n : UInt64}

/-- The size of a cell is its share of the span, but for a rounding; a count of cells up to which
numbers are exact bounds the share from above. -/
theorem exists_size (hspan : full.value? = some span) (pos : 0 < span) {k : ℕ} (hk : 0 < k)
    (hk' : k ≤ 2 ^ 22) (hcount : k ≤ count.toNat) :
    ∃ size, (full / ofCount count).value? = some size ∧
      signUnpacked (full / ofCount count).toModel.unpack = some .positive ∧ 0 ≤ size ∧
      size ≤ span / k + (span / k * 2 ^ (-24 : ℤ) ⊔ 2 ^ (-150 : ℤ)) := by
  obtain ⟨fits_span, small⟩ := fits_of_value hspan
  have fits_k : Fits k := by
    have small : |(k : ℤ)| ≤ 2 ^ 24 := by
      rw [Nat.abs_cast]
      exact_mod_cast hk'.trans (by norm_num)
    exact_mod_cast fits_intCast small
  have fits_top : Fits (2 ^ 64) := ⟨1, 64, by norm_num, by norm_num, by norm_num⟩
  have k_pos : (1 : ℚ) ≤ k := by exact_mod_cast hk
  obtain ⟨c, hc⟩ := rounds_ofCount count
  obtain ⟨count_value, low, _⟩ := hc.value_of_between fits_k fits_top (by linarith) (by norm_num)
    (by exact_mod_cast hcount) (by exact_mod_cast count.toNat_lt.le)
  have share_nonneg : 0 ≤ span / c := div_nonneg pos.le (by linarith)
  have share_le : span / c ≤ span / k := by gcongr
  have share_le_span : span / c ≤ span := share_le.trans (div_le_self pos.le k_pos)
  obtain ⟨size, hsize⟩ := rounds_div hspan count_value (by linarith)
  obtain ⟨value, nonneg, _⟩ := hsize.value_of_between fits_zero fits_span (by norm_num)
    (lt_of_abs_lt small) share_nonneg share_le_span
  refine ⟨size, value, sign_div hspan count_value pos (by linarith), nonneg, ?_⟩
  have close := (abs_le.1 hsize.nearest.close).2
  rw [abs_of_nonneg share_nonneg] at close
  calc size ≤ span / c + (span / c * 2 ^ (-24 : ℤ) ⊔ 2 ^ (-150 : ℤ)) := by linarith
    _ ≤ span / k + (span / k * 2 ^ (-24 : ℤ) ⊔ 2 ^ (-150 : ℤ)) := by gcongr

/-- The middle of a cell is not beyond the span, unless the cells are tiny. -/
theorem middle_le {size : ℚ} {k : ℕ} (pos : 0 < span) (hk : 0 < k) (hk' : k ≤ 2 ^ 22)
    (hsize : size ≤ span / k + (span / k * 2 ^ (-24 : ℤ) ⊔ 2 ^ (-150 : ℤ))) :
    (k - 1 / 2) * size ≤ span ⊔ 1 := by
  have k_pos : (1 : ℚ) ≤ k := by exact_mod_cast hk
  have k_le : (k : ℚ) ≤ 2 ^ 22 := by exact_mod_cast hk'
  have share_pos : 0 < span / k := by positivity
  have half_pos : (0 : ℚ) < k - 1 / 2 := by linarith
  rcases le_total (2 ^ (-150 : ℤ)) (span / k * 2 ^ (-24 : ℤ)) with large | tiny
  · rw [sup_eq_left.2 large] at hsize
    refine le_sup_of_le_left ?_
    calc (k - 1 / 2) * size ≤ (k - 1 / 2) * (span / k + span / k * 2 ^ (-24 : ℤ)) := by gcongr
      _ = ((k - 1 / 2) * (1 + 2 ^ (-24 : ℤ))) * (span / k) := by ring
      _ ≤ k * (span / k) := by
          gcongr
          norm_num
          linarith
      _ = span := mul_div_cancel₀ _ (by positivity)
  · rw [sup_eq_right.2 tiny] at hsize
    refine le_sup_of_le_right ?_
    have : span / k ≤ 2 ^ (-126 : ℤ) := by
      norm_num at tiny ⊢
      linarith
    calc (k - 1 / 2) * size ≤ (k - 1 / 2) * (2 ^ (-126 : ℤ) + 2 ^ (-150 : ℤ)) := by
          gcongr
          exact hsize.trans (by gcongr)
      _ ≤ 2 ^ 22 * (2 ^ (-126 : ℤ) + 2 ^ (-150 : ℤ)) := by
          gcongr
          linarith
      _ ≤ 1 := by norm_num

/-- The middle of a cell is rounded once, and to a finite number. -/
theorem exists_middle (hspan : full.value? = some span) (pos : 0 < span) (hn : n.toNat < 2 ^ 22)
    {size : ℚ}
    (hsize : (full / ofCount count).value? = some size) (nonneg : 0 ≤ size)
    (size_le : size ≤ span / (n.toNat + 1 : ℕ) +
      (span / (n.toNat + 1 : ℕ) * 2 ^ (-24 : ℤ) ⊔ 2 ^ (-150 : ℤ))) :
    ∃ x, value? ((ofCount n + 0.5) * (full / ofCount count)) = some x ∧
      Nearest ((n.toNat + 1 / 2) * size) x := by
  have half : value? (0.5 : Scalar) = some (1 / 2) := by decide +kernel
  obtain ⟨fits_span, small⟩ := fits_of_value hspan
  have n_nonneg : (0 : ℚ) ≤ n.toNat := Nat.cast_nonneg _
  have n_lt : (n.toNat : ℚ) + 1 ≤ 2 ^ 22 := by exact_mod_cast hn
  obtain ⟨h, hh⟩ := rounds_add (value_ofCount (n := n) (by omega)) half
  have fits_half : Fits (n.toNat + 1 / 2) :=
    ⟨2 * n.toNat + 1, -1, by rw [abs_of_nonneg] <;> omega, by norm_num,
      by push_cast; norm_num; ring⟩
  have half_value := hh.value_of_fits fits_half (by rw [abs_of_nonneg] <;> linarith)
  obtain ⟨x, hx⟩ := rounds_mul half_value hsize
  refine ⟨x, ?_, hx.nearest⟩
  have x_nonneg : 0 ≤ (n.toNat + 1 / 2) * size := by positivity
  have top := middle_le pos (Nat.succ_pos _) hn size_le
  rw [Nat.cast_succ, add_sub_assoc, show (1 - 1 / 2 : ℚ) = 1 / 2 by norm_num] at top
  rcases le_sup_iff.1 top with top | top
  · exact (hx.value_of_between fits_zero fits_span (by norm_num) (lt_of_abs_lt small)
      x_nonneg top).1
  · exact (hx.value_of_between fits_zero fits_one (by norm_num) (by norm_num) x_nonneg top).1

/-- Rounding takes the middle of a cell no further than a quarter of the cell. -/
theorem middle_close {k : ℕ} {size x : ℚ} (hk : k < 2 ^ 22) (hsize : 2 ^ (-148 : ℤ) ≤ size)
    (hx : Nearest ((k + 1 / 2) * size) x) : k * size ≤ x ∧ x ≤ (k + 3 / 4) * size := by
  have k_lt : (k : ℚ) + 1 ≤ 2 ^ 22 := by exact_mod_cast hk
  have pos : 0 < size := hsize.trans_lt' (by positivity)
  have close := abs_le.1 hx.close
  rw [abs_of_nonneg (by positivity)] at close
  have off : (k + 1 / 2) * size * 2 ^ (-24 : ℤ) ⊔ 2 ^ (-150 : ℤ) ≤ size / 4 := by
    refine sup_le ?_ ?_
    · calc (k + 1 / 2) * size * 2 ^ (-24 : ℤ) ≤ 2 ^ 22 * size * 2 ^ (-24 : ℤ) := by
            gcongr
            linarith
        _ = size / 4 := by ring
    · calc (2 : ℚ) ^ (-150 : ℤ) = 2 ^ (-148 : ℤ) / 4 := by norm_num
        _ ≤ size / 4 := by gcongr
  constructor <;> linarith

/-- The middle of a cell lies in the cell, where there are fewer than `2 ^ 22` before it and the
size of a cell is at least twice the least of numbers. -/
theorem floor_middle (hspan : full.value? = some span) (pos : 0 < span)
    (hcount : n.toNat < count.toNat) (hn : n.toNat < 2 ^ 22)
    (hsize : Float32.ofBits 2 ≤ full / ofCount count) :
    value? (Scalar.floor ((ofCount n + 0.5) * (full / ofCount count) / (full / ofCount count))) =
      some (n.toNat : ℚ) := by
  have least : value? (Float32.ofBits 2) = some (2 ^ (-148 : ℤ)) := by decide +kernel
  have n_nonneg : (0 : ℚ) ≤ n.toNat := Nat.cast_nonneg _
  have n_lt : (n.toNat : ℚ) + 1 ≤ 2 ^ 22 := by exact_mod_cast hn
  obtain ⟨size, size_value, _, nonneg, size_le⟩ :=
    exists_size (k := n.toNat + 1) hspan pos (by omega) (by omega) hcount
  have size_ge : (2 : ℚ) ^ (-148 : ℤ) ≤ size := (le_iff_value least size_value).1 hsize
  have size_pos : 0 < size := size_ge.trans_lt' (by positivity)
  obtain ⟨x, x_value, middle⟩ := exists_middle hspan pos hn size_value nonneg size_le
  obtain ⟨low, high⟩ := middle_close hn size_ge middle
  obtain ⟨q, hq⟩ := rounds_div x_value size_value size_pos.ne'
  have fits_n : Fits n.toNat := by
    exact_mod_cast fits_intCast (k := n.toNat) (by rw [abs_of_nonneg] <;> omega)
  have fits_quarter : Fits (n.toNat + 3 / 4) :=
    ⟨4 * n.toNat + 3, -2, by rw [abs_of_nonneg] <;> omega, by norm_num,
      by push_cast; norm_num; ring⟩
  obtain ⟨q_value, low, high⟩ := hq.value_of_between fits_n fits_quarter (by linarith)
    (by linarith) ((le_div_iff₀ size_pos).2 low) ((div_le_iff₀ size_pos).2 high)
  rw [value_floor q_value]
  congr 1
  have : ⌊q⌋ = n.toNat := Int.floor_eq_iff.2 ⟨by push_cast; exact low, by push_cast; linarith⟩
  rw [this, Int.cast_natCast]

end Axis

section Center
variable {m : HostMap} {c : MapCell}

theorem cellAt_of_values {p : Point} (hc : m.has c = true)
    (hx : value? (Scalar.floor (p / m.cellSize).x) = some (c.column.toNat : ℚ))
    (hy : value? (Scalar.floor (p / m.cellSize).y) = some (c.row.toNat : ℚ)) :
    m.cellAt p = some c := by
  have column : ¬ Scalar.floor (p / m.cellSize).x < 0 := by
    rw [lt_iff_value hx value?_zero, not_lt]
    exact Nat.cast_nonneg _
  have row : ¬ Scalar.floor (p / m.cellSize).y < 0 := by
    rw [lt_iff_value hy value?_zero, not_lt]
    exact Nat.cast_nonneg _
  rw [cellAt]
  simp only [column, row, toCount_of_value hx, toCount_of_value hy, decide_false, Bool.or_self]
  exact if_pos hc

/-- In a map that is valid, the cell that the middle of a cell lies in is that cell, and what a
baked raster holds there is its own sample; the places of the cell have to be below `2 ^ 22`, and
the size of a cell at least twice the least of numbers. Below that size, and from that place on,
there are maps where a rounding takes the middle of a cell to another one. -/
theorem cellAt_center (hm : m.validate = .ok ()) (hc : m.has c = true)
    (hcolumn : c.column.toNat < 2 ^ 22) (hrow : c.row.toNat < 2 ^ 22)
    (hx : Float32.ofBits 2 ≤ m.cellSize.x) (hy : Float32.ofBits 2 ≤ m.cellSize.y) :
    m.cellAt (m.center c) = some c ∧
      ∀ {α : Type} {grid : Grid α} {r : Raster α}, Raster.bake m grid = .ok r →
        ∃ v, grid.valueAt (m.center c) = .ok v ∧ r.get? c = some v ∧
          r.sample? (m.center c) = some v := by
  obtain ⟨_, _, span, hspan, pos⟩ := of_validate hm
  obtain ⟨inside, inside'⟩ := has_iff.1 hc
  have found : m.cellAt (m.center c) = some c :=
    cellAt_of_values hc (floor_middle hspan pos inside hcolumn hx)
      (floor_middle hspan pos inside' hrow hy)
  refine ⟨found, fun h => ?_⟩
  obtain ⟨v, hv, hget⟩ := Raster.get?_of_bake h hc
  obtain ⟨rfl, _⟩ := Raster.bake_eq_ok.1 h
  refine ⟨v, hv, hget, ?_⟩
  rw [Raster.sample?, found]
  exact hget

/-- In the fourth cell of a map of ten, the middle lies in the cell, and is sampled there. -/
theorem cellAt_center_fourth :
    let m : HostMap := ⟨10, 10, 37⟩
    m.cellAt (m.center ⟨3, 0⟩) = some ⟨3, 0⟩ ∧
      ∃ r, Raster.bake m (Grid.ofFunction Point.x) = .ok r ∧
        r.sample? (m.center ⟨3, 0⟩) = some (m.center ⟨3, 0⟩).x := by
  obtain ⟨found, samples⟩ := cellAt_center (m := ⟨10, 10, 37⟩) (c := ⟨3, 0⟩)
    (validate_eq_ok.2 (by decide +kernel))
    (by decide) (by decide) (by decide) (by decide +kernel) (by decide +kernel)
  obtain ⟨r, hr⟩ := (@Raster.exists_bake _ ⟨10, 10, 37⟩ (Grid.ofFunction Point.x)).2
    fun c _ => ⟨_, rfl⟩
  obtain ⟨v, hv, _, hsample⟩ := samples hr
  exact ⟨found, r, hr, hsample.trans (congrArg some (by cases hv; rfl))⟩

/-- Where the size of a cell is rounded to zero, the middle of the second one is taken for a point
of the first; and with ten million cells, the middle of one is taken for a point of the next. -/
theorem cellAt_center_off :
    let tiny : HostMap := ⟨2, 1, Float32.ofBits 1⟩
    let wide : HostMap := ⟨10000000, 1, 9⟩
    (tiny.validate = .ok () ∧ tiny.has ⟨1, 0⟩ = true ∧
      tiny.cellAt (tiny.center ⟨1, 0⟩) = some ⟨0, 0⟩) ∧
    wide.validate = .ok () ∧ wide.has ⟨4444456, 0⟩ = true ∧
      wide.cellAt (wide.center ⟨4444456, 0⟩) = some ⟨4444457, 0⟩ := by
  refine ⟨⟨validate_eq_ok.2 (by decide +kernel), by decide, by decide +kernel⟩,
    validate_eq_ok.2 (by decide +kernel), by decide, by decide +kernel⟩

end Center

/-- The coordinates that fall into the `n`-th row of cells along an axis with cells of a size. -/
inductive Falls (size : Scalar) : Scalar → UInt64 → Prop
  | inside {x : Scalar} (finite : x.isFinite = true) (nonneg : 0 ≤ x) (n : UInt64) : Falls size x n
  | notNumber {x : Scalar} (h : x.isNaN = true) : Falls size x 0
  /-- The quotient by the size is rounded to zero. -/
  | vanishing {x : Scalar} {q s : ℚ} (hx : x.value? = some q) (hsize : size.value? = some s)
      (negative : q < 0) (small : -q * 2 ^ 150 ≤ s) : Falls size x 0

section Off
variable {size x : Scalar} {s : ℚ} {count : UInt64}

/-- A negative number falls into a row of cells only where its quotient by their size vanishes. -/
theorem falls_of_negative {q : ℚ} (hsize : size.value? = some s) (positive : 0 < s)
    (hx : x.value? = some q) (negative : q < 0) (hnonneg : ¬ Scalar.floor (x / size) < 0) :
    Falls size x (toCount (Scalar.floor (x / size))) := by
  obtain ⟨r, hr⟩ := rounds_div hx hsize positive.ne'
  have quotient_neg : q / s < 0 := div_neg_of_neg_of_pos negative positive
  have r_nonpos : r ≤ 0 := hr.nearest.le fits_zero quotient_neg.le
  rcases lt_or_ge (-2 ^ 128) r with finite | beyond
  · have floor := value_floor (hr.value (abs_lt.2 ⟨finite, by linarith⟩))
    rw [lt_iff_value floor value?_zero, not_lt] at hnonneg
    obtain rfl : r = 0 :=
      r_nonpos.antisymm (Int.floor_nonneg.1 (by exact_mod_cast hnonneg))
    rw [toCount_of_value (n := 0) (by simpa using floor)]
    refine .vanishing hx hsize negative ?_
    have close := hr.nearest.close
    rw [zero_sub, abs_neg, abs_of_neg quotient_neg, le_sup_iff] at close
    rcases close with close | close
    · norm_num at close
      linarith
    · rw [← neg_div, div_le_iff₀ positive] at close
      norm_num at close
      linarith
  · have small := hr.below beyond
    rw [floor_of_not_finite (isFinite_of_unpack small)] at hnonneg
    exact absurd (lt_of_infinity small value?_zero) hnonneg

/-- The coordinates that a row of cells which a map has is found for. -/
theorem falls_of_floor (hsize : size.value? = some s) (nonneg : 0 ≤ s)
    (hsign : signUnpacked size.toModel.unpack = some .positive)
    (hnonneg : ¬ Scalar.floor (x / size) < 0) (hlt : toCount (Scalar.floor (x / size)) < count) :
    Falls size x (toCount (Scalar.floor (x / size))) := by
  have finite : size.isFinite = true := isFinite_iff_value.2 ⟨s, hsize⟩
  -- a quotient that is infinite is off the map at either end
  have bounded {t : Sign} (h : (x / size).toModel.unpack = .infinity t) : False := by
    rw [floor_of_not_finite (isFinite_of_unpack h)] at hnonneg hlt
    cases t
    · exact hnonneg (lt_of_infinity h value?_zero)
    · rw [toCount_infinity h, UInt64.lt_iff_toNat_lt] at hlt
      exact absurd hlt (by have := count.toNat_lt; change ¬ 18446744073709551615 < _; omega)
  rcases hx : x.toModel.unpack with t | _ | t | ⟨_ | _, m, e, hm⟩
  · exact (bounded (infinity_div hx finite hsign)).elim
  · have quotient := notANumber_div hx size
    rw [floor_of_not_finite (isFinite_of_unpack quotient), toCount_notANumber quotient]
    exact .notNumber (isNaN_iff_unpack.2 hx)
  · have value : x.value? = some 0 := by rw [value?, hx]; rfl
    exact .inside (isFinite_iff_value.2 ⟨0, value⟩) ((le_iff_value value?_zero value).2 le_rfl) _
  · have value : x.value? = some (-(m * 2 ^ e : ℚ)) := by rw [value?, hx]; rfl
    have magnitude : (0 : ℚ) < m * 2 ^ e := by positivity
    rcases nonneg.eq_or_lt with rfl | positive
    · exact (bounded (div_zero_infinity hx hsize hsign)).elim
    · exact falls_of_negative hsize positive value (neg_neg_of_pos magnitude) hnonneg
  · have value : x.value? = some (m * 2 ^ e : ℚ) := by rw [value?, hx]; rfl
    exact .inside (isFinite_iff_value.2 ⟨_, value⟩)
      ((le_iff_value value?_zero value).2 (by positivity)) _

end Off

/-- In a map that is valid, a point has a cell only if the cell is one of the map's, and each of
its coordinates is a finite number that is not negative; or is not a number, or is so little below
zero, at most the size of a cell over `2 ^ 150`, that the quotient by that size vanishes, and then
the cell is the first along the axis. At any other point a raster has no sample. -/
theorem falls_of_cellAt {m : HostMap} (hm : m.validate = .ok ()) (p : Point) :
    (∀ c, m.cellAt p = some c →
      m.has c = true ∧ Falls m.cellSize.x p.x c.column ∧ Falls m.cellSize.y p.y c.row) ∧
    ∀ {α : Type} (r : Raster α), r.map = m →
      ((∀ n, ¬ Falls m.cellSize.x p.x n) ∨ ∀ n, ¬ Falls m.cellSize.y p.y n) →
        r.sample? p = none := by
  have cells (c : MapCell) (h : m.cellAt p = some c) :
      m.has c = true ∧ Falls m.cellSize.x p.x c.column ∧ Falls m.cellSize.y p.y c.row := by
    obtain ⟨hwidth, hheight, span, hspan, pos⟩ := of_validate hm
    obtain ⟨_, hsize, hsign, nonneg, _⟩ := exists_size hspan pos one_pos (by norm_num) hwidth
    obtain ⟨_, hsize', hsign', nonneg', _⟩ := exists_size hspan pos one_pos (by norm_num) hheight
    rw [cellAt] at h
    split at h
    · cases h
    next outside =>
    simp only [Bool.or_eq_true, decide_eq_true_eq, not_or] at outside
    dsimp only at h
    split at h
    next hc =>
      obtain rfl := Option.some.inj h
      have inside := hc
      simp only [has, Bool.and_eq_true, decide_eq_true_eq] at inside
      exact ⟨hc, falls_of_floor hsize nonneg hsign outside.1 inside.1,
        falls_of_floor hsize' nonneg' hsign' outside.2 inside.2⟩
    · cases h
  refine ⟨cells, ?_⟩
  rintro α r rfl hp
  rw [Raster.sample?]
  cases h : r.map.cellAt p with
  | none => rfl
  | some c =>
    obtain ⟨_, column, row⟩ := cells c h
    exact (hp.elim (fun hx => hx _ column) fun hy => hy _ row).elim

/-- A point of a map of ten falls into its cell, and to the left of the map there is no sample. -/
theorem falls_of_cellAt_ten :
    let ten : HostMap := ⟨10, 10, 40⟩
    ten.cellAt ⟨5, 9⟩ = some ⟨1, 2⟩ ∧ Falls ten.cellSize.x 5 1 ∧
      ∀ r : Raster Scalar, r.map = ten → r.sample? ⟨-1, 9⟩ = none := by
  have valid : (⟨10, 10, 40⟩ : HostMap).validate = .ok () := validate_eq_ok.2 (by decide +kernel)
  have found : (⟨10, 10, 40⟩ : HostMap).cellAt ⟨5, 9⟩ = some ⟨1, 2⟩ := by decide +kernel
  refine ⟨found, ((falls_of_cellAt valid _).1 _ found).2.1, fun r hr => ?_⟩
  refine (falls_of_cellAt valid _).2 r hr (.inl fun n h => ?_)
  have minus : value? (-1 : Scalar) = some (-1) := by decide +kernel
  have size : value? (HostMap.cellSize ⟨10, 10, 40⟩).x = some 4 := by decide +kernel
  cases h with
  | inside _ nonneg => exact absurd nonneg (by decide +kernel)
  | notNumber nan => exact absurd nan (by decide +kernel)
  | vanishing hx hsize _ small =>
    obtain rfl := Option.some.inj (minus.symm.trans hx)
    obtain rfl := Option.some.inj (size.symm.trans hsize)
    norm_num at small

/-- What is not a number falls into the first column, and so does the negative number nearest to
zero, where cells are wide enough. -/
theorem cellAt_of_notNumber :
    let ten : HostMap := ⟨10, 10, 40⟩
    let nan := Float32.ofBits 0x7fc00000
    let below := Float32.ofBits 0x80000001
    ten.validate = .ok () ∧ nan.isNaN = true ∧ ten.cellAt ⟨nan, 3⟩ = some ⟨0, 0⟩ ∧
      below < 0 ∧ ten.cellAt ⟨below, 3⟩ = some ⟨0, 0⟩ :=
  ⟨validate_eq_ok.2 (by decide +kernel), by decide +kernel, by decide +kernel, by decide +kernel,
    by decide +kernel⟩

end HostMap
end Terrain
