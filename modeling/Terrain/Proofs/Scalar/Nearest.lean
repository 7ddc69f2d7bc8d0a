import Mathlib.Algebra.Order.Field.Power
import Mathlib.Algebra.Order.Floor.Ring
import Mathlib.Tactic.Linarith
import Mathlib.Tactic.Positivity
import Mathlib.Tactic.Ring

/-! Rounding to nearest, apart from how it is computed. A rational is rounded to a multiple of the
power of two that twenty-four digits leave it, or of the least power there is; so a rounded
result stays on its side of everything that twenty-four digits can hold. -/
namespace Terrain.Scalar

/-- What twenty-four digits hold, above the least of the powers. -/
def Fits (q : ℚ) : Prop := ∃ k e : ℤ, |k| ≤ 2 ^ 24 ∧ -149 ≤ e ∧ q = k * 2 ^ e

/-- `r` is a multiple of `2 ^ e` and no more than half of that away from `q`, where `e` is the
power that twenty-four digits leave to `q`. -/
structure NearestAt (e : ℤ) (q r : ℚ) : Prop where
  least : -149 ≤ e
  filled : e = -149 ∨ 2 ^ 23 * 2 ^ e ≤ |q|
  below : |q| < 2 ^ 24 * 2 ^ e
  multiple : ∃ k : ℤ, r = k * 2 ^ e
  close : |r - q| ≤ 2 ^ e / 2

/-- `r` is what `q` is rounded to, were there no end to the exponents. -/
def Nearest (q r : ℚ) : Prop := ∃ e, NearestAt e q r

variable {q r y : ℚ} {e : ℤ}

theorem Fits.neg (h : Fits q) : Fits (-q) := by
  obtain ⟨k, e, hk, he, rfl⟩ := h
  exact ⟨-k, e, by rwa [abs_neg], he, by push_cast; ring⟩

theorem fits_intCast {k : ℤ} (hk : |k| ≤ 2 ^ 24) : Fits k := ⟨k, 0, hk, by norm_num, by simp⟩

theorem nearest_zero : Nearest 0 0 :=
  ⟨-149, le_rfl, .inl rfl, by positivity, ⟨0, by simp⟩,
    by simp only [sub_self, abs_zero]; positivity⟩

theorem fits_zero : Fits 0 := by exact_mod_cast fits_intCast (k := 0) (by norm_num)

theorem fits_one : Fits 1 := by exact_mod_cast fits_intCast (k := 1) (by norm_num)

/-- Whatever digits hold is a multiple of the least power. -/
theorem Fits.exists_multiple (h : Fits q) : ∃ k : ℤ, q = k * 2 ^ (-149 : ℤ) := by
  obtain ⟨k, e, _, he, rfl⟩ := h
  obtain ⟨n, rfl⟩ := Int.le.dest he
  refine ⟨k * 2 ^ n, ?_⟩
  rw [zpow_add₀ two_ne_zero, zpow_natCast]
  push_cast
  ring

/-- Of what digits hold below one, the greatest is all of them in a row. -/
theorem Fits.le_of_lt_one (h : Fits q) (hq : q < 1) : q ≤ 1 - 2 ^ (-24 : ℤ) := by
  obtain ⟨k, e, hk, _, rfl⟩ := h
  have digits : (k : ℚ) ≤ 2 ^ 24 := by exact_mod_cast (abs_le.1 hk).2
  rcases le_or_gt (-24) e with he | he
  · obtain ⟨n, rfl⟩ := Int.le.dest he
    have whole : (k * 2 ^ (-24 + n : ℤ) : ℚ) = (k * 2 ^ n : ℤ) * 2 ^ (-24 : ℤ) := by
      rw [zpow_add₀ two_ne_zero, zpow_natCast]
      push_cast
      ring
    rw [whole] at hq ⊢
    have : ((k * 2 ^ n : ℤ) : ℚ) < 2 ^ 24 := by
      norm_num at hq ⊢
      linarith
    have : k * 2 ^ n ≤ 2 ^ 24 - 1 := Int.le_sub_one_of_lt (by exact_mod_cast this)
    have : ((k * 2 ^ n : ℤ) : ℚ) ≤ 2 ^ 24 - 1 := by exact_mod_cast this
    norm_num at this ⊢
    linarith
  · calc (k * 2 ^ e : ℚ) ≤ 2 ^ 24 * 2 ^ e := by gcongr
      _ ≤ 2 ^ 24 * 2 ^ (-25 : ℤ) := by
          gcongr
          · exact one_le_two
          · omega
      _ ≤ 1 - 2 ^ (-24 : ℤ) := by norm_num

theorem NearestAt.neg (h : NearestAt e q r) : NearestAt e (-q) (-r) where
  least := h.least
  filled := by rw [abs_neg]; exact h.filled
  below := by rw [abs_neg]; exact h.below
  multiple := by
    obtain ⟨k, rfl⟩ := h.multiple
    exact ⟨-k, by push_cast; ring⟩
  close := by rw [neg_sub_neg, abs_sub_comm]; exact h.close

theorem Nearest.neg (h : Nearest q r) : Nearest (-q) (-r) := h.imp fun _ h => h.neg

/-- Half a digit is not enough to pass a multiple of the digit. -/
theorem NearestAt.le_multiple (h : NearestAt e q r) {j : ℤ} (hq : q < (j + 1 / 2) * 2 ^ e) :
    r ≤ j * 2 ^ e := by
  obtain ⟨k, rfl⟩ := h.multiple
  have pos : (0 : ℚ) < 2 ^ e := by positivity
  have close := (abs_le.1 h.close).2
  have : (k : ℚ) < j + 1 := by
    refine lt_of_mul_lt_mul_right ?_ pos.le
    linarith
  have : k ≤ j := Int.lt_add_one_iff.1 (by exact_mod_cast this)
  gcongr

/-- Between a rational and anything above it that twenty-four digits hold lies a multiple of the
digit that the rational is rounded to. -/
theorem NearestAt.exists_multiple (h : NearestAt e q r) (hy : Fits y) (hq : q ≤ y) :
    ∃ j : ℤ, q ≤ j * 2 ^ e ∧ j * 2 ^ e ≤ y := by
  obtain ⟨k, f, hk, hf, rfl⟩ := hy
  rcases le_or_gt e f with hef | hfe
  · -- `2 ^ f` is itself a multiple of `2 ^ e`
    obtain ⟨n, rfl⟩ := Int.le.dest hef
    have : (k * 2 ^ (e + n) : ℚ) = (k * 2 ^ n : ℤ) * 2 ^ e := by
      rw [zpow_add₀ two_ne_zero, zpow_natCast]
      push_cast
      ring
    exact ⟨k * 2 ^ n, this ▸ hq, this.ge⟩
  · have filled := h.filled.resolve_left (by omega)
    have small : |(k * 2 ^ f : ℚ)| ≤ 2 ^ 23 * 2 ^ e := by
      have hk : |(k : ℚ)| ≤ 2 ^ 24 := by exact_mod_cast hk
      calc |(k * 2 ^ f : ℚ)| = |(k : ℚ)| * 2 ^ f := by
            rw [abs_mul, abs_of_pos (by positivity : (0 : ℚ) < 2 ^ f)]
        _ ≤ 2 ^ 24 * 2 ^ (e - 1) := by
            gcongr
            · exact one_le_two
            · omega
        _ = 2 ^ 23 * 2 ^ e := by rw [zpow_sub_one₀ two_ne_zero]; ring
    rcases abs_cases q with ⟨habs, _⟩ | ⟨habs, _⟩
    · refine ⟨2 ^ 23, ?_, ?_⟩ <;> push_cast <;> linarith [le_abs_self (k * 2 ^ f : ℚ)]
    · refine ⟨-2 ^ 23, ?_, ?_⟩ <;> push_cast <;> linarith [neg_abs_le (k * 2 ^ f : ℚ)]

theorem Nearest.le (h : Nearest q r) (hy : Fits y) (hq : q ≤ y) : r ≤ y := by
  obtain ⟨e, h⟩ := h
  obtain ⟨j, hqj, hjy⟩ := h.exists_multiple hy hq
  have pos : (0 : ℚ) < 2 ^ e := by positivity
  exact (h.le_multiple (by linarith)).trans hjy

theorem Nearest.ge (h : Nearest q r) (hy : Fits y) (hq : y ≤ q) : y ≤ r :=
  neg_le_neg_iff.1 (h.neg.le hy.neg (neg_le_neg hq))

/-- Among twenty-four full digits, what is more than half a digit short of a number falls to the
one before it. -/
theorem Nearest.le_pred (h : Nearest q r) {k : ℤ} (he : -149 ≤ e) (hk : 2 ^ 23 < k)
    (hk' : k ≤ 2 ^ 24) (hq : q < (k - 1 / 2) * 2 ^ e) : r ≤ (k - 1) * 2 ^ e := by
  have pos : (0 : ℚ) < 2 ^ e := by positivity
  rcases le_or_gt q (2 ^ 23 * 2 ^ e) with low | high
  · have fits : Fits ((k - 1) * 2 ^ e) :=
      ⟨k - 1, e, by rw [abs_le]; constructor <;> omega, he, by push_cast; ring⟩
    refine h.le fits (low.trans ?_)
    have : (2 ^ 23 : ℚ) ≤ k - 1 := by exact_mod_cast Int.le_sub_one_of_lt hk
    gcongr
  · obtain ⟨e', h⟩ := h
    have positive : 0 < q := high.trans' (by positivity)
    have top : q < 2 ^ 24 * 2 ^ e := hq.trans_le (by
      have : (k : ℚ) ≤ 2 ^ 24 := by exact_mod_cast hk'
      gcongr
      linarith)
    have below := h.below
    have filled := h.filled
    rw [abs_of_pos positive] at below filled
    -- twenty-four digits leave `2 ^ e` to what lies between `2 ^ 23` and `2 ^ 24` of them
    have lower : e < e' + 1 := by
      refine (zpow_lt_zpow_iff_right₀ (one_lt_two (α := ℚ))).1 ?_
      rw [zpow_add_one₀ two_ne_zero]
      linarith
    have upper : e' = -149 ∨ e' < e + 1 := filled.imp_right fun filled => by
      refine (zpow_lt_zpow_iff_right₀ (one_lt_two (α := ℚ))).1 ?_
      rw [zpow_add_one₀ two_ne_zero]
      linarith
    obtain rfl : e' = e := by omega
    have := h.le_multiple (j := k - 1) (hq.trans_eq (by push_cast; ring))
    exact_mod_cast this

theorem Nearest.eq_of_fits (h : Nearest q r) (hq : Fits q) : r = q :=
  (h.le hq le_rfl).antisymm (h.ge hq le_rfl)

/-- What is rounded is off by a part of itself, or by half of the least power. -/
theorem Nearest.close (h : Nearest q r) : |r - q| ≤ |q| * 2 ^ (-24 : ℤ) ⊔ 2 ^ (-150 : ℤ) := by
  obtain ⟨e, h⟩ := h
  refine h.close.trans ?_
  rcases h.filled with rfl | filled
  · refine le_max_of_le_right ?_
    norm_num
  · refine le_max_of_le_left ?_
    calc (2 : ℚ) ^ e / 2 = 2 ^ 23 * 2 ^ e * 2 ^ (-24 : ℤ) := by norm_num; ring
      _ ≤ |q| * 2 ^ (-24 : ℤ) := by gcongr

theorem Nearest.fits (h : Nearest q r) : Fits r := by
  obtain ⟨e, h⟩ := h
  obtain ⟨k, rfl⟩ := h.multiple
  refine ⟨k, e, ?_, h.least, rfl⟩
  have pos : (0 : ℚ) < 2 ^ e := by positivity
  have : |(k : ℚ)| * 2 ^ e < (2 ^ 24 + 1) * 2 ^ e := by
    have := abs_sub_abs_le_abs_sub (k * 2 ^ e : ℚ) q
    rw [abs_mul, abs_of_pos pos] at this
    linarith [h.close, h.below]
  have : |(k : ℚ)| < 2 ^ 24 + 1 := lt_of_mul_lt_mul_right this pos.le
  exact Int.lt_add_one_iff.1 (by exact_mod_cast this)

/-- Rounding keeps the order of rationals. Two that were rounded past each other would each lie half
a digit short of a multiple of the digit of the other. -/
theorem Nearest.mono {p r' : ℚ} (h : Nearest p r) (h' : Nearest q r') (hpq : p < q) : r ≤ r' := by
  rcases le_or_gt p r' with hp | hp
  · exact h.le h'.fits hp
  rcases le_or_gt r q with hq | hq
  · exact h'.ge h.fits hq
  have hfits := h.fits
  have hfits' := h'.fits
  obtain ⟨e, h⟩ := h
  obtain ⟨e', h'⟩ := h'
  obtain ⟨j, hqj, hjr⟩ := h'.exists_multiple hfits hq.le
  obtain ⟨k, hpk, hkr⟩ := h.neg.exists_multiple hfits'.neg (neg_le_neg hp.le)
  have above : q ≤ (j - 1 / 2) * 2 ^ e' := by
    by_contra! hlt
    have := h'.neg.le_multiple (j := -j) (by push_cast; linarith)
    push_cast at this
    linarith
  have below : -p ≤ (k - 1 / 2) * 2 ^ e := by
    by_contra! hlt
    have := h.le_multiple (j := -k) (by push_cast; linarith)
    push_cast at this
    linarith
  linarith [(abs_le.1 h.close).2, (abs_le.1 h'.close).1]

end Terrain.Scalar
