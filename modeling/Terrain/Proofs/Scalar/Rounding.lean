import Terrain.Proofs.Scalar.Nearest
import Terrain.Proofs.Scalar.Value

/-! How results are rounded. An exact result comes as digits with two bits for what lies below
the last of them; shifting keeps what the bits say, so that the digits kept are those of the
nearest number, and packing them turns only what lies beyond the last exponent into an infinity. -/
namespace Terrain

open Float.Model UnpackedFloat

namespace Scalar

/-- What digits with a round bit and a sticky bit say of a rational. -/
def Reads : ExtendedMantissa → ℚ → Prop
  | ⟨m, false, false⟩, t => t = m
  | ⟨m, false, true⟩, t => m < t ∧ t < m + 1 / 2
  | ⟨m, true, false⟩, t => t = m + 1 / 2
  | ⟨m, true, true⟩, t => m + 1 / 2 < t ∧ t < m + 1

variable {em : ExtendedMantissa} {t q r : ℚ}

theorem Reads.bounds (h : Reads em t) : em.mantissa ≤ t ∧ t < em.mantissa + 1 := by
  rcases em with ⟨m, _ | _, _ | _⟩ <;> simp only [Reads] at h <;> constructor <;> linarith

theorem Reads.shiftRightOne (h : Reads em t) : Reads em.shiftRightOne (t / 2) := by
  rcases em with ⟨m, b, c⟩
  have whole : (m : ℚ) = 2 * (m / 2 : ℕ) + (m % 2 : ℕ) := by
    exact_mod_cast (Nat.div_add_mod m 2).symm
  have digit : (1 != 0) = true := rfl
  rcases Nat.mod_two_eq_zero_or_one m with last | last <;> rw [last] at whole <;>
    cases b <;> cases c <;>
    simp only [ExtendedMantissa.shiftRightOne, last, digit, Reads, Bool.or_self, Bool.or_true,
      Bool.or_false, bne_self_eq_false, Nat.cast_zero, Nat.cast_one] at h whole ⊢
  case inl.false.false => linarith
  case inr.false.false => linarith
  all_goals constructor <;> linarith

theorem Reads.shiftRight (h : Reads em t) (n : ℕ) : Reads (em >>> n) (t / 2 ^ n) := by
  change Reads (n.repeat ExtendedMantissa.shiftRightOne em) _
  induction n with
  | zero => simpa [Nat.repeat] using h
  | succ n ih =>
    rw [pow_succ, ← div_div]
    exact ih.shiftRightOne

/-- Rounding the digits is off by half of the last at most. -/
theorem Reads.roundedMantissa (h : Reads em t) : |(em.roundedMantissa : ℚ) - t| ≤ 1 / 2 := by
  rw [abs_le]
  rcases em with ⟨m, _ | _, _ | _⟩ <;>
    simp only [Reads, ExtendedMantissa.roundedMantissa, ExtendedMantissa.accuracy,
      Accuracy.roundToNearestEven, Nat.cast_add, Nat.cast_one] at h ⊢
  case true.false =>
    have : ((m % 2 : ℕ) : ℚ) ≤ 1 := by exact_mod_cast Nat.lt_succ_iff.1 (m.mod_lt two_pos)
    have : (0 : ℚ) ≤ (m % 2 : ℕ) := Nat.cast_nonneg _
    constructor <;> linarith
  all_goals constructor <;> linarith

theorem targetExponent_eq (e : ℤ) : Format.binary32.targetExponent e = (e - 24) ⊔ -149 := rfl

/-- Digits that rounding left, one more than fits at most, are brought into form exactly. -/
theorem shiftToTargetExponent_rounded {m : ℕ} {e : ℤ} (below : m ≤ 2 ^ 24) (least : -149 ≤ e)
    (full : e = -149 ∨ 2 ^ 23 ≤ m) :
    ∃ m' e', Canonical m' e' ∧ (m' * 2 ^ e' : ℚ) = m * 2 ^ e ∧
      shiftToTargetExponent Format.binary32 m e .exact = (⟨m', false, false⟩, e') := by
  have target := targetExponent_eq (m.log2 + 1 + e)
  rcases below.lt_or_eq with below | rfl
  · refine ⟨m, e, ⟨below, least, full⟩, rfl, ?_⟩
    have : m.log2 < 24 := by
      rcases Nat.eq_zero_or_pos m with rfl | pos
      · decide
      · exact (Nat.log2_lt pos.ne').2 below
    have : ((m.log2 + 1 + e - 24) ⊔ -149 - e).toNat = 0 := by omega
    simp only [shiftToTargetExponent, shiftToExponent, totalExponent, target, this,
      ExtendedMantissa.ofMantissaAndAccuracy]
    simp [HShiftRight.hShiftRight, Nat.repeat]
  · refine ⟨2 ^ 23, e + 1, ⟨by norm_num, by omega, .inr le_rfl⟩, ?_, ?_⟩
    · rw [zpow_add_one₀ two_ne_zero]
      push_cast
      ring
    · have log : (2 ^ 24).log2 = 24 := Nat.log2_two_pow
      have : ((((2 ^ 24).log2 : ℕ) + 1 + e - 24) ⊔ -149 - e).toNat = 1 := by rw [log]; omega
      simp only [shiftToTargetExponent, shiftToExponent, totalExponent, target, this,
        ExtendedMantissa.ofMantissaAndAccuracy]
      rfl

theorem ofMantissaAndAccuracy_mantissa (m : ℕ) (acc : Accuracy) :
    (ExtendedMantissa.ofMantissaAndAccuracy m acc).mantissa = m := by
  rcases acc with _ | _ | _ | _ <;> rfl

/-- The exponent that digits are shifted to is the one that twenty-four of them leave to what
they stand for. -/
theorem targetExponent_digits {m : ℕ} {e : ℤ} {acc : Accuracy}
    (hq : Reads (.ofMantissaAndAccuracy m acc) (q / 2 ^ e)) (enough : 2 ^ 23 ≤ m ∨ e ≤ -149)
    {f : ℤ} (hf : f = (m.log2 + 1 + e - 24) ⊔ -149) :
    e ≤ f ∧ 0 ≤ q ∧ q < 2 ^ 24 * 2 ^ f ∧ (f = -149 ∨ 2 ^ 23 * 2 ^ f ≤ q) := by
  have pos : (0 : ℚ) < 2 ^ e := by positivity
  obtain ⟨low, high⟩ := hq.bounds
  rw [ofMantissaAndAccuracy_mantissa, le_div_iff₀ pos] at low
  rw [ofMantissaAndAccuracy_mantissa, div_lt_iff₀ pos] at high
  have digits : (m + 1 : ℚ) ≤ 2 ^ (m.log2 + 1) := by exact_mod_cast Nat.lt_log2_self
  refine ⟨?_, low.trans' (by positivity), ?_, ?_⟩
  · rcases enough with enough | enough
    · have := (Nat.le_log2 (by omega)).2 enough
      omega
    · omega
  · calc q < (m + 1) * 2 ^ e := high
      _ ≤ 2 ^ (m.log2 + 1) * 2 ^ e := by gcongr
      _ = 2 ^ (m.log2 + 1 + e) := by rw [zpow_add₀ two_ne_zero]; norm_cast
      _ ≤ 2 ^ (24 + f) := zpow_le_zpow_right₀ one_le_two (by omega)
      _ = 2 ^ 24 * 2 ^ f := by rw [zpow_add₀ two_ne_zero]; norm_cast
  · rcases lt_or_ge (m.log2 + 1 + e - 24) (-149) with least | above
    · exact .inl (hf.trans (max_eq_right least.le))
    rcases Nat.eq_zero_or_pos m with rfl | hm
    · exact .inl (by have : Nat.log2 0 = 0 := rfl; omega)
    · right
      have : (2 ^ m.log2 : ℚ) ≤ m := by exact_mod_cast Nat.log2_self_le hm.ne'
      calc (2 : ℚ) ^ 23 * 2 ^ f = 2 ^ (23 + f) := by rw [zpow_add₀ two_ne_zero]; norm_cast
        _ = 2 ^ (m.log2 + e) := by congr 1; omega
        _ = 2 ^ m.log2 * 2 ^ e := by rw [zpow_add₀ two_ne_zero]; norm_cast
        _ ≤ m * 2 ^ e := by gcongr
        _ ≤ q := low

/-- Digits that are enough, or of a low exponent, are rounded to the nearest number. -/
theorem roundWithAccuracy_nearest {s : Sign} {m : ℕ} {e : ℤ} {acc : Accuracy}
    (hq : Reads (.ofMantissaAndAccuracy m acc) (q / 2 ^ e)) (enough : 2 ^ 23 ≤ m ∨ e ≤ -149) :
    ∃ r, Nearest q r ∧ Rounded (roundWithAccuracy Format.binary32 s m e acc) ∧
      valueUnpacked (roundWithAccuracy Format.binary32 s m e acc) = some (signed s r) := by
  obtain ⟨f, hf⟩ : ∃ f, f = ((m.log2 : ℤ) + 1 + e - 24) ⊔ -149 := ⟨_, rfl⟩
  obtain ⟨hef, nonneg, below, filled⟩ := targetExponent_digits hq enough hf
  obtain ⟨n, rfl⟩ := Int.le.dest hef
  obtain ⟨em, hem⟩ : ∃ em, em = ExtendedMantissa.ofMantissaAndAccuracy m acc >>> n := ⟨_, rfl⟩
  -- the first shift, to the exponent of `q`
  have first : shiftToTargetExponent Format.binary32 m e acc = (em, e + n) := by
    have : ((m.log2 + 1 + e - 24) ⊔ -149 - e).toNat = n := by omega
    simp only [shiftToTargetExponent, shiftToExponent, totalExponent, targetExponent_eq, this, hem]
  have reads : Reads em (q / 2 ^ (e + n)) := by
    rw [hem, zpow_add₀ two_ne_zero, ← div_div]
    exact_mod_cast hq.shiftRight n
  have pos : (0 : ℚ) < 2 ^ (e + n) := by positivity
  have close := abs_le.1 reads.roundedMantissa
  have nearest : NearestAt (e + n) q (em.roundedMantissa * 2 ^ (e + n)) := by
    refine ⟨by omega, by rwa [abs_of_nonneg nonneg], by rwa [abs_of_nonneg nonneg],
      ⟨em.roundedMantissa, by norm_cast⟩, ?_⟩
    calc |(em.roundedMantissa * 2 ^ (e + n) : ℚ) - q|
        = |(em.roundedMantissa : ℚ) - q / 2 ^ (e + n)| * 2 ^ (e + n) := by
          rw [← abs_of_pos pos, ← abs_mul, abs_of_pos pos, sub_mul, div_mul_cancel₀ _ pos.ne']
      _ ≤ 1 / 2 * 2 ^ (e + n) := by gcongr; exact reads.roundedMantissa
      _ = 2 ^ (e + n) / 2 := by ring
  -- the second shift, which drops a digit where the rounding made one more
  obtain ⟨m', e', canonical, same, second⟩ :=
    shiftToTargetExponent_rounded (m := em.roundedMantissa) (e := e + n)
      (by
        have : q / 2 ^ (e + n) < 2 ^ 24 := (div_lt_iff₀ pos).2 below
        have : (em.roundedMantissa : ℚ) < 2 ^ 24 + 1 := by linarith [close.2]
        exact Nat.lt_succ_iff.1 (by exact_mod_cast this))
      nearest.least
      (filled.imp_right fun filled => by
        have : 2 ^ 23 ≤ q / 2 ^ (e + n) := (le_div_iff₀ pos).2 filled
        have : (2 ^ 23 : ℚ) < em.roundedMantissa + 1 := by linarith [close.1]
        exact Nat.lt_succ_iff.1 (by exact_mod_cast this))
  refine ⟨_, ⟨_, nearest⟩, ?_⟩
  rw [roundWithAccuracy, first]
  simp only [second, ← same]
  split
  next zero =>
    refine ⟨trivial, ?_⟩
    cases s <;> simp [valueUnpacked, signed, zero]
  next => exact ⟨canonical, rfl⟩

theorem Nearest.signed (h : Nearest q r) (s : Sign) : Nearest (signed s q) (signed s r) := by
  cases s
  · exact h.neg
  · exact h

/-- Digits of which there may be too few are padded before they are rounded. -/
theorem round_nearest (s : Sign) {m : ℕ} (hm : 0 < m) (e : ℤ) :
    ∃ r, Nearest (m * 2 ^ e) r ∧ Rounded (UnpackedFloat.round Format.binary32 s m e) ∧
      valueUnpacked (UnpackedFloat.round Format.binary32 s m e) = some (signed s r) := by
  obtain ⟨k, hk⟩ : ∃ k, k = (e - ((m.log2 + 1 + e - 24) ⊔ -149)).toNat := ⟨_, rfl⟩
  have padded : (m <<< k : ℕ) = (m * 2 ^ e : ℚ) / 2 ^ (e - k) := by
    rw [Nat.shiftLeft_eq, zpow_sub₀ two_ne_zero, zpow_natCast]
    push_cast
    field_simp
  have enough : 2 ^ 23 ≤ m <<< k ∨ e - k ≤ -149 := by
    rcases lt_or_ge (m.log2 + 1 + e - 24) (-149) with least | above
    · omega
    · left
      calc 2 ^ 23 ≤ 2 ^ (m.log2 + k) := Nat.pow_le_pow_right two_pos (by omega)
        _ = 2 ^ m.log2 * 2 ^ k := pow_add ..
        _ ≤ m * 2 ^ k := Nat.mul_le_mul_right _ (Nat.log2_self_le hm.ne')
        _ = m <<< k := (Nat.shiftLeft_eq ..).symm
  simp only [UnpackedFloat.round, decreaseExponent, totalExponent, targetExponent_eq, ← hk]
  exact roundWithAccuracy_nearest padded.symm enough

theorem normalize_nearest (n e : ℤ) (z : Sign) :
    ∃ r, Nearest (n * 2 ^ e) r ∧ Rounded (UnpackedFloat.normalize Format.binary32 n e z) ∧
      valueUnpacked (UnpackedFloat.normalize Format.binary32 n e z) = some r := by
  rw [UnpackedFloat.normalize]
  split
  next h =>
    have := compare_lt_iff_lt.1 h
    obtain ⟨m, rfl⟩ : ∃ m : ℕ, n = -m := ⟨n.natAbs, by omega⟩
    obtain ⟨r, nearest, rounded, value⟩ := round_nearest .negative (m := m) (by omega) e
    refine ⟨-r, ?_, by simpa using rounded, by simpa [signed] using value⟩
    push_cast
    rw [neg_mul]
    exact nearest.neg
  next h =>
    obtain rfl := compare_eq_iff_eq.1 h
    exact ⟨0, by simpa using nearest_zero, trivial, rfl⟩
  next h =>
    have := compare_gt_iff_gt.1 h
    obtain ⟨m, rfl⟩ : ∃ m : ℕ, n = m := ⟨n.natAbs, by omega⟩
    exact round_nearest .positive (by omega) e

/-- `r` is what `q` is rounded to, and `x` is what the last of the exponents leaves of `r`. -/
structure Rounds (q r : ℚ) (x : Scalar) : Prop where
  nearest : Nearest q r
  value : |r| < 2 ^ 128 → x.value? = some r
  above : 2 ^ 128 ≤ r → x.toModel.unpack = .infinity .positive
  below : r ≤ -2 ^ 128 → x.toModel.unpack = .infinity .negative

theorem Rounds.fits {x : Scalar} (h : Rounds q r x) : Fits r := h.nearest.fits

/-- What lies between two numbers that digits and exponents hold is rounded to a finite number
between them. -/
theorem Rounds.value_of_between {x : Scalar} {a b : ℚ} (h : Rounds q r x) (ha : Fits a)
    (hb : Fits b) (ha' : -2 ^ 128 < a) (hb' : b < 2 ^ 128) (haq : a ≤ q) (hqb : q ≤ b) :
    x.value? = some r ∧ a ≤ r ∧ r ≤ b := by
  have low := h.nearest.ge ha haq
  have high := h.nearest.le hb hqb
  refine ⟨h.value (abs_lt.2 ⟨?_, ?_⟩), low, high⟩ <;> linarith

/-- What the exact result of an operation is, its rounding is, if digits and exponents hold it. -/
theorem Rounds.value_of_fits {x : Scalar} (h : Rounds q r x) (hq : Fits q) (small : |q| < 2 ^ 128) :
    x.value? = some q := by
  obtain rfl := h.nearest.eq_of_fits hq
  exact h.value small

/-- Digits in form stand beyond all numbers exactly where their exponent is beyond the last. -/
theorem Canonical.beyond {m : ℕ} {e : ℤ} (h : Canonical m e) :
    (2 : ℚ) ^ 128 ≤ m * 2 ^ e ↔ 105 ≤ e := by
  constructor
  · intro big
    by_contra! he
    refine big.not_gt ?_
    calc (m * 2 ^ e : ℚ) < 2 ^ 24 * 2 ^ e := by
          gcongr
          exact_mod_cast h.below
      _ ≤ 2 ^ 24 * 2 ^ (104 : ℤ) := by
          gcongr
          · exact one_le_two
          · omega
      _ = 2 ^ 128 := by norm_num
  · intro he
    have filled : (2 ^ 23 : ℚ) ≤ m := by exact_mod_cast h.full.resolve_left (by omega)
    calc (2 ^ 128 : ℚ) = 2 ^ 23 * 2 ^ (105 : ℤ) := by norm_num
      _ ≤ m * 2 ^ e := by
          gcongr
          exact one_le_two

theorem rounds_pack {u : UnpackedFloat} (hu : Rounded u) (hr : valueUnpacked u = some r)
    (h : Nearest q r) : Rounds q r ⟨Float32.Model.pack u⟩ := by
  have unpacked : (Float32.Model.pack u).unpack = limited u := unpack_pack hu
  rcases u with s | _ | s | ⟨s, m, e, hm⟩
  · cases hr
  · cases hr
  · obtain rfl : 0 = r := Option.some.inj hr
    refine ⟨h, fun _ => by rw [value?, unpacked]; rfl, fun big => ?_, fun big => ?_⟩ <;>
      norm_num at big
  · obtain rfl : signed s (m * 2 ^ e) = r := Option.some.inj hr
    have pos : (0 : ℚ) < m * 2 ^ e := by positivity
    have beyond := Canonical.beyond hu
    have size : |signed s (m * 2 ^ e)| = m * 2 ^ e := by
      cases s
      · exact (abs_neg _).trans (abs_of_pos pos)
      · exact abs_of_pos pos
    refine ⟨h, fun small => ?_, fun big => ?_, fun big => ?_⟩
    · rw [size, ← not_le, beyond] at small
      rw [value?, unpacked, limited, if_neg small]
      rfl
    · cases s <;> simp only [signed] at big
      · linarith
      · rw [unpacked, limited, if_pos (beyond.1 big)]
    · cases s <;> simp only [signed] at big
      · rw [unpacked, limited, if_pos (beyond.1 (neg_le_neg_iff.1 big))]
      · linarith

end Scalar
end Terrain
