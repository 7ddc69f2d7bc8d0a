import Mathlib.Data.Rat.Floor
import Terrain.Proofs.Scalar.Arithmetic

/-! Numbers and counts: the number of a count, the whole part of a number, and the count of a
number without a fraction. -/
namespace Terrain

open Float.Model UnpackedFloat

namespace Scalar

variable {x y : Scalar} {p q r : ℚ}

theorem rounds_ofNat (n : ℕ) : ∃ r, Rounds n r ⟨Float32.Model.ofNat n⟩ := by
  obtain ⟨r, nearest, rounded, value⟩ := normalize_nearest n 0 .positive
  exact ⟨r, rounds_pack rounded value (by simpa using nearest)⟩

theorem rounds_ofCount (n : UInt64) : ∃ r, Rounds n.toNat r (ofCount n) := rounds_ofNat n.toNat

/-- Counts up to `2 ^ 24` are exact. -/
theorem value_ofCount {n : UInt64} (h : n.toNat ≤ 2 ^ 24) :
    (ofCount n).value? = some (n.toNat : ℚ) := by
  obtain ⟨r, rounds⟩ := rounds_ofCount n
  have bound : (n.toNat : ℚ) ≤ 2 ^ 24 := by exact_mod_cast h
  refine rounds.value_of_fits (fits_intCast (k := n.toNat) ?_) ?_
  · rw [Nat.abs_cast]
    exact_mod_cast h
  · rw [Nat.abs_cast]
    linarith

/-- Turning digits into a whole number drops what lies below one. -/
theorem roundToInt_eq (s : Sign) (m : ℕ) (e : ℤ) :
    roundToInt s m e = s.apply ⌊(m * 2 ^ e : ℚ)⌋ := by
  obtain ⟨k, hk⟩ : ∃ k, k = (e - 0).toNat := ⟨_, rfl⟩
  obtain ⟨n, hn⟩ : ∃ n, n = (0 - (e - k)).toNat := ⟨_, rfl⟩
  have exact : Reads (.ofMantissaAndAccuracy (m <<< k) .exact) (m <<< k : ℕ) := rfl
  have shifted : ((m <<< k : ℕ) / 2 ^ n : ℚ) = m * 2 ^ e := by
    have : e = k - n := by omega
    rw [this, zpow_sub₀ two_ne_zero, Nat.shiftLeft_eq, zpow_natCast, zpow_natCast]
    push_cast
    ring
  have digits := (shifted ▸ exact.shiftRight n).bounds
  rw [roundToInt]
  simp only [decreaseExponent, shiftToExponent, ← hk, ← hn]
  congr 1
  exact (Int.floor_eq_iff.2 digits).symm

theorem toUInt64_value {u : UnpackedFloat} (hp : valueUnpacked u = some p) (nonneg : 0 ≤ p)
    (below : p < 2 ^ 64) : (u.toUInt64.toNat : ℤ) = ⌊p⌋ := by
  have floor_nonneg : 0 ≤ ⌊p⌋ := Int.floor_nonneg.2 nonneg
  have floor_lt : ⌊p⌋ < 2 ^ 64 := Int.floor_lt.2 (by exact_mod_cast below)
  have whole : u.toInt 0 (UInt64.size - 1) = ⌊p⌋ := by
    rcases u with s | _ | s | ⟨s, m, e, hm⟩
    · cases hp
    · cases hp
    · obtain rfl : 0 = p := Option.some.inj hp
      rfl
    · obtain rfl : signed s (m * 2 ^ e) = p := Option.some.inj hp
      have pos : (0 : ℚ) < m * 2 ^ e := by positivity
      cases s
      · simp only [signed] at nonneg
        linarith
      · exact roundToInt_eq .positive m e
  rw [UnpackedFloat.toUInt64, whole, UInt64.toNat_ofNatClamp_of_lt]
  · exact Int.toNat_of_nonneg floor_nonneg
  · have : UInt64.size = 2 ^ 64 := rfl
    omega

theorem toCount_value (h : x.value? = some p) (nonneg : 0 ≤ p) (below : p < 2 ^ 64) :
    ((toCount x).toNat : ℤ) = ⌊p⌋ := toUInt64_value h nonneg below

/-- Where digits reach `2 ^ 23`, none of them is left for a fraction. -/
theorem whole_of_large (h : x.value? = some p) (large : 2 ^ 23 ≤ |p|) : ∃ n : ℤ, p = n := by
  obtain ⟨rounded, _⟩ := unpack_rounded x.toModel
  rw [value?] at h
  generalize x.toModel.unpack = u at h rounded
  rcases u with s | _ | s | ⟨s, m, e, hm⟩
  · cases h
  · cases h
  · exact ⟨0, by simpa [valueUnpacked] using h.symm⟩
  obtain rfl : signed s (m * 2 ^ e) = p := Option.some.inj h
  have exponent : 0 ≤ e := by
    by_contra! fraction
    rw [abs_signed, abs_of_nonneg (by positivity)] at large
    refine large.not_gt ?_
    calc (m * 2 ^ e : ℚ) < 2 ^ 24 * 2 ^ e := by
          gcongr
          exact_mod_cast rounded.below
      _ ≤ 2 ^ 24 * 2 ^ (-1 : ℤ) := by
          gcongr
          · exact one_le_two
          · omega
      _ = 2 ^ 23 := by norm_num
  obtain ⟨k, rfl⟩ := Int.eq_ofNat_of_zero_le exponent
  refine ⟨s.apply (m * 2 ^ k : ℕ), ?_⟩
  rw [cast_apply, zpow_natCast]
  push_cast
  rfl

/-- The whole part of a magnitude is exact below `2 ^ 23`. -/
theorem value_abs_whole (h : x.value? = some p) (small : |p| < 2 ^ 23) :
    (ofCount x.abs.toUInt64).value? = some (⌊|p|⌋ : ℚ) := by
  have bound : ⌊|p|⌋ < 2 ^ 23 := Int.floor_lt.2 (by exact_mod_cast small)
  have count : (x.abs.toUInt64.toNat : ℤ) = ⌊|p|⌋ :=
    toCount_value (value_abs h) (abs_nonneg p) (by linarith)
  rw [value_ofCount (by omega), ← count, Int.cast_natCast]

theorem exists_int_of_floor_abs (h : (⌊|p|⌋ : ℚ) = |p|) : ∃ n : ℤ, p = n := by
  rcases abs_choice p with size | size <;> rw [size] at h
  · exact ⟨_, h.symm⟩
  · exact ⟨-⌊-p⌋, by push_cast; linarith⟩

theorem floor_of_neg (negative : p < 0) (h : (⌊|p|⌋ : ℚ) ≠ |p|) : ⌊p⌋ = -(⌊|p|⌋ + 1) := by
  have low := (Int.floor_le |p|).lt_of_ne h
  have high := Int.lt_floor_add_one |p|
  rw [abs_of_neg negative] at low high ⊢
  rw [Int.floor_eq_iff]
  push_cast
  constructor <;> linarith

/-- Below zero the whole part of a magnitude is one short, and one more is still exact. -/
theorem value_floor_of_neg (h : x.value? = some p) (small : |p| < 2 ^ 23) (negative : p < 0)
    (other : (⌊|p|⌋ : ℚ) ≠ |p|) :
    value? (-(ofCount x.abs.toUInt64 + 1)) = some (⌊p⌋ : ℚ) := by
  have one : value? (1 : Scalar) = some 1 := by decide +kernel
  obtain ⟨r, next⟩ := rounds_add (value_abs_whole h small) one
  have nonneg : 0 ≤ ⌊|p|⌋ := Int.floor_nonneg.2 (abs_nonneg p)
  have bound : ⌊|p|⌋ < 2 ^ 23 := Int.floor_lt.2 (by exact_mod_cast small)
  have fits : Fits (⌊|p|⌋ + 1) := by
    exact_mod_cast fits_intCast (k := ⌊|p|⌋ + 1) (by rw [abs_of_nonneg] <;> omega)
  have size : |(⌊|p|⌋ + 1 : ℚ)| < 2 ^ 128 := by
    have : (⌊|p|⌋ : ℚ) ≤ |p| := Int.floor_le _
    have : (0 : ℚ) ≤ ⌊|p|⌋ := by exact_mod_cast nonneg
    rw [abs_of_nonneg] <;> linarith
  rw [value_neg (next.value_of_fits fits size), floor_of_neg negative other]
  push_cast
  rfl

theorem value_floor (h : x.value? = some p) : (floor x).value? = some (⌊p⌋ : ℚ) := by
  have limit : value? (8388608 : Scalar) = some (2 ^ 23) := by decide +kernel
  have habs := value_abs h
  rw [floor]
  split
  next small =>
    rw [lt_iff_value habs limit] at small
    have whole := value_abs_whole h small
    dsimp only
    split
    next same =>
      obtain ⟨n, rfl⟩ := exists_int_of_floor_abs ((beq_iff_value whole habs).1 same)
      rw [h, Int.floor_intCast]
    next other =>
    split
    next negative =>
      exact value_floor_of_neg h small ((lt_iff_value h value?_zero).1 negative)
        fun same => other ((beq_iff_value whole habs).2 same)
    next positive =>
      have positive : 0 ≤ p :=
        not_lt.1 fun negative => positive ((lt_iff_value h value?_zero).2 negative)
      rw [whole, abs_of_nonneg positive]
  next large =>
    rw [lt_iff_value habs limit, not_lt] at large
    obtain ⟨n, rfl⟩ := whole_of_large h large
    rw [h, Int.floor_intCast]

theorem not_abs_lt (h : x.isFinite = false) (hy : y.value? = some q) : ¬ x.abs < y := by
  have unpacked :
      x.abs.toModel.unpack = .infinity .positive ∨ x.abs.toModel.unpack = .notANumber := by
    change x.toModel.unpack.isFinite = false at h
    change (Float32.Model.pack x.toModel.unpack.abs).unpack = _ ∨
      (Float32.Model.pack x.toModel.unpack.abs).unpack = _
    generalize x.toModel.unpack = u at h
    rcases u with _ | _ | _ | _
    · exact .inl (unpack_pack trivial)
    · exact .inr (unpack_pack trivial)
    · cases h
    · cases h
  rcases unpacked with unpacked | unpacked
  · exact not_lt_of_le (le_of_infinity hy unpacked)
  · intro small
    obtain ⟨s, hs, _⟩ := lt_iff_place.1 small
    rw [place?, unpacked] at hs
    cases hs

/-- What is not finite is its own floor. -/
theorem floor_of_not_finite (h : x.isFinite = false) : floor x = x :=
  if_neg (not_abs_lt (q := 2 ^ 23) h (by decide +kernel))

theorem toCount_infinity (h : x.toModel.unpack = .infinity .positive) :
    toCount x = 18446744073709551615 := by
  change x.toModel.unpack.toUInt64 = _
  rw [h]
  rfl

theorem toCount_notANumber (h : x.toModel.unpack = .notANumber) : toCount x = 0 := by
  change x.toModel.unpack.toUInt64 = _
  rw [h]
  rfl

/-- A whole number that is the value of a count has that count. -/
theorem toCount_of_value {n : UInt64} (h : x.value? = some (n.toNat : ℚ)) : toCount x = n := by
  have count := toCount_value h (Nat.cast_nonneg _) (by exact_mod_cast n.toNat_lt)
  rw [Int.floor_natCast] at count
  exact UInt64.toNat_inj.1 (by exact_mod_cast count)

end Scalar
end Terrain
