import Terrain.Proofs.Scalar.Rounding

/-! The arithmetic of numbers: each operation on finite numbers rounds the exact result of the
operation on their values. -/
namespace Terrain

open Float.Model UnpackedFloat

namespace Scalar

variable {u v : UnpackedFloat} {x y : Scalar} {p q r : ℚ}

theorem signed_mul (s t : Sign) (p q : ℚ) : signed (s * t) (p * q) = signed s p * signed t q := by
  cases s <;> cases t
  · exact (neg_mul_neg p q).symm
  · exact (neg_mul p q).symm
  · exact (mul_neg p q).symm
  · rfl

theorem signed_neg (s : Sign) (p : ℚ) : signed (-s) p = -signed s p := by
  cases s
  · exact (neg_neg p).symm
  · rfl

theorem signed_div (s t : Sign) (p q : ℚ) : signed (s / t) (p / q) = signed s p / signed t q := by
  cases s <;> cases t
  · exact (neg_div_neg_eq p q).symm
  · exact (neg_div q p).symm
  · exact (div_neg p).symm
  · rfl

theorem abs_signed (s : Sign) (p : ℚ) : |signed s p| = |p| := by
  cases s
  · exact abs_neg p
  · rfl

theorem cast_apply (s : Sign) (m : ℕ) : ((s.apply m : ℤ) : ℚ) = signed s m := by
  cases s <;> simp [Sign.apply, signed]

theorem signed_apply_mul (s : Sign) (p q : ℚ) : signed s p * q = signed s (p * q) := by
  cases s <;> simp [signed]

theorem Canonical.nearest {m : ℕ} {e : ℤ} (h : Canonical m e) (s : Sign) :
    Nearest (signed s (m * 2 ^ e)) (signed s (m * 2 ^ e)) := by
  have pos : (0 : ℚ) < 2 ^ e := by positivity
  have size : |(m * 2 ^ e : ℚ)| = m * 2 ^ e := abs_of_nonneg (by positivity)
  refine Nearest.signed ⟨e, h.least, h.full.imp_right fun full => ?_, ?_, ⟨m, by simp⟩, ?_⟩ s
  · rw [size]
    gcongr
    exact_mod_cast full
  · rw [size]
    gcongr
    exact_mod_cast h.below
  · rw [sub_self, abs_zero]
    positivity

theorem decreaseExponent_value (m : ℕ) {e f : ℤ} (h : f ≤ e) :
    ((decreaseExponent m e f).1 * 2 ^ f : ℚ) = m * 2 ^ e := by
  obtain ⟨k, rfl⟩ := Int.le.dest h
  have : (f + k - f).toNat = k := by omega
  simp only [decreaseExponent, this, Nat.shiftLeft_eq, zpow_add₀ (two_ne_zero (α := ℚ)),
    zpow_natCast]
  push_cast
  ring

theorem add_nearest (hu : Rounded u) (hv : Rounded v) (hp : valueUnpacked u = some p)
    (hq : valueUnpacked v = some q) :
    ∃ r, Nearest (p + q) r ∧ Rounded (UnpackedFloat.add Format.binary32 u v) ∧
      valueUnpacked (UnpackedFloat.add Format.binary32 u v) = some r := by
  rcases u with _ | _ | s | ⟨s, m, e, hm⟩ <;> try cases hp
  all_goals rcases v with _ | _ | t | ⟨t, n, f, hn⟩ <;> try cases hq
  · refine ⟨0, by simpa using nearest_zero, ?_⟩
    rw [UnpackedFloat.add]
    split <;> exact ⟨trivial, rfl⟩
  · exact ⟨_, by simpa using hv.nearest t, hv, rfl⟩
  · exact ⟨_, by simpa using hu.nearest s, hu, rfl⟩
  · have sum : (s.apply (decreaseExponent m e (e ⊓ f)).1 +
        t.apply (decreaseExponent n f (e ⊓ f)).1 : ℤ) * (2 : ℚ) ^ (e ⊓ f) =
        signed s (m * 2 ^ e) + signed t (n * 2 ^ f) := by
      push_cast
      rw [cast_apply, cast_apply, add_mul, signed_apply_mul, signed_apply_mul,
        decreaseExponent_value m inf_le_left, decreaseExponent_value n inf_le_right]
    rw [← sum]
    exact normalize_nearest _ _ _

theorem Rounded.neg (hu : Rounded u) : Rounded u.neg := by
  rcases u with _ | _ | _ | _ <;> exact hu

theorem valueUnpacked_neg (hp : valueUnpacked u = some p) : valueUnpacked u.neg = some (-p) := by
  rcases u with s | _ | s | ⟨s, m, e, hm⟩
  · cases hp
  · cases hp
  · obtain rfl : 0 = p := Option.some.inj hp
    exact congrArg some neg_zero.symm
  · obtain rfl : signed s (m * 2 ^ e) = p := Option.some.inj hp
    exact congrArg some (signed_neg ..)

theorem sub_unpacked (u v : UnpackedFloat) :
    UnpackedFloat.sub Format.binary32 u v = UnpackedFloat.add Format.binary32 u v.neg := by
  rcases u with s | _ | s | ⟨s, m, e, hm⟩ <;> rcases v with t | _ | t | ⟨t, n, f, hn⟩
  case finite.finite =>
    have apply_neg (k : ℤ) : (-t).apply k = -t.apply k := by
      cases t
      · exact (neg_neg k).symm
      · rfl
    rw [UnpackedFloat.sub, UnpackedFloat.neg, UnpackedFloat.add]
    simp only [apply_neg, sub_eq_add_neg]
  all_goals rfl

theorem sub_nearest (hu : Rounded u) (hv : Rounded v) (hp : valueUnpacked u = some p)
    (hq : valueUnpacked v = some q) :
    ∃ r, Nearest (p - q) r ∧ Rounded (UnpackedFloat.sub Format.binary32 u v) ∧
      valueUnpacked (UnpackedFloat.sub Format.binary32 u v) = some r := by
  rw [sub_unpacked, sub_eq_add_neg]
  exact add_nearest hu hv.neg hp (valueUnpacked_neg hq)

/-- A product of digits in form has digits enough, or an exponent low enough. -/
theorem mul_nearest (hu : Rounded u) (hv : Rounded v) (hp : valueUnpacked u = some p)
    (hq : valueUnpacked v = some q) :
    ∃ r, Nearest (p * q) r ∧ Rounded (UnpackedFloat.mul Format.binary32 u v) ∧
      valueUnpacked (UnpackedFloat.mul Format.binary32 u v) = some r := by
  rcases u with _ | _ | s | ⟨s, m, e, hm⟩ <;> try cases hp
  all_goals rcases v with _ | _ | t | ⟨t, n, f, hn⟩ <;> try cases hq
  · exact ⟨0, by simpa using nearest_zero, trivial, rfl⟩
  · exact ⟨0, by simpa using nearest_zero, trivial, rfl⟩
  · exact ⟨0, by simpa using nearest_zero, trivial, rfl⟩
  · have enough : 2 ^ 23 ≤ m * n ∨ e + f ≤ -149 := by
      rcases hu.full with rfl | hm'
      · rcases hv.full with rfl | hn'
        · omega
        · exact .inl (hn'.trans (Nat.le_mul_of_pos_left n hm))
      · exact .inl (hm'.trans (Nat.le_mul_of_pos_right m hn))
    have product : Reads (.ofMantissaAndAccuracy (m * n) .exact)
        ((m * 2 ^ e) * (n * 2 ^ f) / 2 ^ (e + f)) := by
      change _ = ((m * n : ℕ) : ℚ)
      rw [zpow_add₀ two_ne_zero]
      push_cast
      field_simp
    obtain ⟨r, nearest, rounded, value⟩ :=
      roundWithAccuracy_nearest (s := s * t) product enough
    rw [← signed_mul]
    exact ⟨signed (s * t) r, nearest.signed _, rounded, value⟩

/-- The remainder of a division says what lies below the digits of its quotient. -/
theorem reads_div (m : ℕ) {n : ℕ} (hn : 0 < n) :
    Reads (.ofMantissaAndAccuracy (m / n) (accuracyOfFraction (m % n) n)) (m / n) := by
  have pos : (0 : ℚ) < n := by exact_mod_cast hn
  have whole : (m : ℚ) = n * (m / n : ℕ) + (m % n : ℕ) := by
    exact_mod_cast (Nat.div_add_mod m n).symm
  have below : ((m % n : ℕ) : ℚ) < n := by exact_mod_cast m.mod_lt hn
  rw [accuracyOfFraction]
  split
  next exact =>
    rw [exact, Nat.cast_zero, add_zero] at whole
    rw [ExtendedMantissa.ofMantissaAndAccuracy, Reads, whole, mul_div_cancel_left₀ _ pos.ne']
  next inexact =>
    have positive : (0 : ℚ) < (m % n : ℕ) := by exact_mod_cast Nat.pos_of_ne_zero inexact
    rcases h : compare (2 * (m % n)) n <;> rw [ExtendedMantissa.ofMantissaAndAccuracy] <;>
      simp only [Reads]
    · have : (2 * (m % n : ℕ) : ℚ) < n := by exact_mod_cast compare_lt_iff_lt.1 h
      rw [lt_div_iff₀ pos, div_lt_iff₀ pos]
      constructor <;> linarith
    · have : (2 * (m % n : ℕ) : ℚ) = n := by exact_mod_cast compare_eq_iff_eq.1 h
      rw [div_eq_iff pos.ne']
      linarith
    · have : (n : ℚ) < 2 * (m % n : ℕ) := by exact_mod_cast compare_gt_iff_gt.1 h
      rw [lt_div_iff₀ pos, div_lt_iff₀ pos]
      constructor <;> linarith

/-- Shifting the dividend leaves digits enough in the quotient, or an exponent low enough. -/
theorem div_nearest (hv : Rounded v) (hp : valueUnpacked u = some p) (hq : valueUnpacked v = some q)
    (nonzero : q ≠ 0) :
    ∃ r, Nearest (p / q) r ∧ Rounded (UnpackedFloat.div Format.binary32 u v) ∧
      valueUnpacked (UnpackedFloat.div Format.binary32 u v) = some r := by
  rcases u with _ | _ | s | ⟨s, m, e, hm⟩ <;> try cases hp
  all_goals rcases v with _ | _ | t | ⟨t, n, f, hn⟩ <;> try cases hq
  · exact absurd rfl nonzero
  · exact ⟨0, by simpa using nearest_zero, trivial, rfl⟩
  · exact absurd rfl nonzero
  · obtain ⟨g, hg⟩ : ∃ g, g = (e - f) ⊓ ((m.log2 + 1 + e - (n.log2 + 1 + f) - 24) ⊔ -149) :=
      ⟨_, rfl⟩
    obtain ⟨k, hk⟩ : ∃ k, k = (e - f - g).toNat := ⟨_, rfl⟩
    have enough : 2 ^ 23 ≤ (m <<< k) / n ∨ g ≤ -149 := by
      rcases le_or_gt g (-149) with low | high
      · exact .inr low
      left
      rw [Nat.le_div_iff_mul_le hn, Nat.shiftLeft_eq]
      calc 2 ^ 23 * n ≤ 2 ^ 23 * 2 ^ (n.log2 + 1) := Nat.mul_le_mul_left _ Nat.lt_log2_self.le
        _ = 2 ^ (n.log2 + 24) := by ring
        _ ≤ 2 ^ (m.log2 + k) := Nat.pow_le_pow_right two_pos (by omega)
        _ = 2 ^ m.log2 * 2 ^ k := pow_add ..
        _ ≤ m * 2 ^ k := Nat.mul_le_mul_right _ (Nat.log2_self_le hm.ne')
    have quotient : ((m <<< k : ℕ) / n : ℚ) = (m * 2 ^ e / (n * 2 ^ f)) / 2 ^ g := by
      have exponent : e = f + g + k := by omega
      rw [Nat.shiftLeft_eq, exponent, zpow_add₀ two_ne_zero, zpow_add₀ two_ne_zero, zpow_natCast]
      push_cast
      field_simp
    obtain ⟨r, nearest, rounded, value⟩ :=
      roundWithAccuracy_nearest (s := s / t) (quotient ▸ reads_div (m <<< k) hn) enough
    refine ⟨signed (s / t) r, ?_, ?_, ?_⟩
    · rw [← signed_div]
      exact nearest.signed _
    · rw [UnpackedFloat.div, divCore]
      simp only [targetExponent_eq, totalExponent, ← hg, ← hk]
      exact rounded
    · rw [UnpackedFloat.div, divCore]
      simp only [targetExponent_eq, totalExponent, ← hg, ← hk]
      exact value

theorem rounds_add (hx : x.value? = some p) (hy : y.value? = some q) :
    ∃ r, Rounds (p + q) r (x + y) := by
  obtain ⟨r, nearest, rounded, value⟩ :=
    add_nearest (unpack_rounded x.toModel).1 (unpack_rounded y.toModel).1 hx hy
  exact ⟨r, rounds_pack rounded value nearest⟩

theorem rounds_sub (hx : x.value? = some p) (hy : y.value? = some q) :
    ∃ r, Rounds (p - q) r (x - y) := by
  obtain ⟨r, nearest, rounded, value⟩ :=
    sub_nearest (unpack_rounded x.toModel).1 (unpack_rounded y.toModel).1 hx hy
  exact ⟨r, rounds_pack rounded value nearest⟩

theorem rounds_mul (hx : x.value? = some p) (hy : y.value? = some q) :
    ∃ r, Rounds (p * q) r (x * y) := by
  obtain ⟨r, nearest, rounded, value⟩ :=
    mul_nearest (unpack_rounded x.toModel).1 (unpack_rounded y.toModel).1 hx hy
  exact ⟨r, rounds_pack rounded value nearest⟩

theorem rounds_div (hx : x.value? = some p) (hy : y.value? = some q) (nonzero : q ≠ 0) :
    ∃ r, Rounds (p / q) r (x / y) := by
  obtain ⟨r, nearest, rounded, value⟩ :=
    div_nearest (unpack_rounded y.toModel).1 hx hy nonzero
  exact ⟨r, rounds_pack rounded value nearest⟩

theorem limited_finite {s : Sign} {m : ℕ} {e : ℤ} {hm : 0 < m} :
    limited (.finite s m e hm) = .finite s m e hm ↔ ¬ 105 ≤ e := by
  by_cases he : 105 ≤ e <;> simp [limited, he]

/-- What is finite stays below the end of the exponents, and twenty-four digits hold it. -/
theorem fits_valueUnpacked (hu : Rounded u) (hl : limited u = u) (hp : valueUnpacked u = some p) :
    Fits p ∧ |p| < 2 ^ 128 := by
  rcases u with s | _ | s | ⟨s, m, e, hm⟩
  · cases hp
  · cases hp
  · obtain rfl : 0 = p := Option.some.inj hp
    exact ⟨fits_zero, by norm_num⟩
  · obtain rfl : signed s (m * 2 ^ e) = p := Option.some.inj hp
    have digits := hu.below
    constructor
    · have fits : Fits (m * 2 ^ e) :=
        ⟨m, e, by rw [Nat.abs_cast]; exact_mod_cast digits.le, hu.least, rfl⟩
      cases s
      · exact fits.neg
      · exact fits
    · rw [abs_signed, abs_of_nonneg (by positivity), ← not_le, Canonical.beyond hu]
      exact limited_finite.1 hl

theorem fits_of_value (h : x.value? = some p) : Fits p ∧ |p| < 2 ^ 128 := by
  obtain ⟨rounded, last⟩ := unpack_rounded x.toModel
  exact fits_valueUnpacked rounded last h

/-- A result that is finite is what the exact one is rounded to. -/
theorem Rounds.value_of_isFinite (h : Rounds q r x) (hx : x.isFinite = true) :
    x.value? = some r := by
  refine h.value (not_le.1 fun beyond => ?_)
  change x.toModel.unpack.isFinite = true at hx
  rcases le_abs.1 beyond with above | below
  · rw [h.above above] at hx
    cases hx
  · rw [h.below (le_neg_of_le_neg below)] at hx
    cases hx

/-- What is no less than a finite number is rounded to nothing less. -/
theorem Rounds.le_of_value (h : Rounds q r y) (hx : x.value? = some p) (hpq : p ≤ q) : x ≤ y := by
  obtain ⟨fits, small⟩ := fits_of_value hx
  have low := h.nearest.ge fits hpq
  rcases lt_or_ge r (2 ^ 128) with finite | beyond
  · have value := h.value (abs_lt.2 ⟨by linarith [(abs_lt.1 small).1], finite⟩)
    exact (le_iff_value hx value).2 low
  · exact le_of_infinity hx (h.above beyond)

theorem abs_value (hu : Rounded u) (hl : limited u = u) (hp : valueUnpacked u = some p) :
    Rounded u.abs ∧ valueUnpacked (limited u.abs) = some |p| := by
  rcases u with s | _ | s | ⟨s, m, e, hm⟩
  · cases hp
  · cases hp
  · obtain rfl : 0 = p := Option.some.inj hp
    exact ⟨trivial, by rw [abs_zero]; rfl⟩
  · obtain rfl : signed s (m * 2 ^ e) = p := Option.some.inj hp
    refine ⟨hu, ?_⟩
    rw [UnpackedFloat.abs, limited_finite.2 (limited_finite.1 hl), valueUnpacked, abs_signed,
      abs_of_nonneg (by positivity), signed]

theorem limited_neg (u : UnpackedFloat) : limited u.neg = (limited u).neg := by
  rcases u with _ | _ | _ | ⟨s, m, e, hm⟩
  · rfl
  · rfl
  · rfl
  · rw [UnpackedFloat.neg, limited, limited]
    split <;> rfl

theorem value_neg (h : x.value? = some p) : value? (-x) = some (-p) := by
  obtain ⟨rounded, last⟩ := unpack_rounded x.toModel
  refine (value?_pack rounded.neg).trans ?_
  rw [limited_neg, last]
  exact valueUnpacked_neg h

theorem value_abs (h : x.value? = some p) : value? x.abs = some |p| := by
  obtain ⟨rounded, last⟩ := unpack_rounded x.toModel
  obtain ⟨rounded', value⟩ := abs_value rounded last h
  exact (value?_pack rounded').trans value

/-- The sign before a number, zero and the infinities included. -/
def signUnpacked : UnpackedFloat → Option Sign
  | .notANumber => none
  | .infinity s | .zero s | .finite s _ _ _ => some s

theorem signUnpacked_limited (u : UnpackedFloat) : signUnpacked (limited u) = signUnpacked u := by
  rcases u with s | _ | s | ⟨s, m, e, hm⟩
  · rfl
  · rfl
  · rfl
  · rw [limited]
    split <;> rfl

theorem signUnpacked_roundWithAccuracy (s : Sign) (m : ℕ) (e : ℤ) (acc : Accuracy) :
    signUnpacked (roundWithAccuracy Format.binary32 s m e acc) = some s := by
  rw [roundWithAccuracy]
  dsimp only
  split <;> rfl

theorem unpack_of_pos (h : x.value? = some p) (pos : 0 < p) :
    ∃ m e hm, x.toModel.unpack = .finite .positive m e hm := by
  rw [value?] at h
  generalize x.toModel.unpack = u at h
  rcases u with s | _ | s | ⟨_ | _, m, e, hm⟩
  · cases h
  · cases h
  · obtain rfl : 0 = p := Option.some.inj h
    exact absurd pos (lt_irrefl 0)
  · obtain rfl : -(m * 2 ^ e : ℚ) = p := Option.some.inj h
    have : (0 : ℚ) < m * 2 ^ e := by positivity
    linarith
  · exact ⟨m, e, hm, rfl⟩

/-- A quotient of positive numbers may vanish, but it keeps its sign. -/
theorem sign_div (hx : x.value? = some p) (hy : y.value? = some q) (hp : 0 < p) (hq : 0 < q) :
    signUnpacked (x / y).toModel.unpack = some .positive := by
  obtain ⟨_, _, rounded, _⟩ := div_nearest (unpack_rounded y.toModel).1 hx hy hq.ne'
  obtain ⟨m, e, hm, hx⟩ := unpack_of_pos hx hp
  obtain ⟨n, f, hn, hy⟩ := unpack_of_pos hy hq
  change signUnpacked (Float32.Model.pack _).unpack = _
  rw [unpack_pack rounded, signUnpacked_limited, hx, hy]
  exact signUnpacked_roundWithAccuracy ..

theorem unpack_pack_infinity (s : Sign) :
    (Float32.Model.pack (.infinity s)).unpack = .infinity s :=
  unpack_pack (u := .infinity s) trivial

/-- An infinity divided by what is not negative is that infinity. -/
theorem infinity_div {s : Sign} (hx : x.toModel.unpack = .infinity s) (hy : y.isFinite = true)
    (hsign : signUnpacked y.toModel.unpack = some .positive) :
    (x / y).toModel.unpack = .infinity s := by
  have quotient : UnpackedFloat.div Format.binary32 x.toModel.unpack y.toModel.unpack =
      .infinity s := by
    change y.toModel.unpack.isFinite = true at hy
    rw [hx]
    generalize y.toModel.unpack = v at hy hsign
    rcases v with _ | _ | _ | ⟨_, n, f, hn⟩ <;> cases hsign
    · cases hy
    all_goals cases s <;> rfl
  change (Float32.Model.pack (UnpackedFloat.div _ x.toModel.unpack y.toModel.unpack)).unpack = _
  rw [quotient, unpack_pack_infinity]

/-- A number divided by a zero that is not negative is an infinity. -/
theorem div_zero_infinity {s : Sign} {m : ℕ} {e : ℤ} {hm : 0 < m}
    (hx : x.toModel.unpack = .finite s m e hm) (hy : y.value? = some 0)
    (hsign : signUnpacked y.toModel.unpack = some .positive) :
    (x / y).toModel.unpack = .infinity s := by
  have quotient : UnpackedFloat.div Format.binary32 x.toModel.unpack y.toModel.unpack =
      .infinity s := by
    rw [value?] at hy
    rw [hx]
    generalize y.toModel.unpack = v at hy hsign
    rcases v with _ | _ | _ | ⟨_, n, f, hn⟩ <;> cases hsign
    · cases hy
    · cases s <;> rfl
    · have : (0 : ℚ) < n * 2 ^ f := by positivity
      exact absurd (Option.some.inj hy) this.ne'
  change (Float32.Model.pack (UnpackedFloat.div _ x.toModel.unpack y.toModel.unpack)).unpack = _
  rw [quotient, unpack_pack_infinity]

theorem notANumber_div (hx : x.toModel.unpack = .notANumber) (y : Scalar) :
    (x / y).toModel.unpack = .notANumber := by
  change (Float32.Model.pack (UnpackedFloat.div _ x.toModel.unpack y.toModel.unpack)).unpack = _
  rw [hx]
  exact unpack_pack (u := .notANumber) trivial

theorem not_finite_pack (hu : Rounded u) (h : (limited u).isFinite = false) :
    Float32.isFinite ⟨Float32.Model.pack u⟩ = false := by
  change (Float32.Model.pack u).unpack.isFinite = false
  rw [unpack_pack hu, h]

theorem mul_not_finite (hu : u.isFinite = false) (v : UnpackedFloat) :
    Rounded (UnpackedFloat.mul Format.binary32 u v) ∧
      (limited (UnpackedFloat.mul Format.binary32 u v)).isFinite = false := by
  rcases u with s | _ | s | ⟨s, m, e, hm⟩
  · rcases v with _ | _ | _ | _ <;> exact ⟨trivial, rfl⟩
  · exact ⟨trivial, rfl⟩
  · cases hu
  · cases hu

theorem add_not_finite (u : UnpackedFloat) (hv : v.isFinite = false) :
    Rounded (UnpackedFloat.add Format.binary32 u v) ∧
      (limited (UnpackedFloat.add Format.binary32 u v)).isFinite = false := by
  rcases v with s | _ | s | ⟨s, m, e, hm⟩
  · rcases u with t | _ | _ | _
    · cases s <;> cases t <;> exact ⟨trivial, rfl⟩
    all_goals exact ⟨trivial, rfl⟩
  · rcases u with _ | _ | _ | _ <;> exact ⟨trivial, rfl⟩
  · cases hv
  · cases hv

/-- No multiple of what is not finite is finite. -/
theorem isFinite_mul_of_left (h : x.isFinite = false) (y : Scalar) :
    (x * y).isFinite = false := by
  obtain ⟨rounded, h⟩ := mul_not_finite h y.toModel.unpack
  exact not_finite_pack rounded h

theorem isFinite_add_of_right (x : Scalar) (h : y.isFinite = false) :
    (x + y).isFinite = false := by
  obtain ⟨rounded, h⟩ := add_not_finite x.toModel.unpack h
  exact not_finite_pack rounded h

end Scalar
end Terrain
