import Mathlib
import Terrain.Proofs.Order

/-! The values of numbers. A number that is neither infinite nor invalid stands for a rational:
its digits, times a power of two. The digits fill their twenty-four places unless the power is
the least there is, and so the order of numbers is that of their values. -/
namespace Terrain

open Float.Model UnpackedFloat

namespace Scalar

/-- A magnitude with a sign before it. -/
def signed : Sign → ℚ → ℚ
  | .negative, q => -q
  | .positive, q => q

def valueUnpacked : UnpackedFloat → Option ℚ
  | .notANumber | .infinity _ => none
  | .zero _ => some 0
  | .finite s m e _ => some (signed s (m * 2 ^ e))

/-- What a number stands for, if it is finite. -/
def value? (x : Scalar) : Option ℚ := valueUnpacked x.toModel.unpack

/-- Digits and an exponent as a result of the rounding has them. -/
structure Canonical (m : ℕ) (e : ℤ) : Prop where
  below : m < 2 ^ 24
  least : -149 ≤ e
  full : e = -149 ∨ 2 ^ 23 ≤ m

/-- Unpacked numbers that a rounding may return. -/
def Rounded : UnpackedFloat → Prop
  | .finite _ m e _ => Canonical m e
  | _ => True

/-- What is left of an unpacked number where exponents end. -/
def limited : UnpackedFloat → UnpackedFloat
  | .finite s m e h => if 105 ≤ e then .infinity s else .finite s m e h
  | u => u

theorem finite_congr {s : Sign} {m m' : ℕ} {e e' : ℤ} {h : 0 < m} {h' : 0 < m'} (hm : m = m')
    (he : e = e') : UnpackedFloat.finite s m e h = .finite s m' e' h' := by
  subst hm he
  rfl

/-- Where the digits do not fill their places, the exponent is stored as zero. -/
theorem unpack_pack_subnormal (s : Sign) {m : ℕ} (hm : 0 < m) (below : m < 2 ^ 23) :
    UnpackedFloat.unpack Format.binary32
        (packComponents Format.binary32 s 0#8 (BitVec.ofNat 23 m)) =
      .finite s m (-149) hm := by
  have digits : (BitVec.ofNat 23 m).toNat = m := by
    rw [BitVec.toNat_ofNat, Nat.mod_eq_of_lt below]
  have nonzero : BitVec.ofNat 23 m ≠ 0#23 := fun h => by
    rw [h] at digits
    exact hm.ne digits
  simp only [UnpackedFloat.unpack, unpackMantissa_packComponents, unpackExponent_packComponents,
    unpackSign_packComponents, Sign.ofBitVec_toBitVec]
  rw [if_neg (by decide), if_pos trivial, dif_neg nonzero]
  exact finite_congr digits (by decide)

/-- Where the digits fill their places, the first of them is not stored. -/
theorem unpack_pack_normal (s : Sign) {m k : ℕ} (hm : 0 < m) (full : 2 ^ 23 ≤ m)
    (below : m < 2 ^ 24) (hk : 0 < k) (hk' : k < 255) :
    UnpackedFloat.unpack Format.binary32
        (packComponents Format.binary32 s (BitVec.ofNat 8 k) (BitVec.ofNat 23 m)) =
      .finite s m (k - 150) hm := by
  have stored : (BitVec.ofNat 8 k).toNat = k := by
    rw [BitVec.toNat_ofNat, Nat.mod_eq_of_lt (by omega)]
  have digits : (1#1 ++ BitVec.ofNat 23 m).toNat = m := by
    rw [BitVec.toNat_append, ← Nat.shiftLeft_add_eq_or_of_lt (BitVec.isLt _)]
    simp only [BitVec.toNat_ofNat, Nat.shiftLeft_eq]
    omega
  have notLast : BitVec.ofNat 8 k ≠ -1#8 := fun h => by
    rw [h] at stored
    simp at stored
    omega
  have notFirst : BitVec.ofNat 8 k ≠ 0#8 := fun h => by
    rw [h] at stored
    exact hk.ne stored
  simp only [UnpackedFloat.unpack, unpackMantissa_packComponents, unpackExponent_packComponents,
    unpackSign_packComponents, Sign.ofBitVec_toBitVec]
  rw [if_neg notLast, if_neg notFirst]
  exact finite_congr digits (by rw [stored]; rfl)

theorem unpack_packedInfinity (s : Sign) :
    UnpackedFloat.unpack Format.binary32 (packedInfinity Format.binary32 s) = .infinity s := by
  simp [packedInfinity, UnpackedFloat.unpack]

theorem unpack_pack {u : UnpackedFloat} (hu : Rounded u) :
    (Float32.Model.pack u).unpack = limited u := by
  change UnpackedFloat.unpack Format.binary32 (UnpackedFloat.pack Format.binary32 u) = _
  rcases u with s | _ | s | ⟨s, m, e, hm⟩
  · exact unpack_packedInfinity s
  · exact unpack_packedNaN
  · exact unpack_packedZero
  · obtain ⟨below, least, full⟩ := hu
    have biased : (e + Format.binary32.exponentBias + Format.binary32.mantissaBitsWithoutImplicit :
        ℤ).toNat = (e + 150).toNat := by
      rw [add_assoc]
      rfl
    simp only [UnpackedFloat.pack, biased, limited]
    by_cases he : 105 ≤ e
    · rw [if_pos (by simp; omega), if_pos he]
      exact unpack_packedInfinity s
    rw [if_neg (by simp; omega), if_neg he]
    rcases lt_or_ge m (2 ^ 23) with short | filled
    · obtain rfl : e = -149 := by omega
      have : m.log2 + 1 ≠ Format.binary32.mantissaBits := by
        have := (Nat.log2_lt hm.ne').2 short
        simp [Format.mantissaBits]
        omega
      rw [if_neg this, unpack_pack_subnormal s hm short]
    · have : m.log2 + 1 = Format.binary32.mantissaBits := by
        have := (Nat.log2_lt hm.ne').2 below
        have := (Nat.le_log2 hm.ne').2 filled
        simp [Format.mantissaBits]
        omega
      rw [if_pos this, unpack_pack_normal s hm filled below (by omega) (by omega)]
      exact finite_congr rfl (by omega)

/-- A digit before the twenty-three that are stored. -/
theorem toNat_one_append (d : BitVec 23) : (1#1 ++ d).toNat = 2 ^ 23 + d.toNat := by
  rw [BitVec.toNat_append, ← Nat.shiftLeft_add_eq_or_of_lt d.isLt]
  rfl

theorem unpack_rounded (x : Float32.Model) : Rounded x.unpack ∧ limited x.unpack = x.unpack := by
  have digits : (@unpackMantissa Format.binary32 x.toBits.toBitVec).toNat < 2 ^ 23 :=
    BitVec.isLt _
  have stored : (@unpackExponent Format.binary32 x.toBits.toBitVec).toNat < 2 ^ 8 :=
    BitVec.isLt _
  simp only [Float32.Model.unpack, UnpackedFloat.unpack]
  split
  · split <;> exact ⟨trivial, rfl⟩
  next notLast =>
  split
  next first =>
    split
    · exact ⟨trivial, rfl⟩
    · refine ⟨⟨by omega, ?_, .inl ?_⟩, if_neg ?_⟩ <;> rw [first] <;> decide
  next notFirst =>
    rw [← BitVec.toNat_inj] at notLast notFirst
    have bias : (Format.binary32.exponentBias : ℤ) + (23 : ℕ) = 150 := rfl
    have last : (-1#8).toNat = 255 := rfl
    have first : (0#8).toNat = 0 := rfl
    have whole := toNat_one_append (@unpackMantissa Format.binary32 x.toBits.toBitVec)
    refine ⟨⟨?_, ?_, .inr ?_⟩, if_neg ?_⟩ <;> omega

variable {x y : Scalar} {p q : ℚ}

theorem value?_pack {u : UnpackedFloat} (hu : Rounded u) :
    value? ⟨Float32.Model.pack u⟩ = valueUnpacked (limited u) := by
  rw [value?, unpack_pack hu]

theorem isFinite_iff_value : x.isFinite = true ↔ ∃ q, x.value? = some q := by
  change x.toModel.unpack.isFinite = true ↔ ∃ q, valueUnpacked x.toModel.unpack = some q
  rcases x.toModel.unpack with s | _ | s | ⟨s, m, e, _⟩
  · exact iff_of_false nofun nofun
  · exact iff_of_false nofun nofun
  · exact iff_of_true rfl ⟨_, rfl⟩
  · exact iff_of_true rfl ⟨_, rfl⟩

theorem isFinite_of_unpack {u : UnpackedFloat} (h : x.toModel.unpack = u) :
    x.isFinite = u.isFinite := h ▸ rfl

theorem isNaN_iff_unpack : x.isNaN = true ↔ x.toModel.unpack = .notANumber := by
  change x.toModel.unpack.isNaN = true ↔ _
  rcases x.toModel.unpack with s | _ | s | ⟨s, m, e, _⟩
  · exact iff_of_false nofun nofun
  · exact iff_of_true rfl rfl
  · exact iff_of_false nofun nofun
  · exact iff_of_false nofun nofun

theorem value?_zero : value? (0 : Scalar) = some 0 := by decide +kernel

/-- Among magnitudes the greater exponent decides, and the digits where exponents agree. -/
theorem Canonical.lt {m n : ℕ} {e f : ℤ} (hm : Canonical m e) (hn : Canonical n f)
    (h : e < f ∨ e = f ∧ m < n) : (m * 2 ^ e : ℚ) < n * 2 ^ f := by
  obtain hef | ⟨rfl, hmn⟩ := h
  · have filled : 2 ^ 23 ≤ n := hn.full.resolve_left fun h => by
      have := hm.least
      omega
    calc (m * 2 ^ e : ℚ) < 2 ^ 24 * 2 ^ e := by
          gcongr
          exact_mod_cast hm.below
      _ = 2 ^ 23 * 2 ^ (e + 1) := by rw [zpow_add_one₀ two_ne_zero]; ring
      _ ≤ n * 2 ^ f := by
          gcongr
          · exact_mod_cast filled
          · exact one_le_two
          · exact hef
  · gcongr

/-- What stands further along the line has the greater value. -/
theorem value_lt_of_place {u v : UnpackedFloat} (hu : Rounded u) (hv : Rounded v) {s t : Place}
    (hs : placeUnpacked u = some s) (ht : placeUnpacked v = some t)
    (hp : valueUnpacked u = some p) (hq : valueUnpacked v = some q) (h : s < t) : p < q := by
  have pos {m : ℕ} {e : ℤ} (hm : 0 < m) : (0 : ℚ) < m * 2 ^ e := by positivity
  rcases u with _ | _ | _ | ⟨_ | _, m, e, hm⟩ <;> rcases v with _ | _ | _ | ⟨_ | _, n, f, hn⟩ <;>
    simp only [placeUnpacked, valueUnpacked, Option.some.injEq, reduceCtorEq] at hs ht hp hq <;>
    subst hs ht hp hq <;>
    simp [Prod.Lex.toLex_lt_toLex] at h <;> simp only [signed]
  case zero.finite.positive => exact pos hn
  case finite.negative.zero => linarith [pos (e := e) hm]
  case finite.negative.finite.positive => linarith [pos (e := e) hm, pos (e := f) hn]
  case finite.negative.finite.negative =>
    exact neg_lt_neg (hv.lt hu (h.imp_right (.imp_left .symm)))
  case finite.positive.finite.positive => exact hu.lt hv h

/-- What stands at the same place has the same value. -/
theorem value_eq_of_place {u v : UnpackedFloat} {s : Place} (hs : placeUnpacked u = some s)
    (ht : placeUnpacked v = some s) (hp : valueUnpacked u = some p)
    (hq : valueUnpacked v = some q) : p = q := by
  rcases u with _ | _ | _ | ⟨_ | _, m, e, hm⟩ <;> rcases v with _ | _ | _ | ⟨_ | _, n, f, hn⟩ <;>
    simp only [placeUnpacked, valueUnpacked, Option.some.injEq, reduceCtorEq] at hs ht hp hq <;>
    subst hs hp hq <;> simp at ht
  case zero.zero => rfl
  case finite.negative.finite.negative => rw [ht.1, ht.2]
  case finite.positive.finite.positive => rw [ht.1, ht.2]

theorem exists_place {u : UnpackedFloat} (h : valueUnpacked u = some p) :
    ∃ s, placeUnpacked u = some s := by
  rcases u with _ | _ | _ | ⟨_ | _, m, e, hm⟩
  · cases h
  · cases h
  all_goals exact ⟨_, rfl⟩

/-- Numbers compare as their values do. -/
theorem compare_value (hx : x.value? = some p) (hy : y.value? = some q) :
    ∃ s t, x.place? = some s ∧ y.place? = some t ∧ compare s t = compare p q := by
  obtain ⟨s, hs⟩ := exists_place hx
  obtain ⟨t, ht⟩ := exists_place hy
  have hu := (unpack_rounded x.toModel).1
  have hv := (unpack_rounded y.toModel).1
  refine ⟨s, t, hs, ht, ?_⟩
  rcases lt_trichotomy s t with h | rfl | h
  · rw [compare_lt_iff_lt.2 h, compare_lt_iff_lt.2 (value_lt_of_place hu hv hs ht hx hy h)]
  · rw [compare_eq_iff_eq.2 rfl, compare_eq_iff_eq.2 (value_eq_of_place hs ht hx hy)]
  · rw [compare_gt_iff_gt.2 h, compare_gt_iff_gt.2 (value_lt_of_place hv hu ht hs hy hx h)]

theorem lt_iff_value (hx : x.value? = some p) (hy : y.value? = some q) : x < y ↔ p < q := by
  obtain ⟨s, t, hs, ht, h⟩ := compare_value hx hy
  rw [lt_iff_place, hs, ht, ← compare_lt_iff_lt, ← h, compare_lt_iff_lt]
  simp

theorem le_iff_value (hx : x.value? = some p) (hy : y.value? = some q) : x ≤ y ↔ p ≤ q := by
  obtain ⟨s, t, hs, ht, h⟩ := compare_value hx hy
  rw [le_iff_place, hs, ht, ← compare_le_iff_le, ← h, compare_le_iff_le]
  simp

theorem place_lt_of_value {u : UnpackedFloat} {s : Place} (hp : valueUnpacked u = some p)
    (hs : placeUnpacked u = some s) : s < toLex (2, toLex (0, 0)) := by
  rcases u with _ | _ | _ | ⟨_ | _, m, e, hm⟩ <;> cases hp <;> cases hs <;>
    exact Prod.Lex.toLex_lt_toLex.2 (.inl (by norm_num))

theorem lt_place_of_value {u : UnpackedFloat} {s : Place} (hp : valueUnpacked u = some p)
    (hs : placeUnpacked u = some s) : toLex (-2, toLex (0, 0)) < s := by
  rcases u with _ | _ | _ | ⟨_ | _, m, e, hm⟩ <;> cases hp <;> cases hs <;>
    exact Prod.Lex.toLex_lt_toLex.2 (.inl (by norm_num))

/-- No finite number is beyond the infinity at the end of the line. -/
theorem le_of_infinity (hx : x.value? = some p) (hy : y.toModel.unpack = .infinity .positive) :
    x ≤ y := by
  obtain ⟨s, hs⟩ := exists_place hx
  have top : y.place? = some (toLex (2, toLex (0, 0))) := by rw [place?, hy]; rfl
  exact le_iff_place.2 ⟨s, hs, _, top, (place_lt_of_value hx hs).le⟩

/-- The infinity at the start of the line is below every finite number. -/
theorem lt_of_infinity (hx : x.toModel.unpack = .infinity .negative) (hy : y.value? = some q) :
    x < y := by
  obtain ⟨t, ht⟩ := exists_place hy
  have bottom : x.place? = some (toLex (-2, toLex (0, 0))) := by rw [place?, hx]; rfl
  exact lt_iff_place.2 ⟨_, bottom, t, ht, lt_place_of_value hy ht⟩

theorem beq_iff_value (hx : x.value? = some p) (hy : y.value? = some q) :
    (x == y) = true ↔ p = q := by
  obtain ⟨s, t, hs, ht, h⟩ := compare_value hx hy
  change (x.toModel.unpack.compare y.toModel.unpack == some .eq) = true ↔ _
  rw [compare_unpacked, beq_iff_eq]
  change (x.place?.bind fun s => y.place?.map (compare s)) = some .eq ↔ _
  rw [hs, ht, ← compare_eq_iff_eq (a := p), ← h]
  simp

end Scalar
end Terrain
