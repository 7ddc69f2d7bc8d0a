import Terrain.Proofs.Scalar.Arithmetic

/-! Arithmetic at the ends of the line: where a result is an infinity, and where it is no number at
all. A sum is none where opposite infinities meet. The products of numbers with a finite positive
one are numbers again, as are the quotients, and they stand in the same order. -/
namespace Terrain.Scalar

open Float.Model UnpackedFloat

variable {x y s : Scalar} {p q r r' : ℚ} {t : Sign}

theorem isInf_iff_unpack : x.isInf = true ↔ ∃ t, x.toModel.unpack = .infinity t := by
  change x.toModel.unpack.isInf = true ↔ _
  cases x.toModel.unpack with
  | infinity t => exact iff_of_true rfl ⟨t, rfl⟩
  | notANumber | zero | finite => exact iff_of_false nofun nofun

theorem isNaN_of_infinity (h : x.toModel.unpack = .infinity t) : x.isNaN = false := by
  change x.toModel.unpack.isNaN = false
  rw [h]
  rfl

theorem isNaN_of_value (h : x.value? = some p) : x.isNaN = false := by
  refine Bool.eq_false_iff.2 fun hnan => ?_
  rw [value?, isNaN_iff_unpack.1 hnan] at h
  cases h

/-- A number is finite or an infinity. -/
theorem value_or_infinity (h : x.isNaN = false) :
    (∃ p, x.value? = some p) ∨ ∃ t, x.toModel.unpack = .infinity t := by
  rw [value?]
  cases hx : x.toModel.unpack with
  | infinity t => exact .inr ⟨t, rfl⟩
  | notANumber =>
    rw [isNaN_iff_unpack.2 hx] at h
    cases h
  | zero | finite => exact .inl ⟨_, rfl⟩

theorem ne_infinity_of_value (h : x.value? = some p) : x.toModel.unpack ≠ .infinity t := by
  intro hx
  rw [value?, hx] at h
  cases h

/-- An infinity equals itself and nothing else. -/
theorem beq_infinity (h : x.toModel.unpack = .infinity t) :
    (x == y) = true ↔ y.toModel.unpack = .infinity t := by
  change (x.toModel.unpack.compare y.toModel.unpack == some .eq) = true ↔ _
  rw [h]
  cases y.toModel.unpack with
  | infinity s =>
    cases t <;> cases s <;> first | exact iff_of_true rfl rfl | exact iff_of_false nofun nofun
  | notANumber => exact iff_of_false nofun nofun
  | zero s => cases t <;> exact iff_of_false nofun nofun
  | finite s => cases t <;> cases s <;> exact iff_of_false nofun nofun

theorem Rounds.isNaN (h : Rounds q r x) : x.isNaN = false := by
  rcases lt_or_ge |r| (2 ^ 128) with small | beyond
  · exact isNaN_of_value (h.value small)
  · rcases le_abs.1 beyond with above | below
    · exact isNaN_of_infinity (h.above above)
    · exact isNaN_of_infinity (h.below (le_neg_of_le_neg below))

/-- Everything stands within the two ends of the line, and at each of them an infinity. -/
theorem place_bounds {u : UnpackedFloat} {a : Place} (h : placeUnpacked u = some a) :
    toLex (-2, toLex (0, 0)) ≤ a ∧ a ≤ toLex (2, toLex (0, 0)) ∧
      (a ≤ toLex (-2, toLex (0, 0)) → u = .infinity .negative) ∧
      (toLex (2, toLex (0, 0)) ≤ a → u = .infinity .positive) := by
  rcases u with (_ | _) | _ | _ | ⟨_ | _, m, e, _⟩ <;> cases h <;>
    simp [Prod.Lex.toLex_le_toLex]

theorem le_infinity (hx : x.isNaN = false) (hy : y.toModel.unpack = .infinity .positive) :
    x ≤ y := by
  obtain ⟨a, ha⟩ := exists_place_of_not_isNaN hx
  exact le_iff_place.2 ⟨a, ha, _, by rw [place?, hy]; rfl, (place_bounds ha).2.1⟩

theorem infinity_le (hx : x.toModel.unpack = .infinity .negative) (hy : y.isNaN = false) :
    x ≤ y := by
  obtain ⟨b, hb⟩ := exists_place_of_not_isNaN hy
  exact le_iff_place.2 ⟨_, by rw [place?, hx]; rfl, b, hb, (place_bounds hb).1⟩

/-- Whatever is no less than the infinity at the end of the line is that infinity. -/
theorem infinity_of_le (h : x ≤ y) (hx : x.toModel.unpack = .infinity .positive) :
    y.toModel.unpack = .infinity .positive := by
  obtain ⟨a, ha, b, hb, hab⟩ := le_iff_place.1 h
  rw [place?, hx] at ha
  obtain rfl := Option.some.inj ha
  exact (place_bounds hb).2.2.2 hab

/-- Whatever is no greater than the infinity at the start of the line is that infinity. -/
theorem infinity_of_ge (h : x ≤ y) (hy : y.toModel.unpack = .infinity .negative) :
    x.toModel.unpack = .infinity .negative := by
  obtain ⟨a, ha, b, hb, hab⟩ := le_iff_place.1 h
  rw [place?, hy] at hb
  obtain rfl := Option.some.inj hb
  exact (place_bounds ha).2.2.1 hab

theorem le_of_lt (h : x < y) : x ≤ y := by
  obtain ⟨a, ha, b, hb, hab⟩ := lt_iff_place.1 h
  exact le_iff_place.2 ⟨a, ha, b, hb, hab.le⟩

theorem le_self (h : x.isNaN = false) : x ≤ x := by
  obtain ⟨a, ha⟩ := exists_place_of_not_isNaN h
  exact le_iff_place.2 ⟨a, ha, a, ha, le_refl a⟩

theorem isNaN_of_le (h : x ≤ y) : x.isNaN = false ∧ y.isNaN = false := by
  obtain ⟨a, ha, b, hb, _⟩ := le_iff_place.1 h
  constructor
  · exact Bool.eq_false_iff.2 fun hx => by simp [isNaN_iff_place.1 hx] at ha
  · exact Bool.eq_false_iff.2 fun hy => by simp [isNaN_iff_place.1 hy] at hb

/-- What is rounded to no more is no more. -/
theorem Rounds.le {q' : ℚ} (h : Rounds q r x) (h' : Rounds q' r' y) (hr : r ≤ r') : x ≤ y := by
  rcases lt_or_ge r (2 ^ 128) with hbelow | habove
  · rcases lt_or_ge (-2 ^ 128) r with hlow | hlow
    · rcases lt_or_ge r' (2 ^ 128) with hbelow' | habove'
      · have hx := h.value (abs_lt.2 ⟨hlow, hbelow⟩)
        have hy := h'.value (abs_lt.2 ⟨hlow.trans_le hr, hbelow'⟩)
        exact (le_iff_value hx hy).2 hr
      · exact le_infinity h.isNaN (h'.above habove')
    · exact infinity_le (h.below hlow) h'.isNaN
  · exact le_infinity h.isNaN (h'.above (habove.trans hr))

theorem unpack_neg (x : Scalar) : (-x).toModel.unpack = x.toModel.unpack.neg := by
  obtain ⟨rounded, last⟩ := unpack_rounded x.toModel
  refine (unpack_pack rounded.neg).trans ?_
  rw [limited_neg, last]

theorem sub_eq_add_neg (x y : Scalar) : x - y = x + -y := by
  change (⟨Float32.Model.pack (UnpackedFloat.sub _ _ _)⟩ : Scalar) =
    ⟨Float32.Model.pack (UnpackedFloat.add _ _ (-y).toModel.unpack)⟩
  rw [sub_unpacked, unpack_neg]

theorem unpack_add {w : UnpackedFloat} (hw : Rounded w)
    (h : UnpackedFloat.add Format.binary32 x.toModel.unpack y.toModel.unpack = w) :
    (x + y).toModel.unpack = limited w := by
  change (Float32.Model.pack (UnpackedFloat.add _ x.toModel.unpack y.toModel.unpack)).unpack = _
  rw [h, unpack_pack hw]

theorem infinity_add (hx : x.toModel.unpack = .infinity t) (hy : y.isNaN = false)
    (h : y.toModel.unpack ≠ .infinity (-t)) : (x + y).toModel.unpack = .infinity t := by
  refine unpack_add (w := .infinity t) trivial ?_
  rw [hx]
  cases hv : y.toModel.unpack with
  | infinity s =>
    rw [hv] at h
    cases t <;> cases s <;> first | rfl | exact absurd rfl h
  | notANumber =>
    rw [isNaN_iff_unpack.2 hv] at hy
    cases hy
  | zero | finite => rfl

theorem add_infinity (hx : x.value? = some p) (hy : y.toModel.unpack = .infinity t) :
    (x + y).toModel.unpack = .infinity t := by
  refine unpack_add (w := .infinity t) trivial ?_
  rw [hy]
  rw [value?] at hx
  generalize x.toModel.unpack = u at hx
  cases u with
  | infinity | notANumber => cases hx
  | zero | finite => rfl

/-- A sum is no number where a summand is none, or where they are opposite infinities. -/
theorem isNaN_add (hx : x.isNaN = false) (hy : y.isNaN = false)
    (h : ∀ t, x.toModel.unpack = .infinity t → y.toModel.unpack ≠ .infinity (-t)) :
    (x + y).isNaN = false := by
  rcases value_or_infinity hx with ⟨p, hx⟩ | ⟨t, hx⟩
  · rcases value_or_infinity hy with ⟨q, hy⟩ | ⟨t, hy⟩
    · obtain ⟨r, hr⟩ := rounds_add hx hy
      exact hr.isNaN
    · exact isNaN_of_infinity (add_infinity hx hy)
  · exact isNaN_of_infinity (infinity_add hx hy (h t hx))

theorem add_notANumber (x : Scalar) (hy : y.toModel.unpack = .notANumber) :
    (x + y).toModel.unpack = .notANumber := by
  refine unpack_add (w := .notANumber) trivial ?_
  rw [hy]
  cases x.toModel.unpack <;> rfl

theorem sub_notANumber (x : Scalar) (hy : y.toModel.unpack = .notANumber) :
    (x - y).toModel.unpack = .notANumber := by
  rw [sub_eq_add_neg]
  exact add_notANumber x (by rw [unpack_neg, hy]; rfl)

/-- An infinity less itself is no number. -/
theorem sub_infinity_self (hx : x.toModel.unpack = .infinity t)
    (hy : y.toModel.unpack = .infinity t) : (x - y).toModel.unpack = .notANumber := by
  change (Float32.Model.pack (UnpackedFloat.sub _ x.toModel.unpack y.toModel.unpack)).unpack = _
  rw [hx, hy]
  cases t <;> exact unpack_pack (u := .notANumber) trivial

theorem isNaN_neg (hx : x.isNaN = false) : (-x).isNaN = false := by
  change x.toModel.unpack.isNaN = false at hx
  change (-x).toModel.unpack.isNaN = false
  rw [unpack_neg]
  generalize x.toModel.unpack = u at hx
  cases u with
  | notANumber => cases hx
  | infinity | zero | finite => rfl

theorem neg_infinity (hx : (-x).toModel.unpack = .infinity t) :
    x.toModel.unpack = .infinity (-t) := by
  rw [unpack_neg] at hx
  generalize x.toModel.unpack = u at hx ⊢
  cases u with
  | infinity s =>
    cases hx
    cases s <;> rfl
  | notANumber | zero | finite => cases hx

theorem rounds_zero : Rounds 0 0 0 :=
  ⟨nearest_zero, fun _ => value?_zero, fun h => by norm_num at h, fun h => by norm_num at h⟩

/-- The lesser number less the greater is never positive, unless it is no number. -/
theorem sub_le_zero (h : x ≤ y)
    (hne : ∀ t, x.toModel.unpack = .infinity t → y.toModel.unpack ≠ .infinity t) : x - y ≤ 0 := by
  obtain ⟨hx, hy⟩ := isNaN_of_le h
  have hbelow : (x - y).toModel.unpack = .infinity .negative → x - y ≤ 0 := fun hd =>
    infinity_le hd rounds_zero.isNaN
  rcases value_or_infinity hx with ⟨p, hx⟩ | ⟨t, hx⟩
  · rcases value_or_infinity hy with ⟨q, hy⟩ | ⟨t, hy⟩
    · obtain ⟨r, hr⟩ := rounds_sub hx hy
      have hpq := (le_iff_value hx hy).1 h
      exact hr.le rounds_zero (hr.nearest.le fits_zero (by linarith))
    · cases t with
      | negative => exact absurd (infinity_of_ge h hy) (ne_infinity_of_value hx)
      | positive =>
        refine hbelow ?_
        rw [sub_eq_add_neg]
        exact add_infinity hx (by rw [unpack_neg, hy]; rfl)
  · cases t with
    | positive => exact absurd (infinity_of_le h hx) (hne _ hx)
    | negative =>
      refine hbelow ?_
      rw [sub_eq_add_neg]
      exact infinity_add hx (isNaN_neg hy) fun h => hne _ hx (neg_infinity h)

section Products

/-- What stands at the same place is the same, but for the sign of a zero. -/
theorem eq_or_zero_of_place {u v : UnpackedFloat} {k : Place} (hu : placeUnpacked u = some k)
    (hv : placeUnpacked v = some k) : u = v ∨ valueUnpacked u = some 0 := by
  rcases u with (_ | _) | _ | _ | ⟨_ | _, m, e, hm⟩ <;> cases hu
  case zero => exact .inr rfl
  all_goals
    rcases v with (_ | _) | _ | _ | ⟨_ | _, n, f, hn⟩ <;> simp [placeUnpacked] at hv
  case infinity.negative.refl.infinity.negative => exact .inl rfl
  case infinity.positive.refl.infinity.positive => exact .inl rfl
  case finite.negative.refl.finite.negative => exact .inl (finite_congr hv.2.symm hv.1.symm)
  case finite.positive.refl.finite.positive => exact .inl (finite_congr hv.2.symm hv.1.symm)

/-- A product that overflows does so whichever of two equal numbers it is of. -/
theorem mul_infinity_of_tie (hs : s.isFinite = true) (h : x ≤ y) (h' : y ≤ x)
    (hx : (x * s).toModel.unpack = .infinity t) : (y * s).toModel.unpack = .infinity t := by
  obtain ⟨i, hi, j, hj, hij⟩ := le_iff_place.1 h
  obtain ⟨j', hj', i', hi', hji⟩ := le_iff_place.1 h'
  obtain rfl := Option.mem_unique hi hi'
  obtain rfl := Option.mem_unique hj hj'
  obtain rfl := hij.antisymm hji
  rcases eq_or_zero_of_place hi hj with heq | hzero
  · change (Float32.Model.pack (UnpackedFloat.mul _ y.toModel.unpack s.toModel.unpack)).unpack = _
    rw [← heq]
    exact hx
  · obtain ⟨q, hq⟩ := isFinite_iff_value.1 hs
    obtain ⟨r, hr⟩ := rounds_mul hzero hq
    rw [zero_mul] at hr
    exact absurd hx (ne_infinity_of_value (hr.value_of_fits fits_zero (by norm_num)))

/-- A finite number above zero, as it is unpacked. -/
theorem unpack_of_zero_lt (hs : s.isFinite = true) (hpos : 0 < s) :
    ∃ q m e hm, s.value? = some q ∧ 0 < q ∧ s.toModel.unpack = .finite .positive m e hm := by
  obtain ⟨q, hq⟩ := isFinite_iff_value.1 hs
  have hq0 := (lt_iff_value value?_zero hq).1 hpos
  obtain ⟨m, e, hm, hunpack⟩ := unpack_of_pos hq hq0
  exact ⟨q, m, e, hm, hq, hq0, hunpack⟩

variable (hs : s.isFinite = true) (hpos : 0 < s)
include hs hpos

theorem infinity_mul (hx : x.toModel.unpack = .infinity t) :
    (x * s).toModel.unpack = .infinity t := by
  obtain ⟨q, m, e, hm, _, _, hunpack⟩ := unpack_of_zero_lt hs hpos
  change (Float32.Model.pack (UnpackedFloat.mul _ x.toModel.unpack s.toModel.unpack)).unpack = _
  rw [hx, hunpack]
  cases t <;> exact unpack_pack_infinity _

theorem infinity_div_pos (hx : x.toModel.unpack = .infinity t) :
    (x / s).toModel.unpack = .infinity t := by
  obtain ⟨q, m, e, hm, _, _, hunpack⟩ := unpack_of_zero_lt hs hpos
  exact infinity_div hx hs (by rw [hunpack]; rfl)

theorem isNaN_mul (hx : x.isNaN = false) : (x * s).isNaN = false := by
  obtain ⟨q, _, _, _, hq, _, _⟩ := unpack_of_zero_lt hs hpos
  rcases value_or_infinity hx with ⟨p, hx⟩ | ⟨t, hx⟩
  · obtain ⟨r, hr⟩ := rounds_mul hx hq
    exact hr.isNaN
  · exact isNaN_of_infinity (infinity_mul hs hpos hx)

theorem isNaN_div (hx : x.isNaN = false) : (x / s).isNaN = false := by
  obtain ⟨q, _, _, _, hq, hq0, _⟩ := unpack_of_zero_lt hs hpos
  rcases value_or_infinity hx with ⟨p, hx⟩ | ⟨t, hx⟩
  · obtain ⟨r, hr⟩ := rounds_div hx hq hq0.ne'
    exact hr.isNaN
  · exact isNaN_of_infinity (infinity_div_pos hs hpos hx)

/-- Products with a positive number keep the order of what they are taken of. -/
theorem mul_le_mul (h : x < y) : x * s ≤ y * s := by
  obtain ⟨q, _, _, _, hq, hq0, _⟩ := unpack_of_zero_lt hs hpos
  obtain ⟨hx, hy⟩ := isNaN_of_le (le_of_lt h)
  have hxs := isNaN_mul hs hpos hx
  have hys := isNaN_mul hs hpos hy
  rcases value_or_infinity hx with ⟨p, hx'⟩ | ⟨_ | _, hx'⟩
  · rcases value_or_infinity hy with ⟨p', hy'⟩ | ⟨_ | _, hy'⟩
    · -- Both products are rounded, and rounding keeps the order of the exact ones.
      obtain ⟨r, hr⟩ := rounds_mul hx' hq
      obtain ⟨r', hr'⟩ := rounds_mul hy' hq
      have hlt := mul_lt_mul_of_pos_right ((lt_iff_value hx' hy').1 h) hq0
      exact hr.le hr' (hr.nearest.mono hr'.nearest hlt)
    · exact absurd h (not_lt_of_le (infinity_le hy' hx))
    · exact le_infinity hxs (infinity_mul hs hpos hy')
  · exact infinity_le (infinity_mul hs hpos hx') hys
  · exact absurd h (not_lt_of_le (le_infinity hy hx'))

end Products
end Terrain.Scalar
