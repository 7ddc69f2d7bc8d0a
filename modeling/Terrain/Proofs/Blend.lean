import Terrain.Proofs.Except
import Terrain.Proofs.Scalar.Overflow
import Terrain.Proofs.Supplier.Coins

/-! Smooth minima and maxima, and where they are no number. The exponential and the logarithm stand
for any two functions that do what these are documented to do, so nothing here depends on how they
are computed. A blend of numbers is a number unless the products of both with the smoothness
overflow to the same infinity, whose difference is none; one overflow alone goes on into the
result. -/
namespace Terrain

open Float.Model UnpackedFloat

/-- The two functions by which numbers are blended. -/
structure Curves where
  exp : Scalar → Scalar
  logOnePlus : Scalar → Scalar

namespace Curves

/-- What the two functions are documented to do, as far as blending relies on it. -/
structure Documented (c : Curves) : Prop where
  exp_nonneg : ∀ x ≤ 0, 0 ≤ c.exp x
  log_nonneg : ∀ x, 0 ≤ x → 0 ≤ c.logOnePlus x
  exp_isNaN : ∀ x, x.isNaN = true → (c.exp x).isNaN = true
  log_isNaN : ∀ x, x.isNaN = true → (c.logOnePlus x).isNaN = true

/-- The functions by which the operations blend. -/
def standard : Curves := ⟨Scalar.exp, Scalar.logOnePlus⟩

/-- How far a blend bends away from the sharp result, before it is scaled back. -/
def bend (c : Curves) (lo hi : Scalar) : Scalar := c.logOnePlus (c.exp (lo - hi))

def smoothMinimum (c : Curves) (a b smoothness : Scalar) : Scalar :=
  if smoothness ≤ 0 then Scalar.min a b
  else
    let lo := Scalar.min a b * smoothness
    (lo - c.bend lo (Scalar.max a b * smoothness)) / smoothness

def smoothMaximum (c : Curves) (a b smoothness : Scalar) : Scalar :=
  if smoothness ≤ 0 then Scalar.max a b
  else
    let hi := Scalar.max a b * smoothness
    (hi + c.bend (Scalar.min a b * smoothness) hi) / smoothness

/-- The operations, blended by the functions given. -/
def apply (c : Curves) : Operation → Scalar → Scalar → Scalar
  | .smoothMin s, a, b => c.smoothMinimum a b s
  | .smoothMax s, a, b => c.smoothMaximum a b s
  | operation, a, b => operation.apply a b

theorem apply_standard : standard.apply = Operation.apply := by
  funext operation a b
  cases operation <;> rfl

end Curves

namespace Scalar
variable {a b s : Scalar}

/-- The products of two numbers with the smoothness overflow to the same infinity. -/
def Clash (s a b : Scalar) : Prop := 0 < s ∧ (a * s).isInf = true ∧ (a * s == b * s) = true

instance (s a b : Scalar) : Decidable (Clash s a b) := inferInstanceAs (Decidable (_ ∧ _))

theorem clash_iff (hpos : 0 < s) : Clash s a b ↔
    ∃ t, (a * s).toModel.unpack = .infinity t ∧ (b * s).toModel.unpack = .infinity t := by
  constructor
  · rintro ⟨_, hinf, heq⟩
    obtain ⟨t, ht⟩ := isInf_iff_unpack.1 hinf
    exact ⟨t, ht, (beq_infinity ht).1 heq⟩
  · rintro ⟨t, ha, hb⟩
    exact ⟨hpos, isInf_iff_unpack.2 ⟨t, ha⟩, (beq_infinity ha).2 hb⟩

/-- The lesser and the greater of two numbers: those in one order or in the other, or the first of
them twice where they are equal. -/
theorem min_max_cases (ha : a.isNaN = false) (hb : b.isNaN = false) :
    (a < b ∧ Scalar.min a b = a ∧ Scalar.max a b = b) ∨
    (b < a ∧ Scalar.min a b = b ∧ Scalar.max a b = a) ∨
    (a ≤ b ∧ b ≤ a ∧ Scalar.min a b = a ∧ Scalar.max a b = a) := by
  have hmin : Scalar.min a b = if b < a then b else a := by
    simp only [Scalar.min, ha, hb, Bool.false_eq_true, if_false]
  have hmax : Scalar.max a b = if a < b then b else a := by
    simp only [Scalar.max, ha, hb, Bool.false_eq_true, if_false]
  by_cases hlt : a < b
  · have hge := not_lt_of_le (le_of_lt hlt)
    exact .inl ⟨hlt, by rw [hmin, if_neg hge], by rw [hmax, if_pos hlt]⟩
  by_cases hgt : b < a
  · exact .inr (.inl ⟨hgt, by rw [hmin, if_pos hgt], by rw [hmax, if_neg hlt]⟩)
  · exact .inr (.inr ⟨le_of_not_lt hb ha hgt, le_of_not_lt ha hb hlt, by rw [hmin, if_neg hgt],
      by rw [hmax, if_neg hlt]⟩)

theorem isNaN_min_max (ha : a.isNaN = false) (hb : b.isNaN = false) :
    (Scalar.min a b).isNaN = false ∧ (Scalar.max a b).isNaN = false := by
  rcases min_max_cases ha hb with ⟨_, hmin, hmax⟩ | ⟨_, hmin, hmax⟩ | ⟨_, _, hmin, hmax⟩
  all_goals rw [hmin, hmax]
  exacts [⟨ha, hb⟩, ⟨hb, ha⟩, ⟨ha, ha⟩]

/-- The lesser product is no more than the greater, and they are the same infinity just where the
products clash. -/
theorem scaled_min_max (hs : s.isFinite = true) (hpos : 0 < s) (ha : a.isNaN = false)
    (hb : b.isNaN = false) :
    Scalar.min a b * s ≤ Scalar.max a b * s ∧
      (Clash s a b ↔ ∃ t, (Scalar.min a b * s).toModel.unpack = .infinity t ∧
        (Scalar.max a b * s).toModel.unpack = .infinity t) := by
  rw [clash_iff hpos]
  rcases min_max_cases ha hb with ⟨hlt, hmin, hmax⟩ | ⟨hlt, hmin, hmax⟩ | ⟨hle, hge, hmin, hmax⟩
  all_goals rw [hmin, hmax]
  · exact ⟨mul_le_mul hs hpos hlt, Iff.rfl⟩
  · exact ⟨mul_le_mul hs hpos hlt, exists_congr fun t => and_comm⟩
  · refine ⟨le_self (isNaN_mul hs hpos ha), exists_congr fun t => and_congr_right fun hinf => ?_⟩
    exact iff_of_true (mul_infinity_of_tie hs hle hge hinf) hinf

end Scalar

namespace Curves
open Scalar
variable {c : Curves} {lo hi a b s : Scalar} {t : Sign}

/-- The same infinity twice bends to no number. -/
theorem bend_infinity (hc : c.Documented) (hlo : lo.toModel.unpack = .infinity t)
    (hhi : hi.toModel.unpack = .infinity t) : (c.bend lo hi).toModel.unpack = .notANumber :=
  isNaN_iff_unpack.1 (hc.log_isNaN _ (hc.exp_isNaN _
    (isNaN_iff_unpack.2 (sub_infinity_self hlo hhi))))

/-- Two numbers in order bend to one that is not negative, unless they are the same infinity. -/
theorem zero_le_bend (hc : c.Documented) (hle : lo ≤ hi)
    (hne : ¬ ∃ t, lo.toModel.unpack = .infinity t ∧ hi.toModel.unpack = .infinity t) :
    0 ≤ c.bend lo hi :=
  hc.log_nonneg _ (hc.exp_nonneg _ (sub_le_zero hle fun t hlo hhi => hne ⟨t, hlo, hhi⟩))

theorem ne_infinity_of_nonneg {l : Scalar} (h : 0 ≤ l) : l.toModel.unpack ≠ .infinity .negative :=
  fun hl => ne_infinity_of_value value?_zero (infinity_of_ge h hl)

/-- To go down from the lesser of two numbers that are not the same infinity leads to a number, and
from an infinity nowhere. -/
theorem sub_bend (hc : c.Documented) (hle : lo ≤ hi)
    (hne : ¬ ∃ t, lo.toModel.unpack = .infinity t ∧ hi.toModel.unpack = .infinity t) :
    (lo - c.bend lo hi).isNaN = false ∧
      ∀ t, lo.toModel.unpack = .infinity t → (lo - c.bend lo hi).toModel.unpack = .infinity t := by
  have hl := zero_le_bend hc hle hne
  have hneg := isNaN_neg (isNaN_of_le hl).2
  -- Nothing is beyond the end of the line, so there both would be the same infinity.
  have hends : ∀ t, lo.toModel.unpack = .infinity t →
      (-c.bend lo hi).toModel.unpack ≠ .infinity (-t) := by
    rintro (_ | _) hlo hl'
    · exact ne_infinity_of_nonneg hl (neg_infinity hl')
    · exact hne ⟨_, hlo, infinity_of_le hle hlo⟩
  rw [sub_eq_add_neg]
  exact ⟨isNaN_add (isNaN_of_le hle).1 hneg hends,
    fun t hlo => infinity_add hlo hneg (hends t hlo)⟩

/-- To go up from the greater of two numbers that are not the same infinity leads to a number, and
from an infinity nowhere. -/
theorem add_bend (hc : c.Documented) (hle : lo ≤ hi)
    (hne : ¬ ∃ t, lo.toModel.unpack = .infinity t ∧ hi.toModel.unpack = .infinity t) :
    (hi + c.bend lo hi).isNaN = false ∧
      ∀ t, hi.toModel.unpack = .infinity t → (hi + c.bend lo hi).toModel.unpack = .infinity t := by
  have hl := zero_le_bend hc hle hne
  have hends : ∀ t, hi.toModel.unpack = .infinity t →
      (c.bend lo hi).toModel.unpack ≠ .infinity (-t) := by
    rintro (_ | _) hhi hl'
    · exact hne ⟨_, infinity_of_ge hle hhi, hhi⟩
    · exact ne_infinity_of_nonneg hl hl'
  have hnan := (isNaN_of_le hl).2
  exact ⟨isNaN_add (isNaN_of_le hle).2 hnan hends,
    fun t hhi => infinity_add hhi hnan (hends t hhi)⟩

/-- What a number that was bent is once it is scaled back: no number where the products clash, and
otherwise the infinity that the product was. -/
theorem scaledBack_ends {sharp bent : Scalar} (hs : s.isFinite = true)
    (hsharp : sharp.isNaN = false) (hclash : Clash s a b → bent.toModel.unpack = .notANumber)
    (hapart : 0 < s → ¬ Clash s a b → bent.isNaN = false ∧
      ∀ t, (sharp * s).toModel.unpack = .infinity t → bent.toModel.unpack = .infinity t) :
    ((if s ≤ 0 then sharp else bent / s).isNaN = true ↔ Clash s a b) ∧
      (0 < s → ¬ Clash s a b → (sharp * s).isInf = true →
        ((if s ≤ 0 then sharp else bent / s) == sharp * s) = true) := by
  by_cases hpos : 0 < s
  · rw [if_neg fun h => not_lt_of_le h hpos]
    by_cases hsame : Clash s a b
    · have hnan := isNaN_iff_unpack.2 (notANumber_div (hclash hsame) s)
      exact ⟨iff_of_true hnan hsame, fun _ h => absurd hsame h⟩
    · obtain ⟨hnumber, hends⟩ := hapart hpos hsame
      have hquotient := isNaN_div hs hpos hnumber
      refine ⟨iff_of_false (Bool.eq_false_iff.1 hquotient) hsame, fun _ _ hinf => ?_⟩
      obtain ⟨t, ht⟩ := isInf_iff_unpack.1 hinf
      exact (beq_infinity (infinity_div_pos hs hpos (hends t ht))).2 ht
  · obtain ⟨q, hq⟩ := isFinite_iff_value.1 hs
    rw [if_pos (le_of_not_lt rounds_zero.isNaN (isNaN_of_value hq) hpos)]
    exact ⟨iff_of_false (Bool.eq_false_iff.1 hsharp) fun h => hpos h.1, fun h => absurd h hpos⟩

/-- A smooth minimum of numbers is no number just where their products clash; the lesser product,
where it overflows by itself, is the result. -/
theorem smoothMinimum_ends (hc : c.Documented) (hs : s.isFinite = true) (ha : a.isNaN = false)
    (hb : b.isNaN = false) :
    ((c.smoothMinimum a b s).isNaN = true ↔ Clash s a b) ∧
      (0 < s → ¬ Clash s a b → (Scalar.min a b * s).isInf = true →
        (c.smoothMinimum a b s == Scalar.min a b * s) = true) := by
  refine scaledBack_ends hs (isNaN_min_max ha hb).1 (fun h => ?_) fun hpos h => ?_
  · obtain ⟨t, hlo, hhi⟩ := (scaled_min_max hs h.1 ha hb).2.1 h
    exact sub_notANumber _ (bend_infinity hc hlo hhi)
  · obtain ⟨hle, hclash⟩ := scaled_min_max hs hpos ha hb
    exact sub_bend hc hle (hclash.not.1 h)

/-- A smooth maximum of numbers is no number just where their products clash; the greater product,
where it overflows by itself, is the result. -/
theorem smoothMaximum_ends (hc : c.Documented) (hs : s.isFinite = true) (ha : a.isNaN = false)
    (hb : b.isNaN = false) :
    ((c.smoothMaximum a b s).isNaN = true ↔ Clash s a b) ∧
      (0 < s → ¬ Clash s a b → (Scalar.max a b * s).isInf = true →
        (c.smoothMaximum a b s == Scalar.max a b * s) = true) := by
  refine scaledBack_ends hs (isNaN_min_max ha hb).2 (fun h => ?_) fun hpos h => ?_
  · obtain ⟨t, hlo, hhi⟩ := (scaled_min_max hs h.1 ha hb).2.1 h
    exact add_notANumber _ (bend_infinity hc hlo hhi)
  · obtain ⟨hle, hclash⟩ := scaled_min_max hs hpos ha hb
    exact add_bend hc hle (hclash.not.1 h)

/-- A product that is finite clashes with no other. -/
theorem not_clash_of_isFinite (h : 0 < s → (b * s).isFinite = true) : ¬ Clash s a b := by
  intro hsame
  obtain ⟨t, _, hb⟩ := (clash_iff hsame.1).1 hsame
  obtain ⟨q, hq⟩ := isFinite_iff_value.1 (h hsame.1)
  exact ne_infinity_of_value hq hb

/-- A fold goes on from a number, or from an infinity, to a number again at each value whose product
does not overflow. -/
theorem isNaN_foldl {f : Scalar → Scalar → Scalar}
    (hf : ∀ a b, a.isNaN = false → b.isNaN = false → ((f a b).isNaN = true ↔ Clash s a b))
    {values : List Scalar} {base : Scalar} (hbase : base.isNaN = false)
    (h : ∀ v ∈ values, v.isNaN = false ∧ (0 < s → (v * s).isFinite = true)) :
    (values.foldl f base).isNaN = false := by
  induction values generalizing base with
  | nil => exact hbase
  | cons v values ih =>
    obtain ⟨hv, hfinite⟩ := h v List.mem_cons_self
    refine ih ?_ fun w hw => h w (List.mem_cons_of_mem v hw)
    exact Bool.eq_false_iff.2 ((hf base v hbase hv).not.2 (not_clash_of_isFinite hfinite))

end Curves

/-- Where a fold of grids has a value, it is that of the values of its layers. -/
theorem Grid.valueAt_foldl {operation : Operation} {layers : List ValueGrid} {acc : ValueGrid}
    {p : Point} {v : Scalar} (h : (layers.foldl (combine operation) acc).valueAt p = .ok v) :
    ∃ base values, acc.valueAt p = .ok base ∧
      List.Forall₂ (fun layer v => Grid.valueAt layer p = .ok v) layers values ∧
      v = values.foldl operation.apply base := by
  induction layers generalizing acc with
  | nil => exact ⟨v, [], h, .nil, rfl⟩
  | cons layer layers ih =>
    obtain ⟨x, values, hx, hvalues, rfl⟩ := ih h
    rw [valueAt_combine] at hx
    obtain ⟨base, hbase, hx⟩ := Except.bind_eq_ok.1 hx
    obtain ⟨w, hw, hx⟩ := Except.bind_eq_ok.1 hx
    obtain rfl := Except.ok.inj hx
    exact ⟨base, w :: values, hbase, .cons hw hvalues, rfl⟩

namespace Curves
open Scalar

/-- For any two functions that do what the exponential and the logarithm are documented to do, among
them those of the operations, and a finite smoothness: a smooth minimum or maximum of two numbers is
no number just where the products of both with the smoothness, which is then positive, overflow to
the same infinity; otherwise a product that overflows where it leads is the result. A fold of
suppliers is one over the values that its layers yield, and one of grids over those that its layers
have at a point; it comes to a number where it starts from one and no product of a layer
overflows. -/
theorem blend_ends {c : Curves} (hc : c.Documented) {s : Scalar} (hs : s.isFinite = true) :
    standard.apply = Operation.apply ∧
    (∀ a b : Scalar, a.isNaN = false → b.isNaN = false →
      ((c.apply (.smoothMin s) a b).isNaN = true ↔ Clash s a b) ∧
      ((c.apply (.smoothMax s) a b).isNaN = true ↔ Clash s a b) ∧
      (0 < s → ¬ Clash s a b →
        ((Scalar.min a b * s).isInf = true →
          (c.apply (.smoothMin s) a b == Scalar.min a b * s) = true) ∧
        ((Scalar.max a b * s).isInf = true →
          (c.apply (.smoothMax s) a b == Scalar.max a b * s) = true))) ∧
    (∀ (base : Scalar) (values : List Scalar), base.isNaN = false →
      (∀ v ∈ values, v.isNaN = false ∧ (0 < s → (v * s).isFinite = true)) →
      (values.foldl (c.apply (.smoothMin s)) base).isNaN = false ∧
        (values.foldl (c.apply (.smoothMax s)) base).isNaN = false) ∧
    (∀ (operation : Operation) (flip : Nat → Bool) (row : Slots .number) (n : Nat) (acc : Scalar)
      (st : Store),
      let layers := presentAt row.toList ((List.range row.length).filter fun m => flip (n + m))
      (row.fold operation flip n acc st).1 =
        (Supplier.pullAll layers st).1.foldl (standard.apply operation) acc) ∧
    ∀ (operation : Operation) (flip : Nat → Bool) (row : List (Option ValueGrid)) (n : Nat)
      (acc : ValueGrid) (p : Point) (v : Scalar),
      (Grid.foldLayers operation flip row n acc).valueAt p = .ok v →
      let layers := presentAt row ((List.range row.length).filter fun m => flip (n + m))
      ∃ base values, acc.valueAt p = .ok base ∧
        List.Forall₂ (fun layer v => Grid.valueAt layer p = .ok v) layers values ∧
        v = values.foldl (standard.apply operation) base := by
  refine ⟨apply_standard, fun a b ha hb => ?_, fun base values hbase h => ?_, ?_, ?_⟩
  · obtain ⟨hmin, hmin'⟩ := smoothMinimum_ends hc hs ha hb
    obtain ⟨hmax, hmax'⟩ := smoothMaximum_ends hc hs ha hb
    exact ⟨hmin, hmax, fun hpos h => ⟨hmin' hpos h, hmax' hpos h⟩⟩
  · exact ⟨isNaN_foldl (fun _ _ ha hb => (smoothMinimum_ends hc hs ha hb).1) hbase h,
      isNaN_foldl (fun _ _ ha hb => (smoothMaximum_ends hc hs ha hb).1) hbase h⟩
  · intro operation flip row n acc st
    rw [apply_standard, Slots.fold_eq_foldl]
  · intro operation flip row n acc p v h
    rw [Grid.foldLayers_eq_foldl] at h
    rw [apply_standard]
    exact Grid.valueAt_foldl h

/-- Steps in place of the two functions: the exponential is one at zero and rounded to zero far
below it, and the logarithm is taken of these two, one added. -/
def stepped : Curves where
  exp x := if x.isNaN then x else if x == 0 then 1 else 0
  logOnePlus x := if x.isNaN then x else if x ≤ 0 then 0 else 0.6931472

theorem stepped_documented : stepped.Documented where
  exp_nonneg x hx := by
    change 0 ≤ if x.isNaN then x else if x == 0 then 1 else 0
    rw [(isNaN_of_le hx).1, if_neg Bool.false_ne_true]
    split <;> decide +kernel
  log_nonneg x hx := by
    change 0 ≤ if x.isNaN then x else if x ≤ 0 then 0 else 0.6931472
    rw [(isNaN_of_le hx).2, if_neg Bool.false_ne_true]
    split <;> decide +kernel
  exp_isNaN x hx := by
    change (if x.isNaN then x else _).isNaN = true
    rwa [if_pos hx]
  log_isNaN x hx := by
    change (if x.isNaN then x else _).isNaN = true
    rwa [if_pos hx]

/-- The greater of two numbers far apart is their smooth maximum, and a fold over such numbers comes
to a number. -/
theorem stepped_blend_ends :
    (stepped.apply (.smoothMax 1) 1e30 (-1e30)).isNaN = false ∧
    ([-1e30, -1e30, 5].foldl (stepped.apply (.smoothMin 1)) 1e30).isNaN = false := by
  have h := blend_ends stepped_documented (s := 1) (by decide +kernel)
  constructor
  · have hclash : ¬ Clash 1 1e30 (-1e30) := by decide +kernel
    have := (h.2.1 1e30 (-1e30) (by decide +kernel) (by decide +kernel)).2.1.not.2 hclash
    exact Bool.eq_false_iff.2 this
  · exact (h.2.2.1 1e30 [-1e30, -1e30, 5] (by decide +kernel) (by decide +kernel)).1

/-- Two equal numbers whose products overflow: the difference of the products is no number. -/
theorem blend_of_clash :
    (1e30 : Scalar).isFinite = true ∧
    ((Operation.smoothMin 1e30).apply 1e30 1e30).isNaN = true ∧
    ((Operation.smoothMax 1e30).apply 1e30 1e30).isNaN = true := by
  decide +kernel

end Curves
end Terrain
