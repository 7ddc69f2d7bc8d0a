import Terrain.Proofs.Scalar.Whole
import Terrain.Proofs.Supplier.Coins
import Terrain.Proofs.Workspace.Chosen

/-! Numbers drawn between two bounds. The width of the bounds is rounded, and may be rounded up,
but a part of it that is less than the whole is rounded back below the true width; so a draw can
pass the upper bound only where the word drawn is rounded up to the whole, and is lost altogether
where the width is beyond all numbers. -/
namespace Terrain

open Scalar

namespace Random

theorem value_unit (word : UInt32) :
    ∃ u, (unit word).value? = some u ∧ 0 ≤ u ∧ u ≤ 1 ∧ (unit word < 1 → u ≤ 1 - 2 ^ (-24 : ℤ)) := by
  have one : value? (1 : Scalar) = some 1 := by decide +kernel
  have whole : value? (4294967296 : Scalar) = some (2 ^ 32) := by decide +kernel
  have fits_whole : Fits (2 ^ 32) := ⟨1, 32, by norm_num, by norm_num, by norm_num⟩
  have below : (word.toNat : ℚ) ≤ 2 ^ 32 := by exact_mod_cast word.toNat_lt.le
  obtain ⟨n, hn⟩ := rounds_ofNat word.toNat
  obtain ⟨count, low, high⟩ := hn.value_of_between fits_zero fits_whole (by norm_num)
    (by norm_num) (Nat.cast_nonneg _) below
  obtain ⟨u, hu⟩ := rounds_div count whole (by norm_num)
  obtain ⟨value, low, high⟩ := hu.value_of_between fits_zero fits_one (by norm_num) (by norm_num)
    (by positivity) ((div_le_one (by norm_num)).2 high)
  exact ⟨u, value, low, high, fun h => hu.fits.le_of_lt_one ((lt_iff_value value one).1 h)⟩

/-- How a word that is drawn comes out between two bounds. -/
structure Drawn (lo hi : Scalar) (word : UInt32) (v : Scalar) : Prop where
  spread : v = lo + (hi - lo) * unit word
  /-- Bounds too far apart leave nothing finite. -/
  lost : (hi - lo).isFinite = false → v.isFinite = false
  low : (hi - lo).isFinite = true → lo ≤ v
  high : (hi - lo).isFinite = true → unit word < 1 → v.isFinite = true ∧ v ≤ hi

/-- A width that is rounded to the least of all digits is exact. -/
theorem width_eq_of_least {a b width : ℚ} (ha : Fits a) (hb : Fits b) (hab : a ≤ b)
    (hwidth : NearestAt (-149) (b - a) width) : width = b - a := by
  obtain ⟨j, hj⟩ := ha.exists_multiple
  obtain ⟨k, hk⟩ := hb.exists_multiple
  have pos : (0 : ℚ) < 2 ^ (-149 : ℤ) := by positivity
  have multiple : b - a = (k - j : ℤ) * 2 ^ (-149 : ℤ) := by
    rw [hj, hk]
    push_cast
    ring
  have digits : |k - j| ≤ 2 ^ 24 := by
    have below := hwidth.below
    rw [abs_of_nonneg (sub_nonneg.2 hab), multiple] at below
    have top : ((k - j : ℤ) : ℚ) < 2 ^ 24 := lt_of_mul_lt_mul_right below pos.le
    have bottom : (0 : ℚ) ≤ (k - j : ℤ) :=
      nonneg_of_mul_nonneg_left (multiple ▸ sub_nonneg.2 hab) pos
    rw [abs_of_nonneg (by exact_mod_cast bottom)]
    exact_mod_cast top.le
  exact Nearest.eq_of_fits ⟨_, hwidth⟩ ⟨_, _, digits, le_rfl, multiple⟩

/-- A part of a rounded width, up to a last digit short of the whole, is rounded to no more than
the width before it was rounded. -/
theorem part_le_width {a b width part u : ℚ} (ha : Fits a) (hb : Fits b) (hab : a ≤ b)
    (hwidth : Nearest (b - a) width) (hu : u ≤ 1 - 2 ^ (-24 : ℤ))
    (hpart : Nearest (width * u) part) : part ≤ b - a := by
  have nonneg : 0 ≤ width := hwidth.ge fits_zero (sub_nonneg.2 hab)
  have hu_one : u ≤ 1 := hu.trans (by norm_num)
  rcases le_or_gt width (b - a) with short | long
  · exact (hpart.le hwidth.fits (mul_le_of_le_one_right nonneg hu_one)).trans short
  obtain ⟨e, hat⟩ := hwidth
  have inexact : e ≠ -149 := by
    rintro rfl
    exact long.ne' (width_eq_of_least ha hb hab hat)
  have below := hat.below
  have filled := hat.filled.resolve_left inexact
  rw [abs_of_nonneg (sub_nonneg.2 hab)] at below filled
  obtain ⟨k, rfl⟩ := hat.multiple
  have pos : (0 : ℚ) < 2 ^ e := by positivity
  have low : (2 ^ 23 : ℚ) < k := lt_of_mul_lt_mul_right (filled.trans_lt long) pos.le
  have high : k ≤ 2 ^ 24 := by
    have := hat.le_multiple (j := 2 ^ 24) (by push_cast; linarith)
    exact_mod_cast le_of_mul_le_mul_right this pos
  have short : k * 2 ^ e * u < (k - 1 / 2) * 2 ^ e := by
    calc (k * 2 ^ e * u : ℚ) = k * u * 2 ^ e := by ring
      _ ≤ k * (1 - 2 ^ (-24 : ℤ)) * 2 ^ e := by gcongr
      _ < (k - 1 / 2) * 2 ^ e := by
          gcongr
          norm_num
          linarith
  have close := (abs_le.1 hat.close).2
  linarith [hpart.le_pred hat.least (by exact_mod_cast low) high short]

theorem drawn {lo hi : Scalar} (hlo : lo.isFinite = true) (hhi : hi.isFinite = true)
    (h : lo ≤ hi) (word : UInt32) : Drawn lo hi word (lo + (hi - lo) * unit word) := by
  obtain ⟨a, ha⟩ := isFinite_iff_value.1 hlo
  obtain ⟨b, hb⟩ := isFinite_iff_value.1 hhi
  have hab : a ≤ b := (le_iff_value ha hb).1 h
  rcases hfinite : (hi - lo).isFinite with _ | _
  · have lost : (lo + (hi - lo) * unit word).isFinite = false :=
      isFinite_add_of_right lo (isFinite_mul_of_left hfinite _)
    exact ⟨rfl, fun _ => lost, by simp [hfinite], by simp [hfinite]⟩
  obtain ⟨fits_a, small_a⟩ := fits_of_value ha
  obtain ⟨fits_b, small_b⟩ := fits_of_value hb
  obtain ⟨width, hwidth⟩ := rounds_sub hb ha
  have width_value := hwidth.value_of_isFinite hfinite
  have nonneg : 0 ≤ width := hwidth.nearest.ge fits_zero (sub_nonneg.2 hab)
  obtain ⟨u, unit_value, hu, hu_one, hu_lt⟩ := value_unit word
  obtain ⟨part, hpart⟩ := rounds_mul width_value unit_value
  obtain ⟨part_value, part_nonneg, _⟩ := hpart.value_of_between fits_zero hwidth.fits
    (by norm_num) (lt_of_abs_lt (fits_of_value width_value).2) (mul_nonneg nonneg hu)
    (mul_le_of_le_one_right nonneg hu_one)
  obtain ⟨v, hv⟩ := rounds_add ha part_value
  refine ⟨rfl, by simp [hfinite], fun _ => hv.le_of_value ha (by linarith), fun _ hlt => ?_⟩
  have inside := part_le_width fits_a fits_b hab hwidth.nearest (hu_lt hlt) hpart.nearest
  obtain ⟨value, _, high⟩ := hv.value_of_between fits_a fits_b (neg_lt_of_abs_lt small_a)
    (lt_of_abs_lt small_b) (by linarith) (by linarith)
  exact ⟨isFinite_iff_value.2 ⟨v, value⟩, (le_iff_value value hb).2 high⟩

end Random

namespace Supplier

/-- A pull takes one word, and so the `k`-th one since a reset stands behind `k` words. -/
theorem Pulled.position_random {lo hi : Scalar} {seed : Seed} {cell : Cell} {k : Nat} {st : Store}
    (h : Pulled (.random lo hi seed cell) cell k st) : st.position cell = k := by
  induction h with
  | fresh h => exact h
  | reset st => rw [Supplier.reset, Store.position_move_self]
  | pull _ ih => rw [get, Store.position_move_self, ih]
  | elsewhere _ hst ih => rw [hst.position, ih]

end Supplier

namespace Stock

/-- A node that draws a number compiles to a supplier, each pull of which yields the first draw of
the node's seed. -/
theorem CompilesAt.randomValue {t : Stock} {s : Scope} {st : Store} {held : AnySupplier → Prop}
    (ht : t.Reached) (h : t.CompilesAt s st held) {lo hi : Scalar}
    (hkind : s.node.kind = .randomValue lo hi) :
    ∃ x : Supplier .number, (s.compile.outcome ⟨st, []⟩).1 = .ok { outputs := [.value x] } ∧
      ∀ st', Store.Touches (fun y => held y ∨ y = ⟨x⟩) (s.compile.outcome ⟨st, []⟩).2.store st' →
        (x.get st').1 = lo + (hi - lo) * Random.unit (s.seed.draw 0) := by
  obtain ⟨Γ, hb⟩ := h.backed ht
  obtain ⟨v, Γ', hout, hv, hΓ, hst, hsteady⟩ := hb.compiles_single
    (w := .number (lo + (hi - lo) * Random.unit (s.seed.draw 0))) (by rw [Node.meaning, hkind]; rfl)
  obtain ⟨x, rfl, hx⟩ := @PortValue.eq_ofSupplier v .number _ hv
  have hheld : ∀ y : AnySupplier, held y ∨ y = ⟨x⟩ → y.supplier.Steady Γ' Γ'.length := by
    rintro y (hy | rfl)
    · exact (hb.held y hy).mono hΓ hΓ.length_le
    · exact PortValue.steady_ofSupplier.1 hsteady
  refine ⟨x, hout, fun st' htouch => ?_⟩
  rw [(hst.touches hheld htouch).get_eq (PortValue.steady_ofSupplier.1 hsteady), hx]

/-- Between finite bounds in order, for every seed, the `k`-th pull of a random range since it was
made or last reset spreads the `k`-th word of the seed's stream between the bounds, and every pull
of what a random node compiles to, wherever a pass may come to compile it, spreads the first word.
Where the width of the bounds is finite as a number, no draw is below the lower bound, and one
whose word does not round up to one is finite and not above the upper bound either. Where it is
not, no draw is finite. -/
theorem draws_between {lo hi : Scalar} (hlo : lo.isFinite = true) (hhi : hi.isFinite = true)
    (h : lo ≤ hi) :
    (∀ (seed : Seed) (cell : Cell) (k : Nat) (st : Store),
      Supplier.Pulled (.random lo hi seed cell) cell k st →
      Random.Drawn lo hi (seed.draw k) ((Supplier.random lo hi seed cell).get st).1) ∧
    ∀ {t : Stock} {s : Scope} {st : Store} {held : AnySupplier → Prop}, t.Reached →
      t.CompilesAt s st held → s.node.kind = .randomValue lo hi →
      ∃ x : Supplier .number, (s.compile.outcome ⟨st, []⟩).1 = .ok { outputs := [.value x] } ∧
        ∀ st', Store.Touches (fun y => held y ∨ y = ⟨x⟩) (s.compile.outcome ⟨st, []⟩).2.store st' →
          Random.Drawn lo hi (s.seed.draw 0) (x.get st').1 := by
  constructor
  · intro seed cell k st hpulled
    rw [Supplier.get, hpulled.position_random]
    exact Random.drawn hlo hhi h _
  · intro t s st held ht hs hkind
    obtain ⟨x, hout, hget⟩ := hs.randomValue ht hkind
    exact ⟨x, hout, fun st' htouch => hget st' htouch ▸ Random.drawn hlo hhi h _⟩

/-- A node that draws a number between minus two and three. -/
def drawing : Stock := (fresh none 0).edited (.addNode (.randomValue (-2) 3))

theorem reached_drawing : drawing.Reached :=
  Reached.next ⟨none, 0, .refl⟩ (.edit (.addNode (.randomValue (-2) 3)))

/-- A full pass over the drawing as it begins. -/
def drawingStarted : Pass :=
  drawing.workspace.startedPass {} .none true (Seeding.all.pending drawing.workspace.graph)
    (Seeding.all.work drawing.workspace.graph)

/-- What the node is compiled against as the pass begins. -/
def drawingScope (h : 0 < drawing.workspace.graph.nodes.length) : Scope :=
  drawingStarted.scope ⟨drawing.workspace.graph, {}, .none⟩ drawing.workspace.graph.nodes[0]

theorem drawing_compilesAt (h : 0 < drawing.workspace.graph.nodes.length) :
    drawing.CompilesAt (drawingScope h) drawingStarted.store
      fun x => drawing.held x ∨ drawingStarted.compiled.Stores x :=
  .point {} .none true .all .refl (List.getElem_mem h) .refl

/-- The second draw of a range, and what its node yields, stand between the bounds. -/
theorem draws_between_drawing :
    let range : Supplier .number := .random (-2) 3 99 0
    (-2 ≤ (range.get (range.get {}).2).1 ∧ (range.get (range.get {}).2).1 ≤ 3) ∧
    ∃ (h : _) (x : Supplier .number),
      let compiled := (drawingScope h).compile.outcome ⟨drawingStarted.store, []⟩
      compiled.1 = .ok { outputs := [.value x] } ∧
        -2 ≤ (x.get compiled.2.store).1 ∧ (x.get compiled.2.store).1 ≤ 3 := by
  obtain ⟨pulls, nodes⟩ := @draws_between (-2) 3 (by decide +kernel)
    (by decide +kernel) (by decide +kernel)
  have width : ((3 : Scalar) - -2).isFinite = true := by decide +kernel
  have fresh : ({} : Store).position 0 = 0 := by simp [Store.position]
  have second := pulls 99 0 1 _ (.pull (.fresh fresh))
  have hnodes : 0 < drawing.workspace.graph.nodes.length := by decide +kernel
  obtain ⟨x, hout, hx⟩ := nodes reached_drawing (drawing_compilesAt hnodes) (by cbv)
  have first := hx _ .refl
  have seed : (drawingScope hnodes).seed = Seed.ofIndex 0 := by cbv
  rw [seed] at first
  exact ⟨⟨second.low width, (second.high width (by decide +kernel)).2⟩, hnodes, x, hout,
    first.low width, (first.high width (by decide +kernel)).2⟩

/-- The width of bounds may be beyond all numbers, and then no draw between them is finite. -/
theorem draw_lost :
    (-3e38 : Scalar).isFinite = true ∧ (3e38 : Scalar).isFinite = true ∧ (-3e38 : Scalar) ≤ 3e38 ∧
      ((Supplier.random (-3e38) 3e38 0 0).get {}).1.isFinite = false := by
  refine ⟨by decide +kernel, by decide +kernel, by decide +kernel, ?_⟩
  have fresh : ({} : Store).position 0 = 0 := by simp [Store.position]
  rw [Supplier.get, fresh]
  decide +kernel

end Stock
end Terrain
