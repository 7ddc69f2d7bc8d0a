import Mathlib.Order.Bounds.Basic
import Mathlib.Order.MinMax
import Terrain.Grid.Basic
import Terrain.Proofs.Order
import Terrain.Supplier.Basic

/-! Thresholds cut the line of numbers into regions, one for each option. Whatever the thresholds
are, the choice is the first of them that exceeds the value, among those that stand before the last
option; where they ascend, it counts those that the value has reached, and so the regions follow
each other along the line. -/
namespace Terrain

variable {v w : Scalar} {thresholds row : List Scalar} {options i j : Nat}

/-- The places before that of the last option at which a threshold exceeds a value. -/
def exceeding (v : Scalar) (thresholds : List Scalar) (options : Nat) : Set Nat :=
  {i | i < min thresholds.length (options - 1) ∧ ∃ t ∈ thresholds[i]?, v < t}

theorem mem_exceeding : i ∈ exceeding v thresholds options ↔
    ∃ t ∈ (thresholds.take (options - 1))[i]?, v < t := by
  rw [exceeding, Set.mem_ofPred_eq, List.getElem?_take]
  constructor
  · rintro ⟨hi, h⟩
    rwa [if_pos (lt_min_iff.1 hi).2]
  · rintro ⟨t, ht, h⟩
    split at ht
    · next hi => exact ⟨lt_min (List.getElem?_eq_some_iff.1 ht).1 hi, t, ht, h⟩
    · cases ht

@[simp] theorem selectIndex_eq_none : selectIndex v thresholds options = none ↔ options = 0 := by
  cases options <;> simp [selectIndex]

theorem exists_selectIndex (v : Scalar) (thresholds : List Scalar) (hne : options ≠ 0) :
    ∃ i, selectIndex v thresholds options = some i :=
  Option.ne_none_iff_exists'.1 (selectIndex_eq_none.not.2 hne)

/-- The choice is the first threshold that exceeds the value, the last option where none does. -/
theorem selectIndex_eq_some : selectIndex v thresholds options = some i ↔
    options ≠ 0 ∧ (IsLeast (exceeding v thresholds options) i ∨
      exceeding v thresholds options = ∅ ∧ i = options - 1) := by
  cases options with
  | zero => simp [selectIndex]
  | succ last =>
    have first : selectIndex v thresholds (last + 1) =
        some (((thresholds.take last).findIdx? (v < ·)).getD last) := rfl
    rw [first, Option.some_inj]
    cases hk : (thresholds.take last).findIdx? (v < ·) with
    | none =>
      have empty : exceeding v thresholds (last + 1) = ∅ := by
        refine Set.eq_empty_of_forall_notMem fun k hmem => ?_
        obtain ⟨t, ht, hlt⟩ := mem_exceeding.1 hmem
        simpa [hlt] using List.findIdx?_eq_none_iff.1 hk t (List.mem_of_getElem? ht)
      simp [empty, IsLeast, eq_comm]
    | some k =>
      obtain ⟨hlt, hexceeds, hbefore⟩ := List.findIdx?_eq_some_iff_getElem.1 hk
      have least : IsLeast (exceeding v thresholds (last + 1)) k := by
        refine ⟨mem_exceeding.2 ⟨_, List.getElem?_eq_getElem hlt, by simpa using hexceeds⟩, ?_⟩
        intro m hm
        obtain ⟨t, ht, hvt⟩ := mem_exceeding.1 hm
        obtain ⟨_, rfl⟩ := List.getElem?_eq_some_iff.1 ht
        exact not_lt.1 fun hmk => hbefore m hmk (by simpa using hvt)
      have nonempty : exceeding v thresholds (last + 1) ≠ ∅ := Set.Nonempty.ne_empty ⟨k, least.1⟩
      simp only [Option.getD_some, ne_eq, Nat.succ_ne_zero, not_false_eq_true, true_and, nonempty,
        false_and, or_false]
      exact ⟨fun h => h ▸ least, fun h => least.unique h⟩

theorem lt_of_selectIndex (h : selectIndex v thresholds options = some i) : i < options := by
  obtain ⟨hne, hleast | ⟨_, rfl⟩⟩ := selectIndex_eq_some.1 h
  · have := (lt_min_iff.1 hleast.1.1).2
    omega
  · omega

/-- Thresholds that suffice for the options, and ascend as far as they take part. -/
structure Ascending (thresholds : List Scalar) (options : Nat) : Prop where
  enough : options - 1 ≤ thresholds.length
  numbers : ∀ t ∈ thresholds.take (options - 1), t.isNaN = false
  sorted : (thresholds.take (options - 1)).Pairwise (· ≤ ·)

/-- In a row that ascends, the numbers that a value has reached are those before the first that
exceeds it. -/
theorem findIdx_eq_countP (hv : v.isNaN = false) (numbers : ∀ t ∈ row, t.isNaN = false)
    (sorted : row.Pairwise (· ≤ ·)) : row.findIdx (v < ·) = row.countP (· ≤ v) := by
  induction row with
  | nil => rfl
  | cons t row ih =>
    obtain ⟨ht, numbers⟩ := List.forall_mem_cons.1 numbers
    obtain ⟨above, sorted⟩ := List.pairwise_cons.1 sorted
    rw [List.findIdx_cons, List.countP_cons]
    by_cases hlt : v < t
    · have none_reached : row.countP (· ≤ v) = 0 := List.countP_eq_zero.2 fun u hu hle =>
        Scalar.not_lt_of_le (by simpa using hle) (Scalar.lt_of_lt_of_le hlt (above u hu))
      have not_le : ¬ t ≤ v := fun hle => Scalar.not_lt_of_le hle hlt
      simp [hlt, not_le, none_reached]
    · have reached : t ≤ v := Scalar.le_of_not_lt hv ht hlt
      simp [hlt, reached, ih numbers sorted]

theorem Ascending.selectIndex_eq (h : Ascending thresholds options) (hv : v.isNaN = false)
    (hne : options ≠ 0) : selectIndex v thresholds options =
      some ((thresholds.take (options - 1)).countP (· ≤ v)) := by
  obtain ⟨last, rfl⟩ := Nat.exists_eq_succ_of_ne_zero hne
  have length : (thresholds.take last).length = last :=
    List.length_take_of_le h.enough
  rw [← findIdx_eq_countP hv h.numbers h.sorted, List.findIdx_eq_getD_findIdx?]
  simp only [selectIndex, Nat.succ_eq_add_one, Nat.add_sub_cancel, length]

/-- The region of an option: from the threshold before it on, to short of its own. -/
structure InRegion (v : Scalar) (thresholds : List Scalar) (options i : Nat) : Prop where
  place : i < options
  reached : ∀ j t, j + 1 = i → thresholds[j]? = some t → t ≤ v
  short : ∀ t, i < options - 1 → thresholds[i]? = some t → v < t

theorem getElem?_take_of_lt {t : Scalar} (hi : i < options - 1) (ht : thresholds[i]? = some t) :
    (thresholds.take (options - 1))[i]? = some t := by
  rw [List.getElem?_take, if_pos hi, ht]

theorem Ascending.not_isNaN (h : Ascending thresholds options) {t : Scalar} (hi : i < options - 1)
    (ht : thresholds[i]? = some t) : t.isNaN = false :=
  h.numbers t (List.mem_of_getElem? (getElem?_take_of_lt hi ht))

theorem Ascending.le_of_lt (h : Ascending thresholds options) {t u : Scalar} (hij : i < j)
    (hj : j < options - 1) (ht : thresholds[i]? = some t) (hu : thresholds[j]? = some u) :
    t ≤ u := by
  obtain ⟨hi', rfl⟩ := List.getElem?_eq_some_iff.1 (getElem?_take_of_lt (hij.trans hj) ht)
  obtain ⟨hj', rfl⟩ := List.getElem?_eq_some_iff.1 (getElem?_take_of_lt hj hu)
  exact List.pairwise_iff_getElem.1 h.sorted i j hi' hj' hij

/-- Where thresholds ascend, a value lies in the region of the option that it is given. -/
theorem Ascending.inRegion (h : Ascending thresholds options) (hv : v.isNaN = false)
    (hi : selectIndex v thresholds options = some i) : InRegion v thresholds options i := by
  have place := lt_of_selectIndex hi
  have reached : ∀ j t, j < options - 1 → thresholds[j]? = some t →
      j ∉ exceeding v thresholds options → t ≤ v := by
    intro j t hj ht hnot
    refine Scalar.le_of_not_lt hv (h.not_isNaN hj ht) fun hlt => hnot ?_
    exact mem_exceeding.2 ⟨t, getElem?_take_of_lt hj ht, hlt⟩
  obtain ⟨_, least | ⟨empty, rfl⟩⟩ := selectIndex_eq_some.1 hi
  · refine ⟨place, fun j t hj ht => reached j t (by omega) ht fun hmem => ?_, fun t hi ht => ?_⟩
    · have := least.2 hmem
      omega
    · obtain ⟨u, hu, hlt⟩ := mem_exceeding.1 least.1
      rw [getElem?_take_of_lt hi ht] at hu
      exact Option.some.inj hu ▸ hlt
  · refine ⟨place, fun j t hj ht => reached j t (by omega) ht (empty ▸ Set.notMem_empty j), ?_⟩
    exact fun t hi => absurd hi (Nat.lt_irrefl _)

/-- The regions of two options have no value in common. -/
theorem InRegion.not_lt (hi : InRegion v thresholds options i) (h : Ascending thresholds options)
    (hj : InRegion v thresholds options j) : ¬ i < j := by
  intro hij
  have hlast : j - 1 < options - 1 := by
    have := hj.place
    omega
  obtain ⟨u, hu⟩ : ∃ u, thresholds[j - 1]? = some u :=
    ⟨_, List.getElem?_eq_getElem (hlast.trans_le h.enough)⟩
  have reached : u ≤ v := hj.reached (j - 1) u (by omega) hu
  rcases Nat.eq_or_lt_of_le (Nat.le_sub_one_of_lt hij) with rfl | hlt
  · exact Scalar.not_lt_of_le reached (hi.short u hlast hu)
  · obtain ⟨t, ht⟩ : ∃ t, thresholds[i]? = some t :=
      ⟨_, List.getElem?_eq_getElem ((hlt.trans hlast).trans_le h.enough)⟩
    exact Scalar.not_lt_of_le (Scalar.le_trans (h.le_of_lt hlt hlast ht hu) reached)
      (hi.short t (hlt.trans hlast) ht)

/-- Where thresholds ascend, a value is given the option whose region it lies in. -/
theorem Ascending.selectIndex_iff (h : Ascending thresholds options) (hv : v.isNaN = false) :
    selectIndex v thresholds options = some i ↔ InRegion v thresholds options i := by
  refine ⟨h.inRegion hv, fun hi => ?_⟩
  obtain ⟨k, hk⟩ := exists_selectIndex v thresholds (Nat.ne_zero_of_lt hi.place)
  have hregion := h.inRegion hv hk
  rw [hk, Nat.le_antisymm (not_lt.1 (hi.not_lt h hregion)) (not_lt.1 (hregion.not_lt h hi))]

/-- A greater value is given no earlier option. -/
theorem Ascending.selectIndex_mono (h : Ascending thresholds options) (hv : v.isNaN = false)
    (hvw : v ≤ w) (hi : selectIndex v thresholds options = some i)
    (hj : selectIndex w thresholds options = some j) : i ≤ j := by
  have hne : options ≠ 0 := Nat.ne_zero_of_lt (lt_of_selectIndex hi)
  have hw : w.isNaN = false := Bool.eq_false_iff.2 fun hw => Scalar.not_le_of_isNaN hw hvw
  obtain rfl := Option.some.inj ((h.selectIndex_eq hv hne).symm.trans hi)
  obtain rfl := Option.some.inj ((h.selectIndex_eq hw hne).symm.trans hj)
  refine List.countP_mono_left fun t _ ht => ?_
  exact decide_eq_true (Scalar.le_trans (of_decide_eq_true ht) hvw)

/-- Where there are options, the grid form of a choice has one to sample at every point. -/
theorem Grid.valueAt_selectThen {α : Type} (post : α → Nat → α) (blank : α) {axis : ValueGrid}
    (thresholds : List Scalar) {options : List (Grid α)} (hne : options ≠ []) {p : Point}
    (hv : axis.valueAt p = .ok v) :
    ∃ (i : Nat) (hi : i < options.length), selectIndex v thresholds options.length = some i ∧
      (selectThen post blank axis thresholds options).valueAt p =
        (options[i].valueAt p).map (post · i) := by
  obtain ⟨i, hi⟩ := exists_selectIndex v thresholds (List.length_eq_zero_iff.not.2 hne)
  refine ⟨i, lt_of_selectIndex hi, hi, ?_⟩
  simp only [selectThen, hv, bind, Except.bind, hi,
    List.getElem?_eq_getElem (lt_of_selectIndex hi)]
  rfl

theorem Slots.pick_eq {s : Signal} (slots : Slots s) (i : Nat) (st : Store) :
    slots.pick i st = (slots.toList[i]?.join).elim (s.blank, st) (·.get st) := by
  match slots, i with
  | .nil, _ => simp [pick, toList]
  | .hole _, 0 => simp [pick, toList]
  | .cons _ _, 0 => simp [pick, toList]
  | .hole rest, i + 1 => simpa [pick, toList] using pick_eq rest i st
  | .cons _ rest, i + 1 => simpa [pick, toList] using pick_eq rest i st

/-- Where there are options, the supplier form of a choice has one to pull. -/
theorem Supplier.get_selected_ofList {s : Signal} (axis : Supplier .number)
    (thresholds : List Scalar) {options : List (Supplier s)} (hne : options ≠ []) (st : Store) :
    ∃ (i : Nat) (hi : i < options.length),
      selectIndex (axis.get st).1 thresholds options.length = some i ∧
      (selected axis thresholds (.ofList (options.map some))).get st =
        options[i].get (axis.get st).2 := by
  obtain ⟨i, hi⟩ :=
    exists_selectIndex (axis.get st).1 thresholds (List.length_eq_zero_iff.not.2 hne)
  refine ⟨i, lt_of_selectIndex hi, hi, ?_⟩
  rw [get]
  simp only [Slots.length_ofList, List.length_map, hi, Slots.pick_eq, Slots.toList_ofList,
    List.getElem?_map, List.getElem?_eq_getElem (lt_of_selectIndex hi), Option.map_some,
    Option.join_some, Option.elim_some]

/-- For every value, row of thresholds and number of options: there is no choice exactly where there
are no options, and else it is the first threshold before the last option that exceeds the value,
or the last option where none does. So it is the index of an option, which both forms of a select
go on to sample or pull, and no threshold behind those matters. Where the thresholds before the last
option are numbers, ascend and are enough, the choice for a number counts those that it has reached;
it lies in the region of its option and of no other, and a greater number is given no earlier
option. -/
theorem thresholds_partition (thresholds : List Scalar) :
    (∀ v options i, (selectIndex v thresholds options = none ↔ options = 0) ∧
      (selectIndex v thresholds options = some i ↔
        options ≠ 0 ∧ (IsLeast (exceeding v thresholds options) i ∨
          exceeding v thresholds options = ∅ ∧ i = options - 1)) ∧
      (selectIndex v thresholds options = some i → i < options)) ∧
    (∀ v options more, more.take (options - 1) = thresholds.take (options - 1) →
      selectIndex v more options = selectIndex v thresholds options) ∧
    (∀ options, Ascending thresholds options → options ≠ 0 → ∀ v : Scalar, v.isNaN = false →
      selectIndex v thresholds options =
        some ((thresholds.take (options - 1)).countP (· ≤ v)) ∧
      (∀ i, selectIndex v thresholds options = some i ↔ InRegion v thresholds options i) ∧
      ∀ w i j, v ≤ w → selectIndex v thresholds options = some i →
        selectIndex w thresholds options = some j → i ≤ j) ∧
    (∀ (α : Type) (post : α → Nat → α) (blank : α) (axis : ValueGrid) (options : List (Grid α))
      (p : Point) (v : Scalar), options ≠ [] → axis.valueAt p = .ok v →
      ∃ (i : Nat) (hi : i < options.length), selectIndex v thresholds options.length = some i ∧
        (Grid.selectThen post blank axis thresholds options).valueAt p =
          (options[i].valueAt p).map (post · i)) ∧
    ∀ (s : Signal) (axis : Supplier .number) (options : List (Supplier s)) (st : Store),
      options ≠ [] → ∃ (i : Nat) (hi : i < options.length),
        selectIndex (axis.get st).1 thresholds options.length = some i ∧
        (Supplier.selected axis thresholds (.ofList (options.map some))).get st =
          options[i].get (axis.get st).2 := by
  refine ⟨fun v options i => ⟨selectIndex_eq_none, selectIndex_eq_some, lt_of_selectIndex⟩, ?_, ?_,
    fun _ post blank _ _ _ _ hne hv => Grid.valueAt_selectThen post blank thresholds hne hv,
    fun _ axis _ st hne => Supplier.get_selected_ofList axis thresholds hne st⟩
  · intro v options more hmore
    cases options with
    | zero => rfl
    | succ last =>
      rw [Nat.add_sub_cancel] at hmore
      simp only [selectIndex, hmore]
  · intro options h hne v hv
    exact ⟨h.selectIndex_eq hv hne, fun i => h.selectIndex_iff hv, fun w i j hvw =>
      h.selectIndex_mono hv hvw⟩

/-- Heights at which terraces end, two of them equal; what stands behind them is not a number. -/
def terraces : List Scalar := [0, 10, 10, 0 / 0]

theorem terraces_ascending : Ascending terraces 4 where
  enough := by decide
  numbers := by decide +kernel
  sorted := by decide +kernel

/-- A height of five lies on the second of four terraces, whatever stands behind their ends, and one
of ten, which passes an empty terrace, on the last: there a supplier pulls it, and there a grid
samples it. -/
theorem terraces_partition :
    selectIndex 5 [0, 10, 10] 4 = selectIndex 5 terraces 4 ∧
    InRegion 5 terraces 4 1 ∧ InRegion 10 terraces 4 3 ∧
    (terraces.take 3).countP (· ≤ 5) ≤ (terraces.take 3).countP (· ≤ 10) ∧
    (Grid.select 0 (.const 5) terraces [.const 1, .const 2, .const 3, .const 4]).valueAt
      Point.origin = .ok (2 : Scalar) ∧
    (Supplier.selected (.const (10 : Scalar)) terraces
      (.ofList ([1, 2, 3, 4].map fun v => some (@Supplier.const .number v)))).get {} =
        ((4 : Scalar), {}) := by
  obtain ⟨choice, behind, sorted, sampled, pulled⟩ := thresholds_partition terraces
  have five : selectIndex 5 terraces 4 = some 1 := by decide +kernel
  have ten : selectIndex 10 terraces 4 = some 3 := by decide +kernel
  obtain ⟨hfive, region, mono⟩ := sorted 4 terraces_ascending (by decide) 5 (by decide +kernel)
  obtain ⟨hten, region', _⟩ := sorted 4 terraces_ascending (by decide) 10 (by decide +kernel)
  refine ⟨behind 5 4 [0, 10, 10] (by decide +kernel), (region 1).1 five, (region' 3).1 ten,
    mono 10 _ _ (by decide +kernel) hfive hten, ?_, ?_⟩
  · obtain ⟨i, hi, hindex, h⟩ := sampled Scalar (fun v _ => v) 0 (.const 5)
      [.const 1, .const 2, .const 3, .const 4] Point.origin 5 (by decide) rfl
    obtain rfl := Option.some.inj (five.symm.trans hindex)
    exact h
  · obtain ⟨i, hi, hindex, h⟩ := pulled .number (.const (10 : Scalar))
      [.const (1 : Scalar), .const (2 : Scalar), .const (3 : Scalar), .const (4 : Scalar)] {}
      (by simp)
    rw [Supplier.get] at hindex
    obtain rfl := Option.some.inj (ten.symm.trans hindex)
    exact h.trans (by simp [Supplier.get])

end Terrain
