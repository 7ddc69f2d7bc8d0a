import Mathlib.Data.List.Nodup
import Terrain.Proofs.Map.Baked

/-! Baking goes through a map row by row. It asks for each cell once, and what it is given stands
in the raster at the place that the cell is read from, so that no cell outside the map is read as
one of another row. -/
namespace Terrain

namespace HostMap
variable {m : HostMap} {c : MapCell}

/-- The cells of a map are those of its rows, each from its first column on. -/
theorem cells_eq_rows (m : HostMap) : m.cells =
    (List.range m.height.toNat).flatMap fun row =>
      (List.range m.width.toNat).map fun column => ⟨UInt64.ofNat column, UInt64.ofNat row⟩ := by
  rw [cells]
  induction m.height.toNat with
  | zero => rfl
  | succ rows ih =>
    rw [Nat.mul_succ, List.range_add, List.map_append, ih, List.range_succ, List.flatMap_append,
      List.flatMap_singleton, List.map_map]
    congr 1
    refine List.map_congr_left fun column hcolumn => ?_
    have hcolumn := List.mem_range.1 hcolumn
    have pos : 0 < m.width.toNat := Nat.zero_lt_of_lt hcolumn
    rw [Function.comp_apply, Nat.mul_add_mod_self_left, Nat.mod_eq_of_lt hcolumn,
      Nat.mul_add_div pos, Nat.div_eq_of_lt hcolumn, Nat.add_zero]

theorem has_iff_lt : m.has c = true ↔ c.column < m.width ∧ c.row < m.height := by
  simp [has]

theorem mem_cells : c ∈ m.cells ↔ m.has c = true :=
  ⟨has_of_mem_cells, fun h => List.mem_of_getElem? (getElem?_cells h)⟩

theorem length_cells (m : HostMap) : m.cells.length = m.width.toNat * m.height.toNat := by
  simp [cells]

/-- The place of a cell in its row and the number of rows before it make up its place on the map. -/
theorem place_of_cell {place : Nat} (h : place < m.width.toNat * m.height.toNat) :
    (UInt64.ofNat (place / m.width.toNat)).toNat * m.width.toNat +
      (UInt64.ofNat (place % m.width.toNat)).toNat = place := by
  have pos : 0 < m.width.toNat := Nat.pos_of_mul_pos_right (Nat.zero_lt_of_lt h)
  have hrow : place / m.width.toNat < m.height.toNat := Nat.div_lt_of_lt_mul h
  rw [UInt64.toNat_ofNat_of_lt' (Nat.lt_trans (Nat.mod_lt _ pos) m.width.toNat_lt),
    UInt64.toNat_ofNat_of_lt' (Nat.lt_trans hrow m.height.toNat_lt), Nat.div_add_mod']

theorem nodup_cells (m : HostMap) : m.cells.Nodup := by
  refine List.Nodup.map_on (fun i hi j hj h => ?_) List.nodup_range
  rw [← place_of_cell (List.mem_range.1 hi), ← place_of_cell (List.mem_range.1 hj)]
  rw [MapCell.mk.injEq] at h
  rw [h.1, h.2]

theorem toNat_length (fits : m.width.toNat * m.height.toNat < UInt64.size) :
    m.length.toNat = m.width.toNat * m.height.toNat := by
  rw [length, UInt64.toNat_mul, Nat.mod_eq_of_lt fits]

end HostMap

namespace Raster
variable {α : Type} {m : HostMap} {grid : Grid α} {r : Raster α} {c : MapCell}

/-- Baking by any sampler of cells, one that keeps a record of what it is asked for among them. -/
def bakeBy {M : Type → Type} [Monad M] (m : HostMap) (sample : MapCell → M α) : M (Raster α) := do
  let data ← m.cells.mapM sample
  return ⟨m, data.toArray⟩

theorem bake_eq_bakeBy (m : HostMap) (grid : Grid α) :
    bake m grid = bakeBy m fun c => grid.valueAt (m.center c) := rfl

/-- Samples a grid in the middle of a cell, and puts the cell on record before. -/
def recorded (m : HostMap) (grid : Grid α) (c : MapCell) :
    ExceptT SampleError (StateM (List MapCell)) α := do
  modify (· ++ [c])
  liftM (grid.valueAt (m.center c))

theorem run_recorded_bind {β : Type} (c : MapCell)
    (next : α → ExceptT SampleError (StateM (List MapCell)) β) (asked : List MapCell) :
    (recorded m grid c >>= next).run.run asked =
      match grid.valueAt (m.center c) with
      | .error e => (.error e, asked ++ [c])
      | .ok v => (next v).run.run (asked ++ [c]) := by
  simp only [recorded]
  cases grid.valueAt (m.center c) <;> rfl

/-- What is asked for is a row of cells from the first on. It ends with the first that has no
value, and has them all if each has one. -/
theorem run_recorded (m : HostMap) (grid : Grid α) (cells asked : List MapCell) :
    ∃ more, more <+: cells ∧ ((cells.mapM (recorded m grid)).run.run asked) =
        (cells.mapM fun c => grid.valueAt (m.center c), asked ++ more) ∧
      ((∀ c ∈ cells, ∃ v, grid.valueAt (m.center c) = .ok v) → more = cells) := by
  induction cells generalizing asked with
  | nil => exact ⟨[], List.prefix_refl [], by rw [List.append_nil]; rfl, fun _ => rfl⟩
  | cons c rest ih =>
    rw [List.mapM_cons, List.mapM_cons, run_recorded_bind]
    cases hv : grid.valueAt (m.center c) with
    | error e =>
      refine ⟨[c], by simp, rfl, fun h => ?_⟩
      obtain ⟨v, hc⟩ := h c List.mem_cons_self
      cases hv.symm.trans hc
    | ok v =>
      obtain ⟨more, hmore, hrun, hall⟩ := ih (asked ++ [c])
      refine ⟨c :: more, (List.prefix_cons_inj c).2 hmore, ?_, fun h => ?_⟩
      · simp only [ExceptT.run_bind, StateT.run_bind, hrun]
        rw [List.append_assoc]
        cases rest.mapM fun c => grid.valueAt (m.center c) <;> rfl
      · rw [hall fun c hc => h c (List.mem_cons_of_mem _ hc)]

theorem size_of_bake (h : bake m grid = .ok r) :
    r.data.size = m.width.toNat * m.height.toNat := by
  rw [← m.length_cells, (bake_eq_ok.1 h).2.length_eq, Array.length_toList]

theorem get?_eq_none (h : r.map.has c = false) : r.get? c = none := by
  rw [get?, h]
  rfl

theorem get?_mapSamples {β : Type} (f : α → β) (r : Raster α) (c : MapCell) :
    (r.mapSamples f).get? c = (r.get? c).map f := by
  simp only [get?, mapSamples, Array.getElem?_map]
  split <;> rfl

/-- The cells of a map whose cell count fits its type are those of its rows in order, each of them
once, and baking asks a grid for its value in the middle of each, one after the other; it comes to
an end just where the grid has a value in the middle of every cell. The raster then has as many
entries as the map has cells, and reading a cell of the map yields the value of the grid in the
middle of that cell; no other cell can be read. To map the entries of any raster and then to read it
is to read it and then to map what was read. -/
theorem bake_rowMajor {m : HostMap} (fits : m.width.toNat * m.height.toNat < UInt64.size) {α : Type}
    (grid : Grid α) :
    (m.cells = ((List.range m.height.toNat).flatMap fun row =>
        (List.range m.width.toNat).map fun column => ⟨UInt64.ofNat column, UInt64.ofNat row⟩) ∧
      m.cells.Nodup ∧ ∀ c, c ∈ m.cells ↔ c.column < m.width ∧ c.row < m.height) ∧
    (∃ asked, asked <+: m.cells ∧
      (bakeBy m (recorded m grid)).run.run [] = (bake m grid, asked) ∧
      ((∃ r, bake m grid = .ok r) → asked = m.cells)) ∧
    ((∃ r, bake m grid = .ok r) ↔
      ∀ c, c.column < m.width ∧ c.row < m.height → ∃ v, grid.valueAt (m.center c) = .ok v) ∧
    (∀ r, bake m grid = .ok r →
      r.data.size = m.length.toNat ∧ m.length.toNat = m.width.toNat * m.height.toNat ∧
      ∀ c, (c.column < m.width ∧ c.row < m.height →
          ∃ v, grid.valueAt (m.center c) = .ok v ∧ r.get? c = some v) ∧
        (¬ (c.column < m.width ∧ c.row < m.height) → r.get? c = none)) ∧
    ∀ (β : Type) (f : α → β) (r : Raster α) (c : MapCell),
      (r.mapSamples f).get? c = (r.get? c).map f := by
  simp only [← HostMap.has_iff_lt]
  refine ⟨⟨m.cells_eq_rows, m.nodup_cells, fun c => HostMap.mem_cells⟩, ?_, exists_bake, ?_,
    fun β f r c => get?_mapSamples f r c⟩
  · obtain ⟨asked, hasked, hrun, hall⟩ := run_recorded m grid m.cells []
    refine ⟨asked, hasked, ?_, fun h => hall fun c hc => ?_⟩
    · rw [bake_eq_bakeBy, bakeBy, ExceptT.run_bind, StateT.run_bind, hrun]
      simp only [bakeBy]
      cases m.cells.mapM fun c => grid.valueAt (m.center c) <;> rfl
    · exact exists_bake.1 h c (HostMap.has_of_mem_cells hc)
  · intro r h
    have hcount := HostMap.toNat_length fits
    refine ⟨(size_of_bake h).trans hcount.symm, hcount, fun c => ⟨get?_of_bake h, fun hc => ?_⟩⟩
    refine get?_eq_none ?_
    rw [(bake_eq_ok.1 h).1]
    exact Bool.eq_false_iff.2 hc

/-- A map of four columns and two rows, with cells twice as high as wide. -/
def panorama : HostMap := { width := 4, height := 2, fullSize := 4 }

/-- A slope that rises along both axes. -/
def slope : ValueGrid := .ofFunction fun p => p.x + 10 * p.y

theorem panorama_rowMajor : ∃ r, bake panorama slope = .ok r ∧ r.data.size = 8 ∧
    (bakeBy panorama (recorded panorama slope)).run.run [] = (.ok r, panorama.cells) ∧
    r.get? ⟨1, 1⟩ = some 31.5 ∧ r.get? ⟨4, 0⟩ = none ∧
    (r.mapSamples (· + 1)).get? ⟨1, 1⟩ = some 32.5 := by
  obtain ⟨_, ⟨asked, _, hrun, hall⟩, total, entries, mapped⟩ :=
    bake_rowMajor (m := panorama) (by decide) slope
  obtain ⟨r, hr⟩ := total.2 fun c _ => ⟨_, rfl⟩
  obtain ⟨hsize, hcount, hget⟩ := entries r hr
  obtain ⟨v, hv, hat⟩ := (hget ⟨1, 1⟩).1 (by decide)
  have value : v = 31.5 := (Except.ok.inj hv).symm.trans (by decide +kernel)
  rw [value] at hat
  refine ⟨r, hr, by rw [hsize, hcount]; rfl, ?_, hat, (hget ⟨4, 0⟩).2 (by decide), ?_⟩
  · rw [hrun, hr, hall ⟨r, hr⟩]
  · rw [mapped, hat]
    exact congrArg some (by decide +kernel)

end Raster
end Terrain
