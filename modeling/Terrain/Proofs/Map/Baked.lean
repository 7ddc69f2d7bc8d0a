import Mathlib.Data.List.Forall2
import Terrain.Proofs.Except
import Terrain.Raster

/-! What a baked raster holds: for each cell of the map, at the place that the cell is read from,
the value of the grid in the middle of the cell. -/
namespace Terrain

/-- A traversal succeeds where it does so at every element. -/
theorem Except.mapM_eq_ok {ε α β : Type} {f : α → Except ε β} {xs : List α} {ys : List β} :
    xs.mapM f = .ok ys ↔ List.Forall₂ (fun x y => f x = .ok y) xs ys := by
  induction xs generalizing ys with
  | nil => cases ys <;> simp [pure, Except.pure]
  | cons x rest ih =>
    rw [List.mapM_cons, bind_eq_ok, List.forall₂_cons_left_iff]
    constructor
    · rintro ⟨y, hy, h⟩
      obtain ⟨ys', hys', h⟩ := bind_eq_ok.1 h
      cases h
      exact ⟨y, ys', hy, ih.1 hys', rfl⟩
    · rintro ⟨y, ys', hy, hys', rfl⟩
      exact ⟨y, hy, bind_eq_ok.2 ⟨ys', ih.2 hys', rfl⟩⟩

theorem Except.exists_mapM {ε α β : Type} {f : α → Except ε β} {xs : List α}
    (h : ∀ x ∈ xs, ∃ y, f x = .ok y) : ∃ ys, xs.mapM f = .ok ys := by
  simp only [mapM_eq_ok]
  induction xs with
  | nil => exact ⟨[], .nil⟩
  | cons x rest ih =>
    obtain ⟨y, hy⟩ := h x List.mem_cons_self
    obtain ⟨ys, hys⟩ := ih fun x hx => h x (List.mem_cons_of_mem _ hx)
    exact ⟨y :: ys, .cons hy hys⟩

namespace HostMap
variable {m : HostMap} {c : MapCell}

theorem has_iff : m.has c = true ↔
    c.column.toNat < m.width.toNat ∧ c.row.toNat < m.height.toNat := by
  simp [has, UInt64.lt_iff_toNat_lt]

theorem place_lt (h : m.has c = true) :
    c.row.toNat * m.width.toNat + c.column.toNat < m.width.toNat * m.height.toNat := by
  obtain ⟨hcolumn, hrow⟩ := has_iff.1 h
  calc c.row.toNat * m.width.toNat + c.column.toNat
      < c.row.toNat * m.width.toNat + m.width.toNat := Nat.add_lt_add_left hcolumn _
    _ = (c.row.toNat + 1) * m.width.toNat := (Nat.succ_mul ..).symm
    _ ≤ m.height.toNat * m.width.toNat := Nat.mul_le_mul_right _ hrow
    _ = m.width.toNat * m.height.toNat := Nat.mul_comm ..

/-- A cell of a map stands where it is read from. -/
theorem getElem?_cells (h : m.has c = true) :
    m.cells[c.row.toNat * m.width.toNat + c.column.toNat]? = some c := by
  obtain ⟨hcolumn, hrow⟩ := has_iff.1 h
  have pos : 0 < m.width.toNat := Nat.zero_lt_of_lt hcolumn
  rw [cells, List.getElem?_map, List.getElem?_range (place_lt h), Option.map_some,
    Nat.mul_add_mod_self_right, Nat.mod_eq_of_lt hcolumn, Nat.mul_comm,
    Nat.mul_add_div pos, Nat.div_eq_of_lt hcolumn, Nat.add_zero, UInt64.ofNat_toNat,
    UInt64.ofNat_toNat]

theorem has_of_mem_cells (h : c ∈ m.cells) : m.has c = true := by
  obtain ⟨place, hplace, rfl⟩ := List.mem_map.1 h
  have hplace := List.mem_range.1 hplace
  have pos : 0 < m.width.toNat := Nat.pos_of_mul_pos_right (Nat.zero_lt_of_lt hplace)
  have hcolumn : place % m.width.toNat < m.width.toNat := Nat.mod_lt _ pos
  have hrow : place / m.width.toNat < m.height.toNat := Nat.div_lt_of_lt_mul hplace
  rw [has_iff, UInt64.toNat_ofNat_of_lt' (Nat.lt_trans hcolumn m.width.toNat_lt),
    UInt64.toNat_ofNat_of_lt' (Nat.lt_trans hrow m.height.toNat_lt)]
  exact ⟨hcolumn, hrow⟩

end HostMap

namespace Raster
variable {α : Type} {m : HostMap} {grid : Grid α} {r : Raster α} {c : MapCell}

theorem bake_eq_ok : bake m grid = .ok r ↔ r.map = m ∧
    List.Forall₂ (fun c v => grid.valueAt (m.center c) = .ok v) m.cells r.data.toList := by
  rw [bake, Except.bind_eq_ok]
  constructor
  · rintro ⟨data, hdata, h⟩
    cases h
    exact ⟨rfl, Except.mapM_eq_ok.1 hdata⟩
  · rintro ⟨rfl, h⟩
    exact ⟨r.data.toList, Except.mapM_eq_ok.2 h, rfl⟩

/-- A baked raster has in each cell of the map the value of the grid in the middle of it. -/
theorem get?_of_bake (h : bake m grid = .ok r) (hc : m.has c = true) :
    ∃ v, grid.valueAt (m.center c) = .ok v ∧ r.get? c = some v := by
  obtain ⟨rfl, hdata⟩ := bake_eq_ok.1 h
  obtain ⟨hplace, hcell⟩ := List.getElem?_eq_some_iff.1 (HostMap.getElem?_cells hc)
  have hvalue := hdata.get hplace (hdata.length_eq ▸ hplace)
  rw [List.get_eq_getElem, hcell, List.get_eq_getElem, Array.getElem_toList] at hvalue
  refine ⟨_, hvalue, ?_⟩
  rw [get?, if_pos hc, Array.getElem?_eq_getElem]

/-- A grid can be baked where it has a value in the middle of every cell, and nowhere else. -/
theorem exists_bake : (∃ r, bake m grid = .ok r) ↔
    ∀ c, m.has c = true → ∃ v, grid.valueAt (m.center c) = .ok v := by
  constructor
  · rintro ⟨r, h⟩ c hc
    obtain ⟨v, hv, _⟩ := get?_of_bake h hc
    exact ⟨v, hv⟩
  · intro h
    obtain ⟨data, hdata⟩ := Except.exists_mapM fun c hc => h c (HostMap.has_of_mem_cells hc)
    exact ⟨_, Except.bind_eq_ok.2 ⟨data, hdata, rfl⟩⟩

end Raster
end Terrain
