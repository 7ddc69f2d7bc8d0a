import Terrain.Proofs.Compile.Meaning
import Terrain.Proofs.Except
import Terrain.Proofs.Graph.WellFormed

/-! When a node means nothing, and what it shows otherwise. A node with the ports of its layout
means nothing only where the axis of a select node carries tokens, or where no grid arrives at an
input that has to be a grid; and what it shows has the forms of its outputs. -/
namespace Terrain

/-- The form of what is shown. -/
def View.shape : View → Shape
  | number _ => .value
  | token _ => .token
  | valueGrid _ => .valueGrid
  | tokenGrid _ => .tokenGrid

@[simp] theorem View.shape_ofValue {s : Signal} (v : s.Carrier) :
    (ofValue v).shape = match s with | .number => .value | .token => .token := by
  cases s <;> rfl

@[simp] theorem View.shape_ofGrid (s : Signal) (g : Grid s.Carrier) :
    (ofGrid s g).shape = match s with | .number => .valueGrid | .token => .tokenGrid := by
  cases s <;> rfl

theorem View.grid?_of_shape {v : View} (h : v.shape = .valueGrid) :
    ∃ g, v.grid? .number = some g := by
  cases v with
  | valueGrid g => exact ⟨g, rfl⟩
  | _ => cases h

/-- The kinds that cannot do without a grid at their first input. -/
def Kind.needsGrid : Kind → Bool
  | gridRotate _ | gridTransform _ _ | gridLinear _ | gridInvert => true
  | _ => false

theorem Kind.inputs_of_needsGrid {k : Kind} (h : k.needsGrid = true) :
    ∃ names types, k.layout.inputs.map (·.name) = "input" :: names ∧
      k.signature.inputs = .valueGrid :: types := by
  cases k <;> first | exact ⟨_, _, rfl, rfl⟩ | cases h

namespace Node

variable {n : Node} {arrive : Port → Arrival} {seed : Seed} {tile : WorldTile} {m : Meaning}
  {name : String}

theorem folding_shape (n : Node) (arrive : Port → Arrival) (p : OperatorParams) (seed : Seed) :
    (n.folding arrive p seed).shape = p.target.portType.shape := by
  unfold folding
  cases p.target <;> rfl

theorem choosing_shape {p : SelectParams} {v : View}
    (h : n.choosing arrive p.options.signal p = .ok v) : v.shape = p.resultType.shape := by
  obtain ⟨a, _, h⟩ := Except.bind_eq_ok.1 h
  dsimp only at h
  split at h
  all_goals
    next hgrid =>
    cases h
    rw [SelectParams.resultType] at hgrid ⊢
    cases ho : p.options <;> cases ha : p.axis <;> simp_all [PortType.isGrid, PortType.asGrid,
      PortType.signal, PortType.shape]

theorem fieldType_shape (f : TileField) (tile : WorldTile) :
    (View.ofValue (f.value tile)).shape = (Kind.fieldType f).shape := by
  cases f <;> rfl

/-- What a node shows has the forms of its outputs. -/
theorem shapes_of_meaning (h : n.meaning arrive seed tile = .ok m) :
    m.outputs.map View.shape = n.kind.signature.outputs.map PortType.shape := by
  unfold meaning at h
  cases hk : n.kind with simp only [hk] at h
  | manifest _ | tileRequirements _ | constValue _ | randomValue _ _ | constToken _ _ | gridNoise _
  | gridSpanDistance _ =>
    cases h
    rfl
  | worldTile =>
    cases h
    simp only [Kind.signature, Kind.layout, List.map_map]
    exact List.map_congr_left fun f _ => fieldType_shape f tile
  | operator p =>
    cases h
    exact congrArg (· :: []) (folding_shape n arrive p seed)
  | select p =>
    split at h
    · obtain ⟨_, hv, h⟩ := Except.bind_eq_ok.1 h
      cases h
      exact congrArg (· :: []) (choosing_shape hv)
    · obtain ⟨_, hv, h⟩ := Except.bind_eq_ok.1 h
      cases h
      exact congrArg (· :: []) (choosing_shape hv)
    · cases h
    · cases h
  | gridRotate _ =>
    obtain ⟨_, _, h⟩ := Except.bind_eq_ok.1 h
    obtain ⟨_, _, h⟩ := Except.bind_eq_ok.1 h
    cases h
    rfl
  | gridLerp =>
    obtain ⟨_, _, h⟩ := Except.bind_eq_ok.1 h
    obtain ⟨_, _, h⟩ := Except.bind_eq_ok.1 h
    obtain ⟨_, _, h⟩ := Except.bind_eq_ok.1 h
    cases h
    rfl
  | tokenToValue _ | gridFromValue | gridTransform _ _ | gridLinear _ | gridInvert | output _ =>
    obtain ⟨_, _, h⟩ := Except.bind_eq_ok.1 h
    cases h
    rfl

theorem Fits.inputNamed? (h : n.Fits) (hname : name ∈ n.kind.layout.inputs.map (·.name)) :
    ∃ port ∈ n.fixed, n.inputNamed? name = some port := by
  rw [← h.names] at hname
  obtain ⟨port, hport, rfl⟩ := List.mem_map.1 hname
  obtain ⟨found, hfound⟩ : ∃ found, n.fixed.find? (·.name = port.name) = some found :=
    Option.isSome_iff_exists.1 (List.find?_isSome.2 ⟨port, hport, by simp⟩)
  refine ⟨found, List.mem_of_find?_eq_some hfound, ?_⟩
  rw [Node.inputNamed?, h.inputs_eq, List.find?_append, hfound, Option.some_or]

theorem Fits.portAt (h : n.Fits) (hname : name ∈ n.kind.layout.inputs.map (·.name)) :
    ∃ port, n.portAt name = .ok port := by
  obtain ⟨port, _, hport⟩ := h.inputNamed? hname
  exact ⟨port, by rw [Node.portAt, hport]⟩

theorem Fits.arrivalAt (h : n.Fits) (arrive : Port → Arrival) (name : String)
    (hname : name ∈ n.kind.layout.inputs.map (·.name)) : ∃ a, n.arrivalAt arrive name = .ok a := by
  obtain ⟨port, hport⟩ := h.portAt hname
  exact ⟨arrive port, by rw [Node.arrivalAt, hport]; rfl⟩

theorem Fits.gridAt (h : n.Fits) (arrive : Port → Arrival) (name : String)
    (hname : name ∈ n.kind.layout.inputs.map (·.name)) : ∃ g, n.gridAt arrive name = .ok g := by
  obtain ⟨port, hport⟩ := h.portAt hname
  exact ⟨((arrive port).orLiteral port).grid?, by rw [Node.gridAt, arrivalOrLiteral, hport]; rfl⟩

theorem Fits.numberAt (h : n.Fits) (arrive : Port → Arrival) (name : String)
    (hname : name ∈ n.kind.layout.inputs.map (·.name)) : ∃ v, n.numberAt arrive name = .ok v := by
  obtain ⟨port, hport⟩ := h.portAt hname
  exact ⟨(((arrive port).orLiteral port).number?).getD 0,
    by rw [Node.numberAt, numberAt?, arrivalOrLiteral, hport]; rfl⟩

theorem Fits.gridInput (h : n.Fits) (hk : n.kind.needsGrid = true) :
    ∃ port ∈ n.fixed, n.inputNamed? "input" = some port ∧ port.type = .valueGrid := by
  obtain ⟨names, types, hnames, htypes⟩ := Kind.inputs_of_needsGrid hk
  have hn := h.names
  have ht := h.inputs
  rw [hnames, List.map_eq_cons_iff] at hn
  rw [htypes] at ht
  obtain ⟨port, rest, hfixed, hname, _⟩ := hn
  rw [hfixed, List.map_cons, List.cons.injEq] at ht
  refine ⟨port, by simp [hfixed], ?_, ht.1⟩
  simp [Node.inputNamed?, h.inputs_eq, hfixed, hname]

theorem Fits.type_gridInput (h : n.Fits) (hk : n.kind.needsGrid = true) {port : Port}
    (hport : n.inputNamed? "input" = some port) : port ∈ n.fixed ∧ port.type = .valueGrid := by
  obtain ⟨found, hmem, hfound, htype⟩ := h.gridInput hk
  obtain rfl := Option.some.inj (hport.symm.trans hfound)
  exact ⟨hmem, htype⟩

/-- A node means something where it can do without a grid and any axis carries numbers. -/
theorem Fits.meaning_eq_ok (h : n.Fits) (arrive : Port → Arrival) (seed : Seed) (tile : WorldTile)
    (hgrid : n.kind.needsGrid = false)
    (haxis : ∀ p, n.kind = .select p → p.axis = .value ∨ p.axis = .valueGrid) :
    ∃ m, n.meaning arrive seed tile = .ok m := by
  have named : ∀ {k : Kind} {name : String}, n.kind = k →
      name ∈ k.layout.inputs.map (·.name) → name ∈ n.kind.layout.inputs.map (·.name) := by
    intro k name hk hname
    rw [hk]
    exact hname
  unfold meaning
  cases hk : n.kind with
  | tokenToValue table =>
    obtain ⟨a, ha⟩ := h.arrivalAt arrive "token" (named hk (.head _))
    exact ⟨_, by simp only [ha]; rfl⟩
  | gridFromValue =>
    obtain ⟨v, hv⟩ := h.numberAt arrive "value" (named hk (.head _))
    exact ⟨_, by simp only [hv]; rfl⟩
  | gridLerp =>
    obtain ⟨a, ha⟩ := h.gridAt arrive "a" (named hk (.head _))
    obtain ⟨b, hb⟩ := h.gridAt arrive "b" (named hk (.tail _ (.head _)))
    obtain ⟨t, ht⟩ := h.gridAt arrive "t" (named hk (.tail _ (.tail _ (.head _))))
    exact ⟨_, by simp only [ha, hb, ht]; rfl⟩
  | output c =>
    obtain ⟨a, ha⟩ := h.arrivalAt arrive "input" (named hk (.head _))
    exact ⟨_, by simp only [ha]; rfl⟩
  | select p =>
    obtain ⟨a, ha⟩ := h.arrivalAt arrive "axis" (named hk (.head _))
    have hchoosing : ∃ v, n.choosing arrive p.options.signal p = .ok v := by
      simp only [choosing, ha]
      by_cases hr : p.resultType.isGrid = true
      · exact ⟨_, if_pos hr⟩
      · exact ⟨_, if_neg hr⟩
    obtain ⟨v, hv⟩ := hchoosing
    rcases haxis p hk with haxis | haxis <;> exact ⟨.single v, by simp only [haxis, hv]; rfl⟩
  | gridRotate _ | gridTransform _ _ | gridLinear _ | gridInvert =>
    rw [hk] at hgrid
    cases hgrid
  | _ => exact ⟨_, rfl⟩

theorem meaning_of_axis {p : SelectParams} (hk : n.kind = .select p) (hvalue : p.axis ≠ .value)
    (hgrid : p.axis ≠ .valueGrid) : n.meaning arrive seed tile = .error .axisNotNumeric := by
  unfold meaning
  simp only [hk]
  cases ha : p.axis with
  | value => exact absurd ha hvalue
  | valueGrid => exact absurd ha hgrid
  | token _ => rfl
  | tokenGrid _ => rfl

theorem neededAt_eq (arrive : Port → Arrival) {port : Port}
    (hport : n.inputNamed? name = some port) :
    n.neededAt arrive name =
      match ((arrive port).orLiteral port).grid? with
      | some g => .ok g
      | none => .error (.noValue name) := by
  simp only [neededAt, Node.gridAt, arrivalOrLiteral, Node.portAt, hport]
  cases hg : ((arrive port).orLiteral port).grid? with
  | none => simp only [bind, Except.bind, pure, Except.pure, hg]; rfl
  | some g => simp only [bind, Except.bind, pure, Except.pure, hg]

theorem meaning_of_noGrid (hgrid : n.kind.needsGrid = true) {fault : CompileFault}
    (hneeded : n.neededAt arrive "input" = .error fault) :
    n.meaning arrive seed tile = .error fault := by
  unfold meaning
  cases hk : n.kind with
  | gridRotate _ | gridTransform _ _ | gridLinear _ | gridInvert =>
    simp only [hneeded]
    rfl
  | _ =>
    rw [hk] at hgrid
    cases hgrid

theorem Fits.meaning_of_grid (h : n.Fits) (hgrid : n.kind.needsGrid = true) {g : ValueGrid}
    (hneeded : n.neededAt arrive "input" = .ok g) :
    ∃ m, n.meaning arrive seed tile = .ok m := by
  unfold meaning
  cases hk : n.kind with
  | gridRotate _ =>
    obtain ⟨v, hv⟩ := h.numberAt arrive "angle" (by rw [hk]; exact .tail _ (.head _))
    exact ⟨_, by simp only [hneeded, hv]; rfl⟩
  | gridTransform _ _ | gridLinear _ | gridInvert => exact ⟨_, by simp only [hneeded]; rfl⟩
  | _ =>
    rw [hk] at hgrid
    cases hgrid

/-- A node lacks what it needs: the axis of a select node carries tokens, or no grid arrives where
one has to. -/
def Lacks (n : Node) (arrive : Port → Arrival) : Prop :=
  (∃ p, n.kind = .select p ∧ p.axis ≠ .value ∧ p.axis ≠ .valueGrid) ∨
    n.kind.needsGrid = true ∧ ∃ port, n.inputNamed? "input" = some port ∧
      ((arrive port).orLiteral port).grid? = none

/-- A node with the ports of its layout means nothing just where it lacks what it needs. -/
theorem Fits.meaning_eq_error_iff (h : n.Fits) :
    (∃ fault, n.meaning arrive seed tile = .error fault) ↔ n.Lacks arrive := by
  constructor
  · rintro ⟨fault, hfault⟩
    by_contra hlacks
    rw [Lacks, not_or] at hlacks
    obtain ⟨haxis, hinput⟩ := hlacks
    have hok : ∃ m, n.meaning arrive seed tile = .ok m := by
      cases hgrid : n.kind.needsGrid with
      | false =>
        refine h.meaning_eq_ok arrive seed tile hgrid fun p hk => ?_
        by_contra hne
        rw [not_or] at hne
        exact haxis ⟨p, hk, hne⟩
      | true =>
        obtain ⟨port, _, hport, _⟩ := h.gridInput hgrid
        have hneeded := neededAt_eq arrive hport
        cases hg : ((arrive port).orLiteral port).grid? with
        | none => exact absurd ⟨hgrid, port, hport, hg⟩ hinput
        | some g =>
          rw [hg] at hneeded
          exact h.meaning_of_grid hgrid hneeded
    obtain ⟨m, hm⟩ := hok
    rw [hm] at hfault
    cases hfault
  · rintro (⟨p, hk, hvalue, hgrid⟩ | ⟨hgrid, port, hport, hnone⟩)
    · exact ⟨_, meaning_of_axis hk hvalue hgrid⟩
    · refine ⟨.noValue "input", meaning_of_noGrid hgrid ?_⟩
      rw [neededAt_eq arrive hport, hnone]

end Node
end Terrain
