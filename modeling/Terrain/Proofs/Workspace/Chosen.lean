import Terrain.Proofs.Workspace.Constant
import Terrain.Proofs.Workspace.Typed

/-! The two forms of a select node. It compiles to a grid, which chooses at every point, or to a
supplier, which chooses when it is pulled; what arrives at its inputs is lifted to whichever form
is asked for. Both choose the same, by what is sampled at the inputs. -/
namespace Terrain

open Relation

/-- What arrives at an input, sampled at a point: the value of a grid there, or the one value that a
supplier has at its start. Where nothing arrives the sample is blank. -/
def Feed.sample (sort : Signal) (st : Store) (p : Point) : Feed → Sampled sort.Carrier
  | connected v =>
    match v.grid? sort, v.supplier? sort with
    | some g, _ => g.valueAt p
    | none, some x => .ok (x.read st).1
    | none, none => .ok sort.blank
  | literal l => .ok (l.read sort)
  | absent | missing => .ok sort.blank

theorem SelectParams.scalar_of_resultType {q : SelectParams} (h : q.resultType.isGrid = false) :
    q.axis.isGrid = false ∧ q.options.isGrid = false := by
  rw [resultType] at h
  split at h
  · rw [PortType.isGrid_asGrid] at h
    cases h
  · next haxis => exact ⟨Bool.eq_false_iff.2 haxis, h⟩

theorem PortValue.grid?_of_shape {v : PortValue} {t : PortType} (ht : t.isGrid = false)
    (hv : v.shape = t.shape) (sort : Signal) : v.grid? sort = none := by
  cases t with
  | valueGrid | tokenGrid _ => cases ht
  | value | token _ =>
    cases v with
    | value _ | token _ => cases sort <;> rfl
    | valueGrid _ | tokenGrid _ => cases hv

theorem PortValue.eq_ofGrid {v : PortValue} {sort : Signal} {g : Grid sort.Carrier}
    (h : v.view = .ofGrid sort g) : v = .ofGrid sort g := by
  cases sort <;> cases v <;> cases h <;> rfl

theorem PortValue.eq_ofSupplier {v : PortValue} {sort : Signal} {w : sort.Carrier}
    (h : v.view = .ofValue w) : ∃ x : Supplier sort, v = .ofSupplier x ∧ x.value = w := by
  cases sort <;> cases v <;> cases h <;> exact ⟨_, rfl, rfl⟩

namespace Feed
variable {f : Feed} {Γ : Ledger} {st : Store} {sort : Signal}

/-- A sample of an input is a sample of the grid that it is lifted to. -/
theorem sample_eq_grid (h : f.Steady Γ) (hst : Γ.Holds st) (p : Point) :
    f.sample sort st p = (f.arrival.grid sort).valueAt p := by
  cases f with
  | connected v =>
    simp only [sample, arrival, Arrival.grid, PortValue.grid?_view, PortValue.value?_view]
    cases v.grid? sort with
    | some g => rfl
    | none =>
      cases hx : v.supplier? sort with
      | none => rfl
      | some x => exact congrArg Except.ok (hst.read_eq (PortValue.Steady.supplier? h hx))
  | absent | literal _ | missing => rfl

/-- Where no grid arrives, all samples of an input are the value of the supplier that it is read
as. -/
theorem sample_eq_value (h : f.Steady Γ) (hst : Γ.Holds st)
    (hscalar : ∀ v, f = .connected v → v.grid? sort = none) (p : Point) :
    f.sample sort st p = .ok (f.arrival.value sort) := by
  rw [sample_eq_grid h hst]
  cases f with
  | connected v =>
    simp only [arrival, Arrival.grid, Arrival.value, PortValue.grid?_view, hscalar v rfl]
    cases v.view.value? sort <;> rfl
  | absent | literal _ | missing => rfl

end Feed

namespace Scope

/-- What arrives at the axis of a select node. -/
def axis (s : Scope) : Feed := (s.node.inputNamed? "axis").elim .missing s.feed

/-- The samples of the options of a select node, each at its place whatever arrives there. -/
def optionsAt (s : Scope) (sort : Signal) (st : Store) (p : Point) : List (Sampled sort.Carrier) :=
  s.node.dynamic.map fun port => (s.feed port).sample sort st p

/-- What a select node chooses at a point: the sample of the option whose place the sample of the
axis selects. -/
def choiceAt (s : Scope) (q : SelectParams) (st : Store) (p : Point) :
    Sampled q.options.signal.Carrier := do
  let options := s.optionsAt q.options.signal st p
  match selectIndex (← s.axis.sample .number st p) q.thresholds options.length with
  | none => return q.options.signal.blank
  | some i => options[i]?.getD (return q.options.signal.blank)

/-- Where the axis selects a place, the choice is the sample of the option there. -/
theorem choiceAt_of_index {s : Scope} {q : SelectParams} {st : Store} {p : Point} {v : Scalar}
    {i : Nat} (haxis : s.axis.sample .number st p = .ok v)
    (hindex : selectIndex v q.thresholds (s.optionsAt q.options.signal st p).length = some i) :
    s.choiceAt q st p =
      (s.optionsAt q.options.signal st p)[i]?.getD (.ok q.options.signal.blank) := by
  rw [choiceAt, haxis]
  change (match selectIndex v q.thresholds _ with | none => _ | some i => _) = _
  rw [hindex]
  rfl

/-- What a node is compiled against, backed by a ledger, with suppliers that are held. -/
structure BackedBy (s : Scope) (Γ : Ledger) (st : Store) (held : AnySupplier → Prop) : Prop where
  steady : s.Steady Γ
  holds : Γ.Holds st
  held : ∀ x : AnySupplier, held x → x.supplier.Steady Γ Γ.length
  fed : s.Fed
  fits : s.node.Fits

section Choice
variable {s : Scope} {Γ : Ledger} {st : Store} {held : AnySupplier → Prop} {q : SelectParams}

theorem BackedBy.axis_steady (h : s.BackedBy Γ st held) : s.axis.Steady Γ := by
  unfold axis
  cases s.node.inputNamed? "axis" with
  | none => trivial
  | some port => exact h.steady port

/-- A node with an axis reads it off its input of that name. -/
theorem BackedBy.arrivalAt_axis (h : s.BackedBy Γ st held) (hq : s.node.kind = .select q) :
    ∃ port, s.node.inputNamed? "axis" = some port ∧ s.axis = s.feed port ∧
      s.node.arrivalAt s.arrive "axis" = .ok s.axis.arrival := by
  have hname : "axis" ∈ s.node.kind.layout.inputs.map (·.name) := by
    rw [hq]
    exact .head _
  obtain ⟨port, _, hport⟩ := h.fits.inputNamed? hname
  have haxis : s.axis = s.feed port := by rw [axis, hport]; rfl
  refine ⟨port, hport, haxis, ?_⟩
  rw [Node.arrivalAt, Node.portAt, hport, haxis]
  rfl

/-- The grid of a select node has at each point what is chosen there. -/
theorem BackedBy.grid_eq_choice (h : s.BackedBy Γ st held) (q : SelectParams) (p : Point) :
    (Grid.select q.options.signal.blank (s.axis.arrival.grid .number) q.thresholds
      ((s.node.dynamic.map s.arrive).map (·.grid q.options.signal))).valueAt p =
      s.choiceAt q st p := by
  rw [choiceAt, Feed.sample_eq_grid h.axis_steady h.holds]
  simp only [Grid.select, Grid.selectThen, optionsAt, List.length_map, List.getElem?_map]
  refine bind_congr fun v => ?_
  cases selectIndex v q.thresholds s.node.dynamic.length with
  | none => rfl
  | some i =>
    cases hi : s.node.dynamic[i]? with
    | none => simp [hi]
    | some port =>
      simp only [hi, Option.map_some, Option.getD_some, bind_pure]
      exact (Feed.sample_eq_grid (h.steady port) h.holds p).symm

/-- No grid arrives at a select node that yields none: neither its axis nor an option is one,
whichever of them an id finds. -/
theorem BackedBy.scalar (h : s.BackedBy Γ st held) (hq : s.node.kind = .select q)
    (hscalar : q.resultType.isGrid = false) (sort : Signal) :
    (∀ v, s.axis = .connected v → v.grid? sort = none) ∧
      ∀ port ∈ s.node.dynamic, ∀ v, s.feed port = .connected v → v.grid? sort = none := by
  obtain ⟨haxis, hoptions⟩ := SelectParams.scalar_of_resultType hscalar
  have hfixed : s.node.fixed.map (·.type) = [q.axis] := by rw [h.fits.inputs, hq]; rfl
  have hnone : ∀ port ∈ s.node.inputs, ∀ v, s.feed port = .connected v → v.grid? sort = none := by
    intro port hport v hv
    obtain ⟨found, hfound⟩ := Node.exists_input? hport
    refine PortValue.grid?_of_shape ?_ (h.fed port found v hfound hv) sort
    rcases Node.mem_inputs.1 (List.mem_of_find?_eq_some hfound) with hmem | hmem
    · have htype : found.type ∈ [q.axis] := hfixed ▸ List.mem_map_of_mem hmem
      rw [List.mem_singleton.1 htype, haxis]
    · rw [h.fits.type_dynamic (d := ⟨_, q.options, _⟩) (by rw [hq]; rfl) hmem, hoptions]
  refine ⟨fun v hv => ?_, fun port hport => hnone port (Node.mem_inputs_of_dynamic hport)⟩
  obtain ⟨port, hport, hfeed, _⟩ := h.arrivalAt_axis hq
  exact hnone port (List.mem_of_find?_eq_some hport) v (hfeed ▸ hv)

/-- The supplier of a select node has the value that is chosen at every point. -/
theorem BackedBy.value_eq_choice (h : s.BackedBy Γ st held) (hq : s.node.kind = .select q)
    (hscalar : q.resultType.isGrid = false) (p : Point) :
    .ok (q.options.signal.chosen (s.axis.arrival.value .number) q.thresholds
      ((s.node.dynamic.map s.arrive).map fun a => some (a.value q.options.signal))) =
      s.choiceAt q st p := by
  rw [choiceAt, Feed.sample_eq_value h.axis_steady h.holds (h.scalar hq hscalar .number).1]
  simp only [Signal.chosen, optionsAt, List.length_map, List.getElem?_map]
  change _ = (match selectIndex _ _ _ with | none => _ | some i => _)
  cases selectIndex (s.axis.arrival.value .number) q.thresholds s.node.dynamic.length with
  | none => rfl
  | some i =>
    cases hi : s.node.dynamic[i]? with
    | none => simp [hi]; rfl
    | some port =>
      have hport := List.mem_of_getElem? hi
      simp only [hi, Option.map_some, Option.join_some, Option.getD_some]
      exact (Feed.sample_eq_value (h.steady port) h.holds
        ((h.scalar hq hscalar _).2 port hport) p).symm

/-- A node that shows a single value compiles to one output, which shows it. -/
theorem BackedBy.compiles_single (h : s.BackedBy Γ st held) {w : View}
    (hmeaning : s.node.meaning s.arrive s.seed s.tile = .ok (.single w)) :
    ∃ (v : PortValue) (Γ' : Ledger), (s.compile.outcome ⟨st, []⟩).1 = .ok { outputs := [v] } ∧
      v.view = w ∧ Γ <+: Γ' ∧ Γ'.Holds (s.compile.outcome ⟨st, []⟩).2.store ∧ v.Steady Γ' := by
  obtain ⟨Γ', hΓ, hst, hagrees⟩ := means_compile h.steady Γ ⟨st, []⟩ List.prefix_rfl h.holds
  rw [hmeaning] at hagrees
  rcases hout : (s.compile.outcome ⟨st, []⟩).1 with x | ⟨outputs, result⟩
  all_goals rw [hout] at hagrees
  · exact hagrees.elim
  · obtain ⟨hsteady, hshows⟩ := hagrees
    injection hshows with houtputs hresult
    obtain ⟨v, rfl, hv⟩ := List.map_eq_singleton_iff.1 houtputs
    obtain rfl := Option.map_eq_none_iff.1 hresult
    exact ⟨v, Γ', rfl, hv, hΓ, hst, hsteady.outputs v (List.mem_singleton_self v)⟩

section Compiles
variable (h : s.BackedBy Γ st held) (hq : s.node.kind = .select q)
include h hq

theorem BackedBy.choosing_eq : s.node.choosing s.arrive q.options.signal q =
    .ok (if q.resultType.isGrid then
      .ofGrid q.options.signal (Grid.select q.options.signal.blank (s.axis.arrival.grid .number)
        q.thresholds ((s.node.dynamic.map s.arrive).map (·.grid q.options.signal)))
      else .ofValue (q.options.signal.chosen (s.axis.arrival.value .number) q.thresholds
        ((s.node.dynamic.map s.arrive).map fun a => some (a.value q.options.signal)))) := by
  obtain ⟨_, _, _, harrival⟩ := h.arrivalAt_axis hq
  rw [Node.choosing, harrival]
  cases q.resultType.isGrid <;> rfl

variable (numeric : q.axis = .value ∨ q.axis = .valueGrid)
include numeric

/-- A select node with an axis of numbers compiles to one output, which shows its choice. -/
theorem BackedBy.compiles_select {w : View}
    (hw : s.node.choosing s.arrive q.options.signal q = .ok w) :
    ∃ (v : PortValue) (Γ' : Ledger), (s.compile.outcome ⟨st, []⟩).1 = .ok { outputs := [v] } ∧
      v.view = w ∧ Γ <+: Γ' ∧ Γ'.Holds (s.compile.outcome ⟨st, []⟩).2.store ∧ v.Steady Γ' := by
  refine h.compiles_single ?_
  rw [Node.meaning, hq]
  rcases numeric with haxis | haxis <;> simp only [haxis, hw] <;> rfl

/-- Where the node yields a grid, that has at each point what is chosen there. -/
theorem BackedBy.compiles_grid (hgrid : q.resultType.isGrid = true) :
    ∃ g, (s.compile.outcome ⟨st, []⟩).1 = .ok { outputs := [.ofGrid q.options.signal g] } ∧
      ∀ p, g.valueAt p = s.choiceAt q st p := by
  obtain ⟨v, _, hout, hv, _⟩ := h.compiles_select hq numeric (h.choosing_eq hq)
  rw [if_pos hgrid] at hv
  exact ⟨_, PortValue.eq_ofGrid hv ▸ hout, h.grid_eq_choice q⟩

/-- Where the node yields a supplier, that has the value that is chosen at every point. -/
theorem BackedBy.compiles_supplier (hscalar : q.resultType.isGrid = false) :
    ∃ (x : Supplier q.options.signal) (Γ' : Ledger),
      (s.compile.outcome ⟨st, []⟩).1 = .ok { outputs := [.ofSupplier x] } ∧
        (∀ p, .ok x.value = s.choiceAt q st p) ∧ Γ <+: Γ' ∧
          Γ'.Holds (s.compile.outcome ⟨st, []⟩).2.store ∧ x.Steady Γ' Γ'.length := by
  obtain ⟨v, Γ', hout, hv, hΓ, hst, hsteady⟩ :=
    h.compiles_select hq numeric (h.choosing_eq hq)
  rw [if_neg (Bool.eq_false_iff.1 hscalar)] at hv
  obtain ⟨x, rfl, hx⟩ := PortValue.eq_ofSupplier hv
  refine ⟨x, Γ', hout, fun p => ?_, hΓ, hst, PortValue.steady_ofSupplier.1 hsteady⟩
  rw [hx]
  exact h.value_eq_choice hq hscalar p

end Compiles

end Choice
end Scope

namespace Stock
variable {t t' : Stock} {s : Scope} {st : Store} {held : AnySupplier → Prop}

/-- A node may be compiled at any point of a pass, with suppliers that were stored by then pulled
and reset in between. -/
inductive CompilesAt (t : Stock) : Scope → Store → (AnySupplier → Prop) → Prop
  | point (tile : WorldTile) (interest : Interest) (full : Bool) (seeding : Seeding) {p : Pass}
      (hp : Pass.Moves ⟨t.workspace.graph, tile, interest⟩
        (t.workspace.startedPass tile interest full (seeding.pending t.workspace.graph)
          (seeding.work t.workspace.graph)) p)
      {n : Node} (hn : n ∈ t.workspace.graph.nodes) {st : Store}
      (ht : Store.Touches (fun x => t.held x ∨ p.compiled.Stores x) p.store st) :
      CompilesAt t (p.scope ⟨t.workspace.graph, tile, interest⟩ n) st
        fun x => t.held x ∨ p.compiled.Stores x

theorem Next.typed (h : t.Next t') (hg : t.workspace.graph.WellFormed)
    (ht : t.workspace.compiled.Typed t.workspace.graph) :
    t'.workspace.compiled.Typed t'.workspace.graph := by
  cases h with
  | edit e => exact ht.steps (Graph.steps_after hg e)
  | pass tile interest request => exact (t.workspace.served tile interest request).typed hg ht
  | drain => exact ⟨ht.suits, ht.below⟩
  | reload => exact ⟨fun n _ r hr => by simp [Workspace.reload] at hr,
      fun id r hr => by simp [Workspace.reload] at hr⟩
  | touch _ => exact ht

theorem Reached.typed (h : t.Reached) : t.workspace.compiled.Typed t.workspace.graph := by
  obtain ⟨name, seed, h⟩ := h
  induction h with
  | refl => exact ⟨fun n _ r hr => by simp [fresh] at hr, fun id r hr => by simp [fresh] at hr⟩
  | tail h hnext ih =>
    obtain ⟨_, hb⟩ := Reached.backed ⟨name, seed, h⟩
    exact hnext.typed hb.wellFormed ih

theorem CompilesAt.backed (ht : t.Reached) (h : t.CompilesAt s st held) :
    ∃ Γ, s.BackedBy Γ st held := by
  cases h with
  | @point tile interest full seeding p hp n hn st htouch =>
    obtain ⟨Γ, hb⟩ := ht.backed
    have hstart := (Workspace.startPass_valid ⟨t.workspace.graph, tile, interest⟩ hb.backs.holds
      (fun id _ _ => hb.backs.steady id trivial) (fun _ _ => trivial)
      (fun id hid => seeding.known hb.wellFormed hid) (seeding.work t.workspace.graph)).emit
        (.passStarted full (seeding.work t.workspace.graph))
    obtain ⟨Γ', hΓ, hbacks⟩ := (hstart.moves hp).backed
    have hheld : ∀ x : AnySupplier, t.held x ∨ p.compiled.Stores x →
        x.supplier.Steady Γ' Γ'.length := by
      rintro x (hx | hx)
      · exact (hb.steady x hx).mono hΓ hΓ.length_le
      · exact Workspace.steady_of_stores hbacks hx
    exact ⟨Γ', hbacks.scope (fun _ _ => trivial) tile n, hbacks.holds.touches hheld htouch, hheld,
      (Workspace.startedPass_typed hb.wellFormed ht.typed tile interest full seeding hp).fed
        hb.wellFormed hn tile, hb.wellFormed.fits n hn⟩

/-- For every threshold list, every number of options, and whatever arrives at the inputs. A select
node that yields a grid compiles, wherever a pass may come to compile it, to one that has at each
point the sample there of the option that the sample of the axis selects, where an option at which
nothing arrives keeps its place and is blank. And a select node over a value with options that are
no grids compiles to a supplier, each pull of which, whatever is pulled and reset before, yields
the value that the grid has at every point which the node compiles to over a grid that is
everywhere the same number. -/
theorem select_forms_agree :
    (∀ {t : Stock} {s : Scope} {st : Store} {held : AnySupplier → Prop}, t.Reached →
      t.CompilesAt s st held → ∀ q : SelectParams, s.node.kind = .select q →
      q.axis = .value ∨ q.axis = .valueGrid → q.resultType.isGrid = true →
      ∃ g, (s.compile.outcome ⟨st, []⟩).1 = .ok { outputs := [.ofGrid q.options.signal g] } ∧
        ∀ p, g.valueAt p = s.choiceAt q st p) ∧
    ∀ {t t' : Stock} {s s' : Scope} {st st' : Store} {held held' : AnySupplier → Prop},
      t.Reached → t'.Reached → t.CompilesAt s st held → t'.CompilesAt s' st' held' →
      ∀ (options : PortType) (thresholds : List Scalar) (number : Scalar),
      s.node.kind = .select ⟨.value, options, thresholds⟩ →
      s'.node.kind = .select ⟨.valueGrid, options, thresholds⟩ → options.isGrid = false →
      (∀ p, s.axis.sample .number st p = .ok number) →
      (∀ p, s'.axis.sample .number st' p = .ok number) →
      (∀ p, s'.optionsAt options.signal st' p = s.optionsAt options.signal st p) →
      ∃ (x : Supplier options.signal) (g : Grid options.signal.Carrier),
        (s.compile.outcome ⟨st, []⟩).1 = .ok { outputs := [.ofSupplier x] } ∧
        (s'.compile.outcome ⟨st', []⟩).1 = .ok { outputs := [.ofGrid options.signal g] } ∧
        ∀ st₁, Store.Touches (fun y => held y ∨ y = ⟨x⟩) (s.compile.outcome ⟨st, []⟩).2.store st₁ →
          ∀ p, g.valueAt p = .ok (x.get st₁).1 := by
  constructor
  · intro t s st held ht hs q hq numeric hgrid
    obtain ⟨Γ, h⟩ := hs.backed ht
    exact h.compiles_grid hq numeric hgrid
  · intro t t' s s' st st' held held' ht ht' hs hs' options thresholds number hq hq' hscalar
      haxis haxis' hoptions
    obtain ⟨Γ, h⟩ := hs.backed ht
    obtain ⟨Γ', h'⟩ := hs'.backed ht'
    obtain ⟨x, Γ₁, hout, hvalue, hΓ, hst, hx⟩ := h.compiles_supplier hq (.inl rfl) hscalar
    obtain ⟨g, hout', hchoice⟩ :=
      h'.compiles_grid hq' (.inr rfl) (PortType.isGrid_asGrid options)
    have hheld : ∀ y : AnySupplier, held y ∨ y = ⟨x⟩ → y.supplier.Steady Γ₁ Γ₁.length := by
      rintro y (hy | rfl)
      · exact (h.held y hy).mono hΓ hΓ.length_le
      · exact hx
    refine ⟨x, g, hout, hout', fun st₁ htouch p => ?_⟩
    rw [(hst.touches hheld htouch).get_eq hx, hvalue p, hchoice p]
    simp only [Scope.choiceAt, haxis, haxis', hoptions]

/-- Two select nodes, one over a number and one over a grid that is everywhere this number. The
first option of both is connected to a number that is not calculated yet. -/
def choosers : Stock :=
  [.addNode (.constValue 5), .addNode (.select ⟨.value, .value, [1]⟩),
    .addNode (.select ⟨.valueGrid, .value, [1]⟩), .connectNamed ⟨0⟩ "value" ⟨1⟩ "option0",
    .connectNamed ⟨0⟩ "value" ⟨2⟩ "option0", .setLiteral ⟨⟨1⟩, ⟨0⟩⟩ (.number 2),
    .setLiteral ⟨⟨2⟩, ⟨0⟩⟩ (.number 2), .setLiteral ⟨⟨1⟩, ⟨3⟩⟩ (.number 7),
    .setLiteral ⟨⟨2⟩, ⟨3⟩⟩ (.number 7)].foldl edited (fresh none 0)

theorem reached_choosers : choosers.Reached := Reached.edits ⟨none, 0, .refl⟩ _

/-- A full pass over the choosers as it begins. -/
def choosersStarted : Pass :=
  choosers.workspace.startedPass {} .none true (Seeding.all.pending choosers.workspace.graph)
    (Seeding.all.work choosers.workspace.graph)

/-- What the node at a place is compiled against as the pass begins. -/
def chooserScope (place : Nat) (h : place < choosers.workspace.graph.nodes.length) : Scope :=
  choosersStarted.scope ⟨choosers.workspace.graph, {}, .none⟩ choosers.workspace.graph.nodes[place]

theorem chooser_compilesAt (place : Nat) (h : place < choosers.workspace.graph.nodes.length) :
    choosers.CompilesAt (chooserScope place h) choosersStarted.store
      fun x => choosers.held x ∨ choosersStarted.compiled.Stores x :=
  .point {} .none true .all .refl (List.getElem_mem h) .refl

/-- Both choosers choose the second option, one as a supplier and the other as a grid. -/
theorem choosers_agree : ∃ hone htwo, ∃ (x : Supplier .number) (g : ValueGrid),
    ((chooserScope 1 hone).compile.outcome ⟨choosersStarted.store, []⟩).1 =
      .ok { outputs := [.value x] } ∧
    ((chooserScope 2 htwo).compile.outcome ⟨choosersStarted.store, []⟩).1 =
      .ok { outputs := [.valueGrid g] } ∧
    ∀ p, g.valueAt p = .ok (7 : Scalar) ∧ g.valueAt p = .ok (x.get
      ((chooserScope 1 hone).compile.outcome ⟨choosersStarted.store, []⟩).2.store).1 := by
  have htwo : 2 < choosers.workspace.graph.nodes.length := by decide +kernel
  have hs := chooser_compilesAt 1 (Nat.lt_of_succ_lt htwo)
  have hs' := chooser_compilesAt 2 htwo
  obtain ⟨grids, agrees⟩ := select_forms_agree
  obtain ⟨g, hg, hchoice⟩ := grids reached_choosers hs' ⟨.valueGrid, .value, [1]⟩ (by cbv)
    (.inr rfl) rfl
  obtain ⟨x, g', hx, hg', heq⟩ := agrees reached_choosers reached_choosers hs hs' .value [1] 2
    (by cbv) (by cbv) rfl (by intro p; cbv) (by intro p; cbv) (by intro p; cbv)
  obtain rfl : g = g' := by
    cases hg.symm.trans hg'
    rfl
  refine ⟨_, htwo, x, g, hx, hg, fun p => ⟨?_, heq _ .refl p⟩⟩
  have haxis (st : Store) : (chooserScope 2 htwo).axis.sample .number st p = .ok (2 : Scalar) := by
    cbv
  have hoptions (st : Store) : (chooserScope 2 htwo).optionsAt .number st p =
      [.ok (0 : Scalar), .ok (7 : Scalar)] := by cbv
  refine (hchoice p).trans ((Scope.choiceAt_of_index (i := 1) (haxis _) ?_).trans ?_)
  · change selectIndex 2 [1]
      ((chooserScope 2 htwo).optionsAt .number choosersStarted.store p).length = some 1
    rw [hoptions]
    decide +kernel
  · change ((chooserScope 2 htwo).optionsAt .number choosersStarted.store p)[1]?.getD _ = _
    rw [hoptions]
    rfl

end Stock
end Terrain
