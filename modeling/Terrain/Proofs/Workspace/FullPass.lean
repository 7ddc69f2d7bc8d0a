import Terrain.Proofs.Compile.Fault
import Terrain.Proofs.Graph.Above
import Terrain.Proofs.Workspace.Incremental

/-! What becomes of every node in a full pass. The nodes behind a cycle stall; of the others some
fail, for want of numbers at the axis of a choice or of a grid where one is needed; and all that
remain are calculated, with a value at every output. -/
namespace Terrain

namespace Graph

/-- The nodes that fail in a full pass: none is behind a cycle, and each is a choice whose axis
carries tokens, or needs a grid and is not fed one. -/
inductive Fails (g : Graph) : NodeId → Prop
  | axis {id : NodeId} {n : Node} {p : SelectParams} (apart : ¬ g.Behind id)
      (node : g.node? id = some n) (kind : n.kind = .select p) (value : p.axis ≠ .value)
      (grid : p.axis ≠ .valueGrid) : Fails g id
  | unfed {id : NodeId} {n : Node} {port : Port} (apart : ¬ g.Behind id)
      (node : g.node? id = some n) (needs : n.kind.needsGrid = true)
      (input : n.inputNamed? "input" = some port) (literal : port.literal = none)
      (free : g.sourceOf? ⟨id, port.id⟩ = none) : Fails g id
  | starved {id : NodeId} {n : Node} {port : Port} {source : PortRef} (apart : ¬ g.Behind id)
      (node : g.node? id = some n) (needs : n.kind.needsGrid = true)
      (input : n.inputNamed? "input" = some port) (literal : port.literal = none)
      (connected : g.sourceOf? ⟨id, port.id⟩ = some source) (fails : Fails g source.node) :
      Fails g id

theorem Fails.apart {g : Graph} {id : NodeId} (h : g.Fails id) : ¬ g.Behind id := by
  cases h <;> assumption

theorem Fails.mem {g : Graph} {id : NodeId} (h : g.Fails id) : id ∈ g.nodeIds := by
  cases h <;> exact mem_nodeIds.2 ⟨_, by assumption⟩

theorem Fails.kind {g : Graph} {id : NodeId} (h : g.Fails id) : ∃ n, g.node? id = some n ∧
    (n.kind.needsGrid = true ∨ ∃ p, n.kind = .select p) := by
  cases h with
  | axis _ node kind _ _ => exact ⟨_, node, .inr ⟨_, kind⟩⟩
  | unfed _ node needs _ _ _ => exact ⟨_, node, .inl needs⟩
  | starved _ node needs _ _ _ _ => exact ⟨_, node, .inl needs⟩

/-- The journal has no part in it. -/
theorem fails_drain {g : Graph} {id : NodeId} : g.drain.2.Fails id ↔ g.Fails id := by
  constructor
  · intro h
    induction h with
    | axis apart node kind value grid => exact .axis apart node kind value grid
    | unfed apart node needs input literal free =>
      exact .unfed apart node needs input literal free
    | starved apart node needs input literal connected _ ih =>
      exact .starved apart node needs input literal connected ih
  · intro h
    induction h with
    | axis apart node kind value grid => exact .axis apart node kind value grid
    | unfed apart node needs input literal free =>
      exact .unfed apart node needs input literal free
    | starved apart node needs input literal connected _ ih =>
      exact .starved apart node needs input literal connected ih

variable {g : Graph} {tile : WorldTile} {σ : NodeId → Option Meaning} {id : NodeId} {n : Node}

/-- A settled node that shows something shows, at each output, a view of the form of the port. -/
theorem SettledAt.viewOf? (h : g.SettledAt tile σ id) (hg : g.WellFormed)
    (hn : g.node? id = some n) (hshows : (σ id).isSome = true) {port : PortId} {output : Port}
    (hout : n.output? port = some output) :
    ∃ v, g.viewOf? σ ⟨id, port⟩ = some v ∧ v.shape = output.type.shape := by
  obtain ⟨m, hm⟩ := Option.isSome_iff_exists.1 hshows
  have hdue : g.due tile σ n = .ok m := Except.toOption_eq_some.1 ((h n hn).symm.trans hm)
  have hshapes : m.outputs.map View.shape = n.outputs.map (·.type.shape) := by
    have houtputs := (hg.fits n (mem_of_node? hn)).outputs
    rw [Node.shapes_of_meaning hdue, ← houtputs, List.map_map]
    rfl
  obtain ⟨place, hplace, hfound⟩ :
      ∃ place, n.outputs.findIdx? (·.id = port) = some place ∧ n.outputs[place]? = some output := by
    rw [Node.output?, List.find?_eq_some_iff_getElem] at hout
    obtain ⟨hid, i, hi, rfl, hbefore⟩ := hout
    refine ⟨i, List.findIdx?_eq_some_iff_getElem.2 ⟨hi, hid, ?_⟩, List.getElem?_eq_getElem hi⟩
    exact fun j hj => by simpa using hbefore j hj
  have hview : (m.outputs[place]?).map View.shape = some output.type.shape := by
    rw [← List.getElem?_map, hshapes, List.getElem?_map, hfound]
    rfl
  obtain ⟨v, hv, hshape⟩ := Option.map_eq_some_iff.1 hview
  refine ⟨v, ?_, hshape⟩
  simp [Graph.viewOf?, hn, hplace, hm, hv]

theorem viewOf?_of_none {port : PortRef} (h : σ port.node = none) : g.viewOf? σ port = none := by
  unfold viewOf?
  cases g.node? port.node with
  | none => rfl
  | some n => cases n.outputs.findIdx? (·.id = port.port) <;> simp [h]

/-- Where the nodes that feed it are settled, a node lacks a grid just where its port holds no
literal and is not connected, or is connected to a node that shows nothing. -/
theorem arrival_grid?_eq_none (hg : g.WellFormed) (hn : g.node? id = some n)
    (hsettled : ∀ u, g.Feeds u id → ∃ tile, g.SettledAt tile σ u) {port : Port}
    (hport : port ∈ n.fixed) (htype : port.type = .valueGrid) :
    ((g.arrival σ n port).orLiteral port).grid? = none ↔ port.literal = none ∧
      ∀ source, g.sourceOf? ⟨id, port.id⟩ = some source → σ source.node = none := by
  have hid := id_of_node? hn
  unfold arrival
  rw [hid]
  cases hs : g.sourceOf? ⟨id, port.id⟩ with
  | none => cases hl : port.literal <;> simp [Arrival.orLiteral, Arrival.grid?]
  | some source =>
    cases hσ : σ source.node with
    | none =>
      have hview : g.viewOf? σ source = none := viewOf?_of_none hσ
      cases hl : port.literal <;> simp [Arrival.orLiteral, Arrival.grid?, hview, hl, hσ]
    | some m =>
      have hinput := (hg.fits n (mem_of_node? hn)).input?_of_fixed hport
      obtain ⟨mid, output, hj⟩ := hg.joins_of_sourceOf? hn hinput hs
      have hfeeds : g.Feeds source.node id := ⟨_, connection_of_sourceOf? hs, rfl, rfl⟩
      obtain ⟨tile, hsettled⟩ := hsettled _ hfeeds
      obtain ⟨v, hv, hshape⟩ := hsettled.viewOf? hg hj.sourceNode (by rw [hσ]; rfl) hj.sourcePort
      rw [hj.type, htype] at hshape
      obtain ⟨grid, hgrid⟩ := View.grid?_of_shape hshape
      simp [hv, Arrival.orLiteral, Arrival.grid?, hgrid, hσ]

/-- A node that is not behind a cycle fails just where it lacks what it needs, if that holds of the
nodes that feed it. -/
theorem fails_iff_lacks (hg : g.WellFormed) (hn : g.node? id = some n) (hapart : ¬ g.Behind id)
    (hsettled : ∀ u, g.Feeds u id → ∃ tile, g.SettledAt tile σ u)
    (hfeeders : ∀ u, g.Feeds u id → (g.Fails u ↔ σ u = none)) :
    g.Fails id ↔ n.Lacks (g.arrival σ n) := by
  have hinput : ∀ {port}, n.kind.needsGrid = true → n.inputNamed? "input" = some port →
      (((g.arrival σ n port).orLiteral port).grid? = none ↔ port.literal = none ∧
        ∀ source, g.sourceOf? ⟨id, port.id⟩ = some source → σ source.node = none) := by
    intro port needs input
    obtain ⟨hport, htype⟩ := (hg.fits n (mem_of_node? hn)).type_gridInput needs input
    exact arrival_grid?_eq_none hg hn hsettled hport htype
  have hsource : ∀ {port source}, g.sourceOf? ⟨id, port⟩ = some source →
      (g.Fails source.node ↔ σ source.node = none) := fun {port source} hs =>
    hfeeders source.node (hg.feeds_iff.2 ⟨port, source, hs, rfl⟩)
  constructor
  · intro h
    cases h with
    | axis _ node kind value grid =>
      obtain rfl := Option.some.inj (hn.symm.trans node)
      exact .inl ⟨_, kind, value, grid⟩
    | unfed _ node needs input literal free =>
      obtain rfl := Option.some.inj (hn.symm.trans node)
      refine .inr ⟨needs, _, input, (hinput needs input).2 ⟨literal, fun source hs => ?_⟩⟩
      rw [free] at hs
      cases hs
    | starved _ node needs input literal connected fails =>
      obtain rfl := Option.some.inj (hn.symm.trans node)
      refine .inr ⟨needs, _, input, (hinput needs input).2 ⟨literal, fun source hs => ?_⟩⟩
      obtain rfl := Option.some.inj (connected.symm.trans hs)
      exact (hsource connected).1 fails
  · rintro (⟨p, kind, value, grid⟩ | ⟨needs, port, input, hgrid⟩)
    · exact .axis hapart hn kind value grid
    · obtain ⟨literal, hshown⟩ := (hinput needs input).1 hgrid
      cases hs : g.sourceOf? ⟨id, port.id⟩ with
      | none => exact .unfed hapart hn needs input literal hs
      | some source =>
        exact .starved hapart hn needs input literal hs ((hsource hs).2 (hshown source hs))

/-- Where all nodes that are not behind a cycle are settled, each on some tile, those of them that
show nothing are the ones that fail. -/
theorem fails_iff (hg : g.WellFormed)
    (hsettled : ∀ id ∈ g.nodeIds, Acc g.Feeds id → ∃ tile, g.SettledAt tile σ id)
    (hid : id ∈ g.nodeIds) (hacc : Acc g.Feeds id) : g.Fails id ↔ σ id = none := by
  induction hacc with
  | intro id hacc ih =>
    obtain ⟨n, hn⟩ := mem_nodeIds.1 hid
    have hacc : Acc g.Feeds id := ⟨id, hacc⟩
    rw [fails_iff_lacks hg hn (acc_iff_not_behind.1 hacc)
      (fun u hu => hsettled u (hg.mem_of_feeds hu).1 (hacc.inv hu))
      fun u hu => ih u hu (hg.mem_of_feeds hu).1]
    obtain ⟨tile, hsettled⟩ := hsettled id hid hacc
    rw [hsettled n hn, Except.toOption_eq_none]
    exact (hg.fits n (mem_of_node? hn)).meaning_eq_error_iff.symm

end Graph

namespace Workspace

variable {w : Workspace} {tile : WorldTile}

/-- What becomes of every node in a full pass. -/
structure Outcome (w : Workspace) (r : PassResult) : Prop where
  stalled : ∀ id, id ∈ r.report.stalled ↔ w.graph.Behind id ∨ w.graph.Fails id
  failures : ∀ id, (∃ fault, .compileFailure id fault ∈ r.report.failures) ↔ w.graph.Fails id
  kinds : ∀ id fault, .compileFailure id fault ∈ r.report.failures →
    ∃ n, w.graph.node? id = some n ∧ (n.kind.needsGrid = true ∨ ∃ p, n.kind = .select p)
  calculated : ∀ id, r.workspace.isCalculated id = true ↔
    id ∈ w.graph.nodeIds ∧ ¬ w.graph.Behind id ∧ ¬ w.graph.Fails id
  values : ∀ id n, w.graph.node? id = some n → r.workspace.isCalculated id = true →
    ∀ port ∈ n.outputs, (r.workspace.value? ⟨id, port.id⟩).isSome = true

/-- The nodes that go on to wait are those behind a cycle within the pass. -/
theorem Ran.waiting_iff_within {pending waiting : List NodeId} {r : PassResult} {id : NodeId}
    (hran : w.Ran tile pending waiting r) :
    id ∈ waiting ↔ id ∈ pending ∧ (w.graph.within pending).Behind id :=
  Graph.mem_iff_behind_within (fun id hid => ⟨(hran.stuck id hid).1, (hran.stuck id hid).2.2⟩)
    hran.grounded

section Full
variable {pending waiting : List NodeId} {r : PassResult} {id : NodeId}
  (hran : w.Ran tile pending waiting r) (hg : w.graph.WellFormed)
  (hpending : ∀ id, id ∈ pending ↔ id ∈ w.graph.nodeIds)
include hran hg hpending

/-- In a full pass the nodes that go on to wait are those behind a cycle. -/
theorem Ran.waiting_iff : id ∈ waiting ↔ w.graph.Behind id := by
  rw [hran.waiting_iff_within, Graph.behind_within_all hg fun id hid => (hpending id).2 hid,
    and_iff_right_iff_imp]
  exact fun hb => (hpending id).2 (hb.mem hg)

theorem Ran.settledAt (hid : id ∈ w.graph.nodeIds) (hacc : Acc w.graph.Feeds id) :
    w.graph.SettledAt tile r.workspace.compiled.shows id := by
  have hw : id ∉ waiting := by
    rw [hran.waiting_iff hg hpending]
    exact Graph.acc_iff_not_behind.1 hacc
  exact hran.settled id ((hpending id).2 hid) hw

theorem Ran.fails_iff (hid : id ∈ w.graph.nodeIds) (hapart : ¬ w.graph.Behind id) :
    w.graph.Fails id ↔ r.workspace.compiled.shows id = none :=
  Graph.fails_iff hg (fun _ hid hacc => ⟨tile, hran.settledAt hg hpending hid hacc⟩) hid
    (Graph.acc_of_not_behind hapart)

theorem Ran.stalled_iff : id ∈ r.report.stalled ↔ w.graph.Behind id ∨ w.graph.Fails id := by
  rw [hran.stalled, hpending]
  constructor
  · rintro ⟨hid, hnone⟩
    by_cases hb : w.graph.Behind id
    · exact .inl hb
    · exact .inr ((hran.fails_iff hg hpending hid hb).2 hnone)
  · rintro (hb | hf)
    · obtain ⟨hid, hnone, _⟩ := hran.stuck id ((hran.waiting_iff hg hpending).2 hb)
      exact ⟨(hpending id).1 hid, hnone⟩
    · exact ⟨hf.mem, (hran.fails_iff hg hpending hf.mem hf.apart).1 hf⟩

theorem Ran.failures_iff :
    (∃ fault, .compileFailure id fault ∈ r.report.failures) ↔ w.graph.Fails id := by
  have hwaiting : id ∈ waiting ↔ w.graph.Behind id := hran.waiting_iff hg hpending
  constructor
  · rintro ⟨fault, he⟩
    obtain ⟨hid, hw, hnone⟩ := hran.failures id fault he
    exact (hran.fails_iff hg hpending ((hpending id).1 hid) (mt hwaiting.2 hw)).2 hnone
  · intro hf
    have hnone := (hran.fails_iff hg hpending hf.mem hf.apart).1 hf
    exact hran.failed id ((hpending id).2 hf.mem) (mt hwaiting.1 hf.apart) hnone

theorem Ran.calculated_iff : r.workspace.isCalculated id = true ↔
    id ∈ w.graph.nodeIds ∧ ¬ w.graph.Behind id ∧ ¬ w.graph.Fails id := by
  rw [isCalculated_eq, hran.graph, Bool.and_eq_true, Graph.has_iff]
  refine and_congr_right fun hid => ?_
  by_cases hb : w.graph.Behind id
  · have hnone := (hran.stuck id ((hran.waiting_iff hg hpending).2 hb)).2.1
    simp [hb, hnone]
  · simp [hb, hran.fails_iff hg hpending hid hb, Option.isSome_iff_ne_none]

/-- A calculated node has a value at every output. -/
theorem Ran.value?_isSome {n : Node} (hn : w.graph.node? id = some n)
    (hc : r.workspace.isCalculated id = true) {port : Port} (hport : port ∈ n.outputs) :
    (r.workspace.value? ⟨id, port.id⟩).isSome = true := by
  obtain ⟨hid, hb, hf⟩ := (hran.calculated_iff hg hpending).1 hc
  obtain ⟨output, hout⟩ : ∃ output, n.output? port.id = some output :=
    Option.isSome_iff_exists.1 (List.find?_isSome.2 ⟨port, hport, by simp⟩)
  have hshows : (r.workspace.compiled.shows id).isSome = true :=
    Option.isSome_iff_ne_none.2 (mt (hran.fails_iff hg hpending hid hb).2 hf)
  have hsettled := hran.settledAt hg hpending hid (Graph.acc_of_not_behind hb)
  obtain ⟨v, hv, _⟩ := hsettled.viewOf? hg hn hshows hout
  rw [Graph.viewOf?_shows, ← hran.graph] at hv
  obtain ⟨value, hvalue, _⟩ := Option.map_eq_some_iff.1 hv
  rw [value?, hvalue]
  rfl

theorem Ran.outcome : w.Outcome r where
  stalled _ := hran.stalled_iff hg hpending
  failures _ := hran.failures_iff hg hpending
  kinds _ fault he := ((hran.failures_iff hg hpending).1 ⟨fault, he⟩).kind
  calculated _ := hran.calculated_iff hg hpending
  values _ _ hn hc _ hport := hran.value?_isSome hg hpending hn hc hport

end Full
end Workspace

/-- The outcome of a full pass, in every history, and on every tile. -/
theorem History.traverseAll_outcome {allowed : WorldTile → Prop} {w : Workspace}
    {held : AnySupplier → Prop} (h : History allowed w held) (tile : WorldTile)
    (interest : Interest) : w.Outcome (w.traverseAll tile interest) := by
  obtain ⟨Γ, hΓ⟩ := h.backed
  obtain ⟨pending, waiting, hpending, hran, _⟩ := Workspace.traverseAll_ran tile interest
    hΓ.backs.holds (fun id _ _ => hΓ.backs.steady id trivial) fun _ _ => trivial
  have hout := hran.outcome h.wellFormed.drain hpending
  have hfails : ∀ id, w.drain.2.graph.Fails id ↔ w.graph.Fails id := fun _ => Graph.fails_drain
  refine ⟨fun id => ?_, fun id => ?_, hout.kinds, fun id => ?_, hout.values⟩
  · rw [hout.stalled, hfails]
    rfl
  · rw [hout.failures, hfails]
  · rw [hout.calculated, hfails]
    rfl

namespace Workspace

/-- A grid that is not fed, one that is fed by it, and two that feed each other. -/
def knot : Workspace :=
  let inverts := (((({ graph := {} } : Workspace).edited (.addNode .gridInvert)).edited
    (.addNode .gridInvert)).edited (.addNode .gridInvert)).edited (.addNode .gridInvert)
  ((inverts.edited (.connectNamed ⟨0⟩ "grid" ⟨1⟩ "input")).edited
    (.connectNamed ⟨2⟩ "grid" ⟨3⟩ "input")).edited (.connectNamed ⟨3⟩ "grid" ⟨2⟩ "input")

theorem history_knot : ∃ held, History (fun _ => True) knot held :=
  have fresh : History (fun _ => True) { graph := {} } _ := .fresh none 0
  ⟨_, .edit (.edit (.edit (.edit (.edit (.edit (.edit fresh _) _) _) _) _) _) _⟩

theorem knot_outcome : ∃ held, History (fun _ => True) knot held ∧
    knot.graph.Behind ⟨2⟩ ∧ knot.graph.Fails ⟨1⟩ ∧
      ∀ tile interest, knot.Outcome (knot.traverseAll tile interest) := by
  obtain ⟨held, h⟩ := history_knot
  have hfeeds : knot.graph.Feeds ⟨2⟩ ⟨3⟩ ∧ knot.graph.Feeds ⟨3⟩ ⟨2⟩ := by
    constructor <;> exact Graph.mem_feeders.1 (by decide +kernel)
  have hfirst : Acc knot.graph.Feeds ⟨0⟩ := by
    have hnone : knot.graph.feeders ⟨0⟩ = [] := by decide +kernel
    refine ⟨_, fun u hu => ?_⟩
    rw [← Graph.mem_feeders, hnone] at hu
    cases hu
  have hsecond : Acc knot.graph.Feeds ⟨1⟩ := by
    have hone : knot.graph.feeders ⟨1⟩ = [⟨0⟩] := by decide +kernel
    refine ⟨_, fun u hu => ?_⟩
    rw [← Graph.mem_feeders, hone] at hu
    obtain rfl := List.mem_singleton.1 hu
    exact hfirst
  refine ⟨held, h, ⟨⟨2⟩, .tail (.single hfeeds.1) hfeeds.2, .refl⟩, ?_,
    fun tile interest => h.traverseAll_outcome tile interest⟩
  exact .starved (Graph.acc_iff_not_behind.1 hsecond) rfl rfl rfl rfl rfl
    (.unfed (Graph.acc_iff_not_behind.1 hfirst) rfl rfl rfl rfl rfl)

end Workspace
end Terrain
