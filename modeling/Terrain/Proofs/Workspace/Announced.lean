import Terrain.Proofs.Pass.Heard
import Terrain.Proofs.Workspace.Reported

/-! The events of a pass. They say where it starts, tell of each node that is calculated or fails,
name the nodes that are left where it has stalled, and end with its report. -/
namespace Terrain

open Pass

namespace Event

/-- The node that an event tells of. -/
def node? : Event → Option NodeId
  | nodeCalculated id _ => some id
  | compileFailed id _ => some id
  | _ => none

/-- The node that an event tells to be calculated. -/
def calculated? : Event → Option NodeId
  | nodeCalculated id _ => some id
  | _ => none

/-- The failure of a node that an event tells of. -/
def failure? : Event → Option GraphError
  | compileFailed _ e => some e
  | _ => none

/-- What is told of a node of a graph in the course of a pass: that it was calculated, by the name
of its kind, or how it failed. -/
inductive TellsOf (g : Graph) (id : NodeId) : Event → Prop
  | calculated {n : Node} (node : g.node? id = some n) :
      TellsOf g id (.nodeCalculated id n.kind.name)
  | failed (fault : CompileFault) : TellsOf g id (.compileFailed id (.compileFailure id fault))

/-- What is told of the nodes that a pass leaves without values, if there are any. -/
def leftOpen (stalled : List NodeId) : List Event :=
  if stalled = [] then [] else [.stalled stalled]

theorem TellsOf.node?_eq {g : Graph} {id : NodeId} {e : Event} (h : e.TellsOf g id) :
    e.node? = some id := by
  cases h <;> rfl

end Event

/-- Whether an error is the failure of a node. -/
def GraphError.isCompileFailure : GraphError → Bool
  | compileFailure .. => true
  | _ => false

namespace Pass
variable {cx : PassSetting} {p q : Pass} {n : Node} {told : List Event}

/-- What has been told of nodes at a point of a pass. -/
structure Tells (cx : PassSetting) (told : List Event) (p : Pass) : Prop where
  node : ∀ e ∈ told, ∃ id, e.TellsOf cx.graph id
  settled : ∀ id ∈ told.filterMap Event.node?, id ∉ p.waiting
  once : (told.filterMap Event.node?).Nodup
  calculated : told.filterMap Event.calculated? = p.calculated
  failures : told.filterMap Event.failure? = p.failures

theorem Tells.congr (h : Tells cx told p) (hwaiting : q.waiting = p.waiting)
    (hcalculated : q.calculated = p.calculated) (hfailures : q.failures = p.failures) :
    Tells cx told q :=
  ⟨h.node, hwaiting ▸ h.settled, h.once, hcalculated ▸ h.calculated, hfailures ▸ h.failures⟩

/-- Of a node that waits nothing was told, so it can be told of as it is settled. -/
theorem Tells.add (h : Tells cx told p) {id : NodeId} (hw : id ∈ p.waiting) {e : Event}
    (he : e.TellsOf cx.graph id) (hwaiting : q.waiting = p.waiting.filter (· ≠ id))
    (hcalculated : q.calculated = p.calculated ++ e.calculated?.toList)
    (hfailures : q.failures = p.failures ++ e.failure?.toList) : Tells cx (told ++ [e]) q := by
  have hnodes : (told ++ [e]).filterMap Event.node? = told.filterMap Event.node? ++ [id] := by
    rw [List.filterMap_append, List.filterMap_cons_some he.node?_eq, List.filterMap_nil]
  refine ⟨fun e' he' => ?_, fun id' hid => ?_, ?_, ?_, ?_⟩
  · rcases List.mem_append.1 he' with he' | he'
    · exact h.node e' he'
    · exact ⟨id, List.mem_singleton.1 he' ▸ he⟩
  · rw [hwaiting, List.mem_filter, decide_eq_true_eq]
    rw [hnodes, List.mem_append, List.mem_singleton] at hid
    exact fun hq => hid.elim (fun hid => h.settled id' hid hq.1) hq.2
  · rw [hnodes]
    exact List.nodup_append.2 ⟨h.once, List.nodup_singleton _, fun a ha b hb hab =>
      h.settled a ha (hab ▸ List.mem_singleton.1 hb ▸ hw)⟩
  · rw [List.filterMap_append, h.calculated, hcalculated]
    cases e <;> rfl
  · rw [List.filterMap_append, h.failures, hfailures]
    cases e <;> rfl

/-- An attempt at a pending node tells of it, unless the node is blocked or fails once more. -/
theorem Tells.attempted (h : Tells cx told p) (hall : cx.interest = .all) (ho : Orderly cx p)
    (hn : cx.graph.node? n.id = some n) (hp : p.isPending n.id = true) {out : Outcome × Pass}
    (ht : Attempted cx p n out) :
    ∃ more, out.2.events = p.events ++ more ∧ Tells cx (told ++ more) out.2 := by
  cases ht with
  | blocked eligible => exact ⟨[], (List.append_nil _).symm, by rwa [List.append_nil]⟩
  | @calculated k e eligible compiles =>
    have hw := (isPending_iff.1 hp).resolve_right (ho.not_failed hn compiles)
    refine ⟨[.nodeCalculated n.id n.kind.name], ?_, h.add hw (.calculated hn)
      (waiting_succeed ..) (calculated_succeed ..) ?_⟩
    · rw [events_succeed, hall, Interest.heard_all]
      rfl
    · rw [failures_succeed]
      exact (List.append_nil _).symm
  | @failed x e eligible fails first =>
    have hw := (isPending_iff.1 hp).resolve_right first
    obtain ⟨_, fault, rfl⟩ := ho.certain_error hn fails
    refine ⟨[.compileFailed n.id (.compileFailure n.id fault)], ?_, h.add hw (.failed fault)
      (waiting_fail ..) ?_ (failures_fail ..)⟩
    · rw [events_fail, hall, Interest.heard_all]
      rfl
    · rw [calculated_fail]
      exact (List.append_nil _).symm
  | retried eligible fails again =>
    refine ⟨[], (List.append_nil _).symm, ?_⟩
    rw [List.append_nil]
    exact h.congr rfl rfl rfl

theorem Tells.moves (h : Tells cx told p) (hall : cx.interest = .all) (ho : Orderly cx p)
    (hm : Moves cx p q) : ∃ more, q.events = p.events ++ more ∧ Tells cx (told ++ more) q := by
  induction hm with
  | refl => exact ⟨[], (List.append_nil _).symm, by rwa [List.append_nil]⟩
  | @tail q r hq hm ih =>
    obtain ⟨more, hevents, htells⟩ := ih
    cases hm with
    | attempt id pending =>
      have hoq := (ho.moves hq).1
      obtain ⟨n, rfl, hn⟩ := hoq.node pending
      obtain ⟨last, hlast, htells'⟩ :=
        htells.attempted hall hoq hn pending (attempt_attempted _ hn)
      refine ⟨more ++ last, ?_, ?_⟩
      · rw [hlast, hevents, List.append_assoc]
      · rwa [← List.append_assoc]
    | plan work => exact ⟨more, hevents, htells.congr rfl rfl rfl⟩

/-- What a pass has told of nodes are failures of nodes. -/
theorem Tells.failures_compile (h : Tells cx told p) :
    p.failures.filter GraphError.isCompileFailure = p.failures := by
  refine List.filter_eq_self.2 fun x hx => ?_
  rw [← h.failures, List.mem_filterMap] at hx
  obtain ⟨e, he, hx⟩ := hx
  obtain ⟨id, htells⟩ := h.node e he
  cases htells with
  | calculated node => cases hx
  | failed fault =>
    cases hx
    rfl

theorem events_closeStalled (p : Pass) (cx : PassSetting) : (p.closeStalled cx).events =
    p.events ++ cx.interest.heard (Event.leftOpen (p.stalled cx)) := by
  unfold closeStalled Event.leftOpen
  simp only [List.isEmpty_iff]
  split
  · exact (List.append_nil _).symm
  · exact events_emit ..

end Pass

namespace Seeding

/-- Whether a pass starts over every node. -/
def isFull : Seeding → Bool
  | all => true
  | nodes _ => false

/-- A full pass starts with every node, roots first. -/
theorem work_all (g : Graph) :
    g.roots <+: all.work g ∧ (all.work g).Perm g.nodeIds := by
  refine ⟨List.prefix_append _ _, ?_⟩
  have hrest : g.nodeIds.filter (!g.roots.contains ·) =
      g.nodeIds.filter fun id => !!g.connections.any (·.target.node = id) := by
    refine List.filter_congr fun id hid => ?_
    cases hfed : g.connections.any (·.target.node = id) <;> simp [Graph.roots, hid, hfed]
  rw [work, hrest, Graph.roots]
  exact List.filter_append_perm ..

end Seeding

/-- A request asks for no pass where it is to work off a journal that is empty. -/
def Request.Idle (g : Graph) (request : Request) : Prop :=
  request = .applyChanges ∧ g.changes = []

/-- The events of a pass from some nodes of a graph: where it starts, what becomes of each node,
what is left over, and the report. -/
structure Announced (g : Graph) (s : Seeding) (r : PassResult) (told : List Event) : Prop where
  events : r.events = .passStarted s.isFull (s.work g) :: told ++
    Event.leftOpen r.report.stalled ++ [.passFinished r.report]
  node : ∀ e ∈ told, ∃ id, e.TellsOf g id
  /-- No node is told of twice. -/
  once : (told.filterMap Event.node?).Nodup
  calculated : told.filterMap Event.calculated? = r.report.calculated
  failures : told.filterMap Event.failure? = r.report.failures.filter GraphError.isCompileFailure

/-- The journal has no part in it. -/
theorem Announced.of_drain {g : Graph} {s : Seeding} {r : PassResult} {told : List Event}
    (h : Announced g.drain.2 s r told) : Announced g s r told := by
  have hwork : s.work g.drain.2 = s.work g := by cases s <;> rfl
  refine ⟨hwork ▸ h.events, fun e he => ?_, h.once, h.calculated, h.failures⟩
  obtain ⟨id, htells⟩ := h.node e he
  refine ⟨id, ?_⟩
  cases htells with
  | calculated node => exact .calculated node
  | failed fault => exact .failed fault

namespace Workspace
variable {w : Workspace} {part : List NodeId}

theorem settledPass_tells (hg : w.graph.WellFormed) (hknown : ∀ id ∈ part, id ∈ w.graph.nodeIds)
    (tile : WorldTile) (full : Bool) (work : List NodeId) :
    ∃ told, (w.settledPass tile .all full part work).events = .passStarted full work :: told ∧
      Tells ⟨w.graph, tile, .all⟩ told (w.settledPass tile .all full part work) := by
  have hstart : Tells ⟨w.graph, tile, .all⟩ [] (w.startPass part work) :=
    ⟨nofun, nofun, List.nodup_nil, rfl, rfl⟩
  obtain ⟨told, hevents, htells⟩ := (hstart.congr (waiting_emit ..) (calculated_emit ..)
    (failures_emit ..)).moves rfl (startedPass_orderly hg hknown tile .all full work)
      (moves_settle _ _)
  exact ⟨told, hevents, htells⟩

theorem events_runPass (w : Workspace) (tile : WorldTile) (full : Bool)
    (pending work : List NodeId) : (w.runPass tile .all full pending work).events =
      (w.settledPass tile .all full pending work).events ++
        Event.leftOpen (w.runPass tile .all full pending work).report.stalled ++
          [.passFinished (w.runPass tile .all full pending work).report] := by
  rw [stalled_runPass]
  change (finish _ _).2.events = _
  unfold finish
  rw [events_emit]
  change (closeStalled _ _).events ++ _ = _
  rw [events_closeStalled, Interest.heard_all, Interest.heard_all]
  rfl

theorem runPass_announced (hg : w.graph.WellFormed) (tile : WorldTile) (s : Seeding) :
    ∃ told, Announced w.graph s
      (w.runPass tile .all s.isFull (s.pending w.graph) (s.work w.graph)) told := by
  obtain ⟨told, hevents, htells⟩ :=
    settledPass_tells hg (fun _ hid => s.known hg hid) tile s.isFull (s.work w.graph)
  have hopen : ∀ stalled, (Report.leftOpen stalled).filter GraphError.isCompileFailure = [] := by
    intro stalled
    unfold Report.leftOpen
    split <;> rfl
  refine ⟨told, ?_, htells.node, htells.once, ?_, ?_⟩
  · rw [events_runPass, hevents]
  · rw [htells.calculated, calculated_runPass]
  · rw [htells.failures, failures_runPass, List.filter_append, htells.failures_compile, hopen,
      List.append_nil]

theorem runPass_heard (w : Workspace) (tile : WorldTile) (interest : Interest) (full : Bool)
    (pending work : List NodeId) : w.runPass tile interest full pending work =
      { w.runPass tile .all full pending work with
        events := interest.heard (w.runPass tile .all full pending work).events } := by
  have hless : ∀ kind, interest kind = true →
      (PassSetting.mk w.graph tile .all).interest kind = true := fun _ _ => rfl
  have hrun := run_heardBy hless (w.startPass pending work) full
  change (w.startPass pending work).run ⟨w.graph, tile, interest⟩ full = _ at hrun
  unfold runPass
  dsimp only
  rw [hrun]
  rfl

/-- An observer hears of a request what it wants of all that there is to hear, and has no part in
anything else. -/
theorem serve_heard (w : Workspace) (tile : WorldTile) (interest : Interest) (request : Request) :
    w.serve tile interest request = { w.serve tile .all request with
      events := interest.heard (w.serve tile .all request).events } := by
  cases request with
  | traverseAll => exact runPass_heard ..
  | onChange node => exact runPass_heard ..
  | recalculate seeds => exact runPass_heard ..
  | applyChanges =>
    change w.applyChanges tile interest = { w.applyChanges tile .all with
      events := interest.heard (w.applyChanges tile .all).events }
    rw [applyChanges_eq, applyChanges_eq]
    split
    · rfl
    · split
      · exact runPass_heard ..
      · exact runPass_heard ..

/-- A request that is not idle makes a pass from what it names, with its journal kept or drained. -/
theorem serve_eq_runPass (w : Workspace) (tile : WorldTile) (interest : Interest)
    {request : Request} (h : ¬ request.Idle w.graph) : ∃ v, (v = w ∨ v = w.drain.2) ∧
      w.serve tile interest request = v.runPass tile interest (request.seeding w.graph).isFull
        ((request.seeding w.graph).pending v.graph) ((request.seeding w.graph).work v.graph) := by
  cases request with
  | traverseAll => exact ⟨_, .inr rfl, rfl⟩
  | onChange node => exact ⟨_, .inl rfl, rfl⟩
  | recalculate seeds => exact ⟨_, .inl rfl, rfl⟩
  | applyChanges =>
    refine ⟨_, .inr rfl, ?_⟩
    change w.applyChanges tile interest = _
    rw [applyChanges_eq, if_neg fun hempty => h ⟨rfl, hempty⟩, Request.seeding]
    split <;> rfl

end Workspace

/-- Over every graph that edits have led to, whatever was compiled before, and for every request
that makes a pass: one who wants to hear everything is told where the pass starts, which is at every
node, roots first, in a full pass; then what becomes of each node, just as the report has it; then
what is left over, if anything is; and then the report. Any other observer hears those of these
events that it wants, and the pass does not differ in anything else. -/
theorem Graph.Reached.serve_announced {w : Workspace} (h : w.graph.Reached) (tile : WorldTile)
    (request : Request) :
    (¬ request.Idle w.graph → ∃ told,
      Announced w.graph (request.seeding w.graph) (w.serve tile .all request) told) ∧
    (request.Idle w.graph → (w.serve tile .all request).events = []) ∧
    (w.graph.roots <+: Seeding.all.work w.graph ∧
      (Seeding.all.work w.graph).Perm w.graph.nodeIds) ∧
    ∀ interest : Interest, w.serve tile interest request = { w.serve tile .all request with
      events := (w.serve tile .all request).events.filter (interest ·.kind) } := by
  refine ⟨fun hpass => ?_, ?_, Seeding.work_all w.graph,
    fun interest => w.serve_heard tile interest request⟩
  · obtain ⟨v, hv, hserve⟩ := w.serve_eq_runPass tile .all hpass
    rw [hserve]
    rcases hv with rfl | rfl
    · exact Workspace.runPass_announced h.wellFormed tile _
    · obtain ⟨told, htold⟩ := Workspace.runPass_announced (w := w.drain.2) h.wellFormed.drain tile
        (request.seeding w.graph)
      exact ⟨told, htold.of_drain⟩
  · rintro ⟨rfl, hempty⟩
    change (w.applyChanges tile .all).events = []
    rw [Workspace.applyChanges_eq, if_pos hempty]

/-- The pass over `knot` from what its journal names, in which a node fails and two stall. -/
theorem Workspace.knot_serve_announced : knot.graph.Reached ∧
    ¬ Request.Idle knot.graph .applyChanges ∧
    ∀ tile, (∃ told, Announced knot.graph (Request.seeding knot.graph .applyChanges)
      (knot.serve tile .all .applyChanges) told) ∧
    ∀ kinds, knot.serve tile (.only kinds) .applyChanges =
      { knot.serve tile .all .applyChanges with
        events := (knot.serve tile .all .applyChanges).events.filter
          ((Interest.only kinds) ·.kind) } := by
  obtain ⟨_, h⟩ := history_knot
  have hbusy : ¬ Request.Idle knot.graph .applyChanges := fun hidle =>
    absurd hidle.2 (by decide +kernel)
  refine ⟨h.reached, hbusy, fun tile => ?_⟩
  obtain ⟨htold, _, _, hheard⟩ := h.reached.serve_announced tile .applyChanges
  exact ⟨htold hbusy, fun kinds => hheard (.only kinds)⟩

end Terrain
