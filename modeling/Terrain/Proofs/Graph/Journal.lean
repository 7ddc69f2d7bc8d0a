import Terrain.Graph.Edit

/-! Edits and the journal. An edit adds to the journal but does not read it: with earlier changes
in the journal, its answer and all else that it does are the same. -/
namespace Terrain
namespace Graph

/-- A graph with earlier changes in its journal. -/
def withPast (g : Graph) (past : List Change) : Graph := { g with changes := past ++ g.changes }

variable (g : Graph) (past : List Change)

theorem record_withPast (c : Change) : (g.withPast past).record c = (g.record c).withPast past := by
  simp [record, withPast]

theorem detach_withPast (id : NodeId) : (g.withPast past).detach id = (g.detach id).withPast past :=
  record_withPast { g with
    nodes := g.nodes.filter (·.id ≠ id)
    connections := g.connections.filter fun c => c.source.node ≠ id && c.target.node ≠ id } past _

theorem unplug_withPast (target : PortRef) :
    (g.withPast past).unplug target = (g.unplug target).withPast past := by
  have hheld : (g.withPast past).connectionTo? target = g.connectionTo? target := rfl
  unfold unplug
  rw [hheld]
  cases g.connectionTo? target with
  | none => rfl
  | some old => exact record_withPast { g with
      connections := g.connections.eraseP (·.target = target) } past _

theorem foldl_detach_withPast (ids : List NodeId) :
    ids.foldl detach (g.withPast past) = (ids.foldl detach g).withPast past := by
  induction ids generalizing g with
  | nil => rfl
  | cons id rest ih => rw [List.foldl_cons, detach_withPast, ih, List.foldl_cons]

theorem addNode_withPast (kind : Kind) : (g.withPast past).addNode kind =
    ((g.addNode kind).1, (g.addNode kind).2.withPast past) := by
  have hreplaced : (g.withPast past).replacedBy kind = g.replacedBy kind := rfl
  unfold addNode
  rw [hreplaced, foldl_detach_withPast]
  simp [record, withPast]

theorem removeNode_withPast (id : NodeId) :
    (g.withPast past).removeNode id = (g.removeNode id).map (·.withPast past) := by
  have hfind : (g.withPast past).findNode id = g.findNode id := rfl
  have hbound : (g.withPast past).id = g.id := rfl
  have hholders : ∀ role, (g.withPast past).holders role = g.holders role := fun _ => rfl
  unfold removeNode
  simp only [hfind, hbound, hholders, detach_withPast]
  cases g.findNode id with
  | error x => rfl
  | ok n =>
    dsimp only [bind, Except.bind]
    cases n.kind.role? with
    | none => rfl
    | some role =>
      cases g.id with
      | none => rfl
      | some name =>
        dsimp only
        split <;> rfl

theorem connect_withPast (source target : PortRef) :
    (g.withPast past).connect source target = (g.connect source target).map (·.withPast past) := by
  have hfind : ∀ p, (g.withPast past).findPort p = g.findPort p := fun _ => rfl
  have hplug : ∀ c : Connection, ({ (g.withPast past).unplug target with
      connections := ((g.withPast past).unplug target).connections ++ [c] } : Graph).record
        (.connected c) = (({ g.unplug target with
          connections := (g.unplug target).connections ++ [c] } : Graph).record
            (.connected c)).withPast past := fun c => by
    rw [unplug_withPast]
    simp [record, withPast]
  unfold connect
  rw [hfind, hfind]
  cases g.findPort source with
  | error x => rfl
  | ok found =>
    cases g.findPort target with
    | error x => rfl
    | ok found' =>
      dsimp only [bind, Except.bind]
      split
      · rfl
      · split
        · rfl
        · split
          · rfl
          · change (if g.sourceOf? target = some source then _ else _) =
              Except.map _ (if _ then _ else _)
            split
            · rfl
            · exact congrArg Except.ok (hplug _)

theorem editNode_withPast (id : NodeId) (kind : Kind) :
    (g.withPast past).editNode id kind = (g.editNode id kind).map (·.withPast past) := by
  have hfind : (g.withPast past).findNode id = g.findNode id := rfl
  have hrecord : ((g.withPast past).modifyNode id ({ · with kind })).record
      (.paramsChanged id) = _ :=
    record_withPast (g.modifyNode id ({ · with kind })) past _
  unfold editNode
  rw [hfind, hrecord]
  cases g.findNode id with
  | error x => rfl
  | ok n =>
    dsimp only [bind, Except.bind]
    split
    · rfl
    · split <;> rfl

theorem connectNamed_withPast (source : NodeId) (output : String) (target : NodeId)
    (input : String) : (g.withPast past).connectNamed source output target input =
      (g.connectNamed source output target input).map (·.withPast past) := by
  have hport : ∀ id name, (g.withPast past).portNamed id name = g.portNamed id name :=
    fun _ _ => rfl
  unfold connectNamed
  rw [hport, hport]
  cases g.portNamed source output with
  | error x => rfl
  | ok p =>
    cases g.portNamed target input with
    | error x => rfl
    | ok p' => exact g.connect_withPast past p p'

theorem disconnect_withPast (target : PortRef) : (g.withPast past).disconnect target =
    (g.disconnect target).map fun r => (r.1, r.2.withPast past) := by
  have hfind : (g.withPast past).findPort target = g.findPort target := rfl
  unfold disconnect
  rw [hfind, unplug_withPast]
  cases g.findPort target <;> rfl

theorem addPort_withPast (id : NodeId) (type : PortType) : (g.withPast past).addPort id type =
    (g.addPort id type).map fun r => (r.1, r.2.withPast past) := by
  have hfind : (g.withPast past).findNode id = g.findNode id := rfl
  have hrecord : ∀ d c, ((g.withPast past).modifyNode id (·.pushDynamic d)).record c = _ :=
    fun d c => record_withPast (g.modifyNode id (·.pushDynamic d)) past c
  unfold addPort
  simp only [hfind, hrecord]
  cases g.findNode id with
  | error x => rfl
  | ok n =>
    dsimp only [bind, Except.bind]
    cases n.kind.layout.dynamic with
    | none => rfl
    | some d =>
      dsimp only
      split <;> rfl

theorem removePort_withPast (p : PortRef) :
    (g.withPast past).removePort p = (g.removePort p).map (·.withPast past) := by
  have hfind : (g.withPast past).findNode p.node = g.findNode p.node := rfl
  have hdrop : ∀ d, (((g.withPast past).modifyNode p.node (·.dropDynamic d p.port)).unplug
      p).record (.portRemoved p) = (((g.modifyNode p.node (·.dropDynamic d p.port)).unplug
        p).record (.portRemoved p)).withPast past := fun d => by
    rw [← record_withPast, ← unplug_withPast]
    rfl
  unfold removePort
  simp only [hfind, hdrop]
  cases g.findNode p.node with
  | error x => rfl
  | ok n =>
    dsimp only [bind, Except.bind]
    cases n.kind.layout.dynamic with
    | none => rfl
    | some d =>
      dsimp only
      split
      · rfl
      · split <;> rfl

theorem setLiteral_withPast (p : PortRef) (literal : Literal) :
    (g.withPast past).setLiteral p literal = (g.setLiteral p literal).map (·.withPast past) := by
  have hfind : (g.withPast past).findNode p.node = g.findNode p.node := rfl
  have hrecord : ((g.withPast past).modifyNode p.node (·.setLiteral p.port literal)).record
      (.paramsChanged p.node) = _ :=
    record_withPast (g.modifyNode p.node (·.setLiteral p.port literal)) past _
  unfold setLiteral
  simp only [hfind, hrecord]
  cases g.findNode p.node with
  | error x => rfl
  | ok n =>
    dsimp only [bind, Except.bind]
    cases n.input? p.port with
    | none => rfl
    | some port =>
      dsimp only
      split <;> rfl

theorem setNodeSeed_withPast (id : NodeId) (seed : Seed) :
    (g.withPast past).setNodeSeed id seed = (g.setNodeSeed id seed).map (·.withPast past) := by
  have hfind : (g.withPast past).findNode id = g.findNode id := rfl
  have hrecord : ((g.withPast past).modifyNode id ({ · with seed })).record
      (.paramsChanged id) = _ :=
    record_withPast (g.modifyNode id ({ · with seed })) past _
  unfold setNodeSeed
  rw [hfind, hrecord]
  cases g.findNode id with
  | error x => rfl
  | ok n =>
    dsimp only [bind, Except.bind]
    split <;> rfl

theorem setSeed_withPast (seed : Seed) :
    (g.withPast past).setSeed seed = (g.setSeed seed).withPast past := by
  unfold setSeed
  change (if g.seed = seed then _ else _) = _
  split
  · rfl
  · exact record_withPast { g with seed } past _

/-- No edit reads the journal. -/
theorem perform_withPast (e : Edit) :
    (g.withPast past).perform e = (g.perform e).map fun r => (r.1, r.2.withPast past) := by
  have hdone : ∀ x : Except GraphError Graph, (x.map (·.withPast past)).map (Reply.done, ·) =
      (x.map (Reply.done, ·)).map fun r => (r.1, r.2.withPast past) := fun x => by
    cases x <;> rfl
  cases e with
  | addNode kind =>
    exact congrArg (fun r => Except.ok (Reply.node r.1, r.2)) (g.addNode_withPast past kind)
  | removeNode id => exact (congrArg (Except.map _) (g.removeNode_withPast past id)).trans (hdone _)
  | editNode id kind =>
    exact (congrArg (Except.map _) (g.editNode_withPast past id kind)).trans (hdone _)
  | connect source target =>
    exact (congrArg (Except.map _) (g.connect_withPast past source target)).trans (hdone _)
  | connectNamed source output target input =>
    exact (congrArg (Except.map _)
      (g.connectNamed_withPast past source output target input)).trans (hdone _)
  | disconnect target =>
    refine (congrArg (Except.map _) (g.disconnect_withPast past target)).trans ?_
    dsimp only [perform]
    cases g.disconnect target <;> rfl
  | addPort id type =>
    refine (congrArg (Except.map _) (g.addPort_withPast past id type)).trans ?_
    dsimp only [perform]
    cases g.addPort id type <;> rfl
  | removePort p => exact (congrArg (Except.map _) (g.removePort_withPast past p)).trans (hdone _)
  | setLiteral p literal =>
    exact (congrArg (Except.map _) (g.setLiteral_withPast past p literal)).trans (hdone _)
  | setNodeSeed id seed =>
    exact (congrArg (Except.map _) (g.setNodeSeed_withPast past id seed)).trans (hdone _)
  | setSeed seed =>
    exact congrArg (fun g' => Except.ok (Reply.done, g')) (g.setSeed_withPast past seed)

end Graph
end Terrain
