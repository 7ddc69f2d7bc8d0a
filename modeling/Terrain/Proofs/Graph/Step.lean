import Mathlib.Logic.Relation
import Terrain.Proofs.Graph.Feeding
import Terrain.Proofs.Graph.WellFormed
import Terrain.Workspace

/-! The elementary steps that edits are made of. What is claimed of edits is shown of each step,
and every edit of a well-formed graph is a row of steps. -/
namespace Terrain
namespace Graph

variable {g : Graph} {id : NodeId} {n : Node}

@[simp] theorem nodes_record (g : Graph) (c : Change) : (g.record c).nodes = g.nodes := rfl
@[simp] theorem connections_record (g : Graph) (c : Change) :
    (g.record c).connections = g.connections := rfl
@[simp] theorem node?_record (g : Graph) (c : Change) (id : NodeId) :
    (g.record c).node? id = g.node? id := rfl

theorem mem_of_node? (h : g.node? id = some n) : n ∈ g.nodes := List.mem_of_find?_eq_some h

theorem mem_nodeIds : id ∈ g.nodeIds ↔ ∃ n, g.node? id = some n := by
  refine ⟨fun h => ?_, fun ⟨n, hn⟩ => ?_⟩
  · obtain ⟨n, hn, rfl⟩ := List.mem_map.1 h
    exact Option.isSome_iff_exists.1 (List.find?_isSome.2 ⟨n, hn, by simp⟩)
  · exact List.mem_map.2 ⟨n, mem_of_node? hn, id_of_node? hn⟩

theorem has_iff : g.has id = true ↔ id ∈ g.nodeIds := by
  rw [mem_nodeIds, has, Option.isSome_iff_exists]

theorem node?_of_mem (hg : g.nodeIds.Nodup) (hn : n ∈ g.nodes) : g.node? n.id = some n := by
  unfold nodeIds at hg
  unfold node?
  generalize g.nodes = nodes at hg hn
  induction nodes with
  | nil => cases hn
  | cons m nodes ih =>
    rw [List.map_cons, List.nodup_cons] at hg
    rcases List.mem_cons.1 hn with rfl | hn
    · simp
    · have hne : m.id ≠ n.id := fun heq => hg.1 (heq ▸ List.mem_map_of_mem hn)
      simpa [List.find?_cons, hne] using ih hg.2 hn

/-- A connection joins an output to an input of its type, on different nodes of the graph. -/
structure Joins (g : Graph) (c : Connection) (m n : Node) (output input : Port) : Prop where
  sourceNode : g.node? c.source.node = some m
  targetNode : g.node? c.target.node = some n
  sourcePort : m.output? c.source.port = some output
  targetPort : n.input? c.target.port = some input
  type : output.type = input.type
  distinct : c.source.node ≠ c.target.node

/-- Nodes have ids of their own, which were given out, and the ports of their layouts;
connections join ports, and no input has two of them. -/
structure WellFormed (g : Graph) : Prop where
  nodup : g.nodeIds.Nodup
  below : ∀ id ∈ g.nodeIds, id.index < g.nextNode
  fits : ∀ n ∈ g.nodes, n.Fits
  joins : ∀ c ∈ g.connections, ∃ m n output input, g.Joins c m n output input
  fed : (g.connections.map (·.target)).Nodup

/-- Only one node has an id. -/
theorem WellFormed.eq_of_node? (h : g.WellFormed) (hn : g.node? id = some n) {m : Node}
    (hm : m ∈ g.nodes) (hid : m.id = id) : m = n := by
  have hmn := node?_of_mem h.nodup hm
  rw [hid, hn] at hmn
  exact (Option.some.inj hmn).symm

/-- A change of one node leaves the others. -/
theorem WellFormed.mem_modifyNode (h : g.WellFormed) (hn : g.node? id = some n)
    {f : Node → Node} {n' : Node} (hn' : n' ∈ (g.modifyNode id f).nodes) :
    n' = f n ∨ n' ∈ g.nodes ∧ n'.id ≠ id := by
  obtain ⟨m, hm, rfl⟩ := List.mem_map.1 hn'
  split
  · next hid => exact .inl (congrArg f (h.eq_of_node? hn hm hid))
  · next hne => exact .inr ⟨hm, hne⟩

theorem nodeIds_modifyNode {f : Node → Node}
    (hf : ∀ n ∈ g.nodes, n.id = id → (f n).id = n.id) :
    (g.modifyNode id f).nodeIds = g.nodeIds := by
  rw [nodeIds, nodeIds, modifyNode, List.map_map]
  refine List.map_congr_left fun n hn => ?_
  simp only [Function.comp_apply]
  split
  · next hid => exact hf n hn hid
  · rfl

/-- The graph with one more node, which takes the next id. -/
def withNode (g : Graph) (n : Node) : Graph :=
  { g with nodes := g.nodes ++ [n], nextNode := g.nextNode + 1 }

def withConnection (g : Graph) (c : Connection) : Graph :=
  { g with connections := g.connections ++ [c] }

/-- An elementary step of an edit. -/
inductive Step (g : Graph) : Graph → Prop
  | detach (id : NodeId) : Step g (g.detach id)
  | push (n : Node) (id : n.id = ⟨g.nextNode⟩) (fits : n.Fits) :
      Step g ((g.withNode n).record (.nodeAdded n.id))
  | unplug (target : PortRef) : Step g (g.unplug target)
  | plug (c : Connection) (m n : Node) (output input : Port)
      (joins : g.Joins c m n output input) (free : g.connectionTo? c.target = none) :
      Step g ((g.withConnection c).record (.connected c))
  | rework (id : NodeId) (f : Node → Node) (change : Change) (counts : PortId → Prop)
      (reworks : ∀ n ∈ g.nodes, n.id = id → n.Reworks (f n) counts)
      (connected : ∀ c ∈ g.connections, c.target.node = id → counts c.target.port)
      (affects : change.affected = [id]) :
      Step g ((g.modifyNode id f).record change)
  | reseed (seed : Seed) : Step g ({ g with seed }.record .seedChanged)

theorem node?_detach (g : Graph) (gone id : NodeId) :
    (g.detach gone).node? id = if id = gone then none else g.node? id := by
  simp only [node?, detach, nodes_record, List.find?_filter]
  split
  · next h =>
    subst h
    exact List.find?_eq_none.2 fun n _ => by by_cases h : n.id = id <;> simp [h]
  · next h =>
    congr 1
    funext n
    by_cases hn : n.id = id
    · simp [hn, h]
    · simp [hn]

theorem node?_withNode (g : Graph) (n : Node) (id : NodeId) :
    (g.withNode n).node? id = (g.node? id).or (if n.id = id then some n else none) := by
  simp only [node?, withNode, List.find?_append, List.find?_singleton, decide_eq_true_eq]

theorem find?_map_node {nodes : List Node} {f : Node → Node} (hf : ∀ n ∈ nodes, (f n).id = n.id)
    (id : NodeId) : (nodes.map f).find? (·.id = id) = (nodes.find? (·.id = id)).map f := by
  induction nodes with
  | nil => rfl
  | cons n nodes ih =>
    have hn := hf n (by simp)
    by_cases hid : n.id = id
    · simp [hn, hid]
    · simpa [hn, hid] using ih fun m hm => hf m (by simp [hm])

theorem node?_modifyNode {f : Node → Node} (hf : ∀ n ∈ g.nodes, n.id = id → (f n).id = n.id)
    (id' : NodeId) : (g.modifyNode id f).node? id' =
      (g.node? id').map fun n => if n.id = id then f n else n := by
  refine find?_map_node (fun n hn => ?_) id'
  split
  · next h => exact hf n hn h
  · rfl

theorem node?_modifyNode_of_ne {f : Node → Node}
    (hf : ∀ n ∈ g.nodes, n.id = id → (f n).id = n.id) {id' : NodeId} (hne : id' ≠ id) :
    (g.modifyNode id f).node? id' = g.node? id' := by
  rw [node?_modifyNode hf]
  cases hn : g.node? id' with
  | none => rfl
  | some n => simp [id_of_node? hn, hne]

/-- Two graphs have nodes at the same places, with outputs that they keep and inputs whose types
they keep where a connection ends. -/
theorem Joins.transfer {g' : Graph} {c : Connection} {m n m' n' : Node} {output input : Port}
    (h : g.Joins c m n output input) (hm : g'.node? c.source.node = some m')
    (hn : g'.node? c.target.node = some n') (houtputs : m'.outputs = m.outputs)
    (hinputs : (n'.input? c.target.port).map (·.type) = (n.input? c.target.port).map (·.type)) :
    ∃ input', g'.Joins c m' n' output input' := by
  rw [h.targetPort] at hinputs
  obtain ⟨input', hinput, htype⟩ := Option.map_eq_some_iff.1 hinputs
  refine ⟨input', hm, hn, ?_, hinput, h.type.trans htype.symm, h.distinct⟩
  rw [Node.output?, houtputs]
  exact h.sourcePort

theorem Joins.of_node? {g' : Graph} {c : Connection} {m n : Node} {output input : Port}
    (h : g.Joins c m n output input) (hg : ∀ id, g'.node? id = g.node? id) :
    g'.Joins c m n output input :=
  ⟨(hg _).trans h.sourceNode, (hg _).trans h.targetNode, h.sourcePort, h.targetPort, h.type,
    h.distinct⟩

theorem WellFormed.sourceOf? (h : g.WellFormed) {c : Connection} (hc : c ∈ g.connections) :
    g.sourceOf? c.target = some c.source := by
  have hfed := h.fed
  unfold Graph.sourceOf? connectionTo?
  generalize g.connections = connections at hc hfed
  induction connections with
  | nil => cases hc
  | cons d connections ih =>
    rw [List.map_cons, List.nodup_cons] at hfed
    rcases List.mem_cons.1 hc with rfl | hc
    · simp
    · have hne : d.target ≠ c.target := fun heq => hfed.1 (heq ▸ List.mem_map_of_mem hc)
      simpa [List.find?_cons, hne] using ih hc hfed.2

theorem connection_of_sourceOf? {p source : PortRef} (h : g.sourceOf? p = some source) :
    ⟨source, p⟩ ∈ g.connections := by
  obtain ⟨c, hc, rfl⟩ := Option.map_eq_some_iff.1 h
  have ht : c.target = p := by simpa using List.find?_some hc
  exact ht ▸ List.mem_of_find?_eq_some hc

/-- What is connected to the input that has an id is an output of its type. -/
theorem WellFormed.joins_of_sourceOf? (h : g.WellFormed) {n : Node} {port : PortId} {input : Port}
    {source : PortRef} (hn : g.node? id = some n) (hinput : n.input? port = some input)
    (hs : g.sourceOf? ⟨id, port⟩ = some source) :
    ∃ m output, g.Joins ⟨source, ⟨id, port⟩⟩ m n output input := by
  obtain ⟨m, n', output, found, hj⟩ := h.joins _ (connection_of_sourceOf? hs)
  obtain rfl := Option.some.inj (hn.symm.trans hj.targetNode)
  obtain rfl := Option.some.inj (hinput.symm.trans hj.targetPort)
  exact ⟨m, output, hj⟩

theorem WellFormed.feeds_iff (h : g.WellFormed) {u v : NodeId} :
    g.Feeds u v ↔ ∃ port source, g.sourceOf? ⟨v, port⟩ = some source ∧ source.node = u := by
  constructor
  · rintro ⟨c, hc, rfl, rfl⟩
    exact ⟨c.target.port, c.source, h.sourceOf? hc, rfl⟩
  · rintro ⟨port, source, hs, rfl⟩
    exact ⟨_, connection_of_sourceOf? hs, rfl, rfl⟩

theorem WellFormed.mem_of_feeds (h : g.WellFormed) {u v : NodeId} (huv : g.Feeds u v) :
    u ∈ g.nodeIds ∧ v ∈ g.nodeIds := by
  obtain ⟨c, hc, rfl, rfl⟩ := huv
  obtain ⟨m, n, _, _, hj⟩ := h.joins c hc
  exact ⟨mem_nodeIds.2 ⟨m, hj.sourceNode⟩, mem_nodeIds.2 ⟨n, hj.targetNode⟩⟩

theorem Behind.mem (h : g.Behind id) (hg : g.WellFormed) : id ∈ g.nodeIds := by
  obtain ⟨u, hu, hreach⟩ := h
  rcases Relation.ReflTransGen.cases_tail hreach with rfl | ⟨v, _, hv⟩
  · obtain ⟨v, _, hv⟩ := Relation.TransGen.tail'_iff.1 hu
    exact (hg.mem_of_feeds hv).2
  · exact (hg.mem_of_feeds hv).2

/-- The journal has no part in it. -/
theorem WellFormed.drain (h : g.WellFormed) : g.drain.2.WellFormed :=
  ⟨h.nodup, h.below, h.fits, fun c hc =>
    let ⟨m, n, output, input, hj⟩ := h.joins c hc
    ⟨m, n, output, input, hj.of_node? fun _ => rfl⟩, h.fed⟩

theorem detach_wellFormed (h : g.WellFormed) (gone : NodeId) : (g.detach gone).WellFormed where
  nodup := h.nodup.sublist (List.filter_sublist.map _)
  below id hid := h.below id ((List.filter_sublist.map _).subset hid)
  fits n hn := h.fits n (List.mem_filter.1 hn).1
  joins c hc := by
    obtain ⟨hc, hends⟩ := List.mem_filter.1 hc
    simp only [ne_eq, Bool.and_eq_true, decide_eq_true_eq] at hends
    obtain ⟨m, n, output, input, hj⟩ := h.joins c hc
    have hm : (g.detach gone).node? c.source.node = some m := by
      rw [node?_detach, if_neg hends.1, hj.sourceNode]
    have hn : (g.detach gone).node? c.target.node = some n := by
      rw [node?_detach, if_neg hends.2, hj.targetNode]
    obtain ⟨input', hj'⟩ := hj.transfer hm hn rfl rfl
    exact ⟨m, n, output, input', hj'⟩
  fed := h.fed.sublist (List.filter_sublist.map _)

theorem push_wellFormed (h : g.WellFormed) (hid : n.id = ⟨g.nextNode⟩) (hn : n.Fits) :
    ((g.withNode n).record (.nodeAdded n.id)).WellFormed where
  nodup := by
    change ((g.nodes ++ [n]).map (·.id)).Nodup
    rw [List.map_append]
    refine List.Nodup.append h.nodup (List.nodup_singleton _) ?_
    rw [List.map_singleton, List.disjoint_singleton, hid]
    exact fun hm => Nat.lt_irrefl _ (h.below _ hm)
  below id hm := by
    change id ∈ (g.nodes ++ [n]).map (·.id) at hm
    change id.index < g.nextNode + 1
    rw [List.map_append, List.mem_append] at hm
    rcases hm with hm | hm
    · exact Nat.lt_succ_of_lt (h.below id hm)
    · obtain rfl := List.mem_singleton.1 hm
      simp [hid]
  fits m hm := by
    rcases List.mem_append.1 hm with hm | hm
    · exact h.fits m hm
    · obtain rfl := List.mem_singleton.1 hm
      exact hn
  joins c hc := by
    obtain ⟨m, k, output, input, hj⟩ := h.joins c hc
    have hm : (g.withNode n).node? c.source.node = some m := by
      rw [node?_withNode, hj.sourceNode, Option.some_or]
    have hk : (g.withNode n).node? c.target.node = some k := by
      rw [node?_withNode, hj.targetNode, Option.some_or]
    obtain ⟨input', hj'⟩ := hj.transfer hm hk rfl rfl
    exact ⟨m, k, output, input', hj'.of_node? fun _ => rfl⟩
  fed := h.fed

theorem connections_unplug (g : Graph) (target : PortRef) :
    (g.unplug target).connections = g.connections.eraseP (·.target = target) := by
  unfold unplug
  cases hc : g.connectionTo? target with
  | none => exact (List.eraseP_of_forall_not fun c hc' => List.find?_eq_none.1 hc c hc').symm
  | some old => rfl

@[simp] theorem nodes_unplug (g : Graph) (target : PortRef) :
    (g.unplug target).nodes = g.nodes := by
  unfold unplug
  split <;> rfl

@[simp] theorem nextNode_unplug (g : Graph) (target : PortRef) :
    (g.unplug target).nextNode = g.nextNode := by
  unfold unplug
  split <;> rfl

@[simp] theorem node?_unplug (g : Graph) (target : PortRef) (id : NodeId) :
    (g.unplug target).node? id = g.node? id := by
  rw [node?, nodes_unplug, node?]

@[simp] theorem nodeIds_unplug (g : Graph) (target : PortRef) :
    (g.unplug target).nodeIds = g.nodeIds := by
  rw [nodeIds, nodes_unplug, nodeIds]

theorem unplug_wellFormed (h : g.WellFormed) (target : PortRef) : (g.unplug target).WellFormed where
  nodup := by rw [nodeIds_unplug]; exact h.nodup
  below id hid := by
    rw [nodeIds_unplug] at hid
    rw [nextNode_unplug]
    exact h.below id hid
  fits n hn := h.fits n (nodes_unplug g target ▸ hn)
  joins c hc := by
    rw [connections_unplug] at hc
    obtain ⟨m, n, output, input, hj⟩ := h.joins c (List.mem_of_mem_eraseP hc)
    exact ⟨m, n, output, input, hj.of_node? (node?_unplug g target)⟩
  fed := by
    rw [connections_unplug]
    exact h.fed.sublist (List.eraseP_sublist.map _)

/-- No connection ends at an input that has been unplugged. -/
theorem WellFormed.connectionTo?_unplug (h : g.WellFormed) (target : PortRef) :
    (g.unplug target).connectionTo? target = none := by
  have hfed := h.fed
  rw [connectionTo?, connections_unplug, List.find?_eq_none]
  generalize g.connections = connections at hfed
  induction connections with
  | nil => simp
  | cons d connections ih =>
    rw [List.map_cons, List.nodup_cons] at hfed
    by_cases hd : d.target = target
    · intro c hc
      rw [List.eraseP_cons_of_pos (by simp [hd])] at hc
      simp only [decide_eq_true_eq]
      exact fun heq => hfed.1 (hd ▸ heq ▸ List.mem_map_of_mem hc)
    · rw [List.eraseP_cons_of_neg (by simp [hd])]
      simpa [hd] using ih hfed.2

theorem plug_wellFormed (h : g.WellFormed) {c : Connection} {m n : Node} {output input : Port}
    (hj : g.Joins c m n output input) (free : g.connectionTo? c.target = none) :
    ((g.withConnection c).record (.connected c)).WellFormed where
  nodup := h.nodup
  below := h.below
  fits := h.fits
  joins d hd := by
    rcases List.mem_append.1 hd with hd | hd
    · obtain ⟨m, n, output, input, hj⟩ := h.joins d hd
      exact ⟨m, n, output, input, hj.of_node? fun _ => rfl⟩
    · obtain rfl := List.mem_singleton.1 hd
      exact ⟨m, n, output, input, hj.of_node? fun _ => rfl⟩
  fed := by
    change ((g.connections ++ [c]).map (·.target)).Nodup
    rw [List.map_append]
    refine List.Nodup.append h.fed (List.nodup_singleton _) ?_
    rw [List.map_singleton, List.disjoint_singleton]
    intro hm
    obtain ⟨d, hd, hdc⟩ := List.mem_map.1 hm
    exact List.find?_eq_none.1 free d hd (by simpa using hdc)

theorem rework_wellFormed (h : g.WellFormed) {f : Node → Node} {counts : PortId → Prop}
    (reworks : ∀ n ∈ g.nodes, n.id = id → n.Reworks (f n) counts)
    (connected : ∀ c ∈ g.connections, c.target.node = id → counts c.target.port)
    (change : Change) : ((g.modifyNode id f).record change).WellFormed := by
  have hids : (g.modifyNode id f).nodeIds = g.nodeIds :=
    nodeIds_modifyNode fun n hn hid => (reworks n hn hid).id
  have hnode : ∀ {id' : NodeId} {n : Node}, g.node? id' = some n →
      ∃ n', ((g.modifyNode id f).record change).node? id' = some n' ∧ n'.outputs = n.outputs ∧
        ∀ c ∈ g.connections, c.target.node = id' →
          (n'.input? c.target.port).map (·.type) = (n.input? c.target.port).map (·.type) := by
    intro id' n hn
    rw [node?_record, node?_modifyNode fun n hn hid => (reworks n hn hid).id, hn]
    by_cases hid : n.id = id
    · have hr := reworks n (mem_of_node? hn) hid
      refine ⟨f n, by simp [hid], hr.outputs, fun c hc ht => hr.inputs _ (connected c hc ?_)⟩
      rw [ht, ← id_of_node? hn, hid]
    · exact ⟨n, by simp [hid], rfl, fun _ _ _ => rfl⟩
  refine ⟨hids ▸ h.nodup, fun id' hid' => h.below id' (hids ▸ hid'), fun n hn => ?_,
    fun c hc => ?_, h.fed⟩
  · obtain ⟨m, hm, rfl⟩ := List.mem_map.1 hn
    split
    · next hid => exact (reworks m hm hid).fits (h.fits m hm)
    · exact h.fits m hm
  · obtain ⟨m, n, output, input, hj⟩ := h.joins c hc
    obtain ⟨m', hm, houtputs, _⟩ := hnode hj.sourceNode
    obtain ⟨n', hn, _, hinputs⟩ := hnode hj.targetNode
    obtain ⟨input', hj'⟩ := hj.transfer hm hn houtputs (hinputs c hc rfl)
    exact ⟨m', n', output, input', hj'⟩

theorem Step.wellFormed {g' : Graph} (hs : g.Step g') (h : g.WellFormed) : g'.WellFormed := by
  cases hs with
  | detach id => exact detach_wellFormed h id
  | push n hid hn => exact push_wellFormed h hid hn
  | unplug target => exact unplug_wellFormed h target
  | plug c m n output input joins free => exact plug_wellFormed h joins free
  | rework id f change counts reworks connected _ =>
    exact rework_wellFormed h reworks connected change
  | reseed seed =>
    exact ⟨h.nodup, h.below, h.fits, fun c hc =>
      let ⟨m, n, output, input, hj⟩ := h.joins c hc
      ⟨m, n, output, input, hj.of_node? fun _ => rfl⟩, h.fed⟩

end Graph
end Terrain
