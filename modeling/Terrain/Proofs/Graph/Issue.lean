import Terrain.Proofs.Graph.Layout

/-! The references that are handed out over the whole history of a graph. Nodes are numbered without
end, so none has the id of another, be it there or not. The ports of a node are numbered by words:
as long as the node was given no more ports than there are words, no reference to one of them is
handed out twice, and one that has stopped to resolve stays so. -/
namespace Terrain
namespace Graph

variable {g g' g'' : Graph} {handed past later : List Reference} {r : Reference}

/-- What edits lead to from a graph, with the references that they have handed out. Edits may be
refused, and the journal may be drained in between. -/
inductive Course (g : Graph) : List Reference → Graph → Prop
  | start : Course g [] g
  | edit {past : List Reference} {g' : Graph} (h : Course g past g') (e : Edit) :
      Course g (past ++ g'.issues e) (g'.after e)
  | drain {past : List Reference} {g' : Graph} (h : Course g past g') : Course g past g'.drain.2

/-- The number of ports that a node was given, as the references that were handed out tell. -/
def portsGiven (past : List Reference) (id : NodeId) : Nat := past.countP (·.isPortOf id)

@[simp] theorem portsGiven_append (past later : List Reference) (id : NodeId) :
    portsGiven (past ++ later) id = portsGiven past id + portsGiven later id :=
  List.countP_append

@[simp] theorem portsGiven_port (p : PortRef) (id : NodeId) :
    portsGiven [.port p] id = if p.node = id then 1 else 0 := by
  simp [portsGiven, Reference.isPortOf, List.countP_singleton]

/-- There were words enough to number the ports of the node that a reference is to one of. -/
def Roomy (past : List Reference) : Reference → Prop
  | .node _ => True
  | .port p => portsGiven past p.node ≤ UInt32.size

/-- The references to ports of one node that a new node comes with. -/
theorem filter_references (n : Node) (id : NodeId) : n.references.filter (·.isPortOf id) =
    if n.id = id then n.portIds.map fun port => .port ⟨id, port⟩ else [] := by
  have hports : n.references.filter (·.isPortOf id) =
      (n.portIds.map fun port => Reference.port ⟨n.id, port⟩).filter (·.isPortOf id) := rfl
  rw [hports]
  split
  · next hid =>
    subst hid
    exact List.filter_eq_self.2 fun r hr => by
      obtain ⟨_, _, rfl⟩ := List.mem_map.1 hr
      simp [Reference.isPortOf]
  · next hid =>
    exact List.filter_eq_nil_iff.2 fun r hr => by
      obtain ⟨_, _, rfl⟩ := List.mem_map.1 hr
      simpa [Reference.isPortOf] using hid

theorem count_references (n : Node) (id : NodeId) :
    n.references.count (.node id) = if n.id = id then 1 else 0 := by
  have hports : (n.portIds.map fun port => Reference.port ⟨n.id, port⟩).count (.node id) = 0 :=
    List.count_eq_zero.2 fun hm => by simp at hm
  rw [Node.references, List.count_cons, hports]
  simp

theorem portsGiven_references (id : NodeId) (kind : Kind) (seed : Seed) (id' : NodeId) :
    portsGiven (Node.create id kind seed).references id' =
      if id = id' then kind.firstCount else 0 := by
  rw [portsGiven, List.countP_eq_length_filter, filter_references, Node.id_create]
  split
  · simpa using (Node.create_numbered id kind seed).2.length_eq
  · rfl

section Alters
variable (h : g.Alters handed g') (hg : g.WellFormed)
include h

include hg

/-- What resolves after an edit did so before, or is handed out by the edit. -/
theorem Alters.resolves (hr : g'.Resolves r) : g.Resolves r ∨ r ∈ handed := by
  have old : ∀ {n : Node}, n ∈ g.nodes → g.node? n.id = some n := node?_of_mem hg.nodup
  cases r with
  | node id =>
    obtain ⟨n', hn'⟩ := resolves_node.1 hr
    obtain rfl := id_of_node? hn'
    cases h.origin hg (mem_of_node? hn') with
    | kept hn => exact .inl (resolves_node.2 ⟨_, old hn⟩)
    | new kind seed issued => exact .inr (issued ▸ by simp [Node.references])
    | grown n d hn decl issued => exact .inl (resolves_node.2 ⟨n, old hn⟩)
    | turned hn turns => exact .inl (resolves_node.2 ⟨_, turns.id_eq ▸ old hn⟩)
  | port p =>
    obtain ⟨node, port⟩ := p
    obtain ⟨n', hn', hp⟩ := resolves_port.1 hr
    obtain rfl : n'.id = node := id_of_node? hn'
    cases h.origin hg (mem_of_node? hn') with
    | kept hn => exact .inl (resolves_port.2 ⟨_, old hn, hp⟩)
    | new kind seed issued => exact .inr (issued ▸ by simpa [Node.references] using hp)
    | grown n d hn decl issued =>
      rw [(Node.portIds_pushDynamic n d).mem_iff, List.mem_append, List.mem_singleton] at hp
      rcases hp with hp | rfl
      · exact .inl (resolves_port.2 ⟨n, old hn, hp⟩)
      · exact .inr (issued ▸ List.mem_singleton.2 rfl)
    | turned hn turns =>
      exact .inl (resolves_port.2 ⟨_, turns.id_eq ▸ old hn, turns.portIds_sublist.subset hp⟩)

/-- Nodes stay in the order of their ids. -/
theorem Alters.ascending (hids : g.nodeIds.Pairwise (·.index < ·.index)) :
    g'.nodeIds.Pairwise (·.index < ·.index) := by
  have modified : ∀ {id : NodeId} {n : Node} {f : Node → Node}, g.node? id = some n →
      (f n).id = n.id → g'.nodes = (g.modifyNode id f).nodes → g'.nodeIds = g.nodeIds := by
    intro id n f hn hf hnodes
    rw [nodeIds, hnodes]
    exact nodeIds_modifyNode fun m hm hid => (hg.eq_of_node? hn hm hid).symm ▸ hf
  cases h with
  | lose nodes next => exact hids.sublist (nodes.map _)
  | add kind seed rest left nodes next =>
    rw [nodeIds, nodes, List.map_append, List.pairwise_append]
    refine ⟨hids.sublist (left.map _), List.pairwise_singleton _ _, fun id hid id' hid' => ?_⟩
    rw [List.map_singleton, List.mem_singleton, Node.id_create] at hid'
    exact hid' ▸ hg.below id ((left.map _).subset hid)
  | grow id n d node decl nodes next => exact (modified node rfl nodes).symm ▸ hids
  | turn id n f node turns nodes next => exact (modified node turns.id_eq nodes).symm ▸ hids

end Alters

theorem Reached.ascending (h : g.Reached) : g.nodeIds.Pairwise (·.index < ·.index) := by
  induction h with
  | fresh name seed => exact .nil
  | edit h e ih => exact (alters_after h.wellFormed e).ascending h.wellFormed ih
  | drain _ ih => exact ih

/-- What edits have handed out, beside the graph that they have led to: the ids of nodes up to the
next one, once each, and for each node the ids of as many ports as it was given, in their order by
the words, some of which its ports still have. -/
structure Issued (past : List Reference) (g : Graph) : Prop where
  wellFormed : g.WellFormed
  nodes : ∀ id : NodeId, past.count (.node id) = if id.index < g.nextNode then 1 else 0
  unknown : ∀ id : NodeId, g.nextNode ≤ id.index → portsGiven past id = 0
  ports : ∀ id : NodeId, (past.filter (·.isPortOf id)).Perm
    ((List.range (portsGiven past id)).map fun i => .port ⟨id, .ofIndex i⟩)
  numbered : ∀ n ∈ g.nodes, n.Numbered (portsGiven past n.id)

/-- The port that a node is given is the next of its ports, and what is handed out. -/
theorem Issued.grow (h : Issued past g) (hg' : g'.WellFormed) {id : NodeId} {n : Node}
    {d : DynamicDecl} (node : g.node? id = some n)
    (nodes : g'.nodes = (g.modifyNode id (·.pushDynamic d)).nodes)
    (next : g'.nextNode = g.nextNode) : Issued (past ++ [.port ⟨id, ⟨n.nextPort⟩⟩]) g' := by
  have hg := h.wellFormed
  have hid : n.id = id := id_of_node? node
  have hnumbered : n.Numbered (portsGiven past id) := hid ▸ h.numbered n (mem_of_node? node)
  refine ⟨hg', fun id' => ?nodes, fun id' hid' => ?unknown, fun id' => ?ports, fun n' hn' => ?numbered⟩
  case nodes =>
    rw [next, List.count_append, h.nodes id']
    simp
  case unknown =>
    have hne : id ≠ id' := by
      rintro rfl
      exact absurd (hg.below id (mem_nodeIds.2 ⟨n, node⟩)) (Nat.not_lt.2 (next ▸ hid'))
    simp [h.unknown id' (next ▸ hid'), hne]
  case ports =>
    rw [portsGiven_append, portsGiven_port, List.filter_append]
    by_cases hid' : id = id'
    · subst hid'
      rw [if_pos rfl, List.range_succ, List.map_append, List.map_singleton, PortId.ofIndex,
        ← hnumbered.next]
      exact (h.ports id).append (.of_eq (by simp [Reference.isPortOf]))
    · simpa [Reference.isPortOf, hid'] using h.ports id'
  case numbered =>
    rw [portsGiven_append, portsGiven_port]
    rcases hg.mem_modifyNode node (nodes ▸ hn') with rfl | ⟨hn', hne⟩
    · have hkept : (n.pushDynamic d).id = id := hid
      rw [hkept, if_pos rfl]
      exact hnumbered.push d
    · simpa [Ne.symm hne] using h.numbered n' hn'

/-- The id of a new node is new, and its ports are the first that it is given. -/
theorem Issued.add (h : Issued past g) (hg' : g'.WellFormed) (kind : Kind) (seed : Seed)
    {rest : List Node} (left : rest.Sublist g.nodes)
    (nodes : g'.nodes = rest ++ [.create ⟨g.nextNode⟩ kind seed])
    (next : g'.nextNode = g.nextNode + 1) :
    Issued (past ++ (Node.create ⟨g.nextNode⟩ kind seed).references) g' := by
  obtain ⟨hnextPort, hports⟩ := Node.create_numbered ⟨g.nextNode⟩ kind seed
  have hnone : portsGiven past ⟨g.nextNode⟩ = 0 := h.unknown _ (Nat.le_refl _)
  refine ⟨hg', fun id' => ?nodes, fun id' hid' => ?unknown, fun id' => ?ports, fun n' hn' => ?numbered⟩
  case nodes =>
    rw [List.count_append, h.nodes id', count_references, Node.id_create, next]
    obtain ⟨i⟩ := id'
    simp only [NodeId.mk.injEq]
    split <;> split <;> split <;> omega
  case unknown =>
    rw [next] at hid'
    have hne : (⟨g.nextNode⟩ : NodeId) ≠ id' := by
      rintro rfl
      exact Nat.not_succ_le_self _ hid'
    rw [portsGiven_append, portsGiven_references, if_neg hne,
      h.unknown id' (Nat.le_of_succ_le hid')]
  case ports =>
    rw [portsGiven_append, portsGiven_references, List.filter_append, filter_references,
      Node.id_create]
    by_cases hid' : (⟨g.nextNode⟩ : NodeId) = id'
    · subst hid'
      have hempty := h.ports ⟨g.nextNode⟩
      rw [hnone] at hempty ⊢
      rw [if_pos rfl, if_pos rfl, hempty.eq_nil, List.nil_append, Nat.zero_add]
      have hmapped := hports.map fun port => Reference.port ⟨⟨g.nextNode⟩, port⟩
      rwa [List.map_map] at hmapped
    · simpa [hid'] using h.ports id'
  case numbered =>
    rw [nodes] at hn'
    rw [portsGiven_append, portsGiven_references]
    rcases List.mem_append.1 hn' with hn' | hn'
    · have hne : (⟨g.nextNode⟩ : NodeId) ≠ n'.id := fun heq => Nat.lt_irrefl _
        (heq ▸ h.wellFormed.below n'.id (List.mem_map_of_mem (left.subset hn')))
      rw [if_neg hne]
      exact h.numbered n' (left.subset hn')
    · obtain rfl := List.mem_singleton.1 hn'
      rw [Node.id_create, if_pos rfl, hnone, Nat.zero_add]
      exact ⟨hnextPort, hports.subperm⟩

theorem Issued.alters (h : Issued past g) (halters : g.Alters handed g') (hg' : g'.WellFormed) :
    Issued (past ++ handed) g' := by
  cases halters with
  | lose nodes next =>
    rw [List.append_nil]
    exact ⟨hg', next ▸ h.nodes, next ▸ h.unknown, h.ports, fun n hn => h.numbered n (nodes.subset hn)⟩
  | add kind seed rest left nodes next => exact h.add hg' kind seed left nodes next
  | grow id n d node decl nodes next => exact h.grow hg' node nodes next
  | turn id n f node turns nodes next =>
    rw [List.append_nil]
    refine ⟨hg', next ▸ h.nodes, next ▸ h.unknown, h.ports, fun n' hn' => ?_⟩
    rcases h.wellFormed.mem_modifyNode node (nodes ▸ hn') with rfl | ⟨hn', _⟩
    · exact turns.id_eq ▸ turns.numbered (h.numbered n (mem_of_node? node))
    · exact h.numbered n' hn'

theorem Course.reached {name : Option String} {seed : Seed}
    (h : Course { id := name, seed } past g) : g.Reached := by
  generalize hstart : ({ id := name, seed } : Graph) = start at h
  induction h with
  | start => exact hstart ▸ .fresh name seed
  | edit _ e ih => exact ih.edit e
  | drain _ ih => exact ih.drain

theorem Course.issued {name : Option String} {seed : Seed}
    (h : Course { id := name, seed } past g) : Issued past g := by
  generalize hstart : ({ id := name, seed } : Graph) = start at h
  induction h with
  | start =>
    subst hstart
    exact ⟨new_wellFormed name seed, fun _ => rfl, fun _ _ => rfl, fun _ => .refl _,
      fun _ h => absurd h List.not_mem_nil⟩
  | edit _ e ih =>
    exact ih.alters (alters_after ih.wellFormed e) (after_wellFormed ih.wellFormed e)
  | drain _ ih =>
    exact ⟨ih.wellFormed.drain, ih.nodes, ih.unknown, ih.ports, ih.numbered⟩

theorem Course.trans (h : g.Course past g') (h' : g'.Course later g'') :
    g.Course (past ++ later) g'' := by
  induction h' with
  | start => rwa [List.append_nil]
  | edit _ e ih => rw [← List.append_assoc]; exact ih.edit e
  | drain _ ih => exact ih.drain

theorem Course.wellFormed (h : g.Course past g') (hg : g.WellFormed) : g'.WellFormed := by
  induction h with
  | start => exact hg
  | edit _ e ih => exact after_wellFormed ih e
  | drain _ ih => exact ih.drain

/-- What resolves did so at the start, or was handed out since. -/
theorem Course.resolves (h : g.Course past g') (hg : g.WellFormed) (hr : g'.Resolves r) :
    g.Resolves r ∨ r ∈ past := by
  induction h with
  | start => exact .inl hr
  | edit h e ih =>
    have hg' := h.wellFormed hg
    rcases (alters_after hg' e).resolves hg' hr with hr | hr
    · exact (ih hr).imp_right (List.mem_append_left _)
    · exact .inr (List.mem_append_right _ hr)
  | drain _ ih => exact ih hr

/-- A reference is handed out once, where there were words enough for the ports of its node. -/
theorem Issued.once (h : Issued past g) (hr : Roomy past r) : past.count r ≤ 1 := by
  cases r with
  | node id =>
    rw [h.nodes id]
    split <;> simp
  | port p =>
    have hkept : (Reference.port p).isPortOf p.node = true := by simp [Reference.isPortOf]
    rw [← List.count_filter hkept, (h.ports p.node).count_eq]
    refine List.nodup_iff_count_le_one.1 ?_ _
    have hmap : ((List.range (portsGiven past p.node)).map fun i =>
        Reference.port ⟨p.node, .ofIndex i⟩) =
        ((List.range (portsGiven past p.node)).map PortId.ofIndex).map
          fun port => .port ⟨p.node, port⟩ := by
      rw [List.map_map]
      rfl
    rw [hmap]
    exact (PortId.nodup_ofIndex hr).map fun _ _ heq => by simpa using heq

/-- The owner of a reference that was handed out was handed out too. -/
theorem Issued.owner (h : Issued past g) (hr : r ∈ past) : .node r.owner ∈ past := by
  cases r with
  | node id => exact hr
  | port p =>
    have hgiven : 0 < portsGiven past p.node :=
      List.countP_pos_iff.2 ⟨_, hr, by simp [Reference.isPortOf]⟩
    have hbelow : p.node.index < g.nextNode := by
      by_contra hnew
      rw [h.unknown p.node (Nat.le_of_not_lt hnew)] at hgiven
      exact Nat.lt_irrefl 0 hgiven
    have hcount := h.nodes p.node
    rw [if_pos hbelow] at hcount
    exact List.count_pos_iff.1 (by rw [Reference.owner, hcount]; exact Nat.one_pos)

theorem Resolves.owner (hr : g.Resolves r) : g.Resolves (.node r.owner) := by
  cases r with
  | node id => exact hr
  | port p =>
    obtain ⟨n, hn, _⟩ := resolves_port.1 hr
    exact resolves_node.2 ⟨n, hn⟩

/-- A reference that has stopped to resolve and is not handed out again does not resolve later. -/
theorem Course.gone {name : Option String} {seed : Seed} {g' : Graph}
    (h : Course { id := name, seed } past g) (hlater : g.Course later g') (hr : r ∈ past)
    (hgone : ¬ g.Resolves r) (hroomy : Roomy (past ++ later) r) : ¬ g'.Resolves r := by
  intro hr'
  have hagain : r ∈ later := (hlater.resolves h.issued.wellFormed hr').resolve_left hgone
  have honce := (h.trans hlater).issued.once hroomy
  rw [List.count_append] at honce
  have hfirst := List.count_pos_iff.2 hr
  have hsecond := List.count_pos_iff.2 hagain
  omega

/-- The references that a row of edits hands out. -/
def issuesOf (g : Graph) : List Edit → List Reference
  | [] => []
  | e :: edits => g.issues e ++ (g.after e).issuesOf edits

theorem Course.edits (h : g.Course past g') (edits : List Edit) :
    g.Course (past ++ g'.issuesOf edits) (edits.foldl Graph.after g') := by
  induction edits generalizing past g' with
  | nil => simpa [issuesOf] using h
  | cons e edits ih => simpa [issuesOf] using ih (h.edit e)

end Graph
end Terrain
