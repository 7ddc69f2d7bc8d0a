import Terrain.Proofs.Graph.Reached

/-! Mirrors of a graph, kept up to date from its journal alone. Replaying all changes that were ever
recorded leads from an empty mirror to what the graph is made of, whatever the edits were and
however often the journal was drained in between. -/
namespace Terrain

/-- Kinds with one signature have as many ports of each sort, and a list of one least length. -/
theorem Kind.counts_signature {k k' : Kind} (h : k.signature = k'.signature) :
    k.layout.inputs.length = k'.layout.inputs.length ∧
      k.layout.outputs.length = k'.layout.outputs.length ∧
        k.layout.dynamic.map (·.least) = k'.layout.dynamic.map (·.least) := by
  have hleast : ∀ k : Kind,
      k.layout.dynamic.map (·.least) = k.signature.dynamic.map fun _ => 2 := by
    intro k
    cases k <;> rfl
  refine ⟨?_, ?_, by rw [hleast, hleast, h]⟩
  · simpa [Kind.signature] using congrArg (·.inputs.length) h
  · simpa [Kind.signature] using congrArg (·.outputs.length) h

/-- The ports of the list that can grow that a new node of a kind has. -/
def Kind.firstPorts (k : Kind) : List PortId :=
  (List.range ((k.layout.dynamic.map (·.least)).getD 0)).map fun i =>
    .ofIndex (k.layout.inputs.length + k.layout.outputs.length + i)

theorem Kind.firstPorts_signature {k k' : Kind} (h : k.signature = k'.signature) :
    k.firstPorts = k'.firstPorts ∧ k.firstCount = k'.firstCount := by
  obtain ⟨hinputs, houtputs, hleast⟩ := Kind.counts_signature h
  simp only [firstPorts, firstCount, hinputs, houtputs, hleast, and_self]

/-- The first ports of the list are among those of a new node. -/
theorem Kind.lt_firstCount {k : Kind} {id : PortId} (h : id ∈ k.firstPorts) :
    ∃ i < k.firstCount, id = .ofIndex i := by
  obtain ⟨i, hi, rfl⟩ := List.mem_map.1 h
  exact ⟨_, Nat.add_lt_add_left (List.mem_range.1 hi) _, rfl⟩

namespace Node
variable {n n' : Node} {d : DynamicDecl}

/-- The ids of the ports by which a node has grown: those of its list that a new node of its kind
does not have. -/
def grown (n : Node) : List PortId :=
  (n.dynamic.map (·.id)).filter (· ∉ (create n.id n.kind n.seed).dynamic.map (·.id))

/-- The list of a new node is that of its kind. -/
theorem create_firstPorts (id : NodeId) (kind : Kind) (seed : Seed) :
    (create id kind seed).dynamic.map (·.id) = kind.firstPorts := by
  rw [create_eq, Kind.firstPorts]
  cases kind.layout.dynamic with
  | none =>
    rw [dynamic_bare]
    rfl
  | some d =>
    rw [(repeat_pushDynamic (bare id kind seed) d d.least).2.1, dynamic_bare]
    exact List.map_congr_left fun i _ => congrArg PortId.mk (UInt32.ofNat_add _ i).symm

theorem grown_eq (n : Node) : n.grown = (n.dynamic.map (·.id)).filter (· ∉ n.kind.firstPorts) := by
  rw [grown, create_firstPorts]

theorem grown_create (id : NodeId) (kind : Kind) (seed : Seed) :
    (create id kind seed).grown = [] := by
  rw [grown_eq, create_firstPorts, kind_create]
  simp

theorem Tunes.grown_eq (h : n.Tunes n') : n'.grown = n.grown := by
  rw [Node.grown_eq, Node.grown_eq, h.dynamic,
    (Kind.firstPorts_signature h.reworks.signature).1]

/-- A port that a node is given is not one of its first, as long as there are words enough. -/
theorem grown_pushDynamic {k : Nat} (h : n.Numbered k) (hfirst : n.kind.firstCount ≤ k)
    (hk : k < UInt32.size) : (n.pushDynamic d).grown = n.grown ++ [⟨n.nextPort⟩] := by
  have hnew : (⟨n.nextPort⟩ : PortId) ∉ n.kind.firstPorts := by
    intro hm
    obtain ⟨i, hi, heq⟩ := Kind.lt_firstCount hm
    have hik : i < k := Nat.lt_of_lt_of_le hi hfirst
    rw [h.next] at heq
    exact hik.ne (PortId.ofIndex_inj hk (hik.trans hk) heq).symm
  rw [grown_eq, grown_eq, kind_pushDynamic, dynamic_pushDynamic, List.map_append, List.filter_append]
  simp [DynamicDecl.port, hnew]

theorem grown_dropDynamic (id : PortId) : (n.dropDynamic d id).grown = n.grown.erase id := by
  have hkind : (n.dropDynamic d id).kind = n.kind := rfl
  have hports : (n.dropDynamic d id).dynamic.map (·.id) = (n.dynamic.map (·.id)).erase id := by
    have hsought : (fun i : PortId => id == i) ∘ (·.id) = fun p : Port => decide (p.id = id) :=
      funext fun p => decide_eq_decide.2 eq_comm
    rw [dynamic_dropDynamic, List.erase_eq_eraseP, List.eraseP_map, hsought]
    exact List.ext_getElem (by simp) fun i _ _ => by simp
  rw [grown_eq, grown_eq, hkind, hports, List.erase_filter]

end Node

/-- A picture of a graph: its nodes, each with the ports by which it has grown, and its
connections. -/
structure Mirror where
  nodes : List (NodeId × List PortId) := []
  connections : List Connection := []
  deriving DecidableEq

namespace Mirror

/-- Changes the ports of one node of a mirror. -/
def alter (m : Mirror) (id : NodeId) (f : List PortId → List PortId) : Mirror :=
  { m with nodes := m.nodes.map fun (i, ports) => if i = id then (i, f ports) else (i, ports) }

/-- Brings a mirror up to date with one change. -/
def note (m : Mirror) : Change → Mirror
  | .nodeAdded id => { m with nodes := m.nodes ++ [(id, [])] }
  | .nodeRemoved id _ =>
    { nodes := m.nodes.filter (·.1 ≠ id)
      connections := m.connections.filter fun c => c.source.node ≠ id && c.target.node ≠ id }
  | .connected c => { m with connections := m.connections ++ [c] }
  | .disconnected c => { m with connections := m.connections.erase c }
  | .portAdded p => m.alter p.node (· ++ [p.port])
  | .portRemoved p => m.alter p.node (·.erase p.port)
  | .paramsChanged _ | .seedChanged => m

@[simp] theorem map_fst_alter (m : Mirror) (id : NodeId) (f : List PortId → List PortId) :
    (m.alter id f).nodes.map (·.1) = m.nodes.map (·.1) := by
  rw [alter, List.map_map]
  exact List.map_congr_left fun (i, ports) _ => by simp only [Function.comp_apply]; split <;> rfl

theorem mem_alter {m : Mirror} {id : NodeId} {ports : List PortId} (h : (id, ports) ∈ m.nodes)
    (f : List PortId → List PortId) : (id, f ports) ∈ (m.alter id f).nodes :=
  List.mem_map.2 ⟨(id, ports), h, if_pos rfl⟩

/-- What a mirror has for a node stays while changes are not about the ports of the node. -/
theorem mem_note {m : Mirror} {i : NodeId} {ports : List PortId} (h : (i, ports) ∈ m.nodes)
    {c : Change} (hc : c.reshapes i = false) : (i, ports) ∈ (m.note c).nodes := by
  have kept : ∀ {id : NodeId} (f : List PortId → List PortId), decide (id = i) = false →
      (i, ports) ∈ (m.alter id f).nodes := fun f hne =>
    List.mem_map.2 ⟨(i, ports), h, if_neg (Ne.symm (of_decide_eq_false hne))⟩
  cases c with
  | nodeAdded id => exact List.mem_append_left _ h
  | nodeRemoved id readers =>
    exact List.mem_filter.2 ⟨h, decide_eq_true (Ne.symm (of_decide_eq_false hc))⟩
  | portAdded p => exact kept _ hc
  | portRemoved p => exact kept _ hc
  | _ => exact h

/-- The mirror that a row of changes leads to from an empty one. -/
def replay (changes : List Change) : Mirror := changes.foldl note {}

/-- The distinct nodes that read from a node, in whatever order. -/
def AreReaders (m : Mirror) (id : NodeId) (readers : List NodeId) : Prop :=
  readers.Nodup ∧ ∀ v, v ∈ readers ↔ ∃ c ∈ m.connections, c.source.node = id ∧ c.target.node = v

end Mirror

/-- Whether a change gives a port to a node. -/
def Change.addsPortTo (id : NodeId) : Change → Bool
  | .portAdded p => p.node = id
  | _ => false

theorem Change.addsPortTo_of_spared {c : Change} {id : NodeId} (h : c.reshapes id = false) :
    c.addsPortTo id = false := by
  cases c with
  | portAdded p => exact h
  | _ => rfl

namespace Node
variable {n n' : Node} {c : Change} {all : List Change}

/-- The number of ports that a node was given, as all changes that were ever recorded tell. -/
def given (n : Node) (all : List Change) : Nat :=
  n.kind.firstCount + all.countP (·.addsPortTo n.id)

theorem given_snoc_of (h : c.addsPortTo n.id = true) :
    n.given (all ++ [c]) = n.given all + 1 := by
  simp [given, h, Nat.add_assoc]

theorem given_snoc_of_not (h : c.addsPortTo n.id = false) :
    n.given (all ++ [c]) = n.given all := by
  simp [given, h]

theorem given_pushDynamic (n : Node) (d : DynamicDecl) (port : PortId) :
    (n.pushDynamic d).given (all ++ [.portAdded ⟨n.id, port⟩]) = n.given all + 1 :=
  given_snoc_of (decide_eq_true rfl)

theorem given_dropDynamic (n : Node) (d : DynamicDecl) (port : PortId) :
    (n.dropDynamic d port).given (all ++ [.portRemoved ⟨n.id, port⟩]) = n.given all :=
  given_snoc_of_not rfl

theorem Tunes.given (h : n.Tunes n') (all : List Change) : n'.given all = n.given all := by
  rw [Node.given, Node.given, (Kind.firstPorts_signature h.reworks.signature).2, h.reworks.id]

end Node

namespace Graph

variable {g g' : Graph} {c : Change} {all : List Change}

theorem nodup_eraseDups {α : Type} [DecidableEq α] (xs : List α) : xs.eraseDups.Nodup := by
  match xs with
  | [] => simp
  | x :: xs =>
    rw [List.eraseDups_cons, List.nodup_cons]
    exact ⟨by simp, nodup_eraseDups _⟩
termination_by xs.length
decreasing_by
  exact Nat.lt_succ_of_le (List.length_filter_le _ _)

theorem readers_areReaders {m : Mirror} (h : m.connections = g.connections) (id : NodeId) :
    m.AreReaders id (g.readers id) :=
  ⟨nodup_eraseDups _, fun _ => by rw [h]; exact mem_readers⟩

theorem eraseP_eq_erase {α : Type} [DecidableEq α] {p : α → Bool} {x : α} {xs : List α}
    (h : xs.find? p = some x) : xs.eraseP p = xs.erase x := by
  have hx : p x = true := List.find?_some h
  induction xs with
  | nil => rfl
  | cons y xs ih =>
    by_cases hy : p y = true
    · rw [List.find?_cons_of_pos hy, Option.some.injEq] at h
      rw [List.eraseP_cons_of_pos hy, h, List.erase_cons_head]
    · rw [List.find?_cons_of_neg hy] at h
      have hne : y ≠ x := fun heq => hy (heq ▸ hx)
      rw [List.eraseP_cons_of_neg hy, List.erase_cons_tail (by simpa using hne), ih h]

/-- The changes that were ever recorded tell how many ports each node was given, and none was given
to a node that is still to come. -/
structure Tallied (g : Graph) (all : List Change) : Prop where
  numbered : ∀ n ∈ g.nodes, n.Numbered (n.given all)
  unknown : ∀ id : NodeId, g.nextNode ≤ id.index → all.countP (·.addsPortTo id) = 0

theorem Stroke.nextNode_le (h : g.Stroke c g') : g.nextNode ≤ g'.nextNode := by
  cases h with
  | push kind seed => exact Nat.le_succ _
  | unplug c held => exact (nextNode_unplug g c.target).ge
  | _ => exact Nat.le_refl _

theorem Stroke.tallied (h : g.Stroke c g') (hg : g.WellFormed) (ht : g.Tallied all) :
    g'.Tallied (all ++ [c]) where
  numbered n' hn' := by
    cases h.descends hg hn' with
    | kept old spared =>
      rw [Node.given_snoc_of_not (Change.addsPortTo_of_spared spared)]
      exact ht.numbered n' old
    | new kind seed =>
      obtain ⟨hnext, hports⟩ := Node.create_numbered ⟨g.nextNode⟩ kind seed
      have hgiven : (Node.create ⟨g.nextNode⟩ kind seed).given all = kind.firstCount := by
        rw [Node.given, Node.id_create, Node.kind_create, ht.unknown _ (Nat.le_refl _)]
        rfl
      rw [Node.given_snoc_of_not rfl, hgiven]
      exact ⟨hnext, hports.subperm⟩
    | @tuned n _ old tunes =>
      rw [Node.given_snoc_of_not rfl, tunes.given]
      exact (ht.numbered n old).of_sublist tunes.nextPort (tunes.portIds ▸ .refl _)
    | grown n d old =>
      rw [n.given_pushDynamic d]
      exact (ht.numbered n old).push d
    | shrunk n d port old =>
      rw [n.given_dropDynamic d]
      exact (ht.numbered n old).of_sublist rfl (n.portIds_dropDynamic d port)
  unknown id hid := by
    have hid := Nat.le_trans h.nextNode_le hid
    have hquiet : c.addsPortTo id = false := by
      cases h with
      | grow id' n d node decl =>
        refine decide_eq_false ?_
        rintro rfl
        exact absurd (hg.below id' (mem_nodeIds.2 ⟨n, node⟩)) (Nat.not_lt.2 hid)
      | _ => rfl
    rw [List.countP_append, ht.unknown id hid, List.countP_singleton, hquiet]
    rfl

/-- A graph with all changes that it has ever recorded: replaying them leads to its nodes and to its
connections, in their order, and for each node that was given no more ports than there are words to
the ports by which it has grown; each removal among the changes names the nodes that read from the
removed node then, and the revision counts them. -/
structure Recorded (g : Graph) (all : List Change) : Prop where
  nodes : (Mirror.replay all).nodes.map (·.1) = g.nodeIds
  ports : ∀ n ∈ g.nodes, n.given all ≤ UInt32.size → (n.id, n.grown) ∈ (Mirror.replay all).nodes
  connections : (Mirror.replay all).connections = g.connections
  readers : ∀ before id readers rest, all = before ++ .nodeRemoved id readers :: rest →
    (Mirror.replay before).AreReaders id readers
  counts : g.revision = all.length

/-- A stroke does to the nodes and to the connections what noting its change does to those of a
mirror. -/
theorem Stroke.notes (h : g.Stroke c g') (hg : g.WellFormed) {m : Mirror}
    (hnodes : m.nodes.map (·.1) = g.nodeIds) (hconnections : m.connections = g.connections) :
    (m.note c).nodes.map (·.1) = g'.nodeIds ∧ (m.note c).connections = g'.connections := by
  have modified : ∀ {id : NodeId} {n : Node} (f : Node → Node), g.node? id = some n →
      (f n).id = n.id → m.nodes.map (·.1) = (g.modifyNode id f).nodeIds := by
    intro id n f hn hf
    rw [hnodes]
    exact (nodeIds_modifyNode fun m hm hid => (hg.eq_of_node? hn hm hid).symm ▸ hf).symm
  cases h with
  | detach id =>
    constructor
    · change (m.nodes.filter _).map _ = (g.nodes.filter _).map _
      have hkept := congrArg (List.filter (· ≠ id)) hnodes
      rwa [nodeIds, List.filter_map, List.filter_map] at hkept
    · simp only [Mirror.note, hconnections]
      rfl
  | push kind seed =>
    exact ⟨by simpa [Mirror.note, nodeIds, withNode] using hnodes, hconnections⟩
  | unplug c held =>
    rw [unplug_of_held held]
    refine ⟨hnodes, ?_⟩
    simp only [Mirror.note, hconnections]
    exact (eraseP_eq_erase held).symm
  | plug c m n output input joins free =>
    exact ⟨hnodes, congrArg (· ++ [c]) hconnections⟩
  | tune id n f node tunes => exact ⟨modified f node tunes.reworks.id, hconnections⟩
  | grow id n d node decl =>
    exact ⟨(Mirror.map_fst_alter ..).trans (modified (·.pushDynamic d) node rfl), hconnections⟩
  | shrink p n d node free =>
    exact ⟨(Mirror.map_fst_alter ..).trans (modified (·.dropDynamic d p.port) node rfl),
      hconnections⟩
  | reseed seed => exact ⟨hnodes, hconnections⟩

/-- What a stroke does to the ports of a node is what noting its change does to those that a mirror
has for it, as long as there are words enough. -/
theorem Descends.notes {n' : Node} (h : g.Descends c n') (ht : g.Tallied all) {m : Mirror}
    (hm : ∀ n ∈ g.nodes, n.given all ≤ UInt32.size → (n.id, n.grown) ∈ m.nodes)
    (hgiven : n'.given (all ++ [c]) ≤ UInt32.size) : (n'.id, n'.grown) ∈ (m.note c).nodes := by
  cases h with
  | kept old spared =>
    rw [Node.given_snoc_of_not (Change.addsPortTo_of_spared spared)] at hgiven
    exact Mirror.mem_note (hm n' old hgiven) spared
  | new kind seed =>
    rw [Node.id_create, Node.grown_create]
    exact List.mem_append_right _ (List.mem_singleton.2 rfl)
  | @tuned n _ old tunes =>
    rw [Node.given_snoc_of_not rfl, tunes.given] at hgiven
    rw [tunes.reworks.id, tunes.grown_eq]
    exact hm n old hgiven
  | grown n d old =>
    rw [n.given_pushDynamic d] at hgiven
    rw [Node.grown_pushDynamic (ht.numbered n old) (Nat.le_add_right _ _) hgiven]
    exact Mirror.mem_alter (hm n old (Nat.le_of_succ_le hgiven)) (· ++ [⟨n.nextPort⟩])
  | shrunk n d port old =>
    rw [n.given_dropDynamic d] at hgiven
    rw [Node.grown_dropDynamic]
    exact Mirror.mem_alter (hm n old hgiven) (·.erase port)

theorem Stroke.recorded (h : g.Stroke c g') (hg : g.WellFormed) (ht : g.Tallied all)
    (hr : g.Recorded all) : g'.Recorded (all ++ [c]) := by
  have hreplay : Mirror.replay (all ++ [c]) = (Mirror.replay all).note c := by
    rw [Mirror.replay, List.foldl_append, List.foldl_cons, List.foldl_nil, Mirror.replay]
  obtain ⟨hnodes, hconnections⟩ := h.notes hg hr.nodes hr.connections
  refine ⟨hreplay ▸ hnodes, fun n hn hgiven => ?_, hreplay ▸ hconnections,
    fun before id readers rest heq => ?_, ?_⟩
  · exact hreplay ▸ (h.descends hg hn).notes ht hr.ports hgiven
  · rcases List.eq_nil_or_concat rest with rfl | ⟨rest, last, rfl⟩
    · obtain ⟨rfl, hc⟩ := List.append_inj' heq rfl
      cases hc
      cases h
      exact readers_areReaders hr.connections id
    · rw [List.concat_eq_append, ← List.cons_append, ← List.append_assoc] at heq
      exact hr.readers before id readers rest (List.append_inj' heq rfl).1
  · rw [h.records.2, hr.counts, List.length_append, List.length_singleton]

theorem Strokes.recorded {new : List Change} (h : Strokes g new g') (hg : g.WellFormed)
    (ht : g.Tallied all) (hr : g.Recorded all) :
    g'.Tallied (all ++ new) ∧ g'.Recorded (all ++ new) := by
  induction h generalizing all with
  | nil => exact ⟨by rwa [List.append_nil], by rwa [List.append_nil]⟩
  | @cons g g' g'' c new hs _ ih =>
    have hr := ih ((hs.step hg).wellFormed hg) (hs.tallied hg ht) (hs.recorded hg ht hr)
    rwa [List.append_assoc] at hr

/-- The graphs that edits lead to from a fresh one, each with the changes that were drained from its
journal on the way there. Edits may be refused. -/
inductive Archived : List Change → Graph → Prop
  | fresh (name : Option String) (seed : Seed) : Archived [] { id := name, seed }
  | edit {past : List Change} {g : Graph} (h : Archived past g) (e : Edit) :
      Archived past (g.after e)
  | drain {past : List Change} {g : Graph} (h : Archived past g) :
      Archived (past ++ g.drain.1) g.drain.2

theorem Archived.edits {past : List Change} (h : Archived past g) (edits : List Edit) :
    Archived past (edits.foldl after g) := by
  induction edits generalizing g with
  | nil => exact h
  | cons e edits ih => exact ih (h.edit e)

theorem Archived.wellFormed {past : List Change} (h : Archived past g) : g.WellFormed := by
  induction h with
  | fresh name seed => exact new_wellFormed name seed
  | edit _ e ih => exact after_wellFormed ih e
  | drain _ ih => exact ih.drain

theorem Archived.tallied {past : List Change} (h : Archived past g) :
    g.Tallied (past ++ g.changes) ∧ g.Recorded (past ++ g.changes) := by
  induction h with
  | fresh name seed =>
    have hnone : ∀ n ∈ ({ id := name, seed } : Graph).nodes, False := fun _ => List.not_mem_nil
    refine ⟨⟨fun n hn => (hnone n hn).elim, fun _ _ => rfl⟩, rfl, fun n hn => (hnone n hn).elim, rfl,
      fun before id readers rest heq => ?_, rfl⟩
    simp at heq
  | @edit past g h e ih =>
    obtain ⟨new, hs⟩ := strokes_after h.wellFormed e
    rw [hs.records.1, ← List.append_assoc]
    exact hs.recorded h.wellFormed ih.1 ih.2
  | @drain past g h ih =>
    obtain ⟨ht, hr⟩ := ih
    rw [show g.drain.2.changes = [] from rfl, List.append_nil]
    exact ⟨⟨ht.numbered, ht.unknown⟩, hr.nodes, hr.ports, hr.connections, hr.readers, hr.counts⟩

end Graph
end Terrain
