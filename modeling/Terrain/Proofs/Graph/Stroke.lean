import Terrain.Proofs.Graph.Step

/-! The strokes of the journal: elementary steps that record one change each. What the journal says
of a graph is shown of each stroke, and what an edit does is a row of strokes. -/
namespace Terrain

namespace Node
variable {n n' : Node}

/-- A rework of a node that leaves all of its ports in their places. -/
structure Tunes (n n' : Node) : Prop where
  reworks : n.Reworks n' fun _ => True
  dynamic : n'.dynamic.map (·.id) = n.dynamic.map (·.id)
  portIds : n'.portIds = n.portIds
  nextPort : n'.nextPort = n.nextPort

theorem tunes_setLiteral (id : PortId) (literal : Literal) : n.Tunes (n.setLiteral id literal) where
  reworks := reworks_setLiteral id literal
  dynamic := (map_setLiteral_parts n id literal (·.id) fun _ _ => rfl).2
  portIds := portIds_setLiteral n id literal
  nextPort := rfl

theorem tunes_kind {kind : Kind} (hk : kind.signature = n.kind.signature) :
    n.Tunes { n with kind } :=
  ⟨reworks_kind hk, rfl, rfl, rfl⟩

theorem tunes_seed (seed : Seed) : n.Tunes { n with seed } := ⟨reworks_seed seed, rfl, rfl, rfl⟩

end Node

/-- Whether a change removes a node, or is about which ports it has. -/
def Change.reshapes (id : NodeId) : Change → Bool
  | .nodeRemoved removed _ => removed = id
  | .portAdded p | .portRemoved p => p.node = id
  | _ => false

namespace Graph

variable {g g' g'' : Graph} {c : Change} {new new' : List Change}

/-- A step that records one change. -/
inductive Stroke (g : Graph) : Change → Graph → Prop
  | detach (id : NodeId) : Stroke g (.nodeRemoved id (g.readers id)) (g.detach id)
  | push (kind : Kind) (seed : Seed) :
      Stroke g (.nodeAdded ⟨g.nextNode⟩)
        ((g.withNode (.create ⟨g.nextNode⟩ kind seed)).record (.nodeAdded ⟨g.nextNode⟩))
  | unplug (c : Connection) (held : g.connectionTo? c.target = some c) :
      Stroke g (.disconnected c) (g.unplug c.target)
  | plug (c : Connection) (m n : Node) (output input : Port) (joins : g.Joins c m n output input)
      (free : g.connectionTo? c.target = none) :
      Stroke g (.connected c) ((g.withConnection c).record (.connected c))
  | tune (id : NodeId) (n : Node) (f : Node → Node) (node : g.node? id = some n)
      (tunes : n.Tunes (f n)) :
      Stroke g (.paramsChanged id) ((g.modifyNode id f).record (.paramsChanged id))
  | grow (id : NodeId) (n : Node) (d : DynamicDecl) (node : g.node? id = some n)
      (decl : n.kind.layout.dynamic = some d) :
      Stroke g (.portAdded ⟨id, ⟨n.nextPort⟩⟩)
        ((g.modifyNode id (·.pushDynamic d)).record (.portAdded ⟨id, ⟨n.nextPort⟩⟩))
  | shrink (p : PortRef) (n : Node) (d : DynamicDecl) (node : g.node? p.node = some n)
      (free : g.connectionTo? p = none) :
      Stroke g (.portRemoved p)
        ((g.modifyNode p.node (·.dropDynamic d p.port)).record (.portRemoved p))
  | reseed (seed : Seed) : Stroke g .seedChanged ({ g with seed }.record .seedChanged)

theorem unplug_of_held {old : Connection} {target : PortRef}
    (h : g.connectionTo? target = some old) : g.unplug target =
      ({ g with connections := g.connections.eraseP (·.target = target) } : Graph).record
        (.disconnected old) := by
  rw [unplug, h]

/-- A stroke records the change that it is called by. -/
theorem Stroke.records (h : g.Stroke c g') :
    g'.changes = g.changes ++ [c] ∧ g'.revision = g.revision + 1 := by
  cases h with
  | unplug c held =>
    rw [unplug_of_held held]
    exact ⟨rfl, rfl⟩
  | _ => exact ⟨rfl, rfl⟩

/-- Every stroke is a step. -/
theorem Stroke.step (h : g.Stroke c g') (hg : g.WellFormed) : g.Step g' := by
  cases h with
  | detach id => exact .detach id
  | push kind seed =>
    have hpush := Step.push (g := g) _ (Node.id_create _ kind seed) (Node.create_fits _ _ _)
    rwa [Node.id_create] at hpush
  | unplug c held => exact .unplug c.target
  | plug c m n output input joins free => exact .plug c m n output input joins free
  | tune id n f node tunes =>
    refine .rework id f _ (fun _ => True) (fun m hm hid => ?_) (fun _ _ _ => trivial) rfl
    exact hg.eq_of_node? node hm hid ▸ tunes.reworks
  | grow id n d node decl =>
    refine .rework id _ _ (fun port => (n.input? port).isSome) (fun m hm hid => ?_)
      (fun c hc ht => ?_) rfl
    · obtain rfl := hg.eq_of_node? node hm hid
      exact Node.reworks_pushDynamic (hg.fits m hm) decl fun _ h => h
    · obtain ⟨_, _, _, input, hj⟩ := hg.joins c hc
      have hnode := hj.targetNode
      rw [ht, node] at hnode
      cases hnode
      rw [hj.targetPort]
      rfl
  | shrink p n d node free =>
    refine .rework p.node _ _ (· ≠ p.port) (fun m hm hid => Node.reworks_dropDynamic d p.port)
      (fun c hc ht hp => ?_) rfl
    have hcp : c.target = p := by
      cases hct : c.target
      simp_all
    exact List.find?_eq_none.1 free c hc (by simp [hcp])
  | reseed seed => exact .reseed seed

/-- Where a node of the graph after a stroke comes from: it is there already and the change is not
about its ports, or the change says what has become of them. -/
inductive Descends (g : Graph) : Change → Node → Prop
  | kept {c : Change} {n : Node} (old : n ∈ g.nodes) (spared : c.reshapes n.id = false) :
      Descends g c n
  | new (kind : Kind) (seed : Seed) :
      Descends g (.nodeAdded ⟨g.nextNode⟩) (.create ⟨g.nextNode⟩ kind seed)
  | tuned {n n' : Node} (old : n ∈ g.nodes) (tunes : n.Tunes n') :
      Descends g (.paramsChanged n.id) n'
  | grown (n : Node) (d : DynamicDecl) (old : n ∈ g.nodes) :
      Descends g (.portAdded ⟨n.id, ⟨n.nextPort⟩⟩) (n.pushDynamic d)
  | shrunk (n : Node) (d : DynamicDecl) (port : PortId) (old : n ∈ g.nodes) :
      Descends g (.portRemoved ⟨n.id, port⟩) (n.dropDynamic d port)

theorem Stroke.descends (h : g.Stroke c g') (hg : g.WellFormed) {n' : Node}
    (hn' : n' ∈ g'.nodes) : g.Descends c n' := by
  cases h with
  | detach id =>
    obtain ⟨hn', hne⟩ := List.mem_filter.1 hn'
    exact .kept hn' (decide_eq_false (Ne.symm (of_decide_eq_true hne)))
  | push kind seed =>
    rcases List.mem_append.1 hn' with hn' | hn'
    · exact .kept hn' rfl
    · obtain rfl := List.mem_singleton.1 hn'
      exact .new kind seed
  | unplug c held => exact .kept (nodes_unplug g c.target ▸ hn') rfl
  | plug c m n output input joins free => exact .kept hn' rfl
  | tune id n f node tunes =>
    rcases hg.mem_modifyNode node hn' with rfl | ⟨hn', -⟩
    · exact id_of_node? node ▸ .tuned (mem_of_node? node) tunes
    · exact .kept hn' rfl
  | grow id n d node decl =>
    rcases hg.mem_modifyNode node hn' with rfl | ⟨hn', hne⟩
    · exact id_of_node? node ▸ .grown n d (mem_of_node? node)
    · exact .kept hn' (decide_eq_false (Ne.symm hne))
  | shrink p n d node free =>
    obtain ⟨id, port⟩ := p
    rcases hg.mem_modifyNode node hn' with rfl | ⟨hn', hne⟩
    · obtain rfl : n.id = id := id_of_node? node
      exact .shrunk n d port (mem_of_node? node)
    · exact .kept hn' (decide_eq_false (Ne.symm hne))
  | reseed seed => exact .kept hn' rfl

/-- A row of strokes, with the changes that they record. -/
inductive Strokes : Graph → List Change → Graph → Prop
  | nil (g : Graph) : Strokes g [] g
  | cons {g g' g'' : Graph} {c : Change} {new : List Change} (h : g.Stroke c g')
      (rest : Strokes g' new g'') : Strokes g (c :: new) g''

namespace Strokes

theorem single (h : g.Stroke c g') : Strokes g [c] g' := .cons h (.nil g')

theorem append (h : Strokes g new g') (h' : Strokes g' new' g'') : Strokes g (new ++ new') g'' := by
  induction h with
  | nil => exact h'
  | cons hs _ ih => exact .cons hs (ih h')

theorem records (h : Strokes g new g') :
    g'.changes = g.changes ++ new ∧ g'.revision = g.revision + new.length := by
  induction h with
  | nil => exact ⟨(List.append_nil _).symm, rfl⟩
  | cons hs _ ih =>
    obtain ⟨hchanges, hrevision⟩ := hs.records
    rw [ih.1, ih.2, hchanges, hrevision, List.append_assoc, List.length_cons]
    exact ⟨rfl, by omega⟩

end Strokes

end Graph
end Terrain
