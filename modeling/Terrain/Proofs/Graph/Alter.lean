import Terrain.Proofs.Graph.Edit

/-! What an edit can do to the nodes of a graph, said once for all edits, together with the
references that it hands out: a new node with its first ports, or one more port of a list that can
grow. Everything else leaves to each node that is left the ports it had, or takes some away. -/
namespace Terrain

/-- What a caller keeps to name a node, or a port of one. -/
inductive Reference
  | node (id : NodeId)
  | port (p : PortRef)
  deriving DecidableEq

namespace Reference

/-- The node that is named, or that the port that is named belongs to. -/
def owner : Reference → NodeId
  | node id => id
  | port p => p.node

def isPortOf (id : NodeId) : Reference → Bool
  | node _ => false
  | port p => p.node = id

end Reference

namespace Node
variable {n n' : Node}

/-- The references to a node and to its ports. -/
def references (n : Node) : List Reference :=
  .node n.id :: n.portIds.map fun port => .port ⟨n.id, port⟩

/-- What an edit can make of a node but for a port more. -/
inductive Turns (n : Node) : Node → Prop
  | drop (d : DynamicDecl) (id : PortId) (decl : n.kind.layout.dynamic = some d) (port : Port)
      (input : n.input? id = some port) (listed : port.dynamic = true)
      (spare : d.least < n.dynamic.length) : Turns n (n.dropDynamic d id)
  | kind (kind : Kind) (signature : kind.signature = n.kind.signature) : Turns n { n with kind }
  | literal (id : PortId) (literal : Literal) (port : Port) (input : n.input? id = some port)
      (accepts : port.type.accepts literal = true) : Turns n (n.setLiteral id literal)
  | seed (seed : Seed) : Turns n { n with seed }

theorem Turns.id_eq (h : n.Turns n') : n'.id = n.id := by
  cases h <;> rfl

theorem Turns.nextPort (h : n.Turns n') : n'.nextPort = n.nextPort := by
  cases h <;> rfl

/-- No port is new where a node is turned. -/
theorem Turns.portIds_sublist (h : n.Turns n') : n'.portIds.Sublist n.portIds := by
  cases h with
  | drop d id decl port input listed spare => exact portIds_dropDynamic n d id
  | literal id literal port input accepts => rw [portIds_setLiteral]
  | kind kind signature => exact .refl _
  | seed seed => exact .refl _

theorem Turns.numbered {k : Nat} (h : n.Turns n') (hn : n.Numbered k) : n'.Numbered k :=
  hn.of_sublist h.nextPort h.portIds_sublist

end Node

namespace Graph
variable {g g' : Graph} {id : NodeId} {p : PortRef}

/-- A reference finds what it names. -/
def Resolves (g : Graph) : Reference → Prop
  | .node id => ∃ n, g.findNode id = .ok n
  | .port p => ∃ found, g.findPort p = .ok found

/-- The references that an edit hands out: to a node that is added and to the ports it begins with,
or to a port that is added. -/
def issues (g : Graph) (e : Edit) : List Reference :=
  match e, g.perform e with
  | .addNode _, .ok (.node id, g') => ((g'.node? id).map Node.references).getD []
  | .addPort id _, .ok (.port port, _) => [.port ⟨id, port⟩]
  | _, _ => []

/-- What an edit does to the nodes, with the references that it hands out. -/
inductive Alters (g : Graph) : List Reference → Graph → Prop
  | lose {g' : Graph} (nodes : g'.nodes.Sublist g.nodes) (next : g'.nextNode = g.nextNode) :
      Alters g [] g'
  | add (kind : Kind) (seed : Seed) (rest : List Node) {g' : Graph} (left : rest.Sublist g.nodes)
      (nodes : g'.nodes = rest ++ [.create ⟨g.nextNode⟩ kind seed])
      (next : g'.nextNode = g.nextNode + 1) :
      Alters g (Node.create ⟨g.nextNode⟩ kind seed).references g'
  | grow (id : NodeId) (n : Node) (d : DynamicDecl) {g' : Graph} (node : g.node? id = some n)
      (decl : n.kind.layout.dynamic = some d)
      (nodes : g'.nodes = (g.modifyNode id (·.pushDynamic d)).nodes)
      (next : g'.nextNode = g.nextNode) : Alters g [.port ⟨id, ⟨n.nextPort⟩⟩] g'
  | turn (id : NodeId) (n : Node) (f : Node → Node) {g' : Graph} (node : g.node? id = some n)
      (turns : n.Turns (f n)) (nodes : g'.nodes = (g.modifyNode id f).nodes)
      (next : g'.nextNode = g.nextNode) : Alters g [] g'

/-- Where a node of the graph after an edit comes from. -/
inductive Origin (g : Graph) (handed : List Reference) : Node → Prop
  | kept {n : Node} (old : n ∈ g.nodes) : Origin g handed n
  | new (kind : Kind) (seed : Seed)
      (issued : handed = (Node.create ⟨g.nextNode⟩ kind seed).references) :
      Origin g handed (.create ⟨g.nextNode⟩ kind seed)
  | grown (n : Node) (d : DynamicDecl) (old : n ∈ g.nodes)
      (decl : n.kind.layout.dynamic = some d) (issued : handed = [.port ⟨n.id, ⟨n.nextPort⟩⟩]) :
      Origin g handed (n.pushDynamic d)
  | turned {n n' : Node} (old : n ∈ g.nodes) (turns : n.Turns n') : Origin g handed n'

/-- What an edit does to the nodes, read off node by node. -/
theorem Alters.origin {handed : List Reference} (h : g.Alters handed g') (hg : g.WellFormed)
    {n' : Node} (hn' : n' ∈ g'.nodes) : g.Origin handed n' := by
  cases h with
  | lose nodes next => exact .kept (nodes.subset hn')
  | add kind seed rest left nodes next =>
    rw [nodes] at hn'
    rcases List.mem_append.1 hn' with hn' | hn'
    · exact .kept (left.subset hn')
    · obtain rfl := List.mem_singleton.1 hn'
      exact .new kind seed rfl
  | grow id n d node decl nodes next =>
    rcases hg.mem_modifyNode node (nodes ▸ hn') with rfl | ⟨hn', _⟩
    · exact .grown n d (mem_of_node? node) decl (by rw [id_of_node? node])
    · exact .kept hn'
  | turn id n f node turns nodes next =>
    rcases hg.mem_modifyNode node (nodes ▸ hn') with rfl | ⟨hn', _⟩
    · exact .turned (mem_of_node? node) turns
    · exact .kept hn'

theorem resolves_node : g.Resolves (.node id) ↔ ∃ n, g.node? id = some n := by
  simp only [Resolves, findNode_eq_ok]

theorem resolves_port :
    g.Resolves (.port p) ↔ ∃ n, g.node? p.node = some n ∧ p.port ∈ n.portIds := by
  constructor
  · rintro ⟨⟨direction, port⟩, h⟩
    obtain ⟨n, hn, h⟩ := findPort_eq_ok h
    refine ⟨n, hn, ?_⟩
    have found : ∀ {ports : List Port}, ports.find? (·.id = p.port) = some port →
        p.port ∈ ports.map (·.id) := fun h => List.mem_map.2
      ⟨port, List.mem_of_find?_eq_some h, by simpa using List.find?_some h⟩
    simp only [Node.portIds, List.map_append, List.mem_append]
    cases direction with
    | input => exact .inl (found h)
    | output => exact .inr (found h)
  · rintro ⟨n, hn, hp⟩
    have found : ∀ {ports : List Port}, p.port ∈ ports.map (·.id) →
        ∃ port, ports.find? (·.id = p.port) = some port := by
      intro ports h
      obtain ⟨port, hport, hid⟩ := List.mem_map.1 h
      exact Option.isSome_iff_exists.1 (List.find?_isSome.2 ⟨port, hport, by simp [hid]⟩)
    have hfind : g.findNode p.node = .ok n := findNode_eq_ok.2 hn
    cases hi : n.input? p.port with
    | some port => exact ⟨(.input, port), Except.bind_eq_ok.2 ⟨n, hfind, by simp only [hi]; rfl⟩⟩
    | none =>
      have hout : p.port ∈ n.outputs.map (·.id) := by
        rw [Node.portIds, List.map_append, List.mem_append] at hp
        refine hp.resolve_left fun hin => ?_
        obtain ⟨port, hport⟩ := found hin
        exact Option.some_ne_none port (hport.symm.trans hi)
      obtain ⟨port, ho⟩ := found hout
      refine ⟨(.output, port), Except.bind_eq_ok.2 ⟨n, hfind, ?_⟩⟩
      simp only [hi, Node.output?, ho]
      rfl

theorem nodes_foldl_detach (g : Graph) (ids : List NodeId) :
    (ids.foldl detach g).nodes.Sublist g.nodes ∧ (ids.foldl detach g).nextNode = g.nextNode := by
  induction ids generalizing g with
  | nil => exact ⟨.refl _, rfl⟩
  | cons id ids ih =>
    obtain ⟨hnodes, hnext⟩ := ih (g.detach id)
    exact ⟨hnodes.trans List.filter_sublist, hnext⟩

theorem alters_addNode (hg : g.WellFormed) (kind : Kind) :
    g.Alters (g.issues (.addNode kind)) (g.addNode kind).2 := by
  obtain ⟨hnodes, hnext⟩ := nodes_foldl_detach g (g.replacedBy kind)
  have hfree : ((g.replacedBy kind).foldl detach g).node? ⟨g.nextNode⟩ = none := by
    refine List.find?_eq_none.2 fun n hn => ?_
    have hbelow := hg.below n.id (List.mem_map_of_mem (hnodes.subset hn))
    simp only [decide_eq_true_eq]
    rintro heq
    exact Nat.lt_irrefl _ (heq ▸ hbelow)
  have hnew : (g.addNode kind).2.node? ⟨g.nextNode⟩ =
      some (.create ⟨g.nextNode⟩ kind (Seed.ofIndex g.nextNode)) := by
    have := node?_withNode ((g.replacedBy kind).foldl detach g)
      (.create ⟨g.nextNode⟩ kind (Seed.ofIndex g.nextNode)) ⟨g.nextNode⟩
    rw [hfree, Node.id_create, if_pos rfl, Option.none_or] at this
    simp only [addNode, hnext]
    exact this
  have hid : (g.addNode kind).1 = ⟨g.nextNode⟩ := congrArg NodeId.mk hnext
  have hissues : g.issues (.addNode kind) =
      (Node.create ⟨g.nextNode⟩ kind (Seed.ofIndex g.nextNode)).references := by
    simp only [issues, perform, hid, hnew, Option.map_some, Option.getD_some]
  rw [hissues]
  refine .add kind _ _ hnodes ?_ ?_
  · simp only [addNode, hnext, nodes_record]
  · exact congrArg (· + 1) hnext

theorem alters_removeNode (h : g.removeNode id = .ok g') : g.Alters [] g' := by
  obtain ⟨n, _, h⟩ := Except.bind_eq_ok.1 h
  have hdetach : g.Alters [] (g.detach id) := .lose List.filter_sublist rfl
  split at h
  · split at h
    · cases h
    · cases h
      exact hdetach
  · cases h
    exact hdetach

theorem alters_of_nodes (h : g'.nodes = g.nodes ∧ g'.nextNode = g.nextNode) : g.Alters [] g' :=
  .lose (h.1 ▸ .refl _) h.2

theorem alters_editNode {kind : Kind} (h : g.editNode id kind = .ok g') : g.Alters [] g' := by
  obtain ⟨n, hn, h⟩ := Except.bind_eq_ok.1 h
  simp only [Except.guard_eq_ok, not_not] at h
  obtain ⟨hsignature, h⟩ := h
  split at h
  · cases h
    exact alters_of_nodes ⟨rfl, rfl⟩
  · cases h
    exact .turn id n _ (findNode_eq_ok.1 hn) (.kind kind hsignature) rfl rfl

theorem alters_addPort {type : PortType} {port : PortId}
    (h : g.addPort id type = .ok (port, g')) : g.Alters [.port ⟨id, port⟩] g' := by
  obtain ⟨n, hn, h⟩ := Except.bind_eq_ok.1 h
  cases hd : n.kind.layout.dynamic with
  | none =>
    simp only [hd] at h
    cases h
  | some d =>
    simp only [hd, Except.guard_eq_ok] at h
    cases h.2
    exact .grow id n d (findNode_eq_ok.1 hn) hd rfl rfl

theorem alters_removePort (h : g.removePort p = .ok g') : g.Alters [] g' := by
  obtain ⟨n, hn, h⟩ := Except.bind_eq_ok.1 h
  cases hd : n.kind.layout.dynamic with
  | none =>
    simp only [hd] at h
    cases h
  | some d =>
    simp only [hd, Except.guard_eq_ok, Bool.not_eq_true', Bool.not_eq_false, Option.any_eq_true,
      Nat.not_le] at h
    obtain ⟨⟨port, hport, hlisted⟩, hspare, h⟩ := h
    cases h
    exact .turn p.node n _ (findNode_eq_ok.1 hn) (.drop d p.port hd port hport hlisted hspare)
      (nodes_unplug _ p) (nextNode_unplug _ p)

theorem alters_setLiteral {literal : Literal} (h : g.setLiteral p literal = .ok g') :
    g.Alters [] g' := by
  obtain ⟨n, hn, h⟩ := Except.bind_eq_ok.1 h
  cases hp : n.input? p.port with
  | none =>
    simp only [hp] at h
    cases h
  | some port =>
    simp only [hp, Except.guard_eq_ok, Bool.not_eq_true', Bool.not_eq_false] at h
    obtain ⟨haccepts, h⟩ := h
    cases h
    exact .turn p.node n _ (findNode_eq_ok.1 hn) (.literal p.port literal port hp haccepts) rfl rfl

theorem alters_setNodeSeed {seed : Seed} (h : g.setNodeSeed id seed = .ok g') :
    g.Alters [] g' := by
  obtain ⟨n, hn, h⟩ := Except.bind_eq_ok.1 h
  split at h
  · cases h
    exact alters_of_nodes ⟨rfl, rfl⟩
  · cases h
    exact .turn id n _ (findNode_eq_ok.1 hn) (.seed seed) rfl rfl

/-- What an edit does to the nodes, with what it hands out; one that is refused does nothing. -/
theorem alters_after (hg : g.WellFormed) (e : Edit) : g.Alters (g.issues e) (g.after e) := by
  have hkept : g.Alters [] g := alters_of_nodes ⟨rfl, rfl⟩
  -- All edits but two hand nothing out, whether they are made or refused.
  have quiet : ∀ {e : Edit}, (∀ reply g', g.perform e = .ok (reply, g') → g.Alters [] g') →
      g.Alters [] (g.after e) := by
    intro e h
    unfold after
    cases hp : g.perform e with
    | error _ => exact hkept
    | ok r => exact h _ _ hp
  cases e with
  | addNode kind => exact alters_addNode hg kind
  | addPort id type =>
    cases h : g.addPort id type with
    | error _ =>
      simp only [after, issues, perform, h]
      exact hkept
    | ok r =>
      simp only [after, issues, perform, h]
      exact alters_addPort h
  | removeNode id =>
    refine quiet fun _ _ h => ?_
    obtain ⟨_, h, ⟨⟩⟩ := Except.map_eq_ok.1 h
    exact alters_removeNode h
  | editNode id kind =>
    refine quiet fun _ _ h => ?_
    obtain ⟨_, h, ⟨⟩⟩ := Except.map_eq_ok.1 h
    exact alters_editNode h
  | connect source target =>
    refine quiet fun _ _ h => ?_
    obtain ⟨_, h, ⟨⟩⟩ := Except.map_eq_ok.1 h
    exact alters_of_nodes (nodes_connect h)
  | connectNamed source output target input =>
    refine quiet fun _ _ h => ?_
    obtain ⟨_, h, ⟨⟩⟩ := Except.map_eq_ok.1 h
    obtain ⟨_, _, h⟩ := Except.bind_eq_ok.1 h
    obtain ⟨_, _, h⟩ := Except.bind_eq_ok.1 h
    exact alters_of_nodes (nodes_connect h)
  | disconnect target =>
    refine quiet fun _ _ h => ?_
    obtain ⟨⟨_, _⟩, h, ⟨⟩⟩ := Except.map_eq_ok.1 h
    obtain ⟨_, _, h⟩ := Except.bind_eq_ok.1 h
    cases h
    exact alters_of_nodes ⟨nodes_unplug g target, nextNode_unplug g target⟩
  | removePort p =>
    refine quiet fun _ _ h => ?_
    obtain ⟨_, h, ⟨⟩⟩ := Except.map_eq_ok.1 h
    exact alters_removePort h
  | setLiteral p literal =>
    refine quiet fun _ _ h => ?_
    obtain ⟨_, h, ⟨⟩⟩ := Except.map_eq_ok.1 h
    exact alters_setLiteral h
  | setNodeSeed id seed =>
    refine quiet fun _ _ h => ?_
    obtain ⟨_, h, ⟨⟩⟩ := Except.map_eq_ok.1 h
    exact alters_setNodeSeed h
  | setSeed seed =>
    refine quiet fun _ _ h => ?_
    cases h
    unfold setSeed
    split <;> exact alters_of_nodes ⟨rfl, rfl⟩

end Graph
end Terrain
