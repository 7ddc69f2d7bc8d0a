import Terrain.Proofs.Compile.Meaning
import Terrain.Proofs.Graph.Edit

/-! What edits leave as it was: at a node that the journal does not name, everything that the
meaning of the node depends on. -/
namespace Terrain

/-- The nodes whose values some of the changes may have changed. -/
def Change.affectedBy (changes : List Change) : List NodeId := changes.flatMap Change.affected

theorem Change.affectedBy_append (old new : List Change) :
    Change.affectedBy (old ++ new) = Change.affectedBy old ++ Change.affectedBy new :=
  List.flatMap_append

namespace Graph

variable {g g' : Graph} {id : NodeId} {n : Node}

/-- Two graphs have the same node in a place, fed from the same outputs. -/
structure SameAt (g g' : Graph) (id : NodeId) : Prop where
  node : g'.node? id = g.node? id
  source : ∀ port, g'.sourceOf? ⟨id, port⟩ = g.sourceOf? ⟨id, port⟩
  outputs : ∀ port source, g.sourceOf? ⟨id, port⟩ = some source →
    (g'.node? source.node).map (·.outputs) = (g.node? source.node).map (·.outputs)

theorem viewOf?_congr {σ σ' : NodeId → Option Meaning} {p : PortRef}
    (houtputs : (g'.node? p.node).map (·.outputs) = (g.node? p.node).map (·.outputs))
    (hσ : g.has p.node = true → σ' p.node = σ p.node) : g'.viewOf? σ' p = g.viewOf? σ p := by
  unfold viewOf?
  cases hn : g.node? p.node with
  | none =>
    rw [hn, Option.map_none, Option.map_eq_none_iff] at houtputs
    rw [houtputs]
    rfl
  | some n =>
    rw [hn] at houtputs
    obtain ⟨n', hn', ho⟩ := Option.map_eq_some_iff.1 houtputs
    rw [hn', ← hσ (by simp [has, hn])]
    simp only [Option.bind_eq_bind, Option.bind_some, ho]

/-- What a node has to show depends on the place of the node alone, on what the nodes that feed it
show, and on the seed of the graph. -/
theorem SameAt.due_eq (h : g.SameAt g' id) (hseed : g'.seed = g.seed) (hn : g.node? id = some n)
    (tile : WorldTile) {σ σ' : NodeId → Option Meaning}
    (hσ : ∀ port source, g.sourceOf? ⟨id, port⟩ = some source → g.has source.node = true →
      σ' source.node = σ source.node) :
    g'.due tile σ' n = g.due tile σ n := by
  obtain rfl := id_of_node? hn
  have harrival : g'.arrival σ' n = g.arrival σ n := by
    funext port
    unfold arrival
    rw [h.source]
    cases hs : g.sourceOf? ⟨n.id, port.id⟩ with
    | none => rfl
    | some source => simp only [viewOf?_congr (h.outputs _ _ hs) (hσ _ _ hs)]
  rw [due, due, harrival, hseed]

theorem SameAt.refl (g : Graph) (id : NodeId) : g.SameAt g id :=
  ⟨rfl, fun _ => rfl, fun _ _ _ => rfl⟩

theorem SameAt.mem (h : g.SameAt g' id) (hid : id ∈ g'.nodeIds) : id ∈ g.nodeIds := by
  rw [mem_nodeIds, h.node] at hid
  exact mem_nodeIds.2 hid

theorem due_congr (hn : g.node? id = some n) (tile : WorldTile) {σ σ' : NodeId → Option Meaning}
    (hσ : ∀ u ∈ g.nodeIds, g.Feeds u id → σ' u = σ u) : g.due tile σ' n = g.due tile σ n :=
  (SameAt.refl g id).due_eq rfl hn tile fun _ _ hs hhas =>
    hσ _ (has_iff.1 hhas) ⟨_, connection_of_sourceOf? hs, rfl, rfl⟩

theorem SameAt.feeds_iff (h : g.SameAt g' id) (hg : g.WellFormed) (hg' : g'.WellFormed)
    {u : NodeId} : g'.Feeds u id ↔ g.Feeds u id := by
  simp only [hg.feeds_iff, hg'.feeds_iff, h.source]

/-- The journal of one graph is that of another and more, and what more there is names every node
whose place has changed, unless it says that the seed has changed. -/
def Journals (g g' : Graph) : Prop :=
  ∃ new, g'.changes = g.changes ++ new ∧
    (.seedChanged ∈ new ∨
      g'.seed = g.seed ∧ ∀ id ∈ g'.nodeIds, id ∉ Change.affectedBy new → g.SameAt g' id)

theorem find?_filter_of_imp {α : Type} {p q : α → Bool} {xs : List α} (h : ∀ a ∈ xs, q a → p a) :
    (xs.filter p).find? q = xs.find? q := by
  induction xs with
  | nil => rfl
  | cons x xs ih =>
    have ih := ih fun a ha => h a (by simp [ha])
    by_cases hq : q x
    · rw [List.filter_cons_of_pos (h x (by simp) hq), List.find?_cons_of_pos hq,
        List.find?_cons_of_pos hq]
    · by_cases hp : p x
      · rw [List.filter_cons_of_pos hp, List.find?_cons_of_neg hq, List.find?_cons_of_neg hq, ih]
      · rw [List.filter_cons_of_neg hp, List.find?_cons_of_neg hq, ih]

theorem detach_journals (g : Graph) (gone : NodeId) : g.Journals (g.detach gone) := by
  refine ⟨[.nodeRemoved gone (g.readers gone)], rfl, .inr ⟨rfl, fun id hid haff => ?_⟩⟩
  have hne : id ≠ gone := by
    rintro rfl
    obtain ⟨n, hn⟩ := mem_nodeIds.1 hid
    simp [node?_detach] at hn
  have haff : ¬ g.Feeds gone id := by simpa [Change.affectedBy, Change.affected] using haff
  refine ⟨by rw [node?_detach, if_neg hne], fun port => ?_, fun port source hs => ?_⟩
  · unfold sourceOf? connectionTo?
    congr 1
    refine find?_filter_of_imp fun c hc ht => ?_
    have ht : c.target = ⟨id, port⟩ := by simpa using ht
    have hsource : c.source.node ≠ gone := fun heq => haff ⟨c, hc, heq, by rw [ht]⟩
    simp [hsource, ht, hne]
  · have hsource : source.node ≠ gone :=
      fun heq => haff ⟨_, connection_of_sourceOf? hs, heq, rfl⟩
    rw [node?_detach, if_neg hsource]

theorem push_journals (hg : g.WellFormed) (n : Node) :
    g.Journals ((g.withNode n).record (.nodeAdded n.id)) := by
  refine ⟨[.nodeAdded n.id], rfl, .inr ⟨rfl, fun id _ haff => ?_⟩⟩
  have hne : n.id ≠ id := by simpa [Change.affectedBy, Change.affected, eq_comm] using haff
  refine ⟨?_, fun _ => rfl, fun port source hs => ?_⟩
  · rw [node?_record, node?_withNode, if_neg hne, Option.or_none]
  · obtain ⟨m, _, _, _, hj⟩ := hg.joins _ (connection_of_sourceOf? hs)
    rw [node?_record, node?_withNode, hj.sourceNode, Option.some_or]

theorem unplug_journals (g : Graph) (target : PortRef) : g.Journals (g.unplug target) := by
  cases ho : g.connectionTo? target with
  | none =>
    have heq : g.unplug target = g := by rw [unplug, ho]
    rw [heq]
    exact ⟨[], (List.append_nil _).symm, .inr ⟨rfl, fun id _ _ => .refl g id⟩⟩
  | some old =>
    have htarget : old.target = target := by simpa using List.find?_some ho
    refine ⟨[.disconnected old], by rw [unplug, ho]; rfl, .inr ⟨by rw [unplug, ho]; rfl,
      fun id _ haff => ⟨node?_unplug g target id, fun port => ?_, fun _ _ _ => ?_⟩⟩⟩
    · have hne : id ≠ target.node := by
        rintro rfl
        simp [Change.affectedBy, Change.affected, htarget] at haff
      unfold sourceOf? connectionTo?
      rw [connections_unplug]
      congr 1
      refine find?_eraseP _ fun c hc hp => hne ?_
      have hc : c.target = target := by simpa using hc
      have hp : c.target = ⟨id, port⟩ := by simpa using hp
      rw [← hc, hp]
    · rw [node?_unplug]

theorem plug_journals (g : Graph) (c : Connection) :
    g.Journals ((g.withConnection c).record (.connected c)) := by
  refine ⟨[.connected c], rfl, .inr ⟨rfl, fun id _ haff => ⟨rfl, fun port => ?_, fun _ _ _ => rfl⟩⟩⟩
  have hne : c.target ≠ ⟨id, port⟩ := by
    rintro heq
    simp [Change.affectedBy, Change.affected, heq] at haff
  unfold sourceOf? connectionTo?
  congr 1
  rw [connections_record, withConnection, List.find?_append,
    List.find?_cons_of_neg (by simpa using hne),
    List.find?_nil, Option.or_none]

theorem rework_journals {f : Node → Node} {counts : PortId → Prop} {change : Change}
    (reworks : ∀ n ∈ g.nodes, n.id = id → n.Reworks (f n) counts)
    (affects : change.affected = [id]) : g.Journals ((g.modifyNode id f).record change) := by
  have hids : ∀ n ∈ g.nodes, n.id = id → (f n).id = n.id := fun n hn h => (reworks n hn h).id
  refine ⟨[change], rfl, .inr ⟨rfl, fun id' _ haff => ?_⟩⟩
  have hne : id' ≠ id := by simpa [Change.affectedBy, affects] using haff
  refine ⟨node?_modifyNode_of_ne hids hne, fun _ => rfl, fun port source _ => ?_⟩
  rw [node?_record, node?_modifyNode hids]
  cases hn : g.node? source.node with
  | none => rfl
  | some n =>
    simp only [Option.map_some]
    split
    · next h => rw [(reworks n (mem_of_node? hn) h).outputs]
    · rfl

theorem Step.journals (hs : g.Step g') (hg : g.WellFormed) : g.Journals g' := by
  cases hs with
  | detach id => exact detach_journals g id
  | push n _ _ => exact push_journals hg n
  | unplug target => exact unplug_journals g target
  | plug c m n output input joins free => exact plug_journals g c
  | rework id f change counts reworks _ affects => exact rework_journals reworks affects
  | reseed seed => exact ⟨[.seedChanged], rfl, .inl (by simp)⟩

end Graph
end Terrain
