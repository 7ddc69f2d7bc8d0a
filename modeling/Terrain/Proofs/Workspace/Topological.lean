import Mathlib.Data.List.Sort
import Terrain.Proofs.Workspace.FullPass

/-! A full pass against plain evaluation, which compiles each node once, in a topological order of
the nodes that are not behind a cycle. Whatever the order, and whatever was compiled before the
pass, the two leave the same values. -/
namespace Terrain

namespace Workspace

/-- Compiles a node against what is compiled already. A node that fails has no values. -/
def evaluateNode (tile : WorldTile) (w : Workspace) (id : NodeId) : Workspace :=
  match w.graph.node? id with
  | none => w
  | some n =>
    match (Scope.mk w.graph w.compiled tile n).compile.outcome ⟨w.store, []⟩ with
    | (.ok k, e) => { w with compiled := w.compiled.insert id k, store := e.store }
    | (.error _, e) => { w with compiled := w.compiled.erase id, store := e.store }

theorem evaluateNode_spec {w : Workspace} {id : NodeId} {n : Node} {Γ : Ledger} (tile : WorldTile)
    (h : Γ.Backs (fun _ => True) w.compiled w.store) (hn : w.graph.node? id = some n) :
    (w.evaluateNode tile id).graph = w.graph ∧
      (w.evaluateNode tile id).compiled.shows = Function.update w.compiled.shows id
        (w.graph.due tile w.compiled.shows n).toOption ∧
      ∃ Γ' : Ledger, Γ'.Backs (fun _ => True) (w.evaluateNode tile id).compiled
        (w.evaluateNode tile id).store := by
  have hscope := h.scope (g := w.graph) (fun _ _ => trivial) tile n
  obtain ⟨Γ', hΓ, hst, hagrees⟩ := Scope.means_due hscope Γ ⟨w.store, []⟩ List.prefix_rfl h.holds
  simp only [evaluateNode, hn]
  rcases hout : (Scope.mk w.graph w.compiled tile n).compile.outcome ⟨w.store, []⟩ with ⟨e | k, e'⟩
  all_goals rw [hout] at hst hagrees
  · obtain ⟨fault, hdue, _⟩ := hagrees.of_error
    refine ⟨rfl, ?_, Γ', (h.extend hΓ hst).erase id⟩
    rw [hdue]
    exact Compilation.shows_erase w.compiled id
  · obtain ⟨m, hdue, hk, rfl⟩ := hagrees.of_ok
    refine ⟨rfl, ?_, Γ', h.insert hΓ hst hk id⟩
    rw [hdue]
    exact Compilation.shows_insert w.compiled id k

end Workspace

namespace Graph

variable {g g' : Graph} {tile : WorldTile} {order : List NodeId} {id : NodeId}

/-- A topological order of the nodes that are not behind a cycle: each occurs once, after the
nodes that feed it. -/
structure Topological (g : Graph) (order : List NodeId) : Prop where
  nodup : order.Nodup
  mem : ∀ id, id ∈ order ↔ id ∈ g.nodeIds ∧ ¬ g.Behind id
  before : ∀ done id rest, order = done ++ id :: rest → ∀ u, g.Feeds u id → u ∈ done

open Classical in
/-- Every graph has a topological order. -/
theorem WellFormed.exists_topological (hg : g.WellFormed) : ∃ order, g.Topological order := by
  have htotal : Std.Total fun u v => g.depth u ≤ g.depth v := ⟨fun _ _ => Nat.le_total _ _⟩
  have htrans : IsTrans NodeId fun u v => g.depth u ≤ g.depth v := ⟨fun _ _ _ => Nat.le_trans⟩
  let order := (g.nodeIds.filter (¬ g.Behind ·)).insertionSort fun u v => g.depth u ≤ g.depth v
  have hmem : ∀ id, id ∈ order ↔ id ∈ g.nodeIds ∧ ¬ g.Behind id := by
    intro id
    simp [order, List.mem_insertionSort]
  refine ⟨order, ?_, hmem, fun done id rest hsplit u hu => ?_⟩
  · exact (List.perm_insertionSort _ _).nodup_iff.2 (hg.nodup.filter _)
  · have hid := (hmem id).1 (by rw [hsplit]; simp)
    have hapart : ¬ g.Behind u := fun hb => hid.2 (hb.feeds hu)
    have hlt : g.depth u < g.depth id := depth_lt hu fun hc => hapart ⟨u, hc, .refl⟩
    have hin : u ∈ order := (hmem u).2 ⟨(hg.mem_of_feeds hu).1, hapart⟩
    have hsorted : order.Pairwise fun u v => g.depth u ≤ g.depth v :=
      List.pairwise_insertionSort _ _
    rw [hsplit] at hin hsorted
    have hrest := (List.pairwise_cons.1 (List.pairwise_append.1 hsorted).2.1).1
    rcases List.mem_append.1 hin with hin | hin
    · exact hin
    rcases List.mem_cons.1 hin with rfl | hin
    · exact absurd hlt (Nat.lt_irrefl _)
    · exact absurd hlt (Nat.not_lt.2 (hrest u hin))

/-- The plain evaluation of a graph along an order of its nodes. -/
def evaluate (g : Graph) (tile : WorldTile) (order : List NodeId) : Workspace :=
  order.foldl (Workspace.evaluateNode tile) { graph := g }

/-- What a plain evaluation has come to when some nodes are done. -/
structure Evaluated (g : Graph) (tile : WorldTile) (done : List NodeId) (w : Workspace) : Prop where
  graph : w.graph = g
  fresh : ∀ id ∉ done, w.compiled.shows id = none
  settled : ∀ id ∈ done, g.SettledAt tile w.compiled.shows id
  backed : ∃ Γ : Ledger, Γ.Backs (fun _ => True) w.compiled w.store

/-- A node whose feeders are done is settled, and what is done stays as it is. -/
theorem Evaluated.step {done : List NodeId} {w : Workspace} (h : g.Evaluated tile done w)
    (hid : id ∈ g.nodeIds) (hnew : id ∉ done) (hapart : ¬ g.Feeds id id)
    (hdone : ∀ v ∈ done, ¬ g.Feeds id v) :
    g.Evaluated tile (done ++ [id]) (w.evaluateNode tile id) := by
  obtain ⟨n, hn⟩ := mem_nodeIds.1 hid
  obtain ⟨Γ, hΓ⟩ := h.backed
  obtain ⟨hgraph, hshows, hbacked⟩ :=
    Workspace.evaluateNode_spec tile hΓ (by rw [h.graph]; exact hn)
  rw [h.graph] at hshows
  have hsame : ∀ v m, g.node? v = some m → ¬ g.Feeds id v →
      g.due tile (w.evaluateNode tile id).compiled.shows m = g.due tile w.compiled.shows m := by
    intro v m hm hv
    refine due_congr hm tile fun u _ hu => ?_
    have hne : u ≠ id := fun heq => hv (heq ▸ hu)
    rw [hshows, Function.update_of_ne hne]
  refine ⟨hgraph.trans h.graph, fun v hv => ?_, fun v hv m hm => ?_, hbacked⟩
  · rw [List.mem_append, List.mem_singleton, not_or] at hv
    rw [hshows, Function.update_of_ne hv.2, h.fresh v hv.1]
  · rcases List.mem_append.1 hv with hv | hv
    · have hne : v ≠ id := fun heq => hnew (heq ▸ hv)
      rw [hsame v m hm (hdone v hv), hshows, Function.update_of_ne hne]
      exact h.settled v hv m hm
    · obtain rfl := List.mem_singleton.1 hv
      obtain rfl := Option.some.inj (hn.symm.trans hm)
      rw [hsame v n hn hapart, hshows, Function.update_self]

/-- A plain evaluation settles every node of its order. -/
theorem Topological.evaluated (h : g.Topological order) (tile : WorldTile) :
    g.Evaluated tile order (g.evaluate tile order) := by
  have hprefix : ∀ done, done <+: order →
      g.Evaluated tile done (done.foldl (Workspace.evaluateNode tile) { graph := g }) := by
    intro done
    induction done using List.reverseRecOn with
    | nil =>
      intro _
      refine ⟨rfl, fun id _ => by simp [Compilation.shows], nofun, [], Ledger.holds_empty, ?_⟩
      intro id _ k hk
      simp at hk
    | append_singleton done id ih =>
      intro hdone
      have hbefore : ∀ {v first rest}, done ++ [id] = first ++ v :: rest →
          ∀ u, g.Feeds u v → u ∈ first := by
        intro v first rest hsplit u hu
        obtain ⟨last, rfl⟩ := hdone
        exact h.before first v (rest ++ last) (by simp [hsplit]) u hu
      have hid := (h.mem id).1 (hdone.subset (by simp))
      have hnew : id ∉ done := by
        have hnodup := h.nodup.sublist hdone.sublist
        rw [List.nodup_append] at hnodup
        exact fun hm => hnodup.2.2 id hm id (by simp) rfl
      rw [List.foldl_append, List.foldl_cons, List.foldl_nil]
      refine (ih ((List.prefix_append _ _).trans hdone)).step hid.1 hnew ?_ fun v hv hf => ?_
      · exact fun hf => hnew (hbefore rfl id hf)
      · obtain ⟨first, rest, rfl⟩ := List.append_of_mem hv
        have hin := hbefore (List.append_assoc first (v :: rest) [id]) id hf
        exact hnew (List.mem_append_left _ hin)
  exact hprefix order List.prefix_rfl

/-- Two graphs differ in the order of their connections alone, and in their journals. -/
structure Rearranges (g g' : Graph) : Prop where
  nodes : g'.nodes = g.nodes
  seed : g'.seed = g.seed
  connections : g'.connections.Perm g.connections

theorem WellFormed.sourceOf?_eq_some (hg : g.WellFormed) {p source : PortRef} :
    g.sourceOf? p = some source ↔ ⟨source, p⟩ ∈ g.connections :=
  ⟨connection_of_sourceOf?, fun h => hg.sourceOf? h⟩

theorem Rearranges.sameAt (h : g.Rearranges g') (hg : g.WellFormed) (hg' : g'.WellFormed)
    (id : NodeId) : g.SameAt g' id := by
  have hnode : ∀ id, g'.node? id = g.node? id := fun id => by rw [node?, node?, h.nodes]
  refine ⟨hnode id, fun port => Option.ext fun source => ?_, fun _ source _ => by rw [hnode]⟩
  rw [hg.sourceOf?_eq_some, hg'.sourceOf?_eq_some, h.connections.mem_iff]

theorem Rearranges.feeds (h : g.Rearranges g') : g'.Feeds = g.Feeds := by
  funext u v
  simp only [Feeds, h.connections.mem_iff]

theorem Rearranges.settledAt {σ : NodeId → Option Meaning} (h : g.Rearranges g')
    (hg : g.WellFormed) (hg' : g'.WellFormed) (hs : g'.SettledAt tile σ id) :
    g.SettledAt tile σ id := by
  intro n hn
  have hsame := h.sameAt hg hg' id
  rw [hs n (hsame.node.trans hn), hsame.due_eq h.seed hn tile fun _ _ _ _ => rfl]

end Graph

namespace Workspace

variable {w w' : Workspace} {tile : WorldTile} {interest interest' : Interest} {Γ Γ' : Ledger}
  {id : NodeId}

/-- A full pass settles every node that is not behind a cycle, whatever was compiled before. -/
theorem traverseAll_settles (tile : WorldTile) (interest : Interest) (hg : w.graph.WellFormed)
    (hΓ : Γ.Holds w.store) :
    (∃ Γ' : Ledger, Γ'.Backs (· ∈ w.graph.nodeIds) (w.traverseAll tile interest).workspace.compiled
        (w.traverseAll tile interest).workspace.store) ∧
      ∀ id ∈ w.graph.nodeIds, Acc w.graph.Feeds id → w.graph.SettledAt tile
        (w.traverseAll tile interest).workspace.compiled.shows id := by
  obtain ⟨pending, waiting, hpending, hran, Γ', _, hbacks⟩ := traverseAll_ran tile interest hΓ
    (fun id hid hnot => absurd hid hnot) fun _ hid => hid
  exact ⟨⟨Γ', hbacks⟩, fun id hid hacc => hran.settledAt hg.drain hpending hid hacc⟩

theorem traverseAll_agrees_evaluate (hg : w.graph.WellFormed) (hΓ : Γ.Holds w.store)
    {order : List NodeId} (horder : w.graph.Topological order) (hid : id ∈ order) :
    AgreesAt (w.traverseAll tile interest).workspace (w.graph.evaluate tile order) id := by
  obtain ⟨⟨Γ₁, hbacks⟩, hsettled⟩ := traverseAll_settles tile interest hg hΓ
  have heval := horder.evaluated tile
  obtain ⟨Γ₂, hbacks'⟩ := heval.backed
  obtain ⟨hin, hapart⟩ := (horder.mem id).1 hid
  refine agreesAt_of_shows (by rw [heval.graph]; rfl) hbacks hin hbacks' trivial fun _ => ?_
  refine Graph.settled_unique hsettled (fun u hu hacc => ?_) hin (Graph.acc_of_not_behind hapart)
  exact heval.settled u ((horder.mem u).2 ⟨hu, Graph.acc_iff_not_behind.1 hacc⟩)

theorem traverseAll_agrees_rearranged (hg : w.graph.WellFormed) (hΓ : Γ.Holds w.store)
    (hg' : w'.graph.WellFormed) (hΓ' : Γ'.Holds w'.store) (hsame : w.graph.Rearranges w'.graph)
    (hid : id ∈ w.graph.nodeIds) (hapart : ¬ w.graph.Behind id) :
    AgreesAt (w.traverseAll tile interest).workspace (w'.traverseAll tile interest').workspace
      id := by
  obtain ⟨⟨Γ₁, hbacks⟩, hsettled⟩ := traverseAll_settles tile interest hg hΓ
  obtain ⟨⟨Γ₂, hbacks'⟩, hsettled'⟩ := traverseAll_settles tile interest' hg' hΓ'
  have hids : w'.graph.nodeIds = w.graph.nodeIds := by
    rw [Graph.nodeIds, Graph.nodeIds, hsame.nodes]
  refine agreesAt_of_shows (hsame.sameAt hg hg' id).node hbacks hid hbacks'
    (by rw [hids]; exact hid) fun _ => ?_
  refine Graph.settled_unique hsettled (fun u hu hacc => hsame.settledAt hg hg' ?_) hid
    (Graph.acc_of_not_behind hapart)
  exact hsettled' u (by rw [hids]; exact hu) (by rw [hsame.feeds]; exact hacc)

end Workspace

/-- A full pass comes to what plain evaluation comes to, in any topological order of the nodes that
are not behind a cycle: on every such node, after every history, whatever is taken for compiled
before the pass. So neither the history nor the order of the connections has a part in it. -/
theorem History.traverseAll_agrees_with_evaluate {allowed : WorldTile → Prop} {w : Workspace}
    {held : AnySupplier → Prop} (h : History allowed w held) (prior : Compilation)
    (tile : WorldTile) (interest : Interest) :
    (∃ order, w.graph.Topological order) ∧
      (∀ order, w.graph.Topological order → ∀ id ∈ order, Workspace.AgreesAt
        (({ w with compiled := prior } : Workspace).traverseAll tile interest).workspace
        (w.graph.evaluate tile order) id) ∧
      ∀ (allowed' : WorldTile → Prop) (w' : Workspace) (held' : AnySupplier → Prop),
        History allowed' w' held' → w.graph.Rearranges w'.graph →
          ∀ (prior' : Compilation) (interest' : Interest), ∀ id ∈ w.graph.nodeIds,
            ¬ w.graph.Behind id → Workspace.AgreesAt
              (({ w with compiled := prior } : Workspace).traverseAll tile interest).workspace
              (({ w' with compiled := prior' } : Workspace).traverseAll tile interest').workspace
              id := by
  have hg := h.wellFormed
  obtain ⟨Γ, hΓ⟩ := h.backed
  refine ⟨hg.exists_topological, fun order horder id hid => ?_, ?_⟩
  · exact Workspace.traverseAll_agrees_evaluate (w := { w with compiled := prior }) hg
      hΓ.backs.holds horder hid
  · intro allowed' w' held' h' hsame prior' interest' id hid hapart
    obtain ⟨Γ', hΓ'⟩ := h'.backed
    exact Workspace.traverseAll_agrees_rearranged (w := { w with compiled := prior })
      hg hΓ.backs.holds h'.wellFormed hΓ'.backs.holds hsame hid hapart

theorem Workspace.editedSum_evaluates : ∃ held, History (· = {}) editedSum held ∧
    editedSum.graph.Topological [⟨0⟩, ⟨1⟩] ∧ ∀ prior tile interest, ∀ id ∈ editedSum.graph.nodeIds,
      AgreesAt (({ editedSum with compiled := prior } : Workspace).traverseAll tile
        interest).workspace (editedSum.graph.evaluate tile [⟨0⟩, ⟨1⟩]) id := by
  obtain ⟨held, h⟩ := history_editedSum
  have hids : editedSum.graph.nodeIds = [⟨0⟩, ⟨1⟩] := by decide +kernel
  have hacyclic : editedSum.graph.Acyclic := Graph.acyclic_of_ascending (by decide +kernel)
  have hfeeders : ∀ id ∈ editedSum.graph.nodeIds, ∀ u ∈ editedSum.graph.feeders id,
      u = ⟨0⟩ ∧ id = ⟨1⟩ := by decide +kernel
  have horder : editedSum.graph.Topological [⟨0⟩, ⟨1⟩] := by
    refine ⟨by decide, fun id => ?_, fun done id rest hsplit u hu => ?_⟩
    · simp [hids, hacyclic.not_behind id]
    · have hid : id ∈ editedSum.graph.nodeIds := by
        rw [hids, hsplit]
        simp
      obtain ⟨rfl, rfl⟩ := hfeeders id hid u (Graph.mem_feeders.2 hu)
      cases done with
      | nil => cases hsplit
      | cons first done =>
        rw [List.cons_append, List.cons.injEq] at hsplit
        exact hsplit.1 ▸ .head _
  refine ⟨held, h, horder, fun prior tile interest id hid => ?_⟩
  obtain ⟨_, hagrees, _⟩ := h.traverseAll_agrees_with_evaluate prior tile interest
  exact hagrees _ horder id (by rw [← hids]; exact hid)

end Terrain
