import Terrain.Proofs.Workspace.Observed

/-! Incremental recalculation. Through every history of edits and passes the journal accounts for
the nodes that do not show what they have to show, so that a graph without cycles whose journal is
empty shows what a full pass would make it show. -/
namespace Terrain

namespace Graph

/-- A node shows what it has to show, where nodes show `σ`. -/
def SettledAt (g : Graph) (tile : WorldTile) (σ : NodeId → Option Meaning) (id : NodeId) : Prop :=
  ∀ n, g.node? id = some n → σ id = (g.due tile σ n).toOption

/-- A node that is settled is so in every graph that is the same in its place. -/
theorem SettledAt.of_same {g g' : Graph} {tile : WorldTile} {σ : NodeId → Option Meaning}
    {id : NodeId} (h : g.SettledAt tile σ id) (hsame : g.SameAt g' id) (hseed : g'.seed = g.seed) :
    g'.SettledAt tile σ id := by
  intro n hn
  rw [hsame.node] at hn
  rw [h n hn, hsame.due_eq hseed hn tile fun _ _ _ _ => rfl]

/-- What settled nodes show is determined, as far as feeding is well-founded. -/
theorem settled_unique {g : Graph} {tile : WorldTile} {σ σ' : NodeId → Option Meaning}
    (hσ : ∀ id ∈ g.nodeIds, Acc g.Feeds id → g.SettledAt tile σ id)
    (hσ' : ∀ id ∈ g.nodeIds, Acc g.Feeds id → g.SettledAt tile σ' id) {id : NodeId}
    (hid : id ∈ g.nodeIds) (hacc : Acc g.Feeds id) : σ' id = σ id := by
  induction hacc with
  | intro id hacc ih =>
    obtain ⟨n, hn⟩ := mem_nodeIds.1 hid
    have hdue : g.due tile σ' n = g.due tile σ n := due_congr hn tile fun u hu hf => ih u hf hu
    rw [hσ id hid ⟨_, hacc⟩ n hn, hσ' id hid ⟨_, hacc⟩ n hn, hdue]

/-- Changes account for what nodes show, up to stale nodes: a node that is neither stale nor
affected shows what it has to show, and a stale node that is not affected is fed by a stale one. -/
structure Accounts (g : Graph) (changes : List Change) (tile : WorldTile)
    (σ : NodeId → Option Meaning) (stale : NodeId → Prop) : Prop where
  fed : ∀ id ∈ g.nodeIds, id ∉ Change.affectedBy changes → stale id → ∃ u, stale u ∧ g.Feeds u id
  settled : ∀ id ∈ g.nodeIds, id ∉ Change.affectedBy changes → ¬ stale id → g.SettledAt tile σ id

theorem accounts_drain {g : Graph} {changes : List Change} {tile : WorldTile}
    {σ : NodeId → Option Meaning} {stale : NodeId → Prop} :
    g.drain.2.Accounts changes tile σ stale ↔ g.Accounts changes tile σ stale :=
  ⟨fun h => ⟨h.fed, h.settled⟩, fun h => ⟨h.fed, h.settled⟩⟩

/-- Without changes and without cycles all nodes are settled. -/
theorem Accounts.settled_of_acyclic {g : Graph} {tile : WorldTile} {σ : NodeId → Option Meaning}
    {stale : NodeId → Prop} (h : g.Accounts [] tile σ stale) (hg : g.WellFormed)
    (hacyclic : g.Acyclic) {id : NodeId} (hid : id ∈ g.nodeIds) : g.SettledAt tile σ id := by
  refine h.settled id hid List.not_mem_nil ?_
  have hacc : Acc g.Feeds id := acc_of_not_behind (hacyclic.not_behind id)
  induction hacc with
  | intro id _ ih =>
    intro hstale
    obtain ⟨u, hu, hf⟩ := h.fed id hid List.not_mem_nil hstale
    exact ih u hf (hg.mem_of_feeds hf).1 hu

end Graph

namespace Workspace

variable {w : Workspace} {tile : WorldTile} {interest : Interest}

/-- The journal says that the seed has changed, or it accounts for what the nodes show. -/
def Accounted (w : Workspace) (tile : WorldTile) : Prop :=
  .seedChanged ∈ w.graph.changes ∨
    ∃ stale, w.graph.Accounts w.graph.changes tile w.compiled.shows stale

/-- A step of an edit is accounted for by what it adds to the journal. -/
theorem Accounted.step {g' : Graph} (h : w.Accounted tile) (hs : w.graph.Step g')
    (hg : w.graph.WellFormed) : Accounted { w with graph := g' } tile := by
  obtain ⟨new, hchanges, hnew⟩ := hs.journals hg
  unfold Accounted
  dsimp only
  rw [hchanges, List.mem_append]
  rcases h with h | ⟨stale, h⟩
  · exact .inl (.inl h)
  rcases hnew with hnew | ⟨hseed, hsame⟩
  · exact .inl (.inr hnew)
  refine .inr ⟨stale, fun id hid haff hstale => ?_, fun id hid haff hstale => ?_⟩
  all_goals
    rw [Change.affectedBy_append, List.mem_append, not_or] at haff
    have hsame := hsame id hid haff.2
    have hid' := hsame.mem hid
  · obtain ⟨u, hu, hf⟩ := h.fed id hid' haff.1 hstale
    exact ⟨u, hu, (hsame.feeds_iff hg (hs.wellFormed hg)).2 hf⟩
  · exact (h.settled id hid' haff.1 hstale).of_same hsame hseed

theorem Accounted.edit (h : w.Accounted tile) (hg : w.graph.WellFormed) (e : Edit) :
    (w.edited e).Accounted tile := by
  have hsteps : ∀ {g' : Graph}, Graph.Steps w.graph g' → Accounted { w with graph := g' } tile := by
    intro g' hs
    induction hs with
    | refl => exact h
    | tail hs hstep ih => exact ih.step hstep (Graph.Steps.wellFormed hs hg)
  exact hsteps (Graph.steps_after hg e)

/-- Beyond what a pass covers, where nothing is fed from within, settled nodes stay so. -/
theorem Ran.settledAt_outside {pending waiting : List NodeId} {r : PassResult}
    (hran : w.Ran tile pending waiting r) (hclosed : w.graph.ClosedForward (· ∈ pending))
    {id : NodeId} (hp : id ∉ pending) {tile' : WorldTile}
    (h : w.graph.SettledAt tile' w.compiled.shows id) :
    w.graph.SettledAt tile' r.workspace.compiled.shows id := by
  intro n hn
  have hdue : w.graph.due tile' r.workspace.compiled.shows n =
      w.graph.due tile' w.compiled.shows n :=
    Graph.due_congr hn tile' fun u _ hf => hran.outside u fun hup => hp (hclosed u id hf hup)
  rw [hran.outside id hp, hdue]
  exact h n hn

/-- A pass accounts for what it covers. Beyond that, where nothing is fed from within, all stays as
it was. -/
theorem Ran.accounts {pending waiting : List NodeId} {r : PassResult}
    (hran : w.Ran tile pending waiting r) (hclosed : w.graph.ClosedForward (· ∈ pending))
    (changes : List Change) (stale : NodeId → Prop)
    (hstale : ∀ id ∈ w.graph.nodeIds, id ∉ pending → id ∉ Change.affectedBy changes → stale id →
      ∃ u, stale u ∧ w.graph.Feeds u id)
    (hsettled : ∀ id ∈ w.graph.nodeIds, id ∉ pending → id ∉ Change.affectedBy changes →
      ¬ stale id → w.graph.SettledAt tile w.compiled.shows id) :
    w.graph.Accounts changes tile r.workspace.compiled.shows
      fun id => stale id ∧ id ∉ pending ∨ id ∈ waiting := by
  refine ⟨fun id hid haff hst => ?_, fun id hid haff hst => ?_⟩
  · rcases hst with ⟨hst, hp⟩ | hw
    · obtain ⟨u, hu, hf⟩ := hstale id hid hp haff hst
      exact ⟨u, .inl ⟨hu, fun hup => hp (hclosed u id hf hup)⟩, hf⟩
    · obtain ⟨_, _, u, hu, hf⟩ := hran.stuck id hw
      exact ⟨u, .inr hu, hf⟩
  · rw [not_or, not_and, not_not] at hst
    by_cases hp : id ∈ pending
    · exact hran.settled id hp hst.2
    · exact hran.settledAt_outside hclosed hp
        (hsettled id hid hp haff fun hst' => hp (hst.1 hst'))

theorem closed_forward (g : Graph) (seeds : List NodeId) :
    g.ClosedForward (· ∈ g.forward seeds) := by
  intro u v huv hu
  obtain ⟨s, hs, hsu⟩ := Graph.mem_forward.1 hu
  exact Graph.mem_forward.2 ⟨s, hs, hsu.tail huv⟩

variable {Γ : Ledger} {held : AnySupplier → Prop}

/-- After a full pass nothing is left to account for but cycles. -/
theorem traverseAll_accounts (tile : WorldTile) (interest : Interest) (hg : w.graph.WellFormed)
    (h : w.BackedBy Γ held) :
    ∃ stale, w.graph.Accounts [] tile
      (w.traverseAll tile interest).workspace.compiled.shows stale := by
  obtain ⟨pending, waiting, hmem, hran, _⟩ := traverseAll_ran tile interest h.backs.holds
    (fun id _ _ => h.backs.steady id trivial) fun _ _ => trivial
  have hclosed : w.graph.ClosedForward (· ∈ pending) := fun u v huv _ =>
    (hmem v).2 (hg.mem_of_feeds huv).2
  have hacc := hran.accounts hclosed [] (fun _ => False)
    (fun id hid hp => absurd ((hmem id).2 hid) hp) fun id hid hp => absurd ((hmem id).2 hid) hp
  exact ⟨_, Graph.accounts_drain.1 hacc⟩

theorem Accounted.served {r : PassResult} (h : w.Accounted tile) (hg : w.graph.WellFormed)
    (hb : w.BackedBy Γ held) (hr : w.Served tile interest r) : r.workspace.Accounted tile := by
  cases hr with
  | idle log =>
    rcases h with h | ⟨stale, h⟩
    · rw [log] at h
      exact absurd h List.not_mem_nil
    · rw [log] at h
      exact .inr ⟨stale, Graph.accounts_drain.2 h⟩
  | full =>
    obtain ⟨stale, hacc⟩ := traverseAll_accounts tile interest hg hb
    exact .inr ⟨stale, Graph.accounts_drain.2 hacc⟩
  | part seeds =>
    obtain ⟨waiting, hran, _⟩ := recalculate_ran tile interest hg hb.backs (fun _ _ => trivial)
      seeds
    rcases h with h | ⟨stale, h⟩
    · exact .inl h
    · exact .inr ⟨_, hran.accounts (closed_forward _ _) _ stale
        (fun id hid _ => h.fed id hid) fun id hid _ => h.settled id hid⟩
  | log seed =>
    obtain ⟨waiting, hran, _⟩ := recalculate_ran (w := w.drain.2) tile interest hg.drain
      hb.backs (fun _ _ => trivial) (Change.affectedBy w.graph.changes).eraseDups
    obtain ⟨stale, h⟩ := h.resolve_left seed
    -- What the journal named is covered by the pass.
    have hlog : ∀ id ∈ w.graph.nodeIds, id ∉ w.graph.forward
        ((Change.affectedBy w.graph.changes).eraseDups.filter w.graph.has) →
        id ∉ Change.affectedBy w.graph.changes := by
      intro id hid hp haff
      refine hp (Graph.mem_forward.2 ⟨id, ?_, .refl⟩)
      exact List.mem_filter.2 ⟨List.mem_eraseDups.2 haff, Graph.has_iff.2 hid⟩
    exact .inr ⟨_, hran.accounts (closed_forward _ _) _ stale
      (fun id hid hp _ => h.fed id hid (hlog id hid hp))
      fun id hid hp _ => h.settled id hid (hlog id hid hp)⟩

end Workspace

namespace History

variable {tile : WorldTile} {w : Workspace} {held : AnySupplier → Prop}

theorem accounted (h : History (· = tile) w held) : w.Accounted tile := by
  induction h with
  | fresh name seed =>
    exact .inr ⟨fun _ => False, fun id hid => absurd hid List.not_mem_nil,
      fun id hid => absurd hid List.not_mem_nil⟩
  | edit h e ih => exact ih.edit h.wellFormed e
  | touch _ _ ih => exact ih
  | @pass w held h _ ht interest request ih =>
    subst ht
    obtain ⟨Γ, hΓ⟩ := h.backed
    exact ih.served h.wellFormed hΓ (w.served _ interest request)

/-- Incremental recalculation agrees with full recalculation: whatever edits and passes have led to
a workspace, where its journal is empty and its graph has no cycle, every node looks as a full pass
would make it look. -/
theorem agrees_with_traverseAll (h : History (· = tile) w held) (hlog : w.graph.changes = [])
    (hacyclic : w.graph.Acyclic) (interest : Interest) (id : NodeId) :
    w.AgreesAt (w.traverseAll tile interest).workspace id := by
  obtain ⟨Γ, hΓ⟩ := h.backed
  have hg := h.wellFormed
  have hnow : ∀ id ∈ w.graph.nodeIds, w.graph.SettledAt tile w.compiled.shows id := by
    rcases h.accounted with hseed | ⟨stale, hacc⟩
    · rw [hlog] at hseed
      exact absurd hseed List.not_mem_nil
    · rw [hlog] at hacc
      exact fun id hid => hacc.settled_of_acyclic hg hacyclic hid
  have hthen : ∀ id ∈ w.graph.nodeIds, w.graph.SettledAt tile
      (w.traverseAll tile interest).workspace.compiled.shows id := by
    obtain ⟨stale, hacc⟩ := Workspace.traverseAll_accounts tile interest hg hΓ
    exact fun id hid => hacc.settled_of_acyclic hg hacyclic hid
  have hfull : w.Served tile interest (w.traverseAll tile interest) := .full
  obtain ⟨Γ', _, hΓ'⟩ := hfull.backed hg hΓ
  refine Workspace.agreesAt_of_shows rfl hΓ.backs trivial hΓ'.backs trivial fun hhas => ?_
  exact Graph.settled_unique (fun id hid _ => hnow id hid) (fun id hid _ => hthen id hid)
    (Graph.has_iff.1 hhas) (Graph.acc_of_not_behind (hacyclic.not_behind id))

end History

theorem Workspace.editedSum_agrees :
    ∃ held, History (· = {}) editedSum held ∧ editedSum.graph.changes = [] ∧
      editedSum.graph.Acyclic ∧
        ∀ interest id, editedSum.AgreesAt (editedSum.traverseAll {} interest).workspace id := by
  obtain ⟨held, h⟩ := history_editedSum
  have hlog : editedSum.graph.changes = [] := by decide +kernel
  have hacyclic : editedSum.graph.Acyclic := Graph.acyclic_of_ascending (by decide +kernel)
  exact ⟨held, h, hlog, hacyclic, fun interest id =>
    h.agrees_with_traverseAll hlog hacyclic interest id⟩

end Terrain
