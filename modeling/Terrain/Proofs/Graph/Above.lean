import Terrain.Proofs.Graph.Frame

/-! What is above a node: all that feeds it in any number of steps. Whether the node is behind a
cycle depends on nothing else, so an edit whose changes do not concern the node leaves that as it
was. A pass over a part of the graph may overtake a node, which is behind a cycle, but not within
that part. -/
namespace Terrain
namespace Graph

open Relation

variable {g g' : Graph} {id u v : NodeId} {part : List NodeId}

/-- Two graphs have the same nodes above a node, each fed from the same outputs. -/
def SameAbove (g g' : Graph) (id : NodeId) : Prop :=
  ∀ v, ReflTransGen g'.Feeds v id → g.SameAt g' v

theorem SameAbove.mono (h : g.SameAbove g' id) (hv : ReflTransGen g'.Feeds v id) :
    g.SameAbove g' v := fun u hu => h u (hu.trans hv)

section Same
variable (h : g.SameAbove g' id) (hg : g.WellFormed) (hg' : g'.WellFormed)
include h hg hg'

theorem SameAbove.reaches_iff : ReflTransGen g'.Feeds v id ↔ ReflTransGen g.Feeds v id := by
  constructor
  · intro hv
    induction hv using ReflTransGen.head_induction_on with
    | refl => exact .refl
    | head huv hv ih => exact .head (((h _ hv).feeds_iff hg hg').1 huv) ih
  · intro hv
    induction hv using ReflTransGen.head_induction_on with
    | refl => exact .refl
    | head huv _ ih => exact .head (((h _ ih).feeds_iff hg hg').2 huv) ih

theorem SameAbove.onCycle_iff : g'.OnCycle id ↔ g.OnCycle id := by
  have hfeeds : ∀ {u}, g'.Feeds u id ↔ g.Feeds u id := (h id .refl).feeds_iff hg hg'
  unfold OnCycle
  rw [TransGen.tail'_iff, TransGen.tail'_iff]
  constructor
  · rintro ⟨u, hu, huv⟩
    exact ⟨u, ((h.mono (.single huv)).reaches_iff hg hg').1 hu, hfeeds.1 huv⟩
  · rintro ⟨u, hu, huv⟩
    exact ⟨u, ((h.mono (.single (hfeeds.2 huv))).reaches_iff hg hg').2 hu, hfeeds.2 huv⟩

theorem SameAbove.behind_iff : g'.Behind id ↔ g.Behind id := by
  constructor
  · rintro ⟨c, hc, hcid⟩
    exact ⟨c, ((h.mono hcid).onCycle_iff hg hg').1 hc, (h.reaches_iff hg hg').1 hcid⟩
  · rintro ⟨c, hc, hcid⟩
    have hcid' := (h.reaches_iff hg hg').2 hcid
    exact ⟨c, ((h.mono hcid').onCycle_iff hg hg').2 hc, hcid'⟩

end Same

/-- Changes concern a node: the seed of the graph has changed, or something above the node is
affected. -/
def Concerns (g : Graph) (changes : List Change) (id : NodeId) : Prop :=
  .seedChanged ∈ changes ∨ ∃ u ∈ Change.affectedBy changes, ReflTransGen g.Feeds u id

theorem not_concerns_nil (g : Graph) (id : NodeId) : ¬ g.Concerns [] id := by
  rintro (h | ⟨u, h, _⟩) <;> exact absurd h List.not_mem_nil

theorem WellFormed.mem_of_reaches (hg : g.WellFormed) (hid : id ∈ g.nodeIds)
    (hu : ReflTransGen g.Feeds u id) : u ∈ g.nodeIds := by
  rcases ReflTransGen.cases_head hu with rfl | ⟨v, huv, _⟩
  · exact hid
  · exact (hg.mem_of_feeds huv).1

/-- Above a node that the journal does not concern all is as it was, and the journal did not
concern it before. -/
theorem Journals.sameAbove (h : g.Journals g') (hg : g.WellFormed) (hg' : g'.WellFormed)
    (hid : id ∈ g'.nodeIds) (hc : ¬ g'.Concerns g'.changes id) :
    g'.seed = g.seed ∧ g.SameAbove g' id ∧ ¬ g.Concerns g.changes id := by
  obtain ⟨new, hchanges, hnew⟩ := h
  rw [hchanges, Concerns, List.mem_append, Change.affectedBy_append, not_or, not_or] at hc
  obtain ⟨⟨hold, hlog⟩, haff⟩ := hc
  obtain ⟨hseed, hsame⟩ := hnew.resolve_left hlog
  have habove : g.SameAbove g' id := fun v hv => by
    refine hsame v (hg'.mem_of_reaches hid hv) fun hvnew => haff ⟨v, ?_, hv⟩
    exact List.mem_append_right _ hvnew
  refine ⟨hseed, habove, ?_⟩
  rintro (hseed | ⟨u, hu, huid⟩)
  · exact hold hseed
  · exact haff ⟨u, List.mem_append_left _ hu, (habove.reaches_iff hg hg').2 huid⟩

/-- The graph with only the connections that start in a part of it. -/
def within (g : Graph) (part : List NodeId) : Graph :=
  { g with connections := g.connections.filter (part.contains ·.source.node) }

@[simp] theorem feeds_within : (g.within part).Feeds u v ↔ u ∈ part ∧ g.Feeds u v := by
  simp only [Feeds, within, List.mem_filter, List.contains_iff_mem]
  constructor
  · rintro ⟨c, ⟨hc, hpart⟩, rfl, rfl⟩
    exact ⟨hpart, c, hc, rfl, rfl⟩
  · rintro ⟨hpart, c, hc, rfl, rfl⟩
    exact ⟨c, ⟨hc, hpart⟩, rfl, rfl⟩

theorem Behind.of_within (h : (g.within part).Behind id) : g.Behind id := by
  obtain ⟨c, hc, hcid⟩ := h
  have hfeeds : ∀ u v, (g.within part).Feeds u v → g.Feeds u v := fun _ _ h => (feeds_within.1 h).2
  exact ⟨c, TransGen.mono hfeeds _ _ hc, ReflTransGen.mono hfeeds _ _ hcid⟩

theorem OnCycle.within (h : g.OnCycle id) (hclosed : g.ClosedForward (· ∈ part))
    (hid : id ∈ part) : (g.within part).OnCycle id := by
  have hfrom : ∀ {v}, TransGen g.Feeds id v → TransGen (g.within part).Feeds id v := by
    intro v hv
    induction hv with
    | single hv => exact .single (feeds_within.2 ⟨hid, hv⟩)
    | tail hu huv ih =>
      exact .tail ih (feeds_within.2 ⟨hclosed.reaches hu.to_reflTransGen hid, huv⟩)
  exact hfrom h

/-- Nodes that each are fed by another of them, beyond which a part of the graph has no cycle, are
those that are behind a cycle within the part: they have no first one. -/
theorem mem_iff_behind_within {waiting : List NodeId}
    (stuck : ∀ id ∈ waiting, id ∈ part ∧ ∃ u ∈ waiting, g.Feeds u id)
    (grounded : ∀ id ∈ part, id ∉ waiting → Acc (fun u v => u ∈ part ∧ g.Feeds u v) id) :
    id ∈ waiting ↔ id ∈ part ∧ (g.within part).Behind id := by
  constructor
  · intro hw
    refine ⟨(stuck id hw).1, ?_⟩
    by_contra hapart
    have hacc : Acc (g.within part).Feeds id := acc_of_not_behind hapart
    clear hapart
    induction hacc with
    | intro id _ ih =>
      obtain ⟨_, u, hu, huv⟩ := stuck id hw
      exact ih u (feeds_within.2 ⟨(stuck u hu).1, huv⟩) hu
  · rintro ⟨hid, hb⟩
    by_contra hw
    refine acc_iff_not_behind.1 ?_ hb
    exact Subrelation.accessible feeds_within.1 (grounded id hid hw)

/-- All of the graph is a part of it, too. -/
theorem behind_within_all (hg : g.WellFormed) (hall : ∀ u ∈ g.nodeIds, u ∈ part) :
    (g.within part).Behind id ↔ g.Behind id := by
  have hfeeds : (g.within part).Feeds = g.Feeds := by
    funext u v
    rw [feeds_within, eq_iff_iff, and_iff_right_iff_imp]
    exact fun huv => hall u (hg.mem_of_feeds huv).1
  unfold Behind OnCycle
  rw [hfeeds]

/-- A pass over a part of the graph overtakes a node of that part: the node is behind a cycle, but
not within the part. -/
def Overtakes (g : Graph) (part : List NodeId) (id : NodeId) : Prop :=
  id ∈ part ∧ g.Behind id ∧ ¬ (g.within part).Behind id

/-- A node on a cycle is not overtaken, as the cycle is in every part that the node is in. -/
theorem Overtakes.not_onCycle (h : g.Overtakes part id) (hclosed : g.ClosedForward (· ∈ part)) :
    ¬ g.OnCycle id :=
  fun hc => h.2.2 ⟨id, hc.within hclosed h.1, .refl⟩

/-- Nothing is overtaken in all of the graph. -/
theorem not_overtakes_all (hg : g.WellFormed) (hall : ∀ u ∈ g.nodeIds, u ∈ part) :
    ¬ g.Overtakes part id := by
  rintro ⟨_, hb, hwithin⟩
  exact hwithin ((behind_within_all hg hall).2 hb)

end Graph
end Terrain
