import Mathlib.Data.Finset.Filter
import Mathlib.Data.Finset.Card
import Mathlib.Logic.Relation
import Terrain.Graph.Basic

/-! Which nodes feed which. The nodes that are neither on a directed cycle nor downstream of one
are those on which feeding is well-founded, and the nodes reached forward from seeds are those
that the seeds feed in any number of steps. -/
namespace Terrain
namespace Graph

open Relation

variable {g : Graph} {u v id : NodeId}

/-- One node feeds another: a connection runs from an output of the one to an input of the
other. -/
def Feeds (g : Graph) (u v : NodeId) : Prop :=
  ∃ c ∈ g.connections, c.source.node = u ∧ c.target.node = v

/-- A node lies on a directed cycle. -/
def OnCycle (g : Graph) (id : NodeId) : Prop := TransGen g.Feeds id id

/-- A node lies on a directed cycle or downstream of one. -/
def Behind (g : Graph) (id : NodeId) : Prop := ∃ c, g.OnCycle c ∧ ReflTransGen g.Feeds c id

/-- No node lies on a directed cycle. -/
def Acyclic (g : Graph) : Prop := ∀ id, ¬ g.OnCycle id

@[simp] theorem mem_feeders : u ∈ g.feeders v ↔ g.Feeds u v := by
  simp [feeders, Feeds, and_comm, and_assoc]

@[simp] theorem mem_readers : v ∈ g.readers u ↔ g.Feeds u v := by
  simp [readers, Feeds, and_assoc]

theorem Behind.feeds (h : g.Behind u) (huv : g.Feeds u v) : g.Behind v := by
  obtain ⟨c, hc, hcu⟩ := h
  exact ⟨c, hc, hcu.tail huv⟩

theorem Acyclic.not_behind (h : g.Acyclic) (id : NodeId) : ¬ g.Behind id :=
  fun ⟨c, hc, _⟩ => h c hc

open Classical in
/-- The nodes from which a node is fed, in any number of steps. -/
noncomputable def upstream (g : Graph) (id : NodeId) : Finset NodeId :=
  (g.connections.map (·.source.node)).toFinset.filter fun u => TransGen g.Feeds u id

theorem mem_upstream : u ∈ g.upstream id ↔ TransGen g.Feeds u id := by
  simp only [upstream, Finset.mem_filter, List.mem_toFinset, List.mem_map, and_iff_right_iff_imp]
  intro h
  obtain ⟨_, ⟨c, hc, hu, _⟩, _⟩ := TransGen.head'_iff.1 h
  exact ⟨c, hc, hu⟩

/-- What feeds a node that is not on a cycle has less upstream of it. -/
theorem upstream_ssubset (huv : g.Feeds u v) (h : ¬ g.OnCycle u) : g.upstream u ⊂ g.upstream v := by
  refine Finset.ssubset_iff_subset_ne.2 ⟨fun w hw => ?_, fun heq => h ?_⟩
  · exact mem_upstream.2 ((mem_upstream.1 hw).tail huv)
  · exact mem_upstream.1 (heq ▸ mem_upstream.2 (.single huv))

/-- The number of nodes from which a node is fed. -/
noncomputable def depth (g : Graph) (id : NodeId) : Nat := (g.upstream id).card

theorem depth_lt (huv : g.Feeds u v) (h : ¬ g.OnCycle u) : g.depth u < g.depth v :=
  Finset.card_lt_card (upstream_ssubset huv h)

theorem acc_of_not_behind (h : ¬ g.Behind id) : Acc g.Feeds id := by
  induction hn : g.depth id using Nat.strong_induction_on generalizing id with
  | h n ih =>
    refine ⟨id, fun u hu => ih _ ?_ (fun hb => h (hb.feeds hu)) rfl⟩
    rw [← hn]
    exact depth_lt hu fun hc => h (Behind.feeds ⟨u, hc, .refl⟩ hu)

theorem not_onCycle_of_acc (h : Acc g.Feeds id) : ¬ g.OnCycle id := by
  replace h := h.transGen
  induction h with
  | intro id _ ih => exact fun hc => ih id hc hc

/-- Feeding is well-founded on just those nodes that are not behind a cycle. -/
theorem acc_iff_not_behind : Acc g.Feeds id ↔ ¬ g.Behind id := by
  refine ⟨?_, acc_of_not_behind⟩
  rintro h ⟨c, hc, hcid⟩
  induction hcid with
  | refl => exact not_onCycle_of_acc h hc
  | tail _ huv ih => exact ih (h.inv huv)

/-- A graph whose connections all run to a greater node has no cycle. -/
theorem acyclic_of_ascending (h : ∀ c ∈ g.connections, c.source.node.index < c.target.node.index) :
    g.Acyclic := by
  have hlt : ∀ u v, TransGen g.Feeds u v → u.index < v.index := by
    intro u v huv
    induction huv with
    | single huv => obtain ⟨c, hc, rfl, rfl⟩ := huv; exact h c hc
    | tail _ huv ih => obtain ⟨c, hc, rfl, rfl⟩ := huv; exact ih.trans (h c hc)
  exact fun id hc => Nat.lt_irrefl _ (hlt id id hc)

/-- A set of nodes that is closed under feeding in one direction. -/
def ClosedForward (g : Graph) (s : NodeId → Prop) : Prop := ∀ u v, g.Feeds u v → s u → s v

theorem ClosedForward.reaches {s : NodeId → Prop} (h : g.ClosedForward s)
    (huv : ReflTransGen g.Feeds u v) (hu : s u) : s v := by
  induction huv with
  | refl => exact hu
  | tail _ hvw ih => exact h _ _ hvw ih

section Spread
variable {reached : List NodeId}

/-- A round of spreading keeps the nodes reached, takes every connection that starts at one, and
stays within a set that is closed forward. -/
theorem spread_spec (cs : List Connection) (reached : List NodeId) :
    let after := cs.foldl (fun acc c =>
      if acc.contains c.source.node && !acc.contains c.target.node then acc ++ [c.target.node]
      else acc) reached
    (∀ id ∈ reached, id ∈ after) ∧
      (∀ c ∈ cs, c.source.node ∈ reached → c.target.node ∈ after) ∧
        ∀ s : NodeId → Prop, (∀ c ∈ cs, s c.source.node → s c.target.node) →
          (∀ id ∈ reached, s id) → ∀ id ∈ after, s id := by
  induction cs generalizing reached with
  | nil => simp
  | cons c cs ih =>
    dsimp only [List.foldl_cons]
    split
    · next hc =>
      simp only [Bool.and_eq_true, Bool.not_eq_true', List.contains_eq_mem, decide_eq_true_eq,
        decide_eq_false_iff_not] at hc
      obtain ⟨hkeep, htake, hstay⟩ := ih (reached ++ [c.target.node])
      refine ⟨fun id hid => hkeep id (by simp [hid]), fun d hd hsource => ?_, fun s hs hr => ?_⟩
      · rcases List.mem_cons.1 hd with rfl | hd
        · exact hkeep _ (by simp)
        · exact htake d hd (by simp [hsource])
      · refine hstay s (fun d hd => hs d (by simp [hd])) fun id hid => ?_
        rcases List.mem_append.1 hid with hid | hid
        · exact hr id hid
        · obtain rfl := List.mem_singleton.1 hid
          exact hs c (by simp) (hr _ hc.1)
    · next hc =>
      obtain ⟨hkeep, htake, hstay⟩ := ih reached
      refine ⟨hkeep, fun d hd hsource => ?_, fun s hs hr =>
        hstay s (fun d hd => hs d (by simp [hd])) hr⟩
      rcases List.mem_cons.1 hd with rfl | hd
      · refine hkeep _ ?_
        simpa [hsource] using hc
      · exact htake d hd hsource

theorem subset_spread (h : id ∈ reached) : id ∈ g.spread reached :=
  (spread_spec g.connections reached).1 id h

theorem feeds_spread (huv : g.Feeds u v) (h : u ∈ reached) : v ∈ g.spread reached := by
  obtain ⟨c, hc, rfl, rfl⟩ := huv
  exact (spread_spec g.connections reached).2.1 c hc h

theorem spread_within {s : NodeId → Prop} (hs : g.ClosedForward s) (h : ∀ id ∈ reached, s id) :
    ∀ id ∈ g.spread reached, s id :=
  (spread_spec g.connections reached).2.2 s (fun c hc => hs _ _ ⟨c, hc, rfl, rfl⟩) h

/-- The connections that do not end at a node reached. -/
def unspent (g : Graph) (reached : List NodeId) : List Connection :=
  g.connections.filter fun c => c.target.node ∉ reached

/-- A round spends a connection, unless the nodes reached are closed forward. -/
theorem unspent_spread_lt (h : ¬ g.ClosedForward (· ∈ reached)) :
    (g.unspent (g.spread reached)).length < (g.unspent reached).length := by
  obtain ⟨u, v, ⟨c, hc, rfl, rfl⟩, hu, hv⟩ :
      ∃ u v, g.Feeds u v ∧ u ∈ reached ∧ v ∉ reached := by
    simpa [ClosedForward] using h
  have hsub : g.unspent (g.spread reached) =
      (g.unspent reached).filter fun c => c.target.node ∉ g.spread reached := by
    simp only [unspent, List.filter_filter]
    refine List.filter_congr fun d _ => ?_
    by_cases hd : d.target.node ∈ reached
    · simp [hd, subset_spread hd]
    · simp [hd]
  rw [hsub]
  refine List.length_filter_lt_length_iff_exists.2 ⟨c, by simp [unspent, hc, hv], ?_⟩
  simpa using feeds_spread ⟨c, hc, rfl, rfl⟩ hu

end Spread

/-- After some rounds the nodes reached are closed forward, or a connection was spent in each. -/
theorem closed_or_spent (g : Graph) (seeds : List NodeId) (n : Nat) :
    g.ClosedForward (· ∈ Nat.repeat g.spread n seeds) ∨
      (g.unspent (Nat.repeat g.spread n seeds)).length + n ≤ g.connections.length := by
  induction n with
  | zero => exact .inr (List.length_filter_le _ _)
  | succ n ih =>
    rw [Nat.repeat]
    by_cases hc : g.ClosedForward (· ∈ Nat.repeat g.spread n seeds)
    · left
      intro u v huv hu
      exact feeds_spread huv (spread_within hc (fun _ h => h) u hu)
    · right
      have hlt := unspent_spread_lt hc
      have hle := ih.resolve_left hc
      omega

/-- The nodes reached forward from seeds are those that some seed feeds in any number of
steps. -/
theorem mem_forward {seeds : List NodeId} :
    id ∈ g.forward seeds ↔ ∃ s ∈ seeds, ReflTransGen g.Feeds s id := by
  have hclosed : g.ClosedForward (· ∈ g.forward seeds) := by
    rcases g.closed_or_spent seeds.eraseDups g.connections.length with h | h
    · exact h
    · intro u v ⟨c, hc, _, hv⟩ _
      have hspent : g.unspent (g.forward seeds) = [] := List.length_eq_zero_iff.1 (by
        rw [forward]; omega)
      simpa [hv] using List.filter_eq_nil_iff.1 hspent c hc
  have hwithin : ∀ n, (∀ s ∈ seeds, s ∈ Nat.repeat g.spread n seeds.eraseDups) ∧
      ∀ v ∈ Nat.repeat g.spread n seeds.eraseDups, ∃ s ∈ seeds, ReflTransGen g.Feeds s v := by
    intro n
    induction n with
    | zero => exact ⟨fun s hs => by simpa [Nat.repeat] using hs,
        fun v hv => ⟨v, by simpa [Nat.repeat] using hv, .refl⟩⟩
    | succ n ih =>
      refine ⟨fun s hs => subset_spread (ih.1 s hs), spread_within ?_ ih.2⟩
      exact fun u v huv ⟨s, hs, hsu⟩ => ⟨s, hs, hsu.tail huv⟩
  refine ⟨(hwithin _).2 id, fun ⟨s, hs, hsid⟩ => hclosed.reaches hsid ((hwithin _).1 s hs)⟩

end Graph
end Terrain
