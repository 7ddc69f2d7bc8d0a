import Terrain.Proofs.Except
import Terrain.Proofs.Pass.Attempt

/-! How far a pass has come, as an invariant of its steps. A node that no longer waits shows what
it has to show, and since the nodes that feed it do not wait either, it goes on to do so: no node
is compiled against a value that changes later in the pass. -/
namespace Terrain

namespace Pass

open Relation

variable {cx : PassSetting} {p q : Pass} {id : NodeId} {n : Node} {within : NodeId → Prop}
  {before : NodeId → Option Meaning} {Γ : Ledger}

theorem isPending_iff : p.isPending id = true ↔ id ∈ p.waiting ∨ id ∈ p.failed := by
  simp [isPending]

theorem isEligible_iff : p.isEligible cx id = true ↔ ∀ u, cx.graph.Feeds u id → u ∉ p.waiting := by
  simp [isEligible]

theorem not_isEligible_iff :
    p.isEligible cx id = false ↔ ∃ u ∈ p.waiting, cx.graph.Feeds u id := by
  simp [isEligible, and_comm]

/-- The invariant of a pass over some of the nodes, where nodes showed `before` when it began. -/
structure Progress (cx : PassSetting) (within : NodeId → Prop) (before : NodeId → Option Meaning)
    (p : Pass) : Prop where
  /-- A pending node is one of the pass, and shows nothing. -/
  pending : ∀ id, p.isPending id = true → within id ∧ p.shows id = none
  apart : ∀ id ∈ p.failed, id ∉ p.waiting
  outside : ∀ id, ¬ within id → p.shows id = before id
  /-- A node that no longer waits shows what it has to show. -/
  settled : ∀ id n, within id → id ∉ p.waiting → cx.graph.node? id = some n →
    p.shows id = (p.due cx n).toOption
  resolved : ∀ id, within id → id ∉ p.waiting → p.shows id = none → id ∈ p.failed
  /-- A node that is fed by one that waits does so too. -/
  ready : ∀ u id, cx.graph.Feeds u id → within id → u ∈ p.waiting → id ∈ p.waiting
  /-- A node that no longer waits is not behind a cycle within the pass. -/
  grounded : ∀ id, within id → id ∉ p.waiting →
    Acc (fun u v => within u ∧ cx.graph.Feeds u v) id
  faults : ∀ e ∈ p.failures, ∃ id n fault, e = .compileFailure id fault ∧ id ∈ p.failed ∧
    cx.graph.node? id = some n ∧ p.due cx n = .error fault
  faulted : ∀ id ∈ p.failed, ∃ fault, .compileFailure id fault ∈ p.failures

/-- The invariant does not look at the work-list, nor at the store. -/
theorem Progress.congr (h : Progress cx within before p) (hshows : q.shows = p.shows)
    (hwaiting : q.waiting = p.waiting) (hfailed : q.failed = p.failed)
    (hfailures : q.failures = p.failures) : Progress cx within before q := by
  have hdue : ∀ n, q.due cx n = p.due cx n := fun n => by rw [due, due, hshows]
  have hpending : ∀ id, q.isPending id = p.isPending id := fun id => by
    rw [isPending, isPending, hwaiting, hfailed]
  refine ⟨?_, ?_, ?_, ?_, ?_, ?_, ?_, ?_, ?_⟩
  all_goals simp only [hshows, hwaiting, hfailed, hfailures, hdue, hpending]
  exacts [h.pending, h.apart, h.outside, h.settled, h.resolved, h.ready, h.grounded, h.faults,
    h.faulted]

/-- A node leaves the nodes that wait and shows what it has to show. -/
structure Settles (cx : PassSetting) (p : Pass) (n : Node) (q : Pass) : Prop where
  node : cx.graph.node? n.id = some n
  eligible : ∀ u, cx.graph.Feeds u n.id → u ∉ p.waiting
  waits : n.id ∈ p.waiting
  shows : q.shows = Function.update p.shows n.id (p.due cx n).toOption
  waiting : q.waiting = p.waiting.filter (· ≠ n.id)

namespace Settles

theorem mem_waiting (hs : Settles cx p n q) : id ∈ q.waiting ↔ id ∈ p.waiting ∧ id ≠ n.id := by
  rw [hs.waiting]
  simp

theorem shows_of_ne (hs : Settles cx p n q) (h : id ≠ n.id) : q.shows id = p.shows id := by
  rw [hs.shows, Function.update_of_ne h]

theorem shows_self (hs : Settles cx p n q) : q.shows n.id = (p.due cx n).toOption := by
  rw [hs.shows, Function.update_self]

/-- Nothing that has settled, the node itself included, is fed by the node. -/
theorem not_feeds (hs : Settles cx p n q) (h : Progress cx within before p) (hid : within id)
    (hw : id ∉ q.waiting) : ¬ cx.graph.Feeds n.id id := by
  intro hf
  by_cases heq : id = n.id
  · subst heq
    exact hs.eligible _ hf hs.waits
  · exact hw (hs.mem_waiting.2 ⟨h.ready _ _ hf hid hs.waits, heq⟩)

theorem due_eq (hs : Settles cx p n q) (h : Progress cx within before p) {m : Node}
    (hid : within id) (hw : id ∉ q.waiting) (hm : cx.graph.node? id = some m) :
    q.due cx m = p.due cx m := by
  refine Graph.due_congr hm cx.tile fun u _ hu => hs.shows_of_ne ?_
  rintro rfl
  exact hs.not_feeds h hid hw hu

theorem within_self (hs : Settles cx p n q) (h : Progress cx within before p) : within n.id :=
  (h.pending n.id (isPending_iff.2 (.inl hs.waits))).1

theorem settled (hs : Settles cx p n q) (h : Progress cx within before p) {m : Node}
    (hid : within id) (hw : id ∉ q.waiting) (hm : cx.graph.node? id = some m) :
    q.shows id = (q.due cx m).toOption := by
  rw [hs.due_eq h hid hw hm]
  by_cases heq : id = n.id
  · subst heq
    rw [hs.node] at hm
    cases hm
    exact hs.shows_self
  · rw [hs.shows_of_ne heq]
    exact h.settled id m hid (fun hw' => hw (hs.mem_waiting.2 ⟨hw', heq⟩)) hm

theorem ready (hs : Settles cx p n q) (h : Progress cx within before p) {u : NodeId}
    (hf : cx.graph.Feeds u id) (hid : within id) (hu : u ∈ q.waiting) : id ∈ q.waiting := by
  have hu := (hs.mem_waiting.1 hu).1
  refine hs.mem_waiting.2 ⟨h.ready u id hf hid hu, ?_⟩
  rintro rfl
  exact hs.eligible u hf hu

theorem grounded (hs : Settles cx p n q) (h : Progress cx within before p) (hid : within id)
    (hw : id ∉ q.waiting) : Acc (fun u v => within u ∧ cx.graph.Feeds u v) id := by
  by_cases heq : id = n.id
  · subst heq
    exact ⟨_, fun u ⟨hu, hf⟩ => h.grounded u hu (hs.eligible u hf)⟩
  · exact h.grounded id hid fun hw' => hw (hs.mem_waiting.2 ⟨hw', heq⟩)

section Failures
variable (hs : Settles cx p n q) (h : Progress cx within before p)
  (hfailed : ∀ id, id ∈ q.failed ↔ id ∈ p.failed ∨ id = n.id ∧ (p.due cx n).toOption = none)
include hs h hfailed

theorem pending (hid : q.isPending id = true) : within id ∧ q.shows id = none := by
  rcases isPending_iff.1 hid with hw | hf
  · obtain ⟨hw, heq⟩ := hs.mem_waiting.1 hw
    rw [hs.shows_of_ne heq]
    exact h.pending id (isPending_iff.2 (.inl hw))
  · rcases (hfailed id).1 hf with hf | ⟨rfl, hdue⟩
    · have hne : id ≠ n.id := fun heq => h.apart id hf (heq ▸ hs.waits)
      rw [hs.shows_of_ne hne]
      exact h.pending id (isPending_iff.2 (.inr hf))
    · exact ⟨hs.within_self h, hs.shows_self.trans hdue⟩

theorem apart (hid : id ∈ q.failed) : id ∉ q.waiting := by
  intro hw
  obtain ⟨hw, hne⟩ := hs.mem_waiting.1 hw
  rcases (hfailed id).1 hid with hf | ⟨heq, _⟩
  · exact h.apart id hf hw
  · exact hne heq

theorem resolved (hid : within id) (hw : id ∉ q.waiting) (hnone : q.shows id = none) :
    id ∈ q.failed := by
  by_cases heq : id = n.id
  · subst heq
    exact (hfailed _).2 (.inr ⟨rfl, hs.shows_self.symm.trans hnone⟩)
  · rw [hs.shows_of_ne heq] at hnone
    have hw' : id ∉ p.waiting := fun hw' => hw (hs.mem_waiting.2 ⟨hw', heq⟩)
    exact (hfailed id).2 (.inl (h.resolved id hid hw' hnone))

/-- A node that settles keeps the invariant, if it is recorded as failed just where it has nothing
to show. -/
theorem progress
    (hfaults : ∀ e ∈ q.failures, e ∈ p.failures ∨
      ∃ fault, e = .compileFailure n.id fault ∧ p.due cx n = .error fault)
    (hfailures : ∀ e ∈ p.failures, e ∈ q.failures)
    (hfaulted : (p.due cx n).toOption = none → ∃ fault, .compileFailure n.id fault ∈ q.failures) :
    Progress cx within before q where
  pending _ := hs.pending h hfailed
  apart _ := hs.apart h hfailed
  outside id hid := by
    rw [hs.shows_of_ne (by rintro rfl; exact hid (hs.within_self h))]
    exact h.outside id hid
  settled _ _ := hs.settled h
  resolved _ := hs.resolved h hfailed
  ready _ _ := hs.ready h
  grounded _ := hs.grounded h
  faults e he := by
    rcases hfaults e he with he | ⟨fault, rfl, hdue⟩
    · obtain ⟨id, m, fault, rfl, hf, hm, hdue⟩ := h.faults e he
      refine ⟨id, m, fault, rfl, (hfailed id).2 (.inl hf), hm, ?_⟩
      have hid := (h.pending id (isPending_iff.2 (.inr hf))).1
      rw [hs.due_eq h hid (fun hw => h.apart id hf (hs.mem_waiting.1 hw).1) hm, hdue]
    · refine ⟨n.id, n, fault, rfl, (hfailed _).2 (.inr ⟨rfl, by rw [hdue]; rfl⟩), hs.node, ?_⟩
      have hout : n.id ∉ q.waiting := fun hw => (hs.mem_waiting.1 hw).2 rfl
      rw [hs.due_eq h (hs.within_self h) hout hs.node, hdue]
  faulted id hid := by
    rcases (hfailed id).1 hid with hf | ⟨rfl, hdue⟩
    · obtain ⟨fault, he⟩ := h.faulted id hf
      exact ⟨fault, hfailures _ he⟩
    · exact hfaulted hdue

end Failures

end Settles

/-- A pending node that compiles was waiting: one that has failed does so again. -/
theorem Progress.waits_of_ok (h : Progress cx within before p) (hp : p.isPending n.id = true)
    (hn : cx.graph.node? n.id = some n) {m : Meaning} (hdue : p.due cx n = .ok m) :
    n.id ∈ p.waiting := by
  rcases isPending_iff.1 hp with hw | hf
  · exact hw
  · obtain ⟨hin, hnone⟩ := h.pending n.id hp
    have hs := h.settled n.id n hin (h.apart _ hf) hn
    rw [hnone, hdue] at hs
    cases hs

/-- An attempt at a pending node keeps the invariant. -/
theorem Progress.tried (h : Progress cx within before p) (hp : p.isPending n.id = true)
    (hn : cx.graph.node? n.id = some n) {o : Outcome} (ht : Tried cx p n o q) :
    Progress cx within before q := by
  cases ht with
  | blocked eligible => exact h
  | retried eligible hdue again hshows hwaiting hfailed hwork hfailures =>
    exact h.congr hshows hwaiting hfailed hfailures
  | calculated eligible hdue hshows hwaiting hfailed hwork hfailures =>
    have hw := h.waits_of_ok hp hn hdue
    have hs : Settles cx p n q :=
      ⟨hn, isEligible_iff.1 eligible, hw, by rw [hshows, hdue]; rfl, hwaiting⟩
    refine hs.progress h (fun id => ?_) (fun e he => .inl (hfailures ▸ he))
      (fun e he => hfailures ▸ he) (fun hnone => ?_)
    · rw [hfailed, hdue]
      simp only [ne_eq, List.mem_filter, decide_eq_true_eq, Except.toOption, reduceCtorEq,
        and_false, or_false, and_iff_left_iff_imp]
      exact fun hf heq => h.apart id hf (heq ▸ hw)
    · rw [hdue] at hnone
      cases hnone
  | @failed q fault eligible hdue first hshows hwaiting hfailed hwork hfailures =>
    have hw := (isPending_iff.1 hp).resolve_right first
    have hs : Settles cx p n q :=
      ⟨hn, isEligible_iff.1 eligible, hw, by rw [hshows, hdue]; rfl, hwaiting⟩
    refine hs.progress h (fun id => ?_) (fun e he => ?_) (fun e he => ?_) (fun _ => ⟨fault, ?_⟩)
    · rw [hfailed, hdue]
      simp [Except.toOption]
    · rw [hfailures, List.mem_append, List.mem_singleton] at he
      exact he.imp_right fun he => ⟨fault, he, hdue⟩
    · rw [hfailures]
      exact List.mem_append_left _ he
    · rw [hfailures]
      exact List.mem_append_right _ (List.mem_singleton.2 rfl)

end Pass
end Terrain
