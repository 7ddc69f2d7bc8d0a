import Terrain.Proofs.Pass.Heard
import Terrain.Proofs.Pass.Result

/-! Two passes over one graph that start from different values. As long as the nodes of the graph
show the same in both, each attempt comes to the same in both, and so the passes go on in step: they
settle the same nodes in the same order, fail alike and tell the same. -/
namespace Terrain

/-- Two results for one node that agree with one specification are the same failure, or show the
same. -/
theorem Scope.Agrees.alike {s s' : Scope} {Γ Γ' : Ledger} {r r' : Except GraphError Compiled}
    {spec : Except CompileFault Meaning} (h : s.Agrees (Realizes Γ) r spec)
    (h' : s'.Agrees (Realizes Γ') r' spec) (hid : s'.node.id = s.node.id) :
    (∃ x, r = .error x ∧ r' = .error x) ∨
      ∃ k k', r = .ok k ∧ r' = .ok k' ∧ k'.meaning = k.meaning := by
  cases spec with
  | error fault =>
    cases r with
    | ok k => exact h.elim
    | error x =>
      cases r' with
      | ok k' => exact h'.elim
      | error x' => exact .inl ⟨x, rfl, by rw [h, h', hid]⟩
  | ok m =>
    cases r with
    | error x => exact h.elim
    | ok k =>
      cases r' with
      | error x' => exact h'.elim
      | ok k' => exact .inr ⟨k, k', rfl, rfl, h'.2.trans h.2.symm⟩

namespace Pass

variable {cx : PassSetting} {p p' : Pass}

/-- Two passes have come to the same point: the nodes of the graph show the same in both, and what
is left to do and what was done is the same. -/
structure Matches (cx : PassSetting) (p p' : Pass) : Prop where
  shows : ∀ id ∈ cx.graph.nodeIds, p'.shows id = p.shows id
  waiting : p'.waiting = p.waiting
  failed : p'.failed = p.failed
  work : p'.work = p.work
  calculated : p'.calculated = p.calculated
  failures : p'.failures = p.failures
  events : p'.events = p.events

namespace Matches
variable (h : Matches cx p p')
include h

theorem isPending : p'.isPending = p.isPending := by
  funext id
  rw [Pass.isPending, Pass.isPending, h.waiting, h.failed]

theorem isEligible : p'.isEligible cx = p.isEligible cx := by
  funext id
  rw [Pass.isEligible, Pass.isEligible, h.waiting]

theorem due {n : Node} (hn : cx.graph.node? n.id = some n) : p'.due cx n = p.due cx n :=
  Graph.due_congr hn cx.tile fun u hu _ => h.shows u hu

theorem stalled : p'.stalled cx = p.stalled cx := by
  rw [Pass.stalled, Pass.stalled, h.isPending]

theorem emit (e : Event) : Matches cx (p.emit cx e) (p'.emit cx e) := by
  rw [emit_eq, emit_eq]
  exact ⟨h.shows, h.waiting, h.failed, h.work, h.calculated, h.failures,
    congrArg (· ++ cx.interest.heard [e]) h.events⟩

theorem notify (n n' : Notice) : Matches cx (p.notify n) (p'.notify n') :=
  ⟨h.shows, h.waiting, h.failed, h.work, h.calculated, h.failures, h.events⟩

theorem absorb (e e' : Effects) : Matches cx (p.absorb e) (p'.absorb e') :=
  ⟨h.shows, h.waiting, h.failed, h.work, h.calculated, h.failures, h.events⟩

theorem strike (id : NodeId) : Matches cx (p.strike id) (p'.strike id) :=
  ⟨h.shows, congrArg (List.filter (· ≠ id)) h.waiting, congrArg (List.filter (· ≠ id)) h.failed,
    h.work, h.calculated, h.failures, h.events⟩

theorem plan (work : List NodeId) : Matches cx { p with work } { p' with work } :=
  ⟨h.shows, h.waiting, h.failed, rfl, h.calculated, h.failures, h.events⟩

theorem enqueue (id : NodeId) : Matches cx (p.enqueue id) (p'.enqueue id) := by
  unfold Pass.enqueue
  rw [h.work]
  split
  · exact h
  · exact h.plan _

theorem trim : Matches cx p.trim p'.trim := by
  unfold Pass.trim
  rw [h.work, h.isPending]
  exact h.plan _

theorem succeed (n : Node) {k k' : Compiled} (hk : k'.meaning = k.meaning) :
    Matches cx (p.succeed cx n k) (p'.succeed cx n k') where
  shows id hid := by
    rw [shows_succeed, shows_succeed, hk, Function.update_apply, Function.update_apply,
      h.shows id hid]
  waiting := by rw [waiting_succeed, waiting_succeed, h.waiting]
  failed := by rw [failed_succeed, failed_succeed, h.failed]
  work := by rw [work_succeed, work_succeed, h.work]
  calculated := by rw [calculated_succeed, calculated_succeed, h.calculated]
  failures := by rw [failures_succeed, failures_succeed, h.failures]
  events := by rw [events_succeed, events_succeed, h.events]

theorem fail (n : Node) (x : GraphError) : Matches cx (p.fail cx n x) (p'.fail cx n x) where
  shows id hid := by
    rw [shows_fail, shows_fail, Function.update_apply, Function.update_apply, h.shows id hid]
  waiting := by rw [waiting_fail, waiting_fail, h.waiting]
  failed := by rw [failed_fail, failed_fail, h.failed]
  work := by rw [work_fail, work_fail, h.work]
  calculated := by rw [calculated_fail, calculated_fail, h.calculated]
  failures := by rw [failures_fail, failures_fail, h.failures]
  events := by rw [events_fail, events_fail, h.events]

theorem closeStalled : Matches cx (p.closeStalled cx) (p'.closeStalled cx) := by
  unfold Pass.closeStalled
  rw [h.stalled]
  dsimp only
  split
  · exact h
  · have h' := (h.notify (.passStalled (.unsatisfiableDependency (p.stalled cx)))
      (.passStalled (.unsatisfiableDependency (p.stalled cx)))).emit (.stalled (p.stalled cx))
    exact ⟨h'.shows, h'.waiting, h'.failed, h'.work, h'.calculated,
      congrArg (· ++ [GraphError.unsatisfiableDependency (p.stalled cx)]) h'.failures, h'.events⟩

theorem report : p'.report cx = p.report cx := by
  rw [Pass.report, Pass.report, h.calculated, h.failures, h.stalled]

theorem finish : (p'.finish cx).1 = (p.finish cx).1 ∧
    Matches cx (p.finish cx).2 (p'.finish cx).2 := by
  refine ⟨h.report, ?_⟩
  unfold Pass.finish
  rw [h.report]
  exact (h.notify _ _).emit _

end Matches

section Equations
variable {n : Node}

theorem attempt_of_unknown {id : NodeId} (hn : cx.graph.node? id = none) :
    p.attempt cx id = (.blocked, if p.isEligible cx id then p.strike id else p) := by
  unfold attempt
  rw [hn]
  split <;> rfl

theorem attempt_of_blocked (blocked : ¬ p.isEligible cx n.id = true) :
    p.attempt cx n.id = (.blocked, p) := by
  rw [attempt, if_neg blocked]

variable (hn : cx.graph.node? n.id = some n) (eligible : p.isEligible cx n.id = true)
include hn eligible

theorem attempt_of_ok {k : Compiled}
    (compiles : ((p.scope cx n).compile.outcome ⟨p.store, []⟩).1 = .ok k) :
    p.attempt cx n.id = (.calculated,
      (p.absorb ((p.scope cx n).compile.outcome ⟨p.store, []⟩).2).succeed cx n k) := by
  rcases hout : (p.scope cx n).compile.outcome ⟨p.store, []⟩ with ⟨r, e⟩
  obtain rfl : r = .ok k := by rwa [hout] at compiles
  have hrun : (p.scope cx n).compile.run.run ⟨p.store, []⟩ = (.ok k, e) := hout
  simp only [attempt, if_pos eligible, hn, compileNode, hrun]

theorem attempt_of_error {x : GraphError}
    (fails : ((p.scope cx n).compile.outcome ⟨p.store, []⟩).1 = .error x) :
    p.attempt cx n.id =
      if p.failed.contains n.id then
        (.failed false, p.absorb ((p.scope cx n).compile.outcome ⟨p.store, []⟩).2)
      else (.failed true,
        (p.absorb ((p.scope cx n).compile.outcome ⟨p.store, []⟩).2).fail cx n x) := by
  rcases hout : (p.scope cx n).compile.outcome ⟨p.store, []⟩ with ⟨r, e⟩
  obtain rfl : r = .error x := by rwa [hout] at fails
  have hrun : (p.scope cx n).compile.run.run ⟨p.store, []⟩ = (.error x, e) := hout
  simp only [attempt, if_pos eligible, hn, compileNode, hrun]

end Equations

/-- A pass whose values are backed by some ledger. -/
def Backed (p : Pass) : Prop := ∃ Γ : Ledger, Γ.Backs (fun _ => True) p.compiled p.store

theorem Backed.emit (h : p.Backed) (cx : PassSetting) (e : Event) : (p.emit cx e).Backed := by
  rwa [Backed, compiled_emit, store_emit]

theorem Backed.attempt (h : p.Backed) (cx : PassSetting) (id : NodeId) :
    (p.attempt cx id).2.Backed := by
  obtain ⟨Γ, hΓ⟩ := h
  cases hn : cx.graph.node? id with
  | none =>
    rw [attempt_of_unknown hn]
    refine ⟨Γ, ?_⟩
    dsimp only
    split <;> exact hΓ
  | some n =>
    obtain ⟨_, Γ', _, hΓ'⟩ := attempt_tried hΓ (fun _ _ => trivial) hn
    exact ⟨Γ', hΓ'⟩

/-- What compiling a node comes to, against what the node has to show. -/
theorem Backed.agrees (h : p.Backed) (cx : PassSetting) (n : Node) : ∃ Γ : Ledger,
    (p.scope cx n).Agrees (Scope.Realizes Γ)
      ((p.scope cx n).compile.outcome ⟨p.store, []⟩).1 (p.due cx n) := by
  obtain ⟨Γ, hΓ⟩ := h
  obtain ⟨Γ', _, _, hagrees⟩ := Scope.means_due (hΓ.scope (fun _ _ => trivial) cx.tile n) Γ
    ⟨p.store, []⟩ List.prefix_rfl hΓ.holds
  exact ⟨Γ', hagrees⟩

/-- An attempt comes to the same in passes that have come to the same point. -/
theorem Matches.attempt (h : Matches cx p p') (hb : p.Backed) (hb' : p'.Backed) (id : NodeId) :
    (p'.attempt cx id).1 = (p.attempt cx id).1 ∧
      Matches cx (p.attempt cx id).2 (p'.attempt cx id).2 := by
  cases hn : cx.graph.node? id with
  | none =>
    rw [attempt_of_unknown hn, attempt_of_unknown hn, h.isEligible]
    refine ⟨rfl, ?_⟩
    dsimp only
    split
    · exact h.strike id
    · exact h
  | some n =>
    obtain rfl := Graph.id_of_node? hn
    by_cases eligible : p.isEligible cx n.id = true
    · have eligible' : p'.isEligible cx n.id = true := by rwa [h.isEligible]
      -- Both attempts agree with what the node has to show, which is the same in both passes.
      obtain ⟨_, hagrees⟩ := hb.agrees cx n
      obtain ⟨_, hagrees'⟩ := hb'.agrees cx n
      rw [h.due hn] at hagrees'
      obtain ⟨x, fails, fails'⟩ | ⟨k, k', compiles, compiles', hk⟩ :=
        hagrees.alike hagrees' rfl
      · rw [attempt_of_error hn eligible fails, attempt_of_error hn eligible' fails', h.failed]
        split
        · exact ⟨rfl, h.absorb _ _⟩
        · exact ⟨rfl, (h.absorb _ _).fail n x⟩
      · rw [attempt_of_ok hn eligible compiles, attempt_of_ok hn eligible' compiles']
        exact ⟨rfl, (h.absorb _ _).succeed n hk⟩
    · have blocked' : ¬ p'.isEligible cx n.id = true := by rwa [h.isEligible]
      rw [attempt_of_blocked eligible, attempt_of_blocked blocked']
      exact ⟨rfl, h⟩

/-- Two passes are in step: they have come to the same point, each with values of its own. -/
structure Lockstep (cx : PassSetting) (p p' : Pass) : Prop extends Matches cx p p' where
  backed : p.Backed
  backed' : p'.Backed

namespace Lockstep

theorem enqueue (h : Lockstep cx p p') (id : NodeId) :
    Lockstep cx (p.enqueue id) (p'.enqueue id) := by
  have hsame : ∀ p : Pass, p.Backed → (p.enqueue id).Backed := fun p hp => by
    unfold Pass.enqueue
    split <;> exact hp
  exact ⟨h.toMatches.enqueue id, hsame p h.backed, hsame p' h.backed'⟩

theorem attempt (h : Lockstep cx p p') (id : NodeId) :
    (p'.attempt cx id).1 = (p.attempt cx id).1 ∧
      Lockstep cx (p.attempt cx id).2 (p'.attempt cx id).2 := by
  obtain ⟨houtcome, hmatches⟩ := h.toMatches.attempt h.backed h.backed' id
  exact ⟨houtcome, hmatches, h.backed.attempt cx id, h.backed'.attempt cx id⟩

theorem pushForward (h : Lockstep cx p p') (stack : List NodeId) :
    Lockstep cx (pushForward cx p stack) (pushForward cx p' stack) := by
  -- The induction is on the turns of the first push, which the second one takes as well.
  fun_induction Pass.pushForward cx p stack generalizing p'
  case case1 p => rwa [Pass.pushForward]
  case case2 p next rest hw step ha ih =>
    obtain ⟨houtcome, hstep⟩ := (h.enqueue next).attempt next
    rw [Pass.pushForward, dif_pos (h.waiting ▸ hw)]
    dsimp only
    rw [dif_pos (houtcome ▸ ha)]
    exact ih hstep
  case case3 p next rest hw step ha ih =>
    obtain ⟨houtcome, hstep⟩ := (h.enqueue next).attempt next
    rw [Pass.pushForward, dif_pos (h.waiting ▸ hw)]
    dsimp only
    rw [dif_neg (houtcome ▸ ha)]
    exact ih hstep
  case case4 p next rest hw ih =>
    rw [Pass.pushForward, dif_neg (h.waiting ▸ hw)]
    exact ih h

theorem scan (h : Lockstep cx p p') (ids : List NodeId) :
    (scan cx ids p').1 = (scan cx ids p).1 ∧ Lockstep cx (scan cx ids p).2 (scan cx ids p').2 := by
  induction ids generalizing p p' with
  | nil => exact ⟨rfl, h⟩
  | cons id rest ih =>
    rw [Pass.scan, Pass.scan, h.isPending]
    split
    · obtain ⟨houtcome, hstep⟩ := h.attempt id
      dsimp only
      rw [houtcome]
      split
      · exact ⟨rfl, (ih (hstep.pushForward (cx.graph.readers id))).2⟩
      · exact ih hstep
    · exact ih h

theorem round (h : Lockstep cx p p') :
    (Pass.scan cx p'.work p').1 = (Pass.scan cx p.work p).1 ∧
      Lockstep cx (Pass.scan cx p.work p).2.trim (Pass.scan cx p'.work p').2.trim := by
  obtain ⟨hflag, hscan⟩ := h.scan p.work
  rw [h.work]
  exact ⟨hflag, hscan.toMatches.trim, hscan.backed, hscan.backed'⟩

theorem settle (h : Lockstep cx p p') : Lockstep cx (settle cx p) (settle cx p') := by
  fun_induction Pass.settle cx p generalizing p'
  case case1 p round next hdone =>
    obtain ⟨hflag, hnext⟩ := h.round
    rw [Pass.settle.eq_def cx p']
    dsimp only
    rw [hflag, hnext.work, dif_pos hdone]
    exact hnext
  case case2 p round next hmore ih =>
    obtain ⟨hflag, hnext⟩ := h.round
    rw [Pass.settle.eq_def cx p']
    dsimp only
    rw [hflag, hnext.work, dif_neg hmore]
    exact ih hnext

theorem closeStalled (h : Lockstep cx p p') :
    Lockstep cx (p.closeStalled cx) (p'.closeStalled cx) := by
  have hsame : ∀ p : Pass, p.Backed → (p.closeStalled cx).Backed := fun p hp => by
    obtain ⟨_, _, _, heq⟩ := closeStalled_eq p cx
    rw [heq]
    exact hp
  exact ⟨h.toMatches.closeStalled, hsame p h.backed, hsame p' h.backed'⟩

/-- Passes that are in step end with one report, and in step. -/
theorem run (h : Lockstep cx p p') (full : Bool) :
    (p'.run cx full).1 = (p.run cx full).1 ∧ Lockstep cx (p.run cx full).2 (p'.run cx full).2 := by
  have hstart : Lockstep cx (p.emit cx (.passStarted full p.work))
      (p'.emit cx (.passStarted full p'.work)) := by
    rw [h.work]
    exact ⟨h.toMatches.emit _, h.backed.emit cx _, h.backed'.emit cx _⟩
  have hend := hstart.settle.closeStalled
  obtain ⟨hreport, hmatches⟩ := hend.toMatches.finish
  refine ⟨hreport, hmatches, ?_, ?_⟩
  · exact Backed.emit (p := Pass.notify _ _) hend.backed cx _
  · exact Backed.emit (p := Pass.notify _ _) hend.backed' cx _

end Lockstep
end Pass
end Terrain
