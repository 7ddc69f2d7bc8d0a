import Terrain.Pass.Run

/-! What an observer hears of a pass: of the events that there are, those of the kinds that it
wants. What it wants has no part in anything else, so a pass runs alike for all observers. -/
namespace Terrain

/-- Those of some events that are of the kinds that an observer wants. -/
def Interest.heard (interest : Interest) (events : List Event) : List Event :=
  events.filter (interest ·.kind)

namespace Interest
variable {interest interest' : Interest}

@[simp] theorem heard_append (interest : Interest) (events more : List Event) :
    interest.heard (events ++ more) = interest.heard events ++ interest.heard more :=
  List.filter_append ..

@[simp] theorem heard_all (events : List Event) : all.heard events = events :=
  List.filter_eq_self.2 fun _ _ => rfl

/-- Nothing is lost on an observer where others hear first who want more. -/
theorem heard_heard (hless : ∀ kind, interest' kind = true → interest kind = true)
    (events : List Event) : interest'.heard (interest.heard events) = interest'.heard events := by
  rw [heard, heard, heard, List.filter_filter]
  refine List.filter_congr fun e _ => ?_
  cases hi : interest' e.kind with
  | false => rfl
  | true => rw [hless e.kind hi]; rfl

end Interest

/-- A setting for another observer. -/
def PassSetting.heardBy (cx : PassSetting) (interest : Interest) : PassSetting :=
  { cx with interest }

namespace Pass

theorem emit_eq (p : Pass) (cx : PassSetting) (e : Event) :
    p.emit cx e = { p with events := p.events ++ cx.interest.heard [e] } := by
  unfold emit
  split
  · next hwanted => simp [Interest.heard, hwanted]
  · next hwanted => simp [Interest.heard, hwanted]

section Events
variable (p : Pass) (cx : PassSetting)

@[simp] theorem events_emit (e : Event) :
    (p.emit cx e).events = p.events ++ cx.interest.heard [e] := by
  rw [emit_eq]

@[simp] theorem events_succeed (n : Node) (k : Compiled) : (p.succeed cx n k).events =
    p.events ++ cx.interest.heard [.nodeCalculated n.id n.kind.name] := by
  simp [succeed, strike, notify]

@[simp] theorem events_fail (n : Node) (e : GraphError) :
    (p.fail cx n e).events = p.events ++ cx.interest.heard [.compileFailed n.id e] := by
  simp [fail, notify]

end Events

/-- A pass of which an observer hears only what it wants. -/
def heardBy (p : Pass) (interest : Interest) : Pass :=
  { p with events := interest.heard p.events }

section Observers
variable {cx : PassSetting} {interest : Interest}
  (hless : ∀ kind, interest kind = true → cx.interest kind = true) (p : Pass)
include hless

theorem emit_heardBy (e : Event) :
    (p.heardBy interest).emit (cx.heardBy interest) e = (p.emit cx e).heardBy interest := by
  rw [emit_eq, emit_eq, heardBy, heardBy, Interest.heard_append, Interest.heard_heard hless]
  rfl

theorem succeed_heardBy (n : Node) (k : Compiled) :
    (p.heardBy interest).succeed (cx.heardBy interest) n k =
      (p.succeed cx n k).heardBy interest := by
  have h := emit_heardBy hless (({ p with compiled := p.compiled.insert n.id k }).notify
    (.nodeCalculated n.id n.kind.name)) (.nodeCalculated n.id n.kind.name)
  exact congrArg (fun q : Pass => { q.strike n.id with calculated := q.calculated ++ [n.id] }) h

theorem fail_heardBy (n : Node) (e : GraphError) :
    (p.heardBy interest).fail (cx.heardBy interest) n e = (p.fail cx n e).heardBy interest := by
  have h := emit_heardBy hless (({ p with
    compiled := p.compiled.erase n.id
    waiting := p.waiting.filter (· ≠ n.id)
    failed := p.failed ++ [n.id] }).notify (.nodeFailed n.id n.kind.name e)) (.compileFailed n.id e)
  exact congrArg (fun q : Pass => { q with failures := q.failures ++ [e] }) h

theorem compileNode_heardBy (n : Node) :
    (p.heardBy interest).compileNode (cx.heardBy interest) n =
      ((p.compileNode cx n).1, (p.compileNode cx n).2.heardBy interest) := by
  have hsame : ((p.heardBy interest).scope (cx.heardBy interest) n).compile.run.run
      ⟨(p.heardBy interest).store, []⟩ = (p.scope cx n).compile.run.run ⟨p.store, []⟩ := rfl
  unfold compileNode
  rw [hsame]
  rcases (p.scope cx n).compile.run.run ⟨p.store, []⟩ with ⟨e | k, effects⟩
  · change (if p.failed.contains n.id then
        (Outcome.failed false, (p.absorb effects).heardBy interest)
      else (.failed true, ((p.absorb effects).heardBy interest).fail (cx.heardBy interest) n e)) = _
    rw [fail_heardBy hless]
    dsimp only
    split <;> rfl
  · exact congrArg (Prod.mk _) (succeed_heardBy hless (p.absorb effects) n k)

theorem attempt_heardBy (id : NodeId) :
    (p.heardBy interest).attempt (cx.heardBy interest) id =
      ((p.attempt cx id).1, (p.attempt cx id).2.heardBy interest) := by
  have heligible : (p.heardBy interest).isEligible (cx.heardBy interest) id = p.isEligible cx id :=
    rfl
  have hnode : (cx.heardBy interest).graph.node? id = cx.graph.node? id := rfl
  unfold attempt
  rw [heligible, hnode]
  split
  · cases cx.graph.node? id with
    | none => rfl
    | some n => exact compileNode_heardBy hless p n
  · rfl

omit hless in
theorem enqueue_heardBy (interest : Interest) (id : NodeId) :
    (p.heardBy interest).enqueue id = (p.enqueue id).heardBy interest := by
  unfold enqueue
  change (if p.work.contains id then _ else _) = _
  split <;> rfl

theorem pushForward_heardBy (stack : List NodeId) :
    pushForward (cx.heardBy interest) (p.heardBy interest) stack =
      (pushForward cx p stack).heardBy interest := by
  fun_induction pushForward cx p stack with
  | case1 p => rw [pushForward]
  | case2 p next rest hw step ha ih =>
    have hstep := attempt_heardBy hless (p.enqueue next) next
    rw [pushForward, dif_pos (show (p.heardBy interest).waiting.contains next = true from hw),
      enqueue_heardBy]
    dsimp only
    rw [hstep, dif_pos ha]
    exact ih
  | case3 p next rest hw step ha ih =>
    have hstep := attempt_heardBy hless (p.enqueue next) next
    rw [pushForward, dif_pos (show (p.heardBy interest).waiting.contains next = true from hw),
      enqueue_heardBy]
    dsimp only
    rw [hstep, dif_neg ha]
    exact ih
  | case4 p next rest hw ih =>
    rw [pushForward, dif_neg (show ¬ (p.heardBy interest).waiting.contains next = true from hw)]
    exact ih

theorem scan_heardBy (ids : List NodeId) :
    scan (cx.heardBy interest) ids (p.heardBy interest) =
      ((scan cx ids p).1, (scan cx ids p).2.heardBy interest) := by
  induction ids generalizing p with
  | nil => rfl
  | cons id rest ih =>
    rw [scan, scan]
    change (if p.isPending id then _ else _) = _
    split
    · rw [attempt_heardBy hless]
      dsimp only
      split
      · have hpush := pushForward_heardBy hless (p.attempt cx id).2 (cx.graph.readers id)
        change (true, (scan _ rest (pushForward _ _ (cx.graph.readers id))).2) = _
        rw [hpush, ih]
      · exact ih (p.attempt cx id).2
    · exact ih p

theorem settle_heardBy :
    settle (cx.heardBy interest) (p.heardBy interest) = (settle cx p).heardBy interest := by
  fun_induction settle cx p with
  | case1 p round next hdone =>
    have hround : scan (cx.heardBy interest) (p.heardBy interest).work (p.heardBy interest) =
      (round.1, round.2.heardBy interest) := scan_heardBy hless p p.work
    rw [settle, hround]
    exact dif_pos hdone
  | case2 p round next hmore ih =>
    have hround : scan (cx.heardBy interest) (p.heardBy interest).work (p.heardBy interest) =
      (round.1, round.2.heardBy interest) := scan_heardBy hless p p.work
    rw [settle, hround]
    exact (dif_neg hmore).trans ih

theorem closeStalled_heardBy :
    (p.heardBy interest).closeStalled (cx.heardBy interest) =
      (p.closeStalled cx).heardBy interest := by
  have h := emit_heardBy hless
    (p.notify (.passStalled (.unsatisfiableDependency (p.stalled cx)))) (.stalled (p.stalled cx))
  unfold closeStalled
  change (if (p.stalled cx).isEmpty then _ else _) = _
  dsimp only
  split
  · rfl
  · exact congrArg (fun q : Pass =>
      { q with failures := q.failures ++ [GraphError.unsatisfiableDependency (p.stalled cx)] }) h

theorem finish_heardBy :
    (p.heardBy interest).finish (cx.heardBy interest) =
      ((p.finish cx).1, (p.finish cx).2.heardBy interest) := by
  have h := emit_heardBy hless (p.notify (.passDone (p.report cx).calculated.length
    (p.report cx).failures.length (p.report cx).stalled.length)) (.passFinished (p.report cx))
  exact congrArg (Prod.mk (p.report cx)) h

/-- What an observer wants has no part in a pass but for what it hears. -/
theorem run_heardBy (full : Bool) :
    (p.heardBy interest).run (cx.heardBy interest) full =
      ((p.run cx full).1, (p.run cx full).2.heardBy interest) := by
  have hstart := emit_heardBy hless p (.passStarted full p.work)
  unfold run
  change ((settle _ ((p.heardBy interest).emit _ (.passStarted full p.work))).closeStalled _).finish
    _ = _
  rw [hstart, settle_heardBy hless, closeStalled_heardBy hless, finish_heardBy hless]

end Observers
end Pass
end Terrain
