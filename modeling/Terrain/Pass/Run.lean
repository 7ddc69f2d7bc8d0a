import Terrain.Pass.State

/-! Running a pass. A node that settles pushes on into the nodes that read from it, so no order
of the nodes is worked out beforehand; scans of the work-list take up what no push has
reached. -/
namespace Terrain
namespace Pass

/-- Pushes depth first into the nodes on the stack, and from each one that settles into the
nodes that read from it. -/
def pushForward (cx : PassSetting) (p : Pass) (stack : List NodeId) : Pass :=
  match stack with
  | [] => p
  | next :: rest =>
    if _hw : p.waiting.contains next then
      let step := (p.enqueue next).attempt cx next
      if _ha : step.1.advances then
        pushForward cx step.2 (cx.graph.readers next ++ rest)
      else pushForward cx step.2 rest
    else pushForward cx p rest
termination_by (p.waiting.length, stack.length)
decreasing_by
  · have hm : next ∈ (p.enqueue next).waiting := by simpa using _hw
    have hlt := waiting_attempt_lt hm _ha
    exact Prod.Lex.left _ _ (by simpa using hlt)
  · have hle := waiting_attempt_le (p.enqueue next) cx next
    simp only [waiting_enqueue] at hle
    rcases Nat.lt_or_eq_of_le hle with h | h
    · exact Prod.Lex.left _ _ h
    · have hs : rest.length < (next :: rest).length := Nat.lt_succ_self _
      rw [show ((p.enqueue next).attempt cx next).2.waiting.length = p.waiting.length from h]
      exact Prod.Lex.right _ hs
  · exact Prod.Lex.right _ (Nat.lt_succ_self _)

/-- Goes through a list of nodes and tries each that is still pending. The flag says whether
one of them settled. -/
def scan (cx : PassSetting) : List NodeId → Pass → Bool × Pass
  | [], p => (false, p)
  | id :: rest, p =>
    if p.isPending id then
      let step := p.attempt cx id
      if step.1.advances then
        (true, (scan cx rest (pushForward cx step.2 (cx.graph.readers id))).2)
      else scan cx rest step.2
    else scan cx rest p

/-- Trying a node that a push has put on the work-list leaves no more to do. -/
theorem remaining_attempt_enqueue_le {p : Pass} {cx : PassSetting} {id : NodeId}
    (h : p.waiting.contains id = true) :
    ((p.enqueue id).attempt cx id).2.remaining ≤ p.remaining := by
  have hp : (p.enqueue id).isPending id = true := by
    simpa [isPending] using Or.inl (List.contains_iff_mem.1 h)
  simpa [remaining] using @remaining_attempt_le _ cx _ hp

theorem remaining_pushForward_le (cx : PassSetting) (p : Pass) (stack : List NodeId) :
    (pushForward cx p stack).remaining ≤ p.remaining := by
  fun_induction pushForward cx p stack with
  | case1 p => exact Nat.le_refl _
  | case2 p next rest hw step ha ih =>
    exact Nat.le_trans ih (remaining_attempt_enqueue_le hw)
  | case3 p next rest hw step ha ih =>
    exact Nat.le_trans ih (remaining_attempt_enqueue_le hw)
  | case4 p next rest hw ih =>
    exact ih

/-- A scan leaves no more to do than there was, and less where a node settled. -/
theorem remaining_scan (cx : PassSetting) (ids : List NodeId) (p : Pass) :
    (scan cx ids p).2.remaining ≤ p.remaining ∧
      ((scan cx ids p).1 = true → (scan cx ids p).2.remaining < p.remaining) := by
  induction ids generalizing p with
  | nil => exact ⟨Nat.le_refl _, fun h => by cases h⟩
  | cons id rest ih =>
    unfold scan
    split
    · next hp =>
      dsimp only
      split
      · next ha =>
        have hlt := remaining_attempt_lt hp ha
        have hpush := remaining_pushForward_le cx (p.attempt cx id).2 (cx.graph.readers id)
        have hrest := (ih (pushForward cx (p.attempt cx id).2 (cx.graph.readers id))).1
        exact ⟨by dsimp only; omega, fun _ => by dsimp only; omega⟩
      · have hle := @remaining_attempt_le p cx id hp
        have hrest := ih (p.attempt cx id).2
        exact ⟨Nat.le_trans hrest.1 hle, fun h => Nat.lt_of_lt_of_le (hrest.2 h) hle⟩
    · exact ih p

/-- Drops the nodes that are no longer pending from the work-list. -/
def trim (p : Pass) : Pass := { p with work := p.work.filter p.isPending }

/-- Scans the work-list until it is empty or a scan settles no node. -/
def settle (cx : PassSetting) (p : Pass) : Pass :=
  let round := scan cx p.work p
  let next := round.2.trim
  if _h : next.work.isEmpty || !round.1 then next else settle cx next
termination_by p.remaining
decreasing_by
  have hs := (remaining_scan cx p.work p).2
  simp only [Bool.or_eq_true, Bool.not_eq_true', not_or, Bool.not_eq_false] at _h
  exact hs _h.2

/-- The nodes still pending, in the order of their ids. -/
def stalled (p : Pass) (cx : PassSetting) : List NodeId :=
  cx.graph.nodeIds.filter p.isPending

def report (p : Pass) (cx : PassSetting) : Report :=
  ⟨p.calculated, p.failures, p.stalled cx⟩

/-- Reports the nodes that no scan could compile, if there are any. -/
def closeStalled (p : Pass) (cx : PassSetting) : Pass :=
  let ids := p.stalled cx
  if ids.isEmpty then p
  else
    let e := GraphError.unsatisfiableDependency ids
    let p := (p.notify (.passStalled e)).emit cx (.stalled ids)
    { p with failures := p.failures ++ [e] }

/-- Ends a pass: its report goes to the log and to the observer. -/
def finish (p : Pass) (cx : PassSetting) : Report × Pass :=
  let r := p.report cx
  let n := Notice.passDone r.calculated.length r.failures.length r.stalled.length
  (r, (p.notify n).emit cx (.passFinished r))

def run (p : Pass) (cx : PassSetting) (full : Bool) : Report × Pass :=
  let p := p.emit cx (.passStarted full p.work)
  ((settle cx p).closeStalled cx).finish cx

end Pass
end Terrain
