import Terrain.Compile.Node
import Terrain.Pass.Event

/-! The state of a pass over a graph, and the attempt to compile one node. The graph does not
change while a pass runs; only what its nodes compile to does. -/
namespace Terrain

structure PassSetting where
  graph : Graph
  tile : WorldTile
  interest : Interest

/-- A pass under way. -/
structure Pass where
  compiled : Compilation
  store : Store
  /-- The nodes still to be compiled that have not failed in this pass. -/
  waiting : List NodeId
  /-- The nodes still to be compiled that have failed in this pass. -/
  failed : List NodeId := []
  /-- The nodes that the next scan goes through. -/
  work : List NodeId
  calculated : List NodeId := []
  failures : List GraphError := []
  events : List Event := []
  notices : List Notice := []

inductive Outcome
  | calculated
  /-- The node failed, for the first time in this pass or once more. -/
  | failed (first : Bool)
  /-- The node reads from one that is not settled. -/
  | blocked

/-- Whether an outcome settles the node, so that the nodes that read from it have news. -/
def Outcome.advances : Outcome → Bool
  | calculated => true
  | failed first => first
  | blocked => false

namespace Pass

def isPending (p : Pass) (id : NodeId) : Bool := p.waiting.contains id || p.failed.contains id

/-- Whether every node that feeds a node is settled: no longer pending, or failed in this
pass. -/
def isEligible (p : Pass) (cx : PassSetting) (id : NodeId) : Bool :=
  (cx.graph.feeders id).all fun u => !p.waiting.contains u

/-- Puts a node on the work-list, unless it is there. -/
def enqueue (p : Pass) (id : NodeId) : Pass :=
  if p.work.contains id then p else { p with work := p.work ++ [id] }

def emit (p : Pass) (cx : PassSetting) (e : Event) : Pass :=
  if cx.interest e.kind then { p with events := p.events ++ [e] } else p

def notify (p : Pass) (n : Notice) : Pass := { p with notices := p.notices ++ [n] }

/-- Takes a node off the nodes that are still to be compiled. -/
def strike (p : Pass) (id : NodeId) : Pass :=
  { p with waiting := p.waiting.filter (· ≠ id), failed := p.failed.filter (· ≠ id) }

def succeed (p : Pass) (cx : PassSetting) (n : Node) (compiled : Compiled) : Pass :=
  let p := { p with compiled := p.compiled.insert n.id compiled }
  let p := (p.notify (.nodeCalculated n.id n.kind.name)).emit cx
    (.nodeCalculated n.id n.kind.name)
  let p := p.strike n.id
  { p with calculated := p.calculated ++ [n.id] }

/-- A node has failed for the first time in this pass. -/
def fail (p : Pass) (cx : PassSetting) (n : Node) (e : GraphError) : Pass :=
  let p := { p with
    compiled := p.compiled.erase n.id
    waiting := p.waiting.filter (· ≠ n.id)
    failed := p.failed ++ [n.id] }
  let p := (p.notify (.nodeFailed n.id n.kind.name e)).emit cx (.compileFailed n.id e)
  { p with failures := p.failures ++ [e] }

/-- Takes over what compiling a node has touched. -/
def absorb (p : Pass) (e : Effects) : Pass :=
  { p with store := e.store, notices := p.notices ++ e.notices }

def scope (p : Pass) (cx : PassSetting) (n : Node) : Scope :=
  ⟨cx.graph, p.compiled, cx.tile, n⟩

/-- Compiles a node and settles it. -/
def compileNode (p : Pass) (cx : PassSetting) (n : Node) : Outcome × Pass :=
  match (p.scope cx n).compile.run.run ⟨p.store, []⟩ with
  | (.ok compiled, effects) => (.calculated, (p.absorb effects).succeed cx n compiled)
  | (.error e, effects) =>
    if p.failed.contains n.id then (.failed false, p.absorb effects)
    else (.failed true, (p.absorb effects).fail cx n e)

/-- Tries to compile a node, which needs every node that feeds it to be settled. -/
def attempt (p : Pass) (cx : PassSetting) (id : NodeId) : Outcome × Pass :=
  if p.isEligible cx id then
    match cx.graph.node? id with
    | some n => p.compileNode cx n
    | none => (.blocked, p.strike id)
  else (.blocked, p)

/-! What is left to do never grows, and shrinks whenever a node is settled. -/

@[simp] theorem waiting_enqueue (p : Pass) (id : NodeId) :
    (p.enqueue id).waiting = p.waiting := by
  unfold enqueue; split <;> rfl

@[simp] theorem failed_enqueue (p : Pass) (id : NodeId) :
    (p.enqueue id).failed = p.failed := by
  unfold enqueue; split <;> rfl

@[simp] theorem waiting_emit (p : Pass) (cx : PassSetting) (e : Event) :
    (p.emit cx e).waiting = p.waiting := by
  unfold emit; split <;> rfl

@[simp] theorem failed_emit (p : Pass) (cx : PassSetting) (e : Event) :
    (p.emit cx e).failed = p.failed := by
  unfold emit; split <;> rfl

@[simp] theorem waiting_absorb (p : Pass) (e : Effects) : (p.absorb e).waiting = p.waiting := rfl

@[simp] theorem failed_absorb (p : Pass) (e : Effects) : (p.absorb e).failed = p.failed := rfl

@[simp] theorem waiting_succeed (p : Pass) (cx : PassSetting) (n : Node) (c : Compiled) :
    (p.succeed cx n c).waiting = p.waiting.filter (· ≠ n.id) := by
  simp [succeed, strike, notify]

@[simp] theorem failed_succeed (p : Pass) (cx : PassSetting) (n : Node) (c : Compiled) :
    (p.succeed cx n c).failed = p.failed.filter (· ≠ n.id) := by
  simp [succeed, strike, notify]

@[simp] theorem waiting_fail (p : Pass) (cx : PassSetting) (n : Node) (e : GraphError) :
    (p.fail cx n e).waiting = p.waiting.filter (· ≠ n.id) := by
  simp [fail, notify]

@[simp] theorem failed_fail (p : Pass) (cx : PassSetting) (n : Node) (e : GraphError) :
    (p.fail cx n e).failed = p.failed ++ [n.id] := by
  simp [fail, notify]

end Pass

theorem Graph.id_of_node? {g : Graph} {id : NodeId} {n : Node} (h : g.node? id = some n) :
    n.id = id := by
  simpa using List.find?_some h

namespace Pass

/-- What an attempt does to the nodes that are still to be compiled. -/
theorem attempt_cases (p : Pass) (cx : PassSetting) (id : NodeId) :
    ((p.attempt cx id).1.advances = false ∧
        ((p.attempt cx id).2.waiting = p.waiting ∧ (p.attempt cx id).2.failed = p.failed ∨
          (p.attempt cx id).2.waiting = p.waiting.filter (· ≠ id) ∧
            (p.attempt cx id).2.failed = p.failed.filter (· ≠ id))) ∨
      ((p.attempt cx id).1 = .calculated ∧
        (p.attempt cx id).2.waiting = p.waiting.filter (· ≠ id) ∧
          (p.attempt cx id).2.failed = p.failed.filter (· ≠ id)) ∨
      ((p.attempt cx id).1 = .failed true ∧ id ∉ p.failed ∧
        (p.attempt cx id).2.waiting = p.waiting.filter (· ≠ id) ∧
          (p.attempt cx id).2.failed = p.failed ++ [id]) := by
  unfold attempt
  split
  · split
    · next n hn =>
      have hid := Graph.id_of_node? hn
      unfold compileNode
      split
      · right; left; simp [hid]
      · split
        · left; simp [Outcome.advances]
        · next hf => right; right; simp_all
    · left; simp [Outcome.advances, strike]
  · left; simp [Outcome.advances]

/-- The work left in a pass: a node that waits may still fail, and a node that has failed may
still compile. -/
def remaining (p : Pass) : Nat := 2 * p.waiting.length + p.failed.length

theorem length_filter_ne_lt {xs : List NodeId} {id : NodeId} (h : id ∈ xs) :
    (xs.filter (· ≠ id)).length < xs.length :=
  List.length_filter_lt_length_iff_exists.2 ⟨id, h, by simp⟩

theorem waiting_attempt_le (p : Pass) (cx : PassSetting) (id : NodeId) :
    (p.attempt cx id).2.waiting.length ≤ p.waiting.length := by
  have hle := List.length_filter_le (fun x : NodeId => decide (x ≠ id)) p.waiting
  rcases p.attempt_cases cx id with ⟨_, h | h⟩ | h | h
  · exact Nat.le_of_eq (by rw [h.1])
  · rw [h.1]; exact hle
  · rw [h.2.1]; exact hle
  · rw [h.2.2.1]; exact hle

theorem waiting_attempt_lt {p : Pass} {cx : PassSetting} {id : NodeId} (hw : id ∈ p.waiting)
    (ha : (p.attempt cx id).1.advances = true) :
    (p.attempt cx id).2.waiting.length < p.waiting.length := by
  have hlt := length_filter_ne_lt hw
  rcases p.attempt_cases cx id with h | h | h
  · rw [h.1] at ha; cases ha
  · rw [h.2.1]; exact hlt
  · rw [h.2.2.1]; exact hlt

theorem remaining_attempt_le {p : Pass} {cx : PassSetting} {id : NodeId}
    (hp : p.isPending id = true) : (p.attempt cx id).2.remaining ≤ p.remaining := by
  have hw := List.length_filter_le (fun x : NodeId => decide (x ≠ id)) p.waiting
  have hf := List.length_filter_le (fun x : NodeId => decide (x ≠ id)) p.failed
  unfold remaining
  rcases p.attempt_cases cx id with ⟨_, h | h⟩ | h | h
  · exact Nat.le_of_eq (by rw [h.1, h.2])
  · rw [h.1, h.2]; omega
  · rw [h.2.1, h.2.2]; omega
  · have hm : id ∈ p.waiting := by simpa [isPending, h.2.1] using hp
    have := length_filter_ne_lt hm
    rw [h.2.2.1, h.2.2.2, List.length_append, List.length_singleton]; omega

theorem remaining_attempt_lt {p : Pass} {cx : PassSetting} {id : NodeId}
    (hp : p.isPending id = true) (ha : (p.attempt cx id).1.advances = true) :
    (p.attempt cx id).2.remaining < p.remaining := by
  have hw := List.length_filter_le (fun x : NodeId => decide (x ≠ id)) p.waiting
  have hf := List.length_filter_le (fun x : NodeId => decide (x ≠ id)) p.failed
  unfold remaining
  rcases p.attempt_cases cx id with h | h | h
  · rw [h.1] at ha; cases ha
  · rw [h.2.1, h.2.2]
    rcases (by simpa [isPending] using hp : id ∈ p.waiting ∨ id ∈ p.failed) with hm | hm
    · have := length_filter_ne_lt hm; omega
    · have := length_filter_ne_lt hm; omega
  · have hm : id ∈ p.waiting := by simpa [isPending, h.2.1] using hp
    have := length_filter_ne_lt hm
    rw [h.2.2.1, h.2.2.2, List.length_append, List.length_singleton]; omega

end Pass
end Terrain
