import Mathlib.Data.List.InsertIdx
import Terrain.Graph.Edit

/-! Edits as programs that change a graph in place, one statement after the other. Such a program
may fail when it has changed something already, and then the change stays. None does: each comes to
the same as the edit that gives a new graph or an error. -/
namespace Terrain

/-- Programs that change a graph in place. Where one fails, the graph stays as it is by then. -/
abbrev InPlace := EStateM GraphError Graph

namespace InPlace

/-- Looks something up. -/
def find {α : Type} (x : Graph → Except GraphError α) : InPlace α := fun g =>
  match x g with
  | .ok a => .ok a g
  | .error e => .error e g

def record (change : Change) : InPlace Unit := modify (·.record change)

def onNode (id : NodeId) (f : Node → Node) : InPlace Unit := modify (·.modifyNode id f)

def setConnections (connections : List Connection) : InPlace Unit :=
  modify fun g => { g with connections }

/-- Takes the connection that ends at an input out of the list, and says where it stood. -/
def takeOut (target : PortRef) : InPlace (Option (Nat × Connection)) := do
  let connections := (← get).connections
  match connections.findIdx? (·.target = target) with
  | none => return none
  | some i =>
    setConnections (connections.eraseIdx i)
    return connections[i]?.map (i, ·)

def detach (id : NodeId) : InPlace Unit := do
  let readers := (← get).readers id
  setConnections ((← get).connections.filter fun c => c.source.node ≠ id && c.target.node ≠ id)
  modify fun g => { g with nodes := g.nodes.filter (·.id ≠ id) }
  record (.nodeRemoved id readers)

def addNode (kind : Kind) : InPlace NodeId := do
  let replaced := (← get).replacedBy kind
  replaced.forM detach
  let id : NodeId := ⟨(← get).nextNode⟩
  modify fun g => { g with nextNode := g.nextNode + 1 }
  modify fun g => { g with nodes := g.nodes ++ [Node.create id kind (Seed.ofIndex id.index)] }
  record (.nodeAdded id)
  return id

def removeNode (id : NodeId) : InPlace Unit := do
  let n ← find (·.findNode id)
  match n.kind.role?, (← get).id with
  | some role, some name =>
    if ((← get).holders role).length ≤ 1 then throw (.singletonViolation role.label name)
  | _, _ => pure ()
  detach id

/-- The old connection is taken out before it is known whether it is the one that is asked for;
then it is put back to where it stood. -/
def connect (source target : PortRef) : InPlace Unit := do
  let (sourceDirection, output) ← find (·.findPort source)
  let (targetDirection, input) ← find (·.findPort target)
  if sourceDirection ≠ .output || targetDirection ≠ .input then
    throw (.invalidConnection source target .wrongDirection)
  if source.node = target.node then
    throw (.invalidConnection source target .selfFed)
  if output.type ≠ input.type then
    throw (.incompatibleType target input.type output.type)
  match ← takeOut target with
  | some (i, old) =>
    if old.source = source then
      setConnections ((← get).connections.insertIdx i old)
      return
    record (.disconnected old)
  | none => pure ()
  setConnections ((← get).connections ++ [⟨source, target⟩])
  record (.connected ⟨source, target⟩)

def connectNamed (source : NodeId) (output : String) (target : NodeId) (input : String) :
    InPlace Unit := do
  let source ← find (·.portNamed source output)
  let target ← find (·.portNamed target input)
  connect source target

def disconnect (target : PortRef) : InPlace (Option Connection) := do
  let _ ← find (·.findPort target)
  match ← takeOut target with
  | none => return none
  | some (_, old) =>
    record (.disconnected old)
    return some old

def addPort (id : NodeId) (type : PortType) : InPlace PortId := do
  let n ← find (·.findNode id)
  match n.kind.layout.dynamic with
  | none => throw (.notDynamic id)
  | some d =>
    let port : PortId := ⟨n.nextPort⟩
    if d.type ≠ type then throw (.incompatibleType ⟨id, port⟩ d.type type)
    onNode id (·.pushDynamic d)
    record (.portAdded ⟨id, port⟩)
    return port

/-- The port goes before the connection that ends at it. -/
def removePort (p : PortRef) : InPlace Unit := do
  let n ← find (·.findNode p.node)
  match n.kind.layout.dynamic with
  | none => throw (.notDynamic p.node)
  | some d =>
    if !(n.input? p.port).any (·.dynamic) then throw (.unknownPort p)
    if n.dynamic.length ≤ d.least then throw (.arityViolation p.node d.least)
    onNode p.node (·.dropDynamic d p.port)
    match ← takeOut p with
    | some (_, old) => record (.disconnected old)
    | none => pure ()
    record (.portRemoved p)

def editNode (id : NodeId) (kind : Kind) : InPlace Unit := do
  let n ← find (·.findNode id)
  if kind.signature ≠ n.kind.signature then throw (.signatureChange id)
  if kind == n.kind then return
  onNode id ({ · with kind })
  record (.paramsChanged id)

def setLiteral (p : PortRef) (literal : Literal) : InPlace Unit := do
  let n ← find (·.findNode p.node)
  match n.input? p.port with
  | none => throw (.unknownPort p)
  | some port =>
    if !port.type.accepts literal then throw (.incompatibleLiteral p)
    onNode p.node (·.setLiteral p.port literal)
    record (.paramsChanged p.node)

def setNodeSeed (id : NodeId) (seed : Seed) : InPlace Unit := do
  let n ← find (·.findNode id)
  if n.seed ≠ seed then
    onNode id ({ · with seed })
    record (.paramsChanged id)

def setSeed (seed : Seed) : InPlace Unit := do
  if (← get).seed ≠ seed then
    modify fun g => { g with seed }
    record .seedChanged

end InPlace

/-- The program that makes an edit in place. -/
def Edit.inPlace : Edit → InPlace Reply
  | .addNode kind => .node <$> InPlace.addNode kind
  | .removeNode id => (fun _ => .done) <$> InPlace.removeNode id
  | .editNode id kind => (fun _ => .done) <$> InPlace.editNode id kind
  | .connect source target => (fun _ => .done) <$> InPlace.connect source target
  | .connectNamed source output target input =>
    (fun _ => .done) <$> InPlace.connectNamed source output target input
  | .disconnect target => .connection <$> InPlace.disconnect target
  | .addPort id type => .port <$> InPlace.addPort id type
  | .removePort p => (fun _ => .done) <$> InPlace.removePort p
  | .setLiteral p literal => (fun _ => .done) <$> InPlace.setLiteral p literal
  | .setNodeSeed id seed => (fun _ => .done) <$> InPlace.setNodeSeed id seed
  | .setSeed seed => (fun _ => .done) <$> InPlace.setSeed seed

namespace InPlace

variable {α β γ : Type} {g : Graph} {p : InPlace α} {view : β → α × Graph}
  {x : Except GraphError β}

/-- A program comes to a result: to the answer and the graph that are seen in it, or to its error,
and then to the graph that there was. -/
def Makes (p : InPlace α) (g : Graph) (view : β → α × Graph) (x : Except GraphError β) : Prop :=
  p.run g = match x with
    | .ok b => .ok (view b).1 (view b).2
    | .error e => .error e g

theorem makes_throw (e : GraphError) : Makes (throw e : InPlace α) g view (throw e) := rfl

theorem makes_find {f : Graph → Except GraphError γ} {k : γ → InPlace α}
    {x : γ → Except GraphError β} (h : ∀ c, f g = .ok c → Makes (k c) g view (x c)) :
    Makes (find f >>= k) g view (f g >>= x) := by
  have hrun : (find f).run g = match f g with | .ok c => .ok c g | .error e => .error e g := rfl
  unfold Makes
  rw [EStateM.run_bind, hrun]
  cases hf : f g with
  | error e => rfl
  | ok c => exact h c hf

theorem makes_get {k : Graph → InPlace α} (h : Makes (k g) g view x) :
    Makes (get >>= k) g view x := h

theorem makes_guard {c : Prop} [Decidable c] {e : GraphError} {k : γ → InPlace α}
    {k' : γ → Except GraphError β} (h : ¬ c → Makes p g view x) :
    Makes (if c then throw e >>= k else p) g view (if c then throw e >>= k' else x) := by
  by_cases hc : c
  · rw [if_pos hc, if_pos hc]
    rfl
  · rw [if_neg hc, if_neg hc]
    exact h hc

theorem Makes.map (h : Makes p g view x) (f : α → γ) :
    Makes (f <$> p) g id (x.map fun b => (f (view b).1, (view b).2)) := by
  unfold Makes at h ⊢
  rw [map_eq_pure_bind, EStateM.run_bind, h]
  cases x <;> rfl

@[simp] theorem run_record (change : Change) (g : Graph) :
    (record change).run g = .ok () (g.record change) := rfl

@[simp] theorem run_onNode (id : NodeId) (f : Node → Node) (g : Graph) :
    (onNode id f).run g = .ok () (g.modifyNode id f) := rfl

@[simp] theorem run_setConnections (connections : List Connection) (g : Graph) :
    (setConnections connections).run g = .ok () { g with connections } := rfl

theorem run_takeOut_none {target : PortRef} (h : g.connectionTo? target = none) :
    (takeOut target).run g = .ok none g := by
  have hi : g.connections.findIdx? (·.target = target) = none := by
    rw [List.findIdx?_eq_none_iff]
    exact fun c hc => by simpa using List.find?_eq_none.1 h c hc
  simp [takeOut, EStateM.run_bind, hi]

/-- A connection that is taken out can be put back to where it stood. -/
theorem run_takeOut_some {target : PortRef} {old : Connection}
    (h : g.connectionTo? target = some old) : ∃ i,
      (takeOut target).run g =
        .ok (some (i, old)) { g with connections := g.connections.eraseP (·.target = target) } ∧
      (g.connections.eraseP (·.target = target)).insertIdx i old = g.connections := by
  rw [Graph.connectionTo?, List.find?_eq_bind_findIdx?_getElem?, Option.bind_eq_some_iff] at h
  obtain ⟨i, hi, hold⟩ := h
  obtain ⟨hlt, rfl⟩ := List.getElem?_eq_some_iff.1 hold
  have herase : g.connections.eraseP (·.target = target) = g.connections.eraseIdx i := by
    rw [List.eraseP_eq_eraseIdx, hi]
  refine ⟨i, ?_, ?_⟩
  · simp only [takeOut, EStateM.run_bind, EStateM.run_get, hi, run_setConnections, EStateM.run_pure,
      hold, herase, Option.map_some]
  · rw [herase, List.insertIdx_eraseIdx_getElem]

@[simp] theorem run_detach (id : NodeId) (g : Graph) :
    (detach id).run g = .ok () (g.detach id) := rfl

theorem run_forM_detach (ids : List NodeId) (g : Graph) :
    (ids.forM detach).run g = .ok () (ids.foldl Graph.detach g) := by
  induction ids generalizing g with
  | nil => rfl
  | cons id ids ih => exact ih (g.detach id)

theorem makes_addNode (g : Graph) (kind : Kind) :
    Makes (addNode kind) g id (.ok (g.addNode kind)) := by
  simp only [Makes, addNode, EStateM.run_bind, EStateM.run_get, run_forM_detach]
  rfl

theorem makes_removeNode (g : Graph) (id : NodeId) :
    Makes (removeNode id) g ((), ·) (g.removeNode id) := by
  refine makes_find fun n _ => makes_get ?_
  cases n.kind.role? with
  | none => rfl
  | some role =>
    cases g.id with
    | none => rfl
    | some name =>
      refine makes_get ?_
      dsimp only
      by_cases h : (g.holders role).length ≤ 1
      · rw [if_pos h, if_pos h]
        rfl
      · rw [if_neg h, if_neg h]
        rfl

theorem makes_connect (g : Graph) (source target : PortRef) :
    Makes (connect source target) g ((), ·) (g.connect source target) := by
  refine makes_find fun ⟨sourceDirection, output⟩ _ => ?_
  refine makes_find fun ⟨targetDirection, input⟩ _ => ?_
  refine makes_guard fun _ => makes_guard fun _ => makes_guard fun _ => ?_
  unfold Makes
  rw [EStateM.run_bind]
  cases h : g.connectionTo? target with
  | none =>
    have hs : g.sourceOf? target ≠ some source := by simp [Graph.sourceOf?, h]
    rw [run_takeOut_none h, if_neg hs, Graph.unplug, h]
    rfl
  | some old =>
    obtain ⟨i, hrun, hback⟩ := run_takeOut_some h
    rw [hrun]
    by_cases hold : old.source = source
    · have hs : g.sourceOf? target = some source := by simp [Graph.sourceOf?, h, hold]
      rw [if_pos hs]
      simp only [hold, if_true, EStateM.run_bind, EStateM.run_get, run_setConnections, hback]
      rfl
    · have hs : g.sourceOf? target ≠ some source := by simp [Graph.sourceOf?, h, hold]
      rw [if_neg hs, Graph.unplug, h]
      simp only [hold, if_false]
      rfl

theorem makes_connectNamed (g : Graph) (source : NodeId) (output : String) (target : NodeId)
    (input : String) : Makes (connectNamed source output target input) g ((), ·)
      (g.connectNamed source output target input) :=
  makes_find fun _ _ => makes_find fun _ _ => makes_connect g _ _

theorem makes_disconnect (g : Graph) (target : PortRef) :
    Makes (disconnect target) g id (g.disconnect target) := by
  refine makes_find fun _ _ => ?_
  unfold Makes
  rw [EStateM.run_bind]
  cases h : g.connectionTo? target with
  | none =>
    rw [run_takeOut_none h, Graph.unplug, h]
    rfl
  | some old =>
    obtain ⟨i, hrun, _⟩ := run_takeOut_some h
    rw [hrun, Graph.unplug, h]
    rfl

theorem makes_addPort (g : Graph) (node : NodeId) (type : PortType) :
    Makes (addPort node type) g id (g.addPort node type) := by
  refine makes_find fun n _ => ?_
  cases n.kind.layout.dynamic with
  | none => exact makes_throw _
  | some d =>
    refine makes_guard fun _ => ?_
    rfl

theorem makes_removePort (g : Graph) (p : PortRef) :
    Makes (removePort p) g ((), ·) (g.removePort p) := by
  refine makes_find fun n _ => ?_
  cases n.kind.layout.dynamic with
  | none => exact makes_throw _
  | some d =>
    refine makes_guard fun _ => makes_guard fun _ => ?_
    unfold Makes
    rw [EStateM.run_bind, run_onNode]
    cases h : (g.modifyNode p.node (·.dropDynamic d p.port)).connectionTo? p with
    | none =>
      simp only [EStateM.run_bind, run_takeOut_none h, Graph.unplug, h]
      rfl
    | some old =>
      obtain ⟨i, hrun, _⟩ := run_takeOut_some h
      simp only [EStateM.run_bind, hrun, Graph.unplug, h]
      rfl

theorem makes_editNode (g : Graph) (id : NodeId) (kind : Kind) :
    Makes (editNode id kind) g ((), ·) (g.editNode id kind) := by
  refine makes_find fun n _ => makes_guard fun _ => ?_
  by_cases h : kind == n.kind
  · rw [if_pos h, if_pos h]
    rfl
  · rw [if_neg h, if_neg h]
    rfl

theorem makes_setLiteral (g : Graph) (p : PortRef) (literal : Literal) :
    Makes (setLiteral p literal) g ((), ·) (g.setLiteral p literal) := by
  refine makes_find fun n _ => ?_
  cases n.input? p.port with
  | none => exact makes_throw _
  | some port =>
    refine makes_guard fun _ => ?_
    rfl

theorem makes_setNodeSeed (g : Graph) (id : NodeId) (seed : Seed) :
    Makes (setNodeSeed id seed) g ((), ·) (g.setNodeSeed id seed) := by
  refine makes_find fun n _ => ?_
  by_cases h : n.seed = seed
  · rw [if_neg (not_not.2 h), if_pos h]
    rfl
  · rw [if_pos h, if_neg h]
    rfl

theorem makes_setSeed (g : Graph) (seed : Seed) :
    Makes (setSeed seed) g ((), ·) (.ok (g.setSeed seed)) := by
  refine makes_get ?_
  unfold Graph.setSeed
  by_cases h : g.seed = seed
  · rw [if_neg (not_not.2 h), if_pos h]
    rfl
  · rw [if_pos h, if_neg h]
    rfl

/-- The program of an edit comes to what the edit gives: to the answer and the new graph, or to the
error and the graph that there was. -/
theorem makes_perform (g : Graph) (e : Edit) : Makes e.inPlace g id (g.perform e) := by
  cases e with
  | addNode kind => exact (makes_addNode g kind).map _
  | setSeed seed => exact (makes_setSeed g seed).map _
  | removeNode id => exact (makes_removeNode g id).map _
  | editNode id kind => exact (makes_editNode g id kind).map _
  | connect source target => exact (makes_connect g source target).map _
  | connectNamed source output target input =>
    exact (makes_connectNamed g source output target input).map _
  | disconnect target => exact (makes_disconnect g target).map _
  | addPort id type => exact (makes_addPort g id type).map _
  | removePort p => exact (makes_removePort g p).map _
  | setLiteral p literal => exact (makes_setLiteral g p literal).map _
  | setNodeSeed id seed => exact (makes_setNodeSeed g id seed).map _

end InPlace
end Terrain
