import Mathlib.Logic.Function.Basic
import Terrain.Pass.Run
import Terrain.Proofs.Compile.Faithful
import Terrain.Proofs.Graph.Frame

/-! What comes of an attempt to compile a node. An attempt at a node whose feeders are settled
settles the node at what it has to show; any other attempt changes nothing that nodes show. -/
namespace Terrain

/-- A ledger backs what the nodes that count have compiled to: the store keeps to it, and the
suppliers that those nodes hold are steady. -/
structure Ledger.Backs (Γ : Ledger) (counts : NodeId → Prop) (table : Compilation) (st : Store) :
    Prop where
  holds : Γ.Holds st
  steady : ∀ id, counts id → ∀ k : Compiled, table[id]? = some k → k.Steady Γ

namespace Compilation
variable {table : Compilation} {g : Graph} {id : NodeId}

theorem shows_insert (table : Compilation) (id : NodeId) (k : Compiled) :
    shows (table.insert id k) = Function.update table.shows id (some k.meaning) := by
  funext id'
  simp only [shows, Std.HashMap.getElem?_insert, Function.update_apply, beq_iff_eq]
  by_cases h : id' = id
  · simp [h]
  · simp [h, Ne.symm h]

theorem shows_erase (table : Compilation) (id : NodeId) :
    shows (table.erase id) = Function.update table.shows id none := by
  funext id'
  simp only [shows, Std.HashMap.getElem?_erase, Function.update_apply, beq_iff_eq]
  by_cases h : id' = id
  · simp [h]
  · simp [h, Ne.symm h]

/-- A value of a port is among the outputs that its node has compiled to. -/
theorem mem_of_value? {p : PortRef} {v : PortValue} (h : table.value? g p = some v) :
    p.node ∈ g.nodeIds ∧ ∃ k : Compiled, table[p.node]? = some k ∧ v ∈ k.outputs := by
  unfold value? at h
  simp only [Option.bind_eq_bind, Option.bind_eq_some_iff] at h
  obtain ⟨n, hn, _, _, k, hk, hv⟩ := h
  exact ⟨Graph.mem_nodeIds.2 ⟨n, hn⟩, k, hk, List.mem_of_getElem? hv⟩

end Compilation

namespace Ledger.Backs
variable {Γ Γ' : Ledger} {counts : NodeId → Prop} {g : Graph} {table : Compilation} {st : Store}

theorem value? (h : Γ.Backs counts table st) (hg : ∀ id ∈ g.nodeIds, counts id) {p : PortRef}
    {v : PortValue} (hv : table.value? g p = some v) : v.Steady Γ := by
  obtain ⟨hid, k, hk, hv⟩ := Compilation.mem_of_value? hv
  exact (h.steady _ (hg _ hid) k hk).outputs v hv

theorem scope (h : Γ.Backs counts table st) (hg : ∀ id ∈ g.nodeIds, counts id) (tile : WorldTile)
    (n : Node) : (Scope.mk g table tile n).Steady Γ := by
  intro port
  unfold Scope.feed
  dsimp only
  cases g.sourceOf? ⟨n.id, port.id⟩ with
  | none => cases port.literal <;> trivial
  | some source =>
    cases hv : table.value? g source with
    | none => simp only [hv]; trivial
    | some v => simp only [hv]; exact h.value? hg hv

theorem insert (h : Γ.Backs counts table st) (hΓ : Γ <+: Γ') {st' : Store} (hst : Γ'.Holds st')
    {k : Compiled} (hk : k.Steady Γ') (id : NodeId) : Γ'.Backs counts (table.insert id k) st' := by
  refine ⟨hst, fun id' hid' k' hk' => ?_⟩
  rw [Std.HashMap.getElem?_insert] at hk'
  split at hk'
  · cases hk'
    exact hk
  · exact (h.steady id' hid' k' hk').mono hΓ

theorem erase (h : Γ.Backs counts table st) (id : NodeId) : Γ.Backs counts (table.erase id) st := by
  refine ⟨h.holds, fun id' hid' k' hk' => ?_⟩
  rw [Std.HashMap.getElem?_erase] at hk'
  split at hk'
  · cases hk'
  · exact h.steady id' hid' k' hk'

theorem extend (h : Γ.Backs counts table st) (hΓ : Γ <+: Γ') {st' : Store} (hst : Γ'.Holds st') :
    Γ'.Backs counts table st' :=
  ⟨hst, fun id hid k hk => (h.steady id hid k hk).mono hΓ⟩

end Ledger.Backs

namespace Pass
variable {cx : PassSetting} {p q : Pass} {id : NodeId} {n : Node} {Γ : Ledger}
  {counts : NodeId → Prop}

/-- What the nodes show at a point of a pass. -/
def shows (p : Pass) : NodeId → Option Meaning := p.compiled.shows

/-- What a node has to show at a point of a pass. -/
def due (p : Pass) (cx : PassSetting) (n : Node) : Except CompileFault Meaning :=
  cx.graph.due cx.tile p.shows n

/-- What can come of an attempt to compile a node of the graph. -/
inductive Tried (cx : PassSetting) (p : Pass) (n : Node) : Outcome → Pass → Prop
  | blocked (eligible : p.isEligible cx n.id = false) : Tried cx p n .blocked p
  | calculated {q : Pass} {m : Meaning} (eligible : p.isEligible cx n.id = true)
      (due : p.due cx n = .ok m) (shows : q.shows = Function.update p.shows n.id (some m))
      (waiting : q.waiting = p.waiting.filter (· ≠ n.id))
      (failed : q.failed = p.failed.filter (· ≠ n.id)) (work : q.work = p.work)
      (failures : q.failures = p.failures) : Tried cx p n .calculated q
  | failed {q : Pass} {fault : CompileFault} (eligible : p.isEligible cx n.id = true)
      (due : p.due cx n = .error fault) (first : n.id ∉ p.failed)
      (shows : q.shows = Function.update p.shows n.id none)
      (waiting : q.waiting = p.waiting.filter (· ≠ n.id)) (failed : q.failed = p.failed ++ [n.id])
      (work : q.work = p.work)
      (failures : q.failures = p.failures ++ [.compileFailure n.id fault]) :
      Tried cx p n (.failed true) q
  | retried {q : Pass} {fault : CompileFault} (eligible : p.isEligible cx n.id = true)
      (due : p.due cx n = .error fault) (again : n.id ∈ p.failed) (shows : q.shows = p.shows)
      (waiting : q.waiting = p.waiting) (failed : q.failed = p.failed) (work : q.work = p.work)
      (failures : q.failures = p.failures) : Tried cx p n (.failed false) q

@[simp] theorem compiled_emit (p : Pass) (cx : PassSetting) (e : Event) :
    (p.emit cx e).compiled = p.compiled := by
  unfold emit; split <;> rfl

@[simp] theorem store_emit (p : Pass) (cx : PassSetting) (e : Event) :
    (p.emit cx e).store = p.store := by
  unfold emit; split <;> rfl

@[simp] theorem work_emit (p : Pass) (cx : PassSetting) (e : Event) :
    (p.emit cx e).work = p.work := by
  unfold emit; split <;> rfl

@[simp] theorem failures_emit (p : Pass) (cx : PassSetting) (e : Event) :
    (p.emit cx e).failures = p.failures := by
  unfold emit; split <;> rfl

@[simp] theorem calculated_emit (p : Pass) (cx : PassSetting) (e : Event) :
    (p.emit cx e).calculated = p.calculated := by
  unfold emit; split <;> rfl

section Settled
variable (p : Pass) (cx : PassSetting) (n : Node) (k : Compiled) (x : GraphError) (e : Effects)

@[simp] theorem compiled_absorb : (p.absorb e).compiled = p.compiled := rfl

@[simp] theorem store_absorb : (p.absorb e).store = e.store := rfl

@[simp] theorem work_absorb : (p.absorb e).work = p.work := rfl

@[simp] theorem calculated_absorb : (p.absorb e).calculated = p.calculated := rfl

@[simp] theorem failures_absorb : (p.absorb e).failures = p.failures := rfl

@[simp] theorem compiled_succeed : (p.succeed cx n k).compiled = p.compiled.insert n.id k := by
  simp [succeed, strike, notify]

@[simp] theorem store_succeed : (p.succeed cx n k).store = p.store := by
  simp [succeed, strike, notify]

@[simp] theorem work_succeed : (p.succeed cx n k).work = p.work := by
  simp [succeed, strike, notify]

@[simp] theorem calculated_succeed :
    (p.succeed cx n k).calculated = p.calculated ++ [n.id] := by
  simp [succeed, strike, notify]

@[simp] theorem failures_succeed : (p.succeed cx n k).failures = p.failures := by
  simp [succeed, strike, notify]

@[simp] theorem compiled_fail : (p.fail cx n x).compiled = p.compiled.erase n.id := by
  simp [fail, notify]

@[simp] theorem store_fail : (p.fail cx n x).store = p.store := by
  simp [fail, notify]

@[simp] theorem work_fail : (p.fail cx n x).work = p.work := by
  simp [fail, notify]

@[simp] theorem calculated_fail : (p.fail cx n x).calculated = p.calculated := by
  simp [fail, notify]

@[simp] theorem failures_fail : (p.fail cx n x).failures = p.failures ++ [x] := by
  simp [fail, notify]

theorem shows_succeed :
    (p.succeed cx n k).shows = Function.update p.shows n.id (some k.meaning) := by
  rw [shows, compiled_succeed, Compilation.shows_insert, shows]

theorem shows_fail : (p.fail cx n x).shows = Function.update p.shows n.id none := by
  rw [shows, compiled_fail, Compilation.shows_erase, shows]

end Settled

/-- What an attempt at a node of the graph comes to, by how the computation that compiles the node
ends. -/
inductive Attempted (cx : PassSetting) (p : Pass) (n : Node) : Outcome × Pass → Prop
  | blocked (eligible : p.isEligible cx n.id = false) : Attempted cx p n (.blocked, p)
  | calculated {k : Compiled} {e : Effects} (eligible : p.isEligible cx n.id = true)
      (compiles : (p.scope cx n).compile.outcome ⟨p.store, []⟩ = (.ok k, e)) :
      Attempted cx p n (.calculated, (p.absorb e).succeed cx n k)
  | failed {x : GraphError} {e : Effects} (eligible : p.isEligible cx n.id = true)
      (fails : (p.scope cx n).compile.outcome ⟨p.store, []⟩ = (.error x, e))
      (first : n.id ∉ p.failed) : Attempted cx p n (.failed true, (p.absorb e).fail cx n x)
  | retried {x : GraphError} {e : Effects} (eligible : p.isEligible cx n.id = true)
      (fails : (p.scope cx n).compile.outcome ⟨p.store, []⟩ = (.error x, e))
      (again : n.id ∈ p.failed) : Attempted cx p n (.failed false, p.absorb e)

theorem attempt_attempted (p : Pass) (hn : cx.graph.node? n.id = some n) :
    Attempted cx p n (p.attempt cx n.id) := by
  unfold attempt
  split
  · next heligible =>
    simp only [hn]
    unfold compileNode
    change Attempted cx p n (match (p.scope cx n).compile.outcome ⟨p.store, []⟩ with
      | (.ok k, e) => (.calculated, (p.absorb e).succeed cx n k)
      | (.error x, e) =>
        if p.failed.contains n.id then (.failed false, p.absorb e)
        else (.failed true, (p.absorb e).fail cx n x))
    rcases hout : (p.scope cx n).compile.outcome ⟨p.store, []⟩ with ⟨x | k, e⟩
    · dsimp only
      split
      · next hf => exact .retried heligible hout (List.contains_iff_mem.1 hf)
      · next hf => exact .failed heligible hout fun hm => hf (List.contains_iff_mem.2 hm)
    · exact .calculated heligible hout
  · next hblocked => exact .blocked (by simpa using hblocked)

/-- Every attempt at a node of the graph comes to one of the outcomes, and the store goes on to be
backed. -/
theorem attempt_tried (h : Γ.Backs counts p.compiled p.store)
    (hg : ∀ id ∈ cx.graph.nodeIds, counts id) (hn : cx.graph.node? id = some n) :
    Tried cx p n (p.attempt cx id).1 (p.attempt cx id).2 ∧
      ∃ Γ' : Ledger, Γ <+: Γ' ∧
        Γ'.Backs counts (p.attempt cx id).2.compiled (p.attempt cx id).2.store := by
  obtain rfl := Graph.id_of_node? hn
  obtain ⟨Γ', hΓ, hst, hagrees⟩ := Scope.means_due (h.scope hg cx.tile n) Γ ⟨p.store, []⟩
    List.prefix_rfl h.holds
  change (p.scope cx n).Agrees _ ((p.scope cx n).compile.outcome ⟨p.store, []⟩).1 (p.due cx n)
    at hagrees
  change Γ'.Holds ((p.scope cx n).compile.outcome ⟨p.store, []⟩).2.store at hst
  have ht := attempt_attempted p hn
  generalize p.attempt cx n.id = out at ht
  cases ht with
  | blocked eligible => exact ⟨.blocked eligible, Γ, List.prefix_rfl, h⟩
  | calculated eligible compiles =>
    rw [compiles] at hst hagrees
    obtain ⟨m, hdue, hk, rfl⟩ := hagrees.of_ok
    refine ⟨.calculated eligible hdue (shows_succeed ..) (waiting_succeed ..) (failed_succeed ..)
      (work_succeed ..) (failures_succeed ..), Γ', hΓ, ?_⟩
    rw [compiled_succeed, store_succeed]
    exact h.insert hΓ hst hk n.id
  | failed eligible fails first =>
    rw [fails] at hst hagrees
    obtain ⟨fault, hdue, rfl⟩ := hagrees.of_error
    refine ⟨.failed eligible hdue first (shows_fail ..) (waiting_fail ..) (failed_fail ..)
      (work_fail ..) (failures_fail ..), Γ', hΓ, ?_⟩
    rw [compiled_fail, store_fail]
    exact (h.extend hΓ hst).erase n.id
  | retried eligible fails again =>
    rw [fails] at hst hagrees
    obtain ⟨fault, hdue, _⟩ := hagrees.of_error
    exact ⟨.retried eligible hdue again rfl rfl rfl rfl rfl, Γ', hΓ, h.extend hΓ hst⟩

end Pass
end Terrain
