import Terrain.Proofs.Pass.Result
import Terrain.Proofs.Pass.Scans

/-! The books of a pass: what it has written down so far, and what it has left alone. Each node of
the pass is still pending or was calculated, and that once; each failure that was written down is
that of one node, which has failed; and no node beyond the pass has been touched. -/
namespace Terrain

open Pass

variable {cx : PassSetting} {p q : Pass} {id : NodeId} {n : Node} {within : NodeId → Prop}
  {before : Compilation}

theorem Compilation.isCalculated_eq (table : Compilation) (id : NodeId) :
    table.isCalculated id = (table[id]?).isSome :=
  Std.HashMap.contains_eq_isSome_getElem?

/-- The failures of some nodes. -/
def Report.faultsOf (faults : List (NodeId × CompileFault)) : List GraphError :=
  faults.map fun f => .compileFailure f.1 f.2

/-- Compiling a node against what others have compiled to fails, whatever the store holds. -/
def Graph.FailsWith (g : Graph) (tile : WorldTile) (table : Compilation) (id : NodeId)
    (fault : CompileFault) : Prop :=
  ∀ n, g.node? id = some n →
    (Scope.mk g table tile n).compile.Certain (.error (.compileFailure id fault))

namespace Pass

/-- The books of a pass over some of the nodes, where `before` was compiled when it began. -/
structure Booked (cx : PassSetting) (within : NodeId → Prop) (before : Compilation) (p : Pass) :
    Prop extends Orderly cx p where
  split : ∀ id, within id ↔ p.isPending id = true ∨ id ∈ p.calculated
  once : p.calculated.Nodup
  /-- A calculated node is fed by none that waits. -/
  fed : ∀ id ∈ p.calculated, ∀ u, cx.graph.Feeds u id → u ∉ p.waiting
  ordered : ∀ u v, cx.graph.Feeds u v → u ∈ p.calculated → v ∈ p.calculated →
    [u, v].Sublist p.calculated
  stored : ∀ id, within id → (p.compiled.isCalculated id = true ↔ id ∈ p.calculated)
  outside : ∀ id, ¬ within id → p.compiled[id]? = before[id]?
  distinct : p.failed.Nodup
  faults : ∃ faults, p.failures = Report.faultsOf faults ∧ faults.map Prod.fst = p.failed ∧
    ∀ f ∈ faults, cx.graph.FailsWith cx.tile p.compiled f.1 f.2
  /-- A node that no longer waits is not behind a cycle within the pass. -/
  grounded : ∀ id, within id → id ∉ p.waiting →
    Acc (fun u v => within u ∧ cx.graph.Feeds u v) id

theorem Booked.congr (h : Booked cx within before p) (hcompiled : q.compiled = p.compiled)
    (hwaiting : q.waiting = p.waiting) (hfailed : q.failed = p.failed)
    (hcalculated : q.calculated = p.calculated) (hfailures : q.failures = p.failures) :
    Booked cx within before q := by
  have hpending : q.isPending = p.isPending := by
    funext id
    rw [isPending, isPending, hwaiting, hfailed]
  refine ⟨h.toOrderly.congr hcompiled hwaiting hfailed hcalculated hfailures, ?_, ?_, ?_, ?_, ?_,
    ?_, ?_, ?_, ?_⟩
  all_goals simp only [hpending, hcompiled, hwaiting, hfailed, hcalculated, hfailures]
  exacts [h.split, h.once, h.fed, h.ordered, h.stored, h.outside, h.distinct, h.faults, h.grounded]

theorem Booked.grounded_filter (h : Booked cx within before p)
    (eligible : p.isEligible cx n.id = true) {waiting : List NodeId}
    (hwaiting : waiting = p.waiting.filter (· ≠ n.id)) (hid : within id) (hout : id ∉ waiting) :
    Acc (fun u v => within u ∧ cx.graph.Feeds u v) id := by
  by_cases heq : id = n.id
  · subst heq
    exact ⟨_, fun u ⟨hu, hf⟩ => h.grounded u hu (isEligible_iff.1 eligible u hf)⟩
  · exact h.grounded id hid fun hw' => hout (by simp [hwaiting, hw', heq])

section Settles
variable (h : Booked cx within before p) (hw : n.id ∈ p.waiting)
  (eligible : p.isEligible cx n.id = true)
include h hw

theorem Booked.within_of_waiting : within n.id := (h.split _).2 (.inl (isPending_iff.2 (.inl hw)))

theorem Booked.not_calculated_of_waiting : n.id ∉ p.calculated := fun hc => by
  have hnot := h.excluded _ hc
  rw [isPending_iff.2 (.inl hw)] at hnot
  cases hnot

/-- A failure that was written down stands once a node that waited is settled. -/
theorem Booked.failsWith {fault : CompileFault} (hid : id ∈ p.failed)
    (hfails : cx.graph.FailsWith cx.tile p.compiled id fault)
    (hq : ∀ u, u ≠ n.id → q.compiled[u]? = p.compiled[u]?) :
    cx.graph.FailsWith cx.tile q.compiled id fault := by
  intro m hm
  obtain rfl := Graph.id_of_node? hm
  change (q.scope cx m).compile.Certain _
  rw [compile_scope_eq hw (h.ready m.id hid) hq]
  exact hfails m hm

include eligible

theorem Booked.calculated (hf : n.id ∉ p.failed) (k : Compiled) (e : Effects) :
    Booked cx within before ((p.absorb e).succeed cx n k) := by
  have hnot := h.not_calculated_of_waiting hw
  have hfailed : p.failed.filter (· ≠ n.id) = p.failed := by
    refine List.filter_eq_self.2 fun id hid => ?_
    simp only [ne_eq, decide_eq_true_eq]
    rintro rfl
    exact hf hid
  have hcompiled : ∀ u, u ≠ n.id →
      ((p.absorb e).succeed cx n k).compiled[u]? = p.compiled[u]? := fun u hu => by
    rw [compiled_succeed, Std.HashMap.getElem?_insert, if_neg (by simpa using Ne.symm hu)]
    rfl
  have hmem : ∀ id, id ∈ ((p.absorb e).succeed cx n k).calculated ↔
      id ∈ p.calculated ∨ id = n.id := fun id => by simp
  constructor
  case toOrderly => exact h.toOrderly.calculated hw hf k e
  case split =>
    intro id
    rw [h.split, hmem, isPending_iff, isPending_iff, waiting_succeed, failed_succeed,
      waiting_absorb, failed_absorb, hfailed]
    simp only [ne_eq, List.mem_filter, decide_eq_true_eq]
    by_cases heq : id = n.id
    · subst heq
      simp [hw]
    · simp [heq]
  case once =>
    rw [calculated_succeed, calculated_absorb]
    exact List.nodup_append.2 ⟨h.once, List.nodup_singleton _, fun a ha b hb hab =>
      hnot (List.mem_singleton.1 hb ▸ hab ▸ ha)⟩
  case fed =>
    intro id hid u hu hu'
    rw [waiting_succeed, List.mem_filter] at hu'
    rcases (hmem id).1 hid with hid | rfl
    · exact h.fed id hid u hu hu'.1
    · exact isEligible_iff.1 eligible u hu hu'.1
  case ordered =>
    intro u v huv hu hv
    rw [calculated_succeed, calculated_absorb]
    rcases (hmem v).1 hv with hv | rfl
    · rcases (hmem u).1 hu with hu | rfl
      · exact (h.ordered u v huv hu hv).trans (List.sublist_append_left _ _)
      · exact absurd hw (h.fed v hv _ huv)
    · rcases (hmem u).1 hu with hu | rfl
      · exact List.Sublist.append (List.singleton_sublist.2 hu) (List.Sublist.refl [n.id])
      · exact absurd hw (isEligible_iff.1 eligible _ huv)
  case stored =>
    intro id hid
    rw [hmem, compiled_succeed, compiled_absorb, Compilation.isCalculated,
      Std.HashMap.contains_insert, Bool.or_eq_true, beq_iff_eq, or_comm]
    exact or_congr (h.stored id hid) eq_comm
  case outside =>
    intro id hid
    rw [← h.outside id hid]
    exact hcompiled id fun heq => hid (heq ▸ h.within_of_waiting hw)
  case distinct => rw [failed_succeed, failed_absorb, hfailed]; exact h.distinct
  case faults =>
    obtain ⟨faults, hfailures, hnodes, hfails⟩ := h.faults
    refine ⟨faults, by rw [failures_succeed, failures_absorb, hfailures],
      by rw [failed_succeed, failed_absorb, hfailed, hnodes], fun f hfault => ?_⟩
    exact h.failsWith hw (hnodes ▸ List.mem_map_of_mem hfault) (hfails f hfault) hcompiled
  case grounded =>
    intro id hid hout
    exact h.grounded_filter eligible (waiting_succeed (p.absorb e) cx n k) hid hout

theorem Booked.fails (hn : cx.graph.node? n.id = some n) {x : GraphError} {e : Effects}
    (fails : (p.scope cx n).compile.outcome ⟨p.store, []⟩ = (.error x, e)) :
    Booked cx within before ((p.absorb e).fail cx n x) := by
  have first : n.id ∉ p.failed := fun hf => h.apart n.id hf hw
  obtain ⟨hcertain, fault, rfl⟩ := h.toOrderly.certain_error hn fails
  have hcompiled : ∀ u, u ≠ n.id → ((p.absorb e).fail cx n
      (.compileFailure n.id fault)).compiled[u]? = p.compiled[u]? := fun u hu => by
    rw [compiled_fail, Std.HashMap.getElem?_erase, if_neg (by simpa using Ne.symm hu)]
    rfl
  have hpending : ∀ id, ((p.absorb e).fail cx n (.compileFailure n.id fault)).isPending id =
      true ↔ p.isPending id = true := fun id => by
    rw [isPending_iff, isPending_iff, waiting_fail, failed_fail, waiting_absorb, failed_absorb]
    simp only [ne_eq, List.mem_filter, decide_eq_true_eq, List.mem_append, List.mem_singleton]
    by_cases heq : id = n.id
    · subst heq
      simp [hw]
    · simp [heq]
  constructor
  case toOrderly => exact h.toOrderly.fails hn hw eligible fails
  case split =>
    intro id
    rw [h.split, hpending, calculated_fail, calculated_absorb]
  case once => rw [calculated_fail]; exact h.once
  case fed =>
    intro id hid u hu hu'
    rw [waiting_fail, List.mem_filter] at hu'
    rw [calculated_fail] at hid
    exact h.fed id hid u hu hu'.1
  case ordered =>
    rw [calculated_fail]
    exact h.ordered
  case stored =>
    intro id hid
    rw [calculated_fail, compiled_fail, Compilation.isCalculated, Std.HashMap.contains_erase,
      Bool.and_eq_true, Bool.not_eq_true', beq_eq_false_iff_ne]
    refine ⟨fun hc => (h.stored id hid).1 hc.2, fun hc => ⟨?_, (h.stored id hid).2 hc⟩⟩
    rintro rfl
    exact h.not_calculated_of_waiting hw hc
  case outside =>
    intro id hid
    rw [← h.outside id hid]
    exact hcompiled id fun heq => hid (heq ▸ h.within_of_waiting hw)
  case distinct =>
    rw [failed_fail, failed_absorb]
    exact List.nodup_append.2 ⟨h.distinct, List.nodup_singleton _, fun a ha b hb hab =>
      first (List.mem_singleton.1 hb ▸ hab ▸ ha)⟩
  case faults =>
    obtain ⟨faults, hfailures, hnodes, hfails⟩ := h.faults
    refine ⟨faults ++ [(n.id, fault)], ?_, ?_, fun f hfault => ?_⟩
    · rw [failures_fail, failures_absorb, hfailures, Report.faultsOf, Report.faultsOf,
        List.map_append]
      rfl
    · rw [failed_fail, failed_absorb, List.map_append, hnodes]
      rfl
    · rcases List.mem_append.1 hfault with hfault | hfault
      · exact h.failsWith hw (hnodes ▸ List.mem_map_of_mem hfault) (hfails f hfault) hcompiled
      · obtain rfl := List.mem_singleton.1 hfault
        intro m hm
        obtain rfl := Option.some.inj (hn.symm.trans hm)
        -- The node is fed by none that waits, itself neither, so it fails as it did just now.
        change (((p.absorb e).fail cx n _).scope cx n).compile.Certain _
        rw [compile_scope_eq hw (isEligible_iff.1 eligible) hcompiled]
        exact hcertain
  case grounded =>
    intro id hid hout
    exact h.grounded_filter eligible (waiting_fail (p.absorb e) cx n _) hid hout

end Settles

/-- An attempt at a pending node keeps the books. -/
theorem Booked.attempted (h : Booked cx within before p) (hn : cx.graph.node? n.id = some n)
    (hp : p.isPending n.id = true) {out : Outcome × Pass} (ht : Attempted cx p n out) :
    Booked cx within before out.2 := by
  cases ht with
  | blocked eligible => exact h
  | calculated eligible compiles =>
    have hf := h.toOrderly.not_failed hn compiles
    exact h.calculated ((isPending_iff.1 hp).resolve_right hf) eligible hf _ _
  | failed eligible fails first =>
    exact h.fails ((isPending_iff.1 hp).resolve_right first) eligible hn fails
  | retried eligible fails again => exact h.congr rfl rfl rfl rfl rfl

theorem Booked.moves (h : Booked cx within before p) (hm : Moves cx p q) :
    Booked cx within before q := by
  induction hm with
  | refl => exact h
  | tail _ hm ih =>
    cases hm with
    | attempt id pending =>
      obtain ⟨n, rfl, hn⟩ := ih.node pending
      exact ih.attempted hn pending (attempt_attempted _ hn)
    | plan work => exact ih.congr rfl rfl rfl rfl rfl

end Pass
end Terrain
