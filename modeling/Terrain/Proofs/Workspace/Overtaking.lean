import Mathlib
import Terrain.Proofs.Workspace.Covered

/-! Cycles under every kind of pass. Nothing on a cycle is ever calculated. A pass takes as settled
what it does not cover, so behind a cycle a node is calculated just where a pass overtakes it, that
is, covers the node but none of the cycles that it is behind. Every other node fares in a pass as
it does in a full one. -/
namespace Terrain

namespace Graph

variable {g g' : Graph} {σ : NodeId → Option Meaning} {overtaken : NodeId → Prop}

/-- What can be relied on about cycles, where the nodes show `σ`, and the changes are still to be
worked off: a node that they do not concern is settled, or it is behind a cycle. Then it shows
nothing, or it was overtaken and is not on a cycle itself. -/
structure CycleSafe (g : Graph) (changes : List Change) (σ : NodeId → Option Meaning)
    (overtaken : NodeId → Prop) : Prop where
  blank : ∀ id, g.Behind id → ¬ g.Concerns changes id → σ id = none ∨ overtaken id ∧ ¬ g.OnCycle id
  settled : ∀ id ∈ g.nodeIds, ¬ g.Behind id → ¬ g.Concerns changes id →
    ∃ tile, g.SettledAt tile σ id

theorem CycleSafe.step (h : g.CycleSafe g.changes σ overtaken) (hs : g.Step g')
    (hg : g.WellFormed) : g'.CycleSafe g'.changes σ overtaken := by
  have hg' : g'.WellFormed := hs.wellFormed hg
  have hj : g.Journals g' := hs.journals hg
  refine ⟨fun id hb hc => ?_, fun id hid hb hc => ?_⟩
  · obtain ⟨_, hsame, hold⟩ := hj.sameAbove hg hg' (hb.mem hg') hc
    rw [hsame.onCycle_iff hg hg']
    exact h.blank id ((hsame.behind_iff hg hg').1 hb) hold
  · obtain ⟨hseed, hsame, hold⟩ := hj.sameAbove hg hg' hid hc
    rw [hsame.behind_iff hg hg'] at hb
    obtain ⟨tile, hsettled⟩ := h.settled id ((hsame id .refl).mem hid) hb hold
    exact ⟨tile, hsettled.of_same (hsame id .refl) hseed⟩

theorem CycleSafe.steps (h : g.CycleSafe g.changes σ overtaken) (hs : Steps g g')
    (hg : g.WellFormed) : g'.CycleSafe g'.changes σ overtaken := by
  induction hs with
  | refl => exact h
  | tail hs hstep ih => exact ih.step hstep (Graph.Steps.wellFormed hs hg)

end Graph

namespace Workspace

variable {w : Workspace} {tile : WorldTile} {overtaken : NodeId → Prop} {id : NodeId}
  {pending waiting : List NodeId} {r : PassResult}

/-- The nodes behind a cycle that a pass overtakes are those that do not wait at its end. -/
theorem Ran.overtakes_iff (hran : w.Ran tile pending waiting r) :
    w.graph.Overtakes pending id ↔ id ∈ pending ∧ w.graph.Behind id ∧ id ∉ waiting := by
  rw [hran.waiting_iff_within]
  simp only [Graph.Overtakes, not_and]
  exact ⟨fun ⟨hp, hb, hwithin⟩ => ⟨hp, hb, fun _ => hwithin⟩,
    fun ⟨hp, hb, hwithin⟩ => ⟨hp, hb, hwithin hp⟩⟩

/-- A pass takes care of what it covers, but it may overtake some of that. Beyond that, where
nothing is fed from within, all stays as it was. -/
theorem Ran.cycleSafe (hran : w.Ran tile pending waiting r) (hg : w.graph.WellFormed)
    (hclosed : w.graph.ClosedForward (· ∈ pending)) {changes changes' : List Change}
    (h : w.graph.CycleSafe changes w.compiled.shows overtaken)
    (hleft : ∀ id ∈ w.graph.nodeIds, w.graph.Concerns changes id →
      w.graph.Concerns changes' id ∨ id ∈ pending) :
    w.graph.CycleSafe changes' r.workspace.compiled.shows
      fun id => w.graph.Overtakes pending id ∨ id ∉ pending ∧ overtaken id := by
  have hold : ∀ {id}, id ∈ w.graph.nodeIds → ¬ w.graph.Concerns changes' id → id ∉ pending →
      ¬ w.graph.Concerns changes id := fun hid hc hp hcold =>
    (hleft _ hid hcold).elim hc hp
  refine ⟨fun id hb hc => ?_, fun id hid hb hc => ?_⟩
  · by_cases hp : id ∈ pending
    · by_cases hw : id ∈ waiting
      · exact .inl (hran.stuck id hw).2.1
      · have hover : w.graph.Overtakes pending id := hran.overtakes_iff.2 ⟨hp, hb, hw⟩
        exact .inr ⟨.inl hover, hover.not_onCycle hclosed⟩
    · rw [hran.outside id hp]
      refine (h.blank id hb (hold (hb.mem hg) hc hp)).imp_right fun ⟨hover, hcycle⟩ => ?_
      exact ⟨.inr ⟨hp, hover⟩, hcycle⟩
  · by_cases hp : id ∈ pending
    · refine ⟨tile, hran.settled id hp fun hw => hb ?_⟩
      exact (hran.waiting_iff_within.1 hw).2.of_within
    · obtain ⟨tile', hsettled⟩ := h.settled id hid hb (hold hid hc hp)
      exact ⟨tile', hran.settledAt_outside hclosed hp hsettled⟩

/-- Where a pass has left nothing to be worked off, it reports a node that it has not overtaken just
where the node is behind a cycle or fails. -/
theorem Ran.unsatisfiable_iff_fails (hran : w.Ran tile pending waiting r)
    (hg : w.graph.WellFormed) (h : w.graph.CycleSafe [] r.workspace.compiled.shows overtaken)
    (hknown : id ∈ pending → id ∈ w.graph.nodeIds) (hover : ¬ w.graph.Overtakes pending id) :
    r.report.Unsatisfiable id ↔ id ∈ pending ∧ (w.graph.Behind id ∨ w.graph.Fails id) := by
  rw [hran.unsatisfiable_iff]
  refine and_congr_right fun hp => ?_
  by_cases hb : w.graph.Behind id
  · have hw : id ∈ waiting := by
      by_contra hw
      exact hover (hran.overtakes_iff.2 ⟨hp, hb, hw⟩)
    exact iff_of_true (hran.stuck id hw).2.1 (.inl hb)
  · have hsettled : ∀ u ∈ w.graph.nodeIds, Acc w.graph.Feeds u →
        ∃ tile, w.graph.SettledAt tile r.workspace.compiled.shows u := fun u hu hacc =>
      h.settled u hu (Graph.acc_iff_not_behind.1 hacc) (Graph.not_concerns_nil _ u)
    rw [Graph.fails_iff hg hsettled (hknown hp) (Graph.acc_of_not_behind hb), or_iff_right hb]

/-- A node is not calculated, and holds no value. -/
structure Blank (w : Workspace) (id : NodeId) : Prop where
  calculated : w.isCalculated id = false
  values : ∀ port, w.value? ⟨id, port⟩ = none
  result : w.result? id = none

theorem blank_of_shows (h : w.compiled.shows id = none) : w.Blank id where
  calculated := by rw [isCalculated_eq, h, Option.isSome_none, Bool.and_false]
  values port := by
    refine Option.eq_none_iff_forall_ne_some.2 fun v hv => ?_
    obtain ⟨_, k, hk, _⟩ := Compilation.mem_of_value? hv
    rw [Option.map_eq_none_iff.1 h] at hk
    cases hk
  result := by
    rw [result?, Compilation.result?, Option.map_eq_none_iff.1 h]
    exact ite_self _

end Workspace

/-- A history, with the nodes that were overtaken by the last pass that covered them. -/
inductive Trail : Workspace → (AnySupplier → Prop) → (NodeId → Prop) → Prop
  | fresh (name : Option String) (seed : Seed) :
      Trail { graph := { id := name, seed } } (fun _ => False) fun _ => False
  | edit {w : Workspace} {held : AnySupplier → Prop} {overtaken : NodeId → Prop}
      (h : Trail w held overtaken) (e : Edit) : Trail (w.edited e) held overtaken
  -- Every pass that covers a node decides anew whether the node is overtaken.
  | pass {w : Workspace} {held : AnySupplier → Prop} {overtaken : NodeId → Prop}
      (h : Trail w held overtaken) (tile : WorldTile) (interest : Interest) (request : Request) :
      Trail (w.serve tile interest request).workspace
        (fun x => held x ∨ (w.serve tile interest request).workspace.compiled.Stores x)
        fun id => w.graph.Overtakes (w.covered request) id ∨ id ∉ w.covered request ∧ overtaken id
  | touch {w : Workspace} {held : AnySupplier → Prop} {overtaken : NodeId → Prop}
      (h : Trail w held overtaken) {st : Store} (ht : w.store.Touch held st) :
      Trail { w with store := st } held overtaken

theorem History.trail {w : Workspace} {held : AnySupplier → Prop}
    (h : History (fun _ => True) w held) : ∃ overtaken, Trail w held overtaken := by
  induction h with
  | fresh name seed => exact ⟨_, .fresh name seed⟩
  | edit _ e ih =>
    obtain ⟨_, ih⟩ := ih
    exact ⟨_, ih.edit e⟩
  | pass _ _ interest request ih =>
    obtain ⟨_, ih⟩ := ih
    exact ⟨_, ih.pass _ interest request⟩
  | touch _ ht ih =>
    obtain ⟨_, ih⟩ := ih
    exact ⟨_, ih.touch ht⟩

/-- What a full pass reports as unsatisfiable. -/
theorem History.traverseAll_unsatisfiable {allowed : WorldTile → Prop} {w : Workspace}
    {held : AnySupplier → Prop} (h : History allowed w held) (tile : WorldTile)
    (interest : Interest) {id : NodeId} :
    (w.traverseAll tile interest).report.Unsatisfiable id ↔
      w.graph.Behind id ∨ w.graph.Fails id := by
  obtain ⟨Γ, hΓ⟩ := h.backed
  obtain ⟨waiting, hran⟩ := Workspace.traverseAll_covers tile interest hΓ
  rw [hran.unsatisfiable_iff, ← hran.stalled, (h.traverseAll_outcome tile interest).stalled]

namespace Trail

variable {w : Workspace} {held : AnySupplier → Prop} {overtaken : NodeId → Prop}

theorem history (h : Trail w held overtaken) : History (fun _ => True) w held := by
  induction h with
  | fresh name seed => exact .fresh name seed
  | edit _ e ih => exact ih.edit e
  | pass _ tile interest request ih => exact ih.pass trivial interest request
  | touch _ ht ih => exact ih.touch ht

theorem cycleSafe (h : Trail w held overtaken) :
    w.graph.CycleSafe w.graph.changes w.compiled.shows overtaken := by
  induction h with
  | fresh name seed =>
    refine ⟨fun id hb => ?_, fun id hid => absurd hid List.not_mem_nil⟩
    exact absurd (hb.mem (Graph.new_wellFormed name seed)) List.not_mem_nil
  | edit h e ih => exact ih.steps (Graph.steps_after h.history.wellFormed e) h.history.wellFormed
  | touch _ _ ih => exact ih
  | @pass w held overtaken h tile interest request ih =>
    have hg : w.graph.WellFormed := h.history.wellFormed
    obtain ⟨Γ, hΓ⟩ := h.history.backed
    obtain ⟨v, waiting, hopens, hran⟩ := Workspace.serve_ran tile interest hg hΓ request
    have hclosed := (request.seeding w.graph).closed hg
    rw [hran.graph]
    cases hopens with
    | kept => exact hran.cycleSafe hg hclosed ih fun id _ hc => .inl hc
    | drained all =>
      exact hran.cycleSafe hg.drain hclosed ⟨ih.blank, ih.settled⟩ fun id hid hc =>
        .inr (all id hid hc)

/-- Where the journal is empty, no node on a cycle is calculated or holds a value, and a node
downstream of one does so only if the last pass that covered it has overtaken it, which no full pass
does. So a pass that leaves the journal empty reports of the nodes that it covers, but for those
that it overtakes, the same as a full pass. -/
theorem cycle_safe (h : Trail w held overtaken) :
    (w.graph.changes = [] → ∀ id, w.graph.Behind id →
      w.Blank id ∨ overtaken id ∧ ¬ w.graph.OnCycle id) ∧
    (∀ id, ¬ w.graph.Overtakes (w.covered .traverseAll) id) ∧
    ∀ tile interest request, (w.serve tile interest request).workspace.graph.changes = [] →
      ∀ id, ¬ w.graph.Overtakes (w.covered request) id → ∀ tile' interest',
        ((w.serve tile interest request).report.Unsatisfiable id ↔
          id ∈ w.covered request ∧
            (w.traverseAll tile' interest').report.Unsatisfiable id) := by
  have hg : w.graph.WellFormed := h.history.wellFormed
  refine ⟨fun hlog id hb => ?_, fun id => ?_,
    fun tile interest request hlog id hover tile' interest' => ?_⟩
  · refine (h.cycleSafe.blank id hb ?_).imp_left Workspace.blank_of_shows
    rw [hlog]
    exact Graph.not_concerns_nil _ id
  · exact Workspace.not_overtakes_traverseAll hg id
  · obtain ⟨Γ, hΓ⟩ := h.history.backed
    obtain ⟨v, waiting, hopens, hran⟩ := Workspace.serve_ran tile interest hg hΓ request
    have hafter := (h.pass tile interest request).cycleSafe
    rw [hlog, hran.graph] at hafter
    have hknown : id ∈ w.covered request → id ∈ w.graph.nodeIds :=
      (request.seeding w.graph).known hg
    rw [h.history.traverseAll_unsatisfiable]
    cases hopens with
    | kept => exact hran.unsatisfiable_iff_fails hg hafter hknown hover
    | drained _ =>
      rw [← Graph.fails_drain]
      exact hran.unsatisfiable_iff_fails hg.drain hafter hknown hover

end Trail

namespace Workspace

/-- Two sums that feed each other, and a third that one of them feeds. -/
def tangle : Workspace :=
  let sum : Edit := .addNode (.operator { target := .value })
  let sums := ((({ graph := {} } : Workspace).edited sum).edited sum).edited sum
  ((sums.edited (.connectNamed ⟨0⟩ "result" ⟨1⟩ "input0")).edited
    (.connectNamed ⟨1⟩ "result" ⟨0⟩ "input0")).edited (.connectNamed ⟨1⟩ "result" ⟨2⟩ "input0")

/-- After a full pass, one over the third sum alone. -/
def overrun : Workspace :=
  ((tangle.serve {} .none .traverseAll).workspace.serve {} .none (.onChange ⟨2⟩)).workspace

theorem trail_overrun : ∃ held overtaken, Trail overrun held overtaken ∧
    ∀ id, overtaken id → id = ⟨2⟩ := by
  have fresh : Trail { graph := {} } _ _ := .fresh none 0
  have htangle : Trail tangle _ _ := .edit (.edit (.edit (.edit (.edit (.edit fresh _) _) _) _) _) _
  refine ⟨_, _, .pass (.pass htangle {} .none .traverseAll) {} .none (.onChange ⟨2⟩), ?_⟩
  rintro id (⟨hid, _⟩ | ⟨_, hover | ⟨_, hover⟩⟩)
  · have hcovered : (tangle.serve {} .none .traverseAll).workspace.covered (.onChange ⟨2⟩) =
        [⟨2⟩] := by cbv
    rw [hcovered] at hid
    exact List.mem_singleton.1 hid
  · exact absurd hover (not_overtakes_traverseAll htangle.history.wellFormed id)
  · exact hover.elim

theorem feeds_overrun : overrun.graph.Feeds ⟨0⟩ ⟨1⟩ ∧ overrun.graph.Feeds ⟨1⟩ ⟨0⟩ ∧
    overrun.graph.Feeds ⟨1⟩ ⟨2⟩ := by
  have hfeeders : overrun.graph.feeders ⟨1⟩ = [⟨0⟩] ∧ overrun.graph.feeders ⟨0⟩ = [⟨1⟩] ∧
      overrun.graph.feeders ⟨2⟩ = [⟨1⟩] := by
    refine ⟨?_, ?_, ?_⟩ <;> cbv
  simp [← Graph.mem_feeders, hfeeders]

theorem behind_overrun : overrun.graph.Behind ⟨0⟩ ∧ overrun.graph.Behind ⟨2⟩ := by
  obtain ⟨hthere, hback, hon⟩ := feeds_overrun
  have hcycle : overrun.graph.OnCycle ⟨0⟩ := .tail (.single hthere) hback
  exact ⟨⟨_, hcycle, .refl⟩, ⟨_, hcycle, .tail (.single hthere) hon⟩⟩

theorem overrun_cycle_safe : overrun.graph.changes = [] ∧
    (overrun.graph.Behind ⟨0⟩ ∧ ∀ id, overrun.graph.Behind id → overrun.Blank id ∨ id = ⟨2⟩) ∧
    ∀ id tile interest, (overrun.serve {} .none (.onChange ⟨1⟩)).report.Unsatisfiable id ↔
      id ∈ overrun.covered (.onChange ⟨1⟩) ∧
        (overrun.traverseAll tile interest).report.Unsatisfiable id := by
  obtain ⟨held, overtaken, h, honly⟩ := trail_overrun
  have hlog : overrun.graph.changes = [] := by cbv
  refine ⟨hlog, ⟨behind_overrun.1, fun id hb => ?_⟩, fun id tile interest => ?_⟩
  · exact (h.cycle_safe.1 hlog id hb).imp_right fun hover => honly id hover.1
  · have hcovered : overrun.covered (.onChange ⟨1⟩) = [⟨1⟩, ⟨0⟩, ⟨2⟩] := by cbv
    have hids : overrun.graph.nodeIds = [⟨0⟩, ⟨1⟩, ⟨2⟩] := by cbv
    have hall : ¬ overrun.graph.Overtakes (overrun.covered (.onChange ⟨1⟩)) id :=
      Graph.not_overtakes_all h.history.wellFormed (by simp [hids, hcovered])
    have hlog' : (overrun.serve {} .none (.onChange ⟨1⟩)).workspace.graph.changes = [] := hlog
    exact h.cycle_safe.2.2 {} .none (.onChange ⟨1⟩) hlog' id hall tile interest

/-- The third sum is behind a cycle, and is calculated all the same: a pass over it alone compiles
it, where a full pass reports it as unsatisfiable. -/
theorem overrun_calculated : (∃ held, History (fun _ => True) overrun held) ∧
    overrun.graph.changes = [] ∧ overrun.graph.Behind ⟨2⟩ ∧
    overrun.isCalculated ⟨2⟩ = true ∧ (overrun.value? ⟨⟨2⟩, ⟨0⟩⟩).isSome = true ∧
    ¬ (overrun.serve {} .none (.onChange ⟨2⟩)).report.Unsatisfiable ⟨2⟩ ∧
      (overrun.serve {} .none .traverseAll).report.Unsatisfiable ⟨2⟩ := by
  obtain ⟨held, overtaken, h, _⟩ := trail_overrun
  refine ⟨⟨held, h.history⟩, by cbv, behind_overrun.2, by cbv, by cbv, ?_, ?_⟩
  · have hnone : (overrun.serve {} .none (.onChange ⟨2⟩)).report.failures = [] := by cbv
    rintro ⟨ids, he, _⟩
    rw [hnone] at he
    cases he
  · exact (h.history.traverseAll_unsatisfiable {} .none).2 (.inl behind_overrun.2)

end Workspace
end Terrain
