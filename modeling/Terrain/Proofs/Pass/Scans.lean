import Mathlib
import Terrain.Proofs.Compile.Decided
import Terrain.Proofs.Compile.Reading
import Terrain.Proofs.Graph.Frame
import Terrain.Proofs.Pass.Ahead

/-! The scans of a pass, and the turns of its pushes. A node that fails is fed by none that goes on
to wait, so it sees the same inputs whenever it is tried again, and fails again. One scan is then
enough to settle what can be settled: a second one finds nodes that wait for one another, and nodes
that fail once more. -/
namespace Terrain

open Pass

variable {cx : PassSetting} {p q : Pass} {id : NodeId} {n m : Node} {ids stack : List NodeId}

/-- What a node compiles to depends on no other entries than those of the nodes that feed it. -/
theorem Scope.compile_eq_of_feeders {g : Graph} {table table' : Compilation} (tile : WorldTile)
    (h : ∀ u, g.Feeds u n.id → table'[u]? = table[u]?) :
    (Scope.mk g table' tile n).compile = (Scope.mk g table tile n).compile := by
  have hfeed : (Scope.mk g table' tile n).feed = (Scope.mk g table tile n).feed := by
    funext port
    unfold Scope.feed Compilation.value?
    cases hs : g.sourceOf? ⟨n.id, port.id⟩ with
    | none => rfl
    | some source => simp only [h _ ⟨_, Graph.connection_of_sourceOf? hs, rfl, rfl⟩]
  refine Alike.compile ⟨rfl, rfl, rfl, fun port _ _ => ?_⟩
  rw [hfeed]
  exact .same _

namespace Pass

/-- The invariant of a pass in which failures are final, whatever the nodes had compiled to. -/
structure Orderly (cx : PassSetting) (p : Pass) : Prop extends Tidy cx p where
  fits : ∀ n ∈ cx.graph.nodes, n.Fits
  /-- A node that has failed is fed by none that waits. -/
  ready : ∀ id ∈ p.failed, ∀ u, cx.graph.Feeds u id → u ∉ p.waiting
  /-- A node that has failed would do so again, whatever the store holds. -/
  doomed : ∀ n, cx.graph.node? n.id = some n → n.id ∈ p.failed →
    ∃ x, (p.scope cx n).compile.Certain (.error x)
  excluded : ∀ id ∈ p.calculated, p.isPending id = false
  recorded : ∀ id fault, .compileFailure id fault ∈ p.failures → id ∈ p.failed

theorem Orderly.congr (h : Orderly cx p) (hcompiled : q.compiled = p.compiled)
    (hwaiting : q.waiting = p.waiting) (hfailed : q.failed = p.failed)
    (hcalculated : q.calculated = p.calculated) (hfailures : q.failures = p.failures) :
    Orderly cx q := by
  have hpending : q.isPending = p.isPending := by
    funext id
    rw [isPending, isPending, hwaiting, hfailed]
  refine ⟨⟨?_, ?_⟩, h.fits, ?_, ?_, ?_, ?_⟩
  all_goals simp only [hpending, hwaiting, hfailed, hcalculated, hfailures, scope, hcompiled]
  exacts [h.known, h.apart, h.ready, h.doomed, h.excluded, h.recorded]

/-- A node that is fed by none that waits compiles as before once a node that waited is settled. -/
theorem compile_scope_eq (hw : id ∈ p.waiting)
    (hm : ∀ u, cx.graph.Feeds u m.id → u ∉ p.waiting)
    (hq : ∀ u, u ≠ id → q.compiled[u]? = p.compiled[u]?) :
    (q.scope cx m).compile = (p.scope cx m).compile := by
  refine Scope.compile_eq_of_feeders cx.tile fun u hu => hq u ?_
  rintro rfl
  exact hm u hu hw

/-- A node that fails does so in any case, and its failure names it. -/
theorem Orderly.certain_error (h : Orderly cx p) (hn : cx.graph.node? n.id = some n)
    {x : GraphError} {e e' : Effects} (hout : (p.scope cx n).compile.outcome e = (.error x, e')) :
    (p.scope cx n).compile.Certain (.error x) ∧ ∃ fault, x = .compileFailure n.id fault := by
  have hfits : (p.scope cx n).node.Fits := h.fits n (Graph.mem_of_node? hn)
  obtain ⟨fault, hx, _, hcertain⟩ :=
    (Scope.compile_decided hfits).certain_error (congrArg Prod.fst hout)
  exact ⟨hcertain, fault, hx⟩

/-- A node that has failed does not compile when it is tried again. -/
theorem Orderly.not_failed (h : Orderly cx p) (hn : cx.graph.node? n.id = some n) {k : Compiled}
    {e e' : Effects} (hout : (p.scope cx n).compile.outcome e = (.ok k, e')) :
    n.id ∉ p.failed := by
  intro hf
  obtain ⟨x, hx⟩ := h.doomed n hn hf
  have hx := hx e
  rw [hout] at hx
  cases hx

theorem Orderly.calculated (h : Orderly cx p) (hw : n.id ∈ p.waiting) (hf : n.id ∉ p.failed)
    (k : Compiled) (e : Effects) : Orderly cx ((p.absorb e).succeed cx n k) := by
  have hwaiting : ∀ id, id ∈ ((p.absorb e).succeed cx n k).waiting ↔
      id ∈ p.waiting ∧ id ≠ n.id := fun id => by simp
  have hfailed : ∀ id, id ∈ ((p.absorb e).succeed cx n k).failed ↔ id ∈ p.failed := fun id => by
    simp only [failed_succeed, failed_absorb, ne_eq, List.mem_filter, decide_eq_true_eq,
      and_iff_left_iff_imp]
    rintro hid rfl
    exact hf hid
  have hcompiled : ∀ u, u ≠ n.id →
      ((p.absorb e).succeed cx n k).compiled[u]? = p.compiled[u]? := fun u hu => by
    rw [compiled_succeed, Std.HashMap.getElem?_insert, if_neg (by simpa using Ne.symm hu)]
    rfl
  refine ⟨h.mono (fun id hid => ((hwaiting id).1 hid).1) fun id hid => (hfailed id).1 hid, h.fits,
    fun id hid u hu hu' => ?_, fun m hm hid => ?_, fun id hid => ?_, fun id fault he => ?_⟩
  · exact h.ready id ((hfailed id).1 hid) u hu ((hwaiting u).1 hu').1
  · obtain ⟨x, hx⟩ := h.doomed m hm ((hfailed m.id).1 hid)
    rw [← compile_scope_eq hw (h.ready m.id ((hfailed m.id).1 hid)) hcompiled] at hx
    exact ⟨x, hx⟩
  · rw [Bool.eq_false_iff, ne_eq, isPending_iff, hwaiting, hfailed]
    rw [calculated_succeed, List.mem_append, List.mem_singleton] at hid
    rcases hid with hid | rfl
    · have hnot := h.excluded id hid
      rw [Bool.eq_false_iff, ne_eq, isPending_iff] at hnot
      exact fun hp => hnot (hp.imp_left And.left)
    · exact fun hp => hp.elim (fun hw => hw.2 rfl) hf
  · rw [failures_succeed] at he
    exact (hfailed id).2 (h.recorded id fault he)

theorem Orderly.fails (h : Orderly cx p) (hn : cx.graph.node? n.id = some n)
    (hw : n.id ∈ p.waiting) (eligible : p.isEligible cx n.id = true) {x : GraphError} {e : Effects}
    (fails : (p.scope cx n).compile.outcome ⟨p.store, []⟩ = (.error x, e)) :
    Orderly cx ((p.absorb e).fail cx n x) := by
  have hp : p.isPending n.id = true := isPending_iff.2 (.inl hw)
  have first : n.id ∉ p.failed := fun hf => h.apart n.id hf hw
  obtain ⟨hcertain, fault, hx⟩ := h.certain_error hn fails
  have hwaiting : ∀ id, id ∈ ((p.absorb e).fail cx n x).waiting → id ∈ p.waiting := fun id hid =>
    (List.mem_filter.1 (waiting_fail .. ▸ hid)).1
  have hfailed : ∀ id, id ∈ ((p.absorb e).fail cx n x).failed ↔ id ∈ p.failed ∨ id = n.id :=
    fun id => by simp
  have hcompiled : ∀ u, u ≠ n.id →
      ((p.absorb e).fail cx n x).compiled[u]? = p.compiled[u]? := fun u hu => by
    rw [compiled_fail, Std.HashMap.getElem?_erase, if_neg (by simpa using Ne.symm hu)]
    rfl
  have hready : ∀ id, id ∈ p.failed ∨ id = n.id → ∀ u, cx.graph.Feeds u id → u ∉ p.waiting := by
    rintro id (hf | rfl)
    · exact h.ready id hf
    · exact isEligible_iff.1 eligible
  refine ⟨h.toTidy.attempted hp (.failed eligible fails first), h.fits,
    fun id hid u hu hu' => ?_, fun m hm hid => ?_, fun id hid => ?_, fun id fault he => ?_⟩
  · exact hready id ((hfailed id).1 hid) u hu (hwaiting u hu')
  · have hid := (hfailed m.id).1 hid
    rw [compile_scope_eq hw (hready m.id hid) hcompiled]
    rcases hid with hf | heq
    · exact h.doomed m hm hf
    · rw [heq, hn] at hm
      cases hm
      exact ⟨x, hcertain⟩
  · rw [calculated_fail] at hid
    have hnot := h.excluded id hid
    rw [Bool.eq_false_iff, ne_eq, isPending_iff] at hnot ⊢
    rw [hfailed]
    rintro (hw' | hf | rfl)
    · exact hnot (.inl (hwaiting id hw'))
    · exact hnot (.inr hf)
    · exact hnot (.inl hw)
  · rw [failures_fail, List.mem_append, List.mem_singleton, hx] at he
    refine (hfailed id).2 (he.imp (h.recorded id fault) fun heq => ?_)
    cases heq
    rfl

/-- An attempt at a pending node keeps the invariant, and what has failed stays failed. -/
theorem Orderly.attempted (h : Orderly cx p) (hn : cx.graph.node? n.id = some n)
    (hp : p.isPending n.id = true) {out : Outcome × Pass} (ht : Attempted cx p n out) :
    Orderly cx out.2 ∧ ∀ id ∈ p.failed, id ∈ out.2.failed := by
  cases ht with
  | blocked eligible => exact ⟨h, fun _ hid => hid⟩
  | calculated eligible compiles =>
    have hf := h.not_failed hn compiles
    refine ⟨h.calculated ((isPending_iff.1 hp).resolve_right hf) hf _ _, fun id hid => ?_⟩
    rw [failed_succeed, failed_absorb, List.mem_filter, decide_eq_true_eq]
    refine ⟨hid, ?_⟩
    rintro rfl
    exact hf hid
  | failed eligible fails first =>
    have hw := (isPending_iff.1 hp).resolve_right first
    refine ⟨h.fails hn hw eligible fails, fun id hid => ?_⟩
    rw [failed_fail]
    exact List.mem_append_left _ hid
  | retried eligible fails again => exact ⟨h.congr rfl rfl rfl rfl rfl, fun _ hid => hid⟩

theorem Orderly.move (h : Orderly cx p) (hm : Move cx p q) :
    Orderly cx q ∧ ∀ id ∈ p.failed, id ∈ q.failed := by
  cases hm with
  | attempt id pending =>
    obtain ⟨n, rfl, hn⟩ := h.node pending
    exact h.attempted hn pending (attempt_attempted p hn)
  | plan work => exact ⟨h.congr rfl rfl rfl rfl rfl, fun _ hid => hid⟩

theorem Orderly.moves (h : Orderly cx p) (hm : Moves cx p q) :
    Orderly cx q ∧ ∀ id ∈ p.failed, id ∈ q.failed := by
  induction hm with
  | refl => exact ⟨h, fun _ hid => hid⟩
  | tail _ hm ih =>
    obtain ⟨hq, hfailed⟩ := ih
    obtain ⟨hr, hfailed'⟩ := hq.move hm
    exact ⟨hr, fun id hid => hfailed' id (hfailed id hid)⟩

/-- Nothing has come of a stretch of a pass, but for what was read from the store and noticed. -/
def Idle (p q : Pass) : Prop := ∃ store notices, q = { p with store, notices }

theorem Idle.refl (p : Pass) : Idle p p := ⟨p.store, p.notices, rfl⟩

theorem Idle.trans {r : Pass} (hpq : Idle p q) (hqr : Idle q r) : Idle p r := by
  obtain ⟨_, _, rfl⟩ := hpq
  obtain ⟨store, notices, rfl⟩ := hqr
  exact ⟨store, notices, rfl⟩

/-- Where every node that waits is fed by one that waits, nothing comes of an attempt. -/
theorem Orderly.attempt_idle (h : Orderly cx p) (hstuck : Ahead cx p [])
    (hp : p.isPending id = true) :
    (p.attempt cx id).1.advances = false ∧ Idle p (p.attempt cx id).2 := by
  obtain ⟨n, rfl, hn⟩ := h.node hp
  have ht := attempt_attempted p hn
  generalize p.attempt cx n.id = out at ht
  have hfed : n.id ∈ p.waiting → ∃ u, cx.graph.Feeds u n.id ∧ u ∈ p.waiting := fun hw => by
    obtain ⟨u, hu, hfeeds⟩ := (hstuck n.id hw).resolve_left List.not_mem_nil
    exact ⟨u, hfeeds, hu⟩
  cases ht with
  | blocked eligible => exact ⟨rfl, .refl p⟩
  | calculated eligible compiles =>
    obtain ⟨u, hfeeds, hu⟩ := hfed ((isPending_iff.1 hp).resolve_right (h.not_failed hn compiles))
    exact absurd hu (isEligible_iff.1 eligible u hfeeds)
  | failed eligible fails first =>
    obtain ⟨u, hfeeds, hu⟩ := hfed ((isPending_iff.1 hp).resolve_right first)
    exact absurd hu (isEligible_iff.1 eligible u hfeeds)
  | retried eligible fails again => exact ⟨rfl, _, _, rfl⟩

/-- Where every node that waits is fed by one that waits, nothing comes of a scan. -/
theorem Orderly.scan_idle (ids : List NodeId) (h : Orderly cx p) (hstuck : Ahead cx p []) :
    (scan cx ids p).1 = false ∧ Idle p (scan cx ids p).2 := by
  induction ids generalizing p with
  | nil => exact ⟨rfl, .refl p⟩
  | cons id rest ih =>
    unfold scan
    split
    · next hp =>
      obtain ⟨hadvances, hidle⟩ := h.attempt_idle hstuck hp
      have hnext := (h.move (.attempt id hp)).1
      have hstuck' : Ahead cx (p.attempt cx id).2 [] := by
        obtain ⟨store, notices, heq⟩ := hidle
        rw [heq]
        exact hstuck.congr rfl
      obtain ⟨hflag, hrest⟩ := ih hnext hstuck'
      simp only [hadvances, Bool.false_eq_true, if_false]
      exact ⟨hflag, hidle.trans hrest⟩
    · exact ih h hstuck

/-- The scans of a pass: the points at which they begin, and where the last of them leaves it. -/
inductive Scans (cx : PassSetting) : Pass → List Pass → Pass → Prop
  | last {p : Pass}
      (ended : (scan cx p.work p).2.trim.work = [] ∨ (scan cx p.work p).1 = false) :
      Scans cx p [p] (scan cx p.work p).2.trim
  | again {p q : Pass} {points : List Pass} (left : (scan cx p.work p).2.trim.work ≠ [])
      (settles : (scan cx p.work p).1 = true)
      (rest : Scans cx (scan cx p.work p).2.trim points q) : Scans cx p (p :: points) q

theorem scans_settle (cx : PassSetting) (p : Pass) : ∃ points, Scans cx p points (settle cx p) := by
  fun_induction settle cx p with
  | case1 p round next hover =>
    refine ⟨[p], .last ?_⟩
    simpa using hover
  | case2 p round next hmore ih =>
    obtain ⟨points, hpoints⟩ := ih
    simp only [Bool.or_eq_true, List.isEmpty_iff, Bool.not_eq_true', not_or,
      Bool.not_eq_false] at hmore
    exact ⟨p :: points, .again hmore.1 hmore.2 hpoints⟩

/-- A pass makes two scans at the most, and nothing comes of a second one. -/
theorem Orderly.scans (h : Orderly cx p) (ha : Ahead cx p p.work) {points : List Pass}
    (hs : Scans cx p points q) :
    points.length ≤ 2 ∧ ∀ r ∈ points.tail,
      (scan cx r.work r).1 = false ∧ Idle r (scan cx r.work r).2 := by
  have hnext : Orderly cx (scan cx p.work p).2.trim :=
    (h.moves ((moves_scan cx p.work p).tail (.plan _))).1
  -- The first scan leaves none that waits to be tried, so a second one has nothing to settle.
  have hstuck : Ahead cx (scan cx p.work p).2.trim [] := (ha.scan h.toTidy).congr rfl
  have hidle := hnext.scan_idle (scan cx p.work p).2.trim.work hstuck
  cases hs with
  | last ended => exact ⟨Nat.le_succ 1, nofun⟩
  | again left settles rest =>
    cases rest with
    | last ended =>
      refine ⟨Nat.le_refl 2, fun r hr => ?_⟩
      obtain rfl := List.mem_singleton.1 hr
      exact hidle
    | again left settles rest =>
      rw [hidle.1] at settles
      cases settles

/-- The turns of a push into the nodes of a stack. A turn takes one node off, and where it settles
that node, puts those that read from it on. -/
inductive Pushes (cx : PassSetting) : Pass → List NodeId → Nat → Pass → Prop
  | empty (p : Pass) : Pushes cx p [] 0 p
  | advance {p q : Pass} {next : NodeId} {rest : List NodeId} {turns : Nat}
      (waits : next ∈ p.waiting) (advances : ((p.enqueue next).attempt cx next).1.advances = true)
      (more : Pushes cx ((p.enqueue next).attempt cx next).2 (cx.graph.readers next ++ rest)
        turns q) : Pushes cx p (next :: rest) (turns + 1) q
  | halt {p q : Pass} {next : NodeId} {rest : List NodeId} {turns : Nat}
      (waits : next ∈ p.waiting) (halts : ((p.enqueue next).attempt cx next).1.advances = false)
      (more : Pushes cx ((p.enqueue next).attempt cx next).2 rest turns q) :
      Pushes cx p (next :: rest) (turns + 1) q
  | skip {p q : Pass} {next : NodeId} {rest : List NodeId} {turns : Nat}
      (settled : next ∉ p.waiting) (more : Pushes cx p rest turns q) :
      Pushes cx p (next :: rest) (turns + 1) q

/-- How often the nodes that wait can put others on the stack of a push. -/
def reach (p : Pass) (cx : PassSetting) : Nat :=
  (p.waiting.map fun u => (cx.graph.readers u).length).sum

@[simp] theorem reach_enqueue (p : Pass) (cx : PassSetting) (id : NodeId) :
    (p.enqueue id).reach cx = p.reach cx := by
  rw [reach, waiting_enqueue, reach]

theorem sum_filter_ne_le (f : NodeId → Nat) (ids : List NodeId) (id : NodeId) :
    ((ids.filter (· ≠ id)).map f).sum ≤ (ids.map f).sum :=
  (List.filter_sublist.map f).sum_le_sum fun _ _ => Nat.zero_le _

theorem sum_filter_ne_add_le (f : NodeId → Nat) (hid : id ∈ ids) :
    ((ids.filter (· ≠ id)).map f).sum + f id ≤ (ids.map f).sum := by
  induction ids with
  | nil => cases hid
  | cons u rest ih =>
    by_cases heq : u = id
    · subst heq
      have hle := sum_filter_ne_le f rest u
      simp only [ne_eq, not_true_eq_false, decide_false, Bool.false_eq_true, not_false_eq_true,
        List.filter_cons_of_neg, List.map_cons, List.sum_cons] at hle ⊢
      omega
    · have hrest := ih ((List.mem_cons.1 hid).resolve_left (Ne.symm heq))
      rw [List.filter_cons_of_pos (by simpa using heq)]
      simp only [List.map_cons, List.sum_cons]
      omega

theorem reach_attempt_le (p : Pass) (cx : PassSetting) (id : NodeId) :
    (p.attempt cx id).2.reach cx ≤ p.reach cx := by
  have hle := sum_filter_ne_le (fun u => (cx.graph.readers u).length) p.waiting id
  unfold reach
  rcases p.attempt_cases cx id with ⟨_, h | h⟩ | h | h
  · exact Nat.le_of_eq (by rw [h.1])
  · rw [h.1]; exact hle
  · rw [h.2.1]; exact hle
  · rw [h.2.2.1]; exact hle

theorem reach_attempt_advances (hw : id ∈ p.waiting)
    (hadvances : (p.attempt cx id).1.advances = true) :
    (p.attempt cx id).2.reach cx + (cx.graph.readers id).length ≤ p.reach cx := by
  have hle := sum_filter_ne_add_le (fun u => (cx.graph.readers u).length) hw
  unfold reach
  rcases p.attempt_cases cx id with h | h | h
  · rw [h.1] at hadvances; cases hadvances
  · rw [h.2.1]; exact hle
  · rw [h.2.2.1]; exact hle

/-- A push takes no more turns than there are nodes on its stack and connections out of the nodes
that wait. -/
theorem pushes_pushForward (cx : PassSetting) (p : Pass) (stack : List NodeId) :
    ∃ turns ≤ stack.length + p.reach cx, Pushes cx p stack turns (pushForward cx p stack) := by
  fun_induction pushForward cx p stack with
  | case1 p => exact ⟨0, Nat.zero_le _, .empty p⟩
  | case2 p next rest hw step hadvances ih =>
    have hw := List.contains_iff_mem.1 hw
    obtain ⟨turns, hturns, hmore⟩ := ih
    -- The nodes that come onto the stack are paid for by the one that no longer waits.
    have hreach := reach_attempt_advances (p := p.enqueue next) (by simpa using hw) hadvances
    rw [reach_enqueue] at hreach
    rw [List.length_append] at hturns
    refine ⟨turns + 1, ?_, .advance hw hadvances hmore⟩
    change turns ≤ _ + ((p.enqueue next).attempt cx next).2.reach cx at hturns
    rw [List.length_cons]
    omega
  | case3 p next rest hw step hhalts ih =>
    have hw := List.contains_iff_mem.1 hw
    obtain ⟨turns, hturns, hmore⟩ := ih
    have hreach := reach_attempt_le (p.enqueue next) cx next
    rw [reach_enqueue] at hreach
    refine ⟨turns + 1, ?_, .halt hw (by simpa using hhalts) hmore⟩
    change turns ≤ _ + ((p.enqueue next).attempt cx next).2.reach cx at hturns
    rw [List.length_cons]
    omega
  | case4 p next rest hw ih =>
    obtain ⟨turns, hturns, hmore⟩ := ih
    refine ⟨turns + 1, ?_, .skip (fun hm => hw (List.contains_iff_mem.2 hm)) hmore⟩
    rw [List.length_cons]
    omega

end Pass
end Terrain
