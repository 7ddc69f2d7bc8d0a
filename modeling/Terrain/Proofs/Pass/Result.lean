import Terrain.Proofs.Pass.Ahead

/-! What a pass leaves behind, whatever was compiled before it. -/
namespace Terrain

theorem Compilation.getElem?_foldl_erase (ids : List NodeId) (table : Compilation) (id : NodeId) :
    (ids.foldl (·.erase ·) table)[id]? = if id ∈ ids then none else table[id]? := by
  induction ids generalizing table with
  | nil => simp
  | cons head rest ih =>
    rw [List.foldl_cons, ih, Std.HashMap.getElem?_erase]
    by_cases hr : id ∈ rest
    · simp [hr]
    · by_cases hh : head = id
      · simp [hh]
      · simp [hr, hh, Ne.symm hh]

namespace Pass
variable {cx : PassSetting} {p : Pass}

/-- A stalled pass reports so, and is left as it is otherwise. -/
theorem closeStalled_eq (p : Pass) (cx : PassSetting) :
    ∃ failures events notices, p.closeStalled cx = { p with failures, events, notices } := by
  unfold closeStalled emit notify
  dsimp only
  split
  · exact ⟨_, _, _, rfl⟩
  · split <;> exact ⟨_, _, _, rfl⟩

@[simp] theorem waiting_closeStalled (p : Pass) (cx : PassSetting) :
    (p.closeStalled cx).waiting = p.waiting := by
  obtain ⟨_, _, _, h⟩ := closeStalled_eq p cx
  rw [h]

@[simp] theorem failed_closeStalled (p : Pass) (cx : PassSetting) :
    (p.closeStalled cx).failed = p.failed := by
  obtain ⟨_, _, _, h⟩ := closeStalled_eq p cx
  rw [h]

@[simp] theorem compiled_closeStalled (p : Pass) (cx : PassSetting) :
    (p.closeStalled cx).compiled = p.compiled := by
  obtain ⟨_, _, _, h⟩ := closeStalled_eq p cx
  rw [h]

@[simp] theorem store_closeStalled (p : Pass) (cx : PassSetting) :
    (p.closeStalled cx).store = p.store := by
  obtain ⟨_, _, _, h⟩ := closeStalled_eq p cx
  rw [h]

@[simp] theorem calculated_closeStalled (p : Pass) (cx : PassSetting) :
    (p.closeStalled cx).calculated = p.calculated := by
  obtain ⟨_, _, _, h⟩ := closeStalled_eq p cx
  rw [h]

@[simp] theorem stalled_closeStalled (p : Pass) (cx : PassSetting) :
    (p.closeStalled cx).stalled cx = p.stalled cx := by
  have hpending : (p.closeStalled cx).isPending = p.isPending :=
    funext fun id => by simp [isPending]
  rw [stalled, hpending, stalled]

@[simp] theorem compiled_finish (p : Pass) (cx : PassSetting) :
    (p.finish cx).2.compiled = p.compiled := by
  simp [finish, notify]

@[simp] theorem store_finish (p : Pass) (cx : PassSetting) : (p.finish cx).2.store = p.store := by
  simp [finish, notify]

/-- A stalled pass reports all that is stalled as one failure. -/
theorem unsatisfiable_mem_closeStalled {ids : List NodeId}
    (h : .unsatisfiableDependency ids ∉ p.failures) :
    .unsatisfiableDependency ids ∈ (p.closeStalled cx).failures ↔
      ids = p.stalled cx ∧ ids ≠ [] := by
  unfold closeStalled
  dsimp only
  split
  · next hempty =>
    refine iff_of_false h fun ⟨hids, hne⟩ => hne ?_
    rw [hids, List.isEmpty_iff.1 hempty]
  · next hne =>
    have hsome : ids = p.stalled cx → ids ≠ [] := by
      rintro rfl
      simpa using hne
    simpa [notify, h] using hsome

/-- The failure that a stalled pass reports at its end is not one of a node. -/
theorem compileFailure_mem_closeStalled {id : NodeId} {fault : CompileFault} :
    .compileFailure id fault ∈ (p.closeStalled cx).failures ↔
      .compileFailure id fault ∈ p.failures := by
  unfold closeStalled
  dsimp only
  split
  · rfl
  · simp [notify]

end Pass

/-- A report names a node as unsatisfiable. -/
def Report.Unsatisfiable (r : Report) (id : NodeId) : Prop :=
  ∃ ids, .unsatisfiableDependency ids ∈ r.failures ∧ id ∈ ids

namespace Workspace

open Pass

variable {w : Workspace} {tile : WorldTile} {pending work : List NodeId}
  {counts : NodeId → Prop} {Γ : Ledger} {id : NodeId}

/-- What a pass over pending nodes leaves, where some go on to wait. -/
structure Ran (w : Workspace) (tile : WorldTile) (pending waiting : List NodeId) (r : PassResult) :
    Prop where
  graph : r.workspace.graph = w.graph
  outside : ∀ id ∉ pending, r.workspace.compiled.shows id = w.compiled.shows id
  /-- A node that goes on to wait shows nothing, and is fed by one that does so too. -/
  stuck : ∀ id ∈ waiting, id ∈ pending ∧ r.workspace.compiled.shows id = none ∧
    ∃ u ∈ waiting, w.graph.Feeds u id
  /-- Every other node shows what it has to show, and is not behind a cycle within the pass. -/
  settled : ∀ id ∈ pending, id ∉ waiting → ∀ n, w.graph.node? id = some n →
    r.workspace.compiled.shows id = (w.graph.due tile r.workspace.compiled.shows n).toOption
  grounded : ∀ id ∈ pending, id ∉ waiting →
    Acc (fun u v => u ∈ pending ∧ w.graph.Feeds u v) id
  stalled : ∀ id, id ∈ r.report.stalled ↔ id ∈ pending ∧ r.workspace.compiled.shows id = none
  failures : ∀ id fault, .compileFailure id fault ∈ r.report.failures →
    id ∈ pending ∧ id ∉ waiting ∧ r.workspace.compiled.shows id = none
  failed : ∀ id ∈ pending, id ∉ waiting → r.workspace.compiled.shows id = none →
    ∃ fault, .compileFailure id fault ∈ r.report.failures
  unsatisfiable : ∀ ids, .unsatisfiableDependency ids ∈ r.report.failures ↔
    ids = r.report.stalled ∧ ids ≠ []

@[simp] theorem waiting_startPass (w : Workspace) (pending work : List NodeId) :
    (w.startPass pending work).waiting = pending := rfl

@[simp] theorem work_startPass (w : Workspace) (pending work : List NodeId) :
    (w.startPass pending work).work = work := rfl

@[simp] theorem failed_startPass (w : Workspace) (pending work : List NodeId) :
    (w.startPass pending work).failed = [] := rfl

/-- A pass starts with nothing stored for what is pending. -/
theorem getElem?_compiled_startPass (w : Workspace) (pending work : List NodeId) (id : NodeId) :
    (w.startPass pending work).compiled[id]? =
      if id ∈ pending then none else w.compiled[id]? :=
  Compilation.getElem?_foldl_erase pending w.compiled id

theorem startPass_valid (cx : PassSetting) (hΓ : Γ.Holds w.store)
    (hsteady : ∀ id, counts id → id ∉ pending → ∀ k : Compiled, w.compiled[id]? = some k →
      k.Steady Γ)
    (hcounted : ∀ id ∈ cx.graph.nodeIds, counts id) (hknown : ∀ id ∈ pending, id ∈ cx.graph.nodeIds)
    (work : List NodeId) :
    Valid cx (· ∈ pending) counts w.compiled.shows Γ (w.startPass pending work) := by
  have hentry := w.getElem?_compiled_startPass pending work
  refine ⟨hknown, hcounted, ?_, Γ, List.prefix_rfl, hΓ, fun id hid k hk => ?_⟩
  · have hnone : ∀ id ∈ pending, (w.startPass pending work).shows id = none := fun id hid => by
      rw [shows, Compilation.shows, hentry, if_pos hid, Option.map_none]
    refine ⟨fun id hid => ?_, List.forall_mem_nil _, fun id hid => ?_,
      fun id n hid hw => absurd hid hw, fun id hid hw => absurd hid hw, fun u id _ hid _ => hid,
      fun id hid hw => absurd hid hw, List.forall_mem_nil _, List.forall_mem_nil _⟩
    · have hid : id ∈ pending := by simpa [isPending] using hid
      exact ⟨hid, hnone id hid⟩
    · rw [shows, Compilation.shows, hentry, if_neg hid, Compilation.shows]
  · rw [hentry] at hk
    split at hk
    · cases hk
    · next hp => exact hsteady id hid hp k hk

/-- A pass starts with all that waits ahead of it, on its work-list. -/
theorem startPass_ahead (cx : PassSetting)
    (hcovered : ∀ id ∈ pending, id ∈ work ∨ ∃ u ∈ pending, cx.graph.Feeds u id) (e : Event) :
    Ahead cx ((w.startPass pending work).emit cx e)
      ((w.startPass pending work).emit cx e).work := by
  intro id hid
  simpa using hcovered id (by simpa using hid)

/-- A pass over pending nodes once no more of them can be settled. -/
def settledPass (w : Workspace) (tile : WorldTile) (interest : Interest) (full : Bool)
    (pending work : List NodeId) : Pass :=
  let cx : PassSetting := ⟨w.graph, tile, interest⟩
  settle cx ((w.startPass pending work).emit cx (.passStarted full work))

section RunPass
variable (w tile pending work) (interest : Interest) (full : Bool)

theorem compiled_runPass : (w.runPass tile interest full pending work).workspace.compiled =
    (w.settledPass tile interest full pending work).compiled := by
  simp [runPass, run, settledPass]

theorem store_runPass : (w.runPass tile interest full pending work).workspace.store =
    (w.settledPass tile interest full pending work).store := by
  simp [runPass, run, settledPass]

theorem stalled_runPass : (w.runPass tile interest full pending work).report.stalled =
    (w.settledPass tile interest full pending work).stalled ⟨w.graph, tile, interest⟩ := by
  simp [runPass, run, settledPass, finish, report]

theorem calculated_runPass : (w.runPass tile interest full pending work).report.calculated =
    (w.settledPass tile interest full pending work).calculated := by
  simp [runPass, run, settledPass, finish, report]

theorem compileFailure_mem_runPass (fault : CompileFault) :
    .compileFailure id fault ∈ (w.runPass tile interest full pending work).report.failures ↔
      .compileFailure id fault ∈ (w.settledPass tile interest full pending work).failures :=
  compileFailure_mem_closeStalled

end RunPass

/-- Every pass over nodes of the graph that its work-list covers leaves what is said of one. -/
theorem runPass_ran (tile : WorldTile) (interest : Interest) (hΓ : Γ.Holds w.store)
    (hsteady : ∀ id, counts id → id ∉ pending → ∀ k : Compiled, w.compiled[id]? = some k →
      k.Steady Γ)
    (hcounted : ∀ id ∈ w.graph.nodeIds, counts id) (hknown : ∀ id ∈ pending, id ∈ w.graph.nodeIds)
    (hcovered : ∀ id ∈ pending, id ∈ work ∨ ∃ u ∈ pending, w.graph.Feeds u id) (full : Bool) :
    ∃ waiting, w.Ran tile pending waiting (w.runPass tile interest full pending work) ∧
      ∃ Γ' : Ledger, Γ <+: Γ' ∧
        Γ'.Backs counts (w.runPass tile interest full pending work).workspace.compiled
          (w.runPass tile interest full pending work).workspace.store := by
  let cx : PassSetting := ⟨w.graph, tile, interest⟩
  have hstart := (startPass_valid cx hΓ hsteady hcounted hknown work).emit (.passStarted full work)
  have hstuck := (startPass_ahead cx hcovered (.passStarted full work)).settle hstart.tidy
  have hend : Valid cx (· ∈ pending) counts w.compiled.shows Γ
      (w.settledPass tile interest full pending work) := hstart.moves (moves_settle cx _)
  obtain ⟨hin, _, hprogress, hbacked⟩ := hend
  rw [← compiled_runPass, ← store_runPass] at hbacked
  refine ⟨(w.settledPass tile interest full pending work).waiting, ?_, hbacked⟩
  constructor
  all_goals try rw [compiled_runPass]
  case graph => rfl
  case outside => exact hprogress.outside
  case stuck =>
    intro id hid
    obtain ⟨hid', hnone⟩ := hprogress.pending id (isPending_iff.2 (.inl hid))
    exact ⟨hid', hnone, (hstuck id hid).resolve_left List.not_mem_nil⟩
  case settled => exact fun id hid hw n hn => hprogress.settled id n hid hw hn
  case grounded => exact hprogress.grounded
  case stalled =>
    intro id
    rw [stalled_runPass, Pass.stalled, List.mem_filter]
    refine ⟨fun h => hprogress.pending id h.2, fun ⟨hid, hnone⟩ => ⟨hin id hid, ?_⟩⟩
    by_cases hw : id ∈ (w.settledPass tile interest full pending work).waiting
    · exact isPending_iff.2 (.inl hw)
    · exact isPending_iff.2 (.inr (hprogress.resolved id hid hw hnone))
  case failures =>
    intro id fault he
    rw [compileFailure_mem_runPass] at he
    obtain ⟨_, _, _, heq, hf, _, _⟩ := hprogress.faults _ he
    cases heq
    obtain ⟨hid, hnone⟩ := hprogress.pending id (isPending_iff.2 (.inr hf))
    exact ⟨hid, hprogress.apart id hf, hnone⟩
  case failed =>
    intro id hid hw hnone
    obtain ⟨fault, he⟩ := hprogress.faulted id (hprogress.resolved id hid hw hnone)
    exact ⟨fault, (compileFailure_mem_runPass w tile pending work interest full fault).2 he⟩
  case unsatisfiable =>
    intro ids
    rw [stalled_runPass]
    refine unsatisfiable_mem_closeStalled fun he => ?_
    obtain ⟨_, _, _, heq, _⟩ := hprogress.faults _ he
    cases heq

/-- The nodes that a pass reports as unsatisfiable are those that it has stalled on. -/
theorem Ran.unsatisfiable_iff {waiting : List NodeId} {r : PassResult}
    (hran : w.Ran tile pending waiting r) :
    r.report.Unsatisfiable id ↔ id ∈ pending ∧ r.workspace.compiled.shows id = none := by
  rw [← hran.stalled]
  constructor
  · rintro ⟨ids, he, hid⟩
    rw [hran.unsatisfiable] at he
    exact he.1 ▸ hid
  · intro hid
    exact ⟨_, (hran.unsatisfiable _).2 ⟨rfl, List.ne_nil_of_mem hid⟩, hid⟩

end Workspace

/-- What a pass starts from: every node, or some seeds. -/
inductive Seeding
  | all
  | nodes (seeds : List NodeId)

namespace Seeding

variable {g : Graph} {id : NodeId}

/-- The nodes that the first scan of a pass goes through. -/
def work (g : Graph) : Seeding → List NodeId
  | all => g.roots ++ g.nodeIds.filter (!g.roots.contains ·)
  | nodes seeds => seeds.filter g.has

/-- The nodes that a pass is to compile. -/
def pending (g : Graph) : Seeding → List NodeId
  | all => all.work g
  | nodes seeds => g.forward (seeds.filter g.has)

theorem mem_work_all : id ∈ all.work g ↔ id ∈ g.nodeIds := by
  unfold work
  by_cases hr : id ∈ g.roots
  · simp [hr, (List.mem_filter.1 hr).1]
  · simp [hr]

theorem known (s : Seeding) (hg : g.WellFormed) (hid : id ∈ s.pending g) : id ∈ g.nodeIds := by
  cases s with
  | all => exact mem_work_all.1 hid
  | nodes seeds =>
    obtain ⟨s, hs, hreach⟩ := Graph.mem_forward.1 hid
    rcases Relation.ReflTransGen.cases_tail hreach with rfl | ⟨u, _, hu⟩
    · exact Graph.has_iff.1 (List.mem_filter.1 hs).2
    · exact (hg.mem_of_feeds hu).2

/-- The nodes of a pass are on its work-list, or fed by others of them. -/
theorem covered (s : Seeding) (hid : id ∈ s.pending g) :
    id ∈ s.work g ∨ ∃ u ∈ s.pending g, g.Feeds u id := by
  cases s with
  | all => exact .inl hid
  | nodes seeds =>
    obtain ⟨s, hs, hreach⟩ := Graph.mem_forward.1 hid
    rcases Relation.ReflTransGen.cases_tail hreach with rfl | ⟨u, hsu, hu⟩
    · exact .inl hs
    · exact .inr ⟨u, Graph.mem_forward.2 ⟨s, hs, hsu⟩, hu⟩

end Seeding

namespace Workspace

variable {w : Workspace} {counts : NodeId → Prop} {Γ : Ledger}

theorem traverseAll_eq (w : Workspace) (tile : WorldTile) (interest : Interest) :
    w.traverseAll tile interest = w.drain.2.runPass tile interest true
      (Seeding.all.pending w.drain.2.graph) (Seeding.all.work w.drain.2.graph) := rfl

theorem recalculate_eq (w : Workspace) (tile : WorldTile) (interest : Interest)
    (seeds : List NodeId) :
    w.recalculate tile interest seeds = w.runPass tile interest false
      ((Seeding.nodes seeds).pending w.graph) ((Seeding.nodes seeds).work w.graph) := rfl

section Full
variable (tile : WorldTile) (interest : Interest) (hΓ : Γ.Holds w.store)
  (hsteady : ∀ id, counts id → id ∉ w.graph.nodeIds → ∀ k : Compiled, w.compiled[id]? = some k →
    k.Steady Γ)
  (hcounted : ∀ id ∈ w.graph.nodeIds, counts id)
include hΓ hsteady hcounted

theorem traverseAll_ran_all :
    ∃ waiting, w.drain.2.Ran tile (Seeding.all.pending w.graph) waiting
        (w.traverseAll tile interest) ∧
      ∃ Γ' : Ledger, Γ <+: Γ' ∧
        Γ'.Backs counts (w.traverseAll tile interest).workspace.compiled
          (w.traverseAll tile interest).workspace.store := by
  rw [traverseAll_eq]
  exact runPass_ran (w := w.drain.2) tile interest hΓ
    (fun id hc hp => hsteady id hc (mt Seeding.mem_work_all.2 hp)) hcounted
    (fun _ hid => Seeding.mem_work_all.1 hid) (fun _ hid => Seeding.all.covered hid) true

/-- A full pass covers every node, whatever was compiled before it. -/
theorem traverseAll_ran :
    ∃ pending waiting, (∀ id, id ∈ pending ↔ id ∈ w.graph.nodeIds) ∧
      w.drain.2.Ran tile pending waiting (w.traverseAll tile interest) ∧
        ∃ Γ' : Ledger, Γ <+: Γ' ∧
          Γ'.Backs counts (w.traverseAll tile interest).workspace.compiled
            (w.traverseAll tile interest).workspace.store := by
  obtain ⟨waiting, hran, hbacks⟩ := traverseAll_ran_all tile interest hΓ hsteady hcounted
  exact ⟨_, waiting, fun _ => Seeding.mem_work_all, hran, hbacks⟩

end Full

/-- A pass from seeds covers what is reached forward from them. -/
theorem recalculate_ran (tile : WorldTile) (interest : Interest) (hg : w.graph.WellFormed)
    (hΓ : Γ.Backs counts w.compiled w.store)
    (hcounted : ∀ id ∈ w.graph.nodeIds, counts id) (seeds : List NodeId) :
    ∃ waiting, w.Ran tile (w.graph.forward (seeds.filter w.graph.has)) waiting
        (w.recalculate tile interest seeds) ∧
      ∃ Γ' : Ledger, Γ <+: Γ' ∧
        Γ'.Backs counts (w.recalculate tile interest seeds).workspace.compiled
          (w.recalculate tile interest seeds).workspace.store := by
  rw [recalculate_eq]
  exact runPass_ran tile interest hΓ.holds (fun id hc _ => hΓ.steady id hc) hcounted
    (fun _ hid => (Seeding.nodes seeds).known hg hid)
    (fun _ hid => (Seeding.nodes seeds).covered hid) false

end Workspace
end Terrain
