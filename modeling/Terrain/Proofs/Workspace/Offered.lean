import Terrain.Offer
import Terrain.Proofs.Map.Baked
import Terrain.Proofs.Workspace.Chosen
import Terrain.Proofs.Workspace.Reported

/-! What the output nodes of a graph offer to the host. Nodes are gone through in the order of their
ids, and the last of a channel that has a result wins; where a pass finds no value for an output
node, that drops out until a pass covers it again. -/
namespace Terrain

open Relation

namespace Workspace
variable {w : Workspace} {c : Channel} {n m : Node} {v : PortValue} {id : NodeId}

/-- What a node has for a channel. -/
def offered (w : Workspace) (c : Channel) (n : Node) : Option PortValue :=
  match n.kind with
  | .output channel => if channel = c then w.compiled.result? n.id else none
  | _ => none

theorem offered_eq_some :
    w.offered c n = some v ↔ n.kind = .output c ∧ w.compiled.result? n.id = some v := by
  unfold offered
  split
  · next channel hkind =>
    rw [hkind]
    by_cases h : channel = c
    · simp [h]
    · simp [h]
  · next hkind => exact iff_of_false nofun fun h => hkind c h.1

/-- An output node of a channel that is calculated and has a result. -/
structure Offers (w : Workspace) (n : Node) (c : Channel) (v : PortValue) : Prop where
  mem : n ∈ w.graph.nodes
  kind : n.kind = .output c
  calculated : w.isCalculated n.id = true
  result : w.result? n.id = some v

/-- Whatever has a result is calculated. -/
theorem offers_iff : w.Offers n c v ↔ n ∈ w.graph.nodes ∧ w.offered c n = some v := by
  rw [offered_eq_some]
  have hhas (hn : n ∈ w.graph.nodes) : w.graph.has n.id = true :=
    Graph.has_iff.2 (List.mem_map_of_mem hn)
  constructor
  · intro h
    have hresult := h.result
    rw [result?, if_pos (hhas h.mem)] at hresult
    exact ⟨h.mem, h.kind, hresult⟩
  · rintro ⟨hn, hkind, hresult⟩
    refine ⟨hn, hkind, ?_, ?_⟩
    · obtain ⟨k, hk, _⟩ := Option.bind_eq_some_iff.1 hresult
      rw [isCalculated, hhas hn, Compilation.isCalculated_eq, hk]
      rfl
    · rw [result?, if_pos (hhas hn), hresult]

end Workspace

namespace Offer
variable {w : Workspace} {s : Offer × List Notice} {c : Channel} {n : Node} {v : PortValue}
  {id : NodeId} {l : List Node}

theorem held_take : (take w s n).1.held c = (w.offered c n).or (s.1.held c) := by
  unfold take Workspace.offered
  cases n.kind with
  | output channel =>
    cases w.compiled.result? n.id with
    | none => simp
    | some v =>
      by_cases h : channel = c
      · simp [put, h]
      · simp [put, h, Ne.symm h]
  | _ => rfl

theorem mem_take : .channelShared c id ∈ (take w s n).2 ↔ .channelShared c id ∈ s.2 ∨
    n.id = id ∧ (w.offered c n).isSome ∧ (s.1.held c).isSome := by
  unfold take Workspace.offered
  cases n.kind with
  | output channel =>
    cases w.compiled.result? n.id with
    | none => simp
    | some v =>
      by_cases h : channel = c
      · subst h
        by_cases held : (s.1.held channel).isSome
        · simp [held, eq_comm]
        · simp [held]
      · by_cases held : (s.1.held channel).isSome
        · simp [h, held, Ne.symm h]
        · simp [h, held]
  | _ => simp

/-- The last node that has something for a channel is the one that the channel holds. -/
theorem held_foldl : (l.foldl (take w) s).1.held c =
    (l.reverse.findSome? (w.offered c)).or (s.1.held c) := by
  induction l generalizing s with
  | nil => rfl
  | cons n rest ih =>
    rw [List.foldl_cons, ih, held_take, List.reverse_cons, List.findSome?_append, Option.or_assoc,
      List.findSome?_singleton]

/-- Of a node there is a notice where it has something for a channel that is held by then. -/
theorem mem_foldl : .channelShared c id ∈ (l.foldl (take w) s).2 ↔ .channelShared c id ∈ s.2 ∨
    ∃ before n after, l = before ++ n :: after ∧ n.id = id ∧ (w.offered c n).isSome ∧
      ((before.foldl (take w) s).1.held c).isSome := by
  induction l generalizing s with
  | nil => simp
  | cons n rest ih =>
    rw [List.foldl_cons, ih, mem_take, or_assoc]
    refine or_congr_right ⟨?_, ?_⟩
    · rintro (⟨hid, hn, hheld⟩ | ⟨before, m, after, rfl, h⟩)
      · exact ⟨[], n, rest, rfl, hid, hn, hheld⟩
      · exact ⟨n :: before, m, after, rfl, h⟩
    · rintro ⟨before, m, after, hl, h⟩
      cases before with
      | nil =>
        cases hl
        exact .inl h
      | cons _ before =>
        cases hl
        exact .inr ⟨before, m, after, rfl, h⟩

theorem held_collect : (collect w).1.held c = w.graph.nodes.reverse.findSome? (w.offered c) :=
  held_foldl.trans (Option.or_none ..)

theorem held_eq_none : (collect w).1.held c = none ↔ ∀ n v, ¬ w.Offers n c v := by
  rw [held_collect, List.findSome?_eq_none_iff]
  simp only [List.mem_reverse, Option.eq_none_iff_forall_ne_some, Workspace.offers_iff, not_and]
  exact ⟨fun h n v hn => h n hn v, fun h n hn v => h n v hn⟩

/-- What a channel holds comes from a node that no later one takes it from. -/
theorem held_eq_some_iff_split : (collect w).1.held c = some v ↔ ∃ before n after,
    w.graph.nodes = before ++ n :: after ∧ w.offered c n = some v ∧
      ∀ m ∈ after, w.offered c m = none := by
  rw [held_collect, List.findSome?_eq_some_iff]
  constructor
  · rintro ⟨after, n, before, hl, hn, hafter⟩
    refine ⟨before.reverse, n, after.reverse, ?_, hn, fun m hm => hafter m (List.mem_reverse.1 hm)⟩
    simpa using List.reverse_eq_iff.1 hl
  · rintro ⟨before, n, after, hl, hn, hafter⟩
    exact ⟨after.reverse, n, before.reverse, by simp [hl], hn,
      fun m hm => hafter m (List.mem_reverse.1 hm)⟩

section Ascending
variable (hids : w.graph.nodeIds.Pairwise (·.index < ·.index))
include hids

theorem ascending_split {before after : List Node} (hl : w.graph.nodes = before ++ n :: after) :
    (∀ m ∈ before, m.id.index < n.id.index) ∧ ∀ m ∈ after, n.id.index < m.id.index := by
  rw [Graph.nodeIds, List.pairwise_map, hl, List.pairwise_append, List.pairwise_cons] at hids
  obtain ⟨_, ⟨hafter, _⟩, hbefore⟩ := hids
  exact ⟨fun m hm => hbefore m hm n List.mem_cons_self, hafter⟩

/-- A channel holds the result of the last output node of its own that has one. -/
theorem held_eq_some : (collect w).1.held c = some v ↔
    ∃ n, w.Offers n c v ∧ ∀ m u, w.Offers m c u → m.id.index ≤ n.id.index := by
  rw [held_eq_some_iff_split]
  constructor
  · rintro ⟨before, n, after, hl, hn, hafter⟩
    refine ⟨n, Workspace.offers_iff.2 ⟨by simp [hl], hn⟩, fun m u hm => ?_⟩
    obtain ⟨hm, hu⟩ := Workspace.offers_iff.1 hm
    rw [hl, List.mem_append, List.mem_cons] at hm
    rcases hm with hm | rfl | hm
    · exact ((ascending_split hids hl).1 m hm).le
    · exact le_rfl
    · cases hu.symm.trans (hafter m hm)
  · rintro ⟨n, hn, hlast⟩
    obtain ⟨hmem, hoffered⟩ := Workspace.offers_iff.1 hn
    obtain ⟨before, after, hl⟩ := List.append_of_mem hmem
    refine ⟨before, n, after, hl, hoffered, fun m hm => ?_⟩
    refine Option.eq_none_iff_forall_ne_some.2 fun u hu => ?_
    have hle := hlast m u (Workspace.offers_iff.2 ⟨by simp [hl, hm], hu⟩)
    exact Nat.not_le_of_lt ((ascending_split hids hl).2 m hm) hle

/-- There is a notice of each output node that displaces the result of one before it. -/
theorem displaces_iff : .channelShared c id ∈ (collect w).2 ↔
    ∃ n v m u, n.id = id ∧ w.Offers n c v ∧ w.Offers m c u ∧ m.id.index < n.id.index := by
  have hheld (before : List Node) : ((before.foldl (take w) (empty, [])).1.held c).isSome ↔
      ∃ m ∈ before, ∃ u, w.offered c m = some u := by
    rw [held_foldl, empty, Option.or_none, List.isSome_findSome?, List.any_reverse,
      List.any_eq_true]
    simp only [Option.isSome_iff_exists]
  rw [collect, mem_foldl]
  simp only [List.not_mem_nil, false_or, hheld, Option.isSome_iff_exists]
  constructor
  · rintro ⟨before, n, after, hl, hid, ⟨v, hn⟩, m, hm, u, hu⟩
    refine ⟨n, v, m, u, hid, Workspace.offers_iff.2 ⟨by simp [hl], hn⟩,
      Workspace.offers_iff.2 ⟨by simp [hl, hm], hu⟩, (ascending_split hids hl).1 m hm⟩
  · rintro ⟨n, v, m, u, hid, hn, hm, hlt⟩
    obtain ⟨hmem, hn⟩ := Workspace.offers_iff.1 hn
    obtain ⟨hmem', hm⟩ := Workspace.offers_iff.1 hm
    obtain ⟨before, after, hl⟩ := List.append_of_mem hmem
    refine ⟨before, n, after, hl, hid, ⟨v, hn⟩, m, ?_, u, hm⟩
    rw [hl, List.mem_append, List.mem_cons] at hmem'
    rcases hmem' with hm | rfl | hm
    · exact hm
    · exact absurd hlt (Nat.lt_irrefl _)
    · exact absurd hlt ((ascending_split hids hl).2 m hm).asymm

end Ascending

/-- What is collected for a channel. -/
structure Collected (w : Workspace) (c : Channel) : Prop where
  /-- The result of the last output node of the channel is held. -/
  held : ∀ v, (collect w).1.held c = some v ↔
    ∃ n, w.Offers n c v ∧ ∀ m u, w.Offers m c u → m.id.index ≤ n.id.index
  bare : (collect w).1.held c = none ↔ ∀ n v, ¬ w.Offers n c v
  /-- There is a notice of each output node that displaces the result of one before it. -/
  displaced : ∀ id, .channelShared c id ∈ (collect w).2 ↔
    ∃ n v m u, n.id = id ∧ w.Offers n c v ∧ w.Offers m c u ∧ m.id.index < n.id.index
  numbers : c.portType = .valueGrid → ∀ v, (collect w).1.held c = some v → ∃ g,
    v = .valueGrid g ∧ (collect w).1.valueGrid? c = some g ∧ (collect w).1.tokenGrid? c = none
  tokens : c.portType ≠ .valueGrid → ∀ v, (collect w).1.held c = some v → ∃ g,
    v = .tokenGrid g ∧ (collect w).1.tokenGrid? c = some g ∧ (collect w).1.valueGrid? c = none
  blank : (collect w).1.held c = none →
    (collect w).1.valueGrid? c = none ∧ (collect w).1.tokenGrid? c = none

theorem shape_of_held (ht : w.compiled.Typed w.graph) (h : (collect w).1.held c = some v) :
    v.shape = c.portType.shape := by
  rw [held_collect] at h
  obtain ⟨n, hn, hoffered⟩ := List.exists_of_findSome?_eq_some h
  obtain ⟨hkind, hresult⟩ := Workspace.offered_eq_some.1 hoffered
  obtain ⟨k, hk, hresult⟩ := Option.bind_eq_some_iff.1 hresult
  obtain ⟨c', hkind', hshape⟩ := (ht.suits n (List.mem_reverse.1 hn) k hk).result v hresult
  cases hkind.symm.trans hkind'
  exact hshape

theorem collected (hids : w.graph.nodeIds.Pairwise (·.index < ·.index))
    (ht : w.compiled.Typed w.graph) (c : Channel) : Collected w c where
  held _ := held_eq_some hids
  bare := held_eq_none
  displaced _ := displaces_iff hids
  numbers hc v hv := by
    have hshape := shape_of_held ht hv
    rw [hc] at hshape
    cases v with
    | valueGrid g => exact ⟨g, rfl, by rw [valueGrid?, hv]; rfl, by rw [tokenGrid?, hv]; rfl⟩
    | value _ | token _ | tokenGrid _ => cases hshape
  tokens hc v hv := by
    have hshape := shape_of_held ht hv
    have hgrid : c.portType.shape = .tokenGrid := by
      cases c with
      | elevation | fertility | waterFlow => exact absurd rfl hc
      | terrain | biome | roof => rfl
    rw [hgrid] at hshape
    cases v with
    | tokenGrid g => exact ⟨g, rfl, by rw [tokenGrid?, hv]; rfl, by rw [valueGrid?, hv]; rfl⟩
    | value _ | token _ | valueGrid _ => cases hshape
  blank hnone := by
    rw [valueGrid?, tokenGrid?, hnone]
    exact ⟨rfl, rfl⟩

section Bake
variable {o : Offer} {m : HostMap} {α : Type} {grid : Option (Grid α)}

/-- What baking a grid that a channel may hold comes to. -/
structure Bakes (m : HostMap) (grid : Option (Grid α))
    (answer : Except GraphError (Option (Sampled (Raster α)))) : Prop where
  none : answer = .ok none ↔ grid = none
  /-- There is a raster where the grid has a value in the middle of every cell. -/
  raster : (∃ r, answer = .ok (some (.ok r))) ↔ ∃ g, grid = some g ∧
    ∀ cell, m.has cell = true → ∃ x, g.valueAt (m.center cell) = .ok x
  samples : ∀ g r, grid = some g → answer = .ok (some (.ok r)) → ∀ cell, m.has cell = true →
    ∃ x, g.valueAt (m.center cell) = .ok x ∧ r.get? cell = some x

theorem bakeGrid_bakes (hm : m.validate = .ok ()) : Bakes m grid (bakeGrid m grid) := by
  have hbake : bakeGrid m grid = .ok (grid.map (Raster.bake m)) := by
    rw [bakeGrid, hm]
    rfl
  rw [hbake]
  refine ⟨?_, ?_, ?_⟩
  · simp
  · rw [← exists_congr fun g => and_congr_right fun _ => Raster.exists_bake]
    cases grid <;> simp
  · rintro g r rfl h cell hcell
    exact Raster.get?_of_bake (Option.some.inj (Except.ok.inj h)) hcell

end Bake

end Offer

/-- Why a pass leaves an output node without a result. -/
inductive PassResult.Withholds (r : PassResult) (n : Node) : Prop
  | stalled (h : n.id ∈ r.report.stalled)
  | failed (fault : CompileFault) (h : .compileFailure n.id fault ∈ r.report.failures)
  | disconnected (port : Port) (input : n.inputNamed? "input" = some port)
      (source : r.workspace.graph.sourceOf? ⟨n.id, port.id⟩ = none)
  /-- The input is connected to an output without a value. -/
  | absent (port : Port) (input : n.inputNamed? "input" = some port) (source : PortRef)
      (connected : r.workspace.graph.sourceOf? ⟨n.id, port.id⟩ = some source)
      (value : r.workspace.value? source = none)

theorem Compilation.result?_eq_none {table : Compilation} {id : NodeId} :
    table.result? id = none ↔ (table.shows id).bind (·.result) = none := by
  unfold result? shows
  cases table[id]? with
  | none => simp
  | some k => simp [Compiled.meaning]

namespace Workspace
variable {w v : Workspace} {tile : WorldTile} {pending waiting : List NodeId} {r : PassResult}
  {n : Node} {c : Channel}

/-- An output node that does not wait shows what its source shows. -/
theorem Ran.shows_output (h : v.Ran tile pending waiting r) (hg : v.graph.WellFormed)
    (hn : n ∈ v.graph.nodes) (hkind : n.kind = .output c) (hid : n.id ∈ pending)
    (hw : n.id ∉ waiting) : ∃ port, n.inputNamed? "input" = some port ∧
      r.workspace.compiled.shows n.id = some { result :=
        ((r.workspace.graph.sourceOf? ⟨n.id, port.id⟩).bind r.workspace.value?).map PortValue.view }
    := by
  have hname : "input" ∈ n.kind.layout.inputs.map (·.name) := by
    rw [hkind]
    exact .head _
  obtain ⟨port, _, hport⟩ := (hg.fits n hn).inputNamed? hname
  refine ⟨port, hport, ?_⟩
  rw [h.settled n.id hid hw n (Graph.node?_of_mem hg.nodup hn), Graph.due, Node.meaning, hkind]
  simp only [Node.arrivalAt, Node.portAt, hport]
  change some ({ result := (v.graph.arrival r.workspace.compiled.shows n port).offered } : Meaning)
    = _
  rw [Graph.arrival, h.graph]
  cases v.graph.sourceOf? ⟨n.id, port.id⟩ with
  | none => cases port.literal <;> rfl
  | some source =>
    simp only [Graph.viewOf?_shows, Option.bind_some, value?, h.graph]
    cases r.workspace.compiled.value? v.graph source <;> rfl

theorem Ran.result?_eq_none (h : v.Ran tile pending waiting r) (hg : v.graph.WellFormed)
    (hn : n ∈ v.graph.nodes) (hkind : n.kind = .output c) (hid : n.id ∈ pending) :
    r.workspace.compiled.result? n.id = none ↔ r.Withholds n := by
  rw [Compilation.result?_eq_none]
  by_cases hw : n.id ∈ waiting
  · obtain ⟨_, hshows, _⟩ := h.stuck n.id hw
    rw [hshows]
    exact iff_of_true rfl (.stalled ((h.stalled n.id).2 ⟨hid, hshows⟩))
  obtain ⟨port, hport, hshows⟩ := h.shows_output hg hn hkind hid hw
  rw [hshows, Option.bind_some, Option.map_eq_none_iff]
  constructor
  · intro hnone
    cases hs : r.workspace.graph.sourceOf? ⟨n.id, port.id⟩ with
    | none => exact .disconnected port hport hs
    | some source =>
      rw [hs, Option.bind_some] at hnone
      exact .absent port hport source hs hnone
  · intro hwith
    cases hwith with
    | stalled hstalled => cases hshows.symm.trans ((h.stalled n.id).1 hstalled).2
    | failed fault hfailed => cases hshows.symm.trans (h.failures n.id fault hfailed).2.2
    | disconnected port' hport' hs =>
      cases hport.symm.trans hport'
      rw [hs]
      rfl
    | absent port' hport' source hs hvalue =>
      cases hport.symm.trans hport'
      rw [hs]
      exact hvalue

end Workspace

namespace Stock
variable {t t' : Stock} {id : NodeId}

theorem Reached.graph (h : t.Reached) : t.workspace.graph.Reached := by
  obtain ⟨name, seed, h⟩ := h
  induction h with
  | refl => exact .fresh name seed
  | @tail t t' _ hnext ih =>
    cases hnext with
    | edit e => exact ih.edit e
    | pass tile interest request =>
      change (t.workspace.serve tile interest request).workspace.graph.Reached
      rcases (t.workspace.served tile interest request).graph with hgraph | hgraph
      · exact hgraph ▸ ih
      · exact hgraph ▸ ih.drain
    | drain | reload => exact ih.drain
    | touch _ => exact ih

/-- What can happen to a stock other than a pass that covers a node. -/
inductive Skips (id : NodeId) (t : Stock) : Stock → Prop
  | edit (e : Edit) : Skips id t (t.edited e)
  | pass (tile : WorldTile) (interest : Interest) (request : Request)
      (skipped : id ∉ t.workspace.covered request) :
      Skips id t (t.passed (t.workspace.serve tile interest request))
  | drain : Skips id t { t with workspace := t.workspace.drain.2 }
  | reload : Skips id t { t with workspace := t.workspace.reload }
  | touch {st : Store} (ht : t.workspace.store.Touch t.held st) :
      Skips id t { t with workspace := { t.workspace with store := st } }

theorem Skips.next (h : Skips id t t') : t.Next t' := by
  cases h with
  | edit e => exact .edit e
  | pass tile interest request _ => exact .pass tile interest request
  | drain => exact .drain
  | reload => exact .reload
  | touch ht => exact .touch ht

theorem Skips.result? (h : Skips id t t') (ht : t.Reached)
    (hresult : t.workspace.compiled.result? id = none) :
    t'.workspace.compiled.result? id = none := by
  cases h with
  | edit _ | drain | touch _ => exact hresult
  | reload => simp [Workspace.reload, Compilation.result?]
  | pass tile interest request skipped =>
    obtain ⟨Γ, hb⟩ := ht.backed
    obtain ⟨v, _, hv, hran⟩ :=
      t.workspace.serve_ran tile interest hb.wellFormed hb.toBackedBy request
    have hcompiled : v.compiled = t.workspace.compiled := by cases hv <;> rfl
    rw [Compilation.result?_eq_none] at hresult ⊢
    rw [← hresult, ← hcompiled, ← hran.outside id skipped]
    rfl

/-- A node without a result goes on to have none until a pass covers it. -/
theorem result?_of_skips (h : ReflTransGen (Skips id) t t') (ht : t.Reached)
    (hresult : t.workspace.compiled.result? id = none) :
    t'.Reached ∧ t'.workspace.compiled.result? id = none := by
  induction h with
  | refl => exact ⟨ht, hresult⟩
  | tail _ hskips ih => exact ⟨ih.1.next hskips.next, hskips.result? ih.1 ih.2⟩

/-- What becomes of an output node in the pass for a request. -/
structure Settles (t : Stock) (tile : WorldTile) (interest : Interest) (request : Request)
    (n : Node) : Prop where
  withheld : (t.workspace.serve tile interest request).workspace.result? n.id = none ↔
    (t.workspace.serve tile interest request).Withholds n
  /-- A node without a result offers nothing until a pass covers it again. -/
  bare : (t.workspace.serve tile interest request).Withholds n → ∀ t',
    ReflTransGen (Skips n.id) (t.passed (t.workspace.serve tile interest request)) t' →
      ∀ m c v, t'.workspace.Offers m c v → m.id ≠ n.id

theorem Reached.settles (h : t.Reached) (tile : WorldTile) (interest : Interest)
    {request : Request} {n : Node} {c : Channel} (hn : n ∈ t.workspace.graph.nodes)
    (hkind : n.kind = .output c) (hid : n.id ∈ t.workspace.covered request) :
    t.Settles tile interest request n := by
  obtain ⟨Γ, hb⟩ := h.backed
  obtain ⟨v, _, hv, hran⟩ :=
    t.workspace.serve_ran tile interest hb.wellFormed hb.toBackedBy request
  have hnodes : v.graph.nodes = t.workspace.graph.nodes := by cases hv <;> rfl
  have hwf : v.graph.WellFormed := by
    cases hv with
    | kept => exact hb.wellFormed
    | drained _ => exact hb.wellFormed.drain
  have hmem : n ∈ v.graph.nodes := hnodes ▸ hn
  have hhas : (t.workspace.serve tile interest request).workspace.graph.has n.id = true := by
    rw [hran.graph]
    exact Graph.has_iff.2 (List.mem_map_of_mem hmem)
  have hnone := hran.result?_eq_none hwf hmem hkind hid
  refine ⟨?_, fun hwith t' hskips m c' u hm heq => ?_⟩
  · rw [Workspace.result?, if_pos hhas, hnone]
  · obtain ⟨_, hnone'⟩ := result?_of_skips hskips (h.next (.pass tile interest request))
      (hnone.2 hwith)
    obtain ⟨_, hu⟩ := Workspace.offered_eq_some.1 (Workspace.offers_iff.1 hm).2
    rw [heq] at hu
    cases hu.symm.trans hnone'

/-- Whatever has led to a stock: a channel holds the result of the output node with the greatest id
among its own that are calculated and have a result. What it holds is a grid of the sort of the
channel and of no other, and can be baked wherever that has values. An output node that a pass
covers is left without a result just where it is stalled, failed, disconnected, or connected to
what has no value; it offers nothing then until a pass covers it again. -/
theorem Reached.outputs_collected (h : t.Reached) :
    (∀ c, Offer.Collected t.workspace c) ∧
    (∀ (c : Channel) (m : HostMap), m.validate = .ok () →
      Offer.Bakes m ((Offer.collect t.workspace).1.valueGrid? c)
        ((Offer.collect t.workspace).1.bakeValues c m) ∧
      Offer.Bakes m ((Offer.collect t.workspace).1.tokenGrid? c)
        ((Offer.collect t.workspace).1.bakeTokens c m)) ∧
    ∀ (tile : WorldTile) (interest : Interest) (request : Request),
      ∀ n ∈ t.workspace.graph.nodes, ∀ c, n.kind = .output c →
        n.id ∈ t.workspace.covered request → t.Settles tile interest request n :=
  ⟨Offer.collected h.graph.ascending h.typed,
    fun _ _ hm => ⟨Offer.bakeGrid_bakes hm, Offer.bakeGrid_bakes hm⟩,
    fun tile interest _ _ hn _ hkind hid => h.settles tile interest hn hkind hid⟩

/-- Two grids, each of which feeds an output node of one and the same channel. -/
def charted : Stock :=
  [.addNode .gridFromValue, .addNode .gridFromValue, .addNode (.output .elevation),
    .addNode (.output .elevation), .setLiteral ⟨⟨0⟩, ⟨0⟩⟩ (.number 1),
    .setLiteral ⟨⟨1⟩, ⟨0⟩⟩ (.number 2), .connectNamed ⟨0⟩ "grid" ⟨2⟩ "input",
    .connectNamed ⟨1⟩ "grid" ⟨3⟩ "input"].foldl edited (fresh none 0)

/-- The two grids, calculated, after which the later output node is cut off. -/
def severed : Stock :=
  (charted.passed (charted.workspace.serve {} .none .traverseAll)).edited (.disconnect ⟨⟨3⟩, ⟨0⟩⟩)

theorem reached_severed : severed.Reached :=
  ((Reached.edits ⟨none, 0, .refl⟩ _).next (.pass {} .none .traverseAll)).next (.edit _)

/-- The pass for the edit covers the output node that was cut off. -/
theorem severed_outputs_collected : severed.Reached ∧
    Offer.Collected severed.workspace .elevation ∧
    (HostMap.validate ⟨1, 1, 1⟩ = .ok () ∧
      Offer.Bakes ⟨1, 1, 1⟩ ((Offer.collect severed.workspace).1.valueGrid? .elevation)
        ((Offer.collect severed.workspace).1.bakeValues .elevation ⟨1, 1, 1⟩)) ∧
    ∃ n ∈ severed.workspace.graph.nodes, n.kind = .output .elevation ∧
      n.id ∈ severed.workspace.covered .applyChanges ∧
      severed.Settles {} .none .applyChanges n := by
  obtain ⟨collected, bakes, settles⟩ := reached_severed.outputs_collected
  have hvalid : HostMap.validate ⟨1, 1, 1⟩ = .ok () := by rfl
  have hlength : severed.workspace.graph.nodes.length = 4 := by cbv
  have hkind : severed.workspace.graph.nodes[3].kind = .output .elevation := by cbv
  have hid : severed.workspace.graph.nodes[3].id = ⟨3⟩ := by cbv
  have hcovered : severed.workspace.covered .applyChanges = [⟨1⟩, ⟨3⟩] := by cbv
  have hmem : severed.workspace.graph.nodes[3].id ∈ severed.workspace.covered .applyChanges := by
    rw [hcovered, hid]
    decide
  exact ⟨reached_severed, collected .elevation, ⟨hvalid, (bakes _ _ hvalid).1⟩, _,
    List.getElem_mem _, hkind, hmem,
    settles {} .none .applyChanges _ (List.getElem_mem _) _ hkind hmem⟩

/-- A field of noise, calculated for an output node. -/
def noisy (p : NoiseParams) : Stock :=
  let built := [.addNode (.gridNoise p), .addNode (.output .elevation),
    .connectNamed ⟨0⟩ "grid" ⟨1⟩ "input"].foldl edited (fresh none 0)
  built.passed (built.workspace.serve {} .none .traverseAll)

theorem reached_noisy (p : NoiseParams) : (noisy p).Reached :=
  (Reached.edits ⟨none, 0, .refl⟩ _).next (.pass {} .none .traverseAll)

theorem held_noisy (p : NoiseParams) : (Offer.collect (noisy p).workspace).1.held .elevation =
    some (.valueGrid (Scope.noiseGrid p (Seed.combined (Seed.ofIndex 0) 0))) := by
  cbv

/-- A field of noise without a frequency has no values. -/
theorem valueAt_noiseGrid (seed : Seed) (p : Point) :
    (Scope.noiseGrid { frequency := 0 / 0 } seed).valueAt p = .error .offLattice := by
  have absorbs (a : Float) : Noise.corner (a * (0 / 0)) = .error .offLattice := by
    have invalid : a * (0 / 0) = 0 / 0 := by
      change Float.ofModel (.pack (.mul .binary64 a.toModel.unpack .notANumber)) =
        .ofModel (.pack .notANumber)
      cases a.toModel.unpack <;> rfl
    rw [invalid]
    rfl
  change (do return (← ((Noise.Fractal.sum id _ (_ :: _) (p.x.toFloat * (0 / 0))
    (p.y.toFloat * (0 / 0)) _ 0).map _).map _) * _ + _ : Sampled Scalar) = _
  rw [Noise.Fractal.sum, Noise.gradient, absorbs]
  rfl

/-- An output node that is cut off goes on to displace another as long as no pass covers it, and a
channel that is held may have no values to bake. -/
theorem severed_displaces :
    (severed.Reached ∧ (∃ n ∈ severed.workspace.graph.nodes, n.kind = .output .elevation ∧
        n.inputs.map (fun port => severed.workspace.graph.sourceOf? ⟨n.id, port.id⟩) = [none] ∧
        .channelShared .elevation n.id ∈ (Offer.collect severed.workspace).2) ∧
      (Offer.collect severed.workspace).1.held .elevation = some (.valueGrid (.const 2))) ∧
    ∃ t : Stock, t.Reached ∧ ((Offer.collect t.workspace).1.held .elevation).isSome = true ∧
      HostMap.validate ⟨1, 1, 1⟩ = .ok () ∧
      ¬ ∃ r, (Offer.collect t.workspace).1.bakeValues .elevation ⟨1, 1, 1⟩ =
        .ok (some (.ok r)) := by
  have hlength : severed.workspace.graph.nodes.length = 4 := by cbv
  refine ⟨⟨reached_severed, ⟨severed.workspace.graph.nodes[3], List.getElem_mem _, by cbv, by cbv,
    ?_⟩, by cbv⟩, noisy { frequency := 0 / 0 }, reached_noisy _, ?_, rfl, ?_⟩
  · have hnotices : (Offer.collect severed.workspace).2 =
        [.channelShared .elevation ⟨3⟩] := by cbv
    have hid : severed.workspace.graph.nodes[3].id = ⟨3⟩ := by cbv
    rw [hnotices, hid]
    exact List.mem_singleton_self _
  · rw [held_noisy]
    rfl
  · intro hr
    obtain ⟨g, hg, hvalues⟩ := (Offer.bakeGrid_bakes rfl).raster.1 hr
    rw [Offer.valueGrid?, held_noisy] at hg
    cases hg
    obtain ⟨x, hx⟩ := hvalues ⟨0, 0⟩ rfl
    rw [valueAt_noiseGrid] at hx
    cases hx

end Stock
end Terrain
