import Terrain.Proofs.Compile.Shape
import Terrain.Proofs.Graph.Mirror
import Terrain.Proofs.Workspace.TwoScans

/-! Type soundness. In every history the values that nodes hold have the forms of the ports that
they are stored for, also while they are stale; so whatever arrives at an input has the form of the
input. -/
namespace Terrain

variable {g g' : Graph} {table table' : Compilation} {n : Node}

namespace Compilation

/-- What the nodes of a graph have compiled to suits them, and nothing is stored for a node that is
still to be added. -/
structure Typed (table : Compilation) (g : Graph) : Prop where
  suits : ∀ n ∈ g.nodes, ∀ r : Compiled, table[n.id]? = some r → r.Suits n.kind
  below : ∀ (id : NodeId) (r : Compiled), table[id]? = some r → id.index < g.nextNode

namespace Typed

theorem mono (h : table.Typed g)
    (hsub : ∀ (id : NodeId) (r : Compiled), table'[id]? = some r → table[id]? = some r) :
    table'.Typed g :=
  ⟨fun n hn r hr => h.suits n hn r (hsub _ r hr), fun id r hr => h.below id r (hsub id r hr)⟩

theorem erase (h : table.Typed g) (id : NodeId) : Typed (table.erase id) g := by
  refine h.mono fun id' r hr => ?_
  rw [Std.HashMap.getElem?_erase] at hr
  split at hr
  · cases hr
  · exact hr

theorem insert (h : table.Typed g) (hg : g.WellFormed) (hn : n ∈ g.nodes) {r : Compiled}
    (hr : r.Suits n.kind) : Typed (table.insert n.id r) g := by
  refine ⟨fun m hm r' hr' => ?_, fun id r' hr' => ?_⟩
  all_goals rw [Std.HashMap.getElem?_insert] at hr'
  · split at hr'
    · next heq =>
      have hmn := Graph.node?_of_mem hg.nodup hm
      rw [← LawfulBEq.eq_of_beq heq, Graph.node?_of_mem hg.nodup hn] at hmn
      cases hmn
      cases hr'
      exact hr
    · exact h.suits m hm r' hr'
  · split at hr'
    · next heq =>
      rw [← LawfulBEq.eq_of_beq heq]
      exact hg.below n.id (List.mem_map_of_mem hn)
    · exact h.below id r' hr'

/-- A step of an edit leaves what is stored as it was, and it goes on to suit the nodes. -/
theorem step (h : table.Typed g) (hs : g.Step g') : table.Typed g' := by
  cases hs with
  | detach id => exact ⟨fun n hn => h.suits n (List.mem_of_mem_filter hn), h.below⟩
  | push n hid fits =>
    refine ⟨fun m hm r hr => ?_, fun id r hr => Nat.lt_succ_of_lt (h.below id r hr)⟩
    rcases List.mem_append.1 hm with hm | hm
    · exact h.suits m hm r hr
    · obtain rfl := List.mem_singleton.1 hm
      have hlt := h.below _ r hr
      rw [hid] at hlt
      exact absurd hlt (Nat.lt_irrefl _)
  | unplug target =>
    refine ⟨fun n hn => h.suits n ?_, fun id r hr => ?_⟩
    · rwa [Graph.nodes_unplug] at hn
    · rw [Graph.nextNode_unplug]
      exact h.below id r hr
  | plug c m n output input joins free => exact ⟨h.suits, h.below⟩
  | rework id f change counts reworks connected affects =>
    refine ⟨fun m hm r hr => ?_, h.below⟩
    obtain ⟨n, hn, rfl⟩ := List.mem_map.1 hm
    by_cases hid : n.id = id
    · have hf := reworks n hn hid
      rw [if_pos hid, hf.id] at hr
      rw [if_pos hid]
      exact (h.suits n hn r hr).of_signature hf.signature
    · rw [if_neg hid] at hr ⊢
      exact h.suits n hn r hr
  | reseed seed => exact ⟨h.suits, h.below⟩

theorem steps (h : table.Typed g) (hs : Graph.Steps g g') : table.Typed g' := by
  induction hs with
  | refl => exact h
  | tail _ hs ih => exact ih.step hs

/-- A value of a port has the form of the port. -/
theorem value? (h : table.Typed g) (hg : g.WellFormed) {p : PortRef} {v : PortValue}
    (hv : table.value? g p = some v) : ∃ n port, g.node? p.node = some n ∧
      n.output? p.port = some port ∧ v.shape = port.type.shape := by
  unfold Compilation.value? at hv
  simp only [Option.bind_eq_bind, Option.bind_eq_some_iff] at hv
  obtain ⟨n, hn, place, hplace, r, hr, hv⟩ := hv
  obtain ⟨hlt, hid, hfirst⟩ := List.findIdx?_eq_some_iff_getElem.1 hplace
  have hmem := Graph.mem_of_node? hn
  refine ⟨n, n.outputs[place], hn, ?_, ?_⟩
  · refine List.find?_eq_some_iff_getElem.2 ⟨hid, place, hlt, rfl, fun j hj => ?_⟩
    simpa using hfirst j hj
  · rw [← Graph.id_of_node? hn] at hr
    have hshapes := congrArg (·[place]?) (h.suits n hmem r hr).outputs
    simp only [← (hg.fits n hmem).outputs, List.map_map, List.getElem?_map, hv,
      List.getElem?_eq_getElem hlt, Option.map_some, Option.some.injEq] at hshapes
    exact hshapes

/-- What arrives at the inputs of a node has the forms of the inputs. -/
theorem fed (h : table.Typed g) (hg : g.WellFormed) (hn : n ∈ g.nodes) (tile : WorldTile) :
    (Scope.mk g table tile n).Fed := by
  intro port input v hinput hv
  unfold Scope.feed at hv
  cases hs : g.sourceOf? ⟨n.id, port.id⟩ with
  | none =>
    simp only [hs] at hv
    cases hl : port.literal <;> simp only [hl, reduceCtorEq] at hv
  | some source =>
    simp only [hs] at hv
    cases hvalue : Compilation.value? table g source with
    | none => simp only [hvalue, reduceCtorEq] at hv
    | some w =>
      simp only [hvalue, Feed.connected.injEq] at hv
      subst hv
      obtain ⟨m, output, hm, houtput, hshape⟩ := h.value? hg hvalue
      obtain ⟨m', output', hj⟩ := hg.joins_of_sourceOf? (Graph.node?_of_mem hg.nodup hn) hinput hs
      obtain rfl := Option.some.inj (hm.symm.trans hj.sourceNode)
      obtain rfl := Option.some.inj (houtput.symm.trans hj.sourcePort)
      rw [hshape, hj.type]

end Typed
end Compilation

open Pass Relation

section Passes
variable {cx : PassSetting} {p q : Pass}

/-- An attempt at a node stores what suits the node, or nothing. -/
theorem Compilation.Typed.attempted (h : p.compiled.Typed cx.graph) (hg : cx.graph.WellFormed)
    (hn : cx.graph.node? n.id = some n) {out : Outcome × Pass} (ht : Attempted cx p n out) :
    out.2.compiled.Typed cx.graph := by
  have hmem := Graph.mem_of_node? hn
  cases ht with
  | blocked eligible => exact h
  | @calculated k e eligible compiles =>
    have hsuits : k.Suits n.kind := by
      refine Scope.compile_gives (s := p.scope cx n) (hg.fits n hmem) (h.fed hg hmem cx.tile)
        ⟨p.store, []⟩ k ?_
      rw [compiles]
    dsimp only
    rw [compiled_succeed]
    exact h.insert hg hmem hsuits
  | failed eligible fails first =>
    dsimp only
    rw [compiled_fail]
    exact h.erase n.id
  | retried eligible fails again => exact h

theorem Compilation.Typed.moves (h : p.compiled.Typed cx.graph) (hg : cx.graph.WellFormed)
    (ht : Tidy cx p) (hm : Moves cx p q) : q.compiled.Typed cx.graph ∧ Tidy cx q := by
  induction hm with
  | refl => exact ⟨h, ht⟩
  | tail _ hm ih =>
    obtain ⟨hq, htidy⟩ := ih
    refine ⟨?_, htidy.move hm⟩
    cases hm with
    | attempt id pending =>
      obtain ⟨n, rfl, hn⟩ := htidy.node pending
      exact hq.attempted hg hn (attempt_attempted _ hn)
    | plan work => exact hq

end Passes

namespace Workspace
variable {w : Workspace}

/-- At every point of a pass, what is stored suits the nodes. -/
theorem startedPass_typed (hg : w.graph.WellFormed) (h : w.compiled.Typed w.graph)
    (tile : WorldTile) (interest : Interest) (full : Bool) (s : Seeding) {p : Pass}
    (hp : Moves ⟨w.graph, tile, interest⟩
      (w.startedPass tile interest full (s.pending w.graph) (s.work w.graph)) p) :
    p.compiled.Typed w.graph := by
  have hstart : (w.startedPass tile interest full (s.pending w.graph)
      (s.work w.graph)).compiled.Typed w.graph := by
    rw [startedPass, compiled_emit]
    refine h.mono fun id r hr => ?_
    rw [getElem?_compiled_startPass] at hr
    split at hr
    · cases hr
    · exact hr
  have htidy := (startedPass_orderly hg (fun _ hid => s.known hg hid) tile interest full
    (s.work w.graph)).toTidy
  have hend := Compilation.Typed.moves hstart hg htidy hp
  exact hend.1

theorem runPass_typed (hg : w.graph.WellFormed) (h : w.compiled.Typed w.graph)
    (tile : WorldTile) (interest : Interest) (full : Bool) (s : Seeding) :
    (w.runPass tile interest full (s.pending w.graph)
      (s.work w.graph)).workspace.compiled.Typed w.graph := by
  rw [compiled_runPass]
  exact startedPass_typed hg h tile interest full s (moves_settle _ _)

theorem Served.typed {tile : WorldTile} {interest : Interest} {r : PassResult}
    (hr : Served w tile interest r) (hg : w.graph.WellFormed) (h : w.compiled.Typed w.graph) :
    r.workspace.compiled.Typed r.workspace.graph := by
  have hdrain : w.drain.2.compiled.Typed w.drain.2.graph := ⟨h.suits, h.below⟩
  cases hr with
  | idle log => exact hdrain
  | full =>
    rw [traverseAll_eq]
    exact runPass_typed hg.drain hdrain tile interest true .all
  | part seeds =>
    rw [recalculate_eq]
    exact runPass_typed hg h tile interest false (.nodes seeds)
  | log seed =>
    rw [recalculate_eq]
    exact runPass_typed hg.drain hdrain tile interest false (.nodes _)

end Workspace

namespace History
variable {allowed : WorldTile → Prop} {w : Workspace} {held : AnySupplier → Prop}

theorem typed (h : History allowed w held) : w.compiled.Typed w.graph := by
  induction h with
  | fresh name seed =>
    have hempty : ∀ (id : NodeId) (r : Compiled), ({} : Compilation)[id]? ≠ some r := by simp
    exact ⟨fun n _ r hr => absurd hr (hempty n.id r), fun id r hr => absurd hr (hempty id r)⟩
  | edit hw e ih => exact ih.steps (Graph.steps_after hw.wellFormed e)
  | touch _ _ ih => exact ih
  | @pass w held hw tile _ interest request ih =>
    exact (w.served tile interest request).typed hw.wellFormed ih

end History

namespace Workspace

end Workspace
end Terrain
