import Terrain.Proofs.Workspace.Reported

/-! What a pass from seeds leaves alone. It writes to the nodes that are reached forward from its
seeds, and to no other. It does pull and reset suppliers of other nodes, but one ledger backs all
that is stored before the pass, and goes on to back it with the pass and without it, so that nobody
who pulls such a supplier can tell. -/
namespace Terrain

open Relation

namespace Workspace
variable {w w' : Workspace} {id : NodeId}

/-- A node is calculated in one workspace if it is so in the other, and holds the same: the
suppliers too are the same ones, and not only alike in what they yield. -/
structure UnchangedAt (w w' : Workspace) (id : NodeId) : Prop where
  calculated : w'.isCalculated id = w.isCalculated id
  values : ∀ port, w'.value? ⟨id, port⟩ = w.value? ⟨id, port⟩
  result : w'.result? id = w.result? id

theorem UnchangedAt.of_getElem? (hgraph : w'.graph = w.graph)
    (h : w'.compiled[id]? = w.compiled[id]?) : w.UnchangedAt w' id where
  calculated := by
    simp only [isCalculated, Compilation.isCalculated_eq, hgraph, h]
  values port := by simp only [value?, Compilation.value?, hgraph, h]
  result := by simp only [result?, Compilation.result?, hgraph, h]

/-- A pass from seeds writes to no node that is not reached forward from them. -/
theorem unchangedAt_recalculate (hg : w.graph.WellFormed) (tile : WorldTile) (interest : Interest)
    {seeds : List NodeId} (hid : ¬ (Seeding.nodes seeds).Reaches w.graph id) :
    w.UnchangedAt (w.recalculate tile interest seeds).workspace id := by
  have hbooked := settledPass_booked hg (fun _ => (Seeding.nodes seeds).known hg) tile interest
    false ((Seeding.nodes seeds).work w.graph)
  refine .of_getElem? rfl ?_
  rw [recalculate_eq, compiled_runPass]
  exact hbooked.outside id (mt (Seeding.mem_pending _).1 hid)

end Workspace

namespace Stock
variable {t : Stock} {Γ : Ledger}

/-- A pass from seeds is confined to what is reached forward from those of them that exist. -/
structure Confined (t : Stock) (seeds : List NodeId) (r : PassResult) : Prop where
  /-- The graph is as it was in all its parts, its revision and its journal among them. -/
  graph : r.workspace.graph = t.workspace.graph
  beyond : ∀ id, ¬ (Seeding.nodes seeds).Reaches t.workspace.graph id →
    t.workspace.UnchangedAt r.workspace id
  /-- Whatever is done from then on, with the pass and without it, a pull of a supplier that was
  stored before yields the same. -/
  later : ∀ x, t.Has x → ∀ t₁ t₂ : Stock, (t.passed r).Leads t₁ → t.Leads t₂ →
    (x.supplier.get t₁.workspace.store).1 = (x.supplier.get t₂.workspace.store).1

theorem Backed.confined (hb : t.Backed Γ) (tile : WorldTile) (interest : Interest)
    (seeds : List NodeId) : t.Confined seeds (t.workspace.recalculate tile interest seeds) where
  graph := rfl
  beyond id hid := Workspace.unchangedAt_recalculate hb.wellFormed tile interest hid
  later x hx t₁ t₂ h₁ h₂ := by
    have hpass : t.Leads (t.passed (t.workspace.recalculate tile interest seeds)) :=
      .single (.pass tile interest (.recalculate seeds))
    rw [hb.get_eq hx (hpass.trans h₁), hb.get_eq hx h₂]

/-- Whatever has led to a workspace, each pass from seeds over it, and each pass for the change of a
node, is confined to what is reached forward from there. -/
theorem Reached.passes_confined (h : t.Reached) (tile : WorldTile) (interest : Interest) :
    (∀ seeds, t.Confined seeds (t.workspace.recalculate tile interest seeds)) ∧
      ∀ node, t.Confined [node] (t.workspace.onChange tile interest node) := by
  obtain ⟨_, hb⟩ := h.backed
  exact ⟨hb.confined tile interest, fun node => hb.confined tile interest [node]⟩

/-- A draw, calculated before a grid is made to read it. -/
def readLater : Stock :=
  let alone := ((fresh none 0).edited (.addNode (.randomValue 0 1))).edited
    (.addNode .gridFromValue)
  (alone.passed (alone.workspace.serve {} .none .traverseAll)).edited
    (.connectNamed ⟨0⟩ "value" ⟨1⟩ "value")

/-- What the draw has compiled to. -/
def drawnFirst : Supplier .number :=
  .cached (.random 0 1 (Seed.combined (Seed.ofIndex 0) 0) 0) 1

theorem reached_readLater : readLater.Reached :=
  ⟨none, 0, (((ReflTransGen.single (.edit _)).tail (.edit _)).tail (.pass _ _ _)).tail (.edit _)⟩

/-- The pass over the grid reads the draw, which is as it was nevertheless, and a pull of it yields
what it would have yielded before. -/
theorem readLater_passes_confined : readLater.Reached ∧
    ¬ (Seeding.nodes [⟨1⟩, ⟨9⟩, ⟨1⟩]).Reaches readLater.workspace.graph ⟨0⟩ ∧
    readLater.workspace.value? ⟨⟨0⟩, ⟨0⟩⟩ = some (.value drawnFirst) ∧
    readLater.workspace.graph.changes ≠ [] ∧
    readLater.Confined [⟨1⟩, ⟨9⟩, ⟨1⟩]
      (readLater.workspace.recalculate {} .none [⟨1⟩, ⟨9⟩, ⟨1⟩]) ∧
    readLater.Confined [⟨1⟩] (readLater.workspace.onChange {} .none ⟨1⟩) ∧
    (drawnFirst.get (readLater.workspace.onChange {} .none ⟨1⟩).workspace.store).1 =
      (drawnFirst.get readLater.workspace.store).1 := by
  obtain ⟨hseeds, hnode⟩ := reached_readLater.passes_confined {} .none
  have hvalue : readLater.workspace.value? ⟨⟨0⟩, ⟨0⟩⟩ = some (.value drawnFirst) := by cbv
  have hhas : readLater.Has ⟨drawnFirst⟩ := by
    obtain ⟨_, k, hk, hmem⟩ := Compilation.mem_of_value? hvalue
    exact .inr ⟨_, k, hk, .inl hmem⟩
  refine ⟨reached_readLater, ?_, hvalue, by decide +kernel, hseeds _, hnode _,
    (hnode ⟨1⟩).later _ hhas _ _ .refl .refl⟩
  rw [← Seeding.mem_pending]
  decide +kernel

end Stock
end Terrain
