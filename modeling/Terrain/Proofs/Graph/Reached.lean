import Terrain.Proofs.Graph.Edit

/-! The graphs that edits lead to. Whatever the edits, and whether they were made or refused, the
connections of such a graph are sound. -/
namespace Terrain
namespace Graph

/-- The graphs that edits lead to from a fresh one. Edits may be refused, and the journal may be
drained in between. -/
inductive Reached : Graph → Prop
  | fresh (name : Option String) (seed : Seed) : Reached { id := name, seed }
  | edit {g : Graph} (h : Reached g) (e : Edit) : Reached (g.after e)
  | drain {g : Graph} (h : Reached g) : Reached g.drain.2

variable {g : Graph}

theorem Reached.edits (h : g.Reached) (edits : List Edit) : (edits.foldl after g).Reached := by
  induction edits generalizing g with
  | nil => exact h
  | cons e rest ih => exact ih (h.edit e)

theorem Reached.wellFormed (h : g.Reached) : g.WellFormed := by
  induction h with
  | fresh name seed => exact new_wellFormed name seed
  | edit _ e ih => exact after_wellFormed ih e
  | drain _ ih => exact ih.drain

/-- In every graph that edits lead to, each connection runs from an output that exists to an input
that exists, on different nodes and of one type, and no two connections end at one input. -/
theorem Reached.connections_sound (h : g.Reached) :
    (∀ c ∈ g.connections, ∃ m n output input, g.Joins c m n output input) ∧
      (g.connections.map (·.target)).Nodup :=
  ⟨h.wellFormed.joins, h.wellFormed.fed⟩

/-- A sum whose first input is fed anew, and which loses an input that was fed; the last two edits
are refused. -/
def rewired : Graph :=
  [.addNode (.constValue 1), .addNode (.randomValue 0 1), .addNode (.operator { target := .value }),
    .connectNamed ⟨0⟩ "value" ⟨2⟩ "input0", .connectNamed ⟨1⟩ "value" ⟨2⟩ "input0",
    .addPort ⟨2⟩ .value, .connectNamed ⟨0⟩ "value" ⟨2⟩ "input2", .removePort ⟨⟨2⟩, ⟨3⟩⟩,
    .connectNamed ⟨2⟩ "result" ⟨2⟩ "input1", .editNode ⟨1⟩ .gridInvert].foldl after {}

theorem rewired_connections_sound : rewired.connections = [⟨⟨⟨1⟩, ⟨0⟩⟩, ⟨⟨2⟩, ⟨1⟩⟩⟩] ∧
    (∀ c ∈ rewired.connections, ∃ m n output input, rewired.Joins c m n output input) ∧
      (rewired.connections.map (·.target)).Nodup :=
  ⟨by decide +kernel, ((Reached.fresh none 0).edits _).connections_sound⟩

end Graph
end Terrain
