import Terrain.Proofs.Graph.InPlace
import Terrain.Proofs.Workspace.History

/-! Edits are transactions, and the revision of a graph tells its versions apart. An edit made in
place that fails has changed nothing, one that records nothing has changed nothing either, and so
two states of one history that have the same revision have the same document. -/
namespace Terrain

/-- All that a graph is but its journal. -/
def Graph.document (g : Graph) : Graph := { g with changes := [] }

theorem Graph.Strokes.document {g g' : Graph} {new : List Change} (h : Strokes g new g')
    (hnew : new = []) : g' = g := by
  cases h with
  | nil => rfl
  | cons => cases hnew

namespace Workspace

variable {w w' : Workspace}

/-- Makes an edit in place: its answer or its error, and the workspace that it leaves. -/
def place (w : Workspace) (e : Edit) : Except GraphError Reply × Workspace :=
  match e.inPlace.run w.graph with
  | .ok reply graph => (.ok reply, { w with graph })
  | .error err graph => (.error err, { w with graph })

/-- An edit in place leaves what the edit gives, and where it fails all that there was. -/
theorem place_eq (w : Workspace) (e : Edit) :
    w.place e = match w.edit e with
      | .ok (reply, w') => (.ok reply, w')
      | .error err => (.error err, w) := by
  have hmakes := InPlace.makes_perform w.graph e
  unfold InPlace.Makes at hmakes
  unfold place edit
  rw [hmakes]
  cases w.graph.perform e <;> rfl

theorem snd_place (w : Workspace) (e : Edit) : (w.place e).2 = w.edited e := by
  rw [place_eq, edit, edited, Graph.after]
  cases w.graph.perform e <;> rfl

/-- What can be done to a workspace: an edit in place, a drain of its journal, a pass, and whatever
pulls and resets do to the store of its suppliers. -/
inductive Act (w : Workspace) : Workspace → Prop
  | edit (e : Edit) : Act w (w.place e).2
  | drain : Act w w.drain.2
  | pass (tile : WorldTile) (interest : Interest) (request : Request) :
      Act w (w.serve tile interest request).workspace
  | touch (store : Store) : Act w { w with store }

/-- A workspace of the same history, at the same time or later. -/
abbrev Later : Workspace → Workspace → Prop := Relation.ReflTransGen Act

/-- The workspaces that there can be. -/
def Live (w : Workspace) : Prop := ∃ name seed, Later { graph := { id := name, seed } } w

/-- What was recorded between two graphs is counted by the revision, and where that is nothing, the
document is the same. -/
structure Counted (g g' : Graph) : Prop where
  wellFormed : g'.WellFormed
  revision : g.revision ≤ g'.revision
  document : g'.revision = g.revision → g'.document = g.document

theorem counted_of_strokes {g g' : Graph} {new : List Change} (hg : g.WellFormed)
    (h : Graph.Strokes g new g') : Counted g g' where
  wellFormed := (h.steps hg).wellFormed hg
  revision := by
    rw [h.records.2]
    omega
  document hrev := by
    rw [h.records.2] at hrev
    rw [h.document (List.length_eq_zero_iff.1 (by omega))]

theorem Act.counted (h : Act w w') (hg : w.graph.WellFormed) : Counted w.graph w'.graph := by
  have same : ∀ g', g' = w.graph ∨ g' = { w.graph with changes := [] } → Counted w.graph g' := by
    rintro g' (rfl | rfl)
    · exact ⟨hg, le_rfl, fun _ => rfl⟩
    · exact ⟨hg.drain, le_rfl, fun _ => rfl⟩
  cases h with
  | drain => exact same _ (.inr rfl)
  | pass tile interest request => exact same _ (w.served tile interest request).graph
  | touch store => exact same _ (.inl rfl)
  | edit e =>
    rw [place_eq, Workspace.edit]
    cases hp : w.graph.perform e with
    | error err => exact same _ (.inl rfl)
    | ok r =>
      obtain ⟨new, hs⟩ := Graph.strokes_perform hg hp
      exact counted_of_strokes hg hs

theorem Later.counted (h : Later w w') (hg : w.graph.WellFormed) : Counted w.graph w'.graph := by
  induction h with
  | refl => exact ⟨hg, le_rfl, fun _ => rfl⟩
  | @tail v v' _ hact ih =>
    have hstep := hact.counted ih.wellFormed
    have hmono := hstep.revision
    refine ⟨hstep.wellFormed, ih.revision.trans hmono, fun hrev => ?_⟩
    have hfirst : v.graph.revision = w.graph.revision := by
      have := ih.revision
      omega
    exact (hstep.document (hrev.trans hfirst.symm)).trans (ih.document hfirst)

theorem Live.wellFormed (h : w.Live) : w.graph.WellFormed := by
  obtain ⟨name, seed, h⟩ := h
  exact (h.counted (Graph.new_wellFormed name seed)).wellFormed

/-- In every workspace that there can be: an edit that fails, for whatever reason, leaves the whole
of it as it was; one that is made touches the graph alone, raises the revision by the number of
changes it records, and where it records none the document stays; and every later state with the
same revision has the same document. -/
theorem Live.edits_versioned (h : w.Live) :
    (∀ e err w', w.place e = (.error err, w') → w' = w) ∧
      (∀ e reply w', w.place e = (.ok reply, w') →
        w'.compiled = w.compiled ∧ w'.store = w.store ∧
          ∃ new, w'.graph.changes = w.graph.changes ++ new ∧
            w'.graph.revision = w.graph.revision + new.length ∧
              (new = [] → w'.graph.document = w.graph.document)) ∧
        ∀ w', w.Later w' → w'.graph.revision = w.graph.revision →
          w'.graph.document = w.graph.document := by
  refine ⟨fun e err w' hplace => ?_, fun e reply w' hplace => ?_, fun w' hlater =>
    (hlater.counted h.wellFormed).document⟩
  · rw [place_eq] at hplace
    cases hp : w.edit e with
    | error _ =>
      rw [hp] at hplace
      exact (Prod.mk.inj hplace).2.symm
    | ok r =>
      rw [hp] at hplace
      cases (Prod.mk.inj hplace).1
  · rw [place_eq, Workspace.edit] at hplace
    cases hp : w.graph.perform e with
    | error _ =>
      rw [hp] at hplace
      cases (Prod.mk.inj hplace).1
    | ok r =>
      rw [hp] at hplace
      obtain rfl := (Prod.mk.inj hplace).2
      obtain ⟨new, hs⟩ := Graph.strokes_perform h.wellFormed hp
      exact ⟨rfl, rfl, new, hs.records.1, hs.records.2, fun hnew => by rw [hs.document hnew]⟩

/-- A number that feeds a sum. -/
def fedSum : Workspace :=
  ((({ graph := {} } : Workspace).edited (.addNode (.constValue 1))).edited
    (.addNode (.operator { target := .value }))).edited (.connectNamed ⟨0⟩ "value" ⟨1⟩ "input0")

theorem live_fedSum : fedSum.Live := by
  have act : ∀ (w : Workspace) (e : Edit), Act w (w.edited e) := fun w e => snd_place w e ▸ .edit e
  exact ⟨none, 0, ((Relation.ReflTransGen.single (act _ _)).tail (act _ _)).tail (act _ _)⟩

/-- The sum has to keep its two inputs; its first one is connected already; and what is connected to
the second one is recorded. -/
theorem fedSum_edits_versioned :
    fedSum.place (.removePort ⟨⟨1⟩, ⟨1⟩⟩) = (.error (.arityViolation ⟨1⟩ 2), fedSum) ∧
      (fedSum.place (.connectNamed ⟨0⟩ "value" ⟨1⟩ "input0")).2.graph.document =
        fedSum.graph.document ∧
      ∃ new, (fedSum.place (.connectNamed ⟨0⟩ "value" ⟨1⟩ "input1")).2.graph.changes =
          fedSum.graph.changes ++ new ∧
        (fedSum.place (.connectNamed ⟨0⟩ "value" ⟨1⟩ "input1")).2.graph.revision =
          fedSum.graph.revision + new.length := by
  obtain ⟨hfailed, hmade, hlater⟩ := live_fedSum.edits_versioned
  refine ⟨?_, ?_, ?_⟩
  · have hplace : fedSum.place (.removePort ⟨⟨1⟩, ⟨1⟩⟩) =
        (.error (.arityViolation ⟨1⟩ 2), (fedSum.place (.removePort ⟨⟨1⟩, ⟨1⟩⟩)).2) :=
      Prod.ext (by rfl) rfl
    rw [hplace, hfailed _ _ _ hplace]
  · exact hlater _ (.single (.edit _)) (by decide +kernel)
  · obtain ⟨_, _, new, hchanges, hrevision, _⟩ :=
      hmade (.connectNamed ⟨0⟩ "value" ⟨1⟩ "input1") .done _ (Prod.ext (by rfl) rfl)
    exact ⟨new, hchanges, hrevision⟩

end Workspace
end Terrain
