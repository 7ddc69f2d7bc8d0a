import Terrain.Proofs.Workspace.History

/-! What a caller can observe of a node: whether it is calculated, and what the values of its
outputs and its result show, where a supplier is reset and then pulled. -/
namespace Terrain

/-- What a port value shows: a supplier is reset and then pulled. -/
def Store.observe (st : Store) : PortValue → View
  | .value x => .number (x.read st).1
  | .token x => .token (x.read st).1
  | .valueGrid g => .valueGrid g
  | .tokenGrid g => .tokenGrid g

theorem Ledger.Holds.observe_eq {Γ : Ledger} {st : Store} (h : Γ.Holds st) {v : PortValue}
    (hv : v.Steady Γ) : st.observe v = v.view := by
  cases v with
  | value x => exact congrArg View.number (h.read_eq hv)
  | token x => exact congrArg View.token (h.read_eq hv)
  | valueGrid g => rfl
  | tokenGrid g => rfl

namespace Workspace

/-- A node looks the same in two workspaces. -/
structure AgreesAt (w w' : Workspace) (id : NodeId) : Prop where
  calculated : w.isCalculated id = w'.isCalculated id
  values : ∀ port, (w.value? ⟨id, port⟩).map w.store.observe =
    (w'.value? ⟨id, port⟩).map w'.store.observe
  result : (w.result? id).map w.store.observe = (w'.result? id).map w'.store.observe

variable {w w' : Workspace} {id : NodeId} {Γ Γ' : Ledger} {counts counts' : NodeId → Prop}

theorem isCalculated_eq (w : Workspace) (id : NodeId) :
    w.isCalculated id = (w.graph.has id && (w.compiled.shows id).isSome) := by
  simp [isCalculated, Compilation.isCalculated, Compilation.shows]

theorem observed_value? (h : Γ.Backs counts w.compiled w.store) (hid : counts id) (port : PortId) :
    (w.value? ⟨id, port⟩).map w.store.observe = w.graph.viewOf? w.compiled.shows ⟨id, port⟩ := by
  rw [Graph.viewOf?_shows, value?]
  cases hv : w.compiled.value? w.graph ⟨id, port⟩ with
  | none => rfl
  | some v =>
    obtain ⟨_, k, hk, hv⟩ := Compilation.mem_of_value? hv
    exact congrArg some (h.holds.observe_eq ((h.steady id hid k hk).outputs v hv))

theorem observed_result? (h : Γ.Backs counts w.compiled w.store) (hid : counts id) :
    (w.result? id).map w.store.observe =
      if w.graph.has id then (w.compiled.shows id).bind (·.result) else none := by
  unfold result? Compilation.result? Compilation.shows
  split
  · cases hk : w.compiled[id]? with
    | none => rfl
    | some k =>
      simp only [Option.bind_eq_bind, Option.bind_some, Option.map_some, Compiled.meaning]
      cases hv : k.result with
      | none => rfl
      | some v => exact congrArg some (h.holds.observe_eq ((h.steady id hid k hk).result v hv))
  · rfl

/-- A node looks the same where it shows the same. -/
theorem agreesAt_of_shows (hnode : w'.graph.node? id = w.graph.node? id)
    (h : Γ.Backs counts w.compiled w.store) (hid : counts id)
    (h' : Γ'.Backs counts' w'.compiled w'.store) (hid' : counts' id)
    (hshows : w.graph.has id = true → w'.compiled.shows id = w.compiled.shows id) :
    w.AgreesAt w' id := by
  have hhas : w'.graph.has id = w.graph.has id := by rw [Graph.has, Graph.has, hnode]
  refine ⟨?_, fun port => ?_, ?_⟩
  · rw [isCalculated_eq, isCalculated_eq, hhas]
    cases hh : w.graph.has id with
    | false => rfl
    | true => rw [hshows hh]
  · rw [observed_value? h hid, observed_value? h' hid']
    exact (Graph.viewOf?_congr (by rw [hnode]) hshows).symm
  · rw [observed_result? h hid, observed_result? h' hid', hhas]
    cases hh : w.graph.has id with
    | false => rfl
    | true => rw [hshows hh]

end Workspace
end Terrain
