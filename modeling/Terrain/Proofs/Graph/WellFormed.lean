import Terrain.Graph.Edit
import Terrain.Proofs.Graph.Ports

/-! Well-formed graphs: the ports of every node are those of its layout, and every connection
joins an output to an input of its type that no other connection ends at. -/
namespace Terrain

/-- The names of the fixed inputs of a kind, which its signature tells. -/
def Signature.inputNames (s : Signature) : List String :=
  match s.dynamic, s.inputs, s.outputs with
  | some _, [_], _ => ["axis"]
  | none, [.token _], [_] => ["token"]
  | none, [.value], [_] => ["value"]
  | none, [_], _ => ["input"]
  | none, [_, _], _ => ["input", "angle"]
  | none, [_, _, _], _ => ["a", "b", "t"]
  | _, _, _ => []

theorem Kind.inputNames_signature (k : Kind) :
    k.layout.inputs.map (·.name) = k.signature.inputNames := by
  cases k with
  | output c => cases c <;> rfl
  | _ => rfl

namespace Node
variable {n : Node}

/-- The ports of a node are those that its kind declares, with the list that can grow behind the
fixed inputs. Literals are left open, and so are the names of the list and the ids of its ports. -/
structure Fits (n : Node) : Prop where
  ordered : (n.inputs.map (·.dynamic)).Pairwise (· ≤ ·)
  names : n.fixed.map (·.name) = n.kind.layout.inputs.map (·.name)
  inputs : n.fixed.map (·.type) = n.kind.signature.inputs
  dynamic : ∀ p ∈ n.dynamic, n.kind.signature.dynamic = some p.type
  outputs : n.outputs.map (·.type) = n.kind.signature.outputs
  nodup : (n.fixed.map (·.id)).Nodup

theorem Fits.inputs_eq (h : n.Fits) : n.inputs = n.fixed ++ n.dynamic := by
  have hordered := h.ordered
  unfold Node.fixed Node.dynamic
  generalize n.inputs = ports at hordered
  induction ports with
  | nil => rfl
  | cons p ports ih =>
    rw [List.map_cons, List.pairwise_cons] at hordered
    obtain ⟨hp, hordered⟩ := hordered
    cases hflag : p.dynamic with
    | false =>
      rw [List.filter_cons_of_pos (by simp [hflag]), List.filter_cons_of_neg (by simp [hflag]),
        List.cons_append, ← ih hordered]
    | true =>
      have hall : ∀ q ∈ p :: ports, q.dynamic = true := by
        intro q hq
        rcases List.mem_cons.1 hq with rfl | hq
        · exact hflag
        · exact hp _ (List.mem_map_of_mem hq) hflag
      rw [List.filter_eq_nil_iff.2 fun q hq => by simp [hall q hq], List.filter_eq_self.2 hall]
      rfl

/-- An input that the layout fixes is found by its id, also where one of the list has the id too. -/
theorem Fits.input?_of_fixed (h : n.Fits) {p : Port} (hp : p ∈ n.fixed) :
    n.input? p.id = some p := by
  rw [input?, h.inputs_eq, List.find?_append, find?_port_of_nodup h.nodup hp, Option.some_or]

theorem exists_input? {port : Port} (hport : port ∈ n.inputs) :
    ∃ found, n.input? port.id = some found :=
  Option.isSome_iff_exists.1 (List.find?_isSome.2 ⟨port, hport, by simp⟩)

theorem pushDynamic_fits {d : DynamicDecl} (h : n.Fits) (hd : n.kind.layout.dynamic = some d) :
    (n.pushDynamic d).Fits where
  ordered := by
    simp only [pushDynamic, List.map_append, List.map_singleton]
    exact List.pairwise_append.2 ⟨h.ordered, List.pairwise_singleton _ _, fun _ _ q hq => by
      obtain rfl := List.mem_singleton.1 hq
      exact Bool.le_true _⟩
  names := by rw [fixed_pushDynamic]; exact h.names
  inputs := by rw [fixed_pushDynamic]; exact h.inputs
  dynamic p hp := by
    rw [dynamic_pushDynamic] at hp
    rcases List.mem_append.1 hp with hp | hp
    · exact h.dynamic p hp
    · obtain rfl := List.mem_singleton.1 hp
      simp [hd, DynamicDecl.port, Kind.signature]
  outputs := h.outputs
  nodup := by rw [fixed_pushDynamic]; exact h.nodup

theorem bare_fits (id : NodeId) (kind : Kind) (seed : Seed) : (bare id kind seed).Fits where
  ordered := by
    have hflags : (bare id kind seed).inputs.map (·.dynamic) =
        List.replicate (bare id kind seed).inputs.length false :=
      List.map_eq_replicate_iff.2 fun p hp => dynamic_of_mem_bare hp
    rw [hflags]
    exact List.pairwise_replicate.2 (.inr (Bool.le_refl _))
  names := by
    rw [fixed_bare]
    exact List.ext_getElem? fun i => by simp [bare, PortDecl.port, Function.comp_def]
  inputs := by
    rw [fixed_bare]
    exact List.ext_getElem? fun i => by
      simp [bare, PortDecl.port, Function.comp_def, Kind.signature]
  dynamic p hp := by
    rw [dynamic_bare] at hp
    cases hp
  outputs := List.ext_getElem? fun i => by
    simp [bare, PortDecl.port, Function.comp_def, Kind.signature]
  nodup := by
    rw [fixed_bare]
    simp only [bare, map_id_mapIdx]
    have hwords : 16 ≤ UInt32.size := by decide
    have hcount := kind.firstCount_le
    unfold Kind.firstCount at hcount
    exact PortId.nodup_ofIndex (by omega)

/-- A new node has the ports of its layout. -/
theorem create_fits (id : NodeId) (kind : Kind) (seed : Seed) : (create id kind seed).Fits :=
  create_induction (bare_fits id kind seed) fun _ _ hd hkind h =>
    pushDynamic_fits h (by rw [hkind, hd])

theorem dropDynamic_fits (d : DynamicDecl) (id : PortId) (h : n.Fits) :
    (n.dropDynamic d id).Fits where
  ordered := by
    rw [map_dropDynamic n d id (·.dynamic) fun _ _ => rfl]
    exact h.ordered.sublist (List.eraseP_sublist.map _)
  names := by rw [fixed_dropDynamic]; exact h.names
  inputs := by rw [fixed_dropDynamic]; exact h.inputs
  dynamic p hp := by
    rw [dynamic_dropDynamic] at hp
    obtain ⟨i, hi, rfl⟩ := List.mem_mapIdx.1 hp
    have hmem := h.dynamic _ (List.mem_of_mem_eraseP (List.getElem_mem hi))
    exact hmem
  outputs := h.outputs
  nodup := by rw [fixed_dropDynamic]; exact h.nodup

theorem setLiteral_fits (id : PortId) (literal : Literal) (h : n.Fits) :
    (n.setLiteral id literal).Fits where
  ordered := by
    rw [map_setLiteral n id literal (·.dynamic) fun _ _ => rfl]
    exact h.ordered
  names := (map_setLiteral_parts n id literal (·.name) fun _ _ => rfl).1.trans h.names
  inputs := (map_setLiteral_parts n id literal (·.type) fun _ _ => rfl).1.trans h.inputs
  dynamic p hp := by
    have hp := List.mem_map_of_mem (f := (·.type)) hp
    rw [(map_setLiteral_parts n id literal (·.type) fun _ _ => rfl).2] at hp
    obtain ⟨q, hq, htype⟩ := List.mem_map.1 hp
    exact htype ▸ h.dynamic q hq
  outputs := h.outputs
  nodup := by
    rw [(map_setLiteral_parts n id literal (·.id) fun _ _ => rfl).1]
    exact h.nodup

theorem fits_of_signature {kind : Kind} (h : n.Fits) (hk : kind.signature = n.kind.signature) :
    Fits { n with kind } where
  ordered := h.ordered
  names := by rw [Kind.inputNames_signature, hk, ← Kind.inputNames_signature]; exact h.names
  inputs := h.inputs.trans (congrArg _ hk.symm)
  dynamic p hp := by rw [hk]; exact h.dynamic p hp
  outputs := h.outputs.trans (congrArg _ hk.symm)
  nodup := h.nodup

/-- One node reworks another: it has its place in the graph, its outputs, a kind with the same port
types, and inputs of the same types at the ports that count. -/
structure Reworks (n n' : Node) (counts : PortId → Prop) : Prop where
  id : n'.id = n.id
  outputs : n'.outputs = n.outputs
  signature : n'.kind.signature = n.kind.signature
  fits : n.Fits → n'.Fits
  inputs : ∀ port, counts port → (n'.input? port).map (·.type) = (n.input? port).map (·.type)

theorem type_find? {ports ports' : List Port}
    (h : ports'.map (fun p => (p.id, p.type)) = ports.map fun p => (p.id, p.type)) (id : PortId) :
    (ports'.find? (·.id = id)).map (·.type) = (ports.find? (·.id = id)).map (·.type) := by
  have hpairs : ∀ l : List Port, (l.find? (·.id = id)).map (·.type) =
      ((l.map fun p => (p.id, p.type)).find? (·.1 = id)).map (·.2) := by
    intro l
    rw [List.find?_map, Option.map_map]
    rfl
  rw [hpairs, hpairs, h]

theorem reworks_pushDynamic {d : DynamicDecl} (hn : n.Fits) (hd : n.kind.layout.dynamic = some d)
    {counts : PortId → Prop} (h : ∀ port, counts port → (n.input? port).isSome) :
    n.Reworks (n.pushDynamic d) counts where
  id := rfl
  outputs := rfl
  signature := rfl
  fits _ := pushDynamic_fits hn hd
  inputs port hport := by
    have hnew : (n.pushDynamic d).input? port = (n.input? port).or
        ([d.port ⟨n.nextPort⟩ n.dynamic.length].find? (·.id = port)) := by
      simp [input?, pushDynamic, List.find?_append]
    obtain ⟨a, ha⟩ := Option.isSome_iff_exists.1 (h port hport)
    rw [hnew, ha]
    rfl

theorem reworks_dropDynamic (d : DynamicDecl) (id : PortId) :
    n.Reworks (n.dropDynamic d id) (· ≠ id) where
  id := rfl
  outputs := rfl
  signature := rfl
  fits h := dropDynamic_fits d id h
  inputs port hport := by
    have hdrop := map_dropDynamic n d id (fun p => (p.id, p.type)) fun _ _ => rfl
    unfold input?
    rw [type_find? hdrop, find?_eraseP]
    intro p hp hq
    simp only [Bool.and_eq_true, decide_eq_true_eq] at hp hq
    exact hport (hq.symm.trans hp.1)

theorem reworks_setLiteral (id : PortId) (literal : Literal) :
    n.Reworks (n.setLiteral id literal) fun _ => True where
  id := rfl
  outputs := rfl
  signature := rfl
  fits h := setLiteral_fits id literal h
  inputs port _ :=
    type_find? (map_setLiteral n id literal (fun p => (p.id, p.type)) fun _ _ => rfl) port

theorem reworks_kind {kind : Kind} (hk : kind.signature = n.kind.signature) :
    n.Reworks { n with kind } fun _ => True :=
  ⟨rfl, rfl, hk, fun h => fits_of_signature h hk, fun _ _ => rfl⟩

theorem reworks_seed (seed : Seed) : n.Reworks { n with seed } fun _ => True :=
  ⟨rfl, rfl, rfl, fun h => ⟨h.ordered, h.names, h.inputs, h.dynamic, h.outputs, h.nodup⟩,
    fun _ _ => rfl⟩

end Node
end Terrain
