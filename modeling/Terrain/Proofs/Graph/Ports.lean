import Mathlib.Data.List.Nodup
import Mathlib.Data.List.Perm.Subperm
import Terrain.Graph.Node

/-! The ports of a node, and what is done to them: those of a new node, one more, one fewer, and a
literal. Ports are numbered in the order in which a node is given them, by words, of which there are
only so many. -/
namespace Terrain

/-- What does not look for an element does not miss it. -/
theorem find?_eraseP {α : Type} {p q : α → Bool} (xs : List α) (h : ∀ a, p a → ¬ q a) :
    (xs.eraseP p).find? q = xs.find? q := by
  induction xs with
  | nil => rfl
  | cons x xs ih =>
    by_cases hp : p x
    · rw [List.eraseP_cons_of_pos hp, List.find?_cons_of_neg (h x hp)]
    · rw [List.eraseP_cons_of_neg hp, List.find?_cons, List.find?_cons, ih]

namespace DynamicDecl
variable (d : DynamicDecl)

/-- New names are all that becomes different about ports. -/
theorem map_rename {α : Type} (f : Port → α) (hf : ∀ p name, f { p with name := name } = f p)
    (place : Nat) (ports : List Port) : (d.rename place ports).map f = ports.map f := by
  induction ports generalizing place with
  | nil => rfl
  | cons p ports ih =>
    rw [rename]
    split
    · rw [List.map_cons, List.map_cons, hf, ih]
    · rw [List.map_cons, List.map_cons, ih]

/-- Only ports of the list are named anew. -/
theorem filter_rename_fixed (place : Nat) (ports : List Port) :
    (d.rename place ports).filter (!·.dynamic) = ports.filter (!·.dynamic) := by
  induction ports generalizing place with
  | nil => rfl
  | cons p ports ih => cases hp : p.dynamic <;> simp [rename, hp, ih]

/-- Each port of the list is named by its place. -/
theorem filter_rename_dynamic (place : Nat) (ports : List Port) :
    (d.rename place ports).filter (·.dynamic) =
      (ports.filter (·.dynamic)).mapIdx fun i p => { p with name := d.nameAt (place + i) } := by
  induction ports generalizing place with
  | nil => rfl
  | cons p ports ih =>
    cases hp : p.dynamic with
    | false => simp [rename, hp, ih]
    | true => simp [rename, hp, ih, Nat.add_comm, Nat.add_left_comm]

end DynamicDecl

namespace PortId

/-- The first words are all different. -/
theorem ofIndex_inj {i j : Nat} (hi : i < UInt32.size) (hj : j < UInt32.size) (h : ofIndex i = ofIndex j) :
    i = j := by
  have hword : UInt32.ofNat i = UInt32.ofNat j := congrArg word h
  have htoNat := congrArg UInt32.toNat hword
  rwa [UInt32.toNat_ofNat_of_lt' hi, UInt32.toNat_ofNat_of_lt' hj] at htoNat

theorem nodup_ofIndex {k : Nat} (hk : k ≤ UInt32.size) : ((List.range k).map ofIndex).Nodup :=
  List.nodup_range.map_on fun _ hi _ hj h =>
    ofIndex_inj (Nat.lt_of_lt_of_le (List.mem_range.1 hi) hk)
      (Nat.lt_of_lt_of_le (List.mem_range.1 hj) hk) h

theorem map_ofIndex_add (k l : Nat) : (List.range (k + l)).map ofIndex =
    (List.range k).map ofIndex ++ (List.range l).map fun i => ⟨.ofNat k + .ofNat i⟩ := by
  rw [List.range_add, List.map_append, List.map_map]
  exact congrArg _ (List.map_congr_left fun i _ => congrArg mk (UInt32.ofNat_add k i))

end PortId

/-- The number of ports of a new node. -/
def Kind.firstCount (k : Kind) : Nat :=
  k.layout.inputs.length + k.layout.outputs.length + (k.layout.dynamic.map (·.least)).getD 0

theorem Kind.firstCount_le (k : Kind) : k.firstCount ≤ 16 := by
  cases k <;> exact Nat.le_of_ble_eq_true rfl

namespace Node
variable {n : Node}

/-- The ids of the ports of a node. -/
def portIds (n : Node) : List PortId := (n.inputs ++ n.outputs).map (·.id)

theorem mem_inputs_of_fixed {p : Port} (hp : p ∈ n.fixed) : p ∈ n.inputs :=
  List.mem_of_mem_filter hp

theorem mem_inputs_of_dynamic {p : Port} (hp : p ∈ n.dynamic) : p ∈ n.inputs :=
  List.mem_of_mem_filter hp

theorem mem_fixed {p : Port} : p ∈ n.fixed ↔ p ∈ n.inputs ∧ p.dynamic = false := by
  simp [fixed]

theorem mem_dynamic {p : Port} : p ∈ n.dynamic ↔ p ∈ n.inputs ∧ p.dynamic = true := by
  simp [dynamic]

theorem mem_inputs {p : Port} : p ∈ n.inputs ↔ p ∈ n.fixed ∨ p ∈ n.dynamic := by
  rw [mem_fixed, mem_dynamic]
  cases p.dynamic <;> simp

theorem find?_port_of_nodup {ports : List Port} (h : (ports.map (·.id)).Nodup) {p : Port}
    (hp : p ∈ ports) : ports.find? (·.id = p.id) = some p := by
  induction ports with
  | nil => cases hp
  | cons q ports ih =>
    rw [List.map_cons, List.nodup_cons] at h
    rcases List.mem_cons.1 hp with rfl | hp
    · simp
    · have hne : q.id ≠ p.id := fun heq => h.1 (heq ▸ List.mem_map_of_mem hp)
      simpa [List.find?_cons, hne] using ih h.2 hp

section Push
variable (n : Node) (d : DynamicDecl)

@[simp] theorem fixed_pushDynamic : (n.pushDynamic d).fixed = n.fixed := by
  simp [fixed, pushDynamic, DynamicDecl.port]

@[simp] theorem dynamic_pushDynamic :
    (n.pushDynamic d).dynamic = n.dynamic ++ [d.port ⟨n.nextPort⟩ n.dynamic.length] := by
  simp [dynamic, pushDynamic, DynamicDecl.port]

/-- The next number goes to the port that is pushed. -/
theorem portIds_pushDynamic : (n.pushDynamic d).portIds.Perm (n.portIds ++ [⟨n.nextPort⟩]) := by
  simp only [portIds, pushDynamic, DynamicDecl.port, List.map_append, List.map_singleton,
    List.append_assoc]
  exact List.perm_append_comm.append_left _

@[simp] theorem kind_pushDynamic : (n.pushDynamic d).kind = n.kind := rfl

/-- A row of ports that are pushed is numbered on from the next port. -/
theorem repeat_pushDynamic (k : Nat) :
    (Nat.repeat (·.pushDynamic d) k n).nextPort = n.nextPort + .ofNat k ∧
      (Nat.repeat (·.pushDynamic d) k n).dynamic.map (·.id) =
        n.dynamic.map (·.id) ++ (List.range k).map (fun i => ⟨n.nextPort + .ofNat i⟩) ∧
      (Nat.repeat (·.pushDynamic d) k n).portIds.Perm
        (n.portIds ++ (List.range k).map fun i => ⟨n.nextPort + .ofNat i⟩) := by
  induction k with
  | zero => exact ⟨(UInt32.add_zero _).symm, (List.append_nil _).symm, .of_eq (List.append_nil _).symm⟩
  | succ k ih =>
    obtain ⟨hnext, hdynamic, hports⟩ := ih
    let m := Nat.repeat (fun m : Node => m.pushDynamic d) k n
    have hpushed : Nat.repeat (fun m : Node => m.pushDynamic d) (k + 1) n = m.pushDynamic d := rfl
    rw [hpushed, List.range_succ, List.map_append, List.map_singleton, ← List.append_assoc,
      ← List.append_assoc, ← hnext]
    refine ⟨?_, ?_, (portIds_pushDynamic m d).trans (hports.append_right _)⟩
    · change m.nextPort + 1 = _
      rw [hnext, UInt32.ofNat_add, UInt32.add_assoc]
      rfl
    · rw [dynamic_pushDynamic, List.map_append, hdynamic]
      rfl

end Push

/-- A row of pushed inputs is numbered on from the next port. -/
theorem foldl_pushInput (decls : List PortDecl) (n : Node) : decls.foldl pushInput n =
    { n with
      inputs := n.inputs ++ decls.mapIdx fun i d => d.port ⟨n.nextPort + .ofNat i⟩
      nextPort := n.nextPort + .ofNat decls.length } := by
  induction decls generalizing n with
  | nil => simp
  | cons d decls ih =>
    rw [List.foldl_cons, ih]
    simp [pushInput, UInt32.ofNat_add, UInt32.add_assoc, UInt32.add_comm 1]

theorem foldl_pushOutput (decls : List PortDecl) (n : Node) : decls.foldl pushOutput n =
    { n with
      outputs := n.outputs ++ decls.mapIdx fun i d => d.port ⟨n.nextPort + .ofNat i⟩
      nextPort := n.nextPort + .ofNat decls.length } := by
  induction decls generalizing n with
  | nil => simp
  | cons d decls ih =>
    rw [List.foldl_cons, ih]
    simp [pushOutput, UInt32.ofNat_add, UInt32.add_assoc, UInt32.add_comm 1]

/-- A new node before its list has grown. -/
def bare (id : NodeId) (kind : Kind) (seed : Seed) : Node :=
  { id, kind, seed
    inputs := kind.layout.inputs.mapIdx fun i d => d.port (.ofIndex i)
    outputs := kind.layout.outputs.mapIdx fun i d => d.port (.ofIndex (kind.layout.inputs.length + i))
    nextPort := .ofNat (kind.layout.inputs.length + kind.layout.outputs.length) }

theorem create_eq (id : NodeId) (kind : Kind) (seed : Seed) :
    create id kind seed =
      match kind.layout.dynamic with
      | none => bare id kind seed
      | some d => Nat.repeat (·.pushDynamic d) d.least (bare id kind seed) := by
  have hbare : kind.layout.outputs.foldl pushOutput
      (kind.layout.inputs.foldl pushInput { id, kind, seed }) = bare id kind seed := by
    rw [foldl_pushInput, foldl_pushOutput]
    simp [bare, PortId.ofIndex, UInt32.ofNat_add]
  rw [← hbare]
  rfl

/-- What holds of a new node with an empty list and is kept by every push holds of a new node. -/
theorem create_induction {motive : Node → Prop} {id : NodeId} {kind : Kind} {seed : Seed}
    (bare : motive (bare id kind seed))
    (push : ∀ n d, kind.layout.dynamic = some d → n.kind = kind → motive n →
      motive (n.pushDynamic d)) : motive (create id kind seed) := by
  rw [create_eq]
  cases hd : kind.layout.dynamic with
  | none => exact bare
  | some d =>
    have hpush : ∀ k, (Nat.repeat (·.pushDynamic d) k (Node.bare id kind seed)).kind = kind ∧
        motive (Nat.repeat (·.pushDynamic d) k (Node.bare id kind seed)) := by
      intro k
      induction k with
      | zero => exact ⟨rfl, bare⟩
      | succ k ih => exact ⟨ih.1, push _ d hd ih.1 ih.2⟩
    exact (hpush d.least).2

@[simp] theorem id_create (id : NodeId) (kind : Kind) (seed : Seed) :
    (create id kind seed).id = id :=
  create_induction (motive := (·.id = id)) rfl fun _ _ _ _ h => h

@[simp] theorem kind_create (id : NodeId) (kind : Kind) (seed : Seed) :
    (create id kind seed).kind = kind :=
  create_induction (motive := (·.kind = kind)) rfl fun _ _ _ _ h => h

theorem map_id_mapIdx (decls : List PortDecl) (mk : Nat → PortId) :
    (decls.mapIdx fun i d => d.port (mk i)).map (·.id) = (List.range decls.length).map mk :=
  List.ext_getElem (by simp) fun i _ _ => by simp [PortDecl.port]

theorem dynamic_of_mem_bare {id : NodeId} {kind : Kind} {seed : Seed} {p : Port}
    (hp : p ∈ (bare id kind seed).inputs) : p.dynamic = false := by
  obtain ⟨i, hi, rfl⟩ := List.mem_mapIdx.1 hp
  rfl

@[simp] theorem fixed_bare (id : NodeId) (kind : Kind) (seed : Seed) :
    (bare id kind seed).fixed = (bare id kind seed).inputs :=
  List.filter_eq_self.2 fun p hp => by simp [dynamic_of_mem_bare hp]

@[simp] theorem dynamic_bare (id : NodeId) (kind : Kind) (seed : Seed) :
    (bare id kind seed).dynamic = [] :=
  List.filter_eq_nil_iff.2 fun p hp => by simp [dynamic_of_mem_bare hp]

section Drop
variable (n : Node) (d : DynamicDecl) (id : PortId)

@[simp] theorem fixed_dropDynamic : (n.dropDynamic d id).fixed = n.fixed := by
  unfold fixed dropDynamic
  rw [d.filter_rename_fixed]
  induction n.inputs with
  | nil => rfl
  | cons p ports ih =>
    by_cases hp : p.id = id ∧ p.dynamic = true
    · rw [List.eraseP_cons_of_pos (by simp [hp]), List.filter_cons_of_neg (by simp [hp.2])]
    · rw [List.eraseP_cons_of_neg (by simpa using hp), List.filter_cons, List.filter_cons, ih]

theorem dynamic_dropDynamic : (n.dropDynamic d id).dynamic =
    (n.dynamic.eraseP (·.id = id)).mapIdx fun place p => { p with name := d.nameAt place } := by
  unfold dynamic dropDynamic
  rw [d.filter_rename_dynamic, List.eraseP_filter]
  simp only [Nat.zero_add]

/-- Taking a port out of the list changes nothing but names about the others. -/
theorem map_dropDynamic {α : Type} (f : Port → α) (hf : ∀ p name, f { p with name := name } = f p) :
    (n.dropDynamic d id).inputs.map f =
      (n.inputs.eraseP fun p => p.id = id && p.dynamic).map f :=
  d.map_rename f hf 0 _

/-- Taking a port out of the list leaves all others the ids they had, in their order. -/
theorem portIds_dropDynamic : (n.dropDynamic d id).portIds.Sublist n.portIds := by
  rw [portIds, portIds, List.map_append, List.map_append,
    map_dropDynamic n d id (·.id) fun _ _ => rfl]
  exact (List.eraseP_sublist.map _).append (List.Sublist.refl _)

end Drop

section Literal
variable (n : Node) (id : PortId) (literal : Literal)

/-- A literal that is set is all that becomes different about ports. -/
theorem map_setLiteral {α : Type} (f : Port → α) (hf : ∀ p l, f { p with literal := l } = f p) :
    (n.setLiteral id literal).inputs.map f = n.inputs.map f := by
  unfold setLiteral
  dsimp only
  refine List.ext_getElem (by simp) fun i _ _ => ?_
  simp only [List.getElem_map, List.getElem_modify]
  split
  · exact hf _ _
  · rfl

/-- The same of the fixed inputs and of the list. -/
theorem map_setLiteral_parts {α : Type} (f : Port → α)
    (hf : ∀ p l, f { p with literal := l } = f p) :
    (n.setLiteral id literal).fixed.map f = n.fixed.map f ∧
      (n.setLiteral id literal).dynamic.map f = n.dynamic.map f := by
  have hpairs := map_setLiteral n id literal (fun p => (p.dynamic, f p)) fun p l => by rw [hf]
  have hparts : ∀ (keep : Bool → Bool) (ports : List Port),
      (ports.filter fun p => keep p.dynamic).map f =
        ((ports.map fun p => (p.dynamic, f p)).filter fun x => keep x.1).map (·.2) := by
    intro keep ports
    rw [List.filter_map, List.map_map]
    rfl
  unfold fixed dynamic
  constructor
  · rw [hparts (!·), hpairs, ← hparts (!·)]
  · rw [hparts (·), hpairs, ← hparts (·)]

/-- Only the port that is found by the id is given the literal. -/
theorem mem_setLiteral {port p : Port} (hport : n.input? id = some port)
    (hp : p ∈ (n.setLiteral id literal).inputs) :
    p ∈ n.inputs ∨ p = { port with literal := some literal } := by
  rw [input?, List.find?_eq_some_iff_getElem] at hport
  obtain ⟨hid, i, hi, hport, hfirst⟩ := hport
  have hplace : n.inputs.findIdx (·.id = id) = i :=
    (List.findIdx_eq hi).2 ⟨hport ▸ hid, fun j hj => by simpa using hfirst j hj⟩
  obtain ⟨j, hj, rfl⟩ := List.mem_iff_getElem.1 hp
  simp only [setLiteral, hplace, List.getElem_modify]
  split
  · next heq =>
    subst heq
    exact .inr (by rw [hport])
  · exact .inl (List.getElem_mem _)

theorem portIds_setLiteral : (n.setLiteral id literal).portIds = n.portIds := by
  rw [portIds, portIds, List.map_append, List.map_append,
    map_setLiteral n id literal (·.id) fun _ _ => rfl]
  rfl

end Literal

/-- A node has been given a number of ports: the next is numbered on from there, and the ports that
it has are among those that it was given, one by one. -/
structure Numbered (n : Node) (k : Nat) : Prop where
  next : n.nextPort = .ofNat k
  held : n.portIds.Subperm ((List.range k).map PortId.ofIndex)

namespace Numbered
variable {k : Nat}

/-- As long as there were words enough, no port has the id of another. -/
theorem nodup (h : n.Numbered k) (hk : k ≤ UInt32.size) : n.portIds.Nodup := by
  obtain ⟨ids, hperm, hsub⟩ := h.held
  exact hperm.nodup_iff.1 ((PortId.nodup_ofIndex hk).sublist hsub)

theorem push (h : n.Numbered k) (d : DynamicDecl) : (n.pushDynamic d).Numbered (k + 1) where
  next := by
    change n.nextPort + 1 = _
    rw [h.next, UInt32.ofNat_add]
    rfl
  held := by
    have hnew : (⟨n.nextPort⟩ : PortId) = .ofIndex k := congrArg PortId.mk h.next
    rw [List.range_succ, List.map_append, List.map_singleton, ← hnew]
    exact (portIds_pushDynamic n d).subperm.trans (h.held.append (List.Subperm.refl _))

theorem of_sublist {n' : Node} (h : n.Numbered k) (next : n'.nextPort = n.nextPort)
    (ports : n'.portIds.Sublist n.portIds) : n'.Numbered k :=
  ⟨next.trans h.next, ports.subperm.trans h.held⟩

end Numbered

/-- A new node has just been given all the ports that it has. -/
theorem create_numbered (id : NodeId) (kind : Kind) (seed : Seed) :
    (create id kind seed).nextPort = .ofNat kind.firstCount ∧
      (create id kind seed).portIds.Perm ((List.range kind.firstCount).map PortId.ofIndex) := by
  have hbare : (bare id kind seed).portIds =
      (List.range (kind.layout.inputs.length + kind.layout.outputs.length)).map PortId.ofIndex := by
    simp only [portIds, bare, List.map_append, map_id_mapIdx, List.range_add, List.map_map]
    rfl
  rw [create_eq, Kind.firstCount]
  cases kind.layout.dynamic with
  | none => exact ⟨rfl, .of_eq hbare⟩
  | some d =>
    obtain ⟨hnext, -, hports⟩ := repeat_pushDynamic (bare id kind seed) d d.least
    rw [Option.map_some, Option.getD_some, PortId.map_ofIndex_add _ d.least, ← hbare]
    exact ⟨hnext.trans (UInt32.ofNat_add _ _).symm, hports⟩

end Node
end Terrain
