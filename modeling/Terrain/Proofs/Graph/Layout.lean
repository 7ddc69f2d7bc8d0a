import Terrain.Proofs.Graph.Alter
import Terrain.Proofs.Graph.Reached

/-! The ports of a node are those of the layout of its kind, whatever was done to it: an edit to
another kind keeps the ports as they are, so it counts that kinds with equal port types agree on all
that a layout says of a port, its literal apart; and a list that loses a port from its middle is
named anew. -/
namespace Terrain

/-- What a layout says of a port, its literal apart. -/
structure Face where
  name : String
  type : PortType
  required : Bool := false

def Port.face (p : Port) : Face := ⟨p.name, p.type, p.required⟩

def PortDecl.face (d : PortDecl) : Face := ⟨d.name, d.type, d.required⟩

/-- What a list that can grow says of the port at a place. -/
def DynamicDecl.face (d : DynamicDecl) (place : Nat) : Face := ⟨d.nameAt place, d.type, false⟩

namespace Signature

/-- The fixed inputs of a kind, which its port types tell. -/
def inputFaces (s : Signature) : List Face :=
  match s.dynamic, s.inputs, s.outputs with
  | some _, [axis], _ => [⟨"axis", axis, false⟩]
  | none, [.token k], [_] => [⟨"token", .token k, false⟩]
  | none, [.value], [_] => [⟨"value", .value, false⟩]
  | none, [input], [_] => [⟨"input", input, true⟩]
  | none, [input], _ => [⟨"input", input, false⟩]
  | none, [input, angle], _ => [⟨"input", input, true⟩, ⟨"angle", angle, false⟩]
  | none, [a, b, t], _ => [⟨"a", a, false⟩, ⟨"b", b, false⟩, ⟨"t", t, false⟩]
  | _, _, _ => []

/-- The outputs of a kind, which its port types tell: all that have more than one have those of the
world tile. -/
def outputFaces (s : Signature) : List Face :=
  match s.dynamic, s.outputs with
  | some _, [result] => [⟨"result", result, false⟩]
  | none, [.value] => [⟨"value", .value, false⟩]
  | none, [.token k] => [⟨"token", .token k, false⟩]
  | none, [grid] => [⟨"grid", grid, false⟩]
  | none, _ :: _ => Kind.worldTile.layout.outputs.map PortDecl.face
  | _, _ => []

/-- The list of a kind that can grow, which its port types tell. -/
def list? (s : Signature) : Option DynamicDecl :=
  s.dynamic.map fun type =>
    match s.inputs with
    | [] => ⟨"input", type, 2⟩
    | _ => ⟨"option", type, 2⟩

end Signature

namespace Kind

theorem inputFaces_signature (k : Kind) :
    k.layout.inputs.map PortDecl.face = k.signature.inputFaces := by
  cases k with
  | output c => cases c <;> rfl
  | _ => rfl

theorem outputFaces_signature (k : Kind) :
    k.layout.outputs.map PortDecl.face = k.signature.outputFaces := by
  cases k with
  | operator p => obtain ⟨target, _, _⟩ := p; cases target <;> rfl
  | _ => rfl

theorem list?_signature (k : Kind) : k.layout.dynamic = k.signature.list? := by
  cases k <;> rfl

end Kind

namespace Node
variable {n n' : Node} {d : DynamicDecl}

/-- The ports of a node are those of the layout of its kind: the fixed inputs and the outputs in
order, and behind the fixed inputs a list that is at least as long as the least that the layout asks
for, named by place. -/
structure LaidOut (n : Node) : Prop where
  ordered : n.inputs = n.fixed ++ n.dynamic
  fixed : n.fixed.map Port.face = n.kind.layout.inputs.map PortDecl.face
  outputs : n.outputs.map Port.face = n.kind.layout.outputs.map PortDecl.face
  dynamic : match n.kind.layout.dynamic with
    | none => n.dynamic = []
    | some d => d.least ≤ n.dynamic.length ∧
        n.dynamic.map Port.face = (List.range n.dynamic.length).map d.face

theorem pushDynamic_named (d : DynamicDecl)
    (h : n.dynamic.map Port.face = (List.range n.dynamic.length).map d.face) :
    (n.pushDynamic d).dynamic.map Port.face =
      (List.range (n.pushDynamic d).dynamic.length).map d.face := by
  simp only [dynamic_pushDynamic, List.map_append, List.length_append, List.length_singleton,
    List.range_succ, h]
  rfl

/-- A row of pushes makes a list as long as the row, and changes nothing else that is laid out. -/
theorem repeat_pushDynamic_named (d : DynamicDecl) (k : Nat) (h : n.dynamic = []) :
    let m := Nat.repeat (·.pushDynamic d) k n
    m.fixed = n.fixed ∧ m.outputs = n.outputs ∧ m.kind = n.kind ∧ m.dynamic.length = k ∧
      m.dynamic.map Port.face = (List.range m.dynamic.length).map d.face := by
  induction k with
  | zero => simp [Nat.repeat, h]
  | succ k ih =>
    obtain ⟨hfixed, houtputs, hkind, hlength, hnamed⟩ := ih
    refine ⟨(fixed_pushDynamic _ d).trans hfixed, houtputs, hkind, ?_, pushDynamic_named d hnamed⟩
    simpa [Nat.repeat] using hlength

theorem create_laidOut (id : NodeId) (kind : Kind) (seed : Seed) :
    (create id kind seed).LaidOut := by
  have hports : ∀ (decls : List PortDecl) (mk : Nat → PortId),
      (decls.mapIdx fun i d => d.port (mk i)).map Port.face = decls.map PortDecl.face :=
    fun decls mk => List.ext_getElem (by simp) fun i _ _ => by
      simp [PortDecl.port, Port.face, PortDecl.face]
  have hfixed : (bare id kind seed).fixed.map Port.face = kind.layout.inputs.map PortDecl.face := by
    rw [fixed_bare]
    exact hports _ _
  have houtputs :
      (bare id kind seed).outputs.map Port.face = kind.layout.outputs.map PortDecl.face :=
    hports _ _
  have hordered := (create_fits id kind seed).inputs_eq
  rw [create_eq] at hordered ⊢
  cases hd : kind.layout.dynamic with
  | none =>
    refine ⟨(bare_fits id kind seed).inputs_eq, hfixed, houtputs, ?_⟩
    rw [show (bare id kind seed).kind = kind from rfl, hd]
    exact dynamic_bare id kind seed
  | some d =>
    obtain ⟨hf, ho, hk, hlength, hnamed⟩ :=
      repeat_pushDynamic_named d d.least (dynamic_bare id kind seed)
    have hkind : (bare id kind seed).kind = kind := rfl
    rw [hd] at hordered
    refine ⟨hordered, by rw [hf, hfixed, hk, hkind], by rw [ho, houtputs, hk, hkind], ?_⟩
    rw [hk, hkind, hd]
    exact ⟨hlength.ge, hnamed⟩

theorem pushDynamic_laidOut (h : n.LaidOut) (hfits : n.Fits)
    (hd : n.kind.layout.dynamic = some d) : (n.pushDynamic d).LaidOut := by
  have hdynamic := h.dynamic
  simp only [hd] at hdynamic
  obtain ⟨hleast, hnamed⟩ := hdynamic
  refine ⟨(pushDynamic_fits hfits hd).inputs_eq, by rw [fixed_pushDynamic]; exact h.fixed,
    h.outputs, ?_⟩
  rw [kind_pushDynamic, hd]
  refine ⟨?_, pushDynamic_named d hnamed⟩
  rw [dynamic_pushDynamic, List.length_append]
  omega

theorem dropDynamic_laidOut (id : PortId) (h : n.LaidOut) (hfits : n.Fits)
    (hd : n.kind.layout.dynamic = some d) (hspare : d.least < n.dynamic.length) :
    (n.dropDynamic d id).LaidOut := by
  have hdynamic := h.dynamic
  simp only [hd] at hdynamic
  obtain ⟨_, hnamed⟩ := hdynamic
  have hlength : (n.dropDynamic d id).dynamic.length = (n.dynamic.eraseP (·.id = id)).length := by
    rw [dynamic_dropDynamic, List.length_mapIdx]
  refine ⟨(dropDynamic_fits d id hfits).inputs_eq, by rw [fixed_dropDynamic]; exact h.fixed,
    h.outputs, ?_⟩
  rw [show (n.dropDynamic d id).kind = n.kind from rfl, hd]
  constructor
  · have := List.le_length_eraseP (p := fun p : Port => decide (p.id = id)) (l := n.dynamic)
    omega
  · -- A port that is left has the type of the list and is not required; its name is new.
    have hport : ∀ p ∈ n.dynamic, p.type = d.type ∧ p.required = false := by
      intro p hp
      have hface : p.face ∈ (List.range n.dynamic.length).map d.face :=
        hnamed ▸ List.mem_map_of_mem hp
      obtain ⟨place, _, hface⟩ := List.mem_map.1 hface
      exact ⟨(congrArg Face.type hface).symm, (congrArg Face.required hface).symm⟩
    refine List.ext_getElem (by simp) fun i hi _ => ?_
    rw [List.length_map, hlength] at hi
    obtain ⟨htype, hrequired⟩ := hport _ (List.mem_of_mem_eraseP (List.getElem_mem hi))
    simp only [dynamic_dropDynamic, List.getElem_map, List.getElem_mapIdx, List.getElem_range,
      DynamicDecl.face, Port.face, htype, hrequired]

theorem setLiteral_laidOut (id : PortId) (literal : Literal) (h : n.LaidOut) (hfits : n.Fits) :
    (n.setLiteral id literal).LaidOut := by
  obtain ⟨hfixed, hlist⟩ := map_setLiteral_parts n id literal Port.face fun _ _ => rfl
  have hlength : (n.setLiteral id literal).dynamic.length = n.dynamic.length := by
    simpa only [List.length_map] using congrArg List.length hlist
  refine ⟨(setLiteral_fits id literal hfits).inputs_eq, hfixed.trans h.fixed, h.outputs, ?_⟩
  have hdynamic := h.dynamic
  rw [show (n.setLiteral id literal).kind = n.kind from rfl]
  cases hd : n.kind.layout.dynamic with
  | none =>
    simp only [hd] at hdynamic
    rwa [hdynamic, List.length_nil, List.length_eq_zero_iff] at hlength
  | some d =>
    simp only [hd] at hdynamic
    rw [hlist, hlength]
    exact hdynamic

/-- Kinds with equal port types have ports that look alike, so a node may go from one to another. -/
theorem laidOut_of_signature {kind : Kind} (h : n.LaidOut)
    (hk : kind.signature = n.kind.signature) : LaidOut { n with kind } where
  ordered := h.ordered
  fixed := by
    rw [Kind.inputFaces_signature, hk, ← Kind.inputFaces_signature]
    exact h.fixed
  outputs := by
    rw [Kind.outputFaces_signature, hk, ← Kind.outputFaces_signature]
    exact h.outputs
  dynamic := by
    rw [Kind.list?_signature, hk, ← Kind.list?_signature]
    exact h.dynamic

theorem Turns.laidOut (h : n.Turns n') (hn : n.LaidOut) (hfits : n.Fits) : n'.LaidOut := by
  cases h with
  | drop d id decl port input listed spare => exact dropDynamic_laidOut id hn hfits decl spare
  | kind kind signature => exact laidOut_of_signature hn signature
  | literal id literal port input accepts => exact setLiteral_laidOut id literal hn hfits
  | seed seed => exact ⟨hn.ordered, hn.fixed, hn.outputs, hn.dynamic⟩

end Node

/-- In every graph that edits lead to, each node has the ports of the layout of its kind. -/
theorem Graph.Reached.laidOut {g : Graph} (h : g.Reached) : ∀ n ∈ g.nodes, n.LaidOut := by
  induction h with
  | fresh name seed => exact fun _ h => absurd h List.not_mem_nil
  | @edit g h e ih =>
    intro n hn
    cases (alters_after h.wellFormed e).origin h.wellFormed hn with
    | kept old => exact ih n old
    | new kind seed issued => exact Node.create_laidOut _ kind seed
    | grown m d old decl issued =>
      exact Node.pushDynamic_laidOut (ih m old) (h.wellFormed.fits m old) decl
    | @turned m _ old turns => exact turns.laidOut (ih m old) (h.wellFormed.fits m old)
  | drain _ ih => exact ih

end Terrain
