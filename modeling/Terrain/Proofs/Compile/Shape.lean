import Terrain.Proofs.Compile.Decided
import Terrain.Proofs.Compile.Reading

/-! The forms of what a node compiles to. Where the values that arrive at the inputs of a node have
the forms of the inputs, none of them is dropped on the way, and the node compiles to values of the
forms of its outputs. -/
namespace Terrain

namespace Compile
variable {α β : Type} {m : Compile α} {f : α → Compile β} {P : α → Prop} {Q : β → Prop}

/-- Whatever value a computation comes to satisfies a property. -/
def Gives (m : Compile α) (P : α → Prop) : Prop := ∀ e a, (m.outcome e).1 = .ok a → P a

theorem gives_pure {a : α} (h : P a) : Gives (pure a) P := by
  rintro _ _ ⟨⟩
  exact h

theorem gives_error {x : GraphError} (h : Certain m (.error x)) : Gives m P := by
  intro e a ha
  rw [h e] at ha
  cases ha

theorem Gives.bind (hm : Gives m P) (hf : ∀ a, P a → Gives (f a) Q) : Gives (m >>= f) Q := by
  intro e b hb
  cases hout : (m.outcome e).1 with
  | error x =>
    rw [fst_outcome_bind_error hout] at hb
    cases hb
  | ok a =>
    rw [fst_outcome_bind hout] at hb
    exact hf a (hm e a hout) _ b hb

theorem gives_bind (hf : ∀ a, Gives (f a) Q) : Gives (m >>= f) Q :=
  Gives.bind (P := fun _ => True) (fun _ _ _ => trivial) fun a _ => hf a

end Compile

theorem PortType.asGrid_of_isGrid {t : PortType} (h : t.isGrid = true) : t.asGrid = t := by
  cases t with
  | value | token _ => cases h
  | valueGrid | tokenGrid _ => rfl

theorem PortType.isGrid_asGrid (t : PortType) : t.asGrid.isGrid = true := by
  cases t <;> rfl

theorem SelectParams.resultType_of_isGrid {p : SelectParams} (h : p.resultType.isGrid = true) :
    p.resultType = p.options.asGrid := by
  rw [resultType] at h ⊢
  split at h
  · next haxis => rw [if_pos haxis]
  · next haxis => rw [if_neg haxis, PortType.asGrid_of_isGrid h]

theorem SelectParams.resultType_of_not_isGrid {p : SelectParams}
    (h : ¬ p.resultType.isGrid = true) : p.resultType = p.options := by
  rw [resultType] at h ⊢
  split at h
  · exact absurd (PortType.isGrid_asGrid _) h
  · next haxis => rw [if_neg haxis]

namespace PortValue
variable {t : PortType}

theorem shape_ofGrid (g : Grid t.signal.Carrier) :
    (ofGrid t.signal g).shape = t.asGrid.shape := by
  cases t <;> rfl

theorem shape_ofSupplier (ht : t.isGrid = false) (x : Supplier t.signal) :
    (ofSupplier x).shape = t.shape := by
  cases t with
  | value | token _ => rfl
  | valueGrid | tokenGrid _ => cases ht

end PortValue

namespace Reading
variable {v : PortValue} {t : PortType}

end Reading

namespace Node
variable {n : Node} {port : Port} {name : String} {reading : Reading} {v : PortValue}

theorem type_find?_name {ports : List Port} {decls : List PortDecl}
    (hnames : ports.map (·.name) = decls.map (·.name))
    (htypes : ports.map (·.type) = decls.map (·.type)) (name : String) :
    (ports.find? (·.name = name)).map (·.type) = (decls.find? (·.name = name)).map (·.type) := by
  induction ports generalizing decls with
  | nil =>
    obtain rfl := List.map_eq_nil_iff.1 hnames.symm
    rfl
  | cons p ports ih =>
    obtain ⟨d, decls, rfl, hname, hnames⟩ := List.map_eq_cons_iff.1 hnames.symm
    rw [List.map_cons, List.map_cons, List.cons.injEq] at htypes
    by_cases hp : p.name = name
    · simp [hp, hname, htypes.1]
    · simpa [hp, hname] using ih hnames.symm htypes.2

/-- An input that the layout of a node names is of the type that the layout gives it. -/
theorem Fits.type_named (h : n.Fits) {t : PortType}
    (hname : (n.kind.layout.inputs.find? (·.name = name)).map (·.type) = some t)
    (hport : n.inputNamed? name = some port) : port.type = t := by
  have htypes : n.fixed.map (·.type) = n.kind.layout.inputs.map (·.type) := h.inputs
  rw [← type_find?_name h.names htypes, Option.map_eq_some_iff] at hname
  obtain ⟨found, hfound, rfl⟩ := hname
  rw [Node.inputNamed?, h.inputs_eq, List.find?_append, hfound, Option.some_or] at hport
  rw [Option.some.inj hport]

theorem Fits.type_dynamic (h : n.Fits) {d : DynamicDecl} (hd : n.kind.layout.dynamic = some d)
    (hport : port ∈ n.dynamic) : port.type = d.type := by
  have htype := h.dynamic port hport
  rw [Kind.signature, hd] at htype
  exact (Option.some.inj htype).symm

end Node

/-- What a node has compiled to suits a kind: its values have the forms of the outputs of the kind,
and only an output node offers a value, which is of the type of its channel. -/
structure Compiled.Suits (r : Compiled) (k : Kind) : Prop where
  outputs : r.outputs.map PortValue.shape = k.signature.outputs.map PortType.shape
  result : ∀ v, r.result = some v → ∃ c, k = .output c ∧ v.shape = c.portType.shape

theorem Kind.output_of_signature {k : Kind} {t : PortType} (h : k.signature = ⟨[t], [], none⟩) :
    ∃ c, k = .output c ∧ c.portType = t := by
  cases k with
  | output c =>
    cases h
    exact ⟨c, rfl, rfl⟩
  | manifest _ | tileRequirements _ => cases h
  | _ => exact nomatch congrArg Signature.outputs h

/-- What suits a kind suits every other that has the same port types. -/
theorem Compiled.Suits.of_signature {r : Compiled} {k k' : Kind} (h : r.Suits k)
    (hk : k'.signature = k.signature) : r.Suits k' := by
  refine ⟨by rw [hk]; exact h.outputs, fun v hv => ?_⟩
  obtain ⟨c, rfl, hshape⟩ := h.result v hv
  obtain ⟨c', rfl, htype⟩ := Kind.output_of_signature (t := c.portType) (by rw [hk]; rfl)
  exact ⟨c', rfl, by rw [htype, hshape]⟩

namespace Scope

open Compile

variable {s : Scope}

/-- A value that arrives at an id has the form of the input that has the id. -/
def Fed (s : Scope) : Prop :=
  ∀ port input v, s.node.input? port.id = some input → s.feed port = .connected v →
    v.shape = input.type.shape

/-- One that arrives at an input that the layout fixes always does. -/
theorem Fed.shape_of_fixed (h : s.Fed) (hfits : s.node.Fits) {port : Port}
    (hport : port ∈ s.node.fixed) {v : PortValue} (hv : s.feed port = .connected v) :
    v.shape = port.type.shape :=
  h port port v (hfits.input?_of_fixed hport) hv

theorem single_gives {m : Compile PortValue} {k : Kind} {t : PortType}
    (hk : k.signature.outputs = [t]) (h : m.Gives (·.shape = t.shape)) :
    (single m).Gives (·.Suits k) :=
  h.bind fun v hv => gives_pure ⟨by rw [hk, List.map_singleton, hv, List.map_singleton], nofun⟩

theorem fold_gives (s : Scope) (p : OperatorParams) :
    (s.fold p).Gives (·.shape = p.target.portType.shape) := by
  unfold fold
  refine gives_bind fun slots => ?_
  cases p.target with
  | value => exact gives_bind fun _ => gives_bind fun _ => gives_pure rfl
  | valueGrid => exact gives_bind fun _ => gives_bind fun _ => gives_pure rfl

theorem select_gives (s : Scope) (p : SelectParams) :
    (s.select p).Gives (·.shape = p.resultType.shape) := by
  have hchoose : (s.choose p.options.signal p).Gives (·.shape = p.resultType.shape) := by
    unfold choose
    refine gives_bind fun axis => ?_
    dsimp only
    split
    · next hgrid =>
      refine gives_bind fun _ => gives_bind fun _ => gives_pure ?_
      rw [SelectParams.resultType_of_isGrid hgrid]
      exact PortValue.shape_ofGrid _
    · next hgrid =>
      refine gives_bind fun _ => gives_pure ?_
      have hresult := SelectParams.resultType_of_not_isGrid hgrid
      rw [hresult] at hgrid ⊢
      exact PortValue.shape_ofSupplier (Bool.eq_false_iff.2 hgrid) _
  unfold select
  cases p.axis with
  | value | valueGrid => exact hchoose
  | token _ | tokenGrid _ => exact gives_bind fun _ => gives_error fun _ => rfl

theorem mapped_gives (s : Scope) (f : ValueGrid → ValueGrid) :
    (s.mapped f).Gives (·.shape = .valueGrid) :=
  gives_bind fun _ => gives_pure rfl

/-- An output node offers a value of the form of its input. -/
theorem offered_gives (hfits : s.node.Fits) (hfed : s.Fed) {c : Channel}
    (hk : s.node.kind = .output c) :
    s.offered.Gives fun r => ∀ v, r = some v → v.shape = c.portType.shape := by
  have hinput : (s.input "input").Gives fun port => s.node.inputNamed? "input" = some port := by
    unfold input
    cases hport : s.node.inputNamed? "input" with
    | none => exact gives_error fun _ => rfl
    | some port => exact gives_pure rfl
  refine hinput.bind fun port hport => ?_
  have htype := hfits.type_named (t := c.portType) (by rw [hk]; rfl) hport
  have hfixed : port ∈ s.node.fixed := by
    have hname : "input" ∈ s.node.kind.layout.inputs.map (·.name) := by
      rw [hk]
      exact .head _
    obtain ⟨found, hfixed, hfound⟩ := hfits.inputNamed? hname
    exact Option.some.inj (hfound.symm.trans hport) ▸ hfixed
  cases hf : s.feed port with
  | connected v =>
    refine gives_pure fun w hw => ?_
    cases hw
    rw [← htype]
    exact hfed.shape_of_fixed hfits hfixed hf
  | absent => exact gives_bind fun _ => gives_pure nofun
  | literal l => exact gives_pure nofun
  | missing => exact gives_pure nofun

/-- What a node compiles to suits the node, where what arrives at its inputs suits those. -/
theorem compile_gives (hfits : s.node.Fits) (hfed : s.Fed) :
    s.compile.Gives (·.Suits s.node.kind) := by
  unfold compile
  cases hk : s.node.kind with
  | manifest _ | tileRequirements _ => exact gives_pure ⟨rfl, nofun⟩
  | worldTile =>
    refine gives_pure ⟨?_, nofun⟩
    simp only [tileOutputs, Kind.signature, Kind.layout, List.map_map]
    exact List.map_congr_left fun f _ => by cases f <;> rfl
  | constValue _ | constToken _ _ | gridNoise _ | gridSpanDistance _ =>
    exact single_gives rfl (gives_pure rfl)
  | randomValue _ _ | gridRotate _ =>
    exact single_gives rfl (gives_bind fun _ => gives_bind fun _ => gives_pure rfl)
  | tokenToValue _ | gridFromValue => exact single_gives rfl (gives_bind fun _ => gives_pure rfl)
  | gridTransform _ _ | gridLinear _ | gridInvert => exact single_gives rfl (mapped_gives s _)
  | gridLerp =>
    exact single_gives rfl
      (gives_bind fun _ => gives_bind fun _ => gives_bind fun _ => gives_pure rfl)
  | operator p => exact single_gives rfl (fold_gives s p)
  | select p => exact single_gives rfl (select_gives s p)
  | output c =>
    refine (offered_gives hfits hfed hk).bind fun r hr => gives_pure ⟨rfl, fun v hv => ?_⟩
    exact ⟨c, rfl, hr v hv⟩

end Scope
end Terrain
