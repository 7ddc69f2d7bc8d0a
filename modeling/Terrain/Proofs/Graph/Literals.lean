import Terrain.Proofs.Compile.Means
import Terrain.Proofs.Graph.Layout

/-! The literals that inputs hold while they are not connected. An input only ever holds one that
its type accepts, so that nothing is lost in reading it, with a single exception: the axis of a
select node begins with a number also where it was declared to carry tokens. Such a node does not
compile, so that number is never read. -/
namespace Terrain

/-- The literal of a value. -/
def Literal.of : (s : Signal) → s.Carrier → Literal
  | .number, v => .number v
  | .token, t => .token t

namespace PortType
variable {t : PortType} {l : Literal}

/-- What a type accepts is the literal of a value of its sort, the one that it is read as. -/
theorem accepts_iff : t.accepts l = true ↔ l = .of t.signal (l.read t.signal) := by
  cases t <;> cases l <;> simp [accepts, Literal.signal, signal, Literal.of, Literal.read,
    Literal.asNumber, Literal.asToken]

theorem accepts_defaultLiteral (t : PortType) : t.accepts t.defaultLiteral = true := by
  cases t <;> rfl

end PortType

/-- Whether the axis of a select node was declared to carry tokens. -/
def Kind.hasTokenAxis : Kind → Bool
  | select q => q.axis.signal = .token
  | _ => false

/-- The port types of a kind tell whether it is a select node with an axis of tokens: only a select
node has both a fixed input and a list that can grow. -/
def Signature.hasTokenAxis (s : Signature) : Bool :=
  match s.dynamic, s.inputs with
  | some _, [axis] => axis.signal = .token
  | _, _ => false

namespace Kind
variable {k : Kind}

theorem hasTokenAxis_signature (k : Kind) : k.hasTokenAxis = k.signature.hasTokenAxis := by
  cases k <;> rfl

theorem select_of_hasTokenAxis (h : k.hasTokenAxis = true) :
    ∃ q : SelectParams, k = .select q ∧ q.axis.signal = .token := by
  cases k <;> simp_all [hasTokenAxis]

/-- The literals of a layout are those of their ports' types, but for an axis of tokens. -/
theorem accepts_of_layout (h : k.hasTokenAxis = false) :
    k.layout.inputs.all (fun d => d.literal.all d.type.accepts) = true := by
  cases k with
  | select q =>
    obtain ⟨axis, _, _⟩ := q
    cases axis with
    | value | valueGrid => rfl
    | token | tokenGrid => nomatch h
  | _ => rfl

theorem literal_of_layout {d : PortDecl} (hd : d ∈ k.layout.inputs) {l : Literal}
    (hl : d.literal = some l) :
    d.type.accepts l = true ∨ k.hasTokenAxis = true ∧ l = .number 0 := by
  cases h : k.hasTokenAxis with
  | false =>
    have hd := List.all_eq_true.1 (accepts_of_layout h) d hd
    rw [hl] at hd
    exact .inl hd
  | true =>
    obtain ⟨q, rfl, -⟩ := select_of_hasTokenAxis h
    obtain rfl := List.mem_singleton.1 hd
    exact .inr ⟨rfl, (Option.some.inj hl).symm⟩

end Kind

namespace Node
variable {n n' : Node} {d : DynamicDecl}

/-- No input of a node holds a literal that its type does not accept, but for an axis of tokens,
which may hold the number that it began with. -/
structure Furnished (n : Node) : Prop where
  fixed : ∀ p ∈ n.fixed, ∀ l, p.literal = some l →
    p.type.accepts l = true ∨ n.kind.hasTokenAxis = true ∧ l = .number 0
  dynamic : ∀ p ∈ n.dynamic, ∀ l, p.literal = some l → p.type.accepts l = true

theorem bare_furnished (id : NodeId) (kind : Kind) (seed : Seed) :
    (bare id kind seed).Furnished where
  fixed p hp l hl := by
    obtain ⟨i, hi, rfl⟩ := List.mem_mapIdx.1 (mem_inputs_of_fixed hp)
    exact Kind.literal_of_layout (List.getElem_mem hi) hl
  dynamic p hp := by
    rw [dynamic_bare] at hp
    cases hp

theorem pushDynamic_furnished (d : DynamicDecl) (h : n.Furnished) :
    (n.pushDynamic d).Furnished where
  fixed := by rw [fixed_pushDynamic]; exact h.fixed
  dynamic p hp l hl := by
    rw [dynamic_pushDynamic] at hp
    rcases List.mem_append.1 hp with hp | hp
    · exact h.dynamic p hp l hl
    · obtain rfl := List.mem_singleton.1 hp
      obtain rfl := Option.some.inj hl
      exact PortType.accepts_defaultLiteral d.type

theorem create_furnished (id : NodeId) (kind : Kind) (seed : Seed) :
    (create id kind seed).Furnished :=
  create_induction (bare_furnished id kind seed) fun _ d _ _ h => pushDynamic_furnished d h

/-- A port that is left keeps its type and its literal; only its name may be new. -/
theorem dropDynamic_furnished (d : DynamicDecl) (id : PortId) (h : n.Furnished) :
    (n.dropDynamic d id).Furnished where
  fixed := by rw [fixed_dropDynamic]; exact h.fixed
  dynamic p hp l hl := by
    rw [dynamic_dropDynamic] at hp
    obtain ⟨i, hi, rfl⟩ := List.mem_mapIdx.1 hp
    exact h.dynamic _ (List.mem_of_mem_eraseP (List.getElem_mem hi)) l hl

/-- The port whose type was asked alone has the new literal. -/
theorem setLiteral_furnished {id : PortId} {literal : Literal} {port : Port} (h : n.Furnished)
    (hport : n.input? id = some port) (haccepts : port.type.accepts literal = true) :
    (n.setLiteral id literal).Furnished where
  fixed p hp l hl := by
    obtain ⟨hp, hflag⟩ := mem_fixed.1 hp
    rcases mem_setLiteral n id literal hport hp with hp | rfl
    · exact h.fixed p (mem_fixed.2 ⟨hp, hflag⟩) l hl
    · exact .inl (Option.some.inj hl ▸ haccepts)
  dynamic p hp l hl := by
    obtain ⟨hp, hflag⟩ := mem_dynamic.1 hp
    rcases mem_setLiteral n id literal hport hp with hp | rfl
    · exact h.dynamic p (mem_dynamic.2 ⟨hp, hflag⟩) l hl
    · exact Option.some.inj hl ▸ haccepts

theorem Turns.furnished (h : n.Turns n') (hn : n.Furnished) : n'.Furnished := by
  cases h with
  | drop d id decl port input listed spare => exact dropDynamic_furnished d id hn
  | kind kind signature =>
    refine ⟨fun p hp l hl => ?_, hn.dynamic⟩
    rw [Kind.hasTokenAxis_signature, signature, ← Kind.hasTokenAxis_signature]
    exact hn.fixed p hp l hl
  | literal id literal port input accepts => exact setLiteral_furnished hn input accepts
  | seed seed => exact ⟨hn.fixed, hn.dynamic⟩

end Node

/-- A select node with an axis of tokens does not compile, whatever is connected to it. -/
theorem Scope.compile_tokenAxis {s : Scope} {q : SelectParams} (hs : s.node.kind = .select q)
    (hq : q.axis.signal = .token) (e : Effects) :
    (s.compile.outcome e).1 = .error (.compileFailure s.node.id .axisNotNumeric) := by
  obtain ⟨axis, options, thresholds⟩ := q
  simp only [compile, hs]
  cases axis with
  | value | valueGrid => nomatch hq
  | token | tokenGrid => rfl

/-- The axis of a select node that was declared to carry tokens, with the number that it began with.
The number is never read, since the node does not compile. -/
structure Node.StrayAxis (n : Node) (p : Port) : Prop where
  kind : ∃ q : SelectParams, n.kind = .select q ∧ p.type = q.axis
  carries : p.type.signal = .token
  axis : n.inputNamed? "axis" = some p
  literal : p.literal = some (.number 0)
  fails : ∀ (s : Scope) (e : Effects), s.node = n →
    (s.compile.outcome e).1 = .error (.compileFailure n.id .axisNotNumeric)

/-- An axis of tokens that holds a number holds it astray. -/
theorem Node.LaidOut.strayAxis {n : Node} (h : n.LaidOut) {q : SelectParams}
    (hn : n.kind = .select q) (hq : q.axis.signal = .token) {p : Port} (hp : p ∈ n.fixed)
    (hl : p.literal = some (.number 0)) : n.StrayAxis p := by
  have hfixed := h.fixed
  rw [hn] at hfixed
  obtain ⟨axis, hsingle, hface⟩ := List.map_eq_singleton_iff.1 hfixed
  rw [hsingle] at hp
  obtain rfl := List.mem_singleton.1 hp
  have hname : p.name = "axis" := congrArg Face.name hface
  have htype : p.type = q.axis := congrArg Face.type hface
  refine ⟨⟨q, hn, htype⟩, htype ▸ hq, ?_, hl, ?_⟩
  · simp [inputNamed?, h.ordered, hsingle, hname]
  · rintro s e rfl
    exact s.compile_tokenAxis hn hq e

namespace Graph
variable {g : Graph}

theorem Reached.furnished (h : g.Reached) : ∀ n ∈ g.nodes, n.Furnished := by
  induction h with
  | fresh name seed => exact fun _ h => absurd h List.not_mem_nil
  | @edit g h e ih =>
    intro n hn
    cases (alters_after h.wellFormed e).origin h.wellFormed hn with
    | kept old => exact ih n old
    | new kind seed issued => exact Node.create_furnished _ kind seed
    | grown m d old decl issued => exact Node.pushDynamic_furnished d (ih m old)
    | @turned m _ old turns => exact turns.furnished (ih m old)
  | drain _ ih => exact ih

/-- In every graph that edits lead to, an input only ever holds a literal that its type accepts,
and that is the literal of the value it is read as. The exception is the axis of a select node that
was declared to carry tokens: each begins astray, with the number zero. -/
theorem Reached.literals_fit (h : g.Reached) :
    (∀ n ∈ g.nodes, ∀ p ∈ n.inputs, ∀ l, p.literal = some l →
      p.type.accepts l = true ∧ l = .of p.type.signal (l.read p.type.signal) ∨ n.StrayAxis p) ∧
    ∀ q : SelectParams, q.axis.signal = .token →
      ∃ n p, (g.after (.addNode (.select q))).node? ⟨g.nextNode⟩ = some n ∧ n.kind = .select q ∧
        n.StrayAxis p := by
  constructor
  · intro n hn p hp l hl
    have hfurnished := h.furnished n hn
    rcases Node.mem_inputs.1 hp with hp | hp
    · rcases hfurnished.fixed p hp l hl with haccepts | ⟨htoken, rfl⟩
      · exact .inl ⟨haccepts, PortType.accepts_iff.1 haccepts⟩
      · obtain ⟨q, hkind, hq⟩ := Kind.select_of_hasTokenAxis htoken
        exact .inr ((h.laidOut n hn).strayAxis hkind hq hp hl)
    · have haccepts := hfurnished.dynamic p hp l hl
      exact .inl ⟨haccepts, PortType.accepts_iff.1 haccepts⟩
  · intro q hq
    have hadded := h.edit (.addNode (.select q))
    let n := Node.create ⟨g.nextNode⟩ (.select q) (.ofIndex g.nextNode)
    have hn : n ∈ (g.after (.addNode (.select q))).nodes :=
      List.mem_append_right g.nodes (List.mem_singleton.2 rfl)
    have hstray := (hadded.laidOut n hn).strayAxis (Node.kind_create _ _ _) hq
      (List.mem_singleton.2 rfl) rfl
    exact ⟨n, _, node?_of_mem hadded.wellFormed.nodup hn, Node.kind_create _ _ _, hstray⟩

/-- Three select nodes: the first is chosen by a number that was set, and the others have an axis of
tokens, the last of which was given a token. -/
def tinted : Graph :=
  [.addNode (.select { axis := .value, options := .token .terrain, thresholds := [0.5] }),
    .addNode (.select { axis := .token .biome, options := .value, thresholds := [0.5] }),
    .addNode (.select { axis := .tokenGrid .roof, options := .valueGrid }),
    .setLiteral ⟨⟨0⟩, ⟨0⟩⟩ (.number 2), .setLiteral ⟨⟨2⟩, ⟨0⟩⟩ (.token none)].foldl after {}

theorem tinted_literals_fit :
    (∀ n ∈ tinted.nodes, ∀ p ∈ n.inputs, ∀ l, p.literal = some l →
      p.type.accepts l = true ∧ l = .of p.type.signal (l.read p.type.signal) ∨ n.StrayAxis p) ∧
    ∀ q : SelectParams, q.axis.signal = .token →
      ∃ n p, (tinted.after (.addNode (.select q))).node? ⟨tinted.nextNode⟩ = some n ∧
        n.kind = .select q ∧ n.StrayAxis p :=
  ((Reached.fresh none 0).edits _).literals_fit

/-- The axis of the second node holds the number zero, which its type does not accept: it could not
be set. -/
theorem tinted_refuses : tinted.Reached ∧
    (∃ n ∈ tinted.nodes, ∃ p ∈ n.inputs, ∃ l, p.literal = some l ∧ p.type.accepts l = false) ∧
    tinted.setLiteral ⟨⟨1⟩, ⟨0⟩⟩ (.number 0) = .error (.incompatibleLiteral ⟨⟨1⟩, ⟨0⟩⟩) :=
  ⟨(Reached.fresh none 0).edits _,
    ⟨_, .tail _ (.head _), _, .head _, .number 0, rfl, rfl⟩, rfl⟩

end Graph
end Terrain
