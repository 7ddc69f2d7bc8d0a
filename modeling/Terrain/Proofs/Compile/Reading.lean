import Terrain.Proofs.Compile.Fault

/-! How compiling a node reads what arrives at its inputs. A node compiles alike wherever the
values that arrive are alike in what is read of them. -/
namespace Terrain

/-- The ways in which compiling a node reads a value: as a supplier, as a grid, as a grid where a
supplier does as well, or as it is. -/
inductive Reading
  | supplier (s : Signal)
  | grid (s : Signal)
  | either (s : Signal)
  | whole

namespace Reading

/-- Where the result is a grid, suppliers among the inputs are read as grids. -/
def towards (grid : Bool) (s : Signal) : Reading := if grid then either s else supplier s

/-- Two values differ in nothing that is read. -/
def Alike : Reading → PortValue → PortValue → Prop
  | supplier s, v, w => w.supplier? s = v.supplier? s
  | grid s, v, w => w.grid? s = v.grid? s
  | either s, v, w => w.grid? s = v.grid? s ∧ w.supplier? s = v.supplier? s
  | whole, v, w => w = v

end Reading

/-- The inputs that compiling a node reads, and how it reads them. -/
inductive Node.Reads (n : Node) : Port → Reading → Prop
  | token {table : TokenTable} {port : Port} (kind : n.kind = .tokenToValue table)
      (named : n.inputNamed? "token" = some port) : Reads n port (.supplier .token)
  | spread {port : Port} (kind : n.kind = .gridFromValue)
      (named : n.inputNamed? "value" = some port) : Reads n port (.supplier .number)
  | angle {pivot : Point} {port : Port} (kind : n.kind = .gridRotate pivot)
      (named : n.inputNamed? "angle" = some port) : Reads n port (.supplier .number)
  | grid {port : Port} (kind : n.kind.needsGrid = true)
      (named : n.inputNamed? "input" = some port) : Reads n port (.grid .number)
  | lerp {name : String} {port : Port} (kind : n.kind = .gridLerp) (mem : name ∈ ["a", "b", "t"])
      (named : n.inputNamed? name = some port) : Reads n port (.grid .number)
  | operand {p : OperatorParams} {port : Port} (kind : n.kind = .operator p)
      (mem : port ∈ n.dynamic) : Reads n port (.towards p.target.portType.isGrid .number)
  | axis {p : SelectParams} {port : Port} (kind : n.kind = .select p)
      (numeric : p.axis = .value ∨ p.axis = .valueGrid)
      (named : n.inputNamed? "axis" = some port) :
      Reads n port (.towards p.resultType.isGrid .number)
  | option {p : SelectParams} {port : Port} (kind : n.kind = .select p)
      (numeric : p.axis = .value ∨ p.axis = .valueGrid) (mem : port ∈ n.dynamic) :
      Reads n port (.towards p.resultType.isGrid p.options.signal)
  | offer {c : Channel} {port : Port} (kind : n.kind = .output c)
      (named : n.inputNamed? "input" = some port) : Reads n port .whole

theorem Node.Reads.mem {n : Node} {port : Port} {reading : Reading} (hr : n.Reads port reading) :
    port ∈ n.inputs := by
  cases hr with
  | operand _ mem | option _ _ mem => exact mem_inputs_of_dynamic mem
  | token _ named | spread _ named | angle _ named | grid _ named | lerp _ _ named
  | axis _ _ named | offer _ named => exact List.mem_of_find?_eq_some named

/-- What arrives is the same, or values that are alike in what is read of them. -/
inductive Feed.Alike (r : Reading) : Feed → Feed → Prop
  | same (f : Feed) : Alike r f f
  | connected {v w : PortValue} (h : r.Alike v w) : Alike r (.connected v) (.connected w)

namespace Feed.Alike
variable {s : Signal} {f f' : Feed}

theorem supplier (h : Alike (.supplier s) f f') : f'.supplier s = f.supplier s := by
  cases h with
  | same => rfl
  | @connected v w h =>
    have h : w.supplier? s = v.supplier? s := h
    rw [Feed.supplier, h, Feed.supplier]

theorem grid (h : Alike (.either s) f f') : f'.grid s = f.grid s := by
  cases h with
  | same => rfl
  | connected h => simp only [Feed.grid, h.1, h.2]

theorem whole (h : Alike .whole f f') : f' = f := by
  cases h with
  | same => rfl
  | connected h => rw [h]

end Feed.Alike

namespace Compile
variable {α β γ : Type} {R : β → β → Prop}

/-- Whatever goes on alike from values that are related goes on alike from two computations. -/
def Like (m m' : Compile β) (R : β → β → Prop) : Prop :=
  ∀ (γ : Type) (k k' : β → Compile γ), (∀ b b', R b b' → k' b' = k b) → m' >>= k' = m >>= k

theorem like_pure {b b' : β} (h : R b b') : Like (pure b) (pure b') R := by
  intro γ k k' hk
  rw [pure_bind, pure_bind, hk b b' h]

theorem like_refl (m : Compile β) (h : ∀ b, R b b) : Like m m R :=
  fun _ _ _ hk => congrArg (m >>= ·) (funext fun b => hk b b (h b))

theorem Like.bind {m m' : Compile β} (h : Like m m' R) {k k' : β → Compile γ}
    (hk : ∀ b b', R b b' → k' b' = k b) : m' >>= k' = m >>= k := h γ k k' hk

/-- Rows of values are alike in some part where each value is. -/
theorem like_mapM {f f' : α → Compile β} {as : List α} (φ : β → γ)
    (h : ∀ a ∈ as, Like (f a) (f' a) fun b b' => φ b' = φ b) :
    Like (as.mapM f) (as.mapM f') fun bs bs' => bs'.map φ = bs.map φ := by
  induction as with
  | nil => exact like_pure rfl
  | cons a as ih =>
    intro δ k k' hk
    simp only [List.mapM_cons, bind_assoc, pure_bind]
    refine (h a List.mem_cons_self).bind fun b b' hb => ?_
    refine (ih fun a' ha => h a' (List.mem_cons_of_mem _ ha)).bind fun bs bs' hbs => hk _ _ ?_
    simpa using ⟨hb, hbs⟩

/-- Rows that are the same as far as a computation tells lead to the same results. -/
theorem mapM_congr_map {f : α → Compile β} {as as' : List α} (h : as'.map f = as.map f) :
    as'.mapM f = as.mapM f := by
  have hrow : ∀ row : List α, row.mapM f = (row.map f).mapM id := fun row => by
    rw [List.mapM_map, Function.id_comp]
  rw [hrow, h, ← hrow]

end Compile

namespace Scope

open Compile

/-- A layer is read as a grid, and a supplier as well. -/
theorem layer_congr {v w : PortValue} (h : (Reading.either .number).Alike v w) :
    layer (some w) = layer (some v) := by
  obtain ⟨hgrid, hsupplier⟩ := h
  cases v <;> cases w <;> cases hgrid <;> cases hsupplier <;> rfl

/-- Two settings in which a node is compiled, with alike values at the inputs that are read. -/
structure Alike (s s' : Scope) : Prop where
  graph : s'.graph = s.graph
  tile : s'.tile = s.tile
  node : s'.node = s.node
  feeds : ∀ port reading, s.node.Reads port reading →
    Feed.Alike reading (s.feed port) (s'.feed port)

section Inputs
variable {α : Type} {s s' : Scope} {name : String} {port : Port} {r : Reading}
  (hnode : s'.node = s.node)
include hnode

/-- What goes on from a named input goes on from that input. -/
theorem input_bind_congr {k k' : Port → Compile α}
    (h : ∀ port, s.node.inputNamed? name = some port → k' port = k port) :
    s'.input name >>= k' = s.input name >>= k := by
  unfold input fail
  rw [hnode]
  cases hport : s.node.inputNamed? name with
  | none => rfl
  | some port =>
    simp only [pure_bind]
    exact h port hport

theorem like_feedOrLiteral (hfeed : Feed.Alike r (s.feed port) (s'.feed port)) :
    Like (s.feedOrLiteral port) (s'.feedOrLiteral port) (Feed.Alike r) := by
  unfold feedOrLiteral
  rw [hnode]
  generalize s.feed port = f at hfeed
  generalize s'.feed port = f' at hfeed
  cases hfeed with
  | same => exact like_refl _ .same
  | connected h => exact like_pure (.connected h)

theorem like_contribution {φ : Option PortValue → α}
    (hfeed : Feed.Alike r (s.feed port) (s'.feed port))
    (hφ : ∀ v w, r.Alike v w → φ (some w) = φ (some v)) :
    Like (s.contribution port) (s'.contribution port) fun slot slot' => φ slot' = φ slot := by
  unfold contribution
  rw [hnode]
  generalize s.feed port = f at hfeed
  generalize s'.feed port = f' at hfeed
  cases hfeed with
  | same => exact like_refl _ fun _ => rfl
  | connected h => exact like_pure (hφ _ _ h)

/-- The same where a literal stands in for what does not arrive. -/
theorem orLiteral_bind_congr {k : Feed → Compile α}
    (h : ∀ port, s.node.inputNamed? name = some port → Feed.Alike r (s.feed port) (s'.feed port))
    (hk : ∀ v w, r.Alike v w → k (.connected w) = k (.connected v)) :
    (s'.input name >>= fun port => s'.feedOrLiteral port >>= k) =
      s.input name >>= fun port => s.feedOrLiteral port >>= k := by
  refine input_bind_congr hnode fun port hport => ?_
  refine (like_feedOrLiteral hnode (h port hport)).bind fun f f' hf => ?_
  cases hf with
  | same => rfl
  | connected hv => exact hk _ _ hv

theorem number_congr (h : ∀ port, s.node.inputNamed? name = some port →
    Feed.Alike (.supplier .number) (s.feed port) (s'.feed port)) :
    s'.number name = s.number name := by
  have hnumbers : s'.numbers? name = s.numbers? name :=
    orLiteral_bind_congr hnode h fun _ _ hv => congrArg pure hv
  rw [number, hnumbers, number]

theorem grid?_congr (h : ∀ port, s.node.inputNamed? name = some port →
    Feed.Alike (.grid .number) (s.feed port) (s'.feed port)) :
    s'.grid? name = s.grid? name :=
  orLiteral_bind_congr hnode h fun _ _ hv => congrArg pure hv

end Inputs

namespace Alike
variable {s s' : Scope} (h : s.Alike s')
include h

theorem seed : s'.seed = s.seed := by rw [Scope.seed, h.node, h.graph, Scope.seed]

theorem lookUp {table : TokenTable} (hk : s.node.kind = .tokenToValue table) :
    s'.lookUp table = s.lookUp table := by
  refine input_bind_congr h.node fun port hport => ?_
  rw [(h.feeds port _ (.token hk hport)).supplier]

theorem spreadNumber (hk : s.node.kind = .gridFromValue) : s'.spreadNumber = s.spreadNumber := by
  rw [Scope.spreadNumber, number_congr h.node fun port hport => h.feeds port _ (.spread hk hport),
    Scope.spreadNumber]

theorem needGrid (hk : s.node.kind.needsGrid = true) :
    s'.needGrid "input" = s.needGrid "input" := by
  have hgrid : s'.grid? "input" = s.grid? "input" :=
    grid?_congr h.node fun port hport => h.feeds port _ (.grid hk hport)
  rw [Scope.needGrid, hgrid, Scope.needGrid]
  simp only [fail, h.node]

theorem mapped (hk : s.node.kind.needsGrid = true) (f : ValueGrid → ValueGrid) :
    s'.mapped f = s.mapped f := by
  rw [Scope.mapped, h.needGrid hk, Scope.mapped]

theorem rotated {pivot : Point} (hk : s.node.kind = .gridRotate pivot) :
    s'.rotated pivot = s.rotated pivot := by
  rw [Scope.rotated, h.needGrid (by rw [hk]; rfl),
    number_congr h.node fun port hport => h.feeds port _ (.angle hk hport), Scope.rotated]

theorem interpolated (hk : s.node.kind = .gridLerp) : s'.interpolated = s.interpolated := by
  have hgrid : ∀ name ∈ ["a", "b", "t"], s'.grid? name = s.grid? name := fun name hname =>
    grid?_congr h.node fun port hport => h.feeds port _ (.lerp hk hname hport)
  rw [Scope.interpolated, hgrid "a" (by simp), hgrid "b" (by simp), hgrid "t" (by simp),
    Scope.interpolated]

theorem fold {p : OperatorParams} (hk : s.node.kind = .operator p) : s'.fold p = s.fold p := by
  have hfeeds : ∀ port ∈ s.node.dynamic, Feed.Alike _ (s.feed port) (s'.feed port) :=
    fun port hport => h.feeds port _ (.operand hk hport)
  unfold Scope.fold
  rw [h.node, h.seed]
  -- Contributions are gathered before they are read, so they are compared as the target reads them.
  cases htarget : p.target with
  | value =>
    rw [htarget] at hfeeds
    have hslot : ∀ port ∈ s.node.dynamic, Like (s.contribution port) (s'.contribution port)
        fun slot slot' => slot'.bind (PortValue.supplier? .number) =
          slot.bind (PortValue.supplier? .number) := fun port hport =>
      like_contribution h.node (hfeeds port hport) fun v w hv => hv
    refine (like_mapM _ hslot).bind fun slots slots' hslots => ?_
    simp only [hslots]
  | valueGrid =>
    rw [htarget] at hfeeds
    have hslot : ∀ port ∈ s.node.dynamic, Like (s.contribution port) (s'.contribution port)
        fun slot slot' => layer slot' = layer slot := fun port hport =>
      like_contribution h.node (hfeeds port hport) fun v w hv => layer_congr hv
    refine (like_mapM _ hslot).bind fun slots slots' hslots => ?_
    simp only [mapM_congr_map hslots]

theorem choose {p : SelectParams} (hk : s.node.kind = .select p)
    (numeric : p.axis = .value ∨ p.axis = .valueGrid) :
    s'.choose p.options.signal p = s.choose p.options.signal p := by
  unfold Scope.choose
  refine input_bind_congr h.node fun port hport => ?_
  have haxis := h.feeds port _ (.axis hk numeric hport)
  have hoptions : ∀ port ∈ s.node.dynamic, Feed.Alike _ (s.feed port) (s'.feed port) :=
    fun port hport => h.feeds port _ (.option hk numeric hport)
  dsimp only
  rw [h.node]
  cases hgrid : p.resultType.isGrid with
  | true =>
    rw [hgrid] at haxis hoptions
    have hrow : (s.node.dynamic.map s'.feed).map (Feed.grid p.options.signal) =
        (s.node.dynamic.map s.feed).map (Feed.grid p.options.signal) := by
      rw [List.map_map, List.map_map]
      exact List.map_congr_left fun port hport => (hoptions port hport).grid
    rw [if_pos rfl, if_pos rfl, haxis.grid, mapM_congr_map hrow]
  | false =>
    rw [hgrid] at haxis hoptions
    have hrow : (s.node.dynamic.map s'.feed).map (fun f => some (f.supplier p.options.signal)) =
        (s.node.dynamic.map s.feed).map fun f => some (f.supplier p.options.signal) := by
      rw [List.map_map, List.map_map]
      exact List.map_congr_left fun port hport => congrArg some (hoptions port hport).supplier
    rw [if_neg Bool.false_ne_true, if_neg Bool.false_ne_true, haxis.supplier, hrow]

theorem offered {c : Channel} (hk : s.node.kind = .output c) : s'.offered = s.offered := by
  unfold Scope.offered
  refine input_bind_congr h.node fun port hport => ?_
  rw [h.node, (h.feeds port _ (.offer hk hport)).whole]

theorem select {p : SelectParams} (hk : s.node.kind = .select p) : s'.select p = s.select p := by
  unfold Scope.select fail
  rw [h.node]
  cases haxis : p.axis with
  | value => exact h.choose hk (.inl haxis)
  | valueGrid => exact h.choose hk (.inr haxis)
  | token _ | tokenGrid _ => rfl

/-- Compiling a node reads nothing else of the values that arrive. -/
theorem compile : s'.compile = s.compile := by
  unfold Scope.compile
  rw [h.node]
  cases hk : s.node.kind with
  | manifest _ | tileRequirements _ | constValue _ | constToken _ _ | gridSpanDistance _ => rfl
  | worldTile => dsimp only; rw [h.tile]
  | randomValue lo hi => dsimp only; rw [randomDraw, h.seed, randomDraw]
  | gridNoise p => dsimp only; rw [h.seed]
  | tokenToValue table => exact congrArg single (h.lookUp hk)
  | gridFromValue => exact congrArg single (h.spreadNumber hk)
  | gridRotate pivot => exact congrArg single (h.rotated hk)
  | gridTransform _ _ | gridLinear _ | gridInvert =>
    exact congrArg single (h.mapped (by rw [hk]; rfl) _)
  | gridLerp => exact congrArg single (h.interpolated hk)
  | operator p => exact congrArg single (h.fold hk)
  | select p => exact congrArg single (h.select hk)
  | output c => dsimp only; rw [h.offered hk]

end Alike
end Scope
end Terrain
