import Terrain.Proofs.Compile.Fault
import Terrain.Proofs.Compile.Faithful

/-! Whether a node compiles is decided by what arrives at its inputs. The store has no say in it,
whatever it holds: a computation reads numbers and tokens from it, and fails for want of neither.
One rule for each way of building a computation. -/
namespace Terrain

namespace Compile
variable {α β : Type} {m : Compile α} {f : α → Compile β} {a : α} {x : GraphError}
  {r : Except GraphError β}

/-- A computation comes to one result, whatever it works on. -/
def Certain (m : Compile α) (r : Except GraphError α) : Prop := ∀ e, (m.outcome e).1 = r

/-- A computation comes to a value, whatever it works on, though not always to the same one. -/
def Total (m : Compile α) : Prop := ∀ e, ∃ a, (m.outcome e).1 = .ok a

theorem certain_pure (a : α) : Certain (pure a) (.ok a) := fun _ => rfl

theorem certain_notify (n : Notice) : Certain (notify n) (.ok ()) := fun _ => rfl

theorem Certain.total (h : Certain m (.ok a)) : Total m := fun e => ⟨a, h e⟩

/-- What goes on from a value is what becomes of the whole. -/
theorem fst_outcome_bind {e : Effects} (h : (m.outcome e).1 = .ok a) (f : α → Compile β) :
    ((m >>= f).outcome e).1 = ((f a).outcome (m.outcome e).2).1 := by
  rw [outcome_bind]
  generalize m.outcome e = out at h
  obtain ⟨_, _⟩ := out
  cases h
  rfl

theorem fst_outcome_bind_error {e : Effects} (h : (m.outcome e).1 = .error x)
    (f : α → Compile β) : ((m >>= f).outcome e).1 = .error x := by
  rw [outcome_bind]
  generalize m.outcome e = out at h
  obtain ⟨_, _⟩ := out
  cases h
  rfl

theorem Certain.bind (hm : Certain m (.ok a)) (hf : Certain (f a) r) : Certain (m >>= f) r :=
  fun e => (fst_outcome_bind (hm e) f).trans (hf _)

theorem Certain.bind_error (hm : Certain m (.error x)) : Certain (m >>= f) (.error x) :=
  fun e => fst_outcome_bind_error (hm e) f

theorem total_pure (a : α) : Total (pure a) := (certain_pure a).total

theorem total_newCell : Total newCell := fun e => ⟨e.store.fresh, rfl⟩

theorem total_read {s : Signal} (x : Supplier s) : Total (read x) :=
  fun e => ⟨(x.read e.store).1, rfl⟩

theorem Total.bind (hm : Total m) (hf : ∀ a, Total (f a)) : Total (m >>= f) := by
  intro e
  obtain ⟨a, he⟩ := hm e
  rw [fst_outcome_bind he]
  exact hf a _

theorem Certain.bind_total (hm : Certain m (.ok a)) (hf : Total (f a)) : Total (m >>= f) := by
  intro e
  rw [fst_outcome_bind (hm e)]
  exact hf _

theorem total_cache {s : Signal} (x : Supplier s) : Total (cache x) :=
  total_newCell.bind fun _ => total_pure _

theorem total_mapM {f : α → Compile β} (h : ∀ a, Total (f a)) (as : List α) :
    Total (as.mapM f) := by
  induction as with
  | nil => exact total_pure []
  | cons a as ih =>
    rw [List.mapM_cons]
    exact (h a).bind fun _ => ih.bind fun _ => total_pure _

theorem total_forM {f : α → Compile Unit} (h : ∀ a, Total (f a)) (as : List α) :
    Total (as.forM f) := by
  induction as with
  | nil => exact total_pure ()
  | cons a as ih => exact (h a).bind fun _ => ih

end Compile

theorem Feed.total_grid (s : Signal) (f : Feed) : (f.grid s).Total := by
  cases f with
  | connected v =>
    simp only [grid]
    cases v.grid? s with
    | some g => exact Compile.total_pure g
    | none =>
      cases v.supplier? s with
      | some x => exact (Compile.total_read x).bind fun _ => Compile.total_pure _
      | none => exact Compile.total_pure _
  | _ => exact Compile.total_pure _

namespace Scope

open Compile

variable {α β : Type} {s : Scope} {m : Compile α} {f : α → Compile β} {a : α}

/-- Whether a computation comes to a value is decided, whatever it works on. A failure is one of
the scope's node, and never for want of a port. -/
inductive Decided (s : Scope) (m : Compile α) : Prop
  | total (h : m.Total)
  | fails (fault : CompileFault) (named : ∀ name, fault ≠ .noInputNamed name)
      (h : m.Certain (.error (.compileFailure s.node.id fault)))

/-- A computation that fails does so whatever it works on. -/
theorem Decided.certain_error (h : s.Decided m) {e : Effects} {x : GraphError}
    (hx : (m.outcome e).1 = .error x) : ∃ fault, x = .compileFailure s.node.id fault ∧
      (∀ name, fault ≠ .noInputNamed name) ∧ m.Certain (.error x) := by
  cases h with
  | total ht =>
    obtain ⟨a, ha⟩ := ht e
    rw [hx] at ha
    cases ha
  | fails fault named hfails =>
    obtain rfl : x = .compileFailure s.node.id fault := Except.error.inj (hx.symm.trans (hfails e))
    exact ⟨fault, rfl, named, hfails⟩

theorem Decided.bind (hm : s.Decided m) (hf : ∀ a, (f a).Total) : s.Decided (m >>= f) := by
  cases hm with
  | total h => exact .total (h.bind hf)
  | fails fault named h => exact .fails fault named h.bind_error

/-- What goes on from a value that is certain is decided, if it is so for that value. -/
theorem Decided.certain_bind (hm : m.Certain (.ok a)) (hf : s.Decided (f a)) :
    s.Decided (m >>= f) := by
  cases hf with
  | total h => exact .total (hm.bind_total h)
  | fails fault named h => exact .fails fault named (hm.bind h)

theorem Decided.single {m : Compile PortValue} (h : s.Decided m) : s.Decided (single m) :=
  h.bind fun _ => total_pure _

theorem certain_feedOrLiteral (s : Scope) (port : Port) :
    (s.feedOrLiteral port).Certain (.ok ((s.feed port).orLiteral port)) := by
  unfold feedOrLiteral
  cases s.feed port with
  | absent =>
    refine (certain_notify _).bind ?_
    cases hl : port.literal <;> simp only [Feed.orLiteral, hl] <;> exact certain_pure _
  | _ => exact certain_pure _

theorem total_contribution (s : Scope) (port : Port) : (s.contribution port).Total := by
  unfold contribution
  cases s.feed port with
  | absent => exact (certain_notify _).total.bind fun _ => total_pure _
  | _ => exact total_pure _

theorem total_layer (slot : Option PortValue) : (layer slot).Total := by
  unfold layer
  split
  · exact total_pure _
  · exact (total_read _).bind fun _ => total_pure _
  · exact total_pure _

theorem total_fold (s : Scope) (p : OperatorParams) : (s.fold p).Total := by
  unfold fold
  refine (total_mapM s.total_contribution _).bind fun slots => ?_
  cases p.target with
  | value => exact total_newCell.bind fun _ => (total_cache _).bind fun _ => total_pure _
  | valueGrid =>
    refine (total_mapM total_layer _).bind fun grids => ?_
    exact (total_forM (fun n => (certain_notify _).total) _).bind fun _ => total_pure _

theorem total_randomDraw (s : Scope) (lo hi : Scalar) : (s.randomDraw lo hi).Total :=
  total_newCell.bind fun _ => (total_cache _).bind fun _ => total_pure _

section Inputs
variable (h : s.node.Fits) (name : String)
  (hname : name ∈ s.node.kind.layout.inputs.map (·.name))
include h hname

theorem certain_input : ∃ port, (s.input name).Certain (.ok port) := by
  obtain ⟨port, _, hport⟩ := h.inputNamed? hname
  exact ⟨port, by rw [input, hport]; exact certain_pure port⟩

theorem certain_grid? : ∃ g, (s.grid? name).Certain (.ok g) := by
  obtain ⟨port, hport⟩ := certain_input h name hname
  have hfeed := certain_feedOrLiteral s port
  cases hf : (s.feed port).orLiteral port
  all_goals rw [hf] at hfeed; exact ⟨_, hport.bind (hfeed.bind (certain_pure _))⟩

theorem total_number : (s.number name).Total := by
  obtain ⟨port, hport⟩ := certain_input h name hname
  refine (hport.total.bind fun port => ?_ : (s.numbers? name).Total).bind fun x => ?_
  · refine (certain_feedOrLiteral s port).total.bind fun feed => ?_
    cases feed <;> exact total_pure _
  · cases x with
    | some x => exact total_read x
    | none => exact total_pure _

/-- The one input that a node may want is a grid. -/
theorem decided_needGrid : s.Decided (s.needGrid name) := by
  obtain ⟨g, hg⟩ := certain_grid? h name hname
  refine .certain_bind hg ?_
  cases g with
  | some g => exact .total (total_pure g)
  | none => exact .fails (.noValue name) nofun fun _ => rfl

end Inputs

section Kinds
variable (h : s.node.Fits)
include h

theorem total_lookUp {table : TokenTable} (hk : s.node.kind = .tokenToValue table) :
    (s.lookUp table).Total := by
  obtain ⟨port, hport⟩ := certain_input h "token" (by rw [hk]; exact .head _)
  exact hport.total.bind fun _ => total_pure _

theorem total_spreadNumber (hk : s.node.kind = .gridFromValue) : s.spreadNumber.Total :=
  (total_number h _ (by rw [hk]; exact .head _)).bind fun _ => total_pure _

theorem decided_rotated {pivot : Point} (hk : s.node.kind = .gridRotate pivot) :
    s.Decided (s.rotated pivot) := by
  refine (decided_needGrid h _ (by rw [hk]; exact .head _)).bind fun g => ?_
  exact (total_number h _ (by rw [hk]; exact .tail _ (.head _))).bind fun _ => total_pure _

theorem decided_mapped (hname : "input" ∈ s.node.kind.layout.inputs.map (·.name))
    (f : ValueGrid → ValueGrid) : s.Decided (s.mapped f) :=
  (decided_needGrid h _ hname).bind fun _ => total_pure _

theorem total_interpolated (hk : s.node.kind = .gridLerp) : s.interpolated.Total := by
  obtain ⟨a, ha⟩ := certain_grid? h "a" (by rw [hk]; exact .head _)
  obtain ⟨b, hb⟩ := certain_grid? h "b" (by rw [hk]; exact .tail _ (.head _))
  obtain ⟨t, ht⟩ := certain_grid? h "t" (by rw [hk]; exact .tail _ (.tail _ (.head _)))
  exact ha.total.bind fun _ => hb.total.bind fun _ => ht.total.bind fun _ => total_pure _

theorem total_choose {p : SelectParams} (hk : s.node.kind = .select p) (sort : Signal) :
    (s.choose sort p).Total := by
  obtain ⟨port, hport⟩ := certain_input h "axis" (by rw [hk]; exact .head _)
  refine hport.total.bind fun axis => ?_
  dsimp only
  split
  · refine (Feed.total_grid _ _).bind fun _ => ?_
    exact (total_mapM (Feed.total_grid sort) _).bind fun _ => total_pure _
  · exact (total_cache _).bind fun _ => total_pure _

theorem decided_select {p : SelectParams} (hk : s.node.kind = .select p) :
    s.Decided (s.select p) := by
  unfold select
  cases p.axis with
  | value | valueGrid => exact .total (total_choose h hk _)
  | token _ | tokenGrid _ =>
    exact .certain_bind (certain_notify _) (.fails .axisNotNumeric nofun fun _ => rfl)

theorem total_offered {c : Channel} (hk : s.node.kind = .output c) : s.offered.Total := by
  obtain ⟨port, hport⟩ := certain_input h "input" (by rw [hk]; exact .head _)
  refine hport.total.bind fun port => ?_
  cases s.feed port with
  | absent => exact (certain_notify _).total.bind fun _ => total_pure _
  | _ => exact total_pure _

/-- Whether a node with the ports of its layout compiles is decided, whatever the store holds, and
it never fails for want of a port. -/
theorem compile_decided : s.Decided s.compile := by
  unfold compile
  cases hk : s.node.kind with
  | manifest _ | tileRequirements _ | worldTile => exact .total (total_pure _)
  | constValue _ | constToken _ _ | gridNoise _ | gridSpanDistance _ =>
    exact .single (.total (total_pure _))
  | randomValue lo hi => exact .single (.total (total_randomDraw s lo hi))
  | tokenToValue _ => exact .single (.total (total_lookUp h hk))
  | gridFromValue => exact .single (.total (total_spreadNumber h hk))
  | gridRotate _ => exact .single (decided_rotated h hk)
  | gridTransform _ _ | gridLinear _ | gridInvert =>
    exact .single (decided_mapped h (by rw [hk]; exact .head _) _)
  | gridLerp => exact .single (.total (total_interpolated h hk))
  | operator p => exact .single (.total (total_fold s p))
  | select _ => exact .single (decided_select h hk)
  | output _ => exact .total ((total_offered h hk).bind fun _ => total_pure _)

end Kinds

end Scope
end Terrain
