import Terrain.Proofs.Compile.Means

/-! Compiling a node is faithful to its meaning: where the suppliers that arrive at its inputs are
steady, the values that it compiles to are steady and show what the node means, and it fails
exactly where it means nothing. -/
namespace Terrain

namespace PortValue
variable {Γ Γ' : Ledger} {v : PortValue} {s : Signal}

/-- The supplier of a port value is steady, if it has one. -/
def Steady (Γ : Ledger) : PortValue → Prop
  | value x => x.Steady Γ Γ.length
  | token x => x.Steady Γ Γ.length
  | valueGrid _ | tokenGrid _ => True

theorem Steady.mono (h : v.Steady Γ) (hΓ : Γ <+: Γ') : v.Steady Γ' := by
  cases v with
  | value x => exact Supplier.Steady.mono h hΓ hΓ.length_le
  | token x => exact Supplier.Steady.mono h hΓ hΓ.length_le
  | valueGrid g => trivial
  | tokenGrid g => trivial

@[simp] theorem steady_ofSupplier {x : Supplier s} :
    (ofSupplier x).Steady Γ ↔ x.Steady Γ Γ.length := by
  cases s <;> rfl

@[simp] theorem view_ofSupplier (x : Supplier s) : (ofSupplier x).view = .ofValue x.value := by
  cases s <;> rfl

@[simp] theorem steady_ofGrid (g : Grid s.Carrier) : (ofGrid s g).Steady Γ := by
  cases s <;> trivial

@[simp] theorem view_ofGrid (g : Grid s.Carrier) : (ofGrid s g).view = .ofGrid s g := by
  cases s <;> rfl

theorem Steady.supplier? (h : v.Steady Γ) {x : Supplier s} (hx : v.supplier? s = some x) :
    x.Steady Γ Γ.length := by
  cases s <;> cases v <;> simp only [PortValue.supplier?, Option.some.injEq, reduceCtorEq] at hx
  all_goals subst hx; exact h

@[simp] theorem value?_view (s : Signal) (v : PortValue) :
    v.view.value? s = (v.supplier? s).map Supplier.value := by
  cases s <;> cases v <;> rfl

@[simp] theorem grid?_view (s : Signal) (v : PortValue) : v.view.grid? s = v.grid? s := by
  cases s <;> cases v <;> rfl

end PortValue

/-- The suppliers among the values that a node compiles to are steady. -/
structure Compiled.Steady (Γ : Ledger) (k : Compiled) : Prop where
  outputs : ∀ v ∈ k.outputs, v.Steady Γ
  result : ∀ v, k.result = some v → v.Steady Γ

theorem Compiled.Steady.mono {Γ Γ' : Ledger} {k : Compiled} (h : k.Steady Γ) (hΓ : Γ <+: Γ') :
    k.Steady Γ' :=
  ⟨fun v hv => (h.outputs v hv).mono hΓ, fun v hv => (h.result v hv).mono hΓ⟩

namespace Feed
variable {Γ Γ' : Ledger} {f : Feed}

/-- The supplier that arrives is steady, if one does. -/
def Steady (Γ : Ledger) : Feed → Prop
  | connected v => v.Steady Γ
  | absent | literal _ | missing => True

theorem Steady.mono (h : f.Steady Γ) (hΓ : Γ <+: Γ') : f.Steady Γ' := by
  cases f with
  | connected v => exact PortValue.Steady.mono h hΓ
  | absent => trivial
  | literal l => trivial
  | missing => trivial

/-- What arrives, by what it shows. -/
def arrival : Feed → Arrival
  | connected v => .connected v.view
  | absent => .absent
  | literal l => .literal l
  | missing => .missing

/-- The literal of the port stands in for a node without a value. -/
def orLiteral (port : Port) : Feed → Feed
  | absent =>
    match port.literal with
    | some l => literal l
    | none => missing
  | other => other

theorem arrival_orLiteral (port : Port) (f : Feed) :
    (f.orLiteral port).arrival = f.arrival.orLiteral port := by
  cases f with
  | absent => cases h : port.literal <;> simp [orLiteral, arrival, Arrival.orLiteral, h]
  | connected v => rfl
  | literal l => rfl
  | missing => rfl

theorem Steady.orLiteral (h : f.Steady Γ) (port : Port) : (f.orLiteral port).Steady Γ := by
  cases f with
  | absent => cases hp : port.literal <;> simp [Feed.orLiteral, hp, Steady]
  | connected v => exact h
  | literal l => trivial
  | missing => trivial

def contribution : Feed → Option PortValue
  | connected v => some v
  | literal l => some (.constant l.asNumber)
  | absent | missing => none

@[simp] theorem view_contribution (f : Feed) :
    f.contribution.map PortValue.view = f.arrival.contribution := by
  cases f <;> rfl

theorem Steady.contribution (h : f.Steady Γ) {v : PortValue} (hv : f.contribution = some v) :
    v.Steady Γ := by
  cases f <;> simp only [Feed.contribution, Option.some.injEq, reduceCtorEq] at hv
  · subst hv; exact h
  · subst hv; exact .const _

theorem Steady.supplier (h : f.Steady Γ) (s : Signal) : (f.supplier s).Steady Γ Γ.length := by
  cases f with
  | connected v =>
    rw [Feed.supplier]
    cases hv : v.supplier? s with
    | some x => exact PortValue.Steady.supplier? h hv
    | none => exact .const _
  | absent => exact .const _
  | literal l => exact .const _
  | missing => exact .const _

@[simp] theorem value_supplier (s : Signal) (f : Feed) :
    (f.supplier s).value = f.arrival.value s := by
  cases f with
  | connected v =>
    simp only [supplier, arrival, Arrival.value, PortValue.value?_view]
    cases v.supplier? s <;> simp [Supplier.value]
  | absent => simp [supplier, arrival, Arrival.value, Supplier.value]
  | literal l => simp [supplier, arrival, Arrival.value, Supplier.value]
  | missing => simp [supplier, arrival, Arrival.value, Supplier.value]

end Feed

theorem Graph.viewOf?_shows (g : Graph) (table : Compilation) (p : PortRef) :
    g.viewOf? table.shows p = (table.value? g p).map PortValue.view := by
  unfold Graph.viewOf? Compilation.value? Compilation.shows
  cases g.node? p.node with
  | none => rfl
  | some n =>
    cases hp : n.outputs.findIdx? (·.id = p.port) with
    | none => simp [hp]
    | some place => cases table[p.node]? <;> simp [hp, Compiled.meaning]

namespace Scope
variable {s : Scope} {Γ Γ' : Ledger}

/-- The suppliers that arrive at the inputs of the scope's node are steady. -/
def Steady (s : Scope) (Γ : Ledger) : Prop := ∀ port, (s.feed port).Steady Γ

def arrive (s : Scope) (port : Port) : Arrival := (s.feed port).arrival

theorem graph_arrival (s : Scope) : s.graph.arrival s.compiled.shows s.node = s.arrive := by
  funext port
  unfold Graph.arrival Scope.arrive Scope.feed
  cases s.graph.sourceOf? ⟨s.node.id, port.id⟩ with
  | none => cases port.literal <;> rfl
  | some source =>
    simp only [Graph.viewOf?_shows]
    cases s.compiled.value? s.graph source <;> rfl

theorem yields_input (name : String) : s.Yields Γ (s.input name) (s.node.portAt name) := by
  unfold input Node.portAt
  cases s.node.inputNamed? name with
  | none => exact means_fail _
  | some port => exact yields_pure port

theorem yields_feedOrLiteral (port : Port) :
    s.Yields Γ (s.feedOrLiteral port) (.ok ((s.feed port).orLiteral port)) := by
  unfold feedOrLiteral
  cases s.feed port with
  | connected v => exact yields_pure _
  | absent =>
    simp only [Feed.orLiteral]
    refine Means.after_notify _ ?_
    cases port.literal <;> exact yields_pure _
  | literal l => exact yields_pure _
  | missing => exact yields_pure _

/-- The feed of a named input, or its literal, agrees with what arrives there. -/
theorem means_feedOrLiteral (h : s.Steady Γ) (name : String) :
    s.Means Γ (s.input name >>= s.feedOrLiteral)
      (fun Γ' f a => f.Steady Γ' ∧ f.arrival = a) (s.node.arrivalOrLiteral s.arrive name) := by
  refine Means.bind (yields_input name) fun Γ' port _ hΓ hp => ?_
  subst hp
  exact (yields_feedOrLiteral port).means fun Γ₂ h₂ =>
    ⟨((h port).mono (hΓ.trans h₂)).orLiteral port, Feed.arrival_orLiteral port _⟩

theorem means_numbers? (h : s.Steady Γ) (name : String) :
    s.Means Γ (s.numbers? name)
      (fun Γ' x v => x.map Supplier.value = v ∧ ∀ y, x = some y → y.Steady Γ' Γ'.length)
      (s.node.numberAt? s.arrive name) := by
  unfold numbers?
  rw [← bind_assoc]
  refine Means.bind (means_feedOrLiteral h name) fun Γ' f a _ hf => ?_
  obtain ⟨hf, rfl⟩ := hf
  cases f with
  | connected v =>
    refine means_pure fun Γ₂ h₂ => ⟨(PortValue.value?_view .number v).symm, fun y hy => ?_⟩
    exact (PortValue.Steady.mono hf h₂).supplier? hy
  | absent => exact means_pure fun _ _ => ⟨rfl, fun y hy => by cases hy⟩
  | literal l => exact means_pure fun _ _ => ⟨rfl, fun y hy => by cases hy; exact .const _⟩
  | missing => exact means_pure fun _ _ => ⟨rfl, fun y hy => by cases hy⟩

theorem yields_number (h : s.Steady Γ) (name : String) :
    s.Yields Γ (s.number name) (s.node.numberAt s.arrive name) := by
  refine Means.bind (means_numbers? h name) fun Γ' x v _ hx => ?_
  obtain ⟨rfl, hx⟩ := hx
  cases x with
  | some x => exact yields_read (hx x rfl)
  | none => exact yields_pure _

theorem yields_grid? (h : s.Steady Γ) (name : String) :
    s.Yields Γ (s.grid? name) (s.node.gridAt s.arrive name) := by
  unfold grid?
  rw [← bind_assoc]
  refine Means.bind (means_feedOrLiteral h name) fun Γ' f a _ hf => ?_
  obtain ⟨_, rfl⟩ := hf
  cases f with
  | connected v => exact means_pure fun _ _ => (PortValue.grid?_view .number v).symm
  | absent => exact yields_pure _
  | literal l => exact yields_pure _
  | missing => exact yields_pure _

theorem yields_needGrid (h : s.Steady Γ) (name : String) :
    s.Yields Γ (s.needGrid name) (s.node.neededAt s.arrive name) := by
  refine Means.bind (yields_grid? h name) fun Γ' g _ _ hg => ?_
  subst hg
  cases g with
  | some g => exact yields_pure g
  | none => exact means_fail _

/-- A feed becomes a grid by one read at most. -/
theorem yields_feed_grid {f : Feed} (h : f.Steady Γ) (sort : Signal) :
    s.Yields Γ (f.grid sort) (.ok (f.arrival.grid sort)) := by
  cases f with
  | connected v =>
    simp only [Feed.grid, Feed.arrival, Arrival.grid, PortValue.grid?_view,
      PortValue.value?_view]
    cases hg : v.grid? sort with
    | some g => exact yields_pure g
    | none =>
      cases hx : v.supplier? sort with
      | none => exact yields_pure _
      | some x =>
        exact Yields.bind (yields_read (PortValue.Steady.supplier? h hx)) fun _ _ => yields_pure _
  | absent => exact yields_pure _
  | literal l => exact yields_pure _
  | missing => exact yields_pure _

/-- A port value against the view specified for it. -/
def Displays (Γ : Ledger) (v : PortValue) (w : View) : Prop := v.Steady Γ ∧ v.view = w

theorem yields_contribution (port : Port) :
    s.Yields Γ (s.contribution port) (.ok (s.feed port).contribution) := by
  unfold contribution
  cases s.feed port with
  | connected v => exact yields_pure _
  | absent => exact Means.after_notify _ (yields_pure none)
  | literal l => exact yields_pure _
  | missing => exact yields_pure _

theorem yields_layer {slot : Option PortValue} (h : ∀ v, slot = some v → v.Steady Γ) :
    s.Yields Γ (layer slot) (.ok ((slot.map PortValue.view).bind View.layer?)) := by
  cases slot with
  | none => exact yields_pure none
  | some v =>
    cases v with
    | value x =>
      exact Yields.bind (yields_read (h _ rfl)) fun _ _ => yields_pure _
    | token x => exact yields_pure none
    | valueGrid g => exact yields_pure (some g)
    | tokenGrid g => exact yields_pure none

/-- An operator over numbers is remembered, so that its coins are flipped once. -/
theorem means_fold_value (h : s.Steady Γ) (p : OperatorParams) :
    s.Means Γ
      (Compile.newCell >>= fun d => Compile.cache (.operated p.operation
        (.ofList ((s.node.dynamic.map fun port => (s.feed port).contribution).map
          (·.bind (PortValue.supplier? .number)))) p.chance s.seed d))
      (fun Γ' x w => x.Steady Γ' Γ'.length ∧ x.value = w)
      (.ok (p.operation.foldSlots p.chance s.seed
        ((s.node.dynamic.map fun port => (s.arrive port).contribution).map
          (·.bind (View.value? .number))))) := by
  refine means_cache_stream (fun _ => rfl) (fun _ => ?_) fun Γ' d hΓ hd entry =>
    .folded (Nat.lt_succ_self _) entry ?_
  · rw [Supplier.value, Slots.values_ofList]
    congr 1
    simp only [List.map_map]
    refine List.map_congr_left fun port _ => ?_
    rw [Function.comp_apply, Function.comp_apply, Function.comp_apply, Scope.arrive,
      ← Feed.view_contribution]
    cases (s.feed port).contribution <;> simp
  · refine (Slots.all_ofList _ _).2 fun x hx => ?_
    simp only [List.map_map, List.mem_map, Function.comp_apply] at hx
    obtain ⟨port, _, hx⟩ := hx
    obtain ⟨v, hv, hx⟩ := Option.bind_eq_some_iff.1 hx
    exact (PortValue.Steady.supplier? ((h port).contribution hv) hx).mono hΓ hd

theorem means_fold (h : s.Steady Γ) (p : OperatorParams) :
    s.Means Γ (s.fold p) Displays (.ok (s.node.folding s.arrive p s.seed)) := by
  unfold fold Node.folding
  refine Yields.bind (yields_mapM _ fun port _ => yields_contribution port) fun Γ' hΓ => ?_
  cases p.target with
  | value =>
    dsimp only
    change s.Means Γ' _ _ (Except.ok (p.operation.foldSlots p.chance s.seed _) >>=
      fun v => Except.ok (View.number v))
    rw [← bind_assoc]
    refine Means.bind ((means_fold_value h p).mono hΓ) fun Γ₂ x v _ hx => ?_
    obtain ⟨hx, rfl⟩ := hx
    exact means_pure fun Γ₃ h₃ => ⟨PortValue.Steady.mono hx h₃, rfl⟩
  | valueGrid =>
    dsimp only
    have hlayers : ∀ slot ∈ s.node.dynamic.map fun port => (s.feed port).contribution,
        s.Yields Γ' (layer slot) (.ok ((slot.map PortValue.view).bind View.layer?)) := by
      intro slot hslot
      obtain ⟨port, _, rfl⟩ := List.mem_map.1 hslot
      exact yields_layer fun v hv => ((h port).mono hΓ).contribution hv
    refine Yields.bind (yields_mapM _ hlayers) fun Γ₂ _ => ?_
    refine Yields.bind (yields_forM_notify _ _) fun Γ₃ _ => ?_
    refine means_pure fun _ _ => ⟨trivial, ?_⟩
    simp [PortValue.view, List.map_map, Function.comp_def, Scope.arrive]

/-- A choice among suppliers is remembered, though it draws nothing. -/
theorem means_choose_value (h : s.Steady Γ) (sort : Signal) (p : SelectParams) (axis : Port) :
    s.Means Γ
      (Compile.cache (.selected ((s.feed axis).supplier .number) p.thresholds
        (.ofList ((s.node.dynamic.map s.feed).map fun feed => some (feed.supplier sort)))))
      (fun Γ' x v => x.Steady Γ' Γ'.length ∧ x.value = v)
      (.ok (sort.chosen ((s.arrive axis).value .number) p.thresholds
        ((s.node.dynamic.map s.arrive).map fun a => some (a.value sort)))) := by
  have hvalue : (Supplier.selected ((s.feed axis).supplier .number) p.thresholds
      (.ofList ((s.node.dynamic.map s.feed).map fun feed => some (feed.supplier sort)))).value =
      sort.chosen ((s.arrive axis).value .number) p.thresholds
        ((s.node.dynamic.map s.arrive).map fun a => some (a.value sort)) := by
    simp [Supplier.value, Slots.values_ofList, List.map_map, Function.comp_def, Scope.arrive]
  rw [← hvalue]
  refine means_cache rfl fun Γ' c hΓ hc entry => .chosen (Nat.lt_succ_self _) entry ?_ ?_
  · exact ((h axis).supplier .number).mono hΓ hc
  · refine (Slots.all_ofList _ _).2 fun x hx => ?_
    simp only [List.map_map, List.mem_map, Function.comp_apply, Option.some.injEq] at hx
    obtain ⟨port, _, rfl⟩ := hx
    exact ((h port).supplier sort).mono hΓ hc

theorem means_choose (h : s.Steady Γ) (sort : Signal) (p : SelectParams) :
    s.Means Γ (s.choose sort p) Displays (s.node.choosing s.arrive sort p) := by
  unfold choose Node.choosing Node.arrivalAt
  rw [bind_assoc]
  refine Means.bind (yields_input "axis") fun Γ' axis _ hΓ haxis => ?_
  subst haxis
  simp only [pure_bind]
  split
  · refine Yields.bind (yields_feed_grid ((h axis).mono hΓ) .number) fun Γ₂ h₂ => ?_
    have hoptions : ∀ feed ∈ s.node.dynamic.map s.feed,
        s.Yields Γ₂ (feed.grid sort) (.ok (feed.arrival.grid sort)) := by
      intro feed hfeed
      obtain ⟨port, _, rfl⟩ := List.mem_map.1 hfeed
      exact yields_feed_grid ((h port).mono (hΓ.trans h₂)) sort
    refine Yields.bind (yields_mapM _ hoptions) fun Γ₃ _ => ?_
    refine means_pure fun _ _ => ⟨by simp, ?_⟩
    simp [List.map_map, Function.comp_def, Scope.arrive]
  · change s.Means Γ' _ _ (Except.ok (sort.chosen _ _ _) >>= fun v => Except.ok (View.ofValue v))
    refine Means.bind ((means_choose_value h sort p axis).mono hΓ) fun Γ₂ x v _ hx => ?_
    obtain ⟨hx, rfl⟩ := hx
    exact means_pure fun Γ₃ h₃ => ⟨by simpa using hx.mono h₃ h₃.length_le, by simp⟩

theorem means_randomDraw (lo hi : Scalar) :
    s.Means Γ (s.randomDraw lo hi) Displays
      (.ok (.number (lo + (hi - lo) * Random.unit (s.seed.draw 0)))) := by
  unfold randomDraw
  change s.Means Γ _ _ (Except.ok (lo + (hi - lo) * Random.unit (s.seed.draw 0)) >>=
    fun v => Except.ok (View.number v))
  rw [← bind_assoc]
  refine Means.bind (means_cache_stream (f := fun d => .random lo hi s.seed d) (fun _ => rfl)
    (fun _ => rfl) fun Γ' d _ _ entry => .drawn (Nat.lt_succ_self _) entry)
    fun Γ' x v _ hx => ?_
  obtain ⟨hx, rfl⟩ := hx
  exact means_pure fun Γ₂ h₂ => ⟨PortValue.Steady.mono hx h₂, rfl⟩

theorem means_offered (h : s.Steady Γ) :
    s.Means Γ s.offered (fun Γ' v w => (∀ x, v = some x → x.Steady Γ') ∧ v.map PortValue.view = w)
      (return (← s.node.arrivalAt s.arrive "input").offered) := by
  unfold offered Node.arrivalAt
  rw [bind_assoc]
  refine Means.bind (yields_input "input") fun Γ' port _ hΓ hport => ?_
  subst hport
  simp only [pure_bind, Scope.arrive]
  have hp := h port
  cases hf : s.feed port with
  | connected v =>
    rw [hf] at hp
    refine means_pure fun Γ₂ h₂ => ⟨fun x hx => ?_, rfl⟩
    cases hx
    exact PortValue.Steady.mono hp (hΓ.trans h₂)
  | absent =>
    exact Means.after_notify _ (means_pure fun _ _ => ⟨nofun, rfl⟩)
  | literal l => exact means_pure fun _ _ => ⟨nofun, rfl⟩
  | missing => exact means_pure fun _ _ => ⟨nofun, rfl⟩

/-- What a node compiles to, against its meaning. -/
def Realizes (Γ : Ledger) (k : Compiled) (m : Meaning) : Prop := k.Steady Γ ∧ k.meaning = m

theorem means_single {m : Compile PortValue} {spec : Except CompileFault View}
    (h : s.Means Γ m Displays spec) :
    s.Means Γ (single m) Realizes (return .single (← spec)) := by
  refine Means.bind h fun Γ' v w _ hv => means_pure fun Γ₂ h₂ => ?_
  obtain ⟨hv, rfl⟩ := hv
  refine ⟨⟨fun x hx => ?_, nofun⟩, rfl⟩
  obtain rfl := List.mem_singleton.1 hx
  exact hv.mono h₂

/-- A node without inputs to read shows what its parameters say. -/
theorem means_single_pure {v : PortValue} {w : View} (h : ∀ Γ, v.Steady Γ) (hw : v.view = w) :
    s.Means Γ (single (return v)) Realizes (.ok (.single w)) :=
  means_single (means_pure fun Γ' _ => ⟨h Γ', hw⟩)

theorem means_tileOutputs (tile : WorldTile) :
    s.Means Γ (return { outputs := tileOutputs tile }) Realizes
      (.ok { outputs := TileField.all.map fun f => .ofValue (f.value tile) }) := by
  refine means_pure fun Γ' _ => ⟨⟨fun v hv => ?_, nofun⟩, ?_⟩
  · obtain ⟨f, _, rfl⟩ := List.mem_map.1 hv
    exact PortValue.steady_ofSupplier.2 (.const _)
  · simp [Compiled.meaning, tileOutputs, Function.comp_def, Supplier.value]

theorem means_lookUp (h : s.Steady Γ) (table : TokenTable) :
    s.Means Γ (s.lookUp table) Displays (do
      let a ← s.node.arrivalAt s.arrive "token"
      return .number (table.look (a.value .token))) := by
  unfold lookUp Node.arrivalAt
  rw [bind_assoc]
  refine Means.bind (yields_input "token") fun Γ' port _ hΓ hport => ?_
  subst hport
  refine means_pure fun Γ₂ h₂ => ⟨?_, by simp [PortValue.view, Supplier.value, Scope.arrive]⟩
  exact .mapped (((h port).mono (hΓ.trans h₂)).supplier .token)

theorem means_spreadNumber (h : s.Steady Γ) :
    s.Means Γ s.spreadNumber Displays
      (return .valueGrid (.const (← s.node.numberAt s.arrive "value"))) := by
  refine Means.bind (yields_number h "value") fun _ v _ _ hv => ?_
  subst hv
  exact means_pure fun _ _ => ⟨trivial, rfl⟩

theorem means_rotated (h : s.Steady Γ) (pivot : Point) :
    s.Means Γ (s.rotated pivot) Displays (do
      let input ← s.node.neededAt s.arrive "input"
      return .valueGrid (input.rotate pivot (← s.node.numberAt s.arrive "angle"))) := by
  refine Means.bind (yields_needGrid h "input") fun Γ' g _ hΓ hg => ?_
  subst hg
  refine Means.bind ((yields_number h "angle").mono hΓ) fun _ v _ _ hv => ?_
  subst hv
  exact means_pure fun _ _ => ⟨trivial, rfl⟩

theorem means_mapped (h : s.Steady Γ) (f : ValueGrid → ValueGrid) :
    s.Means Γ (s.mapped f) Displays
      (return .valueGrid (f (← s.node.neededAt s.arrive "input"))) := by
  refine Means.bind (yields_needGrid h "input") fun _ g _ _ hg => ?_
  subst hg
  exact means_pure fun _ _ => ⟨trivial, rfl⟩

theorem means_interpolated (h : s.Steady Γ) :
    s.Means Γ s.interpolated Displays (do
      let a ← s.node.gridAt s.arrive "a"
      let b ← s.node.gridAt s.arrive "b"
      let t ← s.node.gridAt s.arrive "t"
      return .valueGrid
        (Grid.lerp (a.getD (.const 0)) (b.getD (.const 0)) (t.getD (.const 0)))) := by
  refine Means.bind (yields_grid? h "a") fun Γ₁ a _ h₁ ha => ?_
  subst ha
  refine Means.bind ((yields_grid? h "b").mono h₁) fun Γ₂ b _ h₂ hb => ?_
  subst hb
  refine Means.bind ((yields_grid? h "t").mono (h₁.trans h₂)) fun _ t _ _ ht => ?_
  subst ht
  exact means_pure fun _ _ => ⟨trivial, rfl⟩

theorem means_select (h : s.Steady Γ) (p : SelectParams) :
    s.Means Γ (single (s.select p)) Realizes
      (match p.axis with
      | .value | .valueGrid =>
        return .single (← s.node.choosing s.arrive p.options.signal p)
      | .token _ | .tokenGrid _ => throw .axisNotNumeric) := by
  unfold select
  cases p.axis with
  | value => exact means_single (means_choose h _ p)
  | token k => exact means_single (Means.after_notify _ (means_fail .axisNotNumeric))
  | valueGrid => exact means_single (means_choose h _ p)
  | tokenGrid k => exact means_single (Means.after_notify _ (means_fail .axisNotNumeric))

/-- Compiling a node comes to what the node means, by the values that arrive at its inputs. -/
theorem means_compile (h : s.Steady Γ) :
    s.Means Γ s.compile Realizes (s.node.meaning s.arrive s.seed s.tile) := by
  unfold compile Node.meaning
  cases s.node.kind with
  | manifest m => exact means_pure fun _ _ => ⟨⟨nofun, nofun⟩, rfl⟩
  | tileRequirements r => exact means_pure fun _ _ => ⟨⟨nofun, nofun⟩, rfl⟩
  | worldTile => exact means_tileOutputs s.tile
  | constValue v =>
    exact means_single_pure (v := .constant v) (fun _ => Supplier.Steady.const (s := .number) v) rfl
  | randomValue lo hi => exact means_single (means_randomDraw lo hi)
  | constToken k t =>
    exact means_single_pure (v := .token (.const t)) (fun _ => Supplier.Steady.const (s := .token) t)
      rfl
  | tokenToValue table =>
    simpa only [bind_assoc, pure_bind] using means_single (means_lookUp h table)
  | gridFromValue =>
    simpa only [bind_assoc, pure_bind] using means_single (means_spreadNumber h)
  | gridNoise p => exact means_single_pure (fun _ => trivial) rfl
  | gridSpanDistance field => exact means_single_pure (fun _ => trivial) rfl
  | gridRotate pivot =>
    simpa only [bind_assoc, pure_bind] using means_single (means_rotated h pivot)
  | gridTransform translate scale =>
    simpa only [bind_assoc, pure_bind] using means_single (means_mapped h _)
  | gridLinear p => simpa only [bind_assoc, pure_bind] using means_single (means_mapped h _)
  | gridInvert => simpa only [bind_assoc, pure_bind] using means_single (means_mapped h _)
  | gridLerp => simpa only [bind_assoc, pure_bind] using means_single (means_interpolated h)
  | operator p => exact means_single (means_fold h p)
  | select p => exact means_select h p
  | output c =>
    have hresult : s.Means Γ (return { result := ← s.offered }) Realizes
        (return { result := ← (return (← s.node.arrivalAt s.arrive "input").offered) }) := by
      refine Means.bind (means_offered h) fun Γ' v w _ hv => ?_
      obtain ⟨hv, rfl⟩ := hv
      exact means_pure fun Γ₂ h₂ => ⟨⟨nofun, fun x hx => (hv x hx).mono h₂⟩, rfl⟩
    simpa only [bind_assoc, pure_bind] using hresult

/-- Compiling a node comes to what the node has to show, where the nodes that feed it show what
they have compiled to. -/
theorem means_due (h : s.Steady Γ) :
    s.Means Γ s.compile Realizes (s.graph.due s.tile s.compiled.shows s.node) := by
  rw [Graph.due, graph_arrival]
  exact means_compile h

end Scope
end Terrain
