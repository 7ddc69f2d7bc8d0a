import Terrain.Proofs.Compile.Layers
import Terrain.Proofs.Order

/-! Which layers take part in a fold. The coins of the `k`-th pull stand at places of a stream that
the number of layers fixes, so nothing else moves them: not the operation, not the layers that are
empty, and not what the others yield. A coin that comes up for one chance comes up for every
greater one. -/
namespace Terrain

open Store AnySupplier

namespace Random
variable {seed : Seed} {chance chance' : Scalar} {word : UInt32}

theorem comesUp_of_one_le (h : 1 ≤ chance) : comesUp chance word = true := by
  simp [comesUp, h]

theorem not_comesUp_of_le_zero (h : chance ≤ 0) : comesUp chance word = false := by
  have hone : ¬ (1 : Scalar) ≤ chance := fun h' =>
    absurd (Scalar.le_trans h' h) (by decide +kernel)
  simp [comesUp, hone, Scalar.not_lt_of_le h]

theorem not_comesUp_of_isNaN (h : chance.isNaN = true) : comesUp chance word = false := by
  simp [comesUp, Scalar.not_le_of_isNaN h, Scalar.not_lt_of_isNaN h]

/-- A greater chance makes no coin fail to come up. -/
theorem comesUp_mono (h : chance ≤ chance') (hword : comesUp chance word = true) :
    comesUp chance' word = true := by
  simp only [comesUp, Bool.or_eq_true, Bool.and_eq_true, decide_eq_true_eq] at hword ⊢
  rcases hword with hone | ⟨hpos, hunit⟩
  · exact .inl (Scalar.le_trans hone h)
  · exact .inr ⟨Scalar.lt_of_lt_of_le hpos h, Scalar.lt_of_lt_of_le hunit h⟩

/-- The layers whose coins come up in the `k`-th fold of a stream from which every fold takes one
coin for each of its layers. -/
def coins (seed : Seed) (chance : Scalar) (layers k : Nat) : List Nat :=
  (List.range layers).filter fun n => flip seed chance (k * layers + n)

theorem coins_of_one_le (h : 1 ≤ chance) (layers k : Nat) :
    coins seed chance layers k = List.range layers :=
  List.filter_eq_self.2 fun _ _ => comesUp_of_one_le h

theorem coins_of_never (h : chance ≤ 0 ∨ chance.isNaN = true) (layers k : Nat) :
    coins seed chance layers k = [] := by
  refine List.filter_eq_nil_iff.2 fun n _ => ?_
  rw [flip, Bool.not_eq_true]
  exact h.elim not_comesUp_of_le_zero not_comesUp_of_isNaN

theorem coins_mono (h : chance ≤ chance') (layers k : Nat) :
    coins seed chance layers k ⊆ coins seed chance' layers k := by
  intro n hn
  obtain ⟨hn, hup⟩ := List.mem_filter.1 hn
  exact List.mem_filter.2 ⟨hn, comesUp_mono h hup⟩

end Random

/-- What stands at some places of a row, empty places left out. -/
def presentAt {α : Type} (row : List (Option α)) (places : List Nat) : List α :=
  places.filterMap fun n => row[n]?.join

/-- The layers whose coins come up are the first, if its coin does, and those of the rest. -/
theorem presentAt_filter_cons {α : Type} (layer : Option α) (rest : List (Option α))
    (flip : Nat → Bool) (n : Nat) :
    presentAt (layer :: rest) ((List.range (rest.length + 1)).filter fun m => flip (n + m)) =
      (if flip n then layer.toList else []) ++
        presentAt rest ((List.range rest.length).filter fun m => flip (n + 1 + m)) := by
  have later : (fun m => flip (n + (m + 1))) = fun m => flip (n + 1 + m) := by
    funext m
    rw [Nat.add_assoc n 1 m, Nat.add_comm 1 m]
  rw [List.range_succ_eq_map, presentAt, presentAt, ← later, List.filter_cons, List.filter_map]
  cases hn : flip n <;> cases layer <;> simp [List.filterMap_map, Function.comp_def]

theorem mem_of_mem_presentAt {α : Type} {row : List (Option α)} {places : List Nat} {x : α}
    (h : x ∈ presentAt row places) : some x ∈ row := by
  obtain ⟨n, _, hn⟩ := List.mem_filterMap.1 h
  exact List.mem_of_getElem? (Option.join_eq_some_iff.1 hn)

namespace Supplier

/-- Pulls some suppliers one after the other. -/
def pullAll {s : Signal} : List (Supplier s) → Store → List s.Carrier × Store
  | [], st => ([], st)
  | x :: rest, st =>
    let (v, st) := x.get st
    let (vs, st) := pullAll rest st
    (v :: vs, st)

theorem sameAt_pullAll {s : Signal} {xs : List (Supplier s)} {c : Cell}
    (h : ∀ x ∈ xs, ∀ y, HasPart ⟨x⟩ y → y.supplier.cell? ≠ some c) (st : Store) :
    SameAt c st (pullAll xs st).2 := by
  induction xs generalizing st with
  | nil => exact SameAt.refl c st
  | cons x rest ih =>
    have hx := ((x.worksFor .refl).get st).sameAt (h x List.mem_cons_self)
    exact hx.trans (ih (fun y hy => h y (List.mem_cons_of_mem x hy)) _)

end Supplier

namespace Slots

@[simp] theorem length_toList {s : Signal} (slots : Slots s) :
    slots.toList.length = slots.length := by
  match slots with
  | .nil => rfl
  | .hole rest | .cons _ rest => simp [toList, length, length_toList rest]

/-- A fold pulls the layers whose coins come up, and no others, in the order of their slots. -/
theorem fold_eq_foldl (operation : Operation) (flip : Nat → Bool) (slots : Slots .number)
    (n : Nat) (acc : Scalar) (st : Store) :
    slots.fold operation flip n acc st =
      let pulled := Supplier.pullAll (presentAt slots.toList
        ((List.range slots.length).filter fun m => flip (n + m))) st
      (pulled.1.foldl operation.apply acc, pulled.2) := by
  match slots with
  | .nil => rw [fold]; rfl
  | .hole rest =>
    rw [fold, fold_eq_foldl operation flip rest, toList, length, ← length_toList,
      presentAt_filter_cons, Option.toList_none, ite_self, List.nil_append]
  | .cons layer rest =>
    rw [fold, toList, length, ← length_toList, presentAt_filter_cons]
    cases flip n with
    | true => simp [fold_eq_foldl operation flip rest, Supplier.pullAll]
    | false => simp [fold_eq_foldl operation flip rest]

end Slots

namespace Grid

/-- A fold of grids goes over the layers whose coins come up, and no others. -/
theorem foldLayers_eq_foldl (operation : Operation) (flip : Nat → Bool)
    (row : List (Option ValueGrid)) (n : Nat) (acc : ValueGrid) :
    foldLayers operation flip row n acc =
      (presentAt row ((List.range row.length).filter fun m => flip (n + m))).foldl
        (combine operation) acc := by
  induction row generalizing n acc with
  | nil => rfl
  | cons layer rest ih =>
    rw [List.length_cons, presentAt_filter_cons]
    cases layer with
    | none => rw [foldLayers, ih, Option.toList_none, ite_self, List.nil_append]
    | some layer => cases hn : flip n <;> simp [foldLayers, ih, hn]

/-- The single fold of a row of grids takes the coins of a first pull. -/
theorem foldSlots_eq_foldl (operation : Operation) (chance : Scalar) (seed : Seed)
    (slots : List (Option ValueGrid)) :
    foldSlots operation chance seed slots =
      (presentAt slots.tail (Random.coins seed chance (slots.length - 1) 0)).foldl
        (combine operation) (slots.head?.join.getD (const operation.neutral)) := by
  cases slots with
  | nil => rfl
  | cons base layers =>
    rw [foldSlots, foldLayers_eq_foldl, Random.coins]
    simp

end Grid

namespace Slots

/-- Where a fold starts: the value of the base, or the neutral number where that is empty. -/
def start (operation : Operation) : Slots .number → Store → Scalar × Store
  | .cons base _, st => base.get st
  | .hole _, st | .nil, st => (operation.neutral, st)

/-- No layer looks at how many coins were taken, so a fold that has taken its coins goes on as if
none had been. -/
theorem fold_moved (operation : Operation) (flip : Nat → Bool) {layers : Slots .number}
    {cell : Cell}
    (own : layers.All fun x => ∀ y, HasPart ⟨x⟩ y → y.supplier.cell? ≠ some cell)
    (n k : Nat) (acc : Scalar) (st : Store) :
    let pulled := Supplier.pullAll (presentAt layers.toList
      ((List.range layers.length).filter fun m => flip (n + m))) st
    let folded := layers.fold operation flip n acc (st.move cell k)
    folded.1 = pulled.1.foldl operation.apply acc ∧ SameOn (· ≠ cell) pulled.2 folded.2 ∧
      folded.2.position cell = k := by
  have sees : layers.All (Supplier.Sees (· ≠ cell)) := fun x hx =>
    x.sees fun y _ hy hc heq => own x hx y hy (heq ▸ hc)
  obtain ⟨hvalue, hstore⟩ :=
    fold_sees operation flip sees n acc (sameOn_move st k fun hne => hne rfl)
  rw [fold_eq_foldl operation flip layers n acc st] at hvalue hstore
  refine ⟨hvalue, hstore, ?_⟩
  have hpulled := Supplier.sameAt_pullAll
    (fun x (hx : x ∈ presentAt layers.toList ((List.range layers.length).filter fun m =>
      flip (n + m))) => own x (mem_of_mem_presentAt hx)) (st.move cell k)
  rw [fold_eq_foldl, hpulled.position, position_move_self]

end Slots

namespace Supplier
variable {slots : Slots .number} {cell : Cell} {k : Nat} {st : Store}

/-- How often a fold has been pulled since it was made or last reset. In between, anything may
happen to the store that leaves the cell of the fold as it is. -/
inductive Pulled (fold : Supplier .number) (cell : Cell) : Nat → Store → Prop
  | fresh {st : Store} (h : st.position cell = 0) : Pulled fold cell 0 st
  | reset (st : Store) : Pulled fold cell 0 (fold.reset st)
  | pull {k : Nat} {st : Store} (h : Pulled fold cell k st) :
      Pulled fold cell (k + 1) (fold.get st).2
  | elsewhere {k : Nat} {st st' : Store} (h : Pulled fold cell k st) (hst : SameAt cell st st') :
      Pulled fold cell k st'

/-- A pull folds the layers whose coins come up, and takes one coin for each layer, empty or not
and whether it comes up or not. -/
theorem get_operated_layers (operation : Operation) (chance : Scalar) (seed : Seed)
    (own : slots.All fun x => ∀ y, HasPart ⟨x⟩ y → y.supplier.cell? ≠ some cell) (st : Store) :
    let start := slots.start operation st
    let pulled := pullAll (presentAt slots.toList.tail ((List.range (slots.length - 1)).filter
      fun m => Random.flip seed chance (st.position cell + m))) start.2
    let got := (operated operation slots chance seed cell).get st
    got.1 = pulled.1.foldl operation.apply start.1 ∧ SameOn (· ≠ cell) pulled.2 got.2 ∧
      got.2.position cell = st.position cell + (slots.length - 1) := by
  match slots with
  | .nil =>
    simp only [get]
    exact ⟨rfl, fun c _ => SameAt.refl c st, rfl⟩
  | .hole layers =>
    simp only [get]
    exact Slots.fold_moved operation _ ((Slots.all_hole _ _).1 own) _ _ _ _
  | .cons base layers =>
    obtain ⟨hbase, hlayers⟩ := (Slots.all_cons _ _ _).1 own
    simp only [get, (((base.worksFor .refl).get st).sameAt hbase).position]
    exact Slots.fold_moved operation _ hlayers _ _ _ _

/-- The coins of the `k`-th pull since a reset stand behind those of `k` pulls. -/
theorem Pulled.position {operation : Operation} {chance : Scalar} {seed : Seed}
    (own : slots.All fun x => ∀ y, HasPart ⟨x⟩ y → y.supplier.cell? ≠ some cell)
    (h : Pulled (operated operation slots chance seed cell) cell k st) :
    st.position cell = k * (slots.length - 1) := by
  induction h with
  | fresh h => simpa using h
  | reset st =>
    rw [Supplier.reset, (Slots.sameAt_reset own _).position, position_move_self, Nat.zero_mul]
  | pull _ ih => rw [(get_operated_layers operation chance seed own _).2.2, ih, Nat.succ_mul]
  | elsewhere _ hst ih => rw [hst.position, ih]

/-- For every seed and every `k`, the layers that take part in the `k`-th pull of a fold since it
was made or last reset are those of `Random.coins`, which has the seed, the chance, the number of
layers and `k` to go by and nothing else. The pull yields the base, or the neutral number where the
base is empty, folded with what the layers among them that are not empty yield, in the order of
their slots, and pulls no others. A fold of grids takes part in the same way, as a first pull. All
layers take part for a chance of one or more, none for a chance that is not positive or not a
number, and a greater chance leaves none of them out. -/
theorem coins_positional (seed : Seed) (k : Nat) :
    (∀ (operation : Operation) (slots : Slots .number) (chance : Scalar) (cell : Cell) (st : Store),
      (slots.All fun x => ∀ y, HasPart ⟨x⟩ y → y.supplier.cell? ≠ some cell) →
      Pulled (operated operation slots chance seed cell) cell k st →
      let start := slots.start operation st
      let pulled := pullAll (presentAt slots.toList.tail
        (Random.coins seed chance (slots.length - 1) k)) start.2
      let got := (operated operation slots chance seed cell).get st
      got.1 = pulled.1.foldl operation.apply start.1 ∧ SameOn (· ≠ cell) pulled.2 got.2) ∧
    (∀ (operation : Operation) (slots : List (Option ValueGrid)) (chance : Scalar),
      Grid.foldSlots operation chance seed slots =
        (presentAt slots.tail (Random.coins seed chance (slots.length - 1) 0)).foldl
          (Grid.combine operation) (slots.head?.join.getD (.const operation.neutral))) ∧
    (∀ (chance : Scalar) (layers : Nat), 1 ≤ chance →
      Random.coins seed chance layers k = List.range layers) ∧
    (∀ (chance : Scalar) (layers : Nat), chance ≤ 0 ∨ chance.isNaN = true →
      Random.coins seed chance layers k = []) ∧
    ∀ (chance chance' : Scalar) (layers : Nat), chance ≤ chance' →
      Random.coins seed chance layers k ⊆ Random.coins seed chance' layers k := by
  refine ⟨?_, fun operation slots chance => Grid.foldSlots_eq_foldl operation chance seed slots,
    fun _ layers h => Random.coins_of_one_le h layers k,
    fun _ layers h => Random.coins_of_never h layers k,
    fun _ _ layers h => Random.coins_mono h layers k⟩
  intro operation slots chance cell st own hpulled
  obtain ⟨hvalue, hstore, _⟩ := get_operated_layers operation chance seed own st
  rw [hpulled.position own] at hvalue hstore
  exact ⟨hvalue, hstore⟩

/-- A number, an empty layer, a number drawn afresh, and another number. -/
def drizzle : Slots .number :=
  .cons (.const 1) (.hole (.cons (.random 0 1 7 0) (.cons (.const 4) .nil)))

theorem drizzle_own : drizzle.All fun x => ∀ y, HasPart ⟨x⟩ y → y.supplier.cell? ≠ some 1 := by
  intro x hx y hy
  obtain rfl | ⟨z, hz, _⟩ := hy.cases_head
  · simp only [drizzle, Slots.toList, List.mem_cons, List.not_mem_nil, Option.some.injEq,
      reduceCtorEq, or_false, false_or] at hx
    rcases hx with rfl | rfl | rfl <;> simp [cell?]
  · simp only [drizzle, Slots.toList, List.mem_cons, List.not_mem_nil, Option.some.injEq,
      reduceCtorEq, or_false, false_or] at hx
    rcases hx with rfl | rfl | rfl <;> cases hz

/-- The second pull of the drizzle, whose layers all take part by their coins, is its base and its
two layers in order. It has them all for a chance of two as well, and none for a negative one. -/
theorem coins_positional_drizzle :
    let fold := operated .add drizzle 0.5 3 1
    let once := (fold.get {}).2
    (fold.get once).1 =
      (pullAll [.random 0 1 7 0, .const 4] once).1.foldl Operation.add.apply (1 : Scalar) ∧
    Random.coins 3 2 3 1 = List.range 3 ∧ Random.coins 3 (-1) 3 1 = [] ∧
    Random.coins 3 0.25 3 1 ⊆ Random.coins 3 0.5 3 1 := by
  obtain ⟨pulls, _, all, none, mono⟩ := coins_positional 3 1
  have fresh : ({} : Store).position 1 = 0 := by simp [Store.position]
  have hcoins : Random.coins 3 0.5 (drizzle.length - 1) 1 = [0, 1, 2] := by decide +kernel
  obtain ⟨hvalue, _⟩ := pulls .add drizzle 0.5 1 _ drizzle_own (.pull (.fresh fresh))
  have start (st : Store) : drizzle.start .add st = ((1 : Scalar), st) := by
    simp only [drizzle, Slots.start, get]
  rw [hcoins, start] at hvalue
  exact ⟨hvalue, all 2 3 (by decide +kernel), none (-1) 3 (.inl (by decide +kernel)),
    mono 0.25 0.5 3 (by decide +kernel)⟩

end Supplier
end Terrain
