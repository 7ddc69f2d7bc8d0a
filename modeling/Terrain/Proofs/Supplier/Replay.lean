import Terrain.Proofs.Supplier.Parts

/-! A reset makes a supplier start again, also where its parts are shared with others: whatever was
pulled and reset before, the same values come after it. The two stores that are compared need not
be equal, since a pull reaches some parts only and a reset rewinds a host and no more; what counts
is that the states of all parts are alike in them. -/
namespace Terrain

open Relation Store AnySupplier

namespace Host
variable {α : Type} {h : Host α} {n m : Nat}

/-- The states that pulls and resets lead to. -/
inductive Comes (h : Host α) : Nat → Prop
  | start : Comes h 0
  | next {n : Nat} (hn : Comes h n) : Comes h (h.next n).2
  | rewind {n : Nat} (hn : Comes h n) : Comes h (h.rewind n)

/-- The value of a pull after some others. -/
def nth (h : Host α) (n : Nat) : Nat → α
  | 0 => (h.next n).1
  | k + 1 => h.nth (h.next n).2 k

/-- From two states the same values are pulled. -/
def Like (h : Host α) (n m : Nat) : Prop := ∀ k, h.nth n k = h.nth m k

/-- The contract of a reset: whatever was pulled before, the same values come after it. -/
def Replays (h : Host α) : Prop :=
  ∀ n m, h.Comes n → h.Comes m → h.Like (h.rewind n) (h.rewind m)

theorem Like.value (hl : h.Like n m) : (h.next n).1 = (h.next m).1 := hl 0

theorem Like.next (hl : h.Like n m) : h.Like (h.next n).2 (h.next m).2 := fun k => hl (k + 1)

end Host

namespace AnySupplier

/-- The own states of a supplier are alike in two stores. -/
def Alike (st st' : Store) (x : AnySupplier) : Prop :=
  match x with
  | ⟨.host h c⟩ => h.Like (st.position c) (st'.position c)
  | ⟨.random _ _ _ c⟩ => st.position c = st'.position c
  | ⟨.operated _ _ _ _ c⟩ => st.position c = st'.position c
  | @mk s (.cached _ c) => st.recalled s c = st'.recalled s c
  | ⟨.const _⟩ | ⟨.selected _ _ _⟩ | ⟨.map _ _⟩ => True

/-- A supplier keeps its own state from one store to another. -/
def Keeps (st st' : Store) (x : AnySupplier) : Prop :=
  ∀ c, x.supplier.cell? = some c → SameAt c st st'

theorem Alike.of_keeps {x : AnySupplier} {st st' st₁ st₁' : Store} (h : x.Alike st st')
    (hs : x.Keeps st st₁) (hs' : x.Keeps st' st₁') : x.Alike st₁ st₁' := by
  obtain ⟨x⟩ := x
  cases x with
  | const v => trivial
  | selected axis thresholds options => trivial
  | map inner f => trivial
  | host h c | random lo hi seed c | operated operation slots chance seed c =>
    simp only [Alike, (hs c rfl).position, (hs' c rfl).position]
    exact h
  | cached inner c =>
    simp only [Alike, (hs c rfl).recalled, (hs' c rfl).recalled]
    exact h

end AnySupplier

/-- The own states of some suppliers are alike in two stores. -/
def Store.AlikeOn (part : AnySupplier → Prop) (st st' : Store) : Prop :=
  ∀ y, part y → y.Alike st st'

/-- The hosts among some suppliers are in states that pulls and resets lead to. -/
def Store.Attained (held : AnySupplier → Prop) (st : Store) : Prop :=
  ∀ (s : Signal) (h : Host s.Carrier) (c : Cell), held ⟨.host h c⟩ → h.Comes (st.position c)

/-- Suppliers with all that they draw on. Each keeps its state in a cell of its own, so that one
which several others draw on is the same to all of them, and those that the host provides obey the
contract of a reset. -/
structure Collection (held : AnySupplier → Prop) : Prop where
  closed : ∀ x y, held x → x.DrawsOn y → held y
  alone : ∀ x y c, held x → held y → x.supplier.cell? = some c → y.supplier.cell? = some c → x = y
  obeys : ∀ (s : Signal) (h : Host s.Carrier) (c : Cell), held ⟨.host h c⟩ → h.Replays

namespace Collection
variable {held part : AnySupplier → Prop} (hc : Collection held) {x y root : AnySupplier}
  {st st' st₁ st₁' : Store}
include hc

theorem hasPart (hx : held x) (h : x.HasPart y) : held y := by
  induction h with
  | refl => exact hx
  | tail _ h ih => exact hc.closed _ _ ih h

/-- A supplier that changes its own state changes that of no other. -/
theorem keeps (hx : held x) (hy : held y) (hne : y ≠ x) (h : st.Stirs x st') :
    y.Keeps st st' := by
  intro c hcell
  refine h.sameAt fun hcell' => hne ?_
  exact hc.alone y x c hy hx hcell hcell'

/-- What the parts of a supplier do changes the state of no other. -/
theorem keeps_works (hx : held x) (hy : held y) (hpart : ¬ x.HasPart y) (h : Works x st st') :
    y.Keeps st st' := by
  intro c hcell
  refine h.sameAt fun z hz hcell' => hpart ?_
  rwa [hc.alone y z c hy (hc.hasPart hx hz) hcell hcell']

theorem attained_stirs (hx : held x) (h : st.Stirs x st') (hst : st.Attained held) :
    st'.Attained held := by
  intro s k c hk
  by_cases heq : ⟨.host k c⟩ = x
  · subst heq
    cases h with
    | advance => simpa using (hst s k c hk).next
    | rewind => simpa using (hst s k c hk).rewind
  · rw [(hc.keeps hx hk heq h c rfl).position]
    exact hst s k c hk

theorem attained_works (hx : held root) (h : Works root st st') (hst : st.Attained held) :
    st'.Attained held := by
  induction h with
  | refl => exact hst
  | tail _ h ih =>
    obtain ⟨y, hy, h⟩ := h
    exact hc.attained_stirs (hc.hasPart hx hy) h ih

theorem attained_touches (h : Touches held {} st) : st.Attained held := by
  induction h with
  | refl => exact fun _ _ _ _ => by simpa [Store.position] using Host.Comes.start
  | tail _ h ih =>
    cases h with
    | @pull x hx => exact hc.attained_works hx ((x.supplier.worksFor .refl).get _) ih
    | @reset x hx => exact hc.attained_works hx ((x.supplier.worksFor .refl).reset _) ih

/-- Where a supplier changes its own state in two stores so that it is alike after that, all those
that were alike still are. -/
theorem alike_stirs (hpart : ∀ y, part y → held y) (hx : held x) (h : AlikeOn part st st')
    (hs : st.Stirs x st₁) (hs' : st'.Stirs x st₁') (hown : x.Alike st₁ st₁') :
    AlikeOn (fun y => part y ∨ y = x) st₁ st₁' := by
  intro y hy
  by_cases heq : y = x
  · exact heq ▸ hown
  · have hy := hy.resolve_right heq
    exact (h y hy).of_keeps (hc.keeps hx (hpart y hy) heq hs) (hc.keeps hx (hpart y hy) heq hs')

end Collection

/-- The same value is pulled from two stores in which some suppliers are alike, and these go on to
be alike. -/
def Supplier.InStep (part : AnySupplier → Prop) {s : Signal} (x : Supplier s) : Prop :=
  ∀ st st', AlikeOn part st st' →
    (x.get st).1 = (x.get st').1 ∧ AlikeOn part (x.get st).2 (x.get st').2

/-- A reset in two stores makes all parts alike in them, and leaves alike what was. -/
def Supplier.Aligns (held : AnySupplier → Prop) {s : Signal} (x : Supplier s) : Prop :=
  ∀ (part : AnySupplier → Prop) (st st' : Store), (∀ y, part y → held y) → st.Attained held →
    st'.Attained held → AlikeOn part st st' →
      AlikeOn (fun y => part y ∨ HasPart ⟨x⟩ y) (x.reset st) (x.reset st')

namespace Slots
variable {held part : AnySupplier → Prop} {s : Signal}

theorem fold_inStep {slots : Slots .number} (operation : Operation) (flip : Nat → Bool)
    (h : slots.All (Supplier.InStep part)) (n : Nat) (acc : Scalar) {st st' : Store}
    (hst : AlikeOn part st st') :
    (slots.fold operation flip n acc st).1 = (slots.fold operation flip n acc st').1 ∧
      AlikeOn part (slots.fold operation flip n acc st).2
        (slots.fold operation flip n acc st').2 := by
  match slots with
  | .nil =>
    simp only [fold]
    exact ⟨trivial, hst⟩
  | .hole rest =>
    simp only [fold]
    exact fold_inStep operation flip ((all_hole _ _).1 h) (n + 1) acc hst
  | .cons layer rest =>
    obtain ⟨hlayer, hrest⟩ := (all_cons _ _ _).1 h
    simp only [fold]
    split
    · obtain ⟨hv, hst⟩ := hlayer st st' hst
      rw [hv]
      exact fold_inStep operation flip hrest (n + 1) _ hst
    · exact fold_inStep operation flip hrest (n + 1) acc hst

theorem pick_inStep {slots : Slots s} (h : slots.All (Supplier.InStep part)) (i : Nat)
    {st st' : Store} (hst : AlikeOn part st st') :
    (slots.pick i st).1 = (slots.pick i st').1 ∧
      AlikeOn part (slots.pick i st).2 (slots.pick i st').2 := by
  match slots, i with
  | .nil, _ | .hole _, 0 =>
    simp only [pick]
    exact ⟨trivial, hst⟩
  | .cons head rest, 0 =>
    simp only [pick]
    exact ((all_cons _ _ _).1 h).1 st st' hst
  | .hole rest, i + 1 =>
    simp only [pick]
    exact pick_inStep ((all_hole _ _).1 h) i hst
  | .cons head rest, i + 1 =>
    simp only [pick]
    exact pick_inStep ((all_cons _ _ _).1 h).2 i hst

/-- A row is reset from its head on, and what one slot has made alike the next ones leave so. -/
theorem reset_aligns (hc : Collection held) {slots : Slots s}
    (h : slots.All (Supplier.Aligns held)) (hheld : slots.All fun x => held ⟨x⟩)
    (part : AnySupplier → Prop) (hpart : ∀ y, part y → held y) {st st' : Store}
    (ha : st.Attained held) (ha' : st'.Attained held) (hst : AlikeOn part st st') :
    AlikeOn (fun y => part y ∨ ∃ x, some x ∈ slots.toList ∧ HasPart ⟨x⟩ y)
      (slots.reset st) (slots.reset st') := by
  match slots with
  | .nil =>
    rintro y (hy | ⟨_, hx, _⟩)
    · simpa only [reset] using hst y hy
    · exact absurd hx List.not_mem_nil
  | .hole rest =>
    have hrest :=
      reset_aligns hc ((all_hole _ _).1 h) ((all_hole _ _).1 hheld) part hpart ha ha' hst
    simpa [reset, toList] using hrest
  | .cons head rest =>
    obtain ⟨hhead, hrest⟩ := (all_cons _ _ _).1 h
    obtain ⟨hx, hheld⟩ := (all_cons _ _ _).1 hheld
    have hworks := fun st => (head.worksFor .refl).reset st
    have hrest := reset_aligns hc hrest hheld (fun y => part y ∨ HasPart ⟨head⟩ y)
      (fun y hy => hy.elim (hpart y) (hc.hasPart hx)) (hc.attained_works hx (hworks st) ha)
      (hc.attained_works hx (hworks st') ha') (hhead part st st' hpart ha ha' hst)
    intro y hy
    rw [reset]
    refine hrest y ?_
    rcases hy with hy | ⟨x, hx, hy⟩
    · exact .inl (.inl hy)
    · rcases List.mem_cons.1 hx with heq | hx
      · cases heq
        exact .inl (.inr hy)
      · exact .inr ⟨x, hx, hy⟩

end Slots

namespace Collection
variable {held part : AnySupplier → Prop} (hc : Collection held) {s : Signal}
include hc

/-- Where all parts of a supplier are alike in two stores, it is pulled from both in step. -/
theorem inStep (hpart : ∀ y, part y → held y) (x : Supplier s)
    (hx : ∀ y, HasPart ⟨x⟩ y → part y) : x.InStep part := by
  -- A supplier that is among the alike ones moves its own state on in both stores.
  have stir : ∀ {y : AnySupplier} {st st' st₁ st₁' : Store}, part y → AlikeOn part st st' →
      st.Stirs y st₁ → st'.Stirs y st₁' → y.Alike st₁ st₁' → AlikeOn part st₁ st₁' :=
    fun hy hst hs hs' h z hz => hc.alike_stirs hpart (hpart _ hy) hst hs hs' h z (.inl hz)
  induction x using Supplier.tree_induction with
  | const v =>
    intro st st' hst
    simp only [Supplier.get]
    exact ⟨trivial, hst⟩
  | host h cell =>
    intro st st' hst
    have hown : h.Like (st.position cell) (st'.position cell) := hst _ (hx _ .refl)
    simp only [Supplier.get]
    refine ⟨hown.value, stir (hx _ .refl) hst (.advance h cell) (.advance h cell) ?_⟩
    simpa [Alike] using hown.next
  | random lo hi seed cell =>
    intro st st' hst
    have hown : st.position cell = st'.position cell := hst _ (hx _ .refl)
    simp only [Supplier.get, hown]
    refine ⟨trivial, stir (hx _ .refl) hst (.draw lo hi seed cell _) (.draw lo hi seed cell _) ?_⟩
    simp [Alike]
  | @cached s inner cell ih =>
    intro st st' hst
    have hown : st.recalled s cell = st'.recalled s cell := hst _ (hx _ .refl)
    simp only [Supplier.get, ← hown]
    cases st.recalled s cell with
    | some v => exact ⟨rfl, hst⟩
    | none =>
      obtain ⟨hv, hst⟩ := ih (fun y hy => hx y (.head (.cached inner cell) hy)) st st' hst
      refine ⟨hv, stir (hx _ .refl) hst (.remember inner cell _) (.remember inner cell _) ?_⟩
      simp [Alike, hv]
  | operated operation slots chance seed cell ih =>
    have hslots : slots.All (Supplier.InStep part) :=
      fun x h => ih x h fun y hy => hx y (.head (.slot h) hy)
    have hown : ∀ {st st'}, AlikeOn part st st' → st.position cell = st'.position cell :=
      fun hst => hst _ (hx _ .refl)
    have moved : ∀ {st st'} (k : Nat), AlikeOn part st st' →
        AlikeOn part (st.move cell k) (st'.move cell k) := by
      intro st st' k hst
      refine stir (hx _ .refl) hst (.flip operation slots chance seed cell k)
        (.flip operation slots chance seed cell k) ?_
      simp [Alike]
    intro st st' hst
    cases slots with
    | nil =>
      simp only [Supplier.get]
      exact ⟨trivial, hst⟩
    | hole layers =>
      simp only [Supplier.get, hown hst]
      exact Slots.fold_inStep operation _ ((Slots.all_hole _ _).1 hslots) _ _ (moved _ hst)
    | cons base layers =>
      obtain ⟨hbase, hlayers⟩ := (Slots.all_cons _ _ _).1 hslots
      obtain ⟨hv, hst⟩ := hbase st st' hst
      simp only [Supplier.get, hv, hown hst]
      exact Slots.fold_inStep operation _ hlayers _ _ (moved _ hst)
  | selected axis thresholds options iha ih =>
    intro st st' hst
    obtain ⟨hv, hst⟩ := iha (fun y hy => hx y (.head (.axis axis thresholds options) hy)) st st' hst
    simp only [Supplier.get, hv]
    cases selectIndex (axis.get st').1 thresholds options.length with
    | none => exact ⟨rfl, hst⟩
    | some i =>
      exact Slots.pick_inStep (fun x h => ih x h fun y hy => hx y (.head (.option h) hy)) i hst
  | map inner f ih =>
    intro st st' hst
    obtain ⟨hv, hst⟩ := ih (fun y hy => hx y (.head (.map inner f) hy)) st st' hst
    simp only [Supplier.get, hv]
    exact ⟨trivial, hst⟩

/-- A reset reaches all parts of a supplier, those too that no pull has reached. -/
theorem aligns (x : Supplier s) (hx : held ⟨x⟩) : x.Aligns held := by
  induction x using Supplier.tree_induction with
  | const v =>
    intro part st st' hpart ha ha' hst y hy
    simp only [Supplier.reset]
    rcases hy with hy | hy
    · exact hst y hy
    · obtain rfl | ⟨_, h, _⟩ := hy.cases_head
      · trivial
      · cases h
  | host h cell =>
    intro part st st' hpart ha ha' hst y hy
    simp only [Supplier.reset]
    refine hc.alike_stirs hpart hx hst (.rewind h cell) (.rewind h cell) ?_ y
      (hy.imp_right fun hy => ?_)
    · simpa [Alike] using hc.obeys _ h cell hx _ _ (ha _ h cell hx) (ha' _ h cell hx)
    · obtain rfl | ⟨_, h, _⟩ := hy.cases_head
      · rfl
      · cases h
  | random lo hi seed cell =>
    intro part st st' hpart ha ha' hst y hy
    simp only [Supplier.reset]
    refine hc.alike_stirs hpart hx hst (.draw lo hi seed cell 0) (.draw lo hi seed cell 0) ?_ y
      (hy.imp_right fun hy => ?_)
    · simp [Alike]
    · obtain rfl | ⟨_, h, _⟩ := hy.cases_head
      · rfl
      · cases h
  | @cached s inner cell ih =>
    intro part st st' hpart ha ha' hst y hy
    have hinner : held ⟨inner⟩ := hc.closed _ _ hx (.cached inner cell)
    simp only [Supplier.reset]
    refine hc.alike_stirs (fun z hz => hz.elim (hpart z) (hc.hasPart hinner)) hx
      (ih hinner part st st' hpart ha ha' hst) (.forget inner cell) (.forget inner cell) ?_ y ?_
    · simp [Alike]
    · rcases hy with hy | hy
      · exact .inl (.inl hy)
      · obtain rfl | ⟨_, h, hy⟩ := hy.cases_head
        · exact .inr rfl
        · cases h
          exact .inl (.inr hy)
  | operated operation slots chance seed cell ih =>
    intro part st st' hpart ha ha' hst y hy
    have hslots : slots.All fun x => held ⟨x⟩ := fun x h => hc.closed _ _ hx (.slot h)
    have hflip : ∀ st : Store,
        st.Stirs ⟨.operated operation slots chance seed cell⟩ (st.move cell 0) := fun st => .flip ..
    simp only [Supplier.reset]
    refine Slots.reset_aligns hc (fun x h => ih x h (hslots x h)) hslots
      (fun z => part z ∨ z = ⟨.operated operation slots chance seed cell⟩)
      (fun z hz => hz.elim (hpart z) fun h => h ▸ hx)
      (hc.attained_stirs hx (hflip st) ha) (hc.attained_stirs hx (hflip st') ha')
      (hc.alike_stirs hpart hx hst (hflip st) (hflip st') ?_) y ?_
    · simp [Alike]
    · rcases hy with hy | hy
      · exact .inl (.inl hy)
      · obtain rfl | ⟨_, h, hy⟩ := hy.cases_head
        · exact .inl (.inr rfl)
        · cases h with
          | slot h => exact .inr ⟨_, h, hy⟩
  | selected axis thresholds options iha ih =>
    intro part st st' hpart ha ha' hst y hy
    have haxis : held ⟨axis⟩ := hc.closed _ _ hx (.axis axis thresholds options)
    have hoptions : options.All fun x => held ⟨x⟩ := fun x h => hc.closed _ _ hx (.option h)
    have hworks := fun st => (axis.worksFor .refl).reset st
    have hall := Slots.reset_aligns hc (fun x h => ih x h (hoptions x h)) hoptions
      (fun z => part z ∨ HasPart ⟨axis⟩ z) (fun z hz => hz.elim (hpart z) (hc.hasPart haxis))
      (hc.attained_works haxis (hworks st) ha) (hc.attained_works haxis (hworks st') ha')
      (iha haxis part st st' hpart ha ha' hst)
    simp only [Supplier.reset]
    rcases hy with hy | hy
    · exact hall y (.inl (.inl hy))
    · obtain rfl | ⟨_, h, hy⟩ := hy.cases_head
      · trivial
      · cases h with
        | axis => exact hall y (.inl (.inr hy))
        | option h => exact hall y (.inr ⟨_, h, hy⟩)
  | map inner f ih =>
    intro part st st' hpart ha ha' hst y hy
    have hall := ih (hc.closed _ _ hx (.map inner f)) part st st' hpart ha ha' hst
    simp only [Supplier.reset]
    rcases hy with hy | hy
    · exact hall y (.inl hy)
    · obtain rfl | ⟨_, h, hy⟩ := hy.cases_head
      · trivial
      · cases h
        exact hall y (.inr hy)

end Collection

/-- Pulls a supplier some number of times. -/
def Supplier.take {s : Signal} (x : Supplier s) : Nat → Store → List s.Carrier × Store
  | 0, st => ([], st)
  | n + 1, st =>
    let (v, st) := x.get st
    let (vs, st) := x.take n st
    (v :: vs, st)

theorem Supplier.InStep.take {part : AnySupplier → Prop} {s : Signal} {x : Supplier s}
    (h : x.InStep part) (n : Nat) {st st' : Store} (hst : AlikeOn part st st') :
    (x.take n st).1 = (x.take n st').1 := by
  induction n generalizing st st' with
  | zero => rfl
  | succ n ih =>
    obtain ⟨hv, hst⟩ := h st st' hst
    simp only [Supplier.take, hv, ih hst]

/-- From any two states that a collection has come to, a supplier that is reset yields the same
values, however many are pulled, and neither a reset nor a pull of it changes the state of a
supplier that is no part of it. -/
theorem Collection.reset_replays {held : AnySupplier → Prop} (hc : Collection held) {s : Signal}
    {x : Supplier s} (hx : held ⟨x⟩) {st st' : Store} (h : Touches held {} st)
    (h' : Touches held {} st') :
    (∀ n, (x.take n (x.reset st)).1 = (x.take n (x.reset st')).1) ∧
      ∀ y, held y → ¬ HasPart ⟨x⟩ y → y.Keeps st (x.reset st) ∧ y.Keeps st (x.get st).2 := by
  constructor
  · intro n
    have hparts : AlikeOn (HasPart ⟨x⟩) (x.reset st) (x.reset st') := fun y hy =>
      hc.aligns x hx (fun _ => False) st st' (fun _ => False.elim) (hc.attained_touches h)
        (hc.attained_touches h') (fun _ => False.elim) y (.inr hy)
    exact (hc.inStep (fun y hy => hc.hasPart hx hy) x fun _ hy => hy).take n hparts
  · intro y hy hpart
    have hworks := x.worksFor .refl
    exact ⟨hc.keeps_works hx hy hpart (hworks.reset st), hc.keeps_works hx hy hpart (hworks.get st)⟩

namespace Supplier

/-- A random draw that is remembered, and that a sum pulls both through the memory and past it. -/
def sharedDraw : Supplier .number := .random 0 1 5 0

/-- Numbers counted up from zero. -/
def sharedCount : Supplier .number :=
  .host ⟨fun n => (Scalar.ofCount n.toUInt64, n + 1), fun _ => 0⟩ 1

def sharedMemory : Supplier .number := .cached sharedDraw 2

def sharedSum : Supplier .number :=
  .operated .add (Slots.ofList [some sharedMemory, none, some sharedDraw, some sharedCount]) 0.5 7 3

/-- Picks the count, or else the sum, by what is remembered. -/
def sharedChoice : Supplier .number :=
  .selected sharedMemory [0.5] (Slots.ofList [some sharedCount, some sharedSum])

def sharedParts (x : AnySupplier) : Prop :=
  x ∈ [⟨sharedChoice⟩, ⟨sharedSum⟩, ⟨sharedMemory⟩, ⟨sharedCount⟩, (⟨sharedDraw⟩ : AnySupplier)]

theorem collection_sharedParts : Collection sharedParts where
  closed := by
    rintro x y hx h
    simp only [sharedParts, List.mem_cons, List.not_mem_nil, or_false] at hx
    obtain rfl | rfl | rfl | rfl | rfl := hx
    · cases h with
      | axis => simp [sharedParts]
      | option h =>
        rw [Slots.toList_ofList] at h
        simp at h
        obtain rfl | rfl := h <;> simp [sharedParts]
    · cases h with
      | slot h =>
        rw [Slots.toList_ofList] at h
        simp at h
        obtain rfl | rfl | rfl := h <;> simp [sharedParts]
    · cases h
      simp [sharedParts]
    · cases h
    · cases h
  alone := by
    rintro x y c hx hy hcx hcy
    simp only [sharedParts, List.mem_cons, List.not_mem_nil, or_false] at hx hy
    obtain rfl | rfl | rfl | rfl | rfl := hx <;> obtain rfl | rfl | rfl | rfl | rfl := hy <;>
      first | rfl | exact absurd (hcx.trans hcy.symm) (by decide)
  obeys := by
    intro s h c hx
    simp only [sharedParts, List.mem_cons, List.not_mem_nil, or_false] at hx
    obtain hx | hx | hx | hx | hx := hx <;> cases hx
    exact fun _ _ _ _ _ => rfl

/-- Pulling and resetting the choice is the same from a fresh store and from one in which the sum
and the draw below it were pulled and the sum was then reset; pulling the memory leaves the count
alone. -/
theorem sharedChoice_replays : ∃ st, Touches sharedParts {} st ∧
    (∀ n, (sharedChoice.take n (sharedChoice.reset {})).1 =
      (sharedChoice.take n (sharedChoice.reset st)).1) ∧
      AnySupplier.Keeps {} (sharedMemory.get {}).2 ⟨sharedCount⟩ := by
  have hsum : sharedParts ⟨sharedSum⟩ := by simp [sharedParts]
  have hdraw : sharedParts ⟨sharedDraw⟩ := by simp [sharedParts]
  have hchoice : sharedParts ⟨sharedChoice⟩ := by simp [sharedParts]
  have hmemory : sharedParts ⟨sharedMemory⟩ := by simp [sharedParts]
  have hcount : sharedParts ⟨sharedCount⟩ := by simp [sharedParts]
  have hpulled : Touches sharedParts {}
      (sharedSum.reset (sharedDraw.get (sharedSum.get {}).2).2) :=
    ((ReflTransGen.single (.pull hsum)).tail (.pull hdraw)).tail (.reset hsum)
  refine ⟨_, hpulled, (collection_sharedParts.reset_replays hchoice .refl hpulled).1, ?_⟩
  refine ((collection_sharedParts.reset_replays hmemory .refl .refl).2 _ hcount ?_).2
  intro hpart
  obtain h | ⟨_, h, hpart⟩ := hpart.cases_head
  · cases h
  · cases h
    obtain h | ⟨_, h, _⟩ := hpart.cases_head <;> cases h

end Supplier

end Terrain
