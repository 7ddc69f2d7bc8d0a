import Terrain.Proofs.Compile.Meaning
import Terrain.Proofs.Supplier.Steady

/-! Computations that compile nodes, against their specifications: a computation keeps to the
ledger, which may grow, and its outcome is the one specified. One rule for each way of building a
computation. -/
namespace Terrain

namespace Compile
variable {α β : Type}

def outcome (m : Compile α) (e : Effects) : Except GraphError α × Effects := m.run.run e

theorem outcome_bind (m : Compile α) (f : α → Compile β) (e : Effects) :
    (m >>= f).outcome e =
      match m.outcome e with
      | (.ok a, e) => (f a).outcome e
      | (.error x, e) => (.error x, e) := by
  simp only [outcome, ExceptT.run_bind, StateT.run_bind]
  rcases m.run.run e with ⟨a | x, e⟩ <;> rfl

@[simp] theorem outcome_newCell (e : Effects) :
    newCell.outcome e = (.ok e.store.fresh, { e with store := e.store.allocate.2 }) := rfl

@[simp] theorem outcome_cache {s : Signal} (x : Supplier s) (e : Effects) :
    (cache x).outcome e =
      (.ok (.cached x e.store.fresh), { e with store := e.store.allocate.2 }) := rfl

end Compile

namespace Scope
variable {α β γ δ : Type} {s : Scope} {Γ Γ' : Ledger}

/-- A result against the one specified; a failure is one of the scope's node. -/
def Agrees (s : Scope) (R : α → β → Prop) : Except GraphError α → Except CompileFault β → Prop
  | .ok a, .ok b => R a b
  | .error x, .error fault => x = .compileFailure s.node.id fault
  | _, _ => False

theorem Agrees.of_ok {R : α → β → Prop} {a : α} {spec : Except CompileFault β}
    (h : s.Agrees R (.ok a) spec) : ∃ b, spec = .ok b ∧ R a b := by
  cases spec with
  | ok b => exact ⟨b, rfl, h⟩
  | error fault => exact h.elim

theorem Agrees.of_error {R : α → β → Prop} {x : GraphError} {spec : Except CompileFault β}
    (h : s.Agrees R (.error x) spec) :
    ∃ fault, spec = .error fault ∧ x = .compileFailure s.node.id fault := by
  cases spec with
  | ok b => exact h.elim
  | error fault => exact ⟨fault, rfl, h⟩

theorem Agrees.mono {R Q : α → β → Prop} {x : Except GraphError α} {spec : Except CompileFault β}
    (h : s.Agrees R x spec) (hRQ : ∀ a b, R a b → Q a b) : s.Agrees Q x spec := by
  cases x with
  | ok a =>
    obtain ⟨b, rfl, hab⟩ := h.of_ok
    exact hRQ a b hab
  | error x =>
    obtain ⟨fault, rfl, hx⟩ := h.of_error
    exact hx

/-- From any store that keeps to the ledger, a computation comes to a result that agrees with the
one specified, and to a store that keeps to a larger ledger. -/
def Means (s : Scope) (Γ : Ledger) (m : Compile α) (R : Ledger → α → β → Prop)
    (spec : Except CompileFault β) : Prop :=
  ∀ (Γ₁ : Ledger) (e : Effects), Γ <+: Γ₁ → Γ₁.Holds e.store →
    ∃ Γ₂ : Ledger, Γ₁ <+: Γ₂ ∧ Γ₂.Holds (m.outcome e).2.store ∧ s.Agrees (R Γ₂) (m.outcome e).1 spec

/-- A computation comes to the very value specified. -/
def Yields (s : Scope) (Γ : Ledger) (m : Compile α) (spec : Except CompileFault α) : Prop :=
  s.Means Γ m (fun _ a b => a = b) spec

section Rules
variable {R : Ledger → α → β → Prop} {Q : Ledger → γ → δ → Prop} {m : Compile α}
  {spec : Except CompileFault β}

theorem Means.mono (h : s.Means Γ m R spec) (hΓ : Γ <+: Γ') : s.Means Γ' m R spec :=
  fun Γ₁ e h₁ he => h Γ₁ e (hΓ.trans h₁) he

theorem means_pure {a : α} {b : β} (h : ∀ Γ', Γ <+: Γ' → R Γ' a b) :
    s.Means Γ (pure a) R (.ok b) :=
  fun Γ₁ _ h₁ he => ⟨Γ₁, List.prefix_rfl, he, h Γ₁ h₁⟩

theorem means_fail (fault : CompileFault) : s.Means Γ (s.fail fault) R (.error fault) :=
  fun Γ₁ _ _ he => ⟨Γ₁, List.prefix_rfl, he, rfl⟩

theorem Means.bind {f : α → Compile γ} {g : β → Except CompileFault δ} (hm : s.Means Γ m R spec)
    (hf : ∀ Γ' a b, Γ <+: Γ' → R Γ' a b → s.Means Γ' (f a) Q (g b)) :
    s.Means Γ (m >>= f) Q (spec >>= g) := by
  intro Γ₁ e h₁ he
  obtain ⟨Γ₂, h₂, he₂, hr⟩ := hm Γ₁ e h₁ he
  rw [Compile.outcome_bind]
  rcases hout : m.outcome e with ⟨a | a, e₂⟩
  all_goals rw [hout] at he₂ hr
  · obtain ⟨fault, rfl, ha⟩ := hr.of_error
    exact ⟨Γ₂, h₂, he₂, ha⟩
  · obtain ⟨b, rfl, hab⟩ := hr.of_ok
    obtain ⟨Γ₃, h₃, he₃, hq⟩ := hf Γ₂ a b (h₁.trans h₂) hab Γ₂ e₂ List.prefix_rfl he₂
    exact ⟨Γ₃, h₂.trans h₃, he₃, hq⟩

/-- What is noticed has no part in the result. -/
theorem Means.after_notify (n : Notice) (h : s.Means Γ m R spec) :
    s.Means Γ (Compile.notify n >>= fun _ => m) R spec :=
  fun Γ₁ e h₁ he => h Γ₁ { e with notices := e.notices ++ [n] } h₁ he

theorem yields_pure (a : α) : s.Yields Γ (pure a) (.ok a) := means_pure fun _ _ => rfl

/-- A value that is specified may be looked at in another way. -/
theorem Yields.means {a : α} {b : β} (h : s.Yields Γ m (.ok a))
    (hR : ∀ Γ' : Ledger, Γ <+: Γ' → R Γ' a b) : s.Means Γ m R (.ok b) := by
  intro Γ₁ e h₁ he
  obtain ⟨Γ₂, h₂, he₂, hr⟩ := h Γ₁ e h₁ he
  refine ⟨Γ₂, h₂, he₂, ?_⟩
  revert hr
  cases (m.outcome e).1 with
  | error x => exact False.elim
  | ok a' =>
    rintro rfl
    exact hR Γ₂ (h₁.trans h₂)

/-- A computation goes on from the very value specified. -/
theorem Yields.bind {f : α → Compile γ} {spec : Except CompileFault δ} {a : α}
    (hm : s.Yields Γ m (.ok a)) (hf : ∀ Γ' : Ledger, Γ <+: Γ' → s.Means Γ' (f a) Q spec) :
    s.Means Γ (m >>= f) Q spec := by
  have h := Means.bind (Q := Q) (f := f) (g := fun _ => spec)
    (Yields.means (R := fun _ a' (_ : Unit) => a' = a) (b := ()) hm fun _ _ => rfl)
    fun Γ' _ _ hΓ ha => ha ▸ hf Γ' hΓ
  exact h

theorem yields_read {sort : Signal} {x : Supplier sort} (hx : x.Steady Γ Γ.length) :
    s.Yields Γ (Compile.read x) (.ok x.value) := by
  intro Γ₁ e h₁ he
  have hx₁ := hx.mono h₁ h₁.length_le
  exact ⟨Γ₁, List.prefix_rfl, he.read hx₁, he.read_eq hx₁⟩

theorem yields_mapM {f : α → Compile γ} {g : α → γ} (xs : List α)
    (h : ∀ x ∈ xs, s.Yields Γ (f x) (.ok (g x))) : s.Yields Γ (xs.mapM f) (.ok (xs.map g)) := by
  induction xs with
  | nil => exact yields_pure []
  | cons x xs ih =>
    rw [List.mapM_cons]
    refine Yields.bind (h x (by simp)) fun Γ' hΓ => ?_
    refine Yields.bind ((ih fun z hz => h z (by simp [hz])).mono hΓ) fun Γ₂ _ => ?_
    exact yields_pure _

/-- Notices of a list of things have no part in the result. -/
theorem yields_forM_notify (f : α → Notice) (xs : List α) :
    s.Yields Γ (xs.forM fun x => Compile.notify (f x)) (.ok ()) := by
  induction xs with
  | nil => exact yields_pure ()
  | cons x xs ih => exact Means.after_notify (f x) ih

end Rules

section Memory
variable {sort : Signal}

/-- A supplier without a stream is remembered in a new cell. -/
theorem means_cache {inner : Supplier sort} (hstream : inner.stream? = none)
    (hsteady : ∀ (Γ' : Ledger) (c : Nat), Γ <+: Γ' → Γ.length ≤ c →
      Γ'[c]? = some (some ⟨inner⟩) → (Supplier.cached inner c).Steady Γ' (c + 1)) :
    s.Means Γ (Compile.cache inner) (fun Γ' x v => x.Steady Γ' Γ'.length ∧ x.value = v)
      (.ok inner.value) := by
  intro Γ₁ e h₁ he
  refine ⟨Γ₁ ++ [some ⟨inner⟩], List.prefix_append _ _, ?_, ?_, rfl⟩
  · refine he.extend _ (by simp [he.size]) (fun _ => rfl) (fun _ _ => by simp) fun x hx d hd => ?_
    obtain rfl : x = ⟨inner⟩ := by simpa using hx
    rw [hstream] at hd
    cases hd
  · have hc := hsteady (Γ₁ ++ [some ⟨inner⟩]) e.store.fresh
      (h₁.trans (List.prefix_append _ _)) (he.size ▸ h₁.length_le) (by simp [he.size])
    refine hc.mono List.prefix_rfl ?_
    simp [he.size]

/-- A supplier with a stream of its own is remembered in the cell right after that of the
stream. -/
theorem means_cache_stream {f : Nat → Supplier sort} {v : sort.Carrier}
    (hstream : ∀ d, (f d).stream? = some d) (hvalue : ∀ d, (f d).value = v)
    (hsteady : ∀ (Γ' : Ledger) (d : Nat), Γ <+: Γ' → Γ.length ≤ d →
      Γ'[d + 1]? = some (some ⟨f d⟩) → (Supplier.cached (f d) (d + 1)).Steady Γ' (d + 2)) :
    s.Means Γ (Compile.newCell >>= fun d => Compile.cache (f d))
      (fun Γ' x w => x.Steady Γ' Γ'.length ∧ x.value = w) (.ok v) := by
  intro Γ₁ e h₁ he
  refine ⟨Γ₁ ++ [none, some ⟨f e.store.fresh⟩], List.prefix_append _ _, ?_, ?_, hvalue _⟩
  · refine he.extend _ (by simp [Compile.outcome_bind, he.size])
      (fun _ => by simp [Compile.outcome_bind]) (fun _ _ => by simp [Compile.outcome_bind])
      fun x hx d hd => ?_
    obtain rfl : x = ⟨f e.store.fresh⟩ := by simpa using hx
    obtain rfl : e.store.fresh = d := by simpa [hstream] using hd
    exact Nat.le_of_eq he.size.symm
  · have hc := hsteady (Γ₁ ++ [none, some ⟨f e.store.fresh⟩]) e.store.fresh
      (h₁.trans (List.prefix_append _ _)) (he.size ▸ h₁.length_le) (by simp [he.size])
    refine hc.mono List.prefix_rfl ?_
    simp [he.size]

end Memory
end Scope
end Terrain
