import Terrain.Proofs.Workspace.History

/-! The suppliers of compiled nodes are constant. However pulls, resets and passes are interleaved,
a supplier that was ever stored yields its value on every pull, and a node that is compiled
against it sees that value too, whether it reads it at once or keeps the supplier. -/
namespace Terrain

namespace Store

/-- Each of some suppliers yields one value, however they are all pulled and reset. -/
def Constant (st : Store) (held : AnySupplier → Prop) : Prop :=
  ∀ st', Touches held st st' → ∀ x : AnySupplier, held x →
    (x.supplier.get st').1 = x.supplier.value

end Store

variable {Γ : Ledger} {st st' : Store} {held : AnySupplier → Prop}

theorem Ledger.Holds.touches (h : Γ.Holds st)
    (hheld : ∀ x : AnySupplier, held x → x.supplier.Steady Γ Γ.length)
    (ht : Store.Touches held st st') : Γ.Holds st' := by
  induction ht with
  | refl => exact h
  | tail _ ht ih => exact ih.touch hheld ht

theorem Ledger.Holds.constant (h : Γ.Holds st)
    (hheld : ∀ x : AnySupplier, held x → x.supplier.Steady Γ Γ.length) : st.Constant held :=
  fun _ ht x hx => (h.touches hheld ht).get_eq (hheld x hx)

/-- At a point of a pass each of some suppliers yields one value, and whatever node is compiled
there comes to what it has to show by those values. -/
structure Pass.SeesOneValue (cx : PassSetting) (p : Pass) (held : AnySupplier → Prop) : Prop where
  constant : p.store.Constant held
  compiles : ∀ n st, Store.Touches held p.store st →
    (p.scope cx n).Agrees (fun k m => k.meaning = m) ((p.scope cx n).compile.outcome ⟨st, []⟩).1
      (p.due cx n)

namespace History

open Pass

variable {allowed : WorldTile → Prop} {w : Workspace}

/-- Compiled suppliers are constant: in every history all that were ever stored, and at every
point of every pass from there also those that the pass has stored. -/
theorem suppliers_constant (h : History allowed w held) :
    w.store.Constant held ∧
      ∀ (cx : PassSetting) (pending work : List NodeId) (p : Pass),
        (∀ id ∈ pending, id ∈ cx.graph.nodeIds) → Moves cx (w.startPass pending work) p →
          p.SeesOneValue cx fun x => held x ∨ p.compiled.Stores x := by
  obtain ⟨Γ, hΓ⟩ := h.backed
  refine ⟨hΓ.backs.holds.constant hΓ.steady, fun cx pending work p hknown hmoves => ?_⟩
  have hstart : Valid cx (· ∈ pending) (fun _ => True) w.compiled.shows Γ
      (w.startPass pending work) :=
    Workspace.startPass_valid cx hΓ.backs.holds (fun id _ _ => hΓ.backs.steady id trivial)
      (fun _ _ => trivial) hknown work
  obtain ⟨Γ', hΓ', hbacks⟩ := (hstart.moves hmoves).backed
  have hheld : ∀ x : AnySupplier, held x ∨ p.compiled.Stores x →
      x.supplier.Steady Γ' Γ'.length := by
    rintro x (hx | hx)
    · exact (hΓ.steady x hx).mono hΓ' hΓ'.length_le
    · exact Workspace.steady_of_stores hbacks hx
  refine ⟨hbacks.holds.constant hheld, fun n st ht => ?_⟩
  have hscope : (p.scope cx n).Steady Γ' := hbacks.scope (fun _ _ => trivial) cx.tile n
  obtain ⟨_, _, _, hagrees⟩ := Scope.means_due hscope Γ' ⟨st, []⟩ List.prefix_rfl
    (hbacks.holds.touches hheld ht)
  exact hagrees.mono fun _ _ hk => hk.2

end History

theorem Workspace.editedSum_constant : ∃ held, History (· = {}) editedSum held ∧
    editedSum.store.Constant held ∧
      ∀ cx p, Pass.Moves cx (editedSum.startPass cx.graph.nodeIds cx.graph.nodeIds) p →
        p.SeesOneValue cx fun x => held x ∨ p.compiled.Stores x := by
  obtain ⟨held, h⟩ := history_editedSum
  obtain ⟨hconstant, hpass⟩ := h.suppliers_constant
  exact ⟨held, h, hconstant, fun cx p => hpass cx _ _ p fun _ hid => hid⟩

end Terrain
