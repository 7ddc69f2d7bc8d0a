import Terrain.Proofs.Pass.Result
import Terrain.Proofs.Supplier.Parts

/-! Histories of a workspace: from a fresh graph by edits, by passes, and by pulls and resets of
the suppliers that passes have stored. Whatever happens, the graph is well-formed, and one ledger,
to which passes may add, backs all suppliers that were ever stored. -/
namespace Terrain

open Relation

/-- The requests for a pass. -/
inductive Request
  | traverseAll
  | applyChanges
  | onChange (node : NodeId)
  | recalculate (seeds : List NodeId)

def Workspace.serve (w : Workspace) (tile : WorldTile) (interest : Interest) :
    Request → PassResult
  | .traverseAll => w.traverseAll tile interest
  | .applyChanges => w.applyChanges tile interest
  | .onChange node => w.onChange tile interest node
  | .recalculate seeds => w.recalculate tile interest seeds

/-- The workspace after an edit, which is the workspace before it where the edit is refused. -/
def Workspace.edited (w : Workspace) (e : Edit) : Workspace := { w with graph := w.graph.after e }

def AnySupplier.portValue (x : AnySupplier) : PortValue := .ofSupplier x.supplier

/-- A supplier is stored on some node, as an output or as a result. -/
def Compilation.Stores (table : Compilation) (x : AnySupplier) : Prop :=
  ∃ (id : NodeId) (k : Compiled), table[id]? = some k ∧
    (x.portValue ∈ k.outputs ∨ k.result = some x.portValue)

/-- The workspaces that can be reached with tiles that are allowed, each with the suppliers that
passes have stored on the way there. -/
inductive History (allowed : WorldTile → Prop) : Workspace → (AnySupplier → Prop) → Prop
  | fresh (name : Option String) (seed : Seed) :
      History allowed { graph := { id := name, seed } } fun _ => False
  | edit {w : Workspace} {held : AnySupplier → Prop} (h : History allowed w held) (e : Edit) :
      History allowed (w.edited e) held
  | pass {w : Workspace} {held : AnySupplier → Prop} (h : History allowed w held)
      {tile : WorldTile} (ht : allowed tile) (interest : Interest) (request : Request) :
      History allowed (w.serve tile interest request).workspace
        fun x => held x ∨ (w.serve tile interest request).workspace.compiled.Stores x
  | touch {w : Workspace} {held : AnySupplier → Prop} (h : History allowed w held) {st : Store}
      (ht : w.store.Touch held st) : History allowed { w with store := st } held

theorem Ledger.Holds.touch {Γ : Ledger} {st st' : Store} {held : AnySupplier → Prop}
    (h : Γ.Holds st) (hheld : ∀ x : AnySupplier, held x → x.supplier.Steady Γ Γ.length)
    (ht : st.Touch held st') : Γ.Holds st' := by
  cases ht with
  | pull hx => exact h.get (hheld _ hx)
  | reset hx => exact h.reset (hheld _ hx)

namespace Workspace
variable {w : Workspace} {tile : WorldTile} {interest : Interest} {Γ : Ledger}
  {held : AnySupplier → Prop}

/-- What a request comes to: no pass, a full one, one from seeds that are asked for, or one from
what the journal names. -/
inductive Served (w : Workspace) (tile : WorldTile) (interest : Interest) : PassResult → Prop
  | idle (log : w.graph.changes = []) : Served w tile interest { workspace := w.drain.2 }
  | full : Served w tile interest (w.traverseAll tile interest)
  | part (seeds : List NodeId) : Served w tile interest (w.recalculate tile interest seeds)
  | log (seed : .seedChanged ∉ w.graph.changes) :
      Served w tile interest
        (w.drain.2.recalculate tile interest (Change.affectedBy w.graph.changes).eraseDups)

theorem served (w : Workspace) (tile : WorldTile) (interest : Interest) (request : Request) :
    Served w tile interest (w.serve tile interest request) := by
  cases request with
  | traverseAll => exact .full
  | onChange node => exact .part [node]
  | recalculate seeds => exact .part seeds
  | applyChanges =>
    change Served w tile interest (if w.graph.changes.isEmpty then _ else _)
    split
    · next hempty => exact .idle (List.isEmpty_iff.1 hempty)
    · split
      · exact .full
      · next hseed => exact .log (by simpa using hseed)

/-- A ledger backs all that a workspace has stored, and further suppliers that are held. -/
structure BackedBy (w : Workspace) (Γ : Ledger) (held : AnySupplier → Prop) : Prop where
  backs : Γ.Backs (fun _ => True) w.compiled w.store
  steady : ∀ x : AnySupplier, held x → x.supplier.Steady Γ Γ.length

theorem steady_of_stores {table : Compilation} {st : Store} (h : Γ.Backs (fun _ => True) table st)
    {x : AnySupplier} (hx : table.Stores x) : x.supplier.Steady Γ Γ.length := by
  obtain ⟨id, k, hk, hx⟩ := hx
  have hk := h.steady id trivial k hk
  exact PortValue.steady_ofSupplier.1 (hx.elim (hk.outputs _) (hk.result _))

/-- What a pass stores is backed by a larger ledger, and so is all that was held before. -/
theorem Served.backed {r : PassResult} (hr : Served w tile interest r) (hg : w.graph.WellFormed)
    (h : w.BackedBy Γ held) :
    ∃ Γ' : Ledger, Γ <+: Γ' ∧
      r.workspace.BackedBy Γ' fun x => held x ∨ r.workspace.compiled.Stores x := by
  have hbacks : ∃ Γ' : Ledger, Γ <+: Γ' ∧
      Γ'.Backs (fun _ => True) r.workspace.compiled r.workspace.store := by
    cases hr with
    | idle log => exact ⟨Γ, List.prefix_rfl, h.backs⟩
    | full =>
      obtain ⟨_, _, _, _, hbacks⟩ := traverseAll_ran tile interest h.backs.holds
        (fun id _ _ => h.backs.steady id trivial) fun _ _ => trivial
      exact hbacks
    | part seeds =>
      obtain ⟨_, _, hbacks⟩ := recalculate_ran tile interest hg h.backs (fun _ _ => trivial) seeds
      exact hbacks
    | log seed =>
      obtain ⟨_, _, hbacks⟩ := recalculate_ran (w := w.drain.2) tile interest hg.drain h.backs
        (fun _ _ => trivial) (Change.affectedBy w.graph.changes).eraseDups
      exact hbacks
  obtain ⟨Γ', hΓ, hbacks⟩ := hbacks
  refine ⟨Γ', hΓ, hbacks, fun x hx => ?_⟩
  rcases hx with hx | hx
  · exact (h.steady x hx).mono hΓ hΓ.length_le
  · exact steady_of_stores hbacks hx

theorem Served.graph {r : PassResult} (hr : Served w tile interest r) :
    r.workspace.graph = w.graph ∨ r.workspace.graph = { w.graph with changes := [] } := by
  cases hr with
  | idle _ => exact .inr rfl
  | full => exact .inr rfl
  | part seeds => exact .inl rfl
  | log _ => exact .inr rfl

theorem Served.wellFormed {r : PassResult} (hr : Served w tile interest r)
    (hg : w.graph.WellFormed) : r.workspace.graph.WellFormed := by
  rcases hr.graph with hgraph | hgraph
  · exact hgraph ▸ hg
  · exact hgraph ▸ hg.drain

end Workspace

/-- A workspace, with all suppliers that passes have stored on its nodes so far, be they still
there or not. -/
structure Stock where
  workspace : Workspace
  held : AnySupplier → Prop

namespace Stock
variable {t t' : Stock} {Γ : Ledger} {x : AnySupplier}

/-- A stock after an edit, which stores nothing. -/
def edited (t : Stock) (e : Edit) : Stock := { t with workspace := t.workspace.edited e }

/-- A stock after a pass, which adds what it stores. -/
def passed (t : Stock) (r : PassResult) : Stock where
  workspace := r.workspace
  held x := t.held x ∨ r.workspace.compiled.Stores x

/-- What can happen to a stock: an edit, be it made or refused, a pass for any tile, a drain of the
journal, a reload, or a pull or reset of a supplier that is held. -/
inductive Next (t : Stock) : Stock → Prop
  | edit (e : Edit) : Next t (t.edited e)
  | pass (tile : WorldTile) (interest : Interest) (request : Request) :
      Next t (t.passed (t.workspace.serve tile interest request))
  | drain : Next t { t with workspace := t.workspace.drain.2 }
  | reload : Next t { t with workspace := t.workspace.reload }
  | touch {st : Store} (ht : t.workspace.store.Touch t.held st) :
      Next t { t with workspace := { t.workspace with store := st } }

/-- One stock comes of another. -/
abbrev Leads : Stock → Stock → Prop := ReflTransGen Next

/-- The stock of a fresh graph. -/
def fresh (name : Option String) (seed : Seed) : Stock where
  workspace := { graph := { id := name, seed } }
  held _ := False

def Reached (t : Stock) : Prop := ∃ name seed, (fresh name seed).Leads t

/-- A ledger backs a stock, and the graph is well-formed, so that passes go on to be backed. -/
structure Backed (t : Stock) (Γ : Ledger) : Prop extends t.workspace.BackedBy Γ t.held where
  wellFormed : t.workspace.graph.WellFormed

theorem fresh_backed (name : Option String) (seed : Seed) : (fresh name seed).Backed [] where
  backs := ⟨Ledger.holds_empty, fun id _ k hk => by simp [fresh] at hk⟩
  steady := nofun
  wellFormed := Graph.new_wellFormed name seed

/-- Whatever happens to a stock, a ledger that extends the one before backs it. -/
theorem Next.backed (h : t.Next t') (hb : t.Backed Γ) : ∃ Γ', Γ <+: Γ' ∧ t'.Backed Γ' := by
  obtain ⟨hbacked, hg⟩ := hb
  cases h with
  | edit e =>
    exact ⟨Γ, List.prefix_rfl, ⟨hbacked.backs, hbacked.steady⟩, Graph.after_wellFormed hg e⟩
  | pass tile interest request =>
    have hserved := t.workspace.served tile interest request
    obtain ⟨Γ', hΓ, hbacked'⟩ := hserved.backed hg hbacked
    exact ⟨Γ', hΓ, hbacked', hserved.wellFormed hg⟩
  | drain => exact ⟨Γ, List.prefix_rfl, ⟨hbacked.backs, hbacked.steady⟩, hg.drain⟩
  | reload =>
    have hbacks : Γ.Backs (fun _ => True) t.workspace.reload.compiled t.workspace.store :=
      ⟨hbacked.backs.holds, fun id _ k hk => by simp [Workspace.reload] at hk⟩
    exact ⟨Γ, List.prefix_rfl, ⟨hbacks, hbacked.steady⟩, hg.drain⟩
  | touch ht =>
    have hholds := hbacked.backs.holds.touch hbacked.steady ht
    exact ⟨Γ, List.prefix_rfl, ⟨⟨hholds, hbacked.backs.steady⟩, hbacked.steady⟩, hg⟩

theorem Leads.backed (h : t.Leads t') (hb : t.Backed Γ) : ∃ Γ', Γ <+: Γ' ∧ t'.Backed Γ' := by
  induction h with
  | refl => exact ⟨Γ, List.prefix_rfl, hb⟩
  | tail _ hnext ih =>
    obtain ⟨Γ₁, hΓ₁, hb₁⟩ := ih
    obtain ⟨Γ₂, hΓ₂, hb₂⟩ := hnext.backed hb₁
    exact ⟨Γ₂, hΓ₁.trans hΓ₂, hb₂⟩

theorem Reached.next (h : t.Reached) (hnext : t.Next t') : t'.Reached := by
  obtain ⟨name, seed, h⟩ := h
  exact ⟨name, seed, h.tail hnext⟩

theorem Reached.edits (h : t.Reached) (edits : List Edit) : (edits.foldl edited t).Reached := by
  induction edits generalizing t with
  | nil => exact h
  | cons e rest ih => exact ih (h.next (.edit e))

theorem Reached.backed (h : t.Reached) : ∃ Γ, t.Backed Γ := by
  obtain ⟨name, seed, h⟩ := h
  obtain ⟨Γ, _, hb⟩ := h.backed (fresh_backed name seed)
  exact ⟨Γ, hb⟩

/-- A supplier is stored on a node, or was so before. -/
def Has (t : Stock) (x : AnySupplier) : Prop := t.held x ∨ t.workspace.compiled.Stores x

/-- Whatever is done with a stock, every supplier that it has goes on to yield its value. -/
theorem Backed.get_eq (hb : t.Backed Γ) (hx : t.Has x) (h : t.Leads t') :
    (x.supplier.get t'.workspace.store).1 = x.supplier.value := by
  have hsteady : x.supplier.Steady Γ Γ.length :=
    hx.elim (hb.steady x) (Workspace.steady_of_stores hb.backs)
  obtain ⟨Γ', hΓ, hb'⟩ := h.backed hb
  exact hb'.backs.holds.get_eq (hsteady.mono hΓ hΓ.length_le)

end Stock

namespace History

variable {allowed : WorldTile → Prop} {w : Workspace} {held : AnySupplier → Prop}

/-- A history leads to a workspace together with what it says is held. -/
theorem stock (h : History allowed w held) : Stock.Reached ⟨w, held⟩ := by
  induction h with
  | fresh name seed => exact ⟨name, seed, .refl⟩
  | edit _ e ih => exact ih.next (.edit e)
  | pass _ _ interest request ih => exact ih.next (.pass _ interest request)
  | touch _ ht ih => exact ih.next (.touch ht)

theorem wellFormed (h : History allowed w held) : w.graph.WellFormed := by
  obtain ⟨_, hΓ⟩ := h.stock.backed
  exact hΓ.wellFormed

/-- In every history one ledger backs all suppliers that were ever stored. -/
theorem backed (h : History allowed w held) : ∃ Γ, w.BackedBy Γ held := by
  obtain ⟨Γ, hΓ⟩ := h.stock.backed
  exact ⟨Γ, hΓ.toBackedBy⟩

end History

namespace Workspace

/-- A number that feeds a sum, calculated, then edited and calculated anew. -/
def editedSum : Workspace :=
  let built := ((({ graph := {} } : Workspace).edited (.addNode (.constValue 1))).edited
    (.addNode (.operator { target := .value }))).edited
      (.connectNamed ⟨0⟩ "value" ⟨1⟩ "input0")
  let edited := (built.serve {} .none .applyChanges).workspace.edited
    (.editNode ⟨0⟩ (.constValue 2))
  (edited.serve {} .none .applyChanges).workspace

theorem history_editedSum : ∃ held, History (· = {}) editedSum held :=
  have fresh : History (· = {}) { graph := {} } _ := .fresh none 0
  ⟨_, .pass (.edit (.pass (.edit (.edit (.edit fresh _) _) _) rfl _ _) _) rfl _ _⟩

end Workspace
end Terrain
