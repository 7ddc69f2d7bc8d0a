import Terrain.Proofs.Graph.Reached

/-! The nodes that play a role. A graph has one of them at the most, and a bound graph keeps it, as
long as no edit puts a kind of another role in the place of a node's kind. Nothing but that does
break the rule, since to add a node and to remove one both mind it. -/
namespace Terrain

namespace Kind

variable {k k' : Kind}

/-- The kinds that play a role are those without ports. -/
theorem role?_eq_none_iff : k.role? = none ↔ k.signature ≠ ⟨[], [], none⟩ := by
  cases k <;> simp [role?, signature, layout, TileField.all]

theorem beq_of_role?_ne (hrole : k.role? ≠ none) (hrole' : k'.role? ≠ none)
    (hne : k.role? ≠ k'.role?) : (k == k') = false := by
  cases k with
  | manifest m =>
    cases k' with
    | manifest m' => exact absurd rfl hne
    | tileRequirements r' => rfl
    | _ => exact absurd rfl hrole'
  | tileRequirements r =>
    cases k' with
    | manifest m' => rfl
    | tileRequirements r' => exact absurd rfl hne
    | _ => exact absurd rfl hrole'
  | _ => exact absurd rfl hrole

end Kind

namespace Graph

open Relation

variable {g g' : Graph} {e : Edit} {id : NodeId} {n : Node} {role : Role} {kind : Kind}

/-- An edit puts a kind of another role in the place of the kind of a node. -/
inductive MovesRole (g : Graph) : Edit → Prop
  | intro {id : NodeId} {kind : Kind} {n : Node} (node : g.node? id = some n)
      (signature : kind.signature = n.kind.signature) (role : kind.role? ≠ n.kind.role?) :
      MovesRole g (.editNode id kind)

/-- What can become of the nodes that play a role where an edit leaves to each node its own: they
are kept, all replaced by a new one, or one of them is removed that can be spared. -/
inductive Recast (g : Graph) (role : Role) : List NodeId → Prop
  | kept : Recast g role (g.holders role)
  | replaced (id : NodeId) : Recast g role [id]
  | removed (id : NodeId) (spare : g.id = none ∨ 1 < (g.holders role).length) :
      Recast g role ((g.holders role).filter (· ≠ id))

theorem mem_holders :
    id ∈ g.holders role ↔ ∃ n ∈ g.nodes, n.id = id ∧ n.kind.role? = some role := by
  simp only [holders, List.mem_map, List.mem_filter, decide_eq_true_eq]
  exact ⟨fun ⟨n, ⟨hn, hrole⟩, hid⟩ => ⟨n, hn, hid, hrole⟩, fun ⟨n, hn, hid, hrole⟩ =>
    ⟨n, ⟨hn, hrole⟩, hid⟩⟩

/-- The nodes that play a role are told by the ids and the roles of all. -/
theorem holders_congr (h : (g'.nodes.map fun n => (n.id, n.kind.role?)) =
    g.nodes.map fun n => (n.id, n.kind.role?)) : g'.holders role = g.holders role := by
  have hpairs : ∀ nodes : List Node, (nodes.filter (·.kind.role? = some role)).map (·.id) =
      ((nodes.map fun n => (n.id, n.kind.role?)).filter (·.2 = some role)).map (·.1) := by
    intro nodes
    rw [List.filter_map, List.map_map]
    rfl
  rw [holders, hpairs, h, ← hpairs, holders]

theorem recast_of_nodes (h : g'.nodes = g.nodes) : g.Recast role (g'.holders role) := by
  rw [holders_congr (g := g) (congrArg _ h)]
  exact .kept

/-- A node may be changed in all but its role. -/
theorem recast_of_modifyNode {f : Node → Node} (h : g'.nodes = (g.modifyNode id f).nodes)
    (hf : ∀ m ∈ g.nodes, m.id = id → (f m).id = m.id ∧ (f m).kind.role? = m.kind.role?) :
    g.Recast role (g'.holders role) := by
  have hsame : g'.holders role = g.holders role := by
    refine holders_congr ?_
    simp only [h, modifyNode, List.map_map]
    refine List.map_congr_left fun m hm => ?_
    by_cases hid : m.id = id
    · simp [hid, hf m hm hid]
    · simp [hid]
  rw [hsame]
  exact .kept

theorem holders_detach (g : Graph) (gone : NodeId) :
    (g.detach gone).holders role = (g.holders role).filter (· ≠ gone) := by
  simp only [holders, detach, nodes_record, List.filter_map, List.filter_filter]
  congr 1
  exact List.filter_congr fun n _ => by simp [Bool.and_comm]

theorem holders_foldl_detach (g : Graph) (ids : List NodeId) :
    (ids.foldl detach g).holders role = (g.holders role).filter (· ∉ ids) := by
  induction ids generalizing g with
  | nil => simp
  | cons id ids ih =>
    rw [List.foldl_cons, ih, holders_detach, List.filter_filter]
    exact List.filter_congr fun n _ => by simp [Bool.and_comm]

theorem WellFormed.role_of_holder (hg : g.WellFormed) (hn : g.node? id = some n)
    (h : id ∈ g.holders role) : n.kind.role? = some role := by
  obtain ⟨m, hm, hid, hrole⟩ := mem_holders.1 h
  exact hg.eq_of_node? hn hm hid ▸ hrole

theorem WellFormed.one_role (hg : g.WellFormed) {role' : Role} (h : id ∈ g.holders role)
    (h' : id ∈ g.holders role') : role = role' := by
  obtain ⟨n, hn, rfl, hrole⟩ := mem_holders.1 h
  have hrole' := hg.role_of_holder (node?_of_mem hg.nodup hn) h'
  rw [hrole] at hrole'
  exact Option.some.inj hrole'

theorem holders_addNode (g : Graph) (kind : Kind) :
    (g.addNode kind).2.holders role = (g.holders role).filter (· ∉ g.replacedBy kind) ++
      if kind.role? = some role then [(g.addNode kind).1] else [] := by
  rw [← holders_foldl_detach]
  simp only [addNode, holders, nodes_record, List.filter_append, List.map_append,
    List.filter_singleton, Node.kind_create]
  by_cases hrole : kind.role? = some role <;> simp [hrole]

theorem recast_addNode (hg : g.WellFormed) (kind : Kind) :
    g.Recast role ((g.addNode kind).2.holders role) := by
  rw [holders_addNode]
  by_cases hrole : kind.role? = some role
  · have hnone : (g.holders role).filter (· ∉ g.replacedBy kind) = [] := by
      refine List.filter_eq_nil_iff.2 fun id hid => ?_
      simpa [replacedBy, hrole] using hid
    rw [if_pos hrole, hnone, List.nil_append]
    exact .replaced _
  · have hkept : (g.holders role).filter (· ∉ g.replacedBy kind) = g.holders role := by
      refine List.filter_eq_self.2 fun id hid => ?_
      rw [decide_eq_true_eq, replacedBy]
      cases hk : kind.role? with
      | none => exact List.not_mem_nil
      | some role' => exact fun hid' => hrole (hk.trans (congrArg some (hg.one_role hid' hid)))
    rw [if_neg hrole, hkept, List.append_nil]
    exact .kept

theorem recast_removeNode (hg : g.WellFormed) (h : g.removeNode id = .ok g') :
    g.Recast role (g'.holders role) := by
  obtain ⟨n, hn, h⟩ := Except.bind_eq_ok.1 h
  have hn := findNode_eq_ok.1 hn
  by_cases hrole : n.kind.role? = some role
  · cases hid : g.id with
    | none =>
      simp only [hrole, hid] at h
      cases h
      rw [holders_detach]
      exact .removed id (.inl hid)
    | some name =>
      simp only [hrole, hid] at h
      split at h
      · cases h
      · next hspare =>
        cases h
        rw [holders_detach]
        exact .removed id (.inr (Nat.lt_of_not_le hspare))
  · have hg' : g' = g.detach id := by
      split at h
      · split at h
        · cases h
        · cases h
          rfl
      · cases h
        rfl
    have hkept : (g.holders role).filter (· ≠ id) = g.holders role := by
      refine List.filter_eq_self.2 fun id' hid' => ?_
      simp only [ne_eq, decide_eq_true_eq]
      rintro rfl
      exact hrole (hg.role_of_holder hn hid')
    rw [hg', holders_detach, hkept]
    exact .kept

theorem recast_editNode (hg : g.WellFormed) (hmoves : ¬ g.MovesRole (.editNode id kind))
    (h : g.editNode id kind = .ok g') : g.Recast role (g'.holders role) := by
  obtain ⟨n, hn, h⟩ := Except.bind_eq_ok.1 h
  have hn := findNode_eq_ok.1 hn
  simp only [Except.guard_eq_ok, not_not] at h
  obtain ⟨hsignature, h⟩ := h
  split at h
  · cases h
    exact .kept
  · cases h
    have hrole : ∀ m ∈ g.nodes, m.id = id → kind.role? = m.kind.role? := by
      intro m hm hid
      obtain rfl := hg.eq_of_node? hn hm hid
      by_contra hrole
      exact hmoves ⟨hn, hsignature, hrole⟩
    exact recast_of_modifyNode rfl fun m hm hid => ⟨rfl, hrole m hm hid⟩

theorem recast_addPort {type : PortType} {port : PortId} (h : g.addPort id type = .ok (port, g')) :
    g.Recast role (g'.holders role) := by
  obtain ⟨n, _, h⟩ := Except.bind_eq_ok.1 h
  cases hd : n.kind.layout.dynamic with
  | none =>
    simp only [hd] at h
    cases h
  | some d =>
    simp only [hd, Except.guard_eq_ok] at h
    cases h.2
    exact recast_of_modifyNode rfl fun _ _ _ => ⟨rfl, rfl⟩

theorem recast_removePort {p : PortRef} (h : g.removePort p = .ok g') :
    g.Recast role (g'.holders role) := by
  obtain ⟨n, _, h⟩ := Except.bind_eq_ok.1 h
  cases hd : n.kind.layout.dynamic with
  | none =>
    simp only [hd] at h
    cases h
  | some d =>
    simp only [hd, Except.guard_eq_ok] at h
    cases h.2.2
    exact recast_of_modifyNode (nodes_unplug _ p) fun _ _ _ => ⟨rfl, rfl⟩

theorem recast_setLiteral {p : PortRef} {literal : Literal} (h : g.setLiteral p literal = .ok g') :
    g.Recast role (g'.holders role) := by
  obtain ⟨n, _, h⟩ := Except.bind_eq_ok.1 h
  cases hp : n.input? p.port with
  | none =>
    simp only [hp] at h
    cases h
  | some port =>
    simp only [hp, Except.guard_eq_ok] at h
    cases h.2
    exact recast_of_modifyNode rfl fun _ _ _ => ⟨rfl, rfl⟩

theorem recast_setNodeSeed {seed : Seed} (h : g.setNodeSeed id seed = .ok g') :
    g.Recast role (g'.holders role) := by
  obtain ⟨n, _, h⟩ := Except.bind_eq_ok.1 h
  split at h
  · cases h
    exact .kept
  · cases h
    exact recast_of_modifyNode rfl fun _ _ _ => ⟨rfl, rfl⟩

theorem recast_setSeed (g : Graph) (seed : Seed) :
    g.Recast role ((g.setSeed seed).holders role) := by
  unfold setSeed
  split
  · exact .kept
  · exact recast_of_nodes rfl

/-- The nodes that play a role after an edit that leaves to each node its own. -/
theorem recast_after (hg : g.WellFormed) (hmoves : ¬ g.MovesRole e) (role : Role) :
    g.Recast role ((g.after e).holders role) := by
  unfold after
  cases h : g.perform e with
  | error _ => exact .kept
  | ok r =>
    obtain ⟨reply, g'⟩ := r
    dsimp only
    cases e with
    | addNode kind =>
      cases h
      exact recast_addNode hg kind
    | removeNode id =>
      obtain ⟨_, h, ⟨⟩⟩ := Except.map_eq_ok.1 h
      exact recast_removeNode hg h
    | editNode id kind =>
      obtain ⟨_, h, ⟨⟩⟩ := Except.map_eq_ok.1 h
      exact recast_editNode hg hmoves h
    | connect source target =>
      obtain ⟨_, h, ⟨⟩⟩ := Except.map_eq_ok.1 h
      exact recast_of_nodes (nodes_connect h).1
    | connectNamed source output target input =>
      obtain ⟨_, h, ⟨⟩⟩ := Except.map_eq_ok.1 h
      obtain ⟨_, _, h⟩ := Except.bind_eq_ok.1 h
      obtain ⟨_, _, h⟩ := Except.bind_eq_ok.1 h
      exact recast_of_nodes (nodes_connect h).1
    | disconnect target =>
      obtain ⟨⟨_, _⟩, h, ⟨⟩⟩ := Except.map_eq_ok.1 h
      obtain ⟨_, _, h⟩ := Except.bind_eq_ok.1 h
      cases h
      exact recast_of_nodes (nodes_unplug g target)
    | addPort id type =>
      obtain ⟨⟨_, _⟩, h, ⟨⟩⟩ := Except.map_eq_ok.1 h
      exact recast_addPort h
    | removePort p =>
      obtain ⟨_, h, ⟨⟩⟩ := Except.map_eq_ok.1 h
      exact recast_removePort h
    | setLiteral p literal =>
      obtain ⟨_, h, ⟨⟩⟩ := Except.map_eq_ok.1 h
      exact recast_setLiteral h
    | setNodeSeed id seed =>
      obtain ⟨_, h, ⟨⟩⟩ := Except.map_eq_ok.1 h
      exact recast_setNodeSeed h
    | setSeed seed =>
      cases h
      exact recast_setSeed g seed

/-- An edit leaves to each node its own role. -/
def KeepsRoles (g g' : Graph) : Prop := ∃ e, ¬ g.MovesRole e ∧ g' = g.after e

section Recast
variable {ids : List NodeId} (h : g.Recast role ids) (hsingle : (g.holders role).length ≤ 1)
include h hsingle

theorem Recast.single : ids.length ≤ 1 := by
  cases h with
  | kept => exact hsingle
  | replaced id => exact Nat.le_refl 1
  | removed id spare => exact Nat.le_trans (List.length_filter_le _ _) hsingle

/-- A bound graph does not lose the last node of a role. -/
theorem Recast.held (hbound : g.id ≠ none) (hheld : g.holders role ≠ []) : ids ≠ [] := by
  cases h with
  | kept => exact hheld
  | replaced id => exact List.cons_ne_nil _ _
  | removed id spare => exact absurd (spare.resolve_left hbound) (Nat.not_lt_of_le hsingle)

end Recast

theorem Step.id_eq (hs : g.Step g') : g'.id = g.id := by
  cases hs with
  | unplug target => unfold Graph.unplug; split <;> rfl
  | _ => rfl

theorem Steps.id_eq (hs : Steps g g') : g'.id = g.id := by
  induction hs with
  | refl => rfl
  | tail _ hs ih => exact hs.id_eq.trans ih

/-- The rule for roles holds along every row of edits that leave to each node its own. -/
theorem roles_kept (hg : g.Reached) (hsingle : ∀ role, (g.holders role).length ≤ 1)
    (h : ReflTransGen KeepsRoles g g') :
    g'.Reached ∧ g'.id = g.id ∧ (∀ role, (g'.holders role).length ≤ 1) ∧
      (g.id ≠ none → ∀ role, g.holders role ≠ [] → g'.holders role ≠ []) := by
  induction h with
  | refl => exact ⟨hg, rfl, hsingle, fun _ _ hheld => hheld⟩
  | tail _ hk ih =>
    obtain ⟨e, hmoves, rfl⟩ := hk
    obtain ⟨hm, hid, hone, hheld⟩ := ih
    have hrecast := recast_after hm.wellFormed hmoves
    refine ⟨hm.edit e, (steps_after hm.wellFormed e).id_eq.trans hid,
      fun role => (hrecast role).single (hone role), fun hbound role hold => ?_⟩
    exact (hrecast role).held (hone role) (hid ▸ hbound) (hheld hbound role hold)

/-- An edit to another kind with the same port types is made. -/
theorem after_editNode (hn : g.node? id = some n) (hsignature : kind.signature = n.kind.signature)
    (hkind : (kind == n.kind) = false) : g.after (.editNode id kind) =
      (g.modifyNode id ({ · with kind })).record (.paramsChanged id) := by
  have hedit : g.editNode id kind =
      .ok ((g.modifyNode id ({ · with kind })).record (.paramsChanged id)) := by
    refine Except.bind_eq_ok.2 ⟨n, findNode_eq_ok.2 hn, ?_⟩
    refine Except.guard_eq_ok.2 ⟨not_not.2 hsignature, ?_⟩
    rw [hkind]
    rfl
  rw [after, perform, hedit]
  rfl

/-- A role is left to none where its only node gets another. -/
theorem holders_modifyNode_kind (hsingle : (g.holders role).length ≤ 1)
    (hid : id ∈ g.holders role) (hkind : kind.role? ≠ some role) :
    (g.modifyNode id ({ · with kind })).holders role = [] := by
  obtain ⟨only, honly⟩ := List.length_eq_one_iff.1
    (Nat.le_antisymm hsingle (List.length_pos_of_mem hid))
  refine List.eq_nil_iff_forall_not_mem.2 fun id' hid' => ?_
  obtain ⟨m', hm', rfl, hrole⟩ := mem_holders.1 hid'
  obtain ⟨m, hm, rfl⟩ := List.mem_map.1 hm'
  by_cases heq : m.id = id
  · rw [if_pos heq] at hrole
    exact hkind hrole
  · rw [if_neg heq] at hrole
    have hm := mem_holders.2 ⟨m, hm, rfl, hrole⟩
    rw [honly, List.mem_singleton] at hm hid
    exact heq (hm.trans hid.symm)

/-- Where an edit gives a node another role, its own is left to none. -/
theorem MovesRole.unseats (h : g.MovesRole e) (hsingle : ∀ role, (g.holders role).length ≤ 1) :
    ∃ role, g.holders role ≠ [] ∧ (g.after e).holders role = [] := by
  cases h with
  | @intro id kind n hn hsignature hne =>
    -- Kinds that play a role have no ports, so they pass for one another.
    have hiff : kind.role? = none ↔ n.kind.role? = none := by
      rw [Kind.role?_eq_none_iff, Kind.role?_eq_none_iff, hsignature]
    have hrole : n.kind.role? ≠ none := fun hnone => hne ((hiff.2 hnone).trans hnone.symm)
    obtain ⟨role, hr⟩ := Option.ne_none_iff_exists'.1 hrole
    have hholds : id ∈ g.holders role := mem_holders.2 ⟨n, mem_of_node? hn, id_of_node? hn, hr⟩
    refine ⟨role, List.ne_nil_of_mem hholds, ?_⟩
    rw [after_editNode hn hsignature (Kind.beq_of_role?_ne (mt hiff.1 hrole) hrole hne)]
    exact holders_modifyNode_kind (hsingle role) hholds (hr ▸ hne)

/-- As long as no edit gives a node another role, a graph has one node of a role at the most, and
a bound graph goes on to have it. An edit that does leaves a role that had a node without one. -/
theorem single_roles (name : Option String) (seed : Seed)
    (h : ReflTransGen KeepsRoles { id := name, seed } g) :
    (∀ role, (g.holders role).length ≤ 1) ∧
      (name ≠ none → ∀ role, g.holders role ≠ [] →
        ∀ g', ReflTransGen KeepsRoles g g' → g'.holders role ≠ []) ∧
      ∀ e, g.MovesRole e → ∃ role, g.holders role ≠ [] ∧ (g.after e).holders role = [] := by
  obtain ⟨hg, hid, hsingle, _⟩ := roles_kept (.fresh name seed) (fun _ => Nat.zero_le 1) h
  refine ⟨hsingle, fun hbound role hheld g' h' => ?_, fun e he => he.unseats hsingle⟩
  exact (roles_kept hg hsingle h').2.2.2 (hid ▸ hbound) role hheld

theorem keepsRoles_edits (g : Graph) {edits : List Edit}
    (h : ∀ e ∈ edits, ∀ id kind, e ≠ .editNode id kind) :
    ReflTransGen KeepsRoles g (edits.foldl after g) := by
  induction edits generalizing g with
  | nil => exact .refl
  | cons e rest ih =>
    have hmoves : ¬ g.MovesRole e := by
      rintro ⟨⟩
      exact h _ List.mem_cons_self _ _ rfl
    exact .head ⟨e, hmoves, rfl⟩ (ih _ fun e he => h e (List.mem_cons_of_mem _ he))

/-- A bound graph whose manifest is replaced, and then not removed. -/
def manifested : Graph :=
  [.addNode (.manifest {}), .addNode (.tileRequirements {}), .addNode (.manifest {}),
    .removeNode ⟨2⟩].foldl after { id := some "coast" }

theorem manifested_single_roles : manifested.holders .manifest = [⟨2⟩] ∧
    (∀ role, (manifested.holders role).length ≤ 1) ∧
      (some "coast" ≠ none → ∀ role, manifested.holders role ≠ [] →
        ∀ g', ReflTransGen KeepsRoles manifested g' → g'.holders role ≠ []) ∧
      ∀ e, manifested.MovesRole e →
        ∃ role, manifested.holders role ≠ [] ∧ (manifested.after e).holders role = [] :=
  ⟨by decide +kernel, single_roles (some "coast") 0 (keepsRoles_edits _ (by simp))⟩

/-- A bound graph with a manifest and tile requirements. -/
def equipped : Graph :=
  [.addNode (.manifest {}), .addNode (.tileRequirements {})].foldl after { id := some "coast" }

/-- An edit that puts tile requirements in the place of a manifest is not refused. It leaves two
nodes of one role, and none of another that a bound graph had. -/
theorem equipped_edited :
    (¬ ∀ g : Graph, g.Reached → ∀ role, (g.holders role).length ≤ 1) ∧
      ¬ ∀ g : Graph, g.Reached → g.id ≠ none → ∀ role, g.holders role ≠ [] →
        ∀ e, (g.after e).holders role ≠ [] := by
  have hg : equipped.Reached := (Reached.fresh (some "coast") 0).edits _
  refine ⟨fun h => ?_, fun h => ?_⟩
  · have hone := h _ (hg.edit (.editNode ⟨0⟩ (.tileRequirements {}))) .tileRequirements
    have htwo : ((equipped.after (.editNode ⟨0⟩ (.tileRequirements {}))).holders
        .tileRequirements).length = 2 := by decide +kernel
    rw [htwo] at hone
    exact absurd hone (by decide)
  · exact h _ hg (by decide +kernel) .manifest (by decide +kernel)
      (.editNode ⟨0⟩ (.tileRequirements {})) (by decide +kernel)

end Graph
end Terrain
