import Terrain.Proofs.Except
import Terrain.Proofs.Graph.Stroke

/-! Every edit of a well-formed graph is a row of strokes, so it is one of elementary steps, and
edits keep graphs well-formed. -/
namespace Terrain

namespace Graph

open Relation

variable {g g' : Graph} {id : NodeId} {n : Node}

/-- A row of elementary steps. -/
abbrev Steps : Graph → Graph → Prop := ReflTransGen Step

theorem findNode_eq_ok : g.findNode id = .ok n ↔ g.node? id = some n := by
  unfold findNode
  cases g.node? id <;> simp

theorem findPort_eq_ok {p : PortRef} {direction : Direction} {port : Port}
    (h : g.findPort p = .ok (direction, port)) :
    ∃ n, g.node? p.node = some n ∧
      match direction with
      | .input => n.input? p.port = some port
      | .output => n.output? p.port = some port := by
  obtain ⟨n, hn, h⟩ := Except.bind_eq_ok.1 h
  refine ⟨n, findNode_eq_ok.1 hn, ?_⟩
  cases hi : n.input? p.port with
  | some input =>
    simp only [hi] at h
    cases h
    rfl
  | none =>
    cases ho : n.output? p.port with
    | some output =>
      simp only [hi, ho] at h
      cases h
      rfl
    | none =>
      simp only [hi, ho] at h
      cases h

theorem strokes_detach (g : Graph) (ids : List NodeId) :
    ∃ new, Strokes g new (ids.foldl detach g) := by
  induction ids generalizing g with
  | nil => exact ⟨[], .nil g⟩
  | cons id ids ih =>
    obtain ⟨new, h⟩ := ih (g.detach id)
    exact ⟨_, .cons (.detach id) h⟩

theorem strokes_addNode (g : Graph) (kind : Kind) : ∃ new, Strokes g new (g.addNode kind).2 := by
  obtain ⟨new, h⟩ := strokes_detach g (g.replacedBy kind)
  exact ⟨_, h.append (.single (.push kind (Seed.ofIndex _)))⟩

theorem strokes_removeNode (h : g.removeNode id = .ok g') : ∃ new, Strokes g new g' := by
  obtain ⟨n, _, h⟩ := Except.bind_eq_ok.1 h
  have hdetach : ∃ new, Strokes g new (g.detach id) := ⟨_, .single (.detach id)⟩
  split at h
  · split at h
    · cases h
    · cases h
      exact hdetach
  · cases h
    exact hdetach

theorem strokes_unplug (g : Graph) (target : PortRef) : ∃ new, Strokes g new (g.unplug target) := by
  cases h : g.connectionTo? target with
  | none =>
    rw [unplug, h]
    exact ⟨[], .nil g⟩
  | some old =>
    obtain rfl : old.target = target := by simpa using List.find?_some h
    exact ⟨_, .single (.unplug old h)⟩

theorem strokes_connect (hg : g.WellFormed) {source target : PortRef}
    (h : g.connect source target = .ok g') : ∃ new, Strokes g new g' := by
  obtain ⟨⟨sourceDirection, output⟩, hsource, h⟩ := Except.bind_eq_ok.1 h
  obtain ⟨⟨targetDirection, input⟩, htarget, h⟩ := Except.bind_eq_ok.1 h
  simp only [Except.guard_eq_ok, Bool.or_eq_true, decide_eq_true_eq, not_or, not_not] at h
  obtain ⟨⟨rfl, rfl⟩, hne, htype, h⟩ := h
  obtain ⟨m, hm, hout⟩ := findPort_eq_ok hsource
  obtain ⟨n, hn, hin⟩ := findPort_eq_ok htarget
  split at h
  · cases h
    exact ⟨[], .nil g⟩
  · cases h
    obtain ⟨new, hunplug⟩ := strokes_unplug g target
    have hj : (g.unplug target).Joins ⟨source, target⟩ m n output input :=
      Joins.of_node? ⟨hm, hn, hout, hin, htype, hne⟩ (node?_unplug g target)
    exact ⟨_, hunplug.append (.single
      (.plug ⟨source, target⟩ m n output input hj (hg.connectionTo?_unplug target)))⟩

theorem nodes_connect {source target : PortRef} (h : g.connect source target = .ok g') :
    g'.nodes = g.nodes ∧ g'.nextNode = g.nextNode := by
  obtain ⟨_, _, h⟩ := Except.bind_eq_ok.1 h
  obtain ⟨_, _, h⟩ := Except.bind_eq_ok.1 h
  simp only [Except.guard_eq_ok] at h
  obtain ⟨_, _, _, h⟩ := h
  split at h
  · cases h
    exact ⟨rfl, rfl⟩
  · cases h
    exact ⟨nodes_unplug g target, nextNode_unplug g target⟩

theorem strokes_connectNamed (hg : g.WellFormed) {source target : NodeId} {output input : String}
    (h : g.connectNamed source output target input = .ok g') : ∃ new, Strokes g new g' := by
  obtain ⟨s, _, h⟩ := Except.bind_eq_ok.1 h
  obtain ⟨t, _, h⟩ := Except.bind_eq_ok.1 h
  exact strokes_connect hg h

theorem strokes_disconnect {target : PortRef} {c : Option Connection}
    (h : g.disconnect target = .ok (c, g')) : ∃ new, Strokes g new g' := by
  obtain ⟨_, _, h⟩ := Except.bind_eq_ok.1 h
  cases h
  exact strokes_unplug g target

theorem strokes_addPort {type : PortType} {port : PortId}
    (h : g.addPort id type = .ok (port, g')) : ∃ new, Strokes g new g' := by
  obtain ⟨n, hn, h⟩ := Except.bind_eq_ok.1 h
  cases hd : n.kind.layout.dynamic with
  | none =>
    simp only [hd] at h
    cases h
  | some d =>
    simp only [hd, Except.guard_eq_ok] at h
    cases h.2
    exact ⟨_, .single (.grow id n d (findNode_eq_ok.1 hn) hd)⟩

/-- To unplug an input and to rework a node are independent of each other. -/
theorem unplug_modifyNode (g : Graph) (id : NodeId) (f : Node → Node) (target : PortRef) :
    (g.modifyNode id f).unplug target = (g.unplug target).modifyNode id f := by
  have hto : (g.modifyNode id f).connectionTo? target = g.connectionTo? target := rfl
  rw [unplug, unplug, hto]
  cases g.connectionTo? target <;> rfl

theorem strokes_removePort (hg : g.WellFormed) {p : PortRef} (h : g.removePort p = .ok g') :
    ∃ new, Strokes g new g' := by
  obtain ⟨n, hn, h⟩ := Except.bind_eq_ok.1 h
  cases hd : n.kind.layout.dynamic with
  | none =>
    simp only [hd] at h
    cases h
  | some d =>
    simp only [hd, Except.guard_eq_ok] at h
    cases h.2.2
    rw [unplug_modifyNode]
    -- The connection goes first, so that none ends at a port that is not there.
    obtain ⟨new, hunplug⟩ := strokes_unplug g p
    have hnode := (node?_unplug g p p.node).trans (findNode_eq_ok.1 hn)
    exact ⟨_, hunplug.append (.single (.shrink p n d hnode (hg.connectionTo?_unplug p)))⟩

theorem strokes_editNode {kind : Kind} (h : g.editNode id kind = .ok g') :
    ∃ new, Strokes g new g' := by
  obtain ⟨n, hn, h⟩ := Except.bind_eq_ok.1 h
  simp only [Except.guard_eq_ok, not_not] at h
  obtain ⟨hk, h⟩ := h
  split at h
  · cases h
    exact ⟨[], .nil g⟩
  · cases h
    exact ⟨_, .single (.tune id n _ (findNode_eq_ok.1 hn) (Node.tunes_kind hk))⟩

theorem strokes_setLiteral {p : PortRef} {literal : Literal}
    (h : g.setLiteral p literal = .ok g') : ∃ new, Strokes g new g' := by
  obtain ⟨n, hn, h⟩ := Except.bind_eq_ok.1 h
  cases hp : n.input? p.port with
  | none =>
    simp only [hp] at h
    cases h
  | some port =>
    simp only [hp, Except.guard_eq_ok] at h
    cases h.2
    exact ⟨_, .single (.tune p.node n _ (findNode_eq_ok.1 hn) (Node.tunes_setLiteral _ _))⟩

theorem strokes_setNodeSeed {seed : Seed} (h : g.setNodeSeed id seed = .ok g') :
    ∃ new, Strokes g new g' := by
  obtain ⟨n, hn, h⟩ := Except.bind_eq_ok.1 h
  split at h
  · cases h
    exact ⟨[], .nil g⟩
  · cases h
    exact ⟨_, .single (.tune id n _ (findNode_eq_ok.1 hn) (Node.tunes_seed seed))⟩

theorem strokes_setSeed (g : Graph) (seed : Seed) : ∃ new, Strokes g new (g.setSeed seed) := by
  unfold setSeed
  split
  · exact ⟨[], .nil g⟩
  · exact ⟨_, .single (.reseed seed)⟩

/-- What an edit of a well-formed graph does is a row of strokes. -/
theorem strokes_perform (hg : g.WellFormed) {e : Edit} {reply : Reply}
    (hp : g.perform e = .ok (reply, g')) : ∃ new, Strokes g new g' := by
  cases e with
  | addNode kind =>
    cases hp
    exact strokes_addNode g kind
  | setSeed seed =>
    cases hp
    exact strokes_setSeed g seed
  | removeNode id =>
    obtain ⟨_, h, ⟨⟩⟩ := Except.map_eq_ok.1 hp
    exact strokes_removeNode h
  | editNode id kind =>
    obtain ⟨_, h, ⟨⟩⟩ := Except.map_eq_ok.1 hp
    exact strokes_editNode h
  | connect source target =>
    obtain ⟨_, h, ⟨⟩⟩ := Except.map_eq_ok.1 hp
    exact strokes_connect hg h
  | connectNamed source output target input =>
    obtain ⟨_, h, ⟨⟩⟩ := Except.map_eq_ok.1 hp
    exact strokes_connectNamed hg h
  | disconnect target =>
    obtain ⟨⟨_, _⟩, h, ⟨⟩⟩ := Except.map_eq_ok.1 hp
    exact strokes_disconnect h
  | addPort id type =>
    obtain ⟨⟨_, _⟩, h, ⟨⟩⟩ := Except.map_eq_ok.1 hp
    exact strokes_addPort h
  | removePort p =>
    obtain ⟨_, h, ⟨⟩⟩ := Except.map_eq_ok.1 hp
    exact strokes_removePort hg h
  | setLiteral p literal =>
    obtain ⟨_, h, ⟨⟩⟩ := Except.map_eq_ok.1 hp
    exact strokes_setLiteral h
  | setNodeSeed id seed =>
    obtain ⟨_, h, ⟨⟩⟩ := Except.map_eq_ok.1 hp
    exact strokes_setNodeSeed h

/-- The same of an edit that may be refused, which is the empty row then. -/
theorem strokes_after (hg : g.WellFormed) (e : Edit) : ∃ new, Strokes g new (g.after e) := by
  unfold after
  cases h : g.perform e with
  | ok r => exact strokes_perform hg h
  | error _ => exact ⟨[], .nil g⟩

theorem Strokes.steps {new : List Change} (h : Strokes g new g') (hg : g.WellFormed) :
    Steps g g' := by
  induction h with
  | nil => exact .refl
  | cons hs _ ih => exact .head (hs.step hg) (ih ((hs.step hg).wellFormed hg))

/-- An edit is a row of elementary steps. -/
theorem steps_after (hg : g.WellFormed) (e : Edit) : Steps g (g.after e) := by
  obtain ⟨_, h⟩ := strokes_after hg e
  exact h.steps hg

theorem Steps.wellFormed (h : Steps g g') (hg : g.WellFormed) : g'.WellFormed := by
  induction h with
  | refl => exact hg
  | tail _ hs ih => exact hs.wellFormed ih

theorem after_wellFormed (hg : g.WellFormed) (e : Edit) : (g.after e).WellFormed :=
  (steps_after hg e).wellFormed hg

theorem new_wellFormed (name : Option String) (seed : Seed) :
    ({ id := name, seed } : Graph).WellFormed where
  nodup := List.nodup_nil
  below _ h := absurd h List.not_mem_nil
  fits _ h := absurd h List.not_mem_nil
  joins _ h := absurd h List.not_mem_nil
  fed := List.nodup_nil

end Graph
end Terrain
