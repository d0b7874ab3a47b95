import EquationStudio.Proofs.Diagram.Anchored

/-!
# A node that is taken away

What is left when a node is removed is the diagram without it (`Diagram.Without`): the other nodes,
the connections that do not touch it and the constraints of other targets, all in their order. If
every port is found with its own node, exactly the inputs that the node fed become free, and the
free ones take connections (`Diagram.Frees`).
-/

namespace EquationStudio

namespace Diagram

variable {g g' : Diagram} {n m : Node} {p : Port} {c : Connection}

/-! ## What is left -/

/-- The diagram without a node. -/
structure Without (g : Diagram) (n : Node) (g' : Diagram) : Prop where
  /-- The other nodes stay as they are, in their order, … -/
  nodes : g'.nodes.values = g.nodes.values.filter fun m => m.id.key ≠ n.id.key
  /-- … and so do the connections that do not touch it … -/
  connections : g'.connections.values = g.connections.values.filter fun c => ¬ c.Touches n
  /-- … and the constraints of other targets. -/
  constraints : g'.constraints.table.toList = g.constraints.table.toList.filter fun e =>
    e.1 ≠ n.id.key
  /-- The ports that are listed are those that were, but for the node's own. -/
  ports : ∀ {k p}, g'.ports.get? k = some p ↔ g.ports.get? k = some p ∧
    ∀ q ∈ n.ports, k ≠ .text q.id
  /-- The inputs that are fed are those to which a connection leads that is left. -/
  feeds : ∀ {k i}, g'.feeds.get? k = some i ↔
    ∃ c ∈ g'.connections.values, k = .text c.target ∧ c.id = i

/-- No connection feeds a port. -/
def Free (g : Diagram) (p : Port) : Prop := g.feeds.get? (.text p.id) = none

/-- A connection leads from an output of a node to a port. -/
def Supplies (g : Diagram) (n : Node) (p : Port) : Prop :=
  ∃ c ∈ g.connections.values, c.target = p.id ∧ ∃ q ∈ n.outputs, q.id = c.source

/-- The inputs that are left when a node is taken away. -/
structure Frees (g : Diagram) (n : Node) (g' : Diagram) : Prop where
  /-- Those become free that the node fed, … -/
  freed : ∀ m, g'.Holds m → ∀ p ∈ m.inputs, (g'.Free p ∧ ¬ g.Free p) ↔ g.Supplies n p
  /-- … the others are fed as before, … -/
  kept : ∀ m, g'.Holds m → ∀ p ∈ m.inputs, ¬ g.Supplies n p →
    g'.feeds.get? (.text p.id) = g.feeds.get? (.text p.id)
  /-- … and each that is free accepts a connection from any output of another node. -/
  accepts : ∀ m, g'.Holds m → ∀ p ∈ m.inputs, g'.Free p → ∀ a, g'.Holds a → a ≠ m → ∀ q ∈ a.outputs,
    g'.checkWire (.text q.id) (.text p.id) = .ok (q, p) ∧
      ∃ c g'', g'.addConnection (.text q.id) (.text p.id) .null = .ok (c, g'') ∧ c.source = q.id ∧
        c.target = p.id

/-- What is left when a node is removed is the diagram without it. -/
theorem Anchored.without_dropNode (h : g.Anchored) (hn : g.Holds n) :
    g.Without n (g.dropNode n) where
  nodes := by
    rw [(dropNode_tables g n).1]
    have hvalues : (g.nodes.keep fun m => m.id.key ≠ n.id.key) = g.nodes.erase n.id.key := by
      refine Table.ext_entries (List.filter_congr fun e he => ?_)
      have hkey : e.2.id.key = e.1 := (h.node (Table.get?_eq_some.2 he)).1
      dsimp only
      rw [hkey]
    rw [← hvalues, Table.values_keep]
  connections := by rw [h.toKeyed.connections_dropNode, Table.values_keep]
  constraints := by
    rw [constraints_dropNode]
    exact List.filter_reverse.symm
  ports := by
    rw [(dropNode_tables g n).2]
    exact get?_withoutPorts
  feeds := by
    intro k i
    rw [(h.dropNode hn).feed]
    simp only [(h.dropNode hn).mem_connections]

/-! ## Inputs that become free -/

/-- A port of a node is found, and the node is found for it. -/
theorem OwnsPorts.get?_port (h : g.OwnsPorts) (hn : g.Holds n) (hp : p ∈ n.ports) :
    g.ports.get? (.text p.id) = some p := Except.ok.inj (h n hn p hp).1

/-- Ports with one identity belong to one node, if each port is found with its own. -/
theorem OwnsPorts.apart (h : g.OwnsPorts) : g.PortsApart := by
  intro n m hn hm p hp q hq hid
  have hfound : g.owner? (.text p.id) = some n := Except.ok.inj (h n hn p hp).2
  have hfound' : g.owner? (.text q.id) = some m := Except.ok.inj (h m hm q hq).2
  rw [hid, hfound'] at hfound
  exact (Option.some.inj hfound).symm

/-- A port is free exactly if no connection leads there. -/
theorem Anchored.free_iff (h : g.Anchored) : g.Free p ↔ ∀ c, g.HasWire c → c.target ≠ p.id := by
  rw [Free, Option.eq_none_iff_forall_ne_some]
  constructor
  · intro hfree c hc htarget
    exact hfree c.id (h.feed.2 ⟨c, hc, by rw [htarget], rfl⟩)
  · intro hfree i hi
    obtain ⟨c, hc, htarget, -⟩ := h.feed.1 hi
    exact hfree c hc (Key.text.inj htarget).symm

/-- Connections that lead to one port are the same. -/
theorem Anchored.wire_unique (h : g.Anchored) {c c' : Connection} (hc : g.HasWire c)
    (hc' : g.HasWire c') (he : c.target = c'.target) : c = c' := by
  have hfeed := h.feed.2 ⟨c, hc, rfl, rfl⟩
  have hfeed' := h.feed.2 ⟨c', hc', rfl, rfl⟩
  rw [he, hfeed'] at hfeed
  rw [HasWire] at hc hc'
  rw [← Option.some.inj hfeed, hc'] at hc
  exact (Option.some.inj hc).symm

/-- The connections that touch a node and lead to a port of another are those by which it feeds the
port. -/
theorem Anchored.supplies_iff (h : g.Anchored) (howns : g.OwnsPorts) (hn : g.Holds n)
    (hm : g.Holds m) (hne : m ≠ n) (hp : p ∈ m.ports) : g.Supplies n p ↔ ∃ c, g.HasWire c ∧
    c.target = p.id ∧ c.Touches n := by
  constructor
  · rintro ⟨c, hc, htarget, q, hq, hsource⟩
    refine ⟨c, h.mem_connections.1 hc, htarget, .inl ?_⟩
    rw [← hsource]
    exact List.mem_map_of_mem (Node.mem_ports.2 (.inr hq))
  · rintro ⟨c, hc, htarget, htouches⟩
    refine ⟨c, h.mem_connections.2 hc, htarget, ?_⟩
    rcases htouches with hsource | hleads
    · obtain ⟨q, hq, hid⟩ := List.mem_map.1 hsource
      obtain ⟨⟨out, hout, hside⟩, -⟩ := h.wire hc
      rw [← hid, howns.get?_port hn hq] at hout
      rw [← Option.some.inj hout] at hside
      exact ⟨q, (Node.side_eq_output hq).1 hside, hid⟩
    · -- The port would be one of the node's own.
      obtain ⟨q, hq, hid⟩ := List.mem_map.1 hleads
      exact absurd (howns.apart m n hm hn p hp q hq (htarget.symm.trans hid.symm)) hne

/-- An output and a free input of two nodes can be wired. -/
theorem checkWire_eq {a : Node} {q : Port} (hm : g.Holds m) (ha : g.Holds a) (hne : a ≠ m)
    (hp : p ∈ m.inputs) (hq : q ∈ a.outputs) (hpl : g.ports.get? (.text p.id) = some p)
    (hql : g.ports.get? (.text q.id) = some q) (hfree : g.Free p) :
    g.checkWire (.text q.id) (.text p.id) = .ok (q, p) := by
  have hpp : p ∈ m.ports := Node.mem_ports.2 (.inl hp)
  have hqp : q ∈ a.ports := Node.mem_ports.2 (.inr hq)
  have hout : q.side = .output := (Node.side_eq_output hqp).2 hq
  have hin : p.side = .input := (Node.side_eq_input hpp).2 hp
  have hapart : ¬ q.owner.datum.equal p.owner.datum = true := by
    rw [Node.owner_of_mem_ports hpp, Node.owner_of_mem_ports hqp]
    refine mt Identity.key_eq_of_equal fun he => ?_
    rw [Holds] at ha hm
    rw [he, hm] at ha
    exact hne (Option.some.inj ha).symm
  have hopen : g.feeds.contains (.text p.id) = false := Table.contains_eq_false.2 hfree
  simp only [checkWire, port?, Datum.key, ok_bind, pure, Except.pure, hpl, hql, hout, hin, hopen]
  simp [hapart]

/-- Two ports that can be wired are wired, under a number if no identity is given. -/
theorem addConnection_null {source target : Datum} {q : Port}
    (hwire : g.checkWire source target = .ok (q, p)) :
    ∃ c g', g.addConnection source target .null = .ok (c, g') ∧
    c.source = q.id ∧ c.target = p.id := by
  rw [Diagram.addConnection, hwire, ok_bind]
  exact ⟨⟨g.freshConnectionId.1, q.id, p.id⟩, _, rfl, rfl, rfl⟩

/-- The inputs that are left when a node is removed from a diagram in which each port is found with
its own node. -/
theorem Anchored.frees_dropNode (h : g.Anchored) (howns : g.OwnsPorts) (hn : g.Holds n) :
    g.Frees n (g.dropNode n) := by
  have h' := h.dropNode hn
  have hleft : ∀ c, (g.dropNode n).HasWire c ↔ g.HasWire c ∧ ¬ c.Touches n := by
    intro c
    rw [HasWire, h.toKeyed.connections_dropNode, Table.get?_keep, decide_eq_true_iff]
    rfl
  have hfound : ∀ {m p}, (g.dropNode n).Holds m → p ∈ m.ports →
      (g.dropNode n).ports.get? (.text p.id) = some p := by
    intro m p hm hp
    obtain ⟨hm, hne⟩ := (holds_dropNode hn).1 hm
    rw [(dropNode_tables g n).2, get?_withoutPorts]
    refine ⟨howns.get?_port hm hp, fun q hq hid => hne ?_⟩
    exact howns.apart m n hm hn p hp q hq (Key.text.inj hid)
  refine ⟨fun m hm p hp => ?_, fun m hm p hp hfed => ?_, fun m hm p hp hfree a ha hne q hq => ?_⟩
  · obtain ⟨hm, hne⟩ := (holds_dropNode hn).1 hm
    rw [h.supplies_iff howns hn hm hne (Node.mem_ports.2 (.inl hp)), h.free_iff, h'.free_iff]
    simp only [hleft]
    constructor
    · rintro ⟨hfree, hfed⟩
      push Not at hfed
      obtain ⟨c, hc, htarget⟩ := hfed
      exact ⟨c, hc, htarget, by_contra fun hfar => hfree c ⟨hc, hfar⟩ htarget⟩
    · rintro ⟨c, hc, htarget, htouches⟩
      refine ⟨?_, fun hfree => hfree c hc htarget⟩
      rintro d ⟨hd, hfar⟩ htarget'
      rw [h.wire_unique hd hc (htarget'.trans htarget.symm)] at hfar
      exact hfar htouches
  · obtain ⟨hm, hne⟩ := (holds_dropNode hn).1 hm
    rw [h.supplies_iff howns hn hm hne (Node.mem_ports.2 (.inl hp))] at hfed
    ext i
    rw [h.feed, h'.feed]
    simp only [hleft]
    constructor
    · rintro ⟨c, ⟨hc, -⟩, htarget, hid⟩
      exact ⟨c, hc, htarget, hid⟩
    · rintro ⟨c, hc, htarget, hid⟩
      exact ⟨c, ⟨hc, fun htouches => hfed ⟨c, hc, (Key.text.inj htarget).symm, htouches⟩⟩,
        htarget, hid⟩
  · have hwire : (g.dropNode n).checkWire (.text q.id) (.text p.id) = .ok (q, p) :=
      checkWire_eq hm ha hne hp hq (hfound hm (Node.mem_ports.2 (.inl hp)))
        (hfound ha (Node.mem_ports.2 (.inr hq))) hfree
    exact ⟨hwire, addConnection_null hwire⟩

end Diagram

end EquationStudio
