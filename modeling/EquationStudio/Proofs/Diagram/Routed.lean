import EquationStudio.Proofs.Synthesis.Readable

/-!
# Diagrams whose nodes read differently

A port is named by its node's identity in words, and two identities that are not texts may read the
same: the number seven and the text of its digit. As long as this does not happen
(`Diagram.NamesApart`), each port that is listed is a port of a node, each connection leaves an
output that is listed, and each port that is fed is fed by a connection (`Diagram.Routed`), whatever
data the identities are.

`Edit.Makes` says once, for identities of any kind, what diagram an edit makes of another, with the
data the edit names: `Edit.apply_makes` proves that every edit does so, and `Diagram.Routed.run`
carries the three facts along a run of edits in which the nodes always read differently.
-/

namespace EquationStudio

namespace Diagram

/-- No two nodes have identities that read the same in words. -/
def NamesApart (g : Diagram) : Prop := (g.nodes.values.map Node.ident).Nodup

instance (g : Diagram) : Decidable g.NamesApart := inferInstanceAs (Decidable (List.Nodup _))

/-- The nodes that stand in a keyed diagram are those that are listed. -/
theorem Keyed.mem_nodes {g : Diagram} (h : g.Keyed) {n : Node} :
    n ∈ g.nodes.values ↔ g.Holds n := by
  rw [Table.mem_values]
  constructor
  · rintro ⟨k, hk⟩
    rw [Holds, (h.node hk).1, hk]
  · exact fun hn => ⟨_, hn⟩

/-- Nodes that read the same are the same. -/
theorem NamesApart.eq {g : Diagram} (h : g.NamesApart) (hg : g.Keyed) {n m : Node} (hn : g.Holds n)
    (hm : g.Holds m) (he : n.ident = m.ident) : n = m :=
  List.inj_on_of_nodup_map h (hg.mem_nodes.2 hn) (hg.mem_nodes.2 hm) he

/-- Nodes under texts read differently. -/
theorem Reachable.namesApart {g : Diagram} (h : g.Reachable) : g.NamesApart := by
  have hwf := h.wellFormed
  have hnodup : (g.nodes.values.map fun n => Key.text n.ident).Nodup :=
    Table.nodup_values fun k n hn => (hwf.node hn).1.symm
  have htexts : (g.nodes.values.map Node.ident).map Key.text = g.nodes.values.map fun n =>
      Key.text n.ident :=
    List.map_map
  exact List.Nodup.of_map Key.text (htexts ▸ hnodup)

/-- Along a run of edits that give texts as identities, nodes read differently at all times. -/
theorem namesApart_of_textual {edits : List Edit} (h : ∀ e ∈ edits, Edit.Textual e)
    (supply : Supply) : ∀ past, past <+: edits → (run past supply).NamesApart := fun past hpast =>
  Reachable.namesApart ⟨past, supply, fun e he => h e (hpast.subset he), rfl⟩

/-- A node found by a datum stands in the diagram. -/
theorem Keyed.holds_of_node? {g : Diagram} (h : g.Keyed) {id : Datum} {n : Node}
    (hn : g.node? id = .ok (some n)) : g.Holds n := by
  obtain ⟨k, -, hk⟩ := ok_of_bind hn
  rw [Holds, (h.node (Except.ok.inj hk)).1]
  exact Except.ok.inj hk

/-- A keyed diagram whose ports are those of its nodes, whose connections leave outputs that are
listed, and in which a port is fed by a connection to it, whose identity equals itself. -/
structure Routed (g : Diagram) : Prop extends g.Keyed where
  port : ∀ {k p}, g.ports.get? k = some p ↔ k = .text p.id ∧ ∃ n, g.Holds n ∧ p ∈ n.ports
  source : ∀ {k c}, g.connections.get? k = some c →
    ∃ p, g.ports.get? (.text c.source) = some p ∧ p.side = .output
  feed : ∀ {k i}, g.feeds.get? k = some i →
    i.Selfsame ∧ ∃ c, g.connections.get? i.key = some c ∧ k = .text c.target

end Diagram

/-! ## What an edit makes -/

/-- The diagram that an edit makes of another. -/
inductive Edit.Makes (g : Diagram) : Edit → Diagram → Prop
  /-- An edit that is refused, or one that touches constraints only. -/
  | same {e : Edit} {g' : Diagram} (nodes : g'.nodes = g.nodes) (ports : g'.ports = g.ports)
      (connections : g'.connections = g.connections) (feeds : g'.feeds = g.feeds) : Makes g e g'
  | create {kind position id : Datum} {n : Node} (i : Nat) (new : g.nodes.get? n.id.key = none)
      (named : n.id.datum.plain = .ok n.ident) :
      Makes g (.create kind position id) ({ g with nextNode := i }.addNode n)
  | setValue {id value : Datum} {n : Node} {w v : Number} (held : g.node? id = .ok (some n))
      (carried : n.content = .number w) :
      Makes g (.setValue id value) (g.replaceNode
        { n with content := .number v, label := v.literal }).2
  | setVariable {id name : Datum} {n : Node} {s s' : String} (held : g.node? id = .ok (some n))
      (carried : n.content = .symbol s) :
      Makes g (.setVariable id name) (g.replaceNode { n with content := .symbol s', label := s' }).2
  | setLabel {id label : Datum} {n : Node} (s : String) (held : g.node? id = .ok (some n)) :
      Makes g (.setLabel id label) (g.replaceNode { n with label := s }).2
  | move {id position : Datum} {n : Node} (p : Position) (held : g.node? id = .ok (some n)) :
      Makes g (.move id position) (g.replaceNode { n with position := p }).2
  | removeNode {id : Datum} {n : Node} (held : g.node? id = .ok (some n)) :
      Makes g (.removeNode id) (g.dropNode n)
  | addConnection {source target id : Datum} {out into : Port} {c : Connection} (j : Nat)
      (wire : g.checkWire source target = .ok (out, into)) (leaves : c.source = out.id)
      (leads : c.target = into.id) (new : g.connections.get? c.id.key = none)
      (selfsame : id.equal id = true → c.id.Selfsame) :
      Makes g (.addConnection source target id) ({ g with nextConnection := j }.addWire c)
  | connect {source target index : Datum} {n : Node} {out into out' into' : Port}
      {c : Connection} (j : Nat)
      (held : g.node? target = .ok (some n)) (input : into ∈ n.inputs)
      (wire : g.checkWire (.text out.id) (.text into.id) = .ok (out', into'))
        (leaves : c.source = out'.id)
      (leads : c.target = into'.id) (new : g.connections.get? c.id.key = none)
      (selfsame : c.id.Selfsame) :
      Makes g (.connect source target index) ({ g with nextConnection := j }.addWire c)
  | removeConnection {id : Datum} {k : Key} {c : Connection} (key : id.key = .ok k)
      (held : g.connections.get? k = some c) : Makes g (.removeConnection id) (g.dropConnection c)
  | clear : Makes g .clear g.clear

namespace Edit

/-- The identity that an edit gives to a connection equals itself, if it gives any. Only the
undefined double does not. -/
def Selfsame : Edit → Prop
  | addConnection _ _ id => id.equal id = true
  | _ => True

/-- An edit that gives texts as identities gives such as equal themselves. -/
theorem Textual.selfsame {e : Edit} (h : e.Textual) : e.Selfsame := by
  cases e with
  | addConnection source target id =>
    obtain rfl | ⟨s, rfl⟩ := h
    · rfl
    · exact beq_self_eq_true s
  | _ => trivial

variable {g : Diagram} {e : Edit}

/-- A request that is refused makes nothing new. -/
theorem Makes.after {β : Type} {r : Except Fault (β × Diagram)}
    (h : ∀ b g', r = .ok (b, g') → e.Makes g g') :
    e.Makes g (g.after r) := by
  match r, h with
  | .ok (b, g'), h => exact h b g' rfl
  | .error _, _ => exact .same rfl rfl rfl rfl

/-- An identity that is granted is new. -/
theorem requestedId_new {id : Datum} {i : Identity} (h : g.requestedId id = .ok (some i)) :
    g.nodes.get? i.key = none := by
  unfold Diagram.requestedId at h
  split at h
  · cases h
  · obtain ⟨requested, -, h⟩ := ok_of_bind h
    split at h
    · obtain ⟨_, _, h⟩ := ok_of_bind h
      cases h
    · next hfree =>
      split at h
      · cases h
        exact Table.contains_eq_false.1 (Bool.eq_false_iff.2 hfree)
      · cases h

/-- What creating a node makes. -/
theorem create_makes (kind position id : Datum) :
    (create kind position id).Makes g (g.create kind position id).2 := by
  have hcreateAs : ∀ {i : Identity} (j : Nat), g.nodes.get? i.key = none →
      (create kind position id).Makes g ({ g with nextNode := j }.createAs kind position i).2 := by
    intro i j hnew
    unfold Diagram.createAs
    split
    · exact .same rfl rfl rfl rfl
    · next n hn =>
      obtain ⟨k, -, hn⟩ := ok_of_bind hn
      obtain ⟨rfl, -⟩ := Node.make_ok hn
      exact .create j hnew (Node.plain_of_make hn)
  unfold Diagram.create
  split
  · exact .same rfl rfl rfl rfl
  · next i hi => exact hcreateAs g.nextNode (requestedId_new hi)
  · exact hcreateAs g.freshNodeId.2 (Diagram.get?_freshId g.nodes "n" g.nextNode)

/-- What setting a value makes. -/
theorem setValue_makes (id value : Datum) :
    (setValue id value).Makes g (g.after (g.setValue id value)) := by
  refine .after fun m g' h => ?_
  obtain ⟨n, w, v, hn, hw, -, -, rfl, rfl⟩ := Diagram.setValue_ok h
  exact .setValue hn hw

/-- What setting a variable makes. -/
theorem setVariable_makes (id name : Datum) :
    (setVariable id name).Makes g (g.after (g.setVariable id name)) := by
  refine .after fun m g' h => ?_
  obtain ⟨n, hn, h⟩ := ok_of_bind h
  split at h
  · next s hs =>
    obtain ⟨s', -, h⟩ := ok_of_bind h
    cases h
    exact .setVariable (Diagram.requireNode_ok hn) hs
  · cases h

/-- What setting a label makes. -/
theorem setLabel_makes (id label : Datum) :
    (setLabel id label).Makes g (g.after (g.setLabel id label)) := by
  refine .after fun m g' h => ?_
  obtain ⟨n, hn, h⟩ := ok_of_bind h
  split at h
  · split at h
    · cases h
    · cases h; exact .setLabel _ (Diagram.requireNode_ok hn)
  · cases h

/-- What moving a node makes. -/
theorem move_makes (id position : Datum) :
    (move id position).Makes g (g.after (g.move id position)) := by
  refine .after fun m g' h => ?_
  obtain ⟨n, hn, h⟩ := ok_of_bind h
  obtain ⟨p, -, h⟩ := ok_of_bind h
  cases h
  exact .move p (Diagram.requireNode_ok hn)

/-- What attaching a constraint makes touches no table but that of constraints. -/
theorem attach_makes (id : Datum) (c : Constraint) : e.Makes g (g.after (g.attach id c)) := by
  refine .after fun c' g' h => ?_
  obtain ⟨⟨⟩, -, h⟩ := ok_of_bind h
  obtain ⟨target, -, h⟩ := ok_of_bind h
  obtain ⟨r, -, h⟩ := ok_of_bind h
  cases h
  exact .same rfl rfl rfl rfl

/-- What attaching a constraint that is given as a record makes. -/
theorem addConstraint_makes (supply : Supply) (id record : Datum) :
    e.Makes g (g.after (g.addConstraint supply id record).1) := by
  unfold Diagram.addConstraint
  split
  · exact .same rfl rfl rfl rfl
  · split
    · cases Constraint.ofRecord supply _ with
      | mk read supply' =>
        cases read with
        | error _ => exact .same rfl rfl rfl rfl
        | ok c => exact attach_makes id c
    · exact .same rfl rfl rfl rfl

/-- What detaching a constraint makes. -/
theorem removeConstraint_makes (id constraint : Datum) :
    e.Makes g (g.after (g.removeConstraint id constraint)) := by
  refine .after fun found g' h => ?_
  obtain ⟨⟨found, r⟩, -, h⟩ := ok_of_bind h
  cases h
  exact .same rfl rfl rfl rfl

/-- What removing a node makes. -/
theorem removeNode_makes (id : Datum) :
    (removeNode id).Makes g (g.after ((g.removeNode id).map ((), ·))) := by
  cases h : g.removeNode id with
  | error _ => exact .same rfl rfl rfl rfl
  | ok g' =>
    obtain ⟨found, hfound, h⟩ := ok_of_bind h
    split at h
    · cases h; exact .removeNode hfound
    · cases h; exact .same rfl rfl rfl rfl

/-- The identity of a new connection is new, whatever data it is. -/
theorem connectionId_new {id : Datum} {i : Identity} {g' : Diagram}
    (h : g.connectionId id = .ok (i, g')) :
    g' = { g with nextConnection := g'.nextConnection } ∧ g.connections.get? i.key = none := by
  refine ⟨Diagram.connectionId_numbered h, ?_⟩
  unfold Diagram.connectionId at h
  split at h
  · obtain ⟨requested, -, h⟩ := ok_of_bind h
    split at h
    · obtain ⟨_, _, h⟩ := ok_of_bind h
      cases h
    · next hfree =>
      cases h
      exact Table.contains_eq_false.1 (Bool.eq_false_iff.2 hfree)
  · cases h
    exact Diagram.get?_freshId g.connections "c" g.nextConnection

/-- The identity of a new connection equals itself, if what is asked for does. -/
theorem connectionId_selfsame {id : Datum} {i : Identity} {g' : Diagram} (hid : id.equal id = true)
    (h : g.connectionId id = .ok (i, g')) : i.Selfsame := by
  unfold Diagram.connectionId at h
  split at h
  · obtain ⟨requested, hrequested, h⟩ := ok_of_bind h
    split at h
    · obtain ⟨_, _, h⟩ := ok_of_bind h
      cases h
    · cases h
      rwa [Identity.Selfsame, Identity.datum_of_ofDatum hrequested]
  · obtain ⟨j, hfresh, -⟩ := Diagram.freshId_new g.connections "c" g.nextConnection
    cases h
    exact hfresh ▸ Identity.selfsame_ofText _

/-- A connection that is added has an identity that equals itself, if what is asked for does. -/
theorem addConnection_selfsame {source target id : Datum} {c : Connection} {g' : Diagram}
    (hid : id.equal id = true) (h : g.addConnection source target id = .ok (c, g')) :
    c.id.Selfsame := by
  obtain ⟨⟨out, into⟩, -, h⟩ := ok_of_bind h
  obtain ⟨⟨i, g₁⟩, hmade, h⟩ := ok_of_bind h
  cases h
  exact connectionId_selfsame hid hmade

/-- A connection that is added has its ports checked and a new identity. -/
theorem addConnection_ok {source target id : Datum} {c : Connection} {g' : Diagram}
    (h : g.addConnection source target id = .ok (c, g')) :
    ∃ out into j, g.checkWire source target = .ok (out, into) ∧ c.source = out.id ∧
      c.target = into.id ∧
      g.connections.get? c.id.key = none ∧ g' = { g with nextConnection := j }.addWire c := by
  obtain ⟨⟨out, into⟩, hwire, h⟩ := ok_of_bind h
  obtain ⟨⟨i, g₁⟩, hid, h⟩ := ok_of_bind h
  obtain ⟨hnumbered, hnew⟩ := connectionId_new hid
  cases h
  exact ⟨out, into, g₁.nextConnection, hwire, rfl, rfl, hnew,
    congrArg (Diagram.addWire · _) hnumbered⟩

/-- What adding a connection makes. -/
theorem addConnection_makes (source target id : Datum) :
    (addConnection source target id).Makes g (g.after (g.addConnection source target id)) := by
  refine .after fun c g' h => ?_
  obtain ⟨out, into, j, hwire, hleaves, hleads, hnew, rfl⟩ := addConnection_ok h
  exact .addConnection j hwire hleaves hleads hnew fun hid => addConnection_selfsame hid h

/-- Nodes are wired by an output of the one and an input of the other. -/
theorem connect_ok {source target index : Datum} {c : Connection} {g' : Diagram}
    (h : g.connect source target index = .ok (c, g')) :
    ∃ start into out port, g.node? source = .ok (some start) ∧ g.node? target = .ok (some into) ∧
      out ∈ start.outputs ∧ port ∈ into.inputs ∧
        g.addConnection (.text out.id) (.text port.id) .null = .ok (c, g') := by
  obtain ⟨start, hstart, h⟩ := ok_of_bind h
  obtain ⟨into, hinto, h⟩ := ok_of_bind h
  split at h
  · obtain ⟨_, _, h⟩ := ok_of_bind h
    cases h
  · next out rest houts =>
    obtain ⟨port, hport, h⟩ := ok_of_bind h
    obtain ⟨i, -, hport⟩ := ok_of_bind hport
    refine ⟨start, into, out, port, Diagram.requireNode_ok hstart,
      Diagram.requireNode_ok hinto, ?_, ?_, h⟩
    · rw [houts]
      exact List.mem_cons_self
    · split at hport
      · next q hq =>
        cases hport
        obtain ⟨j, -, hj⟩ := Option.bind_eq_some_iff.1 hq
        exact List.mem_of_getElem? hj
      · obtain ⟨_, _, hport⟩ := ok_of_bind hport
        obtain ⟨_, _, hport⟩ := ok_of_bind hport
        cases hport

/-- What wiring two nodes makes. -/
theorem connect_makes (source target index : Datum) :
    (connect source target index).Makes g (g.after (g.connect source target index)) := by
  refine .after fun c g' h => ?_
  obtain ⟨start, n, out, port, -, hn, -, hinput, h⟩ := connect_ok h
  obtain ⟨out', into', j, hwire, hleaves, hleads, hnew, rfl⟩ := addConnection_ok h
  exact .connect j hn hinput hwire hleaves hleads hnew (addConnection_selfsame rfl h)

/-- What removing a connection makes. -/
theorem removeConnection_makes (id : Datum) :
    (removeConnection id).Makes g (g.after ((g.removeConnection id).map ((), ·))) := by
  cases h : g.removeConnection id with
  | error _ => exact .same rfl rfl rfl rfl
  | ok g' =>
    obtain ⟨k, hk, h⟩ := ok_of_bind h
    split at h
    · next c hc => cases h; exact .removeConnection hk hc
    · cases h; exact .same rfl rfl rfl rfl

/-- What an edit makes of a diagram, whatever data it names. -/
theorem apply_makes (e : Edit) (s : Diagram × Supply) : e.Makes s.1 (e.apply s).1 := by
  cases e with
  | create kind position id => exact create_makes kind position id
  | setValue id value => exact setValue_makes id value
  | setVariable id name => exact setVariable_makes id name
  | setLabel id label => exact setLabel_makes id label
  | move id position => exact move_makes id position
  | addConstraint id record => exact addConstraint_makes s.2 id record
  | attach id c => exact attach_makes id c
  | removeConstraint id constraint => exact removeConstraint_makes id constraint
  | removeNode id => exact removeNode_makes id
  | addConnection source target id => exact addConnection_makes source target id
  | connect source target index => exact connect_makes source target index
  | removeConnection id => exact removeConnection_makes id
  | clear => exact .clear

end Edit

namespace Diagram

variable {g g' : Diagram}

/-! ## Connections taken away -/

/-- The connections that are left. -/
theorem connections_foldl_dropConnection (cs : List Connection) (g : Diagram) :
    (cs.foldl dropConnection g).connections = (cs.map (·.id.key)).foldl
    Table.erase g.connections := by
  induction cs generalizing g with
  | nil => rfl
  | cons c cs ih => exact ih (g.dropConnection c)

/-- Which connections at the ports of a node are taken away with it. -/
theorem mem_touching {ids : List String} {c : Connection} :
    c ∈ g.connections.values.filter (fun c => ids.contains c.source || ids.contains c.target) ↔
      (∃ k, g.connections.get? k = some c) ∧ (c.source ∈ ids ∨ c.target ∈ ids) := by
  rw [List.mem_filter, Bool.or_eq_true, List.contains_iff_mem,
    List.contains_iff_mem, Table.mem_values]

namespace Routed

/-- Nothing is listed in the empty diagram. -/
theorem empty (i j : Nat) : Routed { nextNode := i, nextConnection := j } where
  toKeyed := .empty i j
  port := ⟨nofun, by rintro ⟨-, n, hn, -⟩; cases hn⟩
  source h := by cases h
  feed h := by cases h

/-- Only the tables of nodes, ports, connections and feeds matter. -/
theorem congr (h : g.Routed) (nodes : g'.nodes = g.nodes) (ports : g'.ports = g.ports)
    (connections : g'.connections = g.connections) (feeds : g'.feeds = g.feeds) : g'.Routed := by
  have holds : ∀ n, g'.Holds n ↔ g.Holds n := fun n => by rw [Holds, Holds, nodes]
  refine ⟨h.toKeyed.congr nodes connections, ?_, ?_, ?_⟩
  · simp only [ports, holds]
    exact h.port
  · rw [connections, ports]
    exact h.source
  · rw [feeds, connections]
    exact h.feed

/-- The ports of a node are listed. -/
theorem get?_port (h : g.Routed) {n : Node} (hn : g.Holds n) {p : Port} (hp : p ∈ n.ports) :
    g.ports.get? (.text p.id) = some p := h.port.2 ⟨rfl, n, hn, hp⟩

/-- A port that belongs to a node of the diagram is listed for that node. -/
theorem owner?_port (h : g.Routed) {n : Node} (hn : g.Holds n) {p : Port} (hp : p ∈ n.ports) :
    g.owner? (.text p.id) = some n := by
  rw [owner?, h.get?_port hn hp]
  exact (congrArg (fun i : Identity => g.nodes.get? i.key) (Node.owner_of_mem_ports hp)).trans hn

/-- The node a port is listed for stands in the diagram and has a port of that name. -/
theorem owner?_eq_some (h : g.Routed) {k : Key} {n : Node} (hk : g.owner? k = some n) :
    g.Holds n ∧ ∃ p ∈ n.ports, k = .text p.id ∧ g.ports.get? k = some p := by
  obtain ⟨p, hp, hn⟩ := Option.bind_eq_some_iff.1 hk
  obtain ⟨rfl, m, hm, hpm⟩ := h.port.1 hp
  rw [Node.owner_of_mem_ports hpm, hm] at hn
  cases hn
  exact ⟨hm, p, hpm, rfl, hp⟩

/-! ## What keeps a diagram routed -/

/-- The nodes once one is added under a new key. -/
theorem holds_addNode {n m : Node} (hnew : g.nodes.get? n.id.key = none) :
    (g.addNode n).Holds m ↔ m = n ∨ g.Holds m := by
  rw [Holds, Diagram.addNode, Table.get?_insert]
  split
  · next hk => simp [Holds, hk, hnew, eq_comm]
  · next hk =>
    refine ⟨.inr, fun hm => hm.resolve_left ?_⟩
    rintro rfl
    exact hk rfl

/-- The nodes once one is set under its own key. -/
theorem holds_replaceNode {n m : Node} :
    (g.replaceNode n).2.Holds m ↔ m = n ∨ g.Holds m ∧ m.id.key ≠ n.id.key := by
  rw [Holds, Diagram.replaceNode, Table.get?_insert]
  split
  · next hk => simp [hk, eq_comm]
  · next hk =>
    refine ⟨fun hm => .inr ⟨hm, hk⟩, fun hm => (hm.resolve_left ?_).1⟩
    rintro rfl
    exact hk rfl

/-- The ports once a node is added that reads like no other. -/
theorem get?_ports_addNode (h : g.Routed) {n : Node}
    (hname : ∀ m, g.Holds m → m.ident ≠ n.ident) {k : Key}
    {p : Port} :
    (g.addNode n).ports.get? k = some p ↔ g.ports.get? k = some p ∨
    p ∈ n.ports ∧ k = .text p.id := by
  refine get?_withPorts fun q hq => Option.eq_none_iff_forall_ne_some.2 fun q' hq' => ?_
  obtain ⟨hid, m, hm, hqm⟩ := h.port.1 hq'
  exact hname m hm (Node.ident_eq_of_port_id hqm hq (Key.text.inj hid).symm)

/-- A node is added under a new key; it reads like no other. -/
theorem addNode (h : g.Routed) {n : Node} (hkeyed : (g.addNode n).Keyed)
    (hnew : g.nodes.get? n.id.key = none) (hname : ∀ m, g.Holds m → m.ident ≠ n.ident) :
    (g.addNode n).Routed := by
  have hports : ∀ {k p}, (g.addNode n).ports.get? k = some p ↔
      g.ports.get? k = some p ∨ p ∈ n.ports ∧ k = .text p.id := h.get?_ports_addNode hname
  refine ⟨hkeyed, ?_, fun hc => ?_, h.feed⟩
  · intro k p
    rw [hports, h.port]
    constructor
    · rintro (⟨hk, m, hm, hp⟩ | ⟨hp, hk⟩)
      · exact ⟨hk, m, (holds_addNode hnew).2 (.inr hm), hp⟩
      · exact ⟨hk, n, (holds_addNode hnew).2 (.inl rfl), hp⟩
    · rintro ⟨hk, m, hm, hp⟩
      rcases (holds_addNode hnew).1 hm with rfl | hm
      · exact .inr ⟨hp, hk⟩
      · exact .inl ⟨hk, m, hm, hp⟩
  · obtain ⟨p, hp, hside⟩ := h.source hc
    exact ⟨p, hports.2 (.inl hp), hside⟩

/-- A node is replaced by one of the same identity and kind. -/
theorem replaceNode (h : g.Routed) {n n' : Node} (hk : (g.replaceNode n').2.Keyed) (hn : g.Holds n)
    (hid : n'.id = n.id) (hident : n'.ident = n.ident) (hkind : n'.kind = n.kind) :
    (g.replaceNode n').2.Routed := by
  have hports : n'.ports = n.ports := Node.ports_congr hid hident hkind
  refine ⟨hk, ?_, h.source, h.feed⟩
  intro k p
  refine h.port.trans (and_congr_right fun _ => ?_)
  constructor
  · rintro ⟨m, hm, hp⟩
    by_cases he : m.id.key = n.id.key
    · have hmn : m = n := by
        rw [Holds, he, hn] at hm
        exact (Option.some.inj hm).symm
      exact ⟨n', holds_replaceNode.2 (.inl rfl), by rwa [hports, ← hmn]⟩
    · exact ⟨m, holds_replaceNode.2 (.inr ⟨hm, hid ▸ he⟩), hp⟩
  · rintro ⟨m, hm, hp⟩
    obtain rfl | ⟨hm, -⟩ := holds_replaceNode.1 hm
    · exact ⟨n, hn, hports ▸ hp⟩
    · exact ⟨m, hm, hp⟩

/-- A connection is added under a new key; it leaves an output that is listed. -/
theorem addWire (h : g.Routed) {c : Connection} {p : Port}
    (hsource : g.ports.get? (.text c.source) = some p)
    (hside : p.side = .output) (hnew : g.connections.get? c.id.key = none) (hself : c.id.Selfsame) :
    (g.addWire c).Routed := by
  refine ⟨h.toKeyed.addWire c, h.port, fun {k d} hd => ?_, fun {k i} hi => ?_⟩
  · rw [Diagram.addWire, Table.get?_insert] at hd
    split at hd
    · cases hd; exact ⟨p, hsource, hside⟩
    · exact h.source hd
  · rw [Diagram.addWire, Table.get?_insert] at hi
    rw [Diagram.addWire]
    dsimp only
    rw [Table.get?_insert]
    split at hi
    · next hk => cases hi; exact ⟨hself, c, if_pos rfl, hk⟩
    · obtain ⟨hself', d, hd, hk⟩ := h.feed hi
      have hne : i.key ≠ c.id.key := fun he => by
        rw [he, hnew] at hd
        cases hd
      exact ⟨hself', d, by rwa [if_neg hne], hk⟩

/-- A connection whose ports have been checked is added under a new key. -/
theorem addChecked (h : g.Routed) {c : Connection} {source target : Datum}
    {out into : Port} (j : Nat) (hwire : g.checkWire source target = .ok (out, into))
    (hleaves : c.source = out.id) (hnew : g.connections.get? c.id.key = none)
    (hself : c.id.Selfsame) : ({ g with nextConnection := j }.addWire c).Routed := by
  obtain ⟨⟨k, hout⟩, -, hside, -⟩ := checkWire_ok hwire
  obtain ⟨rfl, -⟩ := h.port.1 hout
  have hnumbered : Routed { g with nextConnection := j } := h.congr rfl rfl rfl rfl
  refine hnumbered.addWire ?_ hside hnew hself
  rw [hleaves]
  exact hout

/-- A connection is taken away that was not replaced by another under its key. -/
theorem dropConnection (h : g.Routed) {c : Connection}
    (hc : ∀ c', g.connections.get? c.id.key = some c' → c' = c) : (g.dropConnection c).Routed := by
  refine ⟨h.toKeyed.foldl_dropConnection [c], h.port, fun {k d} hd => ?_, fun {k i} hi => ?_⟩
  · rw [Diagram.dropConnection, Table.get?_erase] at hd
    split at hd
    · cases hd
    · exact h.source hd
  · obtain ⟨hi, hne⟩ := (get?_feeds_dropConnection h.feed hc).1 hi
    obtain ⟨hself, d, hd, hk⟩ := h.feed hi
    exact ⟨hself, d, by rw [Diagram.dropConnection, Table.get?_erase, if_neg hne]; exact hd, hk⟩

/-- What feeds a port once a connection is taken away. -/
theorem feeding?_dropConnection (h : g.Routed) {c : Connection}
    (hc : ∀ c', g.connections.get? c.id.key = some c' → c' = c) (k : Key) :
    (g.dropConnection c).feeding? k = (g.feeding? k).filter fun d => d.id.key ≠ c.id.key := by
  have hfeeds : ∀ i, (g.dropConnection c).feeds.get? k = some i ↔ g.feeds.get? k = some i ∧
      i.key ≠ c.id.key :=
    fun i => get?_feeds_dropConnection h.feed hc
  have hconnections : ∀ k', (g.dropConnection c).connections.get? k' =
      if k' = c.id.key then none else g.connections.get? k' := Table.get?_erase _ _
  have hnone : (g.dropConnection c).feeds.get? k = none → (g.dropConnection c).feeding? k = none :=
    fun h => by
    rw [feeding?, h]; rfl
  cases hk : g.feeds.get? k with
  | none =>
    rw [hnone (Option.eq_none_iff_forall_ne_some.2 fun i hi => by simp [((hfeeds i).1 hi).1] at hk),
      feeding?, hk]
    rfl
  | some i =>
    obtain ⟨-, d, hd, -⟩ := h.feed hk
    have hdk : d.id.key = i.key := h.connection hd
    by_cases hi : i.key = c.id.key
    · have hfree : (g.dropConnection c).feeds.get? k = none := by
        refine Option.eq_none_iff_forall_ne_some.2 fun j hj => ?_
        obtain ⟨hj, hne⟩ := (hfeeds j).1 hj
        cases hk.symm.trans hj
        exact hne hi
      rw [hnone hfree, feeding?, hk]
      simp only [bind, Option.bind, hd]
      split <;> simp [Option.filter, hdk, hi]
    · rw [feeding?, (hfeeds i).2 ⟨hk, hi⟩, feeding?, hk]
      simp only [bind, Option.bind, hd, hconnections, if_neg hi]
      split <;> simp [Option.filter, hdk, hi]

/-- Connections are taken away one after another. -/
theorem foldl_dropConnection : ∀ {cs : List Connection} {g : Diagram}, g.Routed →
    (∀ c ∈ cs, ∀ c', g.connections.get? c.id.key = some c' → c' = c) →
    (cs.foldl Diagram.dropConnection g).Routed ∧
      ∀ k, (cs.foldl Diagram.dropConnection g).feeding? k =
      (g.feeding? k).filter fun d => ∀ c ∈ cs, d.id.key ≠ c.id.key
  | [], g, h, _ => ⟨h, fun k => by cases hk : g.feeding? k <;> simp [hk, Option.filter]⟩
  | c :: cs, g, h, hcs => by
    have hrest : ∀ d ∈ cs, ∀ c', (g.dropConnection c).connections.get? d.id.key = some c' →
        c' = d := by
      intro d hd c' hc'
      rw [Diagram.dropConnection, Table.get?_erase] at hc'
      split at hc'
      · cases hc'
      · exact hcs d (.tail _ hd) c' hc'
    obtain ⟨hrouted, hfeeding⟩ := foldl_dropConnection (h.dropConnection (hcs c (.head _))) hrest
    refine ⟨hrouted, fun k => ?_⟩
    rw [List.foldl_cons, hfeeding, h.feeding?_dropConnection (hcs c (.head _)),
      Option.filter_filter]
    congr 1
    funext d
    simp

/-- What feeds a port stands under its own key. -/
theorem get?_of_feeding? (h : g.Routed) {k : Key} {c : Connection} (hc : g.feeding? k = some c) :
    g.connections.get? c.id.key = some c ∧ k = .text c.target := by
  obtain ⟨i, hi, hc⟩ := Option.bind_eq_some_iff.1 hc
  obtain ⟨-, d, hd, hk⟩ := h.feed hi
  split at hc
  · cases hd.symm.trans hc
    exact ⟨(h.connection hd).symm ▸ hd, hk⟩
  · cases hc

/-- The ports that are not those of a node are those of the other nodes. -/
theorem port_erase (h : g.Routed) {n : Node} (hapart : g.NamesApart) (hn : g.Holds n) {k : Key}
    {p : Port} : (g.ports.get? k = some p ∧ ∀ q ∈ n.ports, k ≠ .text q.id) ↔
      k = .text p.id ∧ ∃ m : Node, (g.nodes.erase n.id.key).get? m.id.key = some m ∧
        p ∈ m.ports := by
  rw [h.port]
  constructor
  · rintro ⟨⟨rfl, m, hm, hp⟩, hne⟩
    refine ⟨rfl, m, ?_, hp⟩
    rw [Table.get?_erase, if_neg fun he => ?_]
    · exact hm
    · rw [Holds, he, hn] at hm
      cases hm
      exact hne p hp rfl
  · rintro ⟨rfl, m, hm, hp⟩
    rw [Table.get?_erase] at hm
    split at hm
    · cases hm
    · next hne =>
      refine ⟨⟨rfl, m, hm, hp⟩, fun q hq he => hne ?_⟩
      rw [hapart.eq h.toKeyed hm hn (Node.ident_eq_of_port_id hp hq (Key.text.inj he))]

/-- The diagram without a node, its ports and the connections at them. -/
theorem dropNode (h : g.Routed) {n : Node} (hapart : g.NamesApart) (hn : g.Holds n) :
    (g.dropNode n).Routed ∧ (g.dropNode n).nodes = g.nodes.erase n.id.key ∧
      (∀ {k p}, (g.dropNode n).ports.get? k = some p ↔
        g.ports.get? k = some p ∧ ∀ q ∈ n.ports, k ≠ .text q.id) ∧
      ∀ {k c}, (g.dropNode n).feeding? k = some c ↔ g.feeding? k = some c ∧
        c.source ∉ n.ports.map Port.id ∧ c.target ∉ n.ports.map Port.id := by
  have hkeyed := h.toKeyed.dropNode n
  unfold Diagram.dropNode at hkeyed ⊢
  dsimp only at hkeyed ⊢
  have hmem : ∀ {c}, c ∈ (g.connections.values.filter fun c =>
      (n.ports.map Port.id).contains c.source || (n.ports.map Port.id).contains c.target) ↔
      (∃ k, g.connections.get? k = some c) ∧
        (c.source ∈ n.ports.map Port.id ∨ c.target ∈ n.ports.map Port.id) :=
    mem_touching
  generalize (g.connections.values.filter fun c =>
    (n.ports.map Port.id).contains c.source || (n.ports.map Port.id).contains c.target) = touching
    at hmem hkeyed ⊢
  have hlive : ∀ c ∈ touching, ∀ c', g.connections.get? c.id.key = some c' → c' = c := by
    intro c hc c' hc'
    obtain ⟨k, hk⟩ := (hmem.1 hc).1
    obtain rfl := h.connection hk
    exact Option.some.inj (hc'.symm.trans hk)
  -- Of the connections of the diagram, those are left that do not touch the node.
  have hfar : ∀ {c}, g.connections.get? c.id.key = some c → ((∀ d ∈ touching, c.id.key ≠ d.id.key) ↔
      c.source ∉ n.ports.map Port.id ∧ c.target ∉ n.ports.map Port.id) := by
    intro c hc
    constructor
    · intro hne
      exact ⟨fun hs => hne c (hmem.2 ⟨⟨_, hc⟩, .inl hs⟩) rfl,
        fun ht => hne c (hmem.2 ⟨⟨_, hc⟩, .inr ht⟩) rfl⟩
    · rintro ⟨hs, ht⟩ d hd hkey
      obtain rfl := hlive d hd c (hkey ▸ hc)
      exact (hmem.1 hd).2.elim hs ht
  obtain ⟨hrouted, hfeeding⟩ := h.foldl_dropConnection hlive
  obtain ⟨hnodes, hports, -, -⟩ := foldl_dropConnection_tables touching g
  have hconnections := connections_foldl_dropConnection touching g
  generalize touching.foldl Diagram.dropConnection g = g₁ at *
  rw [hnodes] at hkeyed ⊢
  rw [hports] at hkeyed ⊢
  refine ⟨⟨hkeyed, get?_withoutPorts.trans (h.port_erase hapart hn), fun {k c} hc => ?_,
    hrouted.feed⟩, rfl, get?_withoutPorts, fun {k c} => ?_⟩
  · have hheld : g.connections.get? k = some c ∧ ∀ d ∈ touching, c.id.key ≠ d.id.key := by
      have hc' := hc
      rw [hconnections, Table.get?_foldl_erase] at hc'
      split at hc'
      · cases hc'
      · next hne =>
        refine ⟨hc', fun d hd he => hne (List.mem_map.2 ⟨d, hd, ?_⟩)⟩
        rw [← he, h.connection hc']
    obtain ⟨hheld, hne⟩ := hheld
    obtain ⟨p, hp, hside⟩ := h.source hheld
    obtain ⟨hs, -⟩ := (hfar (h.connection hheld ▸ hheld)).1 hne
    refine ⟨p, get?_withoutPorts.2 ⟨hp, fun q hq he => hs ?_⟩, hside⟩
    rw [Key.text.inj he]
    exact List.mem_map_of_mem hq
  · show g₁.feeding? k = some c ↔ _
    rw [hfeeding, Option.filter_eq_some_iff]
    refine and_congr_right fun hc => ?_
    rw [decide_eq_true_iff, hfar (h.get?_of_feeding? hc).1]

/-- An edit keeps a diagram routed, as long as its nodes read differently. -/
theorem apply {e : Edit} (he : e.Selfsame) {s : Diagram × Supply} (h : s.1.Routed)
    (hapart : s.1.NamesApart) (hapart' : (e.apply s).1.NamesApart) : (e.apply s).1.Routed := by
  have hkeyed := h.toKeyed.apply e
  have hmakes := e.apply_makes s
  generalize (e.apply s).1 = g' at hapart' hkeyed hmakes
  cases hmakes with
  | same nodes ports connections feeds => exact h.congr nodes ports connections feeds
  | @create _ _ _ n i new _ =>
    refine addNode (g := { s.1 with nextNode := i }) (h.congr rfl rfl rfl rfl) hkeyed
      new fun m hm he => ?_
    have hmn :=
      hapart'.eq hkeyed ((holds_addNode new).2 (.inr hm)) ((holds_addNode new).2 (.inl rfl)) he
    rw [hmn, Holds] at hm
    cases new.symm.trans hm
  | setValue held carried =>
    refine h.replaceNode hkeyed (h.holds_of_node? held) rfl rfl ?_
    rw [Node.kind, Node.kind, carried]
    rfl
  | setVariable held carried =>
    refine h.replaceNode hkeyed (h.holds_of_node? held) rfl rfl ?_
    rw [Node.kind, Node.kind, carried]
    rfl
  | setLabel t held => exact h.replaceNode hkeyed (h.holds_of_node? held) rfl rfl rfl
  | move p held => exact h.replaceNode hkeyed (h.holds_of_node? held) rfl rfl rfl
  | removeNode held => exact (h.dropNode hapart (h.holds_of_node? held)).1
  | addConnection j wire leaves leads new selfsame =>
    exact h.addChecked j wire leaves new (selfsame he)
  | connect j held input wire leaves leads new selfsame =>
    exact h.addChecked j wire leaves new selfsame
  | removeConnection key held =>
    obtain rfl := h.connection held
    exact h.dropConnection fun c' hc' => Option.some.inj (hc'.symm.trans held)
  | clear => exact empty _ _

/-- A diagram at the end of a run of edits is routed, if its nodes read differently at all times and
the identities given to connections equal themselves. -/
theorem run (edits : List Edit) (supply : Supply) (hself : ∀ e ∈ edits, e.Selfsame)
    (hapart : ∀ past, past <+: edits → (Diagram.run past supply).NamesApart) :
    (Diagram.run edits supply).Routed := by
  induction edits using List.reverseRecOn with
  | nil => exact empty 1 1
  | append_singleton edits e ih =>
    have hbefore : ∀ past, past <+: edits → (Diagram.run past supply).NamesApart :=
      fun past h => hapart past (h.trans (List.prefix_append _ _))
    have hlast : e.Selfsame := hself e (List.mem_append_right _ (.head _))
    have hrouted := ih (fun e' he' => hself e' (List.mem_append_left _ he')) hbefore
    have happ := hapart (edits ++ [e]) (List.prefix_refl _)
    unfold Diagram.run at happ ⊢
    rw [List.foldl_append] at happ ⊢
    exact hrouted.apply hlast (hbefore edits (List.prefix_refl _)) happ

end Routed

end Diagram

end EquationStudio
