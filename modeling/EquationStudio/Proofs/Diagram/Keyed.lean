import EquationStudio.Proofs.Diagram.WellFormed

/-!
# Diagrams with identities of any kind

Identities may be any data that make keys: numbers, truth values, texts. Whatever they are, nodes
and connections stand under their own keys, no node stands under null, and what nodes carry has been
accepted (`Diagram.Keyed`). An edit that gives no identity is a `Diagram.Step`; the two that may
give one are looked at again here, so that `Diagram.Keyed.run` holds of every run of edits.
-/

namespace EquationStudio

/-- A node that is made has the identity and the kind it is made for. -/
theorem Node.make_ok {kind : NodeKind} {id : Identity} {position : Datum} {n : Node}
    (h : Node.make kind id position = .ok n) : n.id = id ∧ n.content = kind.content := by
  obtain ⟨ident, -, h⟩ := ok_of_bind h
  obtain ⟨p, -, h⟩ := ok_of_bind h
  cases h
  exact ⟨rfl, rfl⟩

/-- A node that is made reads like its identity. -/
theorem Node.plain_of_make {kind : NodeKind} {id : Identity} {position : Datum} {n : Node}
    (h : Node.make kind id position = .ok n) : n.id.datum.plain = .ok n.ident := by
  obtain ⟨ident, hident, h⟩ := ok_of_bind h
  obtain ⟨p, -, h⟩ := ok_of_bind h
  cases h
  exact hident

namespace Diagram

/-- What holds of the nodes and connections of a diagram, whatever data their identities are. -/
structure Keyed (g : Diagram) : Prop where
  /-- Nodes stand under their own keys, none of them null, and carry what has been accepted. -/
  node : ∀ {k n}, g.nodes.get? k = some n → n.id.key = k ∧ k ≠ .null ∧ n.content.Valid
  /-- Connections stand under their own keys. -/
  connection : ∀ {k c}, g.connections.get? k = some c → c.id.key = k

/-- Taking connections away leaves the other tables, and keeps connections under their own keys. -/
theorem foldl_dropConnection_tables : ∀ (cs : List Connection) (g : Diagram),
    let g' := cs.foldl dropConnection g
    g'.nodes = g.nodes ∧ g'.ports = g.ports ∧ g'.constraints = g.constraints ∧
      ∀ k c, g'.connections.get? k = some c → g.connections.get? k = some c
  | [], _ => ⟨rfl, rfl, rfl, fun _ _ h => h⟩
  | c :: cs, g => by
    obtain ⟨hnodes, hports, hconstraints, hsub⟩ :=
      foldl_dropConnection_tables cs (g.dropConnection c)
    refine ⟨hnodes, hports, hconstraints, fun k d hd => ?_⟩
    have hdrop := hsub k d hd
    rw [dropConnection, Table.get?_erase] at hdrop
    split at hdrop
    · cases hdrop
    · exact hdrop

/-- An identity that is asked for and granted is given, and makes a key other than null. -/
theorem requestedId_ok {g : Diagram} {id : Datum} {i : Identity}
    (h : g.requestedId id = .ok (some i)) : i.datum = id ∧ i.key ≠ .null := by
  unfold requestedId at h
  split at h
  · cases h
  · next hgiven =>
    obtain ⟨requested, hrequested, h⟩ := ok_of_bind h
    split at h
    · obtain ⟨_, _, h⟩ := ok_of_bind h
      cases h
    · have hi : requested = i := by
        split at h
        · exact Option.some.inj (Except.ok.inj h)
        · cases h
      subst hi
      have hdatum := Identity.datum_of_ofDatum hrequested
      refine ⟨hdatum, fun hnull => hgiven ?_⟩
      have hkey := requested.made
      rw [hnull, hdatum] at hkey
      rw [Datum.eq_null_of_key hkey]
      rfl

/-- Finding an identity for a connection uses up numbers and changes nothing else. -/
theorem connectionId_numbered {g g' : Diagram} {id : Datum} {i : Identity}
    (h : g.connectionId id = .ok (i, g')) :
    g' = { g with nextConnection := g'.nextConnection } := by
  unfold connectionId at h
  split at h
  · obtain ⟨_, _, h⟩ := ok_of_bind h
    split at h
    · obtain ⟨_, _, h⟩ := ok_of_bind h
      cases h
    · cases h; rfl
  · cases h; rfl

namespace Keyed

variable {g g' : Diagram}

/-- Nothing stands in the empty diagram. -/
theorem empty (i j : Nat) : Keyed { nextNode := i, nextConnection := j } where
  node h := by cases h
  connection h := by cases h

/-- Numbers used up, ports, feeds and constraints do not matter. -/
theorem congr (h : g.Keyed) (hnodes : g'.nodes = g.nodes)
    (hconnections : g'.connections = g.connections) :
    g'.Keyed :=
  ⟨fun hn => h.node (hnodes ▸ hn), fun hc => h.connection (hconnections ▸ hc)⟩

/-- A node set under its own key, which is not null, and with accepted contents. -/
theorem insertNode (h : g.Keyed) {n : Node} (hkey : n.id.key ≠ .null) (hn : n.content.Valid)
    (hnodes : g'.nodes = g.nodes.insert n.id.key n)
    (hconnections : g'.connections = g.connections) :
    g'.Keyed := by
  refine ⟨fun {k m} hm => ?_, fun hc => h.connection (hconnections ▸ hc)⟩
  rw [hnodes, Table.get?_insert] at hm
  split at hm
  · next hk =>
    subst hk
    cases hm
    exact ⟨rfl, hkey, hn⟩
  · exact h.node hm

/-- A node that is found is replaced under its own key. -/
theorem replaceNode (h : g.Keyed) {id : Datum} {n m : Node} (hn : g.node? id = .ok (some n))
    (hid : m.id = n.id) (hm : n.content.Valid → m.content.Valid) : (g.replaceNode m).2.Keyed := by
  obtain ⟨k, -, hk⟩ := ok_of_bind hn
  obtain ⟨rfl, hnull, hvalid⟩ := h.node (Except.ok.inj hk)
  exact h.insertNode (hid ▸ hnull) (hm hvalid) rfl rfl

/-- A connection is added under its own key. -/
theorem addWire (h : g.Keyed) (c : Connection) : (g.addWire c).Keyed := by
  refine ⟨h.node, fun {k d} hd => ?_⟩
  rw [Diagram.addWire, Table.get?_insert] at hd
  split at hd
  · next hk => cases hd; exact hk.symm
  · exact h.connection hd

/-- Connections are taken away. -/
theorem foldl_dropConnection (h : g.Keyed) (cs : List Connection) :
    (cs.foldl Diagram.dropConnection g).Keyed := by
  obtain ⟨hnodes, -, -, hsub⟩ := foldl_dropConnection_tables cs g
  exact ⟨fun hn => h.node (hnodes ▸ hn), fun hc => h.connection (hsub _ _ hc)⟩

/-- A node is removed. -/
theorem dropNode (h : g.Keyed) (n : Node) : (g.dropNode n).Keyed := by
  unfold Diagram.dropNode
  have hkept := h.foldl_dropConnection (g.connections.values.filter fun c =>
    (n.ports.map Port.id).contains c.source || (n.ports.map Port.id).contains c.target)
  refine ⟨fun {k m} hm => ?_, hkept.connection⟩
  rw [Table.get?_erase] at hm
  split at hm
  · cases hm
  · exact hkept.node hm

/-- A step keeps a diagram keyed. -/
theorem step {P : Constraint → Prop} (h : g.Keyed) (hs : Step P g g') : g'.Keyed := by
  cases hs with
  | refused | attach | detach => exact h.congr rfl rfl
  | create i s kind position named new =>
    exact h.insertNode (by exact nofun) kind.valid_content rfl rfl
  | setValue held carried read checked =>
    exact h.replaceNode held rfl fun _ => Number.ofDatum_toDatum read
  | setVariable held carried read => exact h.replaceNode held rfl fun _ =>
    (readVariable_text read).1
  | setLabel held given => exact h.replaceNode held rfl id
  | move held position => exact h.replaceNode held rfl id
  | wire j s => exact (h.congr rfl rfl : Keyed { g with nextConnection := j }).addWire _
  | unwire => exact h.foldl_dropConnection [_]
  | remove held => exact h.dropNode _
  | clear => exact empty _ _

/-- Creating a node under an identity that is not null keeps a diagram keyed. -/
theorem createAs (h : g.Keyed) (kind position : Datum) {id : Identity} (hid : id.key ≠ .null) :
    (g.createAs kind position id).2.Keyed := by
  unfold Diagram.createAs
  split
  · exact h
  · next n hn =>
    obtain ⟨k, -, hn⟩ := ok_of_bind hn
    obtain ⟨rfl, hcontent⟩ := Node.make_ok hn
    exact h.insertNode hid (hcontent ▸ k.valid_content) rfl rfl

/-- Creating a node keeps a diagram keyed, whatever identity is asked for. -/
theorem create (h : g.Keyed) (kind position id : Datum) : (g.create kind position id).2.Keyed := by
  unfold Diagram.create
  split
  · exact h
  · next i hi => exact h.createAs kind position (requestedId_ok hi).2
  · obtain ⟨j, hfresh, -⟩ := freshId_new g.nodes "n" g.nextNode
    have hkey : g.freshNodeId.1.key ≠ .null := by
      rw [freshNodeId, hfresh]
      intro h
      cases h
    exact (h.congr rfl rfl : Keyed { g with nextNode := g.freshNodeId.2 }).createAs
      kind position hkey

/-- Wiring two ports keeps a diagram keyed, whatever identity is asked for. -/
theorem addConnection (h : g.Keyed) (source target id : Datum) :
    (g.after (g.addConnection source target id)).Keyed := by
  cases ha : g.addConnection source target id with
  | error _ => exact h
  | ok made =>
    obtain ⟨⟨out, into⟩, -, ha⟩ := ok_of_bind ha
    obtain ⟨⟨i, g₁⟩, hid, ha⟩ := ok_of_bind ha
    cases ha
    have hnumbered : g₁.Keyed := by
      rw [connectionId_numbered hid]
      exact h.congr rfl rfl
    exact hnumbered.addWire _

/-- An edit keeps a diagram keyed, carried out or refused. -/
theorem apply {s : Diagram × Supply} (h : s.1.Keyed) (e : Edit) : (e.apply s).1.Keyed := by
  have hstep : ∀ {e : Edit}, e.Textual → (e.Attaches fun _ => True) → (e.apply s).1.Keyed :=
    fun he hP => h.step (Edit.apply_step he hP s.1 s.2)
  cases e with
  | create kind position id => exact h.create kind position id
  | addConnection source target id => exact h.addConnection source target id
  | setValue | setVariable | setLabel | move | addConstraint | attach
      | removeConstraint | removeNode
  | connect | removeConnection | clear =>
    exact hstep trivial (by simp [Edit.Attaches])

/-- Edits one after another keep a diagram keyed. -/
theorem foldl_apply {s : Diagram × Supply} (h : s.1.Keyed) :
    ∀ edits : List Edit, (edits.foldl Edit.apply s).1.Keyed
  | [] => h
  | e :: edits => foldl_apply (h.apply e) edits

/-- Every diagram at the end of a run of edits is keyed. -/
theorem run (edits : List Edit) (supply : Supply) : (Diagram.run edits supply).Keyed :=
  foldl_apply (s := ({}, supply)) (empty 1 1) edits

end Keyed

end Diagram

end EquationStudio
