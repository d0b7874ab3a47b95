import EquationStudio.Proofs.Constraint.Registry
import EquationStudio.Proofs.Datum.Identity
import EquationStudio.Proofs.Diagram.Ports
import EquationStudio.Proofs.Diagram.Step
import EquationStudio.Proofs.Number

/-!
# Well-formed diagrams

The tables of a diagram depend on each other: `Diagram.WellFormed` says how. Each way in which an
edit changes a diagram keeps it well formed (one lemma for each of `Diagram.addNode`,
`Diagram.replaceNode`, `Diagram.addWire`, `Diagram.dropConnection`, `Diagram.dropNode` and a new
registry), hence so does every step (`Diagram.WellFormed.step`), and every diagram at the end of a
run of edits is well formed (`Diagram.Reachable.wellFormed`).
-/

namespace EquationStudio

/-! ## Nodes -/

/-- What a node carries has been accepted, and is accepted again as it is. -/
def Content.Valid : Content → Prop
  | .number v => Number.ofDatum v.toDatum = .ok v
  | .symbol name => readVariable (.text name) = .ok name
  | .binary _ | .output => True

/-- A node under a text, with valid contents and a label without blanks around it. -/
structure Node.Valid (n : Node) : Prop where
  id_eq : n.id = .ofText n.ident
  ident_ne : n.ident ≠ ""
  content : n.content.Valid
  label : IsTrimmed n.label

/-- The name of a variable that has been read is read again as it is. -/
theorem readVariable_text {d : Datum} {name : String} (h : readVariable d = .ok name) :
    readVariable (.text name) = .ok name ∧ IsTrimmed name := by
  cases d with
  | text s =>
    simp only [readVariable] at h ⊢
    split at h
    · cases h
    · split at h
      · cases h
      · split at h
        · next hne hlen hname =>
          cases h
          rw [trimBlank_trimBlank, if_neg hne, if_neg hlen, if_pos hname]
          exact ⟨rfl, trimBlank_trimBlank s, hne⟩
        · cases h
  | _ => cases h

/-- The name of a variable that is read as it is has the form of a name. -/
theorem isVariableName_of_readVariable {name : String} (h : readVariable (.text name) = .ok name) :
    isVariableName name.toList = true ∧ name.length ≤ variableLimit := by
  simp only [readVariable] at h
  split at h
  · cases h
  · split at h
    · cases h
    · next hlen =>
      split at h
      · next hname =>
        rw [Except.ok.inj h] at hname hlen
        exact ⟨hname, Nat.le_of_not_lt hlen⟩
      · cases h

/-- What a new node carries is valid. -/
theorem NodeKind.valid_content (kind : NodeKind) : kind.content.Valid := by
  cases kind with
  | number =>
    have hzero : Number.ofFinite .zero = .whole 0 := by decide +kernel
    have haccepted := Number.ofDatum_toDatum_ofFinite .zero
    rwa [hzero] at haccepted
  | symbol =>
    have htrim : trimBlank "x" = "x" := by decide +kernel
    simp only [content, Content.Valid, readVariable, htrim]
    rfl
  | binary | output => trivial

/-- The labels of new nodes have no blanks around them. -/
theorem NodeKind.isTrimmed_label (kind : NodeKind) : IsTrimmed kind.label := by
  have hall : ∀ s ∈ ["0", "x", "+", "−", "×", "÷", "^", "Result"], trimBlank s = s ∧ s ≠ "" := by
    decide +kernel
  refine hall _ ?_
  match kind with
  | number | symbol | output | binary .add | binary .subtract | binary .multiply | binary .divide
  | binary .power => simp [label]

/-- A new node is valid. -/
theorem Node.valid_new {s : String} (hs : s ≠ "") (kind : NodeKind) (position : Position) :
    (Node.new s kind position).Valid :=
  ⟨rfl, hs, kind.valid_content, kind.isTrimmed_label⟩

/-- The kind of a new node. -/
@[simp] theorem Node.kind_new (s : String) (kind : NodeKind) (position : Position) :
    (Node.new s kind position).kind = kind := by
  cases kind <;> rfl

/-- The key of a node under a text. -/
theorem Node.Valid.key_eq {n : Node} (h : n.Valid) : n.id.key = .text n.ident := by
  rw [h.id_eq]; rfl

/-- An identity with the key of a text is that of the text. -/
theorem Identity.eq_ofText {i : Identity} {s : String} (h : i.key = .text s) : i = .ofText s := by
  obtain ⟨datum, key, made⟩ := i
  cases h
  cases datum with
  | text t => cases made; rfl
  | float x =>
    have hkey : Key.ofDouble x = .text s := Except.ok.inj made
    unfold Key.ofDouble at hkey
    split at hkey
    · cases hx : FiniteDouble.toInt? _ with
      | none => rw [hx] at hkey; cases hkey
      | some n => rw [hx] at hkey; cases hkey
    · cases hkey
  | _ => cases made

namespace Diagram

/-! ## The tables -/

/-- A node of the diagram. -/
def HasNode (g : Diagram) (n : Node) : Prop := g.nodes.get? (.text n.ident) = some n

/-- A connection of the diagram. -/
def HasWire (g : Diagram) (c : Connection) : Prop := g.connections.get? c.id.key = some c

/-- An output port and an input port, listed, of nodes that differ. -/
def Joins (ports : Table Port) (source target : String) : Prop :=
  ∃ out into, ports.get? (.text source) = some out ∧ ports.get? (.text target) = some into ∧
    out.side = .output ∧ into.side = .input ∧ out.owner.key ≠ into.owner.key

/-- How the tables of a diagram depend on each other. -/
structure WellFormed (g : Diagram) : Prop where
  /-- Nodes are valid and stand under their own identities. -/
  node : ∀ {k n}, g.nodes.get? k = some n → k = .text n.ident ∧ n.Valid
  /-- The ports that are listed are those of the nodes. -/
  port : ∀ {k p}, g.ports.get? k = some p ↔ k = .text p.id ∧ ∃ n, g.HasNode n ∧ p ∈ n.ports
  /-- Connections stand under their own identities, texts, and join two nodes. -/
  wire : ∀ {k c}, g.connections.get? k = some c →
    k = c.id.key ∧ (∃ s, c.id = .ofText s) ∧ Joins g.ports c.source c.target
  /-- A port is fed by the connection to it. -/
  feed : ∀ {k i}, g.feeds.get? k = some i ↔ ∃ c, g.HasWire c ∧ k = .text c.target ∧ c.id = i
  /-- The constraints of a target are compatible. -/
  compatible : g.constraints.Valid
  /-- The targets of constraints are nodes that carry a number or a variable. -/
  target : ∀ {k a}, g.constraints.table.get? k = some a →
    ∃ n, g.nodes.get? k = some n ∧ (n.kind = .number ∨ n.kind = .symbol)

/-- A connection joins what it joined when more ports are listed. -/
theorem Joins.mono {ports ports' : Table Port} {source target : String}
    (h : ∀ {k p}, ports.get? k = some p → ports'.get? k = some p)
    (hj : Joins ports source target) : Joins ports' source target := by
  obtain ⟨out, into, hout, hinto, hrest⟩ := hj
  exact ⟨out, into, h hout, h hinto, hrest⟩

/-- The connections that are left when one is taken away. -/
theorem hasWire_dropConnection {g : Diagram} {c c' : Connection} :
    (g.dropConnection c).HasWire c' ↔ c'.id.key ≠ c.id.key ∧ g.HasWire c' := by
  rw [HasWire, dropConnection, Table.get?_erase]
  by_cases he : c'.id.key = c.id.key <;> simp [he, HasWire]

/-- The inputs that are fed once a connection is taken away, where each one is fed by a connection
to it, under an identity that equals itself: the port it led to gives way only if it was this
connection that fed it. -/
theorem get?_feeds_dropConnection {g : Diagram} {c : Connection}
    (hleads : ∀ {k i}, g.feeds.get? k = some i →
      i.Selfsame ∧ ∃ c, g.connections.get? i.key = some c ∧ k = .text c.target)
    (hc : ∀ c', g.connections.get? c.id.key = some c' → c' = c) {k : Key} {i : Identity} :
    (g.dropConnection c).feeds.get? k = some i ↔ g.feeds.get? k = some i ∧ i.key ≠ c.id.key := by
  rw [Diagram.dropConnection]
  dsimp only
  split
  · next hfed =>
    -- The port is free afterwards, and no other port was fed by this connection.
    obtain ⟨j, hj, hequal⟩ := (Option.any_eq_true _ _).1 hfed
    have hkey : j.key = c.id.key := Identity.key_eq_of_equal hequal
    rw [Table.get?_erase]
    split
    · next hk =>
      subst hk
      rw [hj]
      constructor
      · nofun
      · rintro ⟨hi, hne⟩
        cases hi
        exact absurd hkey hne
    · next hk =>
      refine ⟨fun hi => ⟨hi, fun he => ?_⟩, And.left⟩
      obtain ⟨-, c', hc', rfl⟩ := hleads hi
      obtain rfl := hc c' (he ▸ hc')
      exact hk rfl
  · next hfed =>
    refine ⟨fun hi => ⟨hi, fun he => hfed ?_⟩, And.left⟩
    obtain ⟨hself, c', hc', rfl⟩ := hleads hi
    obtain rfl := hc c' (he ▸ hc')
    rw [hi]
    exact hself.equal_iff.2 he

namespace WellFormed

variable {g : Diagram}

/-! ## What follows at once -/

/-- A node that is found is a node of the diagram. -/
theorem hasNode (h : g.WellFormed) {k : Key} {n : Node} (hn : g.nodes.get? k = some n) :
    g.HasNode n := by
  obtain ⟨rfl, -⟩ := h.node hn
  exact hn

/-- The nodes of a diagram are valid. -/
theorem valid (h : g.WellFormed) {n : Node} (hn : g.HasNode n) : n.Valid := (h.node hn).2

/-- A node of the diagram is found by its identity. -/
theorem get?_id (h : g.WellFormed) {n : Node} (hn : g.HasNode n) : g.nodes.get? n.id.key = some n :=
  (h.valid hn).key_eq ▸ hn

/-- A connection that is found is a connection of the diagram. -/
theorem hasWire (h : g.WellFormed) {k : Key} {c : Connection} (hc : g.connections.get? k = some c) :
    g.HasWire c := by
  obtain ⟨rfl, -⟩ := h.wire hc
  exact hc

/-- Nodes of one identity are the same. -/
theorem node_unique {n m : Node} (hn : g.HasNode n) (hm : g.HasNode m) (he : n.ident = m.ident) :
    n = m := by
  unfold HasNode at hn
  rw [he] at hn
  exact Option.some.inj (hn.symm.trans hm)

/-- The ports of a node are listed. -/
theorem get?_port (h : g.WellFormed) {n : Node} (hn : g.HasNode n) {p : Port} (hp : p ∈ n.ports) :
    g.ports.get? (.text p.id) = some p := h.port.2 ⟨rfl, n, hn, hp⟩

/-- Ports of one identity are the same, and of one node. -/
theorem port_unique {n m : Node} (hn : g.HasNode n) (hm : g.HasNode m) {p q : Port}
    (hp : p ∈ n.ports) (hq : q ∈ m.ports) (he : p.id = q.id) : n = m ∧ p = q := by
  obtain rfl := node_unique hn hm (Node.ident_eq_of_port_id hp hq he)
  exact ⟨rfl, Node.port_eq_of_id hp hq he⟩

/-- Connections to one port are the same. -/
theorem wire_unique (h : g.WellFormed) {c c' : Connection} (hc : g.HasWire c) (hc' : g.HasWire c')
    (he : c.target = c'.target) : c = c' := by
  have hfeed := h.feed.2 ⟨c, hc, rfl, rfl⟩
  have hfeed' := h.feed.2 ⟨c', hc', rfl, rfl⟩
  rw [he, hfeed'] at hfeed
  have hid := Option.some.inj hfeed
  unfold HasWire at hc hc'
  rw [hid, hc] at hc'
  exact Option.some.inj hc'

/-- A port is fed by a connection that leads to it, under a text. -/
theorem leads (h : g.WellFormed) {k : Key} {i : Identity} (hi : g.feeds.get? k = some i) :
    i.Selfsame ∧ ∃ c, g.connections.get? i.key = some c ∧ k = .text c.target := by
  obtain ⟨c, hc, rfl, rfl⟩ := h.feed.1 hi
  obtain ⟨-, ⟨s, hs⟩, -⟩ := h.wire hc
  exact ⟨hs ▸ Identity.selfsame_ofText s, c, hc, rfl⟩

/-- A node that is found is listed, and no other is. -/
theorem mem_nodes (h : g.WellFormed) {n : Node} : n ∈ g.nodes.values ↔ g.HasNode n :=
  Table.mem_values.trans ⟨fun ⟨_, hk⟩ => h.hasNode hk, fun hn => ⟨_, hn⟩⟩

/-- A connection that is found is listed, and no other is. -/
theorem mem_connections (h : g.WellFormed) {c : Connection} :
    c ∈ g.connections.values ↔ g.HasWire c :=
  Table.mem_values.trans ⟨fun ⟨_, hk⟩ => h.hasWire hk, fun hc => ⟨_, hc⟩⟩

/-- A connection goes from an output of a node to an input of another. -/
theorem exists_nodes (h : g.WellFormed) {c : Connection} (hc : g.HasWire c) :
    ∃ n m, g.HasNode n ∧ g.HasNode m ∧ n.ident ≠ m.ident ∧ (∃ out ∈ n.outputs, out.id = c.source) ∧
      ∃ into ∈ m.inputs, into.id = c.target := by
  obtain ⟨-, -, out, into, hout, hinto, hside, hside', hapart⟩ := h.wire hc
  obtain ⟨hsource, n, hn, hp⟩ := h.port.1 hout
  obtain ⟨htarget, m, hm, hq⟩ := h.port.1 hinto
  refine ⟨n, m, hn, hm, fun he => hapart ?_,
    ⟨out, (Node.side_eq_output hp).1 hside, (Key.text.inj hsource).symm⟩,
    ⟨into, (Node.side_eq_input hq).1 hside', (Key.text.inj htarget).symm⟩⟩
  rw [Node.owner_of_mem_ports hp, Node.owner_of_mem_ports hq, node_unique hn hm he]

/-! ## Empty tables and counters -/

/-- The empty diagram is well formed, whatever numbers are used up. -/
theorem empty (i j : Nat) : WellFormed { nextNode := i, nextConnection := j } where
  node h := by cases h
  port := ⟨nofun, by rintro ⟨-, n, hn, -⟩; cases hn⟩
  wire h := by cases h
  feed := ⟨nofun, by rintro ⟨c, hc, -⟩; cases hc⟩
  compatible _ _ h := by cases h
  target h := by cases h

/-- The numbers that are used up do not matter. -/
theorem counters (h : g.WellFormed) (i j : Nat) :
    WellFormed { g with nextNode := i, nextConnection := j } :=
  ⟨h.node, h.port, h.wire, h.feed, h.compatible, h.target⟩

/-! ## Nodes added and replaced -/

/-- The nodes once a node is added under a new identity. -/
theorem get?_addNode {n m : Node} {k : Key} (hn : n.Valid)
    (hnew : g.nodes.get? (.text n.ident) = none) :
    (g.addNode n).nodes.get? k = some m ↔
      (k = .text n.ident ∧ m = n) ∨ g.nodes.get? k = some m := by
  rw [Diagram.addNode, Table.get?_insert, hn.key_eq]
  split
  · next hk => simp [hk, hnew, eq_comm]
  · next hk => simp [hk]

/-- Adding a node under a new identity keeps a diagram well formed. -/
theorem addNode (h : g.WellFormed) {n : Node} (hn : n.Valid)
    (hnew : g.nodes.get? (.text n.ident) = none) : (g.addNode n).WellFormed := by
  have hnodes : ∀ {k m}, (g.addNode n).nodes.get? k = some m ↔
      (k = .text n.ident ∧ m = n) ∨ g.nodes.get? k = some m := get?_addNode hn hnew
  have hfresh : ∀ {q m}, g.HasNode m → q ∈ m.ports → ∀ p ∈ n.ports, q.id ≠ p.id := by
    intro q m hm hq p hp he
    rw [HasNode, Node.ident_eq_of_port_id hq hp he, hnew] at hm
    cases hm
  have hports : ∀ {k p}, (g.addNode n).ports.get? k = some p ↔
      g.ports.get? k = some p ∨ p ∈ n.ports ∧ k = .text p.id := by
    refine get?_withPorts fun p hp => Option.eq_none_iff_forall_ne_some.2 fun q hq => ?_
    obtain ⟨hid, m, hm, hq⟩ := h.port.1 hq
    exact hfresh hm hq p hp (Key.text.inj hid).symm
  refine ⟨fun hk => ?_, ?_, fun hk => ?_, h.feed, h.compatible, fun hk => ?_⟩
  · rcases hnodes.1 hk with ⟨rfl, rfl⟩ | hk
    · exact ⟨rfl, hn⟩
    · exact h.node hk
  · intro k p
    rw [hports, h.port]
    constructor
    · rintro (⟨hk, m, hm, hp⟩ | ⟨hp, hk⟩)
      · exact ⟨hk, m, hnodes.2 (.inr hm), hp⟩
      · exact ⟨hk, n, hnodes.2 (.inl ⟨rfl, rfl⟩), hp⟩
    · rintro ⟨hk, m, hm, hp⟩
      rcases hnodes.1 hm with ⟨-, rfl⟩ | hm
      · exact .inr ⟨hp, hk⟩
      · exact .inl ⟨hk, m, hm, hp⟩
  · obtain ⟨hkey, hid, hj⟩ := h.wire hk
    exact ⟨hkey, hid, hj.mono fun hp => hports.2 (.inl hp)⟩
  · obtain ⟨m, hm, hkind⟩ := h.target hk
    exact ⟨m, hnodes.2 (.inr hm), hkind⟩

/-- Replacing a node by a valid one of the same identity and kind keeps a diagram well formed. -/
theorem replaceNode (h : g.WellFormed) {n n' : Node} (hn : g.HasNode n) (hid : n'.id = n.id)
    (hident : n'.ident = n.ident) (hkind : n'.kind = n.kind) (hvalid : n'.Valid) :
    (g.replaceNode n').2.WellFormed := by
  have hnodes : ∀ k, (g.replaceNode n').2.nodes.get? k =
      if k = .text n.ident then some n' else g.nodes.get? k := by
    intro k
    rw [Diagram.replaceNode, Table.get?_insert, hvalid.key_eq, hident]
  have hports : n'.ports = n.ports := Node.ports_congr hid hident hkind
  refine ⟨fun {k m} hk => ?_, ?_, h.wire, h.feed, h.compatible, fun {k a} hk => ?_⟩
  · rw [hnodes] at hk
    split at hk
    · next heq => cases hk; exact ⟨heq.trans (by rw [hident]), hvalid⟩
    · exact h.node hk
  · intro k p
    refine h.port.trans (and_congr_right fun _ => ?_)
    constructor
    · rintro ⟨m, hm, hp⟩
      by_cases he : m.ident = n.ident
      · obtain rfl := node_unique hm hn he
        exact ⟨n', by simp [HasNode, hnodes, hident], hports ▸ hp⟩
      · exact ⟨m, by simpa [HasNode, hnodes, he] using hm, hp⟩
    · rintro ⟨m, hm, hp⟩
      rw [HasNode, hnodes] at hm
      split at hm
      · cases hm; exact ⟨n, hn, hports ▸ hp⟩
      · exact ⟨m, hm, hp⟩
  · obtain ⟨m, hm, hm'⟩ := h.target hk
    rw [hnodes]
    split
    · next heq =>
      rw [heq] at hm
      obtain rfl := Option.some.inj (hn.symm.trans hm)
      exact ⟨n', rfl, hkind ▸ hm'⟩
    · exact ⟨m, hm, hm'⟩

/-! ## Constraints -/

/-- Valid constraints on nodes that carry a number or a variable keep a diagram well formed. -/
theorem constraints (h : g.WellFormed) {r : Registry} (hr : r.Valid)
    (htarget : ∀ {k a}, r.table.get? k = some a →
      ∃ n, g.nodes.get? k = some n ∧ (n.kind = .number ∨ n.kind = .symbol)) :
    WellFormed { g with constraints := r } :=
  ⟨h.node, h.port, h.wire, h.feed, hr, htarget⟩

/-! ## Connections -/

/-- The connections once one is added under a new identity. -/
theorem hasWire_addWire {s source target : String} {c : Connection}
    (hnew : g.connections.get? (.text s) = none) :
    (g.addWire ⟨.ofText s, source, target⟩).HasWire c ↔
      c = ⟨.ofText s, source, target⟩ ∨ g.HasWire c := by
  rw [HasWire, Diagram.addWire, Table.get?_insert]
  constructor
  · intro hc
    split at hc
    · exact .inl (Option.some.inj hc).symm
    · exact .inr hc
  · rintro (rfl | hc)
    · rw [if_pos rfl]
    · rw [if_neg fun he => ?_]
      · exact hc
      · have hc' : g.connections.get? c.id.key = some c := hc
        rw [he] at hc'
        exact absurd (hc'.symm.trans hnew) nofun

/-- Wiring an output to a free input of another node keeps a diagram well formed. -/
theorem addWire (h : g.WellFormed) {s source target : String} (hj : Joins g.ports source target)
    (hfree : g.feeds.get? (.text target) = none) (hnew : g.connections.get? (.text s) = none) :
    (g.addWire ⟨.ofText s, source, target⟩).WellFormed := by
  have hwire : ∀ {c}, (g.addWire ⟨.ofText s, source, target⟩).HasWire c ↔
      c = ⟨.ofText s, source, target⟩ ∨ g.HasWire c := hasWire_addWire hnew
  refine ⟨h.node, h.port, fun {k c} hk => ?_, ?_, h.compatible, h.target⟩
  · rw [Diagram.addWire, Table.get?_insert] at hk
    split at hk
    · next heq => cases hk; exact ⟨heq, ⟨s, rfl⟩, hj⟩
    · exact h.wire hk
  · intro k i
    rw [Diagram.addWire, Table.get?_insert]
    split
    · next hk =>
      subst hk
      constructor
      · intro hi; exact ⟨_, hwire.2 (.inl rfl), rfl, Option.some.inj hi⟩
      · rintro ⟨c, hc, ht, rfl⟩
        rcases hwire.1 hc with rfl | hc
        · rfl
        · have := h.feed.2 ⟨c, hc, ht, rfl⟩
          exact absurd (this.symm.trans hfree) nofun
    · next hk =>
      rw [h.feed]
      constructor
      · rintro ⟨c, hc, ht, hi⟩; exact ⟨c, hwire.2 (.inr hc), ht, hi⟩
      · rintro ⟨c, hc, ht, hi⟩
        rcases hwire.1 hc with rfl | hc
        · exact absurd ht hk
        · exact ⟨c, hc, ht, hi⟩

/-- Taking a connection away keeps a diagram well formed. -/
theorem dropConnection (h : g.WellFormed) {c : Connection}
    (hc : ∀ c', g.connections.get? c.id.key = some c' → c' = c) :
    (g.dropConnection c).WellFormed := by
  refine ⟨h.node, h.port, fun {k c'} hk => ?_, ?_, h.compatible, h.target⟩
  · rw [Diagram.dropConnection, Table.get?_erase] at hk
    split at hk
    · cases hk
    · exact h.wire hk
  · intro k i
    rw [get?_feeds_dropConnection h.leads hc, h.feed]
    constructor
    · rintro ⟨⟨c', hc', hk, rfl⟩, hne⟩
      exact ⟨c', hasWire_dropConnection.2 ⟨hne, hc'⟩, hk, rfl⟩
    · rintro ⟨c', hc', hk, rfl⟩
      obtain ⟨hne, hc'⟩ := hasWire_dropConnection.1 hc'
      exact ⟨⟨c', hc', hk, rfl⟩, hne⟩

/-- Taking connections away keeps a diagram well formed, and leaves the others and all other
tables. -/
theorem foldl_dropConnection : ∀ {cs : List Connection} {g : Diagram}, g.WellFormed →
    (∀ c ∈ cs, ∀ c', g.connections.get? c.id.key = some c' → c' = c) →
    let g' := cs.foldl Diagram.dropConnection g
    g'.WellFormed ∧ g'.nodes = g.nodes ∧ g'.ports = g.ports ∧ g'.constraints = g.constraints ∧
      ∀ c', g'.HasWire c' ↔ g.HasWire c' ∧ ∀ c ∈ cs, c'.id.key ≠ c.id.key
  | [], g, h, _ => ⟨h, rfl, rfl, rfl, fun c' => by simp⟩
  | c :: cs, g, h, hcs => by
    have hrest : ∀ d ∈ cs, ∀ c', (g.dropConnection c).connections.get? d.id.key = some c' →
        c' = d := by
      intro d hd c' hc'
      rw [Diagram.dropConnection, Table.get?_erase] at hc'
      split at hc'
      · cases hc'
      · exact hcs d (.tail _ hd) c' hc'
    obtain ⟨hwf, hnodes, hports, hconstraints, hwires⟩ :=
      foldl_dropConnection (h.dropConnection (hcs c (.head _))) hrest
    refine ⟨hwf, hnodes, hports, hconstraints, fun c' => ?_⟩
    rw [List.foldl_cons, hwires, hasWire_dropConnection, List.forall_mem_cons]
    constructor
    · rintro ⟨⟨hne, hc'⟩, hall⟩; exact ⟨hc', hne, hall⟩
    · rintro ⟨hc', hne, hall⟩; exact ⟨⟨hne, hc'⟩, hall⟩

/-! ## Nodes removed -/

/-- The connections at the ports of a node. -/
theorem mem_touching (h : g.WellFormed) {ids : List String} {c : Connection} :
    c ∈ g.connections.values.filter (fun c => ids.contains c.source || ids.contains c.target) ↔
      g.HasWire c ∧ (c.source ∈ ids ∨ c.target ∈ ids) := by
  rw [List.mem_filter, Bool.or_eq_true, List.contains_iff_mem, List.contains_iff_mem,
    h.mem_connections]

/-- Removing a node with its ports, its constraints and the connections at it keeps a diagram well
formed. -/
theorem dropNode (h : g.WellFormed) {n : Node} (hn : g.HasNode n) : (g.dropNode n).WellFormed := by
  unfold Diagram.dropNode
  dsimp only
  have hmem : ∀ {c}, c ∈ (g.connections.values.filter fun c =>
      (n.ports.map Port.id).contains c.source || (n.ports.map Port.id).contains c.target) ↔
      g.HasWire c ∧ (c.source ∈ n.ports.map Port.id ∨ c.target ∈ n.ports.map Port.id) :=
    h.mem_touching
  generalize (g.connections.values.filter fun c =>
    (n.ports.map Port.id).contains c.source || (n.ports.map Port.id).contains c.target) = touching
    at hmem ⊢
  have hlive : ∀ c ∈ touching, ∀ c', g.connections.get? c.id.key = some c' → c' = c := by
    intro c hc c' hc'
    exact Option.some.inj (hc'.symm.trans (hmem.1 hc).1)
  obtain ⟨hwf, hnodes, hports, hconstraints, hwires⟩ := h.foldl_dropConnection hlive
  generalize touching.foldl Diagram.dropConnection g = g₁ at *
  rw [hnodes, hports, hconstraints, (h.valid hn).key_eq]
  have hnode' : ∀ {m}, (g.nodes.erase (.text n.ident)).get? (.text m.ident) = some m ↔
      m.ident ≠ n.ident ∧ g.HasNode m := by
    intro m
    rw [Table.get?_erase]
    by_cases he : m.ident = n.ident <;> simp [he, HasNode]
  refine ⟨fun {k m} hk => ?_, ?_, fun {k c} hk => ?_, hwf.feed, h.compatible.clearAt _,
    fun {k a} hk => ?_⟩
  · rw [Table.get?_erase] at hk
    split at hk
    · cases hk
    · exact h.node hk
  · intro k p
    rw [get?_withoutPorts, h.port]
    constructor
    · rintro ⟨⟨rfl, m, hm, hp⟩, hne⟩
      refine ⟨rfl, m, hnode'.2 ⟨fun he => ?_, hm⟩, hp⟩
      obtain rfl := node_unique hm hn he
      exact hne p hp rfl
    · rintro ⟨rfl, m, hm, hp⟩
      obtain ⟨hne, hm⟩ := hnode'.1 hm
      refine ⟨⟨rfl, m, hm, hp⟩, fun q hq he => hne ?_⟩
      exact Node.ident_eq_of_port_id hp hq (Key.text.inj he)
  · have hc := hwf.hasWire hk
    obtain ⟨hc, hne⟩ := (hwires c).1 hc
    obtain ⟨hkey, hid, out, into, hout, hinto, hrest⟩ := hwf.wire hk
    rw [hports] at hout hinto
    -- A connection that is left does not touch the node, so its ports are still listed.
    have hfar : c.source ∉ n.ports.map Port.id ∧ c.target ∉ n.ports.map Port.id :=
      ⟨fun hs => hne c (hmem.2 ⟨hc, .inl hs⟩) rfl, fun ht => hne c (hmem.2 ⟨hc, .inr ht⟩) rfl⟩
    refine ⟨hkey, hid, out, into, get?_withoutPorts.2 ⟨hout, fun q hq he => hfar.1 ?_⟩,
      get?_withoutPorts.2 ⟨hinto, fun q hq he => hfar.2 ?_⟩, hrest⟩
    · rw [Key.text.inj he]; exact List.mem_map_of_mem hq
    · rw [Key.text.inj he]; exact List.mem_map_of_mem hq
  · rw [Registry.clearAt, Table.get?_erase] at hk
    split at hk
    · cases hk
    · next hne =>
      obtain ⟨m, hm, hkind⟩ := h.target hk
      exact ⟨m, by rw [Table.get?_erase, if_neg hne]; exact hm, hkind⟩

/-! ## Every step -/

/-- A node that is found by a datum is a node of the diagram. -/
theorem hasNode_of_node? (h : g.WellFormed) {id : Datum} {n : Node}
    (hn : g.node? id = .ok (some n)) : g.HasNode n := by
  obtain ⟨k, -, hk⟩ := ok_of_bind hn
  exact h.hasNode (Except.ok.inj hk)

/-- Giving a node valid contents of its kind, another label or another position keeps a diagram well
formed. -/
theorem editNode (h : g.WellFormed) {id : Datum} {n : Node} (held : g.node? id = .ok (some n))
    {content : Content} {label : String} (position : Position)
    (hkind : content.kind = n.content.kind) (hcontent : content.Valid) (hlabel : IsTrimmed label) :
    (g.replaceNode { n with content, label, position }).2.WellFormed := by
  have hn := h.hasNode_of_node? held
  have hvalid := h.valid hn
  exact h.replaceNode hn rfl rfl hkind ⟨hvalid.id_eq, hvalid.ident_ne, hcontent, hlabel⟩

/-- A step keeps a diagram well formed. -/
theorem step {P : Constraint → Prop} {g' : Diagram} (h : g.WellFormed) (hs : Step P g g') :
    g'.WellFormed := by
  cases hs with
  | refused i j => exact h.counters i j
  | create i s kind position named new =>
    exact (h.counters i g.nextConnection).addNode (Node.valid_new named kind position) new
  | setValue held carried read checked =>
    refine h.editNode held _ ?_ (Number.ofDatum_toDatum read) (Number.isTrimmed_literal _)
    rw [carried]; rfl
  | setVariable held carried read =>
    obtain ⟨hread, htrim⟩ := readVariable_text read
    refine h.editNode held _ ?_ hread htrim
    rw [carried]; rfl
  | setLabel held given =>
    have hvalid := h.valid (h.hasNode_of_node? held)
    exact h.editNode held _ rfl hvalid.content (isTrimmed_trimBlank given)
  | move held position =>
    have hvalid := h.valid (h.hasNode_of_node? held)
    exact h.editNode held position rfl hvalid.content hvalid.label
  | attach held takes hc added =>
    refine h.constraints (h.compatible.add added) fun hk => ?_
    rcases Registry.target_of_add added hk with rfl | ⟨old, hold⟩
    · exact ⟨_, held, takes⟩
    · exact h.target hold
  | detach removed =>
    refine h.constraints (h.compatible.remove removed) fun hk => ?_
    obtain ⟨old, hold, -⟩ := Registry.get?_of_remove removed hk
    exact h.target hold
  | @wire j s _ _ out into source target output input apart free new =>
    obtain ⟨rfl, n, hn, hout⟩ := h.port.1 source
    obtain ⟨rfl, -⟩ := h.port.1 target
    have hself : out.owner.Selfsame := by
      rw [Node.owner_of_mem_ports hout, (h.valid hn).id_eq]
      exact Identity.selfsame_ofText n.ident
    exact (h.counters g.nextNode j).addWire
      ⟨_, _, source, target, output, input, mt hself.equal_iff.2 apart⟩ free new
  | unwire held =>
    obtain ⟨rfl, -⟩ := h.wire held
    exact h.dropConnection fun c' hc' => Option.some.inj (hc'.symm.trans held)
  | remove held => exact h.dropNode (h.hasNode held)
  | clear => exact .empty _ _

end WellFormed

/-- A diagram at the end of a run of edits is well formed. -/
theorem Reachable.wellFormed {g : Diagram} (h : g.Reachable) : g.WellFormed :=
  h.with.induction (.empty _ _) .step

end Diagram

end EquationStudio
