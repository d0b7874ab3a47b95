import EquationStudio.Proofs.Diagram.Owned

/-!
# How the tables of a diagram hang together

Identities may be any data that make keys, and two nodes may share the names of ports.
`Diagram.Anchored` says what holds even so: ports that are listed are ports of nodes, connections
end at ports that are listed, an input is fed by the connection that leads there, and constraints
are on nodes. Each way in which an edit changes a diagram keeps this, hence so does every edit that
gives a connection no identity but one that equals itself (`Diagram.Anchored.apply`), and every
diagram at the end of a run of such edits is anchored (`Diagram.Anchored.run`). A connection under
the undefined double would feed its input even when it is gone.
-/

namespace EquationStudio

/-! ## Sides of ports -/

/-- No input of one kind of node has the name of an output of another. -/
theorem NodeKind.outputs_apart {kind kind' : NodeKind} {name : String} (hin : name ∈ kind.inputs)
    (hout : name ∈ kind'.outputs) : False := by
  have houtput : kind'.outputs ⊆ ["out"] := by
    cases kind' <;> simp [NodeKind.outputs]
  obtain rfl := List.mem_singleton.1 (houtput hout)
  cases kind <;> simp [NodeKind.inputs] at hin

/-- Ports with one identity lie on one side, whatever nodes they belong to. -/
theorem Node.side_eq_of_port_id {n m : Node} {p q : Port} (hp : p ∈ n.ports) (hq : q ∈ m.ports)
    (h : p.id = q.id) : p.side = q.side := by
  have hname : ∀ {a b : Node} {s t : String}, s ∈ a.kind.inputs ++ a.kind.outputs →
      t ∈ b.kind.inputs ++ b.kind.outputs → a.ident ++ "-" ++ s = b.ident ++ "-" ++ t → s = t :=
    fun hs ht he =>
      (append_hyphen_inj (NodeKind.hyphen_not_mem hs) (NodeKind.hyphen_not_mem ht) he).2
  rcases Node.mem_ports.1 hp with hp | hp
  · obtain ⟨s, hs, rfl⟩ := Node.mem_inputs.1 hp
    rcases Node.mem_ports.1 hq with hq | hq
    · obtain ⟨t, -, rfl⟩ := Node.mem_inputs.1 hq
      rfl
    · obtain ⟨t, ht, rfl⟩ := Node.mem_outputs.1 hq
      obtain rfl := hname (List.mem_append_left _ hs) (List.mem_append_right _ ht) h
      exact (NodeKind.outputs_apart hs ht).elim
  · obtain ⟨s, hs, rfl⟩ := Node.mem_outputs.1 hp
    rcases Node.mem_ports.1 hq with hq | hq
    · obtain ⟨t, ht, rfl⟩ := Node.mem_inputs.1 hq
      obtain rfl := hname (List.mem_append_right _ hs) (List.mem_append_left _ ht) h
      exact (NodeKind.outputs_apart ht hs).elim
    · obtain ⟨t, -, rfl⟩ := Node.mem_outputs.1 hq
      rfl

/-! ## Connections at a node -/

/-- A connection that leaves a port of a node or leads to one. -/
def Connection.Touches (c : Connection) (n : Node) : Prop :=
  c.source ∈ n.ports.map Port.id ∨ c.target ∈ n.ports.map Port.id

instance (c : Connection) (n : Node) : Decidable (c.Touches n) :=
  inferInstanceAs (Decidable (_ ∨ _))

namespace Diagram

variable {g g' : Diagram} {n m : Node} {c : Connection}

/-! ## The tables -/

/-- A port is listed under an identity, on a side. -/
def Lists (g : Diagram) (id : String) (side : Side) : Prop :=
  ∃ p, g.ports.get? (.text id) = some p ∧ p.side = side

/-- What the tables of a keyed diagram have to do with each other, whatever data identities are. -/
structure Anchored (g : Diagram) : Prop extends g.Keyed where
  /-- A port that is listed is a port of a node. -/
  port : ∀ {k p}, g.ports.get? k = some p → k = .text p.id ∧ ∃ n, g.Holds n ∧ p ∈ n.ports
  /-- A connection goes from an output to an input. -/
  wire : ∀ {k c}, g.connections.get? k = some c → g.Lists c.source .output ∧ g.Lists c.target .input
  /-- An input is fed by the connection that leads there. -/
  feed : ∀ {k i}, g.feeds.get? k = some i ↔ ∃ c, g.HasWire c ∧ k = .text c.target ∧ c.id = i
  /-- The identities of connections equal themselves. -/
  selfsame : ∀ {k c}, g.connections.get? k = some c → c.id.Selfsame
  /-- The targets of constraints are nodes. -/
  target : ∀ {k a}, g.constraints.table.get? k = some a → ∃ n, g.nodes.get? k = some n

/-! ## Nodes that are created and taken away -/

/-- The connections at the ports of a node. -/
theorem touching_eq (g : Diagram) (n : Node) : g.touching n = g.connections.values.filter fun c =>
    c.Touches n := by
  refine List.filter_congr fun c _ => ?_
  rw [Bool.eq_iff_iff, Bool.or_eq_true, List.contains_iff_mem, List.contains_iff_mem,
    decide_eq_true_iff]
  rfl

/-- The connections that are left when a node is taken away are those that do not touch it. -/
theorem Keyed.connections_dropNode (h : g.Keyed) (n : Node) :
    (g.dropNode n).connections = g.connections.keep fun c => ¬ c.Touches n := by
  show ((g.touching n).foldl dropConnection g).connections = _
  rw [connections_foldl_dropConnection, touching_eq, Table.foldl_erase_values fun _ _ hc =>
    h.connection hc]
  simp only [decide_not]

/-- The constraints that are left when a node is taken away are those of other targets. -/
theorem constraints_dropNode (g : Diagram) (n : Node) :
    (g.dropNode n).constraints = g.constraints.clearAt n.id.key := by
  obtain ⟨-, -, hconstraints, -⟩ := foldl_dropConnection_tables (g.touching n) g
  show ((g.touching n).foldl dropConnection g).constraints.clearAt n.id.key = _
  rw [hconstraints]

/-- A node that is created stands under a new key and reads like its identity. -/
theorem create_ok {kind position id : Datum} (h : g.create kind position id = (.ok n, g')) :
    ∃ i, g' = { g with nextNode := i }.addNode n ∧ g.nodes.get? n.id.key = none ∧
      n.id.datum.plain = .ok n.ident := by
  have hat : ∀ {g g' : Diagram} {i : Identity}, g.createAs kind position i = (.ok n, g') →
      n.id = i ∧ n.id.datum.plain = .ok n.ident ∧ g' = g.addNode n := by
    intro g g' i h
    unfold createAs at h
    split at h
    · cases h
    · next hmade =>
      cases h
      obtain ⟨k, -, hmade⟩ := ok_of_bind hmade
      exact ⟨(Node.make_ok hmade).1, Node.plain_of_make hmade, rfl⟩
  unfold create at h
  split at h
  · cases h
  · next i hi =>
    obtain ⟨rfl, hnamed, rfl⟩ := hat h
    exact ⟨g.nextNode, rfl, Edit.requestedId_new hi, hnamed⟩
  · obtain ⟨hid, hnamed, rfl⟩ := hat h
    exact ⟨g.freshNodeId.2, rfl, hid ▸ get?_freshId g.nodes "n" g.nextNode, hnamed⟩

/-- A node that is not created leaves the diagram as it is, but for a number that is used up. -/
theorem create_error {kind position id : Datum} {fault : Fault}
    (h : g.create kind position id = (.error fault, g')) : ∃ i, g' = { g with nextNode := i } := by
  have hleft := Edit.create_of_error (congrArg Prod.fst h)
  rw [h] at hleft
  dsimp only at hleft
  split at hleft
  · exact ⟨_, hleft⟩
  · exact ⟨g.nextNode, hleft⟩

namespace Anchored

/-- A connection that is listed stands under its own key. -/
theorem mem_connections (h : g.Anchored) : c ∈ g.connections.values ↔ g.HasWire c := by
  rw [Table.mem_values]
  constructor
  · rintro ⟨k, hk⟩
    rw [HasWire, h.connection hk, hk]
  · exact fun hc => ⟨_, hc⟩

/-- An input that is fed is fed by a connection that leads there, whose identity equals itself. -/
theorem leads (h : g.Anchored) {k : Key} {i : Identity} (hi : g.feeds.get? k = some i) :
    i.Selfsame ∧ ∃ c, g.connections.get? i.key = some c ∧ k = .text c.target := by
  obtain ⟨c, hc, rfl, rfl⟩ := h.feed.1 hi
  exact ⟨h.selfsame hc, c, hc, rfl⟩

/-! ## What keeps a diagram anchored -/

/-- The empty diagram is anchored, whatever numbers are used up. -/
theorem empty (i j : Nat) : Anchored { nextNode := i, nextConnection := j } where
  toKeyed := .empty i j
  port h := by cases h
  wire h := by cases h
  feed := ⟨nofun, by rintro ⟨c, hc, -⟩; cases hc⟩
  selfsame h := by cases h
  target h := by cases h

/-- The numbers that are used up do not matter. -/
theorem counters (h : g.Anchored) (i j : Nat) :
    Anchored { g with nextNode := i, nextConnection := j } :=
  ⟨h.toKeyed.congr rfl rfl, h.port, h.wire, h.feed, h.selfsame, h.target⟩

/-- A node is added under a new key. Its ports are listed from then on, also those that it
shares. -/
theorem addNode (h : g.Anchored) (hkeyed : (g.addNode n).Keyed)
    (hnew : g.nodes.get? n.id.key = none) : (g.addNode n).Anchored := by
  have hlists : ∀ {id side}, g.Lists id side → (g.addNode n).Lists id side := by
    rintro id side ⟨p, hp, rfl⟩
    obtain ⟨q, hq⟩ := exists_get?_withPorts (n := n) (.inr ⟨p, hp⟩)
    refine ⟨q, hq, ?_⟩
    obtain ⟨hmem, hid⟩ | hold := get?_withPorts_cases hq
    · -- The new port has taken the place of one with its name.
      obtain ⟨hpid, m, -, hpm⟩ := h.port hp
      exact Node.side_eq_of_port_id hmem hpm (Key.text.inj (hid.symm.trans hpid))
    · rw [hp] at hold
      rw [Option.some.inj hold]
  refine ⟨hkeyed, fun {k p} hp => ?_, fun hc => (h.wire hc).imp hlists hlists, h.feed, h.selfsame,
    fun {k a} hk => ?_⟩
  · obtain ⟨hmem, rfl⟩ | hp := get?_withPorts_cases hp
    · exact ⟨rfl, n, (Routed.holds_addNode hnew).2 (.inl rfl), hmem⟩
    · obtain ⟨hk, m, hm, hpm⟩ := h.port hp
      exact ⟨hk, m, (Routed.holds_addNode hnew).2 (.inr hm), hpm⟩
  · obtain ⟨m, hm⟩ := h.target hk
    have hne : k ≠ n.id.key := by
      rintro rfl
      rw [hnew] at hm
      cases hm
    exact ⟨m, by rw [Diagram.addNode, Table.get?_insert, if_neg hne]; exact hm⟩

/-- A node is replaced by one of the same identity and kind. -/
theorem replaceNode (h : g.Anchored) (hkeyed : (g.replaceNode m).2.Keyed) (hn : g.Holds n)
    (hid : m.id = n.id) (hident : m.ident = n.ident) (hkind : m.kind = n.kind) :
    (g.replaceNode m).2.Anchored := by
  have hports : m.ports = n.ports := Node.ports_congr hid hident hkind
  refine ⟨hkeyed, fun {k p} hp => ?_, h.wire, h.feed, h.selfsame, fun {k a} hk => ?_⟩
  · obtain ⟨hk, a, ha, hpa⟩ := h.port hp
    by_cases he : a.id.key = n.id.key
    · rw [Holds, he, hn] at ha
      obtain rfl := Option.some.inj ha
      exact ⟨hk, m, Routed.holds_replaceNode.2 (.inl rfl), hports ▸ hpa⟩
    · exact ⟨hk, a, Routed.holds_replaceNode.2 (.inr ⟨ha, hid ▸ he⟩), hpa⟩
  · obtain ⟨a, ha⟩ := h.target hk
    rw [Diagram.replaceNode]
    dsimp only
    rw [Table.get?_insert]
    split
    · exact ⟨m, rfl⟩
    · exact ⟨a, ha⟩

/-- The constraints are replaced by others that are on nodes. -/
theorem constraints (h : g.Anchored) {r : Registry}
    (hr : ∀ {k a}, r.table.get? k = some a → ∃ n, g.nodes.get? k = some n) :
    Anchored { g with constraints := r } :=
  ⟨h.toKeyed.congr rfl rfl, h.port, h.wire, h.feed, h.selfsame, hr⟩

/-- A connection is added under a new key, from an output to an input that is free. -/
theorem addWire (h : g.Anchored) (hsource : g.Lists c.source .output)
    (htarget : g.Lists c.target .input) (hfree : g.feeds.get? (.text c.target) = none)
    (hnew : g.connections.get? c.id.key = none) (hself : c.id.Selfsame) :
    (g.addWire c).Anchored := by
  have hwires : ∀ d, (g.addWire c).HasWire d ↔ d = c ∨ g.HasWire d := by
    intro d
    rw [HasWire, Diagram.addWire, Table.get?_insert]
    split
    · next hk => simp [HasWire, hk, hnew, eq_comm]
    · next hk =>
      refine ⟨.inr, fun hd => hd.resolve_left ?_⟩
      rintro rfl
      exact hk rfl
  refine ⟨h.toKeyed.addWire c, h.port, fun {k d} hd => ?_, fun {k i} => ?_,
    fun {k d} hd => ?_, h.target⟩
  · rw [Diagram.addWire, Table.get?_insert] at hd
    split at hd
    · cases hd; exact ⟨hsource, htarget⟩
    · exact h.wire hd
  · have hfeeds : (g.addWire c).feeds.get? k = if k = .text c.target then some c.id
        else g.feeds.get? k :=
      Table.get?_insert _ _ _ _
    rw [hfeeds]
    simp only [hwires]
    split
    · next hk =>
      subst hk
      constructor
      · rintro ⟨⟩
        exact ⟨c, .inl rfl, rfl, rfl⟩
      · rintro ⟨d, rfl | hd, hk, rfl⟩
        · rfl
        · -- The input was free, so no earlier connection leads there.
          rw [h.feed.2 ⟨d, hd, hk, rfl⟩] at hfree
          cases hfree
    · next hk =>
      rw [h.feed]
      constructor
      · rintro ⟨d, hd, hkd, rfl⟩
        exact ⟨d, .inr hd, hkd, rfl⟩
      · rintro ⟨d, rfl | hd, hkd, rfl⟩
        · exact absurd hkd hk
        · exact ⟨d, hd, hkd, rfl⟩
  · rw [Diagram.addWire, Table.get?_insert] at hd
    split at hd
    · cases hd; exact hself
    · exact h.selfsame hd

/-- A connection is taken away. -/
theorem dropConnection (h : g.Anchored)
    (hc : ∀ c', g.connections.get? c.id.key = some c' → c' = c) :
    (g.dropConnection c).Anchored := by
  have hleft : ∀ {k d}, (g.dropConnection c).connections.get? k = some d →
      g.connections.get? k = some d := by
    intro k d hd
    rw [Diagram.dropConnection, Table.get?_erase] at hd
    split at hd
    · cases hd
    · exact hd
  refine ⟨h.toKeyed.foldl_dropConnection [c], h.port, fun hd => h.wire (hleft hd), fun {k i} => ?_,
    fun hd => h.selfsame (hleft hd), h.target⟩
  · rw [get?_feeds_dropConnection h.leads hc, h.feed]
    simp only [hasWire_dropConnection]
    constructor
    · rintro ⟨⟨d, hd, hk, rfl⟩, hne⟩
      exact ⟨d, ⟨hne, hd⟩, hk, rfl⟩
    · rintro ⟨d, ⟨hne, hd⟩, hk, rfl⟩
      exact ⟨⟨d, hd, hk, rfl⟩, hne⟩

/-- Connections are taken away one after another. -/
theorem foldl_dropConnection : ∀ {cs : List Connection} {g : Diagram}, g.Anchored →
    (∀ c ∈ cs, ∀ c', g.connections.get? c.id.key = some c' → c' = c) →
      (cs.foldl Diagram.dropConnection g).Anchored
  | [], _, h, _ => h
  | c :: cs, g, h, hcs => by
    rw [List.foldl_cons]
    refine foldl_dropConnection (h.dropConnection (hcs c (.head _))) fun d hd c' hc' => ?_
    rw [Diagram.dropConnection, Table.get?_erase] at hc'
    split at hc'
    · cases hc'
    · exact hcs d (.tail _ hd) c' hc'

/-- A node is taken away with its ports, the connections at them and its constraints. -/
theorem dropNode (h : g.Anchored) (hn : g.Holds n) : (g.dropNode n).Anchored := by
  obtain ⟨hnodes, hports⟩ := dropNode_tables g n
  have hdropped : ((g.touching n).foldl Diagram.dropConnection g).Anchored := by
    refine h.foldl_dropConnection fun c hc c' hc' => ?_
    rw [h.mem_connections.1 (List.mem_of_mem_filter hc)] at hc'
    exact (Option.some.inj hc').symm
  refine ⟨h.toKeyed.dropNode n, fun {k p} hp => ?_, fun {k c} hc => ?_, hdropped.feed,
    hdropped.selfsame, fun {k a} hk => ?_⟩
  · rw [hports, get?_withoutPorts] at hp
    obtain ⟨hp, hfar⟩ := hp
    obtain ⟨rfl, m, hm, hpm⟩ := h.port hp
    refine ⟨rfl, m, (holds_dropNode hn).2 ⟨hm, ?_⟩, hpm⟩
    rintro rfl
    exact hfar p hpm rfl
  · rw [h.toKeyed.connections_dropNode, Table.get?_keep, decide_eq_true_iff,
      Connection.Touches, not_or] at hc
    obtain ⟨hc, hsource, htarget⟩ := hc
    have hlists : ∀ {id side}, id ∉ n.ports.map Port.id → g.Lists id side →
        (g.dropNode n).Lists id side := by
      rintro id side hid ⟨p, hp, hside⟩
      refine ⟨p, ?_, hside⟩
      rw [hports, get?_withoutPorts]
      refine ⟨hp, fun q hq he => hid ?_⟩
      rw [Key.text.inj he]
      exact List.mem_map_of_mem hq
    exact (h.wire hc).imp (hlists hsource) (hlists htarget)
  · rw [constraints_dropNode, Registry.clearAt, Table.get?_erase] at hk
    split at hk
    · cases hk
    · next hne =>
      obtain ⟨m, hm⟩ := h.target hk
      exact ⟨m, by rw [hnodes, Table.get?_erase, if_neg hne]; exact hm⟩

/-! ## Every edit -/

/-- A step keeps a diagram anchored. -/
theorem step {P : Constraint → Prop} (h : g.Anchored) (hs : Step P g g') : g'.Anchored := by
  have hkeyed := h.toKeyed.step hs
  cases hs with
  | refused i j => exact h.counters i j
  | create i s kind position named new =>
    exact (h.counters i g.nextConnection).addNode hkeyed new
  | setValue held carried read checked =>
    refine h.replaceNode hkeyed (h.holds_of_node? held) rfl rfl ?_
    rw [Node.kind, Node.kind, carried]; rfl
  | setVariable held carried read =>
    refine h.replaceNode hkeyed (h.holds_of_node? held) rfl rfl ?_
    rw [Node.kind, Node.kind, carried]; rfl
  | setLabel held given => exact h.replaceNode hkeyed (h.holds_of_node? held) rfl rfl rfl
  | move held position => exact h.replaceNode hkeyed (h.holds_of_node? held) rfl rfl rfl
  | attach held takes hc added =>
    refine h.constraints fun hk => ?_
    rcases Registry.target_of_add added hk with rfl | ⟨old, hold⟩
    · exact ⟨_, held⟩
    · exact h.target hold
  | detach removed =>
    refine h.constraints fun hk => ?_
    obtain ⟨old, hold, -⟩ := Registry.get?_of_remove removed hk
    exact h.target hold
  | wire j s source target output input apart free new =>
    obtain ⟨rfl, -⟩ := h.port source
    obtain ⟨rfl, -⟩ := h.port target
    exact (h.counters g.nextNode j).addWire ⟨_, source, output⟩ ⟨_, target, input⟩ free new
      (Identity.selfsame_ofText s)
  | unwire held =>
    obtain rfl := h.connection held
    exact h.dropConnection fun c' hc' => Option.some.inj (hc'.symm.trans held)
  | remove held =>
    refine h.dropNode ?_
    rw [Holds, (h.node held).1, held]
  | clear => exact empty _ _

/-- Creating a node keeps a diagram anchored, whatever identity is asked for. -/
theorem create (h : g.Anchored) (kind position id : Datum) :
    (g.create kind position id).2.Anchored := by
  have hkeyed := h.toKeyed.create kind position id
  cases hmade : g.create kind position id with
  | mk made g' =>
    rw [hmade] at hkeyed
    cases made with
    | error fault =>
      obtain ⟨i, rfl⟩ := create_error hmade
      exact h.counters i g.nextConnection
    | ok n =>
      obtain ⟨i, rfl, hnew, -⟩ := create_ok hmade
      exact (h.counters i g.nextConnection).addNode hkeyed hnew

/-- Wiring two ports keeps a diagram anchored, whatever identity is asked for that equals itself. -/
theorem addConnection (h : g.Anchored) (source target : Datum) {id : Datum}
    (hid : id.equal id = true) : (g.after (g.addConnection source target id)).Anchored := by
  cases ha : g.addConnection source target id with
  | error fault => exact h
  | ok made =>
    obtain ⟨c, g'⟩ := made
    have hself := Edit.addConnection_selfsame hid ha
    obtain ⟨out, into, j, hwire, hsource, htarget, hnew, rfl⟩ := Edit.addConnection_ok ha
    obtain ⟨⟨k, hout⟩, ⟨k', hinto⟩, hside, hside', -, hfree⟩ := checkWire_ok hwire
    obtain ⟨rfl, -⟩ := h.port hout
    obtain ⟨rfl, -⟩ := h.port hinto
    rw [← hsource] at hout
    rw [← htarget] at hinto hfree
    exact (h.counters g.nextNode j).addWire ⟨out, hout, hside⟩ ⟨into, hinto,
      hside'⟩ hfree hnew hself

/-- An edit keeps a diagram anchored, carried out or refused. -/
theorem apply {s : Diagram × Supply} (h : s.1.Anchored) {e : Edit} (he : e.Selfsame) :
    (e.apply s).1.Anchored := by
  have hstep : ∀ {e : Edit}, e.Textual → (e.Attaches fun _ => True) → (e.apply s).1.Anchored :=
    fun he hP => h.step (Edit.apply_step he hP s.1 s.2)
  cases e with
  | create kind position id => exact h.create kind position id
  | addConnection source target id => exact h.addConnection source target he
  | setValue | setVariable | setLabel | move | addConstraint | attach
      | removeConstraint | removeNode
  | connect | removeConnection | clear =>
    exact hstep trivial (by simp [Edit.Attaches])

/-- Edits one after another keep a diagram anchored. -/
theorem foldl_apply : ∀ (edits : List Edit) {s : Diagram × Supply}, (∀ e ∈ edits, e.Selfsame) →
    s.1.Anchored → (edits.foldl Edit.apply s).1.Anchored
  | [], _, _, h => h
  | e :: edits, _, hself, h => by
    obtain ⟨hfirst, hrest⟩ := List.forall_mem_cons.1 hself
    exact foldl_apply edits hrest (h.apply hfirst)

/-- Every diagram at the end of a run of edits is anchored, if the identities given to connections
equal themselves. -/
theorem run {edits : List Edit} (hself : ∀ e ∈ edits, e.Selfsame) (supply : Supply) :
    (Diagram.run edits supply).Anchored :=
  foldl_apply edits (s := ({}, supply)) hself (empty 1 1)

end Anchored

end Diagram

end EquationStudio
