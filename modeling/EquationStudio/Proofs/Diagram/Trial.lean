import EquationStudio.Proofs.Diagram.Removal

/-!
# A node that is tried out

A node can be tried out: it is created, edited, put under constraints and wired in any way, and
removed. An edit that concerns one node only (`Edit.Concerns`) leaves everything else as it was
(`Diagram.agreesBut_apply`), so what is left in the end is what there was before
(`Diagram.Anchored.restored`), as long as no other node has a port of the same name.
-/

namespace EquationStudio

/-! ## Requests -/

/-- Detaching a constraint leaves those of other targets. -/
theorem Registry.clearAt_of_remove {r r' : Registry} {target id : Datum} {k : Key} {found : Bool}
    (hk : target.key = .ok k) (h : r.remove target id = .ok (found, r')) :
    r'.clearAt k = r.clearAt k := by
  have herased : ∀ t : Table Attached, (t.erase k).erase k = t.erase k := fun t =>
    Table.erase_of_get?_none (by rw [Table.get?_erase, if_pos rfl])
  rw [remove, hk, ok_bind] at h
  split at h
  · cases h; rfl
  · dsimp only at h
    split at h
    · cases h; rfl
    · split at h
      · cases h
        exact congrArg Registry.mk (herased _)
      · cases h
        exact congrArg Registry.mk (Table.erase_insert _ _ _)

namespace Diagram

variable {g g' : Diagram} {n m : Node} {p : Port} {c : Connection}

/-- The ports of a new connection are found by the data that name them. -/
theorem checkWire_ports {source target : Datum} {out into : Port}
    (h : g.checkWire source target = .ok (out, into)) :
    g.port? source = .ok (some out) ∧ g.port? target = .ok (some into) := by
  obtain ⟨found, hfound, h⟩ := ok_of_bind h
  obtain ⟨fed, hfed, h⟩ := ok_of_bind h
  split at h
  · obtain ⟨_, _, h⟩ := ok_of_bind h
    cases h
  · obtain ⟨_, _, h⟩ := ok_of_bind h
    cases h
  · split at h
    · cases h
    split at h
    · cases h
    split at h
    · cases h
    split at h
    · cases h
    cases h
    exact ⟨hfound, hfed⟩

/-! ## Edits that concern one node -/

/-- A node with the identity and the kind of another stands in a diagram. -/
def Keeps (g : Diagram) (m : Node) : Prop :=
  ∃ n, g.Holds n ∧ n.id = m.id ∧ n.ident = m.ident ∧ n.kind = m.kind

/-- Two diagrams that differ at one node only: in what it carries, in the connections that touch it
and in its constraints. -/
structure AgreesBut (m : Node) (g g' : Diagram) : Prop where
  keeps : g'.Keeps m
  nodes : g'.nodes.erase m.id.key = g.nodes.erase m.id.key
  ports : g'.ports = g.ports
  connections : (g'.connections.keep fun c => ¬ c.Touches m) = g.connections.keep fun c =>
    ¬ c.Touches m
  constraints : g'.constraints.clearAt m.id.key = g.constraints.clearAt m.id.key

end Diagram

/-- A datum names a port of a node. -/
def Node.NamesPort (m : Node) (d : Datum) : Prop := ∃ p ∈ m.ports, d = .text p.id

/-- An edit that concerns one node: what it carries, its constraints, or connections at its
ports. -/
inductive Edit.Concerns (m : Node) (g : Diagram) : Edit → Prop
  | setValue {id value : Datum} (named : id.key = .ok m.id.key) : Concerns m g (.setValue id value)
  | setVariable {id name : Datum} (named : id.key = .ok m.id.key) :
      Concerns m g (.setVariable id name)
  | setLabel {id label : Datum} (named : id.key = .ok m.id.key) : Concerns m g (.setLabel id label)
  | move {id position : Datum} (named : id.key = .ok m.id.key) : Concerns m g (.move id position)
  | addConstraint {id record : Datum} (named : id.key = .ok m.id.key) :
      Concerns m g (.addConstraint id record)
  | attach {id : Datum} {c : Constraint} (named : id.key = .ok m.id.key) :
      Concerns m g (.attach id c)
  | removeConstraint {id constraint : Datum} (named : id.key = .ok m.id.key) :
      Concerns m g (.removeConstraint id constraint)
  | addConnection {source target id : Datum} (named : m.NamesPort source ∨ m.NamesPort target) :
      Concerns m g (.addConnection source target id)
  | connect {source target index : Datum}
      (named : source.key = .ok m.id.key ∨ target.key = .ok m.id.key) :
      Concerns m g (.connect source target index)
  | removeConnection {id : Datum}
      (touches : ∀ k c, id.key = .ok k → g.connections.get? k = some c → c.Touches m) :
      Concerns m g (.removeConnection id)

/-- Edits one after another, each of which concerns one node when its turn comes. -/
def Edit.AllConcern (m : Node) : Diagram × Supply → List Edit → Prop
  | _, [] => True
  | s, e :: edits => e.Concerns m s.1 ∧ Edit.AllConcern m (e.apply s) edits

namespace Diagram

variable {g g' : Diagram} {n m : Node} {p : Port} {c : Connection}

/-- The node that is found under the key of one that is kept is the one that stands for it. -/
theorem Keeps.of_node? (hkeeps : g.Keeps m) {id : Datum} (hid : id.key = .ok m.id.key)
    (hn : g.node? id = .ok (some n)) : n.id = m.id ∧ n.ident = m.ident ∧ n.kind = m.kind := by
  obtain ⟨m', hm', hmid, hrest⟩ := hkeeps
  rw [node?, hid, ok_bind] at hn
  rw [Holds, hmid] at hm'
  obtain rfl : n = m' := Option.some.inj ((Except.ok.inj hn).symm.trans hm')
  exact ⟨hmid, hrest⟩

namespace AgreesBut

/-- A diagram agrees with itself. -/
theorem refl (h : g.Keeps m) : g.AgreesBut m g := ⟨h, rfl, rfl, rfl, rfl⟩

/-- Diagrams that agree with one in the middle agree. -/
theorem trans {g₁ g₂ g₃ : Diagram} (h : g₁.AgreesBut m g₂) (h' : g₂.AgreesBut m g₃) :
    g₁.AgreesBut m g₃ :=
  ⟨h'.keeps, h'.nodes.trans h.nodes, h'.ports.trans h.ports, h'.connections.trans h.connections,
    h'.constraints.trans h.constraints⟩

/-- A request that is refused changes nothing. -/
theorem after {β : Type} {r : Except Fault (β × Diagram)} (hkeeps : g.Keeps m)
    (h : ∀ b g', r = .ok (b, g') → g.AgreesBut m g') : g.AgreesBut m (g.after r) := by
  match r, h with
  | .ok (b, g'), h => exact h b g' rfl
  | .error _, _ => exact refl hkeeps

/-- The node is replaced by one of the same identity and kind. -/
theorem replaceNode (hkeeps : g.Keeps m) {id : Datum} (hid : id.key = .ok m.id.key)
    (hn : g.node? id = .ok (some n)) {n' : Node} (hid' : n'.id = n.id) (hident : n'.ident = n.ident)
    (hkind : n'.kind = n.kind) : g.AgreesBut m (g.replaceNode n').2 := by
  obtain ⟨hmid, hmident, hmkind⟩ := hkeeps.of_node? hid hn
  have hkey : n'.id.key = m.id.key := by rw [hid', hmid]
  refine ⟨⟨n', ?_, hid'.trans hmid, hident.trans hmident, hkind.trans hmkind⟩, ?_, rfl, rfl, rfl⟩
  · exact Routed.holds_replaceNode.2 (.inl rfl)
  · rw [Diagram.replaceNode, hkey]
    exact Table.erase_insert _ _ _

/-- The constraints of the node are replaced. -/
theorem constrain (hkeeps : g.Keeps m) {r : Registry}
    (hr : r.clearAt m.id.key = g.constraints.clearAt m.id.key) :
    g.AgreesBut m { g with constraints := r } := ⟨hkeeps, rfl, rfl, rfl, hr⟩

/-- A constraint is attached to the node. -/
theorem attach (hkeeps : g.Keeps m) {id : Datum} (hid : id.key = .ok m.id.key) (c : Constraint) :
    g.AgreesBut m (g.after (g.attach id c)) := by
  refine .after hkeeps fun c' g' h => ?_
  obtain ⟨⟨⟩, -, h⟩ := ok_of_bind h
  obtain ⟨target, htarget, h⟩ := ok_of_bind h
  obtain ⟨r, hadded, h⟩ := ok_of_bind h
  cases h
  have hkey : target.key = m.id.key := by
    rw [Datum.key_eq_ofDatum, htarget] at hid
    exact Except.ok.inj hid
  refine .constrain hkeeps ?_
  rw [(Registry.add_ok hadded).2, hkey]
  exact congrArg Registry.mk (Table.erase_insert _ _ _)

/-- A connection is added at the node. -/
theorem addWire (hkeeps : g.Keeps m) (hnew : g.connections.get? c.id.key = none)
    (htouches : c.Touches m) (j : Nat) : g.AgreesBut m ({ g with nextConnection := j }.addWire c) :=
  ⟨hkeeps, rfl, rfl, Table.keep_insert hnew (by simp [htouches]), rfl⟩

/-- A connection at the node is taken away. -/
theorem dropConnection (hkeeps : g.Keeps m) (hc : g.connections.get? c.id.key = some c)
    (htouches : c.Touches m) : g.AgreesBut m (g.dropConnection c) :=
  ⟨hkeeps, rfl, rfl, Table.keep_erase hc (by simp [htouches]), rfl⟩

/-- Ports are wired, one of which belongs to the node. -/
theorem addConnection (hg : g.Anchored) (hkeeps : g.Keeps m) {source target id : Datum}
    (hnames : m.NamesPort source ∨ m.NamesPort target) {g' : Diagram}
    (h : g.addConnection source target id = .ok (c, g')) : g.AgreesBut m g' := by
  obtain ⟨out, into, j, hwire, hsource, htarget, hnew, rfl⟩ := Edit.addConnection_ok h
  obtain ⟨hout, hinto⟩ := checkWire_ports hwire
  have hnamed : ∀ {d : Datum} {q : Port}, m.NamesPort d → g.port? d = .ok (some q) →
      q.id ∈ m.ports.map Port.id := by
    rintro d q ⟨p, hp, rfl⟩ hq
    have hid : Key.text p.id = .text q.id := (hg.port (Except.ok.inj hq)).1
    rw [← Key.text.inj hid]
    exact List.mem_map_of_mem hp
  refine addWire hkeeps hnew ?_ j
  rcases hnames with hnames | hnames
  · exact .inl (hsource ▸ hnamed hnames hout)
  · exact .inr (htarget ▸ hnamed hnames hinto)

/-- The node is wired with another, by the number of an input. -/
theorem connect (hg : g.Anchored) (hkeeps : g.Keeps m) {source target index : Datum}
    (hnamed : source.key = .ok m.id.key ∨ target.key = .ok m.id.key) {g' : Diagram}
    (h : g.connect source target index = .ok (c, g')) : g.AgreesBut m g' := by
  obtain ⟨start, into, out, port, hstart, hinto, hout, hport, h⟩ := Edit.connect_ok h
  have hports : ∀ {id : Datum} {n : Node}, id.key = .ok m.id.key →
      g.node? id = .ok (some n) → n.ports = m.ports := by
    intro id n hid hn
    obtain ⟨hmid, hmident, hmkind⟩ := hkeeps.of_node? hid hn
    exact Node.ports_congr hmid hmident hmkind
  refine addConnection hg hkeeps ?_ h
  rcases hnamed with hnamed | hnamed
  · exact .inl ⟨out, hports hnamed hstart ▸ Node.mem_ports.2 (.inr hout), rfl⟩
  · exact .inr ⟨port, hports hnamed hinto ▸ Node.mem_ports.2 (.inl hport), rfl⟩

/-- A connection is removed that touches the node, if there is one. -/
theorem removeConnection (hg : g.Anchored) (hkeeps : g.Keeps m) {id : Datum}
    (htouches : ∀ k c, id.key = .ok k → g.connections.get? k = some c → c.Touches m) {g' : Diagram}
    (h : g.removeConnection id = .ok g') : g.AgreesBut m g' := by
  obtain ⟨k, hk, h⟩ := ok_of_bind h
  split at h
  · next c hc =>
    cases h
    obtain rfl := hg.connection hc
    exact dropConnection hkeeps hc (htouches _ c hk hc)
  · cases h
    exact refl hkeeps

end AgreesBut

/-- An edit that concerns a node leaves everything else as it was, whether it is carried out or
refused. -/
theorem agreesBut_apply {s : Diagram × Supply} {e : Edit} (he : e.Concerns m s.1)
    (hg : s.1.Anchored) (hkeeps : s.1.Keeps m) : s.1.AgreesBut m (e.apply s).1 := by
  obtain ⟨g, supply⟩ := s
  dsimp only at hg hkeeps
  cases he with
  | setValue named =>
    refine .after hkeeps fun n' g' h => ?_
    obtain ⟨n, w, v, hn, hw, -, -, rfl, rfl⟩ := setValue_ok h
    refine .replaceNode hkeeps named hn rfl rfl ?_
    rw [Node.kind, Node.kind, hw]; rfl
  | setVariable named =>
    refine .after hkeeps fun n' g' h => ?_
    obtain ⟨n, hn, h⟩ := ok_of_bind h
    split at h
    · next name₀ hname =>
      obtain ⟨name, -, h⟩ := ok_of_bind h
      cases h
      refine .replaceNode hkeeps named (requireNode_ok hn) rfl rfl ?_
      rw [Node.kind, Node.kind, hname]; rfl
    · cases h
  | setLabel named =>
    refine .after hkeeps fun n' g' h => ?_
    obtain ⟨n, hn, h⟩ := ok_of_bind h
    split at h
    · split at h
      · cases h
      · cases h; exact .replaceNode hkeeps named (requireNode_ok hn) rfl rfl rfl
    · cases h
  | move named =>
    refine .after hkeeps fun n' g' h => ?_
    obtain ⟨n, hn, h⟩ := ok_of_bind h
    obtain ⟨position, -, h⟩ := ok_of_bind h
    cases h
    exact .replaceNode hkeeps named (requireNode_ok hn) rfl rfl rfl
  | attach named => exact .attach hkeeps named _
  | @addConstraint id record named =>
    show g.AgreesBut m (g.after (g.addConstraint supply id record).1)
    unfold addConstraint
    split
    · exact .refl hkeeps
    · split
      · cases Constraint.ofRecord supply _ with
        | mk read supply' =>
          cases read with
          | error _ => exact .refl hkeeps
          | ok c => exact .attach hkeeps named c
      · exact .refl hkeeps
  | removeConstraint named =>
    refine .after hkeeps fun found g' h => ?_
    obtain ⟨⟨found, r⟩, hr, h⟩ := ok_of_bind h
    cases h
    exact .constrain hkeeps (Registry.clearAt_of_remove named hr)
  | addConnection named => exact .after hkeeps fun c g' h => .addConnection hg hkeeps named h
  | connect named => exact .after hkeeps fun c g' h => .connect hg hkeeps named h
  | @removeConnection id touches =>
    show g.AgreesBut m (g.after ((g.removeConnection id).map ((), ·)))
    cases h : g.removeConnection id with
    | error _ => exact .refl hkeeps
    | ok g' => exact .removeConnection hg hkeeps touches h

/-- Edits that concern a node, one after another, leave everything else as it was. -/
theorem agreesBut_foldl : ∀ {edits : List Edit} {s : Diagram × Supply}, Edit.AllConcern m s edits →
    (∀ e ∈ edits, e.Selfsame) → s.1.Anchored → s.1.Keeps m →
    s.1.AgreesBut m (edits.foldl Edit.apply s).1
  | [], _, _, _, _, hkeeps => .refl hkeeps
  | e :: edits, _, ⟨he, hall⟩, hself, hg, hkeeps => by
    have hfirst := agreesBut_apply he hg hkeeps
    obtain ⟨hselfFirst, hselfRest⟩ := List.forall_mem_cons.1 hself
    exact hfirst.trans (agreesBut_foldl hall hselfRest (hg.apply hselfFirst) hfirst.keeps)

/-! ## What there was before -/

/-- No port of a node has the identity of a port in a diagram. -/
def SharesNone (g : Diagram) (m : Node) : Prop :=
  ∀ n, g.Holds n → ∀ p ∈ n.ports, ∀ q ∈ m.ports, p.id ≠ q.id

/-- Two diagrams with the same nodes, connections and constraints, in their orders, the same ports,
and the same connections that feed them. -/
structure Alike (g g' : Diagram) : Prop where
  nodes : g'.nodes = g.nodes
  connections : g'.connections = g.connections
  constraints : g'.constraints = g.constraints
  ports : ∀ k, g'.ports.get? k = g.ports.get? k
  feeds : ∀ k, g'.feeds.get? k = g.feeds.get? k

/-- Diagrams that are alike have one record. -/
theorem Alike.toRecord_eq (h : g.Alike g') : g'.toRecord = g.toRecord := by
  rw [toRecord, toRecord, h.nodes, h.connections, h.constraints]

/-- The ports of a node that shares none are not listed. -/
theorem Anchored.unlisted (h : g.Anchored) (hnone : g.SharesNone m) :
    ∀ q ∈ m.ports, g.ports.get? (.text q.id) = none := by
  intro q hq
  refine Option.eq_none_iff_forall_ne_some.2 fun p hp => ?_
  obtain ⟨hid, n, hn, hpn⟩ := h.port hp
  exact hnone n hn p hpn q hq (Key.text.inj hid).symm

/-- No connection touches a node that shares no ports. -/
theorem Anchored.not_touches (h : g.Anchored) (hnone : g.SharesNone m) {k : Key}
    (hc : g.connections.get? k = some c) : ¬ c.Touches m := by
  have hfar : ∀ {id side}, g.Lists id side → id ∉ m.ports.map Port.id := by
    rintro id side ⟨p, hp, -⟩ hid
    obtain ⟨q, hq, rfl⟩ := List.mem_map.1 hid
    rw [h.unlisted hnone q hq] at hp
    cases hp
  obtain ⟨hsource, htarget⟩ := h.wire hc
  exact not_or.2 ⟨hfar hsource, hfar htarget⟩

/-- New ports that are listed and taken off the list again leave it as it was. -/
theorem get?_withoutPorts_withPorts {ports : Table Port}
    (hnew : ∀ q ∈ n.ports, ports.get? (.text q.id) = none) (k : Key) :
      ((n.ports.map Port.id).foldl (fun t id => t.erase (.text id)) (withPorts ports n)).get? k =
      ports.get? k := by
  ext p
  rw [get?_withoutPorts, get?_withPorts hnew]
  constructor
  · rintro ⟨hp | ⟨hp, hk⟩, hfar⟩
    · exact hp
    · exact absurd hk (hfar p hp)
  · intro hp
    refine ⟨.inl hp, ?_⟩
    rintro q hq rfl
    rw [hnew q hq] at hp
    cases hp

/-- A node that is created under a new key and taken away again, after edits that concern it, leaves
the diagram as it was before. -/
theorem Anchored.restored (h : g.Anchored) {kind position id : Datum} {g₁ : Diagram}
    (hmade : g.create kind position id = (.ok m, g₁)) (hnone : g.SharesNone m) (supply : Supply)
    {edits : List Edit} (hself : ∀ e ∈ edits, e.Selfsame)
    (hall : Edit.AllConcern m (g₁, supply) edits) :
    ∃ g₂, (edits.foldl Edit.apply (g₁, supply)).1.removeNode m.id.datum = .ok g₂ ∧ g.Alike g₂ := by
  have hg₁ : g₁.Anchored := by
    have hcreated := h.create kind position id
    rwa [hmade] at hcreated
  obtain ⟨i, rfl, hnew, -⟩ := create_ok hmade
  have hkeeps : ({ g with nextNode := i }.addNode m).Keeps m :=
    ⟨m, (Routed.holds_addNode hnew).2 (.inl rfl), rfl, rfl, rfl⟩
  have hagrees := agreesBut_foldl hall hself hg₁ hkeeps
  have hlast : ((edits.foldl Edit.apply ({ g with nextNode := i }.addNode m, supply)).1).Anchored :=
    Anchored.foldl_apply edits hself hg₁
  generalize (edits.foldl Edit.apply ({ g with nextNode := i }.addNode m, supply)).1 = g'
    at hagrees hlast ⊢
  obtain ⟨n, hn, hid, hident, hkind⟩ := hagrees.keeps
  have hports : n.ports = m.ports := Node.ports_congr hid hident hkind
  have hwires : (g'.dropNode n).connections = g.connections := by
    rw [hlast.toKeyed.connections_dropNode]
    simp only [Connection.Touches, hports]
    exact hagrees.connections.trans (Table.keep_eq_self fun k c hc =>
      decide_eq_true (h.not_touches hnone hc))
  refine ⟨g'.dropNode n, hid ▸ removeNode_of_holds hn, ?_, hwires, ?_, fun k => ?_, fun k => ?_⟩
  · rw [(dropNode_tables g' n).1, hid, hagrees.nodes]
    exact (Table.erase_insert _ _ _).trans (Table.erase_of_get?_none hnew)
  · rw [constraints_dropNode, hid, hagrees.constraints]
    refine congrArg Registry.mk (Table.erase_of_get?_none
      (Option.eq_none_iff_forall_ne_some.2 fun a ha => ?_))
    obtain ⟨a', ha'⟩ := h.target ha
    rw [hnew] at ha'
    cases ha'
  · -- The ports that are taken off the list are those that were put there.
    rw [(dropNode_tables g' n).2, hports, hagrees.ports]
    exact get?_withoutPorts_withPorts (h.unlisted hnone) k
  · ext i
    rw [(hlast.dropNode hn).feed, h.feed]
    simp only [HasWire, hwires]

/-! ## Ports of one node -/

/-- In a diagram that is routed, each port is found with its own node. -/
theorem Routed.ownsPorts (h : g.Routed) : g.OwnsPorts := fun _ hn _ hp =>
  ⟨congrArg Except.ok (h.get?_port hn hp), congrArg Except.ok (h.owner?_port hn hp)⟩

/-- A node that is created under a text in a diagram whose nodes are under texts shares no ports. -/
theorem WellFormed.sharesNone (h : g.WellFormed) {kind position id : Datum}
    (hid : id = .null ∨ ∃ s, id = .text s) (hmade : g.create kind position id = (.ok m, g')) :
    g.SharesNone m := by
  have h' : (g.create kind position id).2.WellFormed :=
    h.step (P := fun _ => True) (create_step kind position hid)
  rw [hmade] at h'
  obtain ⟨i, rfl, hnew, -⟩ := create_ok hmade
  intro n hn p hp q hq hpq
  have hn' := h'.hasNode ((Routed.holds_addNode hnew).2 (.inr hn))
  have hm' := h'.hasNode ((Routed.holds_addNode hnew).2 (.inl rfl))
  obtain ⟨rfl, -⟩ := WellFormed.port_unique hn' hm' hp hq hpq
  rw [Holds, hnew] at hn
  cases hn

/-- As long as no two nodes have shared ports, each port is found with its own node. -/
theorem ownsPorts_of_apart (edits : List Edit) (supply : Supply)
    (hapart : ∀ past, past <+: edits → (run past supply).PortsApart) :
    (run edits supply).OwnsPorts := by
  have hlisted : (run edits supply).Listed := by
    induction edits using List.reverseRecOn with
    | nil => exact .empty 1 1
    | append_singleton edits e ih =>
      have hbefore : ∀ past, past <+: edits → (run past supply).PortsApart :=
        fun past h => hapart past (h.trans (List.prefix_append _ _))
      have hlast := hbefore edits (List.prefix_refl _)
      unfold run at hlast ⊢
      rw [List.foldl_append]
      exact (ih hbefore).apply e fun _ _ => hlast
  exact hlisted.ownsPorts_iff.2 (hapart edits (List.prefix_refl _))

/-! ## Every run -/

/-- **A node that is removed is removed alone.** In every diagram at the end of a run of edits,
whatever data its identities are that equal themselves, what is left is the diagram without the
node; if each port is found with its own node, exactly the inputs that the node fed become free, and
the free ones take connections. A node that is created and shares no ports with another, that is
edited, put under constraints and wired in any way, and removed again, leaves the diagram as it was,
and its record. Each port is found with its own node if no two nodes have ever shared ports, and
nodes under texts never do. -/
theorem run_removeNode (edits : List Edit) (hself : ∀ e ∈ edits, e.Selfsame) (supply : Supply) :
    let g := run edits supply
    (∀ id n, g.node? id = .ok (some n) →
      ∃ g', g.removeNode id = .ok g' ∧ g.Without n g' ∧ (g.OwnsPorts → g.Frees n g')) ∧
    (∀ kind position id m g₁, g.create kind position id = (.ok m, g₁) → g.SharesNone m →
      ∀ supply' more, (∀ e ∈ more, e.Selfsame) → Edit.AllConcern m (g₁, supply') more →
        ∃ g₂, (more.foldl Edit.apply (g₁, supply')).1.removeNode m.id.datum = .ok g₂ ∧ g.Alike g₂ ∧
          g₂.toRecord = g.toRecord) ∧
    ((∀ past, past <+: edits → (run past supply).PortsApart) → g.OwnsPorts) ∧
    ((∀ e ∈ edits, Edit.Textual e) → g.OwnsPorts ∧
      ∀ kind position id m g₁, (Edit.create kind position id).Textual →
        g.create kind position id = (.ok m, g₁) → g.SharesNone m) := by
  intro g
  have hg : g.Anchored := .run hself supply
  refine ⟨fun id n hn => ?_, fun kind position id m g₁ hmade hnone supply' more hself' hall => ?_,
    ownsPorts_of_apart edits supply, fun htexts => ?_⟩
  · have hheld := hg.holds_of_node? hn
    refine ⟨g.dropNode n, ?_, hg.without_dropNode hheld, fun howns => hg.frees_dropNode howns hheld⟩
    rw [removeNode, hn]
    rfl
  · obtain ⟨g₂, hremoved, halike⟩ := hg.restored hmade hnone supply' hself' hall
    exact ⟨g₂, hremoved, halike, halike.toRecord_eq⟩
  · have hrouted : g.Routed := .run edits supply hself (namesApart_of_textual htexts supply)
    have hwf : g.WellFormed := Reachable.wellFormed ⟨edits, supply, htexts, rfl⟩
    exact ⟨hrouted.ownsPorts, fun kind position id m g₁ hid hmade => hwf.sharesNone hid hmade⟩

/-- A sum without its second summand: when the sum is removed, the output node takes another
connection; and a number that is created, set, constrained and made the second summand can be
removed without a trace. -/
theorem run_removeNode_sum :
    let edits : List Edit :=
      [.create (.text "number") .null (.text "a"), .create (.text "add") .null (.text "s"),
      .create (.text "output") .null (.text "o"), .connect (.text "a") (.text "s") (.int 0),
      .connect (.text "s") (.text "o") (.int 0)]
    let more : List Edit := [.setValue (.text "n1") (.int 5),
      .addConstraint (.text "n1") (.record [("type", .text "greater_than"), ("value", .int 1)]),
      .connect (.text "n1") (.text "s") (.int 1)]
    let g := run edits {}
    (∀ e ∈ edits ++ more, e.Selfsame) ∧ (∃ n g', g.node? (.text "s") = .ok (some n) ∧
      g.removeNode (.text "s") = .ok g' ∧ g.Without n g' ∧
      g.Frees n g') ∧
    ∃ m g₁, g.create (.text "number") .null .null = (.ok m, g₁) ∧
      (let g₂ := (more.foldl Edit.apply (g₁, {})).1
       g₂.connections.size = 3 ∧ g₂.constraints.size = 1 ∧
        ∃ g₃, g₂.removeNode m.id.datum = .ok g₃ ∧ g.Alike g₃ ∧ g₃.toRecord = g.toRecord) := by
  intro edits more g
  have hself : ∀ e ∈ edits ++ more, e.Selfsame := by simp [edits, more, Edit.Selfsame]
  obtain ⟨hremoves, hrestores, -, htexts⟩ :=
    run_removeNode edits (fun e he => hself e (List.mem_append_left _ he)) {}
  obtain ⟨howns, hshares⟩ := htexts (by simp [edits, Edit.Textual])
  have hfound : (g.nodes.get? (.text "s")).isSome = true := by decide +kernel
  obtain ⟨n, hn⟩ := Option.isSome_iff_exists.1 hfound
  obtain ⟨g', hg', hwithout, hfrees⟩ := hremoves (.text "s") n (congrArg Except.ok hn)
  have hcreated : (g.create (.text "number") .null .null).1.toOption.any (fun m =>
      m.id.key = .text "n1") = true := by
    decide +kernel
  obtain ⟨m, hm, hkey⟩ := (Option.any_eq_true _ _).1 hcreated
  have hmade : g.create (.text "number") .null .null = (.ok m,
      (g.create (.text "number") .null .null).2) :=
    Prod.ext (toOption_eq_some.1 hm) rfl
  have hnamed : (Datum.text "n1").key = .ok m.id.key :=
    congrArg Except.ok (of_decide_eq_true hkey).symm
  obtain ⟨g₃, hremoved, halike, hrecord⟩ :=
    hrestores _ _ _ m _ hmade (hshares _ _ _ m _ (.inl rfl) hmade) {} more
    (fun e he => hself e (List.mem_append_right _ he)) ⟨.setValue hnamed, .addConstraint hnamed,
      .connect (.inl hnamed), trivial⟩
  refine ⟨hself, ⟨n, g', congrArg Except.ok hn, hg', hwithout, hfrees howns⟩, m, _, hmade, ?_, ?_,
    g₃, hremoved, halike, hrecord⟩
  · decide +kernel
  · decide +kernel

/-- A variable under the text of a digit shares its port with the number under the number seven.
When it is created and removed again at once, the connection of that number is gone, and its port
with it: the input that it fed takes no connection from there. -/
theorem run_removeNode_alike :
    let edits : List Edit :=
      [.create (.text "number") .null (.int 7), .create (.text "output") .null (.text "o"),
      .connect (.int 7) (.text "o") (.int 0)]
    let g := run edits {}
    ∃ m g₁ g₂, g.create (.text "variable") .null (.text "7") = (.ok m, g₁) ∧
      g₁.removeNode (.text "7") = .ok g₂ ∧
      g₂.toRecord ≠ g.toRecord ∧
      ∃ n out, g₂.Holds n ∧ n.id.key = .whole 7 ∧ out ∈ n.outputs ∧
        g₂.addConnection (.text out.id) (.text "o-in") .null =
        .error (.wiring (.sourceUnknown out.id)) := by
  intro edits g
  have hmade : (g.create (.text "variable") .null (.text "7")).1.toOption.isSome = true := by
    decide +kernel
  obtain ⟨m, hm⟩ := Option.isSome_iff_exists.1 hmade
  have hleft :
      (((g.create (.text "variable") .null (.text "7")).2.removeNode (.text "7")).toOption.any
        fun g₂ =>
          g₂.connections.size ≠ g.connections.size ∧ (g₂.ports.get? (.text "7-out")).isNone ∧
          (g₂.nodes.get? (.whole 7)).any fun n =>
            n.id.key = .whole 7 ∧ n.outputs.any fun q => q.id = "7-out") = true := by
    decide +kernel
  obtain ⟨g₂, hg₂, hleft⟩ := (Option.any_eq_true _ _).1 hleft
  obtain ⟨hsize, hport, hnode⟩ := of_decide_eq_true hleft
  refine ⟨m, _, g₂, Prod.ext (toOption_eq_some.1 hm) rfl, toOption_eq_some.1 hg₂,
    fun hrecord => hsize ?_, ?_⟩
  · simp only [toRecord, Datum.record.injEq, List.cons.injEq, Prod.mk.injEq, Datum.list.injEq,
      true_and] at hrecord
    have hlength := congrArg List.length hrecord.2.1
    simpa [Table.values, Table.toList, Table.size] using hlength
  · obtain ⟨n, hn, hnode⟩ := (Option.any_eq_true _ _).1 hnode
    obtain ⟨hkey, hout⟩ := of_decide_eq_true hnode
    obtain ⟨out, hout, hid⟩ := List.any_eq_true.1 hout
    refine ⟨n, out, by rw [Holds, hkey, hn], hkey, hout, ?_⟩
    rw [of_decide_eq_true hid, addConnection, checkWire, port?, port?, Datum.key, ok_bind,
      Option.isNone_iff_eq_none.1 hport]
    rfl

end Diagram

end EquationStudio
