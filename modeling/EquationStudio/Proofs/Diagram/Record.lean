import EquationStudio.Diagram.Record
import EquationStudio.Proofs.Constraint.Replay
import EquationStudio.Proofs.Diagram.WellFormed

/-!
# Parts of diagrams rebuilt from their records

A record of a diagram is read by editing an empty one. Each part of the record of a well-formed
diagram is accepted, and becomes what it was: the nodes (`Diagram.foldlM_restoreNode`), the
connections (`Diagram.foldlM_restoreConnection`) and the constraints, if they can be attached again
one after another (`Diagram.restoreConstraints_recordAt`).
-/

namespace EquationStudio

/-! ## Data of nodes -/

/-- A kind is named by its name. -/
theorem NodeKind.ofDatum_name (kind : NodeKind) :
    NodeKind.ofDatum (.text kind.name) = .ok kind := by
  have hall : ∀ k ∈ NodeKind.all,
      NodeKind.all.find? (·.name == lowerLatin (trimBlank k.name)) = some k := by decide +kernel
  have hkind : kind ∈ NodeKind.all := by
    match kind with
    | .number | .symbol | .output | .binary .add | .binary .subtract | .binary .multiply
    | .binary .divide | .binary .power => simp [NodeKind.all]
  rw [NodeKind.ofDatum, Datum.plain, ok_bind, hall kind hkind]
  rfl

/-- What carries a number is a number. -/
theorem Content.kind_eq_number {c : Content} : c.kind = .number ↔ ∃ v, c = .number v := by
  cases c <;> simp [kind]

/-- What carries a variable is a variable. -/
theorem Content.kind_eq_symbol {c : Content} : c.kind = .symbol ↔ ∃ name, c = .symbol name := by
  cases c <;> simp [kind]

/-- Contents of one kind are the same if numbers and variables are. -/
theorem Content.eq_of_kind {a b : Content} (h : a.kind = b.kind)
    (hnumber : ∀ v, b = .number v → a = .number v)
    (hsymbol : ∀ name, b = .symbol name → a = .symbol name) : a = b := by
  cases b with
  | number v => exact hnumber v rfl
  | symbol name => exact hsymbol name rfl
  | binary op | output =>
    cases a <;> cases h
    rfl

/-- A position is read back from its record. -/
theorem Position.ofDatum_toRecord (p : Position) : Position.ofDatum p.toRecord = .ok p := by
  have hx : Fields.get? [("x", Datum.float p.x), ("y", .float p.y)] "x" = some (.float p.x) := by
    simp [Fields.get?]
  have hy : Fields.get? [("x", Datum.float p.x), ("y", .float p.y)] "y" = some (.float p.y) := by
    simp [Fields.get?]
  simp only [toRecord, ofDatum, hx, hy]
  rfl

/-- A text counts unless it is empty. -/
theorem Datum.isTruthy_text {s : String} (h : s ≠ "") : (Datum.text s).isTruthy = true :=
  bne_iff_ne.2 h

/-- A number is given. -/
theorem Number.isGiven_toDatum (v : Number) : v.toDatum.isGiven = true := by
  cases v <;> rfl

/-- Any value meets no constraints. -/
theorem Registry.check_of_none {r : Registry} {s : String} (h : r.constraintsAt (.text s) = [])
    (d : Datum) : r.check (.text s) d = .ok () := by
  have hviolations : r.violations (.text s) d = .ok [] := by
    rw [violations, constraintsFor, Datum.key, ok_bind, h]
    rfl
  rw [check, hviolations, ok_bind]
  rfl

/-! ## Fields of nodes -/

namespace Node

/-- A node that is being rebuilt agrees with the one of the record in what no edit changes. -/
structure Rebuilds (m n : Node) : Prop where
  id : m.id = n.id
  ident : m.ident = n.ident
  kind : m.kind = n.kind
  position : m.position = n.position

/-- A node that is being rebuilt stands under its text. -/
theorem Rebuilds.id_eq {m n : Node} (h : m.Rebuilds n) (hn : n.Valid) : m.id = .ofText m.ident := by
  rw [h.id, hn.id_eq, h.ident]

/-- The fields of a node's record. -/
theorem field_toRecord (n : Node) : n.toRecord.field "type" = .ok (.text n.kind.name) := by
  simp [toRecord, Datum.field, Fields.get?]

/-- The fields of a node's record that may be missing. -/
theorem fieldOr_toRecord (n : Node) (d : Datum) :
    n.toRecord.fieldOr "id" d = .ok n.id.datum ∧
    n.toRecord.fieldOr "label" d = .ok (.text n.label) ∧
    n.toRecord.fieldOr "position" d = .ok n.position.toRecord ∧
    n.toRecord.fieldOr "value" d = .ok n.value ∧
    n.toRecord.fieldOr "variable" d = .ok n.variableName := by
  simp [toRecord, Datum.fieldOr, Fields.get?]

end Node

namespace Diagram

variable {g : Diagram}

/-! ## Nodes -/

/-- Creating a node under a new text adds it. -/
theorem create_text {s : String} (hs : s ≠ "") (hnew : g.nodes.get? (.text s) = none)
    (kind : NodeKind) (p : Position) :
    g.create (.text kind.name) p.toRecord (.text s) =
      (.ok (.new s kind p), g.addNode (.new s kind p)) := by
  have hid : g.requestedId (.text s) = .ok (some (.ofText s)) := by
    have hfree : ¬ g.nodes.contains (Identity.ofText s).key = true := by
      simp [Table.contains_eq_isSome, Identity.ofText, hnew]
    have htruthy := Datum.isTruthy_text hs
    simp only [requestedId, Datum.isGiven, Bool.not_true, Bool.false_eq_true,
      if_false, ofDatum_text, ok_bind, if_neg hfree, htruthy, if_true]
    rfl
  have hmake : Node.make kind (.ofText s) p.toRecord = .ok (.new s kind p) := by
    rw [Node.make, Position.ofDatum_toRecord]
    rfl
  simp only [create, hid, createAs, NodeKind.ofDatum_name, ok_bind, hmake]

/-- A node that was added is found. -/
theorem node?_addNode {n : Node} (hid : n.id = .ofText n.ident) :
    (g.addNode n).node? (.text n.ident) = .ok (some n) := by
  rw [node?, Datum.key, ok_bind, addNode, hid, Table.get?_insert, Identity.ofText, if_pos rfl]
  rfl

/-- A node that was added and is replaced might have been added as it is. -/
theorem replaceNode_addNode {n n' : Node} (hid : n'.id = n.id) (hports : n'.ports = n.ports) :
    (g.addNode n).replaceNode n' = (n', g.addNode n') := by
  rw [replaceNode, addNode, addNode, hid, Table.insert_insert, withPorts, withPorts, hports]

section
variable {n m made : Node}

/-- Setting the value of a node that was added and has no constraints. -/
theorem setValue_addNode {w v : Number} {d : Datum} (hid : m.id = .ofText m.ident)
    (hc : m.content = .number w) (hv : Number.ofDatum d = .ok v)
    (hfree : g.constraints.constraintsAt (.text m.ident) = []) :
    (g.addNode m).setValue (.text m.ident) d =
      .ok ({ m with content := .number v, label := v.literal },
        g.addNode { m with content := .number v, label := v.literal }) := by
  have hports : Node.ports { m with content := .number v, label := v.literal } = m.ports :=
    Node.ports_congr rfl rfl (by rw [Node.kind, Node.kind, hc]; rfl)
  have hcheck : (g.addNode m).constraints.check (.text m.ident) v.toDatum = .ok () :=
    Registry.check_of_none hfree _
  simp only [setValue, requireNode, node?_addNode hid, ok_bind, pure, Except.pure, hc, hv, hcheck]
  exact congrArg Except.ok (replaceNode_addNode rfl hports)

/-- Setting the variable of a node that was added. -/
theorem setVariable_addNode {name₀ name : String} {d : Datum} (hid : m.id = .ofText m.ident)
    (hc : m.content = .symbol name₀) (hname : readVariable d = .ok name) :
    (g.addNode m).setVariable (.text m.ident) d =
      .ok ({ m with content := .symbol name, label := name },
        g.addNode { m with content := .symbol name, label := name }) := by
  have hports : Node.ports { m with content := .symbol name, label := name } = m.ports :=
    Node.ports_congr rfl rfl (by rw [Node.kind, Node.kind, hc]; rfl)
  simp only [setVariable, requireNode, node?_addNode hid, ok_bind, pure, Except.pure, hc, hname]
  exact congrArg Except.ok (replaceNode_addNode rfl hports)

/-- Setting the label of a node that was added. -/
theorem setLabel_addNode {label : String} (hid : m.id = .ofText m.ident)
    (hlabel : IsTrimmed label) : (g.addNode m).setLabel (.text m.ident) (.text label) =
      .ok ({ m with label }, g.addNode { m with label }) := by
  simp only [setLabel, requireNode, node?_addNode hid, ok_bind, pure, Except.pure, hlabel.not_blank,
    hlabel.1, Bool.false_eq_true, if_false]
  exact congrArg Except.ok (replaceNode_addNode rfl rfl)

/-- The value of a record reaches the node that is being rebuilt. -/
theorem restoreValue_toRecord (hn : n.Valid) (h : m.Rebuilds n)
    (hfree : g.constraints.constraintsAt (.text n.ident) = []) :
    ∃ m', (g.addNode m).restoreValue m n.toRecord = .ok (g.addNode m') ∧ m'.Rebuilds n ∧
      ∀ v, n.content = .number v → m'.content = .number v := by
  obtain ⟨-, -, -, hvalue, -⟩ := n.fieldOr_toRecord .null
  unfold restoreValue
  split
  · next w hc =>
    obtain ⟨v, hv⟩ := Content.kind_eq_number.1 (h.kind.symm.trans (by rw [Node.kind, hc]; rfl))
    have hid := h.id_eq hn
    have hdatum : m.id.datum = .text m.ident := by rw [hid]; rfl
    have hcontent := hn.content
    rw [hv] at hcontent
    refine ⟨{ m with content := .number v, label := v.literal }, ?_,
      ⟨h.id, h.ident, by rw [Node.kind, Node.kind, hv], h.position⟩, fun v' hv' => ?_⟩
    · simp only [hvalue, ok_bind, Node.value, hv, v.isGiven_toDatum, if_true, hdatum,
        setValue_addNode hid hc hcontent (h.ident ▸ hfree)]
      rfl
    · exact hv.symm.trans hv'
  · next hc =>
    refine ⟨m, rfl, h, fun v hv => ?_⟩
    obtain ⟨w, hw⟩ := Content.kind_eq_number.1 (h.kind.trans (by rw [Node.kind, hv]; rfl))
    exact absurd hw (hc w)

/-- The variable of a record reaches the node that is being rebuilt. -/
theorem restoreVariable_toRecord (hn : n.Valid) (hmade : made.Rebuilds n) (h : m.Rebuilds n)
    (hnumber : ∀ v, n.content = .number v → m.content = .number v) :
    ∃ m', (g.addNode m).restoreVariable made n.toRecord = .ok (g.addNode m') ∧ m'.Rebuilds n ∧
      m'.content = n.content := by
  obtain ⟨-, -, -, -, hvariable⟩ := n.fieldOr_toRecord .null
  unfold restoreVariable
  split
  · next name₁ hc =>
    have hkind : n.kind = .symbol := hmade.kind.symm.trans (by rw [Node.kind, hc]; rfl)
    obtain ⟨name, hname⟩ := Content.kind_eq_symbol.1 hkind
    obtain ⟨name₀, hname₀⟩ := Content.kind_eq_symbol.1 (h.kind.trans hkind)
    have hid := h.id_eq hn
    have hdatum : made.id.datum = .text m.ident := by rw [hmade.id, ← h.id, hid]; rfl
    have hcontent := hn.content
    rw [hname] at hcontent
    have htruthy := Datum.isTruthy_text (readVariable_text hcontent).2.2
    refine ⟨{ m with content := .symbol name, label := name }, ?_,
      ⟨h.id, h.ident, by rw [Node.kind, Node.kind, hname], h.position⟩, hname.symm⟩
    simp only [hvariable, ok_bind, Node.variableName, hname, htruthy, if_true, hdatum,
      setVariable_addNode hid hname₀ hcontent]
    rfl
  · next hc =>
    refine ⟨m, rfl, h, Content.eq_of_kind h.kind hnumber fun name hname => ?_⟩
    obtain ⟨name₁, hname₁⟩ :=
      Content.kind_eq_symbol.1 (hmade.kind.trans (by rw [Node.kind, hname]; rfl))
    exact absurd hname₁ (hc name₁)

/-- The label of a record reaches the node that is being rebuilt, which is then the one of the
record. -/
theorem restoreLabel_toRecord (hn : n.Valid) (hmade : made.Rebuilds n) (h : m.Rebuilds n)
    (hcontent : m.content = n.content) :
    (g.addNode m).restoreLabel made n.toRecord = .ok (g.addNode n) := by
  obtain ⟨-, hlabel, -⟩ := n.fieldOr_toRecord .null
  have hid := h.id_eq hn
  have hdatum : made.id.datum = .text m.ident := by rw [hmade.id, ← h.id, hid]; rfl
  have htruthy := Datum.isTruthy_text hn.label.2
  have heq : { m with label := n.label } = n := by
    rw [h.id, h.ident, hcontent, h.position]
  simp only [restoreLabel, hlabel, ok_bind, htruthy, if_true, hdatum, setLabel_addNode hid hn.label,
    heq]
  rfl

/-- A valid node under a new identity, without constraints, is rebuilt from its record. -/
theorem restoreNode_toRecord (hn : n.Valid) (hnew : g.nodes.get? (.text n.ident) = none)
    (hfree : g.constraints.constraintsAt (.text n.ident) = []) :
    g.restoreNode n.toRecord = .ok (g.addNode n) := by
  obtain ⟨hid, -, hposition, -, -⟩ := n.fieldOr_toRecord .null
  have hmade : (Node.new n.ident n.kind n.position).Rebuilds n :=
    ⟨hn.id_eq.symm, rfl, Node.kind_new .., rfl⟩
  have hdatum : n.id.datum = .text n.ident := by rw [hn.id_eq]; rfl
  obtain ⟨m₁, hvalue, h₁, hnumber⟩ := restoreValue_toRecord (g := g) hn hmade hfree
  obtain ⟨m₂, hvariable, h₂, hcontent⟩ := restoreVariable_toRecord (g := g) hn hmade h₁ hnumber
  rw [restoreNode, n.field_toRecord, hposition, hid, hdatum]
  simp only [ok_bind, create_text hn.ident_ne hnew, hvalue, hvariable,
    restoreLabel_toRecord hn hmade h₂ hcontent]

end

/-- Valid nodes under new and distinct identities are rebuilt from their records, one after
another. -/
theorem foldlM_restoreNode : ∀ {ns : List Node} {g : Diagram}, g.WellFormed → g.constraints = {} →
    (∀ n ∈ ns, n.Valid ∧ g.nodes.get? (.text n.ident) = none) → (ns.map Node.ident).Nodup →
    (ns.map Node.toRecord).foldlM restoreNode g = .ok (ns.foldl addNode g) ∧
      (ns.foldl addNode g).WellFormed
  | [], _, hg, _, _, _ => ⟨rfl, hg⟩
  | n :: ns, g, hg, hfree, hns, hnodup => by
    obtain ⟨⟨hn, hnew⟩, hrest⟩ := List.forall_mem_cons.1 hns
    obtain ⟨hne, hnodup'⟩ := List.nodup_cons.1 hnodup
    have hnone : g.constraints.constraintsAt (.text n.ident) = [] := by rw [hfree]; rfl
    have hrest' : ∀ m ∈ ns, m.Valid ∧ (g.addNode n).nodes.get? (.text m.ident) = none := by
      intro m hm
      have hapart : m.ident ≠ n.ident := fun he => hne (he ▸ List.mem_map_of_mem hm)
      exact ⟨(hrest m hm).1, by simp [addNode, hn.key_eq, hapart, (hrest m hm).2]⟩
    obtain ⟨hrun, hwf⟩ := foldlM_restoreNode (hg.addNode hn hnew) hfree hrest' hnodup'
    refine ⟨?_, hwf⟩
    rw [List.map_cons, List.foldlM_cons, restoreNode_toRecord hn hnew hnone]
    exact hrun

/-- Adding nodes changes the table of nodes and that of ports. -/
theorem foldl_addNode : ∀ (ns : List Node) (g : Diagram),
    (ns.foldl addNode g).nodes = ns.foldl (fun t n => t.insert n.id.key n) g.nodes ∧
      (ns.foldl addNode g).connections = g.connections ∧ (ns.foldl addNode g).feeds = g.feeds ∧
      (ns.foldl addNode g).constraints = g.constraints
  | [], _ => ⟨rfl, rfl, rfl, rfl⟩
  | n :: ns, g => foldl_addNode ns (g.addNode n)

/-! ## Connections -/

/-- A connection between ports of a well-formed diagram is rebuilt from its record, if its identity
is new and its target is free. -/
theorem restoreConnection_toRecord (hg : g.WellFormed) {c : Connection} {s : String}
    (hid : c.id = .ofText s) (hj : Joins g.ports c.source c.target)
    (hfree : g.feeds.get? (.text c.target) = none) (hnew : g.connections.get? c.id.key = none) :
    g.restoreConnection c.toRecord = .ok (g.addWire c) := by
  obtain ⟨out, into, hout, hinto, hside, hside', hapart⟩ := hj
  replace hapart := mt Identity.key_eq_of_equal hapart
  have hsource : out.id = c.source := (Key.text.inj (hg.port.1 hout).1).symm
  have htarget : into.id = c.target := (Key.text.inj (hg.port.1 hinto).1).symm
  have hport : ∀ {id p}, g.ports.get? (.text id) = some p → g.port? (.text id) = .ok (some p) := by
    intro id p hp
    rw [port?, Datum.key, ok_bind, hp]
    rfl
  have hunfed : ¬ g.feeds.contains (.text into.id) = true := by
    simp [Table.contains_eq_isSome, htarget, hfree]
  have hwire : g.checkWire (.text c.source) (.text c.target) = .ok (out, into) := by
    simp only [checkWire, hport hout, hport hinto, ok_bind, hside, hside', hapart, ne_eq,
      not_true_eq_false, if_false, hunfed]
    rfl
  have hunknown : ¬ g.connections.contains c.id.key = true := by
    simp [Table.contains_eq_isSome, hnew]
  have hconnection : g.connectionId (.text s) = .ok (c.id, g) := by
    rw [hid] at hunknown
    simp only [connectionId, Datum.isGiven, if_true, ofDatum_text, ok_bind, if_neg hunknown, hid]
    rfl
  have hrecord : c.toRecord.field "source" = .ok (.text c.source) ∧
      c.toRecord.field "target" = .ok (.text c.target) ∧
      c.toRecord.fieldOr "id" .null = .ok (.text s) := by
    simp [Connection.toRecord, Datum.field, Datum.fieldOr, Fields.get?, hid, Identity.ofText]
  have hmade : (⟨c.id, out.id, into.id⟩ : Connection) = c := by rw [hsource, htarget]
  rw [restoreConnection, hrecord.1, hrecord.2.1, hrecord.2.2]
  simp only [ok_bind, addConnection, hwire, hconnection, hmade]
  rfl

/-- Connections under new and distinct identities, to free and distinct targets, are rebuilt from
their records, one after another. -/
theorem foldlM_restoreConnection : ∀ {cs : List Connection} {g : Diagram}, g.WellFormed →
    (∀ c ∈ cs, (∃ s, c.id = .ofText s) ∧ Joins g.ports c.source c.target ∧
      g.feeds.get? (.text c.target) = none ∧ g.connections.get? c.id.key = none) →
    (cs.map (·.id.key)).Nodup → (cs.map Connection.target).Nodup →
    (cs.map Connection.toRecord).foldlM restoreConnection g = .ok (cs.foldl addWire g) ∧
      (cs.foldl addWire g).WellFormed
  | [], g, hg, _, _, _ => ⟨rfl, hg⟩
  | ⟨id, source, target⟩ :: cs, g, hg, hcs, hids, htargets => by
    obtain ⟨⟨⟨s, hid⟩, hj, hfree, hnew⟩, hrest⟩ := List.forall_mem_cons.1 hcs
    obtain ⟨hid', hids'⟩ := List.nodup_cons.1 hids
    obtain ⟨htarget, htargets'⟩ := List.nodup_cons.1 htargets
    dsimp only at hid hj hfree hnew hid' htarget
    subst hid
    have hrest' : ∀ c ∈ cs, (∃ s, c.id = .ofText s) ∧ Joins g.ports c.source c.target ∧
        (g.addWire ⟨.ofText s, source, target⟩).feeds.get? (.text c.target) = none ∧
        (g.addWire ⟨.ofText s, source, target⟩).connections.get? c.id.key = none := by
      intro c hc
      obtain ⟨hcid, hcj, hcfree, hcnew⟩ := hrest c hc
      have hapart : c.target ≠ target := fun he => htarget (he ▸ List.mem_map_of_mem hc)
      have hapart' : c.id.key ≠ (Identity.ofText s).key :=
        fun he => hid' (List.mem_map.2 ⟨c, hc, he⟩)
      exact ⟨hcid, hcj, by simp [addWire, hapart, hcfree], by simp [addWire, hapart', hcnew]⟩
    obtain ⟨hrun, hwf⟩ := foldlM_restoreConnection (hg.addWire hj hfree hnew) hrest' hids' htargets'
    refine ⟨?_, hwf⟩
    rw [List.map_cons, List.foldlM_cons, restoreConnection_toRecord hg rfl hj hfree hnew]
    exact hrun

/-- Adding connections changes the table of connections and what feeds the ports. -/
theorem foldl_addWire : ∀ (cs : List Connection) (g : Diagram),
    (cs.foldl addWire g).connections = cs.foldl (fun t c => t.insert c.id.key c) g.connections ∧
      (cs.foldl addWire g).nodes = g.nodes ∧ (cs.foldl addWire g).constraints = g.constraints
  | [], _ => ⟨rfl, rfl, rfl⟩
  | c :: cs, g => foldl_addWire cs (g.addWire c)

/-! ## Constraints of nodes -/

section
variable {target : Identity} {supply : Supply}

/-- A node that carries a number or a variable takes constraints. -/
theorem requireConstrainable_of_kind {n : Node} (hn : g.nodes.get? target.key = some n)
    (hkind : n.kind = .number ∨ n.kind = .symbol) :
    g.requireConstrainable target.datum = .ok () := by
  have hnode : g.node? target.datum = .ok (some n) := by
    rw [node?, target.made, ok_bind, hn]
    rfl
  simp only [requireConstrainable, requireNode, hnode, ok_bind, pure, Except.pure]
  split
  · rfl
  · rfl
  · next hnumber hsymbol =>
    rcases hkind with hkind | hkind
    · obtain ⟨v, hv⟩ := Content.kind_eq_number.1 hkind
      exact absurd hv (hnumber v)
    · obtain ⟨name, hname⟩ := Content.kind_eq_symbol.1 hkind
      exact absurd hname (hsymbol name)

/-- Attachments that can be made again are made by their records, if their targets take constraints
and the constraints have identities that count as such. -/
theorem restoreConstraints_recordAt {ps : List (Identity × Constraint)} {r : Registry}
    (hps : ∀ p ∈ ps, g.requireConstrainable p.1.datum = .ok () ∧ p.2.id.isTruthy = true)
    (h : g.constraints.addEach (ps.map fun p => (p.1, p.2.rebuilt)) = .ok r) :
    g.restoreConstraints supply (ps.map fun p => p.2.recordAt p.1) =
      (.ok { g with constraints := r }, supply) := by
  induction ps generalizing g with
  | nil =>
    cases h
    rfl
  | cons p ps ih =>
    obtain ⟨⟨htakes, hid⟩, hps⟩ := List.forall_mem_cons.1 hps
    obtain ⟨r₁, hadd, hrest⟩ := ok_of_bind h
    have hread := Constraint.ofRecord_recordAt supply p.1 hid
    have hstep : g.addConstraint supply p.1.datum (p.2.recordAt p.1) =
        (.ok (p.2.rebuilt, { g with constraints := r₁ }), supply) := by
      unfold Constraint.recordAt at hread ⊢
      simp only [addConstraint, htakes, hread, ok_bind, attach, Identity.ofDatum_datum, hadd]
      rfl
    simp only [List.map_cons, restoreConstraints, Constraint.field_recordAt, hstep]
    exact ih (g := { g with constraints := r₁ }) hps hrest

end

end Diagram

end EquationStudio
