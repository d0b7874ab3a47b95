import EquationStudio.Proofs.Diagram.Record
import EquationStudio.Synthesis.Text

/-!
# Diagrams rebuilt from their records

What is read from the record of a well-formed diagram has the same nodes, connections and
constraints (`Diagram.WellFormed.ofRecord_toRecord`), if the constraints have identities that count.
The tables of ports and of what feeds them are filled anew, but find the same
(`Diagram.WellFormed.get?_ports_congr`, `Diagram.WellFormed.get?_feeds_congr`). A walk looks at
nothing else (`Diagram.walk_congr`), so the same expressions are read off (`Diagram.run_ofRecord`).
-/

namespace EquationStudio.Diagram

variable {g g' : Diagram}

/-! ## What a walk looks at -/

section
variable {α : Type} {e : Emitter α}

/-- A walk looks at the producers of ports only. -/
theorem run_congr (h : ∀ p, g.producer? p = g'.producer? p) : ∀ (rounds : Nat) (s : Walk.State α),
    Walk.run g e rounds s = Walk.run g' e rounds s := by
  have hproducers : Walk.producers? g = Walk.producers? g' := by
    funext n
    simp only [Walk.producers?, h]
  have hstep : ∀ s : Walk.State α, s.step g e = s.step g' e := by
    intro s
    simp only [Walk.State.step, Walk.State.enter, hproducers]
  intro rounds
  induction rounds with
  | zero => intro s; rfl
  | succ rounds ih => intro s; simp only [Walk.run, hstep, ih]

/-- Diagrams with the same nodes, whose ports have the same producers, are walked through alike. -/
theorem walk_congr (hnodes : g.nodes = g'.nodes) (h : ∀ p, g.producer? p = g'.producer? p)
    (sink : Node) : g.walk e sink = g'.walk e sink := by
  have hroot : g.root? sink = g'.root? sink := by simp only [root?, h]
  simp only [walk, hroot, run_congr h, Walk.budget, hnodes]

end

/-- Diagrams with the same nodes, whose ports have the same producers, have the same expressions. -/
theorem synthesize_congr (hnodes : g.nodes = g'.nodes) (h : ∀ p, g.producer? p = g'.producer? p)
    (sink : Datum) : g.synthesize sink = g'.synthesize sink := by
  have hsink : g.resolveSink sink = g'.resolveSink sink := by
    simp only [resolveSink, node?, sinks, nodesOfKind, hnodes]
  simp only [synthesize, hsink, walk_congr hnodes h]

namespace WellFormed

/-- The nodes determine what ports are found. -/
theorem get?_ports_congr (h : g.WellFormed) (h' : g'.WellFormed) (hnodes : g.nodes = g'.nodes)
    (k : Key) : g.ports.get? k = g'.ports.get? k := by
  ext p
  rw [h.port, h'.port]
  simp only [HasNode, hnodes]

/-- The connections determine what feeds a port. -/
theorem get?_feeds_congr (h : g.WellFormed) (h' : g'.WellFormed)
    (hconnections : g.connections = g'.connections) (k : Key) :
    g.feeds.get? k = g'.feeds.get? k := by
  ext i
  rw [h.feed, h'.feed]
  simp only [HasWire, hconnections]

/-- The nodes and the connections determine the producers of ports. -/
theorem producer?_congr (h : g.WellFormed) (h' : g'.WellFormed) (hnodes : g.nodes = g'.nodes)
    (hconnections : g.connections = g'.connections) (p : Port) :
    g.producer? p = g'.producer? p := by
  simp only [producer?, feeding?, owner?, h.get?_ports_congr h' hnodes,
    h.get?_feeds_congr h' hconnections, hnodes, hconnections]

/-! ## The record of a diagram -/

/-- The nodes of a well-formed diagram are rebuilt from their records. -/
theorem restore_nodes (h : g.WellFormed) :
    ∃ g₁, (g.nodes.values.map Node.toRecord).foldlM restoreNode {} = .ok g₁ ∧ g₁.WellFormed ∧
      g₁.nodes = g.nodes ∧ g₁.connections = .empty ∧ g₁.feeds = .empty ∧ g₁.constraints = {} := by
  have hnodup : (g.nodes.values.map Node.ident).Nodup := by
    have hkeys : (g.nodes.values.map (Key.text ∘ Node.ident)).Nodup :=
      Table.nodup_values fun k n hn => (h.node hn).1.symm
    rw [← List.map_map] at hkeys
    exact hkeys.of_map
  obtain ⟨hrun, hwf⟩ := foldlM_restoreNode (g := {}) (.empty 1 1) rfl
    (fun n hn => ⟨h.valid (h.mem_nodes.1 hn), rfl⟩) hnodup
  obtain ⟨hnodes, hconnections, hfeeds, hconstraints⟩ := foldl_addNode g.nodes.values {}
  refine ⟨_, hrun, hwf, hnodes.trans ?_, hconnections, hfeeds, hconstraints⟩
  refine Table.foldl_insert_values fun k n hn => ?_
  obtain ⟨rfl, hvalid⟩ := h.node hn
  exact hvalid.key_eq

/-- The connections of a well-formed diagram are rebuilt from their records, if its nodes have
been. -/
theorem restore_connections (h : g.WellFormed) {g₁ : Diagram} (h₁ : g₁.WellFormed)
    (hnodes : g₁.nodes = g.nodes) (hconnections : g₁.connections = .empty)
    (hfeeds : g₁.feeds = .empty) :
    ∃ g₂, (g.connections.values.map Connection.toRecord).foldlM restoreConnection g₁ = .ok g₂ ∧
      g₂.WellFormed ∧ g₂.nodes = g.nodes ∧ g₂.connections = g.connections ∧
      g₂.constraints = g₁.constraints := by
  have hkey : ∀ k c, g.connections.get? k = some c → c.id.key = k :=
    fun k c hc => (h.wire hc).1.symm
  have hkeys := Table.nodup_values hkey
  have htargets : (g.connections.values.map Connection.target).Nodup :=
    hkeys.of_map.map_on fun c hc c' hc' he =>
      h.wire_unique (h.mem_connections.1 hc) (h.mem_connections.1 hc') he
  have hcs : ∀ c ∈ g.connections.values, (∃ s, c.id = .ofText s) ∧
      Joins g₁.ports c.source c.target ∧
      g₁.feeds.get? (.text c.target) = none ∧ g₁.connections.get? c.id.key = none := by
    intro c hc
    obtain ⟨-, hid, hj⟩ := h.wire (h.mem_connections.1 hc)
    refine ⟨hid, hj.mono fun hp => ?_, by rw [hfeeds]; rfl, by rw [hconnections]; rfl⟩
    rw [h₁.get?_ports_congr h hnodes, hp]
  obtain ⟨hrun, hwf⟩ := foldlM_restoreConnection h₁ hcs hkeys htargets
  obtain ⟨htable, hnodes₂, hconstraints⟩ := foldl_addWire g.connections.values g₁
  refine ⟨_, hrun, hwf, hnodes₂.trans hnodes, htable.trans ?_, hconstraints⟩
  rw [hconnections]
  exact Table.foldl_insert_values hkey

/-- The nodes and the connections of a well-formed diagram are rebuilt from its record. -/
theorem restoreParts_toRecord (h : g.WellFormed) :
    ∃ g₂, restoreParts g.toRecord = .ok (g₂, g.constraints.toRecords) ∧ g₂.WellFormed ∧
      g₂.nodes = g.nodes ∧ g₂.connections = g.connections ∧ g₂.constraints = {} := by
  obtain ⟨g₁, hrun₁, h₁, hnodes₁, hempty, hfeeds, hconstraints₁⟩ := h.restore_nodes
  obtain ⟨g₂, hrun₂, h₂, hnodes, hconnections, hconstraints⟩ :=
    h.restore_connections h₁ hnodes₁ hempty hfeeds
  refine ⟨g₂, ?_, h₂, hnodes, hconnections, hconstraints.trans hconstraints₁⟩
  have hfields : ∀ d, g.toRecord.fieldOr "nodes" d =
      .ok (.list (g.nodes.values.map Node.toRecord)) ∧
      g.toRecord.fieldOr "connections" d =
        .ok (.list (g.connections.values.map Connection.toRecord)) ∧
      g.toRecord.fieldOr "constraints" d = .ok (.list g.constraints.toRecords) := by
    simp [toRecord, Datum.fieldOr, Fields.get?]
  obtain ⟨hn, hc, hr⟩ := hfields (.list [])
  simp only [restoreParts, hn, hc, hr, ok_bind, Datum.members, hrun₁, hrun₂]
  rfl

/-- The constraints of a well-formed diagram are rebuilt from their records, if its nodes have been
and the constraints have identities that count. -/
theorem restore_constraints (h : g.WellFormed)
    (hids : g.constraints.Forall fun c => c.id.isTruthy = true) {g₂ : Diagram}
    (hnodes : g₂.nodes = g.nodes) (hfree : g₂.constraints = {}) (supply : Supply) :
    ∃ r, g₂.restoreConstraints supply g.constraints.toRecords =
        (.ok { g₂ with constraints := r }, supply) ∧ r.toRecords = g.constraints.toRecords := by
  obtain ⟨r, hrun, hrecords⟩ := h.compatible.addEach_rebuilt
  rw [← hfree] at hrun
  refine ⟨r, ?_, hrecords⟩
  rw [Registry.toRecords_eq]
  refine restoreConstraints_recordAt (fun p hp => ?_) hrun
  obtain ⟨k, a, ha, htarget, hc⟩ := Registry.exists_of_mem_attachments hp
  obtain ⟨rfl, -, -⟩ := h.compatible k a ha
  obtain ⟨n, hn, hkind⟩ := h.target ha
  rw [htarget]
  exact ⟨requireConstrainable_of_kind (hnodes ▸ hn) hkind, hids _ a ha p.2 hc⟩

/-- A well-formed diagram is rebuilt from its record, if its constraints have identities that count:
what is read has the same record, and the ports have the same producers. -/
theorem ofRecord_toRecord (h : g.WellFormed)
    (hids : g.constraints.Forall fun c => c.id.isTruthy = true) (supply : Supply) :
    ∃ g', ofRecord supply g.toRecord = (.ok g', supply) ∧ g'.nodes = g.nodes ∧
      g'.connections = g.connections ∧ g'.constraints.toRecords = g.constraints.toRecords ∧
      ∀ p, g'.producer? p = g.producer? p := by
  obtain ⟨g₂, hparts, h₂, hnodes, hconnections, hfree⟩ := h.restoreParts_toRecord
  obtain ⟨r, hrun, hrecords⟩ := h.restore_constraints hids hnodes hfree supply
  refine ⟨{ g₂ with constraints := r }, ?_, hnodes, hconnections, hrecords,
    h₂.producer?_congr h hnodes hconnections⟩
  simp only [ofRecord, hparts, hrun]

end WellFormed

/-! ## Diagrams at the end of runs -/

/-- Taking connections away leaves the constraints. -/
theorem constraints_foldl_dropConnection : ∀ (cs : List Connection) (g : Diagram),
    (cs.foldl dropConnection g).constraints = g.constraints
  | [], _ => rfl
  | c :: cs, g => constraints_foldl_dropConnection cs (g.dropConnection c)

/-- A step from constraints with `P` that attaches none without. -/
theorem Step.forall_constraints {P : Constraint → Prop} (h : g.constraints.Forall P)
    (hs : Step P g g') : g'.constraints.Forall P := by
  cases hs with
  | refused | create | setValue | setVariable | setLabel | move | wire | unwire => exact h
  | attach held takes hc added => exact h.add hc added
  | detach removed => exact h.remove removed
  | remove held =>
    rw [dropNode]
    dsimp only
    rw [constraints_foldl_dropConnection]
    exact h.clearAt _
  | clear => intro k a ha; cases ha

/-- A diagram after any run of edits is rebuilt from its record, whatever its wires, its labels and
the values that break its constraints, if the constraints that were attached were built or read.
What is read has the same record, with the same nodes and connections, and the same expressions are
read off. -/
theorem run_ofRecord (edits : List Edit) (supply₀ supply : Supply)
    (htextual : ∀ e ∈ edits, e.Textual) (hmade : ∀ id c, Edit.attach id c ∈ edits → c.Made) :
    ∃ g', ofRecord supply (run edits supply₀).toRecord = (.ok g', supply) ∧
      g'.toRecord = (run edits supply₀).toRecord ∧ g'.nodes = (run edits supply₀).nodes ∧
      g'.connections = (run edits supply₀).connections ∧
      ∀ sink, g'.synthesize sink = (run edits supply₀).synthesize sink := by
  have hreachable : (run edits supply₀).Reachable := ⟨edits, supply₀, htextual, rfl⟩
  have hattaches : ∀ e ∈ edits, e.Textual ∧ e.Attaches Constraint.Made := by
    refine fun e he => ⟨htextual e he, ?_⟩
    cases e with
    | attach id c => exact hmade id c he
    | addConstraint id record => exact fun supply supply' c hc => ⟨supply, supply', .inl ⟨_, hc⟩⟩
    | _ => trivial
  -- A constraint whose identity is null or empty would be given a new one when it is read.
  have hreachable' : (run edits supply₀).ReachableWith Constraint.Made :=
    ⟨edits, supply₀, hattaches, rfl⟩
  have hids : (run edits supply₀).constraints.Forall Constraint.Made :=
    hreachable'.induction (fun k a ha => by cases ha) Step.forall_constraints
  obtain ⟨g', hread, hnodes, hconnections, hrecords, hproducers⟩ :=
    hreachable.wellFormed.ofRecord_toRecord (fun k a ha c hc => (hids k a ha c hc).isTruthy) supply
  refine ⟨g', hread, ?_, hnodes, hconnections, synthesize_congr hnodes hproducers⟩
  rw [toRecord, toRecord, hnodes, hconnections, hrecords]

/-- A run that closes a cycle, sets a number that breaks a constraint attached afterwards, and
attaches constraints to two nodes by turns. -/
theorem run_ofRecord_cyclic :
    let even : Constraint :=
      ⟨.text "e", true, .parity, { parity := some .even }, .parity .even, rfl⟩
    let edits : List Edit := [
      .create (.text "add") .null (.text "s"), .create (.text "power") .null (.text "p"),
      .create (.text "output") .null (.text "r"), .create (.text "number") .null (.text "a"),
      .create (.text "variable") .null .null, .connect (.text "s") (.text "p") (.int 0),
      .connect (.text "n1") (.text "p") (.int 1), .connect (.text "p") (.text "s") (.int 1),
      .connect (.text "s") (.text "r") (.int 0),
      .addConnection (.text "a-out") (.text "s-in1") (.text "w"),
      .setValue (.text "a") (.text "9007199254740993"), .setLabel (.text "a") (.text " big "),
      .addConstraint (.text "a")
        (.record [("type", .text "range"), ("min", .int 0), ("max", .int 9)]),
      .attach (.text "n1") even,
      .addConstraint (.text "a") (.record [("type", .text "prime")]),
      .setVariable (.text "n1") (.text "y")]
    ((∀ e ∈ edits, e.Textual) ∧ ∀ id c, Edit.attach id c ∈ edits → c.Made) ∧
      (∃ g', ofRecord {} (run edits {}).toRecord = (.ok g', {}) ∧
        g'.toRecord = (run edits {}).toRecord ∧ g'.nodes = (run edits {}).nodes ∧
        g'.connections = (run edits {}).connections ∧
        ∀ sink, g'.synthesize sink = (run edits {}).synthesize sink) ∧
      (run edits {}).nodes.values.map Node.label = ["+", "^", "Result", "big", "y"] ∧
      (run edits {}).constraints.table.values.map (·.constraints.length) = [2, 1] ∧
      ((run edits {}).synthesize (.text "r")).toOption.isNone = true ∧
      ((run edits {}).constraints.violations (.text "a") (.int 9007199254740992)).toOption.map
        List.length = some 2 := by
  intro even edits
  have htextual : ∀ e ∈ edits, e.Textual := by simp [edits, Edit.Textual]
  have heven : even.Made :=
    ⟨{}, {}, .inl ⟨_, Constraint.ofRecord_recordAt {} (.ofText "n1") (c := even)
    (by decide +kernel)⟩⟩
  have hmade : ∀ id c, Edit.attach id c ∈ edits → c.Made := by
    rintro id c h
    simp only [edits, List.mem_cons, reduceCtorEq, Edit.attach.injEq, List.not_mem_nil, or_false,
      false_or] at h
    exact h.2 ▸ heven
  exact ⟨⟨htextual, hmade⟩, run_ofRecord edits {} {} htextual hmade, by decide +kernel,
    by decide +kernel, by decide +kernel, by decide +kernel⟩

end EquationStudio.Diagram
