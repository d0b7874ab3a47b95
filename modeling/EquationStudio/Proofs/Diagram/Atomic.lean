import EquationStudio.Proofs.Diagram.Keyed
import EquationStudio.Proofs.Diagram.Script

/-!
# Refused edits write nothing

Each script comes to what the library does (`Edit.script_eq`): the reads are the same and in the
same order, and the writes add up. No deletion misses its entry in a keyed diagram, since nodes and
connections stand under their own keys (`Script.dropConnection_apply`, `Script.removeNode_answers`).
A refused edit of the library leaves every table as it is (`Edit.sameTables_of_outcome`), so a fault
in a script comes before its first write, or after no more than a number has been used up
(`Diagram.run_atomic`).
-/

namespace EquationStudio

/-! ## Tables, identities and literals -/

/-- An entry that is set and deleted is deleted. -/
theorem Table.erase_insert {α : Type} (t : Table α) (k : Key) (v : α) :
    (t.insert k v).erase k = t.erase k := by
  refine ext_entries ?_
  show (t.insert k v).entries.filter (·.1 ≠ k) = t.entries.filter (·.1 ≠ k)
  by_cases h : t.contains k = true
  · rw [entries_insert_of_contains h]
    induction t.entries with
    | nil => rfl
    | cons e es ih => by_cases he : e.1 = k <;> simp_all [replaced]
  · simp [entries_insert_of_not_contains h]

/-- A table without entries has none to delete. -/
theorem Table.erase_of_isEmpty {α : Type} {t : Table α} (h : t.isEmpty = true) (k : Key) :
    t.erase k = t := by
  refine ext_entries ?_
  show t.entries.filter (·.1 ≠ k) = t.entries
  rw [List.isEmpty_iff.1 h]
  rfl

/-- A datum makes the key of its identity. -/
theorem Datum.key_eq_ofDatum (d : Datum) : d.key = (Identity.ofDatum d).map Identity.key := by
  unfold Identity.ofDatum
  split <;> assumption

/-- A number that has been accepted has a literal: an integer is short enough to be written. -/
theorem Number.literal_toDatum {d : Datum} {v : Number} (h : ofDatum d = .ok v) :
    v.toDatum.literal = .ok v.literal := by
  obtain ⟨x, rfl⟩ := exists_ofFinite h
  obtain ⟨n, -, hlimit, -, he⟩ | ⟨-, he⟩ := ofFinite_cases x
  · have hle : ∀ k, 16 ≤ k → plainLimit ≤ Nat.pow 10 k := fun k => Nat.pow_le_pow_right (by decide)
    rw [he]
    show integerText n = _
    rw [integerText, if_pos (Nat.lt_of_lt_of_le hlimit (hle writtenDigits (by decide)))]
    rfl
  · rw [he]
    rfl

/-- Attaching a constraint is asking whether it may be, keeping its target and appending it. -/
theorem Registry.add_eq_accept (r : Registry) (target : Identity) (c : Constraint) :
    r.add target c =
      (r.accept target c >>= fun _ => .ok ((r.keep target).append target.key c)) := by
  have hwritten : (r.keep target).append target.key c =
      ⟨r.table.insert target.key ⟨((r.table.get? target.key).map Attached.target).getD target,
        r.constraintsAt target.key ++ [c]⟩⟩ := by
    unfold keep
    cases hold : r.table.get? target.key with
    | none =>
      have hc : ¬ r.table.contains target.key = true := by simp [Table.contains_eq_isSome, hold]
      simp only [if_neg hc, append, Table.get?_insert, if_true, Table.insert_insert,
        constraintsAt_of_none hold, Option.map_none, Option.getD_none]
    | some old =>
      have hc : r.table.contains target.key = true := by simp [Table.contains_eq_isSome, hold]
      simp only [if_pos hc, append, hold, constraintsAt_of_get? hold, Option.map_some,
        Option.getD_some]
  rw [hwritten, add, accept]
  dsimp only
  split
  · cases c.id.plain <;> rfl
  · cases conflictsWith c (r.constraintsAt target.key) with
    | error fault => rfl
    | ok kinds =>
      simp only [ok_bind]
      split
      · rfl
      · cases target.datum.plain <;> rfl

namespace Script

variable {β γ : Type} {s : Diagram × Supply}

/-- A script comes to a request: it is refused without a change, or leaves what the request
leaves. -/
def Answers (m : Script Unit) (s : Diagram × Supply) (left : β → Diagram)
    (r : Except Fault β) : Prop :=
  m s = match r with
    | .ok b => (.ok (), (left b, s.2))
    | .error fault => (.error fault, s)

/-- A script and a request that begin with the same read. -/
theorem Answers.ask {f : Diagram → Except Fault γ} {m : γ → Script Unit} {left : β → Diagram}
    {r : γ → Except Fault β} (h : ∀ c, f s.1 = .ok c → (m c).Answers s left (r c)) :
    (Script.ask f >>= m).Answers s left (f s.1 >>= r) := by
  unfold Answers
  rw [ask_bind]
  cases hf : f s.1 with
  | error fault => rfl
  | ok c => exact h c hf

/-- A script and a request that are both refused. -/
theorem Answers.refuse (fault : Fault) {left : β → Diagram} :
    (throw fault : Script Unit).Answers s left (.error fault) := rfl

/-- What a script that comes to a request answers and leaves. -/
theorem Answers.result {m : Script Unit} {r : Except Fault (β × Diagram)}
    (h : m.Answers s Prod.snd r) : m s = (r.map fun _ => (), (s.1.after r, s.2)) := by
  rw [h]
  cases r <;> rfl

/-- What a script that comes to a request without an answer leaves. -/
theorem Answers.result_unit {m : Script Unit} {r : Except Fault Diagram}
    (h : m.Answers s (fun g => g) r) :
    m s = (r.map fun _ => (), (s.1.after (r.map ((), ·)), s.2)) := by
  rw [h]
  cases r <;> rfl

/-! ## Nodes -/

/-- Ports entered one after another are listed. -/
theorem foldl_ports (ps : List Port) (g : Diagram) :
    ps.foldl (fun g p => { g with ports := g.ports.insert (.text p.id) p }) g =
      { g with ports := ps.foldl (fun t p => t.insert (.text p.id) p) g.ports } :=
  List.foldl_hom (fun ports => { g with ports }) fun _ _ => rfl

/-- Creating a node under an identity comes to what the library does. -/
theorem createAs_apply (kind position : Datum) (id : Identity) (s : Diagram × Supply) :
    createAs kind position id s =
      ((s.1.createAs kind position id).1.map fun _ => (),
      ((s.1.createAs kind position id).2, s.2)) := by
  rw [createAs, ask_bind, Diagram.createAs]
  cases (do Node.make (← NodeKind.ofDatum kind) id position) with
  | error fault => rfl
  | ok n =>
    dsimp only
    rw [write_bind, forM_write fun p g => { g with ports := g.ports.insert (.text p.id) p },
      foldl_ports]
    rfl

/-- Creating a node comes to what the library does. -/
theorem create_apply (kind position id : Datum) (s : Diagram × Supply) :
    create kind position id s =
      ((s.1.create kind position id).1.map fun _ => (),
      ((s.1.create kind position id).2, s.2)) := by
  rw [create, ask_bind, Diagram.create]
  cases s.1.requestedId id with
  | error fault => rfl
  | ok asked =>
    cases asked with
    | some i => exact createAs_apply kind position i s
    | none => exact createAs_apply kind position s.1.freshNodeId.1 ({ s.1 with nextNode := _ }, s.2)

/-- Writing to a node twice is writing to it once. -/
theorem replaceNode_replaceNode (g : Diagram) {n m : Node} (h : m.id = n.id) :
    ((g.replaceNode n).2.replaceNode m).2 = (g.replaceNode m).2 := by
  simp only [Diagram.replaceNode, h, Table.insert_insert]

/-- Two writes to one node come to the second. -/
theorem writeNode_writeNode {n m : Node} (h : m.id = n.id) :
    (do writeNode n; writeNode m : Script Unit).Answers s Prod.snd (.ok (s.1.replaceNode m)) := by
  unfold Answers writeNode
  rw [write_bind, write_apply, replaceNode_replaceNode s.1 h]

/-- Setting a value comes to what the library does. -/
theorem setValue_answers (id value : Datum) :
    (setValue id value).Answers s Prod.snd (s.1.setValue id value) := by
  refine .ask fun n hn => ?_
  cases n.content with
  | number w =>
    refine .ask (f := fun _ => Number.ofDatum value) fun v hv => .ask fun _ _ => ?_
    unfold Answers writeNode
    rw [write_bind, ask_bind, Number.literal_toDatum hv]
    exact writeNode_writeNode rfl
  | symbol | binary | output => exact .refuse _

/-- Setting a variable comes to what the library does. -/
theorem setVariable_answers (id name : Datum) :
    (setVariable id name).Answers s Prod.snd (s.1.setVariable id name) := by
  refine .ask fun n hn => ?_
  cases n.content with
  | symbol name₀ =>
    exact .ask (f := fun _ => readVariable name) fun _ _ => writeNode_writeNode rfl
  | number | binary | output => exact .refuse _

/-- Setting a label comes to what the library does. -/
theorem setLabel_answers (id label : Datum) :
    (setLabel id label).Answers s Prod.snd (s.1.setLabel id label) := by
  refine .ask fun n hn => ?_
  cases label with
  | text t => by_cases ht : isBlankText t = true <;> simp only [ht] <;> rfl
  | _ => exact .refuse _

/-- Moving a node comes to what the library does. -/
theorem move_answers (id position : Datum) :
    (move id position).Answers s Prod.snd (s.1.move id position) :=
  .ask fun _ _ => .ask (f := fun _ => Position.ofDatum position) fun _ _ => rfl

/-! ## Constraints -/

/-- Attaching a constraint comes to what the library does. -/
theorem attach_answers (id : Datum) (c : Constraint) :
    (attach id c).Answers s Prod.snd (s.1.attach id c) := by
  refine .ask fun _ _ => .ask (f := fun _ => Identity.ofDatum id) fun target _ => ?_
  rw [Registry.add_eq_accept, bind_assoc]
  exact .ask fun _ _ => rfl

/-- Attaching a constraint that is given as a record comes to what the library does. -/
theorem addConstraint_apply (id record : Datum) (s : Diagram × Supply) :
    addConstraint id record s = ((s.1.addConstraint s.2 id record).1.map fun _ => (),
      (s.1.after (s.1.addConstraint s.2 id record).1, (s.1.addConstraint s.2 id record).2)) := by
  unfold addConstraint Diagram.addConstraint
  rw [ask_bind]
  cases s.1.requireConstrainable id with
  | error fault => rfl
  | ok _ =>
    cases record with
    | record fields =>
      dsimp only
      rw [draw_bind]
      cases Constraint.ofRecord s.2 (.record fields) with
      | mk read supply =>
        cases read with
        | error fault => rfl
        | ok c => exact (attach_answers (s := (s.1, supply)) id c).result
    | _ => rfl

/-- Detaching a constraint comes to what the library does. -/
theorem removeConstraint_answers (id constraint : Datum) :
    (removeConstraint id constraint).Answers s Prod.snd (s.1.removeConstraint id constraint) := by
  unfold Answers removeConstraint Diagram.removeConstraint Registry.remove
  rw [ask_bind, Datum.key_eq_ofDatum]
  cases Identity.ofDatum id with
  | error fault => rfl
  | ok target =>
    simp only [ask_bind, Except.map, ok_bind]
    cases s.1.constraints.table.get? target.key with
    | none => rfl
    | some attached =>
      dsimp only
      split
      · rfl
      · rw [write_bind]
        split
        · rw [delete_apply (by simp)]
          dsimp only
          rw [Table.erase_insert]
          rfl
        · rfl

/-! ## Connections -/

/-- A connection that is there is taken away as the library does it. -/
theorem dropConnection_apply {c : Connection} (h : s.1.connections.get? c.id.key ≠ none) :
    dropConnection c s = (.ok (), (s.1.dropConnection c, s.2)) := by
  unfold dropConnection Diagram.dropConnection
  rw [bind_of_ok (delete_apply h), ask_bind]
  dsimp only
  split
  · next hfed =>
    refine delete_apply fun hnone => ?_
    rw [show s.1.feeds.get? (.text c.target) = none from hnone] at hfed
    cases hfed
  · rfl

/-- Removing a connection comes to what the library does in a keyed diagram. -/
theorem removeConnection_answers (h : s.1.Keyed) (id : Datum) :
    (removeConnection id).Answers s (fun g => g) (s.1.removeConnection id) := by
  refine .ask (f := fun _ => id.key) fun k _ => ?_
  unfold Answers
  rw [ask_bind]
  cases hc : s.1.connections.get? k with
  | none => rfl
  | some c => exact dropConnection_apply (by rw [h.connection hc, hc]; exact nofun)

/-- Connections that are there, each under another key, are taken away one after another. -/
theorem forM_dropConnection : ∀ (cs : List Connection) (s : Diagram × Supply),
    (∀ c ∈ cs, s.1.connections.get? c.id.key ≠ none) → (cs.map (·.id.key)).Nodup →
      forM cs dropConnection s = (.ok (), (cs.foldl Diagram.dropConnection s.1, s.2))
  | [], _, _, _ => rfl
  | c :: cs, s, hheld, hn => by
    obtain ⟨hc, hn⟩ := List.nodup_cons.1 hn
    have hrest : ∀ d ∈ cs, (s.1.dropConnection c).connections.get? d.id.key ≠ none := by
      intro d hd
      have hne : d.id.key ≠ c.id.key := fun he => hc (List.mem_map.2 ⟨d, hd, he⟩)
      rw [Diagram.dropConnection, Table.get?_erase, if_neg hne]
      exact hheld d (.tail _ hd)
    rw [List.forM_cons, bind_of_ok (dropConnection_apply (hheld c (.head _))),
      forM_dropConnection cs (s.1.dropConnection c, s.2) hrest hn]
    rfl

/-- Adding a connection comes to what the library does. -/
theorem addConnection_answers (source target id : Datum) :
    (addConnection source target id).Answers s Prod.snd (s.1.addConnection source target id) := by
  refine .ask fun ⟨out, into⟩ _ => .ask fun ⟨i, numbered⟩ hid => ?_
  rw [Diagram.connectionId_numbered hid]
  rfl

/-- Wiring two nodes comes to what the library does. -/
theorem connect_answers (source target index : Datum) :
    (connect source target index).Answers s Prod.snd (s.1.connect source target index) := by
  refine .ask fun start _ => .ask fun into _ => ?_
  cases start.outputs with
  | nil => cases source.plain <;> rfl
  | cons out _ =>
    exact .ask (f := fun _ => Diagram.inputAt into target index) fun port _ =>
      addConnection_answers (.text out.id) (.text port.id) .null

/-! ## Removal -/

/-- Ports deleted one after another are no longer listed. -/
theorem foldl_erase_ports (ids : List String) (g : Diagram) :
    ids.foldl (fun g id => { g with ports := g.ports.erase (.text id) }) g =
      { g with ports := ids.foldl (fun t id => t.erase (.text id)) g.ports } :=
  List.foldl_hom (fun ports => { g with ports }) fun _ _ => rfl

/-- Clearing the constraints of a target that is given is detaching all of them. -/
theorem clear_of_key {r : Registry} {id : Datum} {k : Key} (hk : id.key = .ok k)
    (hnull : k ≠ .null) : r.clear id = .ok (r.clearAt k) := by
  unfold Registry.clear
  split
  · next hgiven =>
    cases id with
    | null => cases hk; exact absurd rfl hnull
    | _ => cases hgiven
  · split
    · next hempty => rw [Registry.clearAt, Table.erase_of_isEmpty hempty]
    · rw [hk]; rfl

/-- The connections at the ports of a node are there, each under another key. -/
theorem touching_keyed {g : Diagram} (h : g.Keyed) (n : Node) :
    (∀ c ∈ g.touching n, g.connections.get? c.id.key ≠ none) ∧
      ((g.touching n).map (·.id.key)).Nodup := by
  constructor
  · intro c hc
    obtain ⟨k, hk⟩ := Table.mem_values.1 (List.mem_of_mem_filter hc)
    rw [h.connection hk, hk]
    exact nofun
  · exact (Table.nodup_values fun _ _ hc => h.connection hc).sublist (List.filter_sublist.map _)

/-- A node that is found by a datum is removed as the library does it in a keyed diagram. -/
theorem dropNode_apply (h : s.1.Keyed) {id : Datum} {n : Node}
    (hn : s.1.nodes.get? n.id.key = some n) {i : Identity} (hi : Identity.ofDatum id = .ok i)
    (hkey : i.key = n.id.key) : dropNode id n s = (.ok (), (s.1.dropNode n, s.2)) := by
  obtain ⟨hheld, hnodup⟩ := touching_keyed h n
  obtain ⟨hnodes, -, -, -⟩ := Diagram.foldl_dropConnection_tables (s.1.touching n) s.1
  have hclear : id.key = .ok n.id.key := by rw [Datum.key_eq_ofDatum, hi, ← hkey]; rfl
  unfold dropNode
  rw [ask_bind]
  dsimp only
  rw [bind_of_ok (forM_dropConnection _ s hheld hnodup),
    bind_of_ok (forM_write (fun id g => { g with ports := g.ports.erase (.text id) }) _ _),
    foldl_erase_ports, ask_bind, clear_of_key hclear (h.node hn).2.1]
  dsimp only
  rw [write_bind, ask_bind, hi]
  dsimp only
  rw [delete_apply (by rw [hkey, hnodes, hn]; exact nofun), hkey]
  rfl

/-- Removing a node comes to what the library does in a keyed diagram. -/
theorem removeNode_answers (h : s.1.Keyed) (id : Datum) :
    (removeNode id).Answers s (fun g => g) (s.1.removeNode id) := by
  refine .ask (f := (·.node? id)) fun found hfound => ?_
  cases found with
  | none => rfl
  | some n =>
    obtain ⟨k, hk, hn⟩ := ok_of_bind hfound
    obtain ⟨rfl, -, -⟩ := h.node (Except.ok.inj hn)
    rw [Datum.key_eq_ofDatum] at hk
    cases hi : Identity.ofDatum id with
    | error fault => rw [hi] at hk; cases hk
    | ok i =>
      rw [hi] at hk
      exact dropNode_apply h (Except.ok.inj hn) hi (Except.ok.inj hk)

end Script

namespace Edit

/-- The script of an edit of a keyed diagram comes to what the library does: the same answer, and
the same diagram whether the edit is carried out or refused. -/
theorem script_eq {s : Diagram × Supply} (h : s.1.Keyed) (e : Edit) :
    e.script s = (e.outcome s, e.apply s) := by
  cases e with
  | create kind position id => exact Script.create_apply kind position id s
  | setValue id value => exact (Script.setValue_answers id value).result
  | setVariable id name => exact (Script.setVariable_answers id name).result
  | setLabel id label => exact (Script.setLabel_answers id label).result
  | move id position => exact (Script.move_answers id position).result
  | addConstraint id record => exact Script.addConstraint_apply id record s
  | attach id c => exact (Script.attach_answers id c).result
  | removeConstraint id constraint => exact (Script.removeConstraint_answers id constraint).result
  | removeNode id => exact (Script.removeNode_answers h id).result_unit
  | addConnection source target id => exact (Script.addConnection_answers source target id).result
  | connect source target index => exact (Script.connect_answers source target index).result
  | removeConnection id => exact (Script.removeConnection_answers h id).result_unit
  | clear => rfl

end Edit

namespace Diagram

/-- Two diagrams with the same nodes, connections, ports, feeds and constraints. -/
structure SameTables (g g' : Diagram) : Prop where
  nodes : g.nodes = g'.nodes
  connections : g.connections = g'.connections
  ports : g.ports = g'.ports
  feeds : g.feeds = g'.feeds
  constraints : g.constraints = g'.constraints

/-- A diagram has the tables that it has. -/
theorem SameTables.refl (g : Diagram) : g.SameTables g := ⟨rfl, rfl, rfl, rfl, rfl⟩

/-- A number that is used up is in no table. -/
theorem SameTables.nextNode (g : Diagram) (n : Nat) : SameTables { g with nextNode := n } g :=
  ⟨rfl, rfl, rfl, rfl, rfl⟩

end Diagram

namespace Edit

/-- Whether a number is used up for the identity of a new node before the node is made. -/
def usesNumber (g : Diagram) : Edit → Bool
  | create _ _ id =>
    match g.requestedId id with
    | .ok none => true
    | _ => false
  | _ => false

/-- A node that is not created leaves the diagram as it is, but for a number that is used up. -/
theorem create_of_error {g : Diagram} {kind position id : Datum} {fault : Fault}
    (h : (g.create kind position id).1 = .error fault) : (g.create kind position id).2 =
      if (create kind position id).usesNumber g
      then { g with nextNode := g.freshNodeId.2 } else g := by
  have hcreateAs : ∀ {g : Diagram} {i : Identity}, (g.createAs kind position i).1 = .error fault →
      (g.createAs kind position i).2 = g := by
    intro g i h
    unfold Diagram.createAs at h ⊢
    split at h
    · rfl
    · cases h
  unfold Diagram.create at h ⊢
  cases hasked : g.requestedId id with
  | error _ => simp only [usesNumber, hasked, Bool.false_eq_true, if_false]
  | ok asked =>
    rw [hasked] at h
    cases asked with
    | some i =>
      simp only [usesNumber, hasked, Bool.false_eq_true, if_false]
      exact hcreateAs h
    | none =>
      simp only [usesNumber, hasked, if_true]
      exact hcreateAs h

/-- An edit that the library refuses leaves the diagram as it is, but for a number that is used
up. -/
theorem apply_of_error {s : Diagram × Supply} {e : Edit} {fault : Fault}
    (h : e.outcome s = .error fault) : (e.apply s).1 =
      if e.usesNumber s.1 then { s.1 with nextNode := s.1.freshNodeId.2 } else s.1 := by
  have hafter : ∀ {β : Type} {r : Except Fault (β × Diagram)}, (r.map fun _ => ()) = .error fault →
      s.1.after r = s.1 := by
    intro β r hr
    cases r with
    | error _ => rfl
    | ok _ => cases hr
  have hafterUnit : ∀ {r : Except Fault Diagram}, (r.map fun _ => ()) = .error fault →
      s.1.after (r.map ((), ·)) = s.1 := by
    intro r hr
    cases r with
    | error _ => rfl
    | ok _ => cases hr
  cases e with
  | create kind position id =>
    have hrefused : (s.1.create kind position id).1 = .error fault := by
      cases hmade : (s.1.create kind position id).1 with
      | error _ => rw [outcome, hmade] at h; cases h; rfl
      | ok _ => rw [outcome, hmade] at h; cases h
    exact create_of_error hrefused
  | removeNode | removeConnection => exact hafterUnit h
  | clear => cases h
  | setValue | setVariable | setLabel | move | addConstraint | attach | removeConstraint
  | addConnection | connect => exact hafter h

/-- An edit that the library refuses leaves the tables of the diagram as they are. -/
theorem sameTables_of_outcome {s : Diagram × Supply} {e : Edit} {fault : Fault}
    (h : e.outcome s = .error fault) : (e.apply s).1.SameTables s.1 := by
  rw [apply_of_error h]
  split
  · exact .nextNode _ _
  · exact .refl _

end Edit

namespace Diagram

/-- After any run of edits, with data of any kind as identities and as arguments, an edit carried
out write by write comes to what the library does, and if it ends in a fault, the nodes, the
connections, the ports, the feeds and the constraints are what they were before. -/
theorem run_atomic (edits : List Edit) (supply : Supply) (e : Edit) :
    let s := edits.foldl Edit.apply ({}, supply)
    e.script s = (e.outcome s, e.apply s) ∧
      ∀ fault s', e.script s = (.error fault, s') → s'.1.SameTables s.1 := by
  intro s
  have heq : e.script s = (e.outcome s, e.apply s) := Edit.script_eq (Keyed.run edits supply) e
  refine ⟨heq, fun fault s' h => ?_⟩
  rw [heq] at h
  obtain ⟨houtcome, rfl⟩ := Prod.mk.inj h
  exact Edit.sameTables_of_outcome houtcome

/-- A node under the number seven must be prime, and is refused the rule that it be nine. -/
theorem run_atomic_conflict :
    let edits : List Edit :=
      [.create (.text "number") .null (.int 7),
        .attach (.float (.finite ⟨false, 4619567317775286272⟩))
          ⟨.text "prime", true, .prime, {}, .prime, rfl⟩]
    let e : Edit := .attach (.int 7) ⟨.text "nine", true, .comparison .equal, { value := .int 9 },
      .comparison .equal (.whole 9), rfl⟩
    let s := edits.foldl Edit.apply ({}, {})
    s.1.constraints.size = 1 ∧ ∃ s', e.script s =
      (.error (.conflict "7" ["equal_value_excluded"]), s') ∧ s'.1.SameTables s.1 := by
  intro edits e s
  obtain ⟨heq, hsame⟩ := run_atomic edits {} e
  have hrefused : e.outcome s = .error (.conflict "7" ["equal_value_excluded"]) := by decide +kernel
  rw [hrefused] at heq
  exact ⟨by decide +kernel, _, heq, hsame _ _ heq⟩

end Diagram

end EquationStudio
