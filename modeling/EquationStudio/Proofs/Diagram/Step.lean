import EquationStudio.Diagram.Edit
import EquationStudio.Proofs.Basic
import EquationStudio.Proofs.Table

/-!
# Runs of edits

An `Edit` is one of the editor's operations on a diagram together with its arguments, and
`Edit.apply` is what becomes of the diagram and the supply of identifiers, whether the edit is
carried out or refused. The diagrams that can be met are those at the end of a run of edits from the
empty one (`Diagram.Reachable`).

`Diagram.Step` says once all that an edit can do to a diagram, with the conditions under which it
does it; `Edit.apply_step` proves that no edit does anything else. What every edit preserves is
shown by cases on `Diagram.Step` and carried along runs by `Diagram.Reachable.induction`.
-/

namespace EquationStudio

/-! ## Edits -/

/-- An edit with its arguments. An identity that is not given is null. -/
inductive Edit where
  | create (kind position id : Datum)
  | setValue (id value : Datum)
  | setVariable (id name : Datum)
  | setLabel (id label : Datum)
  | move (id position : Datum)
  | addConstraint (id record : Datum)
  | attach (id : Datum) (c : Constraint)
  | removeConstraint (id constraint : Datum)
  | removeNode (id : Datum)
  | addConnection (source target id : Datum)
  | connect (source target index : Datum)
  | removeConnection (id : Datum)
  | clear

/-- The diagram after a request that may be refused: a refused one changes nothing. -/
def Diagram.after {β : Type} (g : Diagram) : Except Fault (β × Diagram) → Diagram
  | .ok (_, g') => g'
  | .error _ => g

namespace Edit

/-- What an edit makes of a diagram and the supply of identifiers, carried out or refused. -/
def apply (s : Diagram × Supply) : Edit → Diagram × Supply
  | create kind position id => ((s.1.create kind position id).2, s.2)
  | setValue id value => (s.1.after (s.1.setValue id value), s.2)
  | setVariable id name => (s.1.after (s.1.setVariable id name), s.2)
  | setLabel id label => (s.1.after (s.1.setLabel id label), s.2)
  | move id position => (s.1.after (s.1.move id position), s.2)
  | addConstraint id record =>
    (s.1.after (s.1.addConstraint s.2 id record).1, (s.1.addConstraint s.2 id record).2)
  | attach id c => (s.1.after (s.1.attach id c), s.2)
  | removeConstraint id constraint => (s.1.after (s.1.removeConstraint id constraint), s.2)
  | removeNode id => (s.1.after ((s.1.removeNode id).map ((), ·)), s.2)
  | addConnection source target id => (s.1.after (s.1.addConnection source target id), s.2)
  | connect source target index => (s.1.after (s.1.connect source target index), s.2)
  | removeConnection id => (s.1.after ((s.1.removeConnection id).map ((), ·)), s.2)
  | clear => (s.1.clear, s.2)

/-- The identities that an edit gives to a node or a connection are texts, if it gives any. -/
def Textual : Edit → Prop
  | create _ _ id => id = .null ∨ ∃ s, id = .text s
  | addConnection _ _ id => id = .null ∨ ∃ s, id = .text s
  | _ => True

/-- The constraint that an edit attaches, if it is carried out, satisfies `P`. -/
def Attaches (P : Constraint → Prop) : Edit → Prop
  | addConstraint _ record =>
    ∀ supply supply' c, Constraint.ofRecord supply record = (.ok c, supply') → P c
  | attach _ c => P c
  | _ => True

end Edit

namespace Diagram

/-- The diagram at the end of a run of edits of the empty one. -/
def run (edits : List Edit) (supply : Supply) : Diagram :=
  (edits.foldl Edit.apply ({}, supply)).1

/-- A diagram at the end of a run of edits that give texts as identities and attach constraints
with `P`. -/
def ReachableWith (P : Constraint → Prop) (g : Diagram) : Prop :=
  ∃ edits supply, (∀ e ∈ edits, Edit.Textual e ∧ e.Attaches P) ∧ run edits supply = g

/-- A diagram at the end of a run of edits that give texts as identities. -/
def Reachable (g : Diagram) : Prop :=
  ∃ edits supply, (∀ e ∈ edits, Edit.Textual e) ∧ run edits supply = g

end Diagram

/-- A new node under a text. -/
def Node.new (s : String) (kind : NodeKind) (position : Position) : Node :=
  { id := .ofText s, ident := s, content := kind.content, label := kind.label, position }

namespace Diagram

/-- All that an edit can do to a diagram. Numbers for identities may be used up by an edit that is
refused; `P` holds of the constraints that are attached. -/
inductive Step (P : Constraint → Prop) (g : Diagram) : Diagram → Prop
  | refused (i j : Nat) : Step P g { g with nextNode := i, nextConnection := j }
  | create (i : Nat) (s : String) (kind : NodeKind) (position : Position) (named : s ≠ "")
      (new : g.nodes.get? (.text s) = none) :
      Step P g ({ g with nextNode := i }.addNode (.new s kind position))
  | setValue {id d : Datum} {n : Node} {w v : Number} (held : g.node? id = .ok (some n))
      (carried : n.content = .number w) (read : Number.ofDatum d = .ok v)
      (checked : g.constraints.check id v.toDatum = .ok ()) :
      Step P g (g.replaceNode { n with content := .number v, label := v.literal }).2
  | setVariable {id d : Datum} {n : Node} {name₀ name : String} (held : g.node? id = .ok (some n))
      (carried : n.content = .symbol name₀) (read : readVariable d = .ok name) :
      Step P g (g.replaceNode { n with content := .symbol name, label := name }).2
  | setLabel {id : Datum} {n : Node} {s : String} (held : g.node? id = .ok (some n))
      (given : ¬ isBlankText s = true) :
      Step P g (g.replaceNode { n with label := trimBlank s }).2
  | move {id : Datum} {n : Node} (held : g.node? id = .ok (some n)) (position : Position) :
      Step P g (g.replaceNode { n with position }).2
  | attach {target : Identity} {n : Node} {c : Constraint} {r : Registry}
      (held : g.nodes.get? target.key = some n)
      (takes : n.kind = .number ∨ n.kind = .symbol) (hc : P c)
      (added : g.constraints.add target c = .ok r) : Step P g { g with constraints := r }
  | detach {target id : Datum} {found : Bool} {r : Registry}
      (removed : g.constraints.remove target id = .ok (found, r)) :
      Step P g { g with constraints := r }
  | wire (j : Nat) (s : String) {k k' : Key} {out into : Port}
      (source : g.ports.get? k = some out) (target : g.ports.get? k' = some into)
      (output : out.side = .output) (input : into.side = .input)
      (apart : ¬ out.owner.datum.equal into.owner.datum = true)
      (free : g.feeds.get? (.text into.id) = none)
      (new : g.connections.get? (.text s) = none) :
      Step P g ({ g with nextConnection := j }.addWire ⟨.ofText s, out.id, into.id⟩)
  | unwire {k : Key} {c : Connection} (held : g.connections.get? k = some c) :
      Step P g (g.dropConnection c)
  | remove {k : Key} {n : Node} (held : g.nodes.get? k = some n) : Step P g (g.dropNode n)
  | clear : Step P g g.clear

/-! ## Identities -/

section
variable {α : Type}

/-- If the identity that is found is taken, so is every candidate that was tried. -/
theorem taken_of_freshId_taken {letter : String} {taken : Key → Bool} :
    ∀ {fuel k : Nat}, taken (freshId letter taken fuel k).1.key = true →
      ∀ i ≤ fuel, taken (.text (letter ++ toString (k + i))) = true
  | 0, _, h, i, hi => by
    obtain rfl := Nat.le_zero.1 hi
    exact h
  | fuel + 1, k, h, i, hi => by
    rw [freshId] at h
    by_cases hk : taken (.text (letter ++ toString k)) = true
    · simp only [hk, if_true] at h
      cases i with
      | zero => exact hk
      | succ i =>
        have := taken_of_freshId_taken h i (Nat.le_of_succ_le_succ hi)
        rwa [Nat.add_right_comm] at this
    · simp only [hk, Bool.false_eq_true, if_false] at h
      exact absurd h hk

/-- The identity found for a table is not taken: there are more candidates than entries. -/
theorem get?_freshId (t : Table α) (letter : String) (k : Nat) :
    t.get? (freshId letter t.contains t.size k).1.key = none := by
  rw [← Table.contains_eq_false, ← Bool.not_eq_true]
  intro h
  -- Otherwise one candidate more than there are entries would stand among the keys.
  let candidates := (List.range (t.size + 1)).map fun i => Key.text (letter ++ toString (k + i))
  have hnodup : candidates.Nodup := by
    refine List.Nodup.map (fun i j hij => ?_) List.nodup_range
    have := append_toString_inj (Key.text.inj hij)
    omega
  have hsub : candidates ⊆ t.entries.map Prod.fst := by
    intro key hkey
    obtain ⟨i, hi, rfl⟩ := List.mem_map.1 hkey
    have hle : i ≤ t.size := Nat.le_of_lt_succ (List.mem_range.1 hi)
    exact Table.mem_keys.2 (taken_of_freshId_taken h i hle)
  have hlen := hnodup.length_le_of_subset hsub
  simp only [candidates, List.length_map, List.length_range, Table.size] at hlen
  omega

/-- An identity that is found carries a number from the given one on, the numbers between are taken,
and the next identity is sought after it. -/
theorem freshId_eq (letter : String) (taken : Key → Bool) : ∀ fuel k : Nat,
    ∃ j, k ≤ j ∧ freshId letter taken fuel k = (.ofText (letter ++ toString j), j + 1) ∧
      ∀ i, k ≤ i → i < j → taken (.text (letter ++ toString i)) = true
  | 0, k => ⟨k, Nat.le_refl k, rfl, fun i hi hlt => absurd hlt (Nat.not_lt.2 hi)⟩
  | fuel + 1, k => by
    rw [freshId]
    split
    · next htaken =>
      obtain ⟨j, hj, he, hskipped⟩ := freshId_eq letter taken fuel (k + 1)
      refine ⟨j, Nat.le_of_succ_le hj, he, fun i hi hlt => ?_⟩
      rcases Nat.eq_or_lt_of_le hi with rfl | hi
      · exact htaken
      · exact hskipped i hi hlt
    · exact ⟨k, Nat.le_refl k, rfl, fun i hi hlt => absurd hlt (Nat.not_lt.2 hi)⟩

/-- The identity found for a table is a new text, which begins with the letter. -/
theorem freshId_new (t : Table α) (letter : String) (k : Nat) :
    ∃ j : Nat, (freshId letter t.contains t.size k).1 = .ofText (letter ++ toString j) ∧
      t.get? (.text (letter ++ toString j)) = none := by
  obtain ⟨j, -, hj, -⟩ := freshId_eq letter t.contains t.size k
  have hnew := get?_freshId t letter k
  rw [hj] at hnew ⊢
  exact ⟨j, rfl, hnew⟩

end

/-- The identity of a text. -/
@[simp] theorem ofDatum_text (s : String) : Identity.ofDatum (.text s) = .ok (.ofText s) := rfl

/-- A text that is asked for as an identity is new, and an empty one asks for none. -/
theorem requestedId_text {g : Diagram} {s : String} {asked : Option Identity}
    (h : g.requestedId (.text s) = .ok asked) :
    g.nodes.get? (.text s) = none ∧ (asked = none ∨ asked = some (.ofText s) ∧ s ≠ "") := by
  simp only [requestedId, Datum.isGiven, Bool.not_true, Bool.false_eq_true, if_false, ofDatum_text,
    ok_bind] at h
  split at h
  · obtain ⟨_, _, h⟩ := ok_of_bind h
    cases h
  · next hfree =>
    refine ⟨Table.contains_eq_false.1 (by simpa [Identity.ofText] using hfree), ?_⟩
    simp only [pure, Except.pure, Except.ok.injEq, Datum.isTruthy, bne_iff_ne, ne_eq,
      ite_not] at h
    split at h
    · exact .inl h.symm
    · next hs => exact .inr ⟨h.symm, hs⟩

/-! ## Every edit is a step -/

variable {P : Constraint → Prop} {g : Diagram}

/-- A diagram that stays as it is. -/
theorem Step.same : Step P g g := .refused g.nextNode g.nextConnection

/-- A request that is carried out by a step, or refused, is a step. -/
theorem Step.after {β : Type} {r : Except Fault (β × Diagram)}
    (h : ∀ b g', r = .ok (b, g') → Step P g g') : Step P g (g.after r) := by
  match r, h with
  | .ok (b, g'), h => exact h b g' rfl
  | .error _, _ => exact .same

/-- A node is made under the text that is its identity. -/
theorem make_ofText {kind : NodeKind} {s : String} {position : Datum} {n : Node}
    (h : Node.make kind (.ofText s) position = .ok n) : ∃ p, n = .new s kind p := by
  simp only [Node.make, Identity.ofText, Datum.plain, ok_bind] at h
  obtain ⟨p, -, h⟩ := ok_of_bind h
  cases h
  exact ⟨p, rfl⟩

/-- Creating a node under a new text is a step. -/
theorem createAs_step (kind position : Datum) {s : String} (i : Nat) (hs : s ≠ "")
    (hnew : g.nodes.get? (.text s) = none) :
    Step P g ({ g with nextNode := i }.createAs kind position (.ofText s)).2 := by
  unfold createAs
  split
  · exact .refused i g.nextConnection
  · next n hn =>
    obtain ⟨k, -, hn⟩ := ok_of_bind hn
    obtain ⟨p, rfl⟩ := make_ofText hn
    exact .create i s k p hs hnew

/-- Creating a node is a step. -/
theorem create_step (kind position : Datum) {id : Datum} (hid : id = .null ∨ ∃ s, id = .text s) :
    Step P g (g.create kind position id).2 := by
  obtain ⟨j, hfresh, hnew₀⟩ := freshId_new g.nodes "n" g.nextNode
  have hne : "n" ++ toString j ≠ "" := fun h => by simpa using congrArg String.toList h
  have hauto : Step P g
      ({ g with nextNode := g.freshNodeId.2 }.createAs kind position g.freshNodeId.1).2 := by
    rw [freshNodeId, hfresh]
    exact createAs_step kind position _ hne hnew₀
  unfold create
  split
  · exact .same
  · next asked hasked =>
    rcases hid with rfl | ⟨s, rfl⟩
    · cases hasked
    · obtain ⟨hnew, h | ⟨h, hs⟩⟩ := requestedId_text hasked
      · cases h
      · cases h
        exact createAs_step kind position g.nextNode hs hnew
  · exact hauto

/-- A node that is required is there. -/
theorem requireNode_ok {id : Datum} {n : Node} (h : g.requireNode id = .ok n) :
    g.node? id = .ok (some n) := by
  obtain ⟨found, hfound, h⟩ := ok_of_bind h
  cases found with
  | some m => cases h; exact hfound
  | none =>
    obtain ⟨_, _, h⟩ := ok_of_bind h
    cases h

/-- A value that is set is read, meets the constraints of its node, and is what the node carries
then. -/
theorem setValue_ok {id value : Datum} {m : Node} {g' : Diagram}
    (h : g.setValue id value = .ok (m, g')) :
    ∃ n w v, g.node? id = .ok (some n) ∧ n.content = .number w ∧ Number.ofDatum value = .ok v ∧
      g.constraints.check id v.toDatum = .ok () ∧
      m = { n with content := .number v, label := v.literal } ∧ g' = (g.replaceNode m).2 := by
  obtain ⟨n, hn, h⟩ := ok_of_bind h
  split at h
  · next w hw =>
    obtain ⟨v, hv, h⟩ := ok_of_bind h
    obtain ⟨⟨⟩, hchecked, h⟩ := ok_of_bind h
    cases h
    exact ⟨n, w, v, requireNode_ok hn, hw, hv, hchecked, rfl, rfl⟩
  · cases h

/-- Setting a value is a step. -/
theorem setValue_step (id value : Datum) : Step P g (g.after (g.setValue id value)) := by
  refine .after fun m g' h => ?_
  obtain ⟨n, w, v, hn, hw, hv, hchecked, rfl, rfl⟩ := setValue_ok h
  exact .setValue hn hw hv hchecked

/-- Setting a variable is a step. -/
theorem setVariable_step (id name : Datum) : Step P g (g.after (g.setVariable id name)) := by
  refine .after fun m g' h => ?_
  obtain ⟨n, hn, h⟩ := ok_of_bind h
  split at h
  · next name₀ hname =>
    obtain ⟨name, hread, h⟩ := ok_of_bind h
    cases h
    exact .setVariable (requireNode_ok hn) hname hread
  · cases h

/-- Setting a label is a step. -/
theorem setLabel_step (id label : Datum) : Step P g (g.after (g.setLabel id label)) := by
  refine .after fun m g' h => ?_
  obtain ⟨n, hn, h⟩ := ok_of_bind h
  split at h
  · split at h
    · cases h
    · next hs => cases h; exact .setLabel (requireNode_ok hn) hs
  · cases h

/-- Moving a node is a step. -/
theorem move_step (id position : Datum) : Step P g (g.after (g.move id position)) := by
  refine .after fun m g' h => ?_
  obtain ⟨n, hn, h⟩ := ok_of_bind h
  obtain ⟨p, -, h⟩ := ok_of_bind h
  cases h
  exact .move (requireNode_ok hn) p

/-- A node that takes constraints carries a number or a variable. -/
theorem requireConstrainable_ok {id : Datum} (h : g.requireConstrainable id = .ok ()) :
    ∃ n, g.node? id = .ok (some n) ∧ (n.kind = .number ∨ n.kind = .symbol) := by
  obtain ⟨n, hn, h⟩ := ok_of_bind h
  refine ⟨n, requireNode_ok hn, ?_⟩
  split at h
  · next w hw => exact .inl (by rw [Node.kind, hw]; rfl)
  · next name hname => exact .inr (by rw [Node.kind, hname]; rfl)
  · cases h

/-- A node that is found is kept under the key of the identity it is found by. -/
theorem node?_ok {id : Datum} {target : Identity} {n : Node}
    (hid : Identity.ofDatum id = .ok target) (hn : g.node? id = .ok (some n)) :
    g.nodes.get? target.key = some n := by
  obtain ⟨k, hk, h⟩ := ok_of_bind hn
  have hkey : id.key = .ok target.key := by
    unfold Identity.ofDatum at hid
    split at hid
    · next hkey => cases hid; exact hkey
    · cases hid
  rw [hkey] at hk
  cases hk
  simpa [pure, Except.pure] using h

/-- Attaching a constraint is a step. -/
theorem attach_step (id : Datum) {c : Constraint} (hc : P c) :
    Step P g (g.after (g.attach id c)) := by
  refine .after fun c' g' h => ?_
  obtain ⟨⟨⟩, htakes, h⟩ := ok_of_bind h
  obtain ⟨target, hid, h⟩ := ok_of_bind h
  obtain ⟨r, hadded, h⟩ := ok_of_bind h
  cases h
  obtain ⟨n, hn, hkind⟩ := requireConstrainable_ok htakes
  exact .attach (node?_ok hid hn) hkind hc hadded

/-- Attaching a constraint that is given as a record is a step. -/
theorem addConstraint_step (supply : Supply) (id : Datum) {record : Datum}
    (hP : ∀ supply supply' c, Constraint.ofRecord supply record = (.ok c, supply') → P c) :
    Step P g (g.after (g.addConstraint supply id record).1) := by
  unfold addConstraint
  split
  · exact .same
  · split
    · cases hread : Constraint.ofRecord supply _ with
      | mk read supply' =>
        cases read with
        | error _ => exact .same
        | ok c => exact attach_step id (hP _ _ _ hread)
    · exact .same

/-- Detaching a constraint is a step. -/
theorem removeConstraint_step (id constraint : Datum) :
    Step P g (g.after (g.removeConstraint id constraint)) := by
  refine .after fun found g' h => ?_
  obtain ⟨⟨found, r⟩, hr, h⟩ := ok_of_bind h
  cases h
  exact .detach hr

/-- The ports of a new connection are there, on the right sides of two nodes, and its target is
free. -/
theorem checkWire_ok {source target : Datum} {out into : Port}
    (h : g.checkWire source target = .ok (out, into)) :
    (∃ k, g.ports.get? k = some out) ∧ (∃ k, g.ports.get? k = some into) ∧ out.side = .output ∧
      into.side = .input ∧ ¬ out.owner.datum.equal into.owner.datum = true ∧
      g.feeds.get? (.text into.id) = none := by
  obtain ⟨found, hfound, h⟩ := ok_of_bind h
  obtain ⟨fed, hfed, h⟩ := ok_of_bind h
  obtain ⟨k, -, hk⟩ := ok_of_bind hfound
  obtain ⟨k', -, hk'⟩ := ok_of_bind hfed
  cases hk
  cases hk'
  split at h
  · obtain ⟨_, _, h⟩ := ok_of_bind h
    cases h
  · obtain ⟨_, _, h⟩ := ok_of_bind h
    cases h
  · next out' into' hout hinto =>
    split at h
    · cases h
    split at h
    · cases h
    split at h
    · cases h
    split at h
    · cases h
    next hside hside' hapart hfree =>
    cases h
    refine ⟨⟨k, hout⟩, ⟨k', hinto⟩, ?_, ?_, hapart, ?_⟩
    · simpa using hside
    · simpa using hside'
    · exact Table.contains_eq_false.1 (by simpa using hfree)

/-- The identity of a new connection is a new text, if texts are asked for. -/
theorem connectionId_ok {id : Datum} (hid : id = .null ∨ ∃ s, id = .text s) {i : Identity}
    {g' : Diagram} (h : g.connectionId id = .ok (i, g')) :
    ∃ s j, i = .ofText s ∧ g' = { g with nextConnection := j } ∧
      g.connections.get? (.text s) = none := by
  rcases hid with rfl | ⟨s, rfl⟩
  · obtain ⟨j, hfresh, hnew⟩ := freshId_new g.connections "c" g.nextConnection
    cases h
    exact ⟨_, g.freshConnectionId.2, hfresh, rfl, hnew⟩
  · simp only [connectionId, Datum.isGiven, if_true, ofDatum_text, ok_bind] at h
    split at h
    · obtain ⟨_, _, h⟩ := ok_of_bind h
      cases h
    · next hfree =>
      cases h
      exact ⟨s, g.nextConnection, rfl, rfl,
        Table.contains_eq_false.1 (by simpa [Identity.ofText] using hfree)⟩

/-- Wiring two ports is a step. -/
theorem addConnection_step (source target : Datum) {id : Datum}
    (hid : id = .null ∨ ∃ s, id = .text s) :
    Step P g (g.after (g.addConnection source target id)) := by
  refine .after fun c g' h => ?_
  obtain ⟨⟨out, into⟩, hwire, h⟩ := ok_of_bind h
  obtain ⟨⟨i, g₁⟩, hconn, h⟩ := ok_of_bind h
  obtain ⟨⟨k, hout⟩, ⟨k', hinto⟩, hside, hside', hapart, hfree⟩ := checkWire_ok hwire
  obtain ⟨s, j, rfl, rfl, hnew⟩ := connectionId_ok hid hconn
  cases h
  exact .wire j s hout hinto hside hside' hapart hfree hnew

/-- Wiring two nodes is a step. -/
theorem connect_step (source target index : Datum) :
    Step P g (g.after (g.connect source target index)) := by
  refine .after fun c g' h => ?_
  obtain ⟨start, -, h⟩ := ok_of_bind h
  obtain ⟨into, -, h⟩ := ok_of_bind h
  split at h
  · obtain ⟨_, _, h⟩ := ok_of_bind h
    cases h
  · next out _ _ =>
    obtain ⟨port, -, h⟩ := ok_of_bind h
    have := addConnection_step (P := P) (g := g) (.text out.id) (.text port.id) (.inl rfl)
    rwa [h] at this

/-- Removing a connection is a step. -/
theorem removeConnection_step (id : Datum) :
    Step P g (g.after ((g.removeConnection id).map ((), ·))) := by
  cases h : g.removeConnection id with
  | error _ => exact .same
  | ok g' =>
    obtain ⟨k, -, h⟩ := ok_of_bind h
    split at h
    · next c hc => cases h; exact .unwire hc
    · cases h; exact .same

/-- Removing a node is a step. -/
theorem removeNode_step (id : Datum) :
    Step P g (g.after ((g.removeNode id).map ((), ·))) := by
  cases h : g.removeNode id with
  | error _ => exact .same
  | ok g' =>
    obtain ⟨found, hfound, h⟩ := ok_of_bind h
    obtain ⟨k, -, hk⟩ := ok_of_bind hfound
    cases hk
    split at h
    · next n hn => cases h; exact .remove hn
    · cases h; exact .same

end Diagram

/-- An edit that gives texts as identities is a step. -/
theorem Edit.apply_step {P : Constraint → Prop} {e : Edit} (he : e.Textual) (hP : e.Attaches P)
    (g : Diagram) (supply : Supply) : g.Step P (e.apply (g, supply)).1 := by
  cases e with
  | create kind position id => exact Diagram.create_step kind position he
  | setValue id value => exact Diagram.setValue_step id value
  | setVariable id name => exact Diagram.setVariable_step id name
  | setLabel id label => exact Diagram.setLabel_step id label
  | move id position => exact Diagram.move_step id position
  | addConstraint id record => exact Diagram.addConstraint_step supply id hP
  | attach id c => exact Diagram.attach_step id hP
  | removeConstraint id constraint => exact Diagram.removeConstraint_step id constraint
  | removeNode id => exact Diagram.removeNode_step id
  | addConnection source target id => exact Diagram.addConnection_step source target he
  | connect source target index => exact Diagram.connect_step source target index
  | removeConnection id => exact Diagram.removeConnection_step id
  | clear => exact .clear

/-! ## Runs -/

namespace Diagram

/-- What the empty diagram has and every step keeps, every diagram at the end of a run has. -/
theorem ReachableWith.induction {P : Constraint → Prop} {Q : Diagram → Prop} (h₀ : Q {})
    (hstep : ∀ {g g' : Diagram}, Q g → Step P g g' → Q g') {g : Diagram}
    (h : g.ReachableWith P) : Q g := by
  obtain ⟨edits, supply, hedits, rfl⟩ := h
  suffices ∀ (edits : List Edit) (s : Diagram × Supply),
      (∀ e ∈ edits, Edit.Textual e ∧ e.Attaches P) → Q s.1 → Q (edits.foldl Edit.apply s).1 from
    this edits _ hedits h₀
  intro edits
  induction edits with
  | nil => exact fun _ _ h => h
  | cons e edits ih =>
    intro s hedits hs
    obtain ⟨he, hP⟩ := hedits e (.head _)
    exact ih _ (fun e' he' => hedits e' (.tail _ he')) (hstep hs (e.apply_step he hP s.1 s.2))

/-- A run of edits may attach any constraints. -/
theorem Reachable.with {g : Diagram} (h : g.Reachable) : g.ReachableWith fun _ => True := by
  obtain ⟨edits, supply, hedits, rfl⟩ := h
  refine ⟨edits, supply, fun e he => ⟨hedits e he, ?_⟩, rfl⟩
  cases e <;> simp [Edit.Attaches]

end Diagram

end EquationStudio
