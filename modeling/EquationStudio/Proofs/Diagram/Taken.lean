import EquationStudio.Proofs.Diagram.Damaged

/-!
# Identities that are in use

Rebuilding a diagram refuses much, but only two checks say that an identity is in use
(`Fault.isTaken`): that of a new node, when the nodes have an entry under the key that is asked for,
and that of a new connection (`Diagram.taken_of_restoreNode`, `Diagram.taken_of_restoreConnection`).
No other request on the way does (`Spares`); a request in parts spares identities if its parts do
(`Spares.bind`).
-/

namespace EquationStudio

/-- A fault that says that the identity of a node or a connection is in use. -/
def Fault.isTaken : Fault → Bool
  | .schema (.nodeIdTaken _) | .wiring (.connectionIdTaken _) => true
  | _ => false

/-- A request is not refused for an identity that is in use. -/
def Spares {α : Type} (x : Except Fault α) : Prop :=
  ∀ fault, x = .error fault → fault.isTaken = false

namespace Spares

variable {α β : Type} {x : Except Fault α} {f : α → Except Fault β} {fault : Fault}

/-- A request that is carried out. -/
theorem ok (a : α) : Spares (.ok a : Except Fault α) := nofun

/-- A request that is refused for something else. -/
theorem error (h : fault.isTaken = false) : Spares (.error fault : Except Fault α) := by
  rintro _ ⟨⟩
  exact h

/-- One request after another. -/
theorem bind (hx : Spares x) (hf : ∀ a, x = .ok a → Spares (f a)) : Spares (x >>= f) :=
  forall_error_of_bind hx hf

/-- A request that is refused for an identity in use does not spare it. -/
theorem not_taken (hx : Spares x) (h : x = .error fault) : fault.isTaken ≠ true :=
  Bool.eq_false_iff.1 (hx fault h)

end Spares

variable {d id kind name label position source target raw : Datum} {g g' : Diagram} {fault : Fault}

/-! ## Data -/

namespace Datum

/-- Putting a datum into words. -/
theorem spares_display : Spares d.display := fun _ h => by rw [fault_of_display h]; rfl

/-- Quoting a datum. -/
theorem spares_plain : Spares d.plain := by
  cases d with
  | text s => exact .ok s
  | null | bool | int | float | list | record => exact spares_display

/-- Making a key of a datum. -/
theorem spares_key : Spares d.key := by
  cases d with
  | list | record => exact .error rfl
  | null | bool | int | float | text => exact .ok _

/-- Going through the members of a datum. -/
theorem spares_members : Spares d.members := by
  cases d with
  | null | bool | int | float => exact .error rfl
  | text | list | record => exact .ok _

/-- Looking for a field that must be there. -/
theorem spares_field {key : String} : Spares (d.field key) := by
  unfold field
  split
  · split
    · exact .ok _
    · exact .error rfl
  · exact .error rfl

/-- Looking for a field that may be missing. -/
theorem spares_fieldOr {key : String} {other : Datum} : Spares (d.fieldOr key other) := by
  unfold fieldOr
  split
  · exact .ok _
  · exact .error rfl

/-- Reading a coordinate. -/
theorem spares_toDouble : Spares d.toDouble := by
  unfold toDouble
  -- what an integer or a text is converted to is not looked into
  obtain ⟨convert, hconvert⟩ : ∃ convert, Double.ofInt = convert := ⟨_, rfl⟩
  obtain ⟨read, hread⟩ : ∃ read, readDouble = read := ⟨_, rfl⟩
  rw [hconvert, hread]
  cases d with
  | int n =>
    dsimp only
    cases convert n with
    | finite => exact .ok _
    | infinite | nan => exact .error rfl
  | text s =>
    dsimp only
    cases read s with
    | some x => exact .ok x
    | none => exact .error rfl
  | null | list | record => exact .error rfl
  | bool | float => exact .ok _

end Datum

/-- Making an identity of a datum. -/
theorem Identity.spares_ofDatum : Spares (Identity.ofDatum d) := by
  unfold Identity.ofDatum
  split
  · exact .ok _
  · next hkey => exact .error (Datum.spares_key _ hkey)

/-! ## Nodes -/

/-- Reading a position. -/
theorem Position.spares_ofDatum : Spares (Position.ofDatum d) := by
  have hpair : ∀ {x y : Datum}, Spares (Position.ofPair x y) := fun {_ _} =>
    .bind Datum.spares_toDouble fun _ _ => .bind Datum.spares_toDouble fun _ _ => .ok _
  have hmembers : ∀ {items : List Datum}, Spares (Position.ofMembers items) := by
    intro items
    unfold Position.ofMembers
    split
    · exact hpair
    · split <;> exact .error rfl
  cases d with
  | null => exact .ok _
  | record => exact hpair
  | list | text => exact hmembers
  | bool | int | float => exact .error rfl

/-- Reading the kind of a node. -/
theorem NodeKind.spares_ofDatum : Spares (NodeKind.ofDatum d) := by
  refine .bind Datum.spares_plain fun named _ => ?_
  split
  · exact .ok _
  · exact .bind Datum.spares_display fun _ _ => .error rfl

/-- Reading a number. -/
theorem Number.spares_ofDatum : Spares (Number.ofDatum d) := by
  have hdouble : ∀ x : Double, Spares (Number.ofDouble x) := by
    intro x
    cases x with
    | finite => exact .ok _
    | infinite | nan => exact .error rfl
  cases d with
  | int | float => exact hdouble _
  | text s =>
    unfold Number.ofDatum
    dsimp only
    split
    · exact hdouble _
    · exact .error rfl
  | null | bool | list | record => exact .error rfl

/-- Reading the name of a variable. -/
theorem spares_readVariable : Spares (readVariable d) := by
  unfold readVariable
  split
  · dsimp only
    split
    · exact .error rfl
    · split
      · exact .error rfl
      · split
        · exact .ok _
        · exact .error rfl
  · exact .error rfl

namespace Diagram

/-- Creating a node under an identity that has been found. -/
theorem spares_createAs {i : Identity} : Spares (g.createAs kind position i).1 := by
  have hmade : Spares (do Node.make (← NodeKind.ofDatum kind) i position) :=
    .bind NodeKind.spares_ofDatum fun _ _ => .bind Datum.spares_plain fun _ _ =>
      .bind Position.spares_ofDatum fun _ _ => .ok _
  unfold createAs
  split
  · next hrefused => exact .error (hmade _ hrefused)
  · exact .ok _

/-- Looking for a node that must be there. -/
theorem spares_requireNode : Spares (g.requireNode id) := by
  refine .bind (.bind Datum.spares_key fun _ _ => .ok _) fun found _ => ?_
  split
  · exact .ok _
  · exact .bind Datum.spares_plain fun _ _ => .error rfl

/-- Checking a value where nothing is constrained. -/
theorem spares_check {value : Datum} : Spares (Registry.check {} id value) := by
  refine .bind (.bind (.bind Datum.spares_key fun _ _ => .ok _) fun cs hcs =>
    ?_) fun violations hviolations => ?_
  · obtain ⟨key, -, hcs⟩ := ok_of_bind hcs
    cases hcs
    exact .ok _
  · obtain ⟨cs, hcs, hviolations⟩ := ok_of_bind hviolations
    obtain ⟨key, -, hcs⟩ := ok_of_bind hcs
    cases hcs
    cases hviolations
    exact .ok _

/-- Setting a value where nothing is constrained. -/
theorem spares_setValue (hg : g.constraints = {}) {value : Datum} :
    Spares (g.setValue id value) := by
  refine .bind spares_requireNode fun n _ => ?_
  split
  · refine .bind Number.spares_ofDatum fun v _ => ?_
    rw [hg]
    exact .bind spares_check fun _ _ => .ok _
  · exact .error rfl

/-- Setting the name of a variable. -/
theorem spares_setVariable : Spares (g.setVariable id name) := by
  refine .bind spares_requireNode fun n _ => ?_
  split
  · exact .bind spares_readVariable fun _ _ => .ok _
  · exact .error rfl

/-- Setting a label. -/
theorem spares_setLabel : Spares (g.setLabel id label) := by
  refine .bind spares_requireNode fun n _ => ?_
  split
  · split
    · exact .error rfl
    · exact .ok _
  · exact .error rfl

/-- Setting the value of a rebuilt node. -/
theorem spares_restoreValue (hg : g.constraints = {}) {n : Node} :
    Spares (g.restoreValue n raw) := by
  unfold restoreValue
  split
  · refine .bind Datum.spares_fieldOr fun value _ => ?_
    split
    · exact .bind (spares_setValue hg) fun _ _ => .ok _
    · exact .ok _
  · exact .ok _

/-- Setting the variable of a rebuilt node. -/
theorem spares_restoreVariable {n : Node} : Spares (g.restoreVariable n raw) := by
  unfold restoreVariable
  split
  · refine .bind Datum.spares_fieldOr fun name _ => ?_
    split
    · exact .bind spares_setVariable fun _ _ => .ok _
    · exact .ok _
  · exact .ok _

/-- Setting the label of a rebuilt node. -/
theorem spares_restoreLabel {n : Node} : Spares (g.restoreLabel n raw) := by
  refine .bind Datum.spares_fieldOr fun label _ => ?_
  split
  · exact .bind spares_setLabel fun _ _ => .ok _
  · exact .ok _

/-- A node is refused for an identity in use only if that identity is given and the nodes have an
entry under its key. -/
theorem taken_of_requestedId (h : g.requestedId id = .error fault) (htaken : fault.isTaken = true) :
    id.isGiven = true ∧ ∃ i, Identity.ofDatum id = .ok i ∧ g.nodes.contains i.key = true := by
  unfold requestedId at h
  split at h
  · cases h
  · next hgiven =>
    refine ⟨by simpa using hgiven, ?_⟩
    obtain h | ⟨i, hi, h⟩ := error_of_bind h
    · exact absurd htaken (Identity.spares_ofDatum.not_taken h)
    · split at h
      · next hcontains => exact ⟨i, hi, hcontains⟩
      · cases h

/-- So it is with a node that is rebuilt where nothing is constrained. -/
theorem taken_of_restoreNode (hg : g.constraints = {}) (h : g.restoreNode raw = .error fault)
    (htaken : fault.isTaken = true) : ∃ fields, raw = .record fields ∧
      (Fields.get fields "id").isGiven = true ∧
      ∃ i, Identity.ofDatum (Fields.get fields "id") = .ok i ∧ g.nodes.contains i.key = true := by
  obtain h | ⟨kind, hkind, h⟩ := error_of_bind h
  · exact absurd htaken (Datum.spares_field.not_taken h)
  obtain ⟨fields, rfl⟩ := Datum.eq_record_of_field hkind
  obtain h | ⟨position, -, h⟩ := error_of_bind h
  · cases h
  obtain h | ⟨id, hid, h⟩ := error_of_bind h
  · cases h
  obtain rfl : Fields.get fields "id" = id := Except.ok.inj hid
  have hmade := (constraints_create g kind position (Fields.get fields "id")).trans hg
  obtain h | ⟨n, -, h⟩ := error_of_bind h
  · -- Only the identity is looked up before the node is made.
    change (g.create kind position (Fields.get fields "id")).1 = .error fault at h
    unfold create at h
    split at h
    · next hrequested =>
      cases h
      exact ⟨fields, rfl, taken_of_requestedId hrequested htaken⟩
    · exact absurd htaken (spares_createAs.not_taken h)
    · exact absurd htaken (spares_createAs.not_taken h)
  · refine absurd htaken (Spares.not_taken ?_ h)
    exact .bind (spares_restoreValue hmade) fun _ _ => .bind spares_restoreVariable fun _ _ =>
      spares_restoreLabel

/-! ## Connections -/

/-- Checking the ports of a connection. -/
theorem spares_checkWire : Spares (g.checkWire source target) := by
  have hport : ∀ d, Spares (g.port? d) := fun _ => .bind Datum.spares_key fun _ _ => .ok _
  refine .bind (hport _) fun found _ => .bind (hport _) fun fed _ => ?_
  split
  · exact .bind Datum.spares_plain fun _ _ => .error rfl
  · exact .bind Datum.spares_plain fun _ _ => .error rfl
  · split
    · exact .error rfl
    split
    · exact .error rfl
    split
    · exact .error rfl
    split
    · exact .error rfl
    · exact .ok _

/-- A connection is refused for an identity in use only if that identity is given and the
connections have an entry under its key. -/
theorem taken_of_connectionId (h : g.connectionId id = .error fault)
    (htaken : fault.isTaken = true) :
    id.isGiven = true ∧ ∃ i, Identity.ofDatum id = .ok i ∧ g.connections.contains i.key = true := by
  unfold connectionId at h
  split at h
  · next hgiven =>
    refine ⟨hgiven, ?_⟩
    obtain h | ⟨i, hi, h⟩ := error_of_bind h
    · exact absurd htaken (Identity.spares_ofDatum.not_taken h)
    · split at h
      · next hcontains => exact ⟨i, hi, hcontains⟩
      · cases h
  · cases h

/-- So it is with a connection that is rebuilt. -/
theorem taken_of_restoreConnection (h : g.restoreConnection raw = .error fault)
    (htaken : fault.isTaken = true) :
    ∃ fields, raw = .record fields ∧ (Fields.get fields "id").isGiven = true ∧
      ∃ i, Identity.ofDatum (Fields.get fields "id") = .ok i ∧
      g.connections.contains i.key = true := by
  obtain h | ⟨source, hsource, h⟩ := error_of_bind h
  · exact absurd htaken (Datum.spares_field.not_taken h)
  obtain ⟨fields, rfl⟩ := Datum.eq_record_of_field hsource
  obtain h | ⟨target, -, h⟩ := error_of_bind h
  · exact absurd htaken (Datum.spares_field.not_taken h)
  obtain h | ⟨id, hid, h⟩ := error_of_bind h
  · cases h
  obtain rfl : Fields.get fields "id" = id := Except.ok.inj hid
  obtain h | ⟨_, -, h⟩ := error_of_bind h
  · obtain h | ⟨_, -, h⟩ := error_of_bind h
    · exact absurd htaken (spares_checkWire.not_taken h)
    obtain h | ⟨_, -, h⟩ := error_of_bind h
    · exact ⟨fields, rfl, taken_of_connectionId h htaken⟩
    · cases h
  · cases h

/-! ## Constraints -/

/-- Looking for a node that takes constraints. -/
theorem spares_requireConstrainable : Spares (g.requireConstrainable id) := by
  refine .bind spares_requireNode fun n _ => ?_
  split
  · exact .ok _
  · exact .ok _
  · exact .error rfl

end Diagram

/-- Reading a constraint. -/
theorem Constraint.spares_ofRecord {supply : Supply} : Spares (Constraint.ofRecord supply d).1 := by
  have hrule : ∀ {terms : Terms} {kind : ConstraintKind} {cause : SchemaFault},
      Rule.ofTerms terms kind = .error cause → (Fault.schema cause).isTaken = false := by
    intro terms kind cause h
    unfold Rule.ofTerms Rule.ofRange at h
    repeat' split at h
    all_goals cases h
    all_goals rfl
  unfold Constraint.ofRecord
  split
  · split
    · exact .error rfl
    · dsimp only
      unfold Constraint.ofTerms
      split
      · exact .ok _
      · next hcause => exact .error (hrule hcause)
  · exact .error rfl

/-- Comparing two constraints. -/
theorem Constraint.spares_findConflict {c c' : Constraint} : Spares (c.findConflict c') := by
  have hway : ∀ {r r' : Rule}, Spares (r.oneWayConflict r') := fun {_ _} _ h => by
    rw [Rule.fault_of_oneWayConflict h]
    rfl
  unfold Constraint.findConflict
  split
  · refine .bind hway fun found _ => ?_
    split
    · exact .ok _
    · exact hway
  · exact .ok _

namespace Registry

/-- Comparing a constraint with others. -/
theorem spares_conflictsWith (c : Constraint) :
    ∀ others : List Constraint, Spares (conflictsWith c others)
  | [] => .ok _
  | _ :: rest => .bind Constraint.spares_findConflict fun _ _ =>
    .bind (spares_conflictsWith c rest) fun _ _ => .ok _

/-- Attaching a constraint. -/
theorem spares_add {r : Registry} {i : Identity} {c : Constraint} : Spares (r.add i c) := by
  simp only [add]
  split
  · exact .bind Datum.spares_plain fun _ _ => .error rfl
  · refine .bind (spares_conflictsWith c _) fun kinds _ => ?_
    split
    · exact .ok _
    · exact .bind Datum.spares_plain fun _ _ => .error rfl

end Registry

namespace Diagram

/-- Attaching a constraint to a node. -/
theorem spares_addConstraint {supply : Supply} {record : Datum} :
    Spares (g.addConstraint supply id record).1 := by
  unfold addConstraint
  split
  · next hrefused => exact .error (spares_requireConstrainable _ hrefused)
  · split
    · refine .bind Constraint.spares_ofRecord fun c _ =>
        .bind spares_requireConstrainable fun _ _ => ?_
      exact .bind Identity.spares_ofDatum fun _ _ => .bind Registry.spares_add fun _ _ => .ok _
    · exact .error rfl

/-- Rebuilding constraints. -/
theorem spares_restoreConstraints : ∀ {raws : List Datum} {g : Diagram} {supply : Supply},
    Spares (g.restoreConstraints supply raws).1
  | [], g, _ => .ok g
  | raw :: raws, g, supply => by
    unfold restoreConstraints
    split
    · next hrefused => exact .error (Datum.spares_field _ hrefused)
    · split
      · next hrefused => exact .error (spares_addConstraint _ (congrArg Prod.fst hrefused))
      · exact spares_restoreConstraints

end Diagram

end EquationStudio
