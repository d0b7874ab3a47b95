import EquationStudio.Constraint.Record
import EquationStudio.Proofs.Basic

/-!
# Constraints read back from their records

The record of a constraint holds the terms that its rule is stated by (`Constraint.ownTerms`), so
what is read back is the constraint with the other terms forgotten (`Constraint.rebuilt`). It states
the same rule under the same identity, unless the identity counts as none; a constraint that was
built or read has one that counts (`Constraint.Made.isTruthy`).
-/

namespace EquationStudio

/-! ## Fields -/

/-- A field with another key is passed over. -/
theorem Fields.get?_cons_of_ne {key key' : String} (h : key' ≠ key) (d : Datum) (fields : Fields) :
    Fields.get? ((key', d) :: fields) key = Fields.get? fields key := by
  simp [Fields.get?, h]

/-- A member of a closed set is named by its name, if no member before it has the same. -/
theorem memberOf_name {α : Type} {set : String} {all : List α} {name : α → String} {a : α}
    (h : all.find? (name · == name a) = some a) :
    (Datum.text (name a)).memberOf set all name = .ok a := by
  simp only [Datum.memberOf, h]

/-- Kinds of constraint have distinct names. -/
theorem ConstraintKind.find?_name (k : ConstraintKind) :
    ConstraintKind.all.find? (·.name == k.name) = some k := by
  have hall : ∀ k ∈ ConstraintKind.all, ConstraintKind.all.find? (·.name == k.name) = some k := by
    decide +kernel
  refine hall k ?_
  match k with
  | .comparison .notEqual | .comparison .greater | .comparison .less | .comparison .equal
  | .range | .domain | .sign | .prime | .perfectSquare | .parity | .fibonacci | .divisible =>
    simp [ConstraintKind.all]

/-- Domains have distinct names. -/
theorem Domain.find?_name (d : Domain) : Domain.all.find? (·.name == d.name) = some d := by
  cases d <;> decide +kernel

/-- Signs have distinct names. -/
theorem Sign.find?_name (s : Sign) : Sign.all.find? (·.name == s.name) = some s := by
  cases s <;> decide +kernel

/-- Parities have distinct names. -/
theorem Parity.find?_name (p : Parity) : Parity.all.find? (·.name == p.name) = some p := by
  cases p <;> decide +kernel

namespace Constraint

/-! ## The terms of a record -/

/-- The terms by which a rule is stated. The others are as in a constraint without them. -/
def ownTerms (c : Constraint) : Terms :=
  match c.rule with
  | .comparison .. => { value := c.terms.value }
  | .range .. => {
      minimum := c.terms.minimum, maximum := c.terms.maximum,
      minInclusive := c.terms.minInclusive, maxInclusive := c.terms.maxInclusive }
  | .domain d => { domain := some d }
  | .sign s => { sign := some s }
  | .parity p => { parity := some p }
  | .divisible _ => { divisor := c.terms.divisor }
  | .prime | .perfectSquare | .fibonacci => {}

/-- The own terms of a constraint state its rule. -/
theorem stated_ownTerms (c : Constraint) : Rule.ofTerms c.ownTerms c.kind = .ok c.rule := by
  obtain ⟨id, active, kind, terms, rule, stated⟩ := c
  cases kind with
  | comparison relation =>
    simp only [Rule.ofTerms] at stated
    split at stated
    · next bound hbound =>
      cases stated
      simp only [ownTerms, Rule.ofTerms, hbound]
    · cases stated
  | range =>
    simp only [Rule.ofTerms, Rule.ofRange] at stated
    split at stated
    · next low high hlow hhigh =>
      split at stated
      · cases stated
      · next horder =>
        cases stated
        simp only [ownTerms, Rule.ofTerms, Rule.ofRange, hlow, hhigh, if_neg horder]
    · cases stated
  | domain | sign | parity =>
    simp only [Rule.ofTerms] at stated
    split at stated
    · cases stated; rfl
    · cases stated
  | divisible =>
    simp only [Rule.ofTerms] at stated
    split at stated
    · next divisor hdivisor =>
      split at stated
      · cases stated
      · next hzero =>
        cases stated
        simp only [ownTerms, Rule.ofTerms, hdivisor, if_neg hzero]
    · cases stated
  | prime | perfectSquare | fibonacci => cases stated; rfl

/-- A constraint with the terms forgotten that do not state its rule. -/
def rebuilt (c : Constraint) : Constraint :=
  ⟨c.id, c.active, c.kind, c.ownTerms, c.rule, c.stated_ownTerms⟩

/-- A constraint of terms that state its rule. -/
theorem ofTerms_eq {id : Datum} {active : Bool} {kind : ConstraintKind}
    {terms : Terms} {rule : Rule} (h : Rule.ofTerms terms kind = .ok rule) :
    ofTerms id active kind terms = .ok ⟨id, active, kind, terms, rule, h⟩ := by
  unfold ofTerms
  split
  · next rule' h' => cases h'.symm.trans h; rfl
  · next h' => cases h'.symm.trans h

/-- The fields of a constraint with the other terms forgotten. -/
theorem fields_rebuilt (c : Constraint) : c.rebuilt.fields = c.fields := by
  obtain ⟨id, active, kind, terms, rule, stated⟩ := c
  cases rule <;> rfl

/-- An absent field names no member of a set. -/
theorem optionalMember_none {α : Type} {fields : Fields} {key set : String} {all : List α}
    {name : α → String} (h : Fields.get? fields key = none) :
    optionalMember fields key set all name = .ok none := by
  simp only [optionalMember, Fields.get, h]
  rfl

/-- A field that is the name of a member of a set names it. -/
theorem optionalMember_some {α : Type} {fields : Fields} {key set : String} {all : List α}
    {name : α → String} {a : α} (h : Fields.get? fields key = some (.text (name a)))
    (ha : all.find? (name · == name a) = some a) :
    optionalMember fields key set all name = .ok (some a) := by
  simp only [optionalMember, Fields.get, h, Option.getD_some, Datum.isGiven, if_true,
    memberOf_name ha]
  rfl

/-- The kind that a record names. -/
theorem memberOf_type (c : Constraint) :
    (Fields.get c.fields "type").memberOf "ConstraintType" ConstraintKind.all ConstraintKind.name =
      .ok c.kind :=
  memberOf_name c.kind.find?_name

/-- The terms that are read from a constraint's fields are its own. -/
theorem readTerms_fields (c : Constraint) : readTerms c.fields = .ok (c.kind, c.ownTerms) := by
  rw [readTerms, c.memberOf_type, ok_bind]
  obtain ⟨id, active, kind, terms, rule, stated⟩ := c
  cases rule with
  | domain d =>
    rw [optionalMember_some (by simp [fields, ownFields, Fields.get?]) d.find?_name,
      optionalMember_none (by simp [fields, ownFields, Fields.get?]),
      optionalMember_none (by simp [fields, ownFields, Fields.get?]), ok_bind, ok_bind, ok_bind]
    simp [fields, ownFields, ownTerms, Fields.get, Fields.get?, flag, pure, Except.pure]
  | sign s =>
    rw [optionalMember_none (by simp [fields, ownFields, Fields.get?]),
      optionalMember_some (by simp [fields, ownFields, Fields.get?]) s.find?_name,
      optionalMember_none (by simp [fields, ownFields, Fields.get?]), ok_bind, ok_bind, ok_bind]
    simp [fields, ownFields, ownTerms, Fields.get, Fields.get?, flag, pure, Except.pure]
  | parity p =>
    rw [optionalMember_none (by simp [fields, ownFields, Fields.get?]),
      optionalMember_none (by simp [fields, ownFields, Fields.get?]),
      optionalMember_some (by simp [fields, ownFields, Fields.get?]) p.find?_name, ok_bind, ok_bind,
      ok_bind]
    simp [fields, ownFields, ownTerms, Fields.get, Fields.get?, flag, pure, Except.pure]
  | comparison | range | prime | perfectSquare | fibonacci | divisible =>
    rw [optionalMember_none (by simp [fields, ownFields, Fields.get?]),
      optionalMember_none (by simp [fields, ownFields, Fields.get?]),
      optionalMember_none (by simp [fields, ownFields, Fields.get?]), ok_bind, ok_bind, ok_bind]
    simp [fields, ownFields, ownTerms, Fields.get, Fields.get?, flag, pure, Except.pure,
      Datum.isTruthy]

/-- A field that is not a constraint's does not matter for the terms that are read. -/
theorem readTerms_target (d : Datum) (fields : Fields) :
    readTerms (("target", d) :: fields) = readTerms fields := by
  have hget : ∀ key, "target" ≠ key → Fields.get? (("target", d) :: fields) key =
      Fields.get? fields key := fun _ h => Fields.get?_cons_of_ne h d fields
  simp only [readTerms, optionalMember, flag, Fields.get, hget "type" (by simp),
    hget "domain" (by simp), hget "sign" (by simp), hget "parity" (by simp), hget "value" (by simp),
    hget "min" (by simp), hget "max" (by simp), hget "min_inclusive" (by simp),
    hget "max_inclusive" (by simp), hget "divisor" (by simp)]
  rfl

/-! ## Reading back -/

/-- The record of a constraint that is attached to a target. -/
def recordAt (target : Identity) (c : Constraint) : Datum :=
  .record (("target", target.datum) :: c.fields)

/-- Fields that give the own terms of a constraint, its identity and its activity are read as the
constraint with the other terms forgotten. No identity is drawn if its own counts as one. -/
theorem ofRecord_of_terms (supply : Supply) {fields : Fields} {c : Constraint}
    (hterms : readTerms fields = .ok (c.kind, c.ownTerms)) (hid : Fields.get fields "id" = c.id)
    (hactive : flag fields "active" = c.active) (h : c.id.isTruthy = true) :
    ofRecord supply (.record fields) = (.ok c.rebuilt, supply) := by
  simp only [ofRecord, hterms, hid, hactive, if_pos h, ofTerms_eq c.stated_ownTerms]
  rfl

/-- The activity in a constraint's fields. -/
theorem flag_active (c : Constraint) : flag c.fields "active" = c.active := by
  simp [flag, Fields.get?, fields, Datum.isTruthy]

/-- The record of an attached constraint is read back as the constraint with the other terms
forgotten. -/
theorem ofRecord_recordAt (supply : Supply) (target : Identity) {c : Constraint}
    (h : c.id.isTruthy = true) : ofRecord supply (c.recordAt target) = (.ok c.rebuilt, supply) := by
  refine ofRecord_of_terms supply ?_ ?_ ?_ h
  · rw [readTerms_target, readTerms_fields]
  · simp [Fields.get, Fields.get?, fields]
  · rw [flag, Fields.get?_cons_of_ne (by simp)]
    exact c.flag_active

/-- The record of a constraint is read back as the constraint with the other terms forgotten. -/
theorem ofRecord_toRecord (supply : Supply) {c : Constraint} (h : c.id.isTruthy = true) :
    ofRecord supply c.toRecord = (.ok c.rebuilt, supply) :=
  ofRecord_of_terms supply c.readTerms_fields rfl c.flag_active h

/-- A constraint that was built, or read from a record. -/
def Made (c : Constraint) : Prop :=
  ∃ supply supply', (∃ d, ofRecord supply d = (.ok c, supply')) ∨
    ∃ kind terms, make supply kind terms = (.ok c, supply')

/-- An identity that is drawn is a text that is not empty. -/
theorem isTruthy_drawId (supply : Supply) : (drawId supply).1.isTruthy = true := by
  have hne : (freshIdentifier (supply.drawn + 1)).toList.take 8 ≠ [] := by
    rw [Ne, List.take_eq_nil_iff, not_or]
    refine ⟨by decide, fun h => ?_⟩
    simp [freshIdentifier] at h
  have hne' : String.ofList ((freshIdentifier (supply.drawn + 1)).toList.take 8) ≠ "" := fun h =>
    hne (by simpa using congrArg String.toList h)
  exact bne_iff_ne.2 hne'

/-- A constraint of given terms has the identity that it is given. -/
theorem id_of_ofTerms {id : Datum} {active : Bool} {kind : ConstraintKind} {terms : Terms}
    {c : Constraint} (h : ofTerms id active kind terms = .ok c) : c.id = id := by
  unfold ofTerms at h
  split at h
  · cases h; rfl
  · cases h

/-- A constraint that was built, or read from a record, has an identity that counts as one. -/
theorem Made.isTruthy {c : Constraint} (h : c.Made) : c.id.isTruthy = true := by
  obtain ⟨supply, supply', ⟨d, hd⟩ | ⟨kind, terms, hc⟩⟩ := h
  · unfold ofRecord at hd
    split at hd
    · next fields =>
      split at hd
      · cases hd
      · next kind terms _ =>
        by_cases hgiven : (Fields.get fields "id").isTruthy = true
        · simp only [hgiven, if_true, Prod.mk.injEq] at hd
          rw [id_of_ofTerms hd.1]
          exact hgiven
        · simp only [hgiven, Bool.false_eq_true, if_false, Prod.mk.injEq] at hd
          rw [id_of_ofTerms hd.1]
          exact isTruthy_drawId supply
    · cases hd
  · rw [make, Prod.mk.injEq] at hc
    rw [id_of_ofTerms hc.1]
    exact isTruthy_drawId supply

end Constraint

end EquationStudio
