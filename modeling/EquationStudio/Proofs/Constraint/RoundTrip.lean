import EquationStudio.Constraint.Conflict
import EquationStudio.Proofs.Constraint.Record
import EquationStudio.Proofs.Datum.Equality

/-!
# What reading back a constraint changes

A record of a constraint may give fields that its kind does not use. They are read, and kept, but
nothing that a constraint answers looks at them, nor are they written
(`Constraint.interchangeable_rebuilt`). So a constraint that is read back answers as before, and it
is the same one exactly if its unused terms are those of a constraint without them
(`Constraint.rebuilt_eq_iff`, and `Constraint.agrees_rebuilt` by the comparison of fields that the
program makes). A builder sets no other terms (`Constraint.Built.bare`).
-/

namespace EquationStudio

/-! ## The terms that a kind uses -/

/-- The terms that a kind uses. The others are as in a constraint without them. -/
def Terms.keep (terms : Terms) : ConstraintKind → Terms
  | .comparison _ => { value := terms.value }
  | .range => {
      minimum := terms.minimum, maximum := terms.maximum,
      minInclusive := terms.minInclusive, maxInclusive := terms.maxInclusive }
  | .domain => { domain := terms.domain }
  | .sign => { sign := terms.sign }
  | .parity => { parity := terms.parity }
  | .divisible => { divisor := terms.divisor }
  | .prime | .perfectSquare | .fibonacci => {}

/-- A datum that is a number is equal to itself. -/
theorem Datum.equal_self_of_ofNumeric? {d : Datum} {v : Number} (h : Number.ofNumeric? d = some v) :
    d.equal d = true := by
  unfold Number.ofNumeric? at h
  split at h
  · next n => exact (equal_of_quantity rfl).2 ⟨.whole n, rfl, Quantity.equal_iff.2 ⟨_, rfl, rfl⟩⟩
  · next x => exact (equal_of_quantity rfl).2 ⟨.real (.finite x), rfl,
      Quantity.equal_iff.2 ⟨_, rfl, rfl⟩⟩
  · cases h

/-- Only null is equal to null. -/
theorem Datum.null_equal_iff {d : Datum} : Datum.null.equal d = true ↔ d = .null := by
  cases d <;> simp [equal, quantity?]

namespace Constraint

variable {c : Constraint}

/-- The terms by which a rule is stated are those that its kind uses. -/
theorem ownTerms_eq (c : Constraint) : c.ownTerms = c.terms.keep c.kind := by
  obtain ⟨id, active, kind, terms, rule, stated⟩ := c
  cases kind with
  | comparison =>
    simp only [Rule.ofTerms] at stated
    split at stated
    · cases stated; rfl
    · cases stated
  | range | divisible =>
    simp only [Rule.ofTerms, Rule.ofRange] at stated
    split at stated
    · split at stated
      · cases stated
      · cases stated; rfl
    · cases stated
  | domain | sign | parity =>
    simp only [Rule.ofTerms] at stated
    split at stated
    · next hterm => cases stated; simp only [ownTerms, Terms.keep, hterm]
    · cases stated
  | prime | perfectSquare | fibonacci => cases stated; rfl

/-- Every term that the kind of a constraint does not use is as in a constraint without it. -/
@[mk_iff]
structure Bare (c : Constraint) : Prop where
  value : (∀ relation, c.kind ≠ .comparison relation) → c.terms.value = .null
  minimum : c.kind ≠ .range → c.terms.minimum = .null
  maximum : c.kind ≠ .range → c.terms.maximum = .null
  minInclusive : c.kind ≠ .range → c.terms.minInclusive = true
  maxInclusive : c.kind ≠ .range → c.terms.maxInclusive = true
  domain : c.kind ≠ .domain → c.terms.domain = none
  sign : c.kind ≠ .sign → c.terms.sign = none
  parity : c.kind ≠ .parity → c.terms.parity = none
  divisor : c.kind ≠ .divisible → c.terms.divisor = .null

/-- A constraint is bare if its kind uses all that its terms say. -/
theorem bare_iff_keep : c.Bare ↔ c.terms.keep c.kind = c.terms := by
  obtain ⟨id, active, kind, ⟨value, minimum, maximum, minInclusive, maxInclusive,
    domain, sign, parity, divisor⟩, rule, stated⟩ := c
  cases kind <;> simp [bare_iff, Terms.keep, eq_comm]

/-- A constraint is bare exactly if it is not changed by forgetting the terms that do not state its
rule. -/
theorem rebuilt_eq_iff : c.rebuilt = c ↔ c.Bare := by
  rw [bare_iff_keep, ← ownTerms_eq]
  constructor
  · intro h
    exact congrArg Constraint.terms h
  · intro h
    obtain ⟨id, active, kind, terms, rule, stated⟩ := c
    simp only [rebuilt, Constraint.mk.injEq, true_and, and_true]
    exact h

/-- The numbers that a kind uses are equal to themselves. -/
theorem equal_self_of_stated (c : Constraint) :
    (∀ relation, c.kind = .comparison relation → c.terms.value.equal c.terms.value = true) ∧
      (c.kind = .range → c.terms.minimum.equal c.terms.minimum = true ∧
        c.terms.maximum.equal c.terms.maximum = true) ∧
      (c.kind = .divisible → c.terms.divisor.equal c.terms.divisor = true) := by
  obtain ⟨id, active, kind, terms, rule, stated⟩ := c
  refine ⟨?_, ?_, ?_⟩
  · rintro relation rfl
    simp only [Rule.ofTerms] at stated
    split at stated
    · next hvalue => exact Datum.equal_self_of_ofNumeric? hvalue
    · cases stated
  · rintro rfl
    simp only [Rule.ofTerms, Rule.ofRange] at stated
    split at stated
    · next hlow hhigh =>
      exact ⟨Datum.equal_self_of_ofNumeric? hlow, Datum.equal_self_of_ofNumeric? hhigh⟩
    · cases stated
  · rintro rfl
    simp only [Rule.ofTerms] at stated
    split at stated
    · next hdivisor => exact Datum.equal_self_of_ofNumeric? hdivisor
    · cases stated

/-- By the comparison of fields too, only a bare constraint agrees with what is left of it when the
other terms are forgotten. -/
theorem agrees_rebuilt (hid : c.id.equal c.id = true) : c.rebuilt.agrees c = true ↔ c.Bare := by
  obtain ⟨hvalue, hrange, hdivisor⟩ := c.equal_self_of_stated
  have hnone : ∀ {α : Type} {o : Option α}, none = o ↔ o = none := eq_comm
  rw [bare_iff, agrees]
  simp only [rebuilt, ownTerms_eq, hid]
  cases hkind : c.kind with
  | comparison relation =>
    simp [Terms.keep, hvalue relation hkind, Datum.null_equal_iff, hnone, and_assoc]
  | range => simp [Terms.keep, hrange hkind, Datum.null_equal_iff, hnone, and_assoc]
  | divisible => simp [Terms.keep, hdivisor hkind, Datum.null_equal_iff, hnone, and_assoc]
  | domain | sign | prime | perfectSquare | parity | fibonacci =>
    simp [Terms.keep, Datum.null_equal_iff, hnone, and_assoc]

/-! ## Builders -/

/-- The constraint that a builder makes. -/
inductive Built (c : Constraint) : Prop where
  | compare {supply supply' : Supply} {relation : Relation} {value : Datum}
      (made : Constraint.compare supply relation value = (.ok c, supply'))
  | between {supply supply' : Supply} {minimum maximum : Datum} {minInclusive maxInclusive : Bool}
      (made :
        Constraint.between supply minimum maximum minInclusive maxInclusive = (.ok c, supply'))
  | inDomain {supply supply' : Supply} {domain : Datum}
      (made : Constraint.inDomain supply domain = (.ok c, supply'))
  | ofSign {supply supply' : Supply} {sign : Sign}
      (made : Constraint.ofSign supply sign = (.ok c, supply'))
  | ofParity {supply supply' : Supply} {parity : Parity}
      (made : Constraint.ofParity supply parity = (.ok c, supply'))
  | divisibleBy {supply supply' : Supply} {divisor : Datum}
      (made : Constraint.divisibleBy supply divisor = (.ok c, supply'))
  | plain {supply supply' : Supply} {kind : ConstraintKind}
      (made : Constraint.plain supply kind = (.ok c, supply'))

/-- A constraint that a record is read as. -/
def Read (c : Constraint) : Prop := ∃ supply supply' d, ofRecord supply d = (.ok c, supply')

/-- A builder makes a constraint of terms that the kind uses all. -/
theorem Built.exists_make (h : c.Built) :
    ∃ supply supply' kind terms, make supply kind terms = (.ok c, supply') ∧
    terms.keep kind = terms := by
  cases h with
  | compare made | between made | ofSign made | ofParity made | divisibleBy made =>
    exact ⟨_, _, _, _, made, rfl⟩
  | inDomain made =>
    unfold Constraint.inDomain at made
    split at made
    · exact ⟨_, _, _, _, made, rfl⟩
    · cases made
    · cases made
  | plain made =>
    rename_i kind
    exact ⟨_, _, _, _, made, by cases kind <;> rfl⟩

/-- A builder sets no term that the kind does not use. -/
theorem Built.bare (h : c.Built) : c.Bare := by
  obtain ⟨supply, supply', kind, terms, made, hkeep⟩ := h.exists_make
  rw [make, Prod.mk.injEq] at made
  have hc := made.1
  unfold ofTerms at hc
  split at hc
  · cases hc
    exact bare_iff_keep.2 hkeep
  · cases hc

/-- A constraint that a builder makes, or that a record is read as. -/
theorem made_of_built_or_read (h : c.Built ∨ c.Read) : c.Made := by
  obtain h | ⟨supply, supply', d, hread⟩ := h
  · obtain ⟨supply, supply', kind, terms, made, -⟩ := h.exists_make
    exact ⟨supply, supply', .inr ⟨kind, terms, made⟩⟩
  · exact ⟨supply, supply', .inl ⟨d, hread⟩⟩

/-! ## Answers -/

/-- Two constraints that give the same answers. -/
structure Interchangeable (a b : Constraint) : Prop where
  id : b.id = a.id
  active : b.active = a.active
  kind : b.kind = a.kind
  toRecord : b.toRecord = a.toRecord
  describe : b.describe = a.describe
  satisfies : ∀ d, b.satisfies d = a.satisfies d
  findConflict : ∀ other, b.findConflict other = a.findConflict other
  conflictFound : ∀ other : Constraint, other.findConflict b = other.findConflict a

/-- No answer of a constraint depends on the terms that do not state its rule. -/
theorem interchangeable_rebuilt (c : Constraint) : c.Interchangeable c.rebuilt where
  id := rfl
  active := rfl
  kind := rfl
  toRecord := congrArg Datum.record c.fields_rebuilt
  describe := rfl
  satisfies _ := rfl
  findConflict _ := rfl
  conflictFound _ := rfl

/-- **A constraint is read back from its record.** No identity is drawn, and what is read gives the
same answers: identity, activity, record and description, which values satisfy it, and which
constraints it conflicts with. It is the same constraint, field for field, exactly if the terms that
its kind does not use are as in a constraint without them; so it is for every constraint that a
builder makes. -/
theorem ofRecord_interchangeable (h : c.Built ∨ c.Read) (supply : Supply) :
    ∃ c', ofRecord supply c.toRecord = (.ok c', supply) ∧ c.Interchangeable c' ∧ (c' = c ↔ c.Bare) ∧
      (c.id.equal c.id = true → (c'.agrees c = true ↔ c.Bare)) ∧ (c.Built → c' = c) := by
  have htruthy : c.id.isTruthy = true := (made_of_built_or_read h).isTruthy
  exact ⟨c.rebuilt, ofRecord_toRecord supply htruthy, c.interchangeable_rebuilt,
    rebuilt_eq_iff, agrees_rebuilt, fun hbuilt => rebuilt_eq_iff.2 hbuilt.bare⟩

/-- A comparison read from a record that gives bounds of a range and a sign too: what is read back
gives the same answers but is not the same. -/
theorem ofRecord_interchangeable_surplus : ∃ c c' : Constraint,
    ofRecord {} (.record [("type", .text "less_than"), ("value", .int 2), ("min", .int 5),
      ("max", .text "x"), ("sign", .text "positive"), ("active", .int 0), ("id", .text "a")]) =
      (.ok c, {}) ∧
    ofRecord {} c.toRecord = (.ok c', {}) ∧ c.Interchangeable c' ∧ c' ≠ c ∧
    c'.agrees c = false := by
  let c : Constraint := ⟨.text "a", false, .comparison .less,
    { value := .int 2, minimum := .int 5, maximum := .text "x", sign := some .positive },
    .comparison .less (.whole 2), rfl⟩
  have hread : ofRecord {} (.record [("type", .text "less_than"),
      ("value", .int 2), ("min", .int 5), ("max", .text "x"), ("sign", .text "positive"),
      ("active", .int 0), ("id", .text "a")]) = (.ok c, {}) := by
    rfl
  have hbare : ¬ c.Bare := fun h => nomatch h.minimum nofun
  obtain ⟨c', hc', hsame, heq, hagrees, -⟩ := ofRecord_interchangeable (.inr ⟨{}, {}, _, hread⟩) {}
  refine ⟨c, c', hread, hc', hsame, fun h => hbare (heq.1 h), ?_⟩
  exact Bool.eq_false_iff.2 fun h => hbare ((hagrees rfl).1 h)

end Constraint

end EquationStudio
