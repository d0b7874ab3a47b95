import EquationStudio.Proofs.Constraint.Overflow
import EquationStudio.Proofs.Diagram.Consistent

/-!
# Values and constraints of a diagram that no double can hold

The requests to a diagram that judge values or compare constraints are refused by the schema only,
unless an integer without a double is needed (`Diagram.refused_unless_large`). A number node takes
values that have doubles, so it is the constraints that may be stated with such an integer: a value
that breaks one is refused with another fault than that of a broken constraint
(`Diagram.large_bound_overflows`), since the description of the constraint fails.
-/

namespace EquationStudio

/-- A datum that is not taken for a number is refused by the schema. -/
theorem Number.isSchema_of_ofDatum {d : Datum} {fault : Fault}
    (h : Number.ofDatum d = .error fault) : fault.isSchema = true := by
  have hdouble : ∀ {x : Double}, Number.ofDouble x = .error fault → fault.isSchema = true := by
    intro x hx
    cases x with
    | finite x => cases hx
    | nan | infinite => cases hx; rfl
  cases d with
  | int n => exact hdouble h
  | float x => exact hdouble h
  | text s =>
    simp only [Number.ofDatum] at h
    split at h
    · exact hdouble h
    · cases h; rfl
  | null | bool | list | record => cases h; rfl

/-- A record that states no constraint is refused by the schema. -/
theorem Constraint.isSchema_of_ofRecord {supply : Supply} {d : Datum} {fault : Fault}
    (h : (Constraint.ofRecord supply d).1 = .error fault) : fault.isSchema = true := by
  unfold ofRecord at h
  split at h
  · split at h
    · cases h; rfl
    · dsimp only at h
      unfold ofTerms at h
      split at h <;> cases h
      rfl
  · cases h; rfl

/-- Constraints whose numbers have doubles judge a number that has one, and are described. -/
theorem Registry.not_overflows {r : Registry} {k : Key} {v : Number}
    (hv : v.toDouble?.isSome = true) (hr : ∀ c ∈ r.constraintsAt k, c.rule.Convertible) :
    ¬ r.Overflows k v.toDatum := by
  rintro (⟨c, hc, hexceeds⟩ | ⟨c, hc, -, hlarge⟩)
  · obtain ⟨holds, hholds⟩ := exists_satisfies hv (hr c hc)
    cases hholds.symm.trans ((c.answers_satisfies _).large hexceeds)
  · exact hlarge (hr c hc)

namespace Diagram

/-- Setting a number node to a datum needs the double of an integer that has none. -/
def Overflows (g : Diagram) (s : String) (d : Datum) : Prop :=
  ∃ n w v, g.nodes.get? (.text s) = some n ∧ n.content = .number w ∧ Number.ofDatum d = .ok v ∧
    g.constraints.Overflows (.text s) v.toDatum

/-- Attaching a constraint to a node needs the double of an integer that has none. -/
def Incomparable (g : Diagram) (s : String) (c : Constraint) : Prop :=
  g.requireConstrainable (.text s) = .ok () ∧ g.constraints.Incomparable (.text s) c

section
variable (g : Diagram) (s : String)

/-- A node is required by its identity. -/
theorem requireNode_text : g.requireNode (.text s) =
    match g.nodes.get? (.text s) with
    | some n => .ok n
    | none => .error (.schema (.nodeUnknown s)) := by
  have hfound : g.node? (.text s) = .ok (g.nodes.get? (.text s)) := rfl
  rw [requireNode, hfound, ok_bind]
  cases g.nodes.get? (.text s) <;> rfl

/-- A value is set or refused, unless a double is needed that there is not. -/
theorem refuses_setValue (d : Datum) : RefusesUnless (g.Overflows s d)
    (g.setValue (.text s) d) := by
  rw [setValue, requireNode_text]
  cases hn : g.nodes.get? (.text s) with
  | none => exact .of_error rfl fun ⟨_, _, _, h, _⟩ => nomatch hn.symm.trans h
  | some n =>
    rw [ok_bind]
    cases hw : n.content with
    | number w =>
      cases hv : Number.ofDatum d with
      | error fault =>
        exact .of_error (Number.isSchema_of_ofDatum hv) fun ⟨_, _, _, _, _, h, _⟩ =>
          nomatch hv.symm.trans h
      | ok v =>
        have hset := (g.constraints.refuses_check s v.toDatum).bind (q := fun _ => False)
          fun _ _ =>
            (AnswersUnless.of_ok (a := g.replaceNode
              { n with content := .number v, label := v.literal })
            not_false).refuses
        refine hset.congr ⟨fun h => ⟨n, w, v, hn, hw, hv, h.resolve_right fun ⟨_, _, h⟩ => h⟩, ?_⟩
        rintro ⟨_, _, _, hn', -, hv', h⟩
        cases hn.symm.trans hn'
        cases hv.symm.trans hv'
        exact .inl h
    | symbol | binary | output =>
      refine .of_error rfl fun ⟨_, _, _, hn', hw', _⟩ => ?_
      cases hn.symm.trans hn'
      cases hw.symm.trans hw'

variable {g s}

/-- A value that breaks a constraint of its node is refused with the descriptions of all that it
breaks, unless a double is needed that there is not. -/
theorem setValue_of_broken {n : Node} {w v : Number} {d : Datum} {c : Constraint}
    (hn : g.nodes.get? (.text s) = some n) (hw : n.content = .number w)
    (hv : Number.ofDatum d = .ok v) (hc : c ∈ g.constraints.constraintsAt (.text s))
    (hactive : c.active = true) (hbroken : c.rule.admits v = .ok false)
    (hwithin : ¬ g.Overflows s d) :
    ∃ rules, (g.constraints.breached (.text s) v.toDatum).mapM Constraint.describe = .ok rules ∧
      g.setValue (.text s) d = .error (.violation s rules) := by
  obtain ⟨rules, hrules, hcheck⟩ := Registry.check_of_within fun h =>
    hwithin ⟨n, w, v, hn, hw, hv, h⟩
  have hmem : c ∈ g.constraints.breached (.text s) v.toDatum :=
    Registry.mem_breached.2 ⟨hc, by rw [Constraint.satisfies_toDatum hactive, hbroken]⟩
  rw [if_neg (List.ne_nil_of_mem hmem)] at hcheck
  refine ⟨rules, hrules, ?_⟩
  rw [setValue, requireNode_text, hn, ok_bind, hw, hv]
  simp only [ok_bind, hcheck, error_bind]

variable (g s)

/-- A node that takes no constraints is refused by the schema. -/
theorem isSchema_of_requireConstrainable {fault : Fault}
    (h : g.requireConstrainable (.text s) = .error fault) : fault.isSchema = true := by
  rw [requireConstrainable, requireNode_text] at h
  cases hn : g.nodes.get? (.text s) with
  | none => rw [hn] at h; cases h; rfl
  | some n =>
    rw [hn, ok_bind] at h
    cases hcontent : n.content with
    | number | symbol => rw [hcontent] at h; cases h
    | binary | output => rw [hcontent] at h; cases h; rfl

/-- A constraint is attached to a node or refused, unless a double is needed that there is not, or
the identity is taken and cannot be written. -/
theorem refuses_attach (c : Constraint) :
    (∃ fault, c.id.plain = .error fault ∧ g.attach (.text s) c = .error fault) ∨
      RefusesUnless (g.Incomparable s c) (g.attach (.text s) c) := by
  unfold attach Incomparable
  cases htakes : g.requireConstrainable (.text s) with
  | error fault =>
    exact .inr (.of_error (g.isSchema_of_requireConstrainable s htakes) fun ⟨h, _⟩ => nomatch h)
  | ok =>
    have hid : Identity.ofDatum (.text s) = .ok (.ofText s) := rfl
    rw [ok_bind, hid, ok_bind]
    obtain ⟨fault, hshown, hadd⟩ | hadd := g.constraints.refuses_add s c
    · exact .inl ⟨fault, hshown, by rw [hadd, error_bind]⟩
    · refine .inr ((hadd.bind (q := fun _ => False) fun r _ => ?_).congr ?_)
      · exact (AnswersUnless.of_ok not_false).refuses
      · simp

/-- A constraint that is given as a record is refused by the schema, or as the constraint that it
states. -/
theorem addConstraint_error {supply : Supply} {record : Datum} {fault : Fault}
    (h : (g.addConstraint supply (.text s) record).1 = .error fault) : fault.isSchema = true ∨
      ∃ c, (Constraint.ofRecord supply record).1 = .ok c ∧ g.attach (.text s) c = .error fault := by
  unfold addConstraint at h
  split at h
  · next htakes => cases h; exact .inl (g.isSchema_of_requireConstrainable s htakes)
  split at h
  · obtain h | ⟨c, hc, h⟩ := error_of_bind h
    · exact .inl (Constraint.isSchema_of_ofRecord h)
    · exact .inr ⟨c, hc, h⟩
  · cases h; exact .inl rfl

end

end Diagram

/-! ## The main statement -/

/-- How the requests to a registry end that are about a target, a constraint and a value. -/
structure Registry.Guarded (r : Registry) (s : String) (c : Constraint) (d : Datum) : Prop where
  violations : AnswersUnless (r.Exceeds (.text s) d) (r.violations (.text s) d)
  summary : AnswersUnless (∃ c ∈ r.constraintsAt (.text s), ¬ c.rule.Convertible)
    (r.summary (.text s))
  check : RefusesUnless (r.Overflows (.text s) d) (r.check (.text s) d)
  /-- An identity that is taken may be no text, and be too long to be written in the refusal. -/
  add : (∃ fault, c.id.plain = .error fault ∧ r.add (.ofText s) c = .error fault) ∨
    RefusesUnless (r.Incomparable (.text s) c) (r.add (.ofText s) c)

/-- How the requests to a diagram end that are about a node, a constraint and a value. -/
structure Diagram.Guarded (g : Diagram) (s : String) (c : Constraint) (d : Datum) : Prop where
  setValue : RefusesUnless (g.Overflows s d) (g.setValue (.text s) d)
  /-- A value that breaks an active constraint is refused with the descriptions of all that it
  breaks … -/
  broken : ∀ n w v, g.nodes.get? (.text s) = some n → n.content = .number w →
    Number.ofDatum d = .ok v →
    (∃ c ∈ g.constraints.constraintsAt (.text s), c.active = true ∧ c.rule.admits v = .ok false) →
      ¬ g.Overflows s d → ∃ rules, (g.constraints.breached (.text s) v.toDatum).mapM
        Constraint.describe = .ok rules ∧
        g.setValue (.text s) d = .error (.violation s rules)
  /-- … which never fails where the numbers of the constraints have doubles. -/
  within : (∀ c ∈ g.constraints.constraintsAt (.text s), c.rule.Convertible) → ¬ g.Overflows s d
  attach : (∃ fault, c.id.plain = .error fault ∧ g.attach (.text s) c = .error fault) ∨
    RefusesUnless (g.Incomparable s c) (g.attach (.text s) c)
  addConstraint : ∀ supply record fault, (g.addConstraint supply (.text s) record).1 =
    .error fault →
    fault.isSchema = true ∨
      ∃ c, (Constraint.ofRecord supply record).1 = .ok c ∧ g.attach (.text s) c = .error fault

namespace Diagram

/-- For every constraint and every value, the constraint answers and is described, and the requests
to a registry and to a diagram answer or are refused by the schema, except where the double of an
integer is needed that has none, and there they fail for that. -/
theorem refused_unless_large (g : Diagram) (s : String) (c : Constraint) (d : Datum) :
    AnswersUnless (c.Exceeds d) (c.satisfies d) ∧ AnswersUnless (¬ c.rule.Convertible) c.describe ∧
      g.constraints.Guarded s c d ∧ g.Guarded s c d := by
  refine ⟨c.answers_satisfies d, c.rule.answers_describe, ?_, ?_⟩
  · exact ⟨g.constraints.answers_violations s d, g.constraints.answers_summary s,
      g.constraints.refuses_check s d, g.constraints.refuses_add s c⟩
  · refine ⟨g.refuses_setValue s d, ?_, ?_, g.refuses_attach s c,
      fun _ _ _ h => g.addConstraint_error s h⟩
    · rintro n w v hn hw hv ⟨c, hc, hactive, hbroken⟩ hwithin
      exact setValue_of_broken hn hw hv hc hactive hbroken hwithin
    · rintro hconvertible ⟨n, w, v, -, -, hv, hlarge⟩
      exact Registry.not_overflows (isSome_toDouble? (Number.ofDatum_toDatum hv))
        hconvertible hlarge

/-- To be above an integer that no double can hold. -/
def aboveLarge : Constraint :=
  ⟨.text "a", true, .comparison .greater, { value := .int (10 ^ 400) },
    .comparison .greater (.whole (10 ^ 400)), rfl⟩

/-- A number node, which is to be above that integer. -/
def topped : Diagram :=
  run [.create (.text "number") .null .null, .attach (.text "n1") aboveLarge] {}

/-- The number one breaks the constraint of its node, but setting it fails for the double of the
bound, which is no refusal by the schema. -/
theorem large_bound_overflows : Number.ofDatum (.int 1) = .ok (.whole 1) ∧
    (∃ c ∈ topped.constraints.constraintsAt (.text "n1"), c.active = true ∧
    c.rule.admits (.whole 1) = .ok false) ∧
    topped.setValue (.text "n1") (.int 1) = .error (.datum .tooLargeForDouble) ∧
    (Fault.datum .tooLargeForDouble).isSchema = false := by
  have hread : Number.ofDatum (.int 1) = .ok (.whole 1) := by decide +kernel
  have hbroken : ∃ c ∈ topped.constraints.constraintsAt (.text "n1"), c.active = true ∧
      c.rule.admits (.whole 1) = .ok false ∧ ¬ c.rule.Convertible := by decide +kernel
  have hkind : (topped.nodes.get? (.text "n1")).map Node.kind = some .number := by decide +kernel
  obtain ⟨n, hn, hnumber⟩ := Option.map_eq_some_iff.1 hkind
  obtain ⟨w, hw⟩ : ∃ w, n.content = .number w := by
    unfold Node.kind at hnumber
    cases hcontent : n.content with
    | number w => exact ⟨w, rfl⟩
    | symbol | binary | output => rw [hcontent] at hnumber; cases hnumber
  obtain ⟨c, hc, hactive, hadmits, hlarge⟩ := hbroken
  have hrefuses : c.satisfies (Number.whole 1).toDatum = .ok false := by
    rw [Constraint.satisfies_toDatum hactive, hadmits]
  exact ⟨hread, ⟨c, hc, hactive, hadmits⟩,
    (topped.refuses_setValue "n1" (.int 1)).large ⟨n, w, _, hn, hw, hread,
    .inr ⟨c, hc, hrefuses, hlarge⟩⟩, rfl⟩

end Diagram

end EquationStudio
