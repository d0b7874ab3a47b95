import EquationStudio.Proofs.Constraint.Conflict
import EquationStudio.Proofs.Constraint.Registry
import EquationStudio.Proofs.Synthesis.Report

/-!
# Constraints and integers without a double

A constraint is stated with integers of any size, and asked about integers of any size. Three
requests convert them to doubles: a constraint that is asked about an integer
(`Constraint.Exceeds`), two constraints that are compared (`Constraint.Incomparable`), and a
constraint that is described. Each fails where an integer has no double, and fails for nothing else.
The requests on a registry come from these: they answer, or refuse by the rules of the schema
(`Fault.isSchema`), unless one of the three fails. `AnswersUnless` and `RefusesUnless` say so of one
request, and are carried from the parts of a request to the whole.
-/

namespace EquationStudio

/-! ## How a request ends -/

/-- A request that answers, except where it needs the double of an integer that has none, as `P`
says: there it fails for that. -/
structure AnswersUnless {α : Type} (P : Prop) (x : Except Fault α) : Prop where
  large : P → x = .error (.datum .tooLargeForDouble)
  answer : ¬ P → ∃ a, x = .ok a

/-- A request that fails by a refusal of the schema only, except where it needs the double of an
integer that has none, as `P` says: there it fails for that. -/
structure RefusesUnless {α : Type} (P : Prop) (x : Except Fault α) : Prop where
  large : P → x = .error (.datum .tooLargeForDouble)
  refusal : ¬ P → ∀ fault, x = .error fault → fault.isSchema = true

section
variable {α β : Type} {P Q : Prop} {x : Except Fault α} {f : α → Except Fault β}

namespace AnswersUnless

/-- An answer is one for every request that does not fail. -/
theorem of_ok {a : α} (h : ¬ P) : AnswersUnless P (.ok a : Except Fault α) :=
  ⟨fun hP => absurd hP h, fun _ => ⟨a, rfl⟩⟩

/-- What it takes to fail may be said in other words. -/
theorem congr (h : AnswersUnless P x) (hPQ : P ↔ Q) : AnswersUnless Q x := by rwa [← hPQ]

/-- A sequence of two requests fails where the first one does, or else the second. -/
theorem bind (hx : AnswersUnless P x) (hf : ∀ a, x = .ok a → AnswersUnless Q (f a)) :
    AnswersUnless (P ∨ Q) (x >>= f) := by
  by_cases hP : P
  · exact ⟨fun _ => by rw [hx.large hP, error_bind], fun h => absurd (.inl hP) h⟩
  · obtain ⟨a, ha⟩ := hx.answer hP
    rw [ha, ok_bind]
    exact (hf a ha).congr (or_iff_right hP).symm

/-- A request fails where the one does whose answer it goes on with. -/
theorem map (hx : AnswersUnless P x) (g : α → β) : AnswersUnless P (x >>= fun a => .ok (g a)) :=
  (hx.bind fun _ _ => of_ok not_false).congr (or_iff_left not_false)

/-- Requests along a list fail where one of them does. -/
theorem mapM {p : α → Prop} (h : ∀ a, AnswersUnless (p a) (f a)) : ∀ as : List α,
    AnswersUnless (∃ a ∈ as, p a) (as.mapM f)
  | [] => of_ok (by simp)
  | a :: as => by
    rw [List.mapM_cons]
    exact ((h a).bind fun b _ => (mapM h as).map fun bs => b :: bs).congr (by simp)

/-- A request that answers is not refused. -/
theorem refuses (h : AnswersUnless P x) : RefusesUnless P x := by
  refine ⟨h.large, fun hP fault hfault => ?_⟩
  obtain ⟨a, ha⟩ := h.answer hP
  cases ha.symm.trans hfault

end AnswersUnless

namespace RefusesUnless

/-- What it takes to fail may be said in other words. -/
theorem congr (h : RefusesUnless P x) (hPQ : P ↔ Q) : RefusesUnless Q x := by rwa [← hPQ]

/-- A refusal of the schema. -/
theorem of_error {fault : Fault} (h : fault.isSchema = true) (hP : ¬ P) :
    RefusesUnless P (.error fault : Except Fault α) :=
  ⟨fun h => absurd h hP, fun _ _ h' => Except.error.inj h' ▸ h⟩

/-- A sequence of two requests fails where the first one does, or else the second. -/
theorem bind {q : α → Prop} (hx : RefusesUnless P x)
    (hf : ∀ a, x = .ok a → RefusesUnless (q a) (f a)) :
    RefusesUnless (P ∨ ∃ a, x = .ok a ∧ q a) (x >>= f) := by
  cases x with
  | error fault =>
    refine ⟨fun h => ?_, fun h fault' hfault => ?_⟩
    · obtain hP | ⟨_, h, -⟩ := h
      · exact congrArg _ (Except.error.inj (hx.large hP))
      · cases h
    · cases hfault
      exact hx.refusal (fun hP => h (.inl hP)) _ rfl
  | ok a =>
    have hP : ¬ P := fun hP => nomatch hx.large hP
    refine (hf a rfl).congr ⟨fun h => .inr ⟨a, rfl, h⟩, ?_⟩
    rintro (h | ⟨_, h, hq⟩)
    · exact absurd h hP
    · cases h
      exact hq

end RefusesUnless

end

/-! ## One constraint -/

/-- Asking a rule about a number needs the double of an integer that has none. -/
def Rule.Exceeds (v : Number) : Rule → Prop
  | .domain .real | .domain .rational => v.toDouble? = none
  | .divisible divisor => v.toDouble? = none ∨ divisor.toDouble? = none
  | _ => False

/-- A number is described if it has a double. -/
theorem Number.answers_described (v : Number) : AnswersUnless (v.toDouble? = none) v.described := by
  refine ⟨fun hnone => ?_, fun hsome => exists_described (Option.isSome_iff_ne_none.2 hsome)⟩
  cases v with
  | whole n => exact if_neg (by simpa [toDouble?] using hnone)
  | real x => cases hnone

namespace Rule

variable {a b r : Rule} {v : Number}

/-- A rule answers, unless a double is needed that there is not. -/
theorem answers_admits (r : Rule) (v : Number) : AnswersUnless (r.Exceeds v) (r.admits v) := by
  cases r with
  | domain d =>
    cases d with
    | real | rational =>
      simp only [Exceeds, admits, Number.inDomain]
      cases v.toDouble? with
      | none => exact ⟨fun _ => rfl, fun h => absurd rfl h⟩
      | some x => exact .of_ok (Option.some_ne_none x)
    | integer | natural | positiveReal | negativeReal => exact .of_ok not_false
  | divisible divisor =>
    simp only [Exceeds, admits, Number.isMultipleOf]
    cases v.toDouble? with
    | none => exact ⟨fun _ => rfl, fun h => absurd (.inl rfl) h⟩
    | some x =>
      cases divisor.toDouble? with
      | none => exact ⟨fun _ => rfl, fun h => absurd (.inr rfl) h⟩
      | some y => exact .of_ok (by simp)
  | comparison | range | sign | prime | perfectSquare | parity | fibonacci => exact .of_ok not_false

/-- A rule is described if its numbers have doubles. -/
theorem answers_describe (r : Rule) : AnswersUnless (¬ r.Convertible) r.describe := by
  have hnone : ∀ {r : Rule}, r.numbers = [] → ¬ ¬ r.Convertible := fun hnumbers =>
    not_not.2 fun v hv => absurd (hnumbers ▸ hv) List.not_mem_nil
  have hone : ∀ {r : Rule} {v : Number}, r.numbers = [v] →
      (v.toDouble? = none ↔ ¬ r.Convertible) := by
    intro r v hnumbers
    show _ ↔ ¬ ∀ w ∈ r.numbers, w.toDouble?.isSome = true
    simp [hnumbers]
  cases r with
  | comparison relation bound =>
    cases relation <;> exact (bound.answers_described.map _).congr (hone rfl)
  | range low high =>
    refine (low.answers_described.bind fun _ _ => high.answers_described.map _).congr ?_
    show _ ↔ ¬ ∀ v ∈ [low, high], v.toDouble?.isSome = true
    simp only [List.forall_mem_cons, Option.isSome_iff_ne_none]
    tauto
  | divisible divisor => exact (divisor.answers_described.map _).congr (hone rfl)
  | sign s => cases s <;> exact .of_ok (hnone rfl)
  | domain | prime | perfectSquare | parity | fibonacci => exact .of_ok (hnone rfl)

/-- A value is compared with a rule, unless the rule does not answer for it. -/
theorem answers_conflictWith (v : Number) (b : Rule) : AnswersUnless (b.Exceeds v)
    (v.conflictWith b) := by
  have hasked := (b.answers_admits v).map fun holds =>
    if holds then none else some ConflictKind.equalValueExcluded
  cases b with
  | comparison relation w =>
    cases relation with
    | notEqual | equal => exact .of_ok not_false
    | greater | less => exact hasked
  | range | domain | sign | prime | perfectSquare | parity | fibonacci | divisible => exact hasked

/-- The first rule fixes a value for which the second one does not answer. -/
def FixesBeyond (a b : Rule) : Prop := ∃ v, a = .comparison .equal v ∧ b.Exceeds v

/-- A rule that fixes a value is compared with one that answers for the value, and other rules with
all. -/
theorem answers_oneWayConflict (a b : Rule) : AnswersUnless (a.FixesBeyond b)
    (a.oneWayConflict b) := by
  by_cases ha : ∃ v, a = .comparison .equal v
  · obtain ⟨v, rfl⟩ := ha
    refine (answers_conflictWith v b).congr ⟨fun h => ⟨v, rfl, h⟩, ?_⟩
    rintro ⟨_, heq, h⟩
    cases heq
    exact h
  · refine ⟨fun ⟨v, hv, _⟩ => absurd ⟨v, hv⟩ ha, fun _ => ?_⟩
    unfold oneWayConflict
    split
    · exact absurd ⟨_, rfl⟩ ha
    all_goals exact ⟨_, rfl⟩

/-- A rule that does not answer for the value that another one fixes finds no conflict of its
own. -/
theorem FixesBeyond.oneWayConflict_eq_none (h : b.FixesBeyond a) :
    a.oneWayConflict b = .ok none := by
  obtain ⟨v, rfl, hexceeds⟩ := h
  cases a with
  | domain | divisible => rfl
  | comparison | range | sign | prime | perfectSquare | parity | fibonacci => cases hexceeds

end Rule

namespace Constraint

/-- Asking a constraint about a datum needs the double of an integer that has none. -/
def Exceeds (c : Constraint) (d : Datum) : Prop :=
  c.active = true ∧ ∃ v, Number.ofNumeric? d = some v ∧ c.rule.Exceeds v

/-- Comparing two constraints needs the double of an integer that has none. -/
def Incomparable (a b : Constraint) : Prop :=
  a.active = true ∧ b.active = true ∧ (a.rule.FixesBeyond b.rule ∨ b.rule.FixesBeyond a.rule)

/-- A constraint answers, unless a double is needed that there is not. -/
theorem answers_satisfies (c : Constraint) (d : Datum) :
    AnswersUnless (c.Exceeds d) (c.satisfies d) := by
  unfold satisfies Exceeds
  by_cases hactive : c.active = true
  · rw [if_pos hactive]
    cases hv : Number.ofNumeric? d with
    | some v => exact (c.rule.answers_admits v).congr (by simp [hactive])
    | none => exact .of_ok (by simp)
  · rw [if_neg hactive]
    exact .of_ok (by simp [hactive])

/-- Two constraints are compared, unless a double is needed that there is not. -/
theorem answers_findConflict (a b : Constraint) : AnswersUnless (a.Incomparable b)
    (a.findConflict b) := by
  unfold findConflict Incomparable
  split
  · next hactive =>
    obtain ⟨ha, hb⟩ := Bool.and_eq_true_iff.1 hactive
    simp only [ha, hb, true_and]
    refine (a.rule.answers_oneWayConflict b.rule).bind fun found hfound => ?_
    cases found with
    | some kind =>
      refine .of_ok fun hbeyond => ?_
      cases hfound.symm.trans hbeyond.oneWayConflict_eq_none
    | none => exact b.rule.answers_oneWayConflict a.rule
  · next hactive => exact .of_ok fun ⟨ha, hb, _⟩ => hactive (Bool.and_eq_true_iff.2 ⟨ha, hb⟩)

end Constraint

/-! ## The constraints of a target -/

namespace Registry

/-- Judging a value by the constraints of a target needs the double of an integer that has none. -/
def Exceeds (r : Registry) (k : Key) (d : Datum) : Prop := ∃ c ∈ r.constraintsAt k, c.Exceeds d

/-- Judging a value, or describing the constraints that it breaks, needs the double of an integer
that has none. -/
def Overflows (r : Registry) (k : Key) (d : Datum) : Prop :=
  r.Exceeds k d ∨ ∃ c ∈ r.constraintsAt k, c.satisfies d = .ok false ∧ ¬ c.rule.Convertible

/-- A constraint has a new identity, and comparing it with those of a target needs the double of an
integer that has none. -/
def Incomparable (r : Registry) (k : Key) (c : Constraint) : Prop :=
  (∀ other ∈ r.constraintsAt k, other.id.equal c.id = false) ∧
    ∃ other ∈ r.constraintsAt k, other.Incomparable c

/-- The constraints of a target that a value breaks. -/
def breached (r : Registry) (k : Key) (d : Datum) : List Constraint :=
  (r.constraintsAt k).filter fun c => (c.satisfies d).toOption = some false

/-- A constraint that a value breaks is one of the target. -/
theorem mem_breached {r : Registry} {k : Key} {d : Datum} {c : Constraint} :
    c ∈ r.breached k d ↔ c ∈ r.constraintsAt k ∧ c.satisfies d = .ok false := by
  rw [breached, List.mem_filter, decide_eq_true_eq, toOption_eq_some]

/-- A list of constraints judges a value, unless one of them does not. -/
theorem answers_broken (d : Datum) : ∀ cs : List Constraint, AnswersUnless (∃ c ∈ cs, c.Exceeds d)
    (broken d cs)
  | [] => .of_ok (by simp)
  | c :: cs => by
    refine ((c.answers_satisfies d).bind (Q := ∃ c ∈ cs, c.Exceeds d) fun holds _ =>
      ?_).congr (by simp)
    exact (answers_broken d cs).map fun others => if holds then others else ⟨c, d⟩ :: others

/-- A constraint is compared with a list of others, unless it is not with one of them. -/
theorem answers_conflictsWith (c : Constraint) : ∀ others : List Constraint,
    AnswersUnless (∃ other ∈ others, other.Incomparable c) (conflictsWith c others)
  | [] => .of_ok (by simp)
  | other :: others => by
    refine ((other.answers_findConflict c).bind (Q := ∃ other ∈ others, other.Incomparable c)
      fun found _ => ?_).congr
      (by simp)
    exact (answers_conflictsWith c others).map fun kinds => found.toList ++ kinds

variable (r : Registry) (s : String) (c : Constraint) (d : Datum)

/-- A registry judges a value, unless a double is needed that there is not. -/
theorem answers_violations : AnswersUnless (r.Exceeds (.text s) d) (r.violations (.text s) d) :=
  answers_broken d (r.constraintsAt (.text s))

/-- An overview of the constraints of a target is given if the numbers of all of them have
doubles. -/
theorem answers_summary :
    AnswersUnless (∃ c ∈ r.constraintsAt (.text s), ¬ c.rule.Convertible) (r.summary (.text s)) :=
  AnswersUnless.mapM (fun c => c.rule.answers_describe.map _) (r.constraintsAt (.text s))

/-- A value is refused, with the descriptions of the constraints that it breaks, exactly if it
breaks any, unless a double is needed that there is not. -/
theorem check_of_within {r : Registry} {s : String} {d : Datum} (h : ¬ r.Overflows (.text s) d) :
    ∃ rules, (r.breached (.text s) d).mapM Constraint.describe = .ok rules ∧
      r.check (.text s) d = if r.breached (.text s) d = [] then .ok ()
      else .error (.violation s rules) := by
  obtain ⟨hjudged, hdescribed⟩ := not_or.1 h
  have hanswers : ∀ c ∈ r.constraintsAt (.text s), ∃ holds, c.satisfies d = .ok holds := fun c hc =>
    (c.answers_satisfies d).answer fun hexceeds => hjudged ⟨c, hc, hexceeds⟩
  have hconvertible : ∀ c ∈ r.breached (.text s) d, c.rule.Convertible := fun c hc => by
    by_contra hlarge
    exact hdescribed ⟨c, (mem_breached.1 hc).1, (mem_breached.1 hc).2, hlarge⟩
  obtain ⟨rules, hrules⟩ := exists_descriptions hconvertible
  refine ⟨rules, hrules, ?_⟩
  have hviolations : r.violations (.text s) d = .ok ((r.breached (.text s) d).map (⟨·, d⟩)) :=
    broken_of_answers hanswers
  have hof : rulesOf ((r.breached (.text s) d).map (⟨·, d⟩)) = .ok rules := by
    rw [rulesOf, List.mapM_map]
    exact hrules
  rw [check, hviolations, ok_bind, hof]
  simp only [List.isEmpty_iff, List.map_eq_nil_iff]
  rfl

/-- A value is checked, unless a double is needed that there is not. -/
theorem refuses_check : RefusesUnless (r.Overflows (.text s) d) (r.check (.text s) d) := by
  refine ⟨fun h => ?_, fun h fault hfault => ?_⟩
  · by_cases hjudged : r.Exceeds (.text s) d
    · rw [check, (r.answers_violations s d).large hjudged, error_bind]
    · obtain ⟨c, hc, hbroken, hlarge⟩ := h.resolve_left hjudged
      have hviolations : r.violations (.text s) d = .ok ((r.breached (.text s) d).map (⟨·, d⟩)) :=
        broken_of_answers fun c hc => (c.answers_satisfies d).answer fun hexceeds =>
          hjudged ⟨c, hc, hexceeds⟩
      have hmem : c ∈ r.breached (.text s) d := mem_breached.2 ⟨hc, hbroken⟩
      have hof : rulesOf ((r.breached (.text s) d).map (⟨·, d⟩)) =
          .error (.datum .tooLargeForDouble) := by
        rw [rulesOf, List.mapM_map]
        exact (AnswersUnless.mapM (fun c => c.rule.answers_describe) _).large ⟨c, hmem, hlarge⟩
      rw [check, hviolations, ok_bind, hof, if_neg (by simpa using List.ne_nil_of_mem hmem),
        error_bind]
  · obtain ⟨rules, -, hcheck⟩ := check_of_within h
    rw [hcheck] at hfault
    split at hfault <;> cases hfault
    rfl

/-- A constraint is attached or refused, unless a double is needed that there is not, or the
identity is taken and cannot be written. -/
theorem refuses_add : (∃ fault, c.id.plain = .error fault ∧ r.add (.ofText s) c = .error fault) ∨
    RefusesUnless (r.Incomparable (.text s) c) (r.add (.ofText s) c) := by
  simp only [add]
  split
  · next htaken =>
    cases hshown : c.id.plain with
    | error fault => exact .inl ⟨fault, rfl, rfl⟩
    | ok shown =>
      refine .inr (.of_error rfl ?_)
      rintro ⟨hnew, -⟩
      obtain ⟨other, hother, hequal⟩ := List.any_eq_true.1 htaken
      rw [hnew other hother] at hequal
      cases hequal
  · next hnew =>
    have hids : ∀ other ∈ r.constraintsAt (.text s), other.id.equal c.id = false :=
      fun other hother => by
      simpa using fun htaken => hnew (List.any_eq_true.2 ⟨other, hother, htaken⟩)
    refine .inr (((answers_conflictsWith c _).refuses.bind (q := fun _ => False) fun kinds _ =>
      ?_).congr ?_)
    · split
      · exact (AnswersUnless.of_ok not_false).refuses
      · exact .of_error rfl not_false
    · simp only [and_false, exists_false, or_false]
      exact (and_iff_right hids).symm

end Registry

end EquationStudio
