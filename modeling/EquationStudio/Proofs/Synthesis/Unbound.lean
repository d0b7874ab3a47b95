import EquationStudio.Proofs.Synthesis.Simplified
import EquationStudio.Proofs.Synthesis.Value

/-!
# Variables without a value

Whether a variable has a value is asked of the expression that the algebra has built, and by then
the variable may have dropped out of it. No other comes in: the symbols of the expression are names
in the formula that are not bound (`Formula.over_fold`), and these are what a refusal names. What is
built is right all the same, where exponents have no unbound variables: it is the value of the
formula for whatever values the unbound variables are given (`Formula.HasValue.meets`), so a value
that is returned without them is the one that all values for them would give.
`Diagram.EvaluatesPartly` puts this together for a diagram.
-/

namespace EquationStudio

/-! ## Names and values -/

namespace Formula

/-- The names of the variables in a formula. -/
def names : Formula → List String
  | symbol name => [name]
  | join _ left right => left.names ++ right.names
  | number _ | loose _ => []

/-- No exponent has an unbound variable. -/
def ExponentsBound (values : Fields) : Formula → Prop
  | join op left right => left.ExponentsBound values ∧ right.ExponentsBound values ∧
      (op = .power → ∀ name ∈ right.names, (Fields.get? values name).isSome = true)
  | number _ | symbol _ | loose _ => True

end Formula

/-- Values of which others keep all. -/
def Fields.Extends (values values' : Fields) : Prop :=
  ∀ name d, Fields.get? values name = some d → Fields.get? values' name = some d

/-- The rational that a name is bound to, if it is bound to a number. -/
def Fields.rational (values : Fields) (name : String) : ℚ :=
  match (Fields.get? values name).map Number.ofDatum with
  | some (.ok v) => v.literalValue
  | _ => 0

/-- A formula has a value without the values of names that are not in it. -/
theorem Formula.HasValue.of_bound {values values' : Fields} {t : Formula} {q : ℚ}
    (h : t.HasValue values' q) (hext : values.Extends values')
    (hbound : ∀ name ∈ t.names, (Fields.get? values name).isSome = true) :
    t.HasValue values q := by
  induction h with
  | number h => exact .number h
  | @symbol name d v q hd hv h =>
    obtain ⟨d', hd'⟩ := Option.isSome_iff_exists.1 (hbound name (List.mem_singleton_self name))
    cases (hext _ _ hd').symm.trans hd
    exact .symbol hd' hv h
  | add _ _ ihl ihr =>
    obtain ⟨hl, hr⟩ := List.forall_mem_append.1 hbound
    exact .add (ihl hl) (ihr hr)
  | subtract _ _ ihl ihr =>
    obtain ⟨hl, hr⟩ := List.forall_mem_append.1 hbound
    exact .subtract (ihl hl) (ihr hr)
  | multiply _ _ ihl ihr =>
    obtain ⟨hl, hr⟩ := List.forall_mem_append.1 hbound
    exact .multiply (ihl hl) (ihr hr)
  | divide _ _ hb ihl ihr =>
    obtain ⟨hl, hr⟩ := List.forall_mem_append.1 hbound
    exact .divide (ihl hl) (ihr hr) hb
  | power _ _ hzero hdigits ihl ihr =>
    obtain ⟨hl, hr⟩ := List.forall_mem_append.1 hbound
    exact .power (ihl hl) (ihr hr) hzero hdigits

section
variable {A : SymbolicAlgebra}

/-- A name without a value is not bound. -/
theorem SymbolicAlgebra.find?_readBindings_eq_none {values : Fields} {b : A.Bindings}
    {name : String} (hb : A.readBindings values = .ok b) (hname : Fields.get? values name = none) :
    b.find? (·.1 == name) = none := by
  induction values generalizing b with
  | nil => cases hb; rfl
  | cons f values ih =>
    obtain ⟨b', hb', hcons⟩ := readBindings_cons hb
    have hget : ¬ (f.1 == name) = true ∧ Fields.get? values name = none := by
      rw [Fields.get?, List.find?_cons] at hname
      split at hname
      · cases hname
      · next h => exact ⟨by simp [h], hname⟩
    obtain ⟨-, rfl⟩ | ⟨v, -, rfl⟩ := hcons
    · exact ih hb' hget.2
    · rw [List.find?_cons, Bool.eq_false_iff.2 hget.1]
      exact ih hb' hget.2

/-- Values that agree on a name bind it to the same. -/
theorem SymbolicAlgebra.find?_readBindings_congr {values values' : Fields} {b b' : A.Bindings}
    {name : String} (hvalues : ∀ f ∈ values, ∃ v, Number.ofDatum f.2 = .ok v)
    (hb : A.readBindings values = .ok b) (hb' : A.readBindings values' = .ok b')
    (hsame : Fields.get? values' name = Fields.get? values name) :
    (b'.find? (·.1 == name)).map Prod.snd = (b.find? (·.1 == name)).map Prod.snd := by
  cases hget : Fields.get? values name with
  | none =>
    rw [find?_readBindings_eq_none hb hget, find?_readBindings_eq_none hb' (hsame.trans hget)]
  | some d =>
    obtain ⟨f, hf, rfl⟩ := Option.map_eq_some_iff.1 hget
    obtain ⟨v, hv⟩ := hvalues f (List.mem_of_find?_eq_some hf)
    rw [find?_readBindings hb hget hv, find?_readBindings hb' (hsame.trans hget) hv]

/-- Names are bound to rationals. -/
theorem SymbolicAlgebra.exists_rational_of_readBindings {values : Fields} {b : A.Bindings}
    (hb : A.readBindings values = .ok b) : ∀ p ∈ b, ∃ q, p.2 = A.rational q := by
  induction values generalizing b with
  | nil => cases hb; exact fun _ hp => absurd hp List.not_mem_nil
  | cons f values ih =>
    obtain ⟨b', hb', hcons⟩ := readBindings_cons hb
    obtain ⟨-, rfl⟩ | ⟨v, -, rfl⟩ := hcons
    · exact ih hb'
    · exact List.forall_mem_cons.2 ⟨⟨_, rfl⟩, ih hb'⟩

/-! ## What the algebra builds -/

/-- The algebra looks up the names in a formula only. -/
theorem Formula.fold_congr {b b' : A.Bindings} {t : Formula} (h : ∀ name ∈ t.names,
    (b'.find? (·.1 == name)).map Prod.snd = (b.find? (·.1 == name)).map Prod.snd) :
    t.fold (A.emitter b') = t.fold (A.emitter b) := by
  induction t with
  | number | loose => rfl
  | symbol name =>
    rw [Formula.fold, Formula.fold, SymbolicAlgebra.emitter, SymbolicAlgebra.emitter]
    dsimp only
    rw [h name (List.mem_singleton_self name)]
  | join op left right ihl ihr =>
    obtain ⟨hl, hr⟩ := List.forall_mem_append.1 h
    rw [Formula.fold, Formula.fold, ihl hl, ihr hr]
    rfl

section
variable (hA : A.Exact) (hC : A.Converts) (hS : A.Scoped) (V : A.Valuation)
include hA hC hS

/-- A power is not refused if its base has a value of few enough digits: a base that is a number is
that value. -/
theorem SymbolicAlgebra.boundedPower_of_meets {ρ : String → ℚ} {e : A.Form} {q : ℚ} {n : ℤ}
    (he : V.Meets ρ e q) (hdigits : q ≠ 0 → |(n : ℝ) * Real.logb 10 (|(q : ℝ)|)| ≤ 9999) :
    A.boundedPower e (A.rational n) = .ok (A.pow e (A.rational n)) := by
  cases hnumber : A.isNumber e with
  | true =>
    rw [V.constant he (hS.isNumber e hnumber)]
    exact boundedPower_rational hA hC (by exact_mod_cast hdigits)
  | false =>
    rw [boundedPower, tooManyDigits?, hnumber]
    rfl

/-- What the algebra builds of a formula, with values for some of its variables, is the value that
the formula has with values for all of them. -/
theorem Formula.HasValue.meets {values values' : Fields} {b : A.Bindings} {t : Formula} {q : ℚ}
    (h : t.HasValue values' q) (hb : A.readBindings values = .ok b)
    (hext : values.Extends values') (hexponents : t.ExponentsBound values) :
    ∃ e, t.Builds b e ∧ V.Meets values'.rational e q := by
  induction h with
  | number h => exact ⟨_, builds_number h, V.rational _ _⟩
  | @symbol name d v q hd hv h =>
    cases hget : Fields.get? values name with
    | none =>
      rw [Number.decimal?_literal] at h
      cases h
      have hrational : values'.rational name = v.literalValue := by
        rw [Fields.rational, hd, Option.map_some, hv]
      refine ⟨A.symbol name, ?_, hrational ▸ V.symbol _ name⟩
      rw [Builds, fold, SymbolicAlgebra.emitter]
      dsimp only
      rw [SymbolicAlgebra.find?_readBindings_eq_none hb hget]
      rfl
    | some d' =>
      cases (hext name d' hget).symm.trans hd
      exact ⟨_, builds_symbol hb hget hv h, V.rational _ _⟩
  | add _ _ ihl ihr =>
    obtain ⟨x, hx, hp⟩ := ihl hexponents.1
    obtain ⟨y, hy, hq⟩ := ihr hexponents.2.1
    exact ⟨_, hx.fold_join hy, V.add hp hq⟩
  | subtract _ _ ihl ihr =>
    obtain ⟨x, hx, hp⟩ := ihl hexponents.1
    obtain ⟨y, hy, hq⟩ := ihr hexponents.2.1
    exact ⟨_, hx.fold_join hy, V.sub hp hq⟩
  | multiply _ _ ihl ihr =>
    obtain ⟨x, hx, hp⟩ := ihl hexponents.1
    obtain ⟨y, hy, hq⟩ := ihr hexponents.2.1
    exact ⟨_, hx.fold_join hy, V.mul hp hq⟩
  | divide _ _ hne ihl ihr =>
    obtain ⟨x, hx, hp⟩ := ihl hexponents.1
    obtain ⟨y, hy, hq⟩ := ihr hexponents.2.1
    exact ⟨_, hx.fold_join hy, V.div hp hq hne⟩
  | power _ hright hzero hdigits ihl _ =>
    obtain ⟨x, hx, hp⟩ := ihl hexponents.1
    have hy := (hright.of_bound hext (hexponents.2.2 rfl)).builds hA hC hb
    have hbounded := SymbolicAlgebra.boundedPower_of_meets hA hC hS V hp hdigits
    exact ⟨_, hx.power hy hbounded, V.pow hp hzero⟩

end

/-- Operations invent no symbols. -/
theorem SymbolicAlgebra.Scoped.combine (hS : A.Scoped) {op : Operator} {x y : A.Operand}
    {names : List String} {e : A.Form} (hx : ∀ a, x = some a → A.names a ⊆ names)
    (hy : ∀ a, y = some a → A.names a ⊆ names) (h : A.combine op x y = .ok (some e)) :
    A.names e ⊆ names := by
  cases x with
  | none => cases op <;> cases h
  | some a =>
    cases y with
    | none =>
      obtain ⟨fault, hfault⟩ : ∃ fault, A.combine op (some a) none = .error fault :=
        SymbolicAlgebra.exists_fault_of_none (.inr rfl)
      cases h.symm.trans hfault
    | some c =>
      have hboth : A.names a ++ A.names c ⊆ names := List.append_subset.2 ⟨hx a rfl, hy c rfl⟩
      cases op with
      | add => cases h; exact List.Subset.trans (hS.add a c) hboth
      | subtract => cases h; exact List.Subset.trans (hS.sub a c) hboth
      | multiply => cases h; exact List.Subset.trans (hS.mul a c) hboth
      | divide => cases h; exact List.Subset.trans (hS.div a c) hboth
      | power =>
        obtain ⟨e', hpower, h⟩ := ok_of_bind h
        cases h
        unfold boundedPower at hpower
        split at hpower
        · cases hpower
        · cases hpower
          exact List.Subset.trans (hS.pow a c) hboth

/-- The symbols of what the algebra builds of a formula are names in it that are not bound. -/
theorem Formula.Builds.names (hA : A.Exact) (hS : A.Scoped) {b : A.Bindings} {names : List String}
    {t : Formula} {e : A.Form} (he : t.Builds b e) (hb : ∀ p ∈ b, ∃ q, p.2 = A.rational q)
    (hnames : ∀ name ∈ t.names, b.find? (·.1 == name) = none → name ∈ names) :
    A.names e ⊆ names := by
  induction t generalizing e with
  | number v =>
    cases he
    rw [hA.names]
    exact List.nil_subset _
  | loose n => cases he
  | symbol name =>
    rw [Builds, fold, SymbolicAlgebra.emitter] at he
    cases he
    cases hfound : b.find? (·.1 == name) with
    | none =>
      have hmem := hnames name (List.mem_singleton_self name) hfound
      exact List.Subset.trans (hS.symbol name) (List.cons_subset.2 ⟨hmem, List.nil_subset _⟩)
    | some p =>
      obtain ⟨q, hq⟩ := hb p (List.mem_of_find?_eq_some hfound)
      show A.names p.2 ⊆ names
      rw [hq, hA.names]
      exact List.nil_subset _
  | join op left right ihl ihr =>
    obtain ⟨hl, hr⟩ := List.forall_mem_append.1 hnames
    obtain ⟨x, hx, he⟩ := ok_of_bind he
    obtain ⟨y, hy, he⟩ := ok_of_bind he
    refine hS.combine ?_ ?_ he
    · rintro a rfl
      exact ihl hx hl
    · rintro a rfl
      exact ihr hy hr

/-- With values that are read for some of the variables, they are variables without one. -/
theorem Formula.Builds.unbound (hA : A.Exact) (hS : A.Scoped) {b : A.Bindings} {values : Fields}
    (hnumbers : ∀ f ∈ values, ∃ v, Number.ofDatum f.2 = .ok v) (hb : A.readBindings values = .ok b)
    {t : Formula} {e : A.Form} (he : t.Builds b e) :
    ∀ name ∈ A.names e, name ∈ t.names ∧ Fields.get? values name = none := by
  have hnames : A.names e ⊆ t.names.filter fun name => (b.find? (·.1 == name)).isNone :=
    Formula.Builds.names hA hS he (SymbolicAlgebra.exists_rational_of_readBindings hb)
      fun name hname hnone => List.mem_filter.2 ⟨hname, by rw [hnone]; rfl⟩
  intro name hname
  obtain ⟨hname, hnone⟩ := List.mem_filter.1 (hnames hname)
  refine ⟨hname, Option.eq_none_iff_forall_ne_some.2 fun d hd => ?_⟩
  -- A name with a value is bound to it.
  obtain ⟨f, hf, rfl⟩ := Option.map_eq_some_iff.1 hd
  obtain ⟨v, hv⟩ := hnumbers f (List.mem_of_find?_eq_some hf)
  have hbound := SymbolicAlgebra.find?_readBindings hb hd hv
  rw [Option.isNone_iff_eq_none.1 hnone] at hbound
  cases hbound

/-! ## Values -/

/-- What is refused as unbound are the symbols of a form, in order. -/
theorem SymbolicAlgebra.value_eq_unbound {e : A.Form} {unbound : List String} :
    A.value e = .error (.refusal (.unbound unbound)) ↔
      (A.names e).mergeSort (· ≤ ·) = unbound ∧ unbound ≠ [] := by
  constructor
  · intro h
    unfold value at h
    split at h
    · split at h
      · cases h
      split at h
      · obtain h | ⟨_, -, h⟩ := error_of_bind h
        · obtain ⟨_, -, h⟩ := error_of_mapError h
          cases h
        · cases h
      split at h <;> cases h
    · next hsome =>
      cases h
      exact ⟨rfl, hsome⟩
  · rintro ⟨rfl, hsome⟩
    unfold value
    split
    · next h => exact absurd h hsome
    · rfl

/-- A form with a symbol is refused as unbound. -/
theorem SymbolicAlgebra.exists_unbound_of_names {e : A.Form} (h : A.names e ≠ []) :
    ∃ unbound, A.value e = .error (.refusal (.unbound unbound)) := by
  obtain ⟨name, hname⟩ := List.exists_mem_of_ne_nil _ h
  exact ⟨_, value_eq_unbound.2 ⟨rfl, List.ne_nil_of_mem (List.mem_mergeSort.2 hname)⟩⟩

end

namespace Diagram

/-- What becomes of a complete formula when it is evaluated with values for some of its
variables. -/
structure EvaluatesPartly (g : Diagram) (A : SymbolicAlgebra) (sink : Datum) (t : Formula)
    (values : Fields) : Prop where
  /-- Values for names that are not in the formula make no difference. -/
  unreached : ∀ values', g.Accepts values' →
    (∀ name ∈ t.names, Fields.get? values' name = Fields.get? values name) →
      g.evaluate (.record values') sink A = g.evaluate (.record values) sink A
  /-- What is refused as unbound is in the formula and unbound. -/
  refused : ∀ unbound,
    g.evaluate (.record values) sink A = .error (.refusal (.unbound unbound)) →
      unbound ≠ [] ∧ ∀ name ∈ unbound, name ∈ t.names ∧ Fields.get? values name = none
  /-- If the formula has a value with some values besides those that are bound, and no exponent has
  an unbound variable, then it is refused as unbound, or evaluated to the value that it has with any
  such values, which is the same for all of them. -/
  defined : t.ExponentsBound values →
    (∃ values' q, values.Extends values' ∧ t.HasValue values' q) →
      (∃ unbound, g.evaluate (.record values) sink A = .error (.refusal (.unbound unbound))) ∨
        ∃ r, g.evaluate (.record values) sink A = .ok (Double.ofRatTwice r) ∧
          ∀ values' q, values.Extends values' → t.HasValue values' q → q = r ∧
            (g.Accepts values' →
              g.evaluate (.record values') sink A = .ok (Double.ofRatTwice r))

/-- How a complete diagram is evaluated with values for some of its variables, whatever run of edits
it comes from. The algebra has to be exact on rationals, and its operations may neither invent
symbols nor change values. -/
theorem evaluate_unbound {A : SymbolicAlgebra} (hA : A.Exact) (hC : A.Converts) (hS : A.Scoped)
    (V : A.Valuation) {edits : List Edit} {supply : Supply} {sink : Datum} {s : Synthesis}
    (hs : (run edits supply).synthesize sink = .ok s) (hc : s.complete = true) {t : Formula}
    (ht : (run edits supply).Expresses sink t) {values : Fields}
    (hvalues : (run edits supply).Accepts values) :
    (run edits supply).EvaluatesPartly A sink t values := by
  have hg := Keyed.run edits supply
  obtain ⟨b, hb, hchecked⟩ := hvalues.checkedBindings A
  have hevaluate := evaluate_eq hg hs hc ht hchecked
  refine ⟨fun values' hvalues' hsame => ?_, fun unbound hunbound => ?_,
    fun hexponents ⟨values', q, hext, hq⟩ => ?_⟩
  · obtain ⟨b', hb', hchecked'⟩ := hvalues'.checkedBindings A
    rw [hevaluate, evaluate_eq hg hs hc ht hchecked', Formula.fold_congr fun name hname =>
      SymbolicAlgebra.find?_readBindings_congr hvalues.numbers hb hb' (hsame name hname)]
  · rw [hevaluate] at hunbound
    obtain ⟨e, he⟩ | ⟨fault, hfault, hpower⟩ := t.fold_of_looseNodes_nil (b := b)
      (((hg.algebraic_of_shows hs ht.shows A).1).1 hc)
    · rw [he, ok_bind] at hunbound
      obtain ⟨hsorted, hsome⟩ := SymbolicAlgebra.value_eq_unbound.1 hunbound
      refine ⟨hsome, fun name hname =>
        Formula.Builds.unbound hA hS hvalues.numbers hb he name ?_⟩
      rwa [← hsorted, List.mem_mergeSort] at hname
    · rw [hfault] at hunbound
      cases hunbound
      obtain ⟨digits, hdigits⟩ := hpower
      cases hdigits
  · -- What is built does not depend on the further values, but is right for all of them.
    obtain ⟨e, he, hmeets⟩ := hq.meets hA hC hS V hb hext hexponents
    rw [hevaluate, he, ok_bind]
    dsimp only
    obtain hnames | hnames := ne_or_eq (A.names e) []
    · exact .inl (SymbolicAlgebra.exists_unbound_of_names hnames)
    · have hnumber := V.constant hmeets hnames
      refine .inr ⟨q, hnumber ▸ A.value_rational hA hC q, fun values'' q' hext' hq' => ?_⟩
      obtain ⟨e', he', hmeets'⟩ := hq'.meets hA hC hS V hb hext' hexponents
      obtain rfl := Formula.Builds.unique he he'
      have hsame : q' = q := hA.injective ((V.constant hmeets' hnames).symm.trans hnumber)
      refine ⟨hsame, fun haccepts => ?_⟩
      rw [evaluate_of_value hA hC hg hs hc ht haccepts hq', hsame]

/-- A variable divided by itself. -/
def quotientOfSelf : List Edit := [
  .create (.text "variable") .null .null, .setVariable (.text "n1") (.text "x"),
  .create (.text "divide") .null .null, .create (.text "output") .null .null,
  .connect (.text "n1") (.text "n2") (.int 0), .connect (.text "n1") (.text "n2") (.int 1),
  .connect (.text "n2") (.text "n3") (.int 0)]

/-- The quotient, as a formula. -/
def quotient : Formula := .join .divide (.symbol "x") (.symbol "x")

/-- A variable divided by itself is one without a value for it, as it is with any value for which it
is defined. -/
theorem evaluate_unbound_quotient :
    ∃ r, (run quotientOfSelf {}).evaluate (.record []) .null = .ok (Double.ofRatTwice r) ∧
    ∀ values q, quotient.HasValue values q → q = r := by
  obtain ⟨s, hs, hc, hexpresses⟩ :=
    (Keyed.run quotientOfSelf {}).expresses_of_text .null (t := quotient)
    (by decide +kernel) (by decide +kernel)
  have hread : Number.ofDatum (.int 2) = .ok (.whole 2) := by decide +kernel
  have htwo : (Formula.symbol "x").HasValue [("x", .int 2)] 2 :=
    .symbol rfl hread (by decide +kernel)
  have hevaluated : ((run quotientOfSelf {}).evaluate (.record []) .null).toOption.isSome = true :=
    by decide +kernel
  obtain ⟨unbound, hrefused⟩ | ⟨r, hvalue, hunique⟩ := (evaluate_unbound Expr.algebra_exact
    Expr.algebra_converts Expr.algebra_scoped Expr.algebraValuation hs hc hexpresses
    (accepts_nil _)).defined ⟨trivial, trivial, nofun⟩ ⟨_, _, nofun, .divide htwo htwo two_ne_zero⟩
  · rw [hrefused] at hevaluated
    cases hevaluated
  · exact ⟨r, hvalue, fun values q hq => (hunique values q nofun hq).1⟩

/-- A variable that is behind the sink and unbound does not keep the quotient from being evaluated,
and the value zero for it does. -/
theorem evaluate_cancelled : (∃ s, (run quotientOfSelf {}).synthesize .null = .ok s ∧
    s.complete = true) ∧
    (run quotientOfSelf {}).Expresses .null quotient ∧ "x" ∈ quotient.names ∧
    (run quotientOfSelf {}).evaluate .null .null = .ok (Double.ofRatTwice 1) ∧
    (run quotientOfSelf {}).evaluate (.record [("x", .int 0)]) .null =
    .error (.refusal .dividesByZero) := by
  obtain ⟨s, hs, hc, hexpresses⟩ :=
    (Keyed.run quotientOfSelf {}).expresses_of_text .null (t := quotient)
    (by decide +kernel) (by decide +kernel)
  exact ⟨⟨s, hs, hc⟩, hexpresses, List.mem_cons_self, by decide +kernel, by decide +kernel⟩

end Diagram

end EquationStudio
