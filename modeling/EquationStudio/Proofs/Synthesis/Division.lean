import EquationStudio.Proofs.Algebra.Lawful
import EquationStudio.Proofs.Synthesis.Amount

/-!
# Divisions by zero

A division by zero leaves the infinity or the undefined value behind, and only what is left at the
end is refused. `Formula.DividesByZero` says that zero is built for a divisor somewhere in a
formula, a zero to a negative power counting as one. `Formula.Exposes` says that the division is not
hidden again by the operators above, and `Formula.Hides` how they hide it: a number divided by the
infinity is zero, and so is a negative power of the infinity; anything to the power zero is one.

What shows is built in the end (`Formula.Exposes.remains`) and refused, what is hidden is evaluated
(`Diagram.evaluate_division`). Of formulas that amount to something it is known which of the two
happens (`Formula.Amounts.exposes_iff`).
-/

namespace EquationStudio

/-! ## What operators make of the remains of a division by zero -/

namespace SymbolicAlgebra.Extension

variable {A : SymbolicAlgebra} (E : A.Extension) {e f : A.Form}

/-- Sums and differences with the remains of a division by zero are such remains. -/
theorem remains_add (he : E.Remains e) (hf : E.Ordinary f) :
    (E.Remains (A.add e f) ∧ E.Remains (A.add f e)) ∧
      E.Remains (A.sub e f) ∧ E.Remains (A.sub f e) := by
  obtain rfl | rfl := he
  · obtain hf | rfl | rfl := hf
    · exact ⟨⟨.inl (E.infinite_add f hf), .inl (E.add_infinite f hf)⟩,
        .inl (E.infinite_sub f hf), .inl (E.sub_infinite f hf)⟩
    · exact ⟨⟨.inr E.infinite_add_infinite, .inr E.infinite_add_infinite⟩,
        .inr E.infinite_sub_infinite, .inr E.infinite_sub_infinite⟩
    · have hadd := E.undefined_add E.infinite (.inr (.inl rfl))
      have hsub := E.undefined_sub E.infinite (.inr (.inl rfl))
      exact ⟨⟨.inr hadd.1, .inr hadd.2⟩, .inr hsub.1, .inr hsub.2⟩
  · have hadd := E.undefined_add f hf
    have hsub := E.undefined_sub f hf
    exact ⟨⟨.inr hadd.2, .inr hadd.1⟩, .inr hsub.2, .inr hsub.1⟩

/-- So are products. -/
theorem remains_mul (he : E.Remains e) (hf : E.Ordinary f) :
    E.Remains (A.mul e f) ∧ E.Remains (A.mul f e) := by
  have hite : ∀ g, E.Remains (if A.isZero g then E.undefined else E.infinite) := fun g => by
    split
    · exact .inr rfl
    · exact .inl rfl
  obtain rfl | rfl := he
  · obtain hf | rfl | rfl := hf
    · rw [E.infinite_mul f hf, E.mul_infinite f hf]
      exact ⟨hite f, hite f⟩
    · exact ⟨.inl E.infinite_mul_infinite, .inl E.infinite_mul_infinite⟩
    · have hmul := E.undefined_mul E.infinite (.inr (.inl rfl))
      exact ⟨.inr hmul.1, .inr hmul.2⟩
  · exact ⟨.inr (E.undefined_mul f hf).2, .inr (E.undefined_mul f hf).1⟩

/-- So are quotients, if they are divided. -/
theorem remains_div (he : E.Remains e) (hf : E.Ordinary f) : E.Remains (A.div e f) := by
  obtain rfl | rfl := he
  · obtain hf | rfl | rfl := hf
    · exact .inl (E.infinite_div f hf)
    · exact .inr E.infinite_div_infinite
    · exact .inr (E.undefined_div E.infinite (.inr (.inl rfl))).1
  · exact .inr (E.undefined_div f hf).2

/-- A quotient with the divisor zero leaves such remains. -/
theorem remains_div_zero (he : E.Ordinary e) : E.Remains (A.div e (A.rational 0)) := by
  obtain he | he := he
  · rw [E.div_zero e he]
    split
    · exact .inr rfl
    · exact .inl rfl
  · exact E.remains_div he (.inl (E.known_rational 0))

/-- Powers with such remains for an exponent are undefined. -/
theorem remains_pow (hf : E.Remains f) : E.Remains (A.pow e f) := by
  obtain rfl | rfl := hf
  · exact .inr (E.pow_infinite e)
  · exact .inr (E.pow_undefined e)

/-- A form with such remains has no value. -/
theorem value_remains (he : E.Remains e) : A.value e = .error (.refusal .dividesByZero) := by
  have hnone : A.names e = [] := by
    obtain rfl | rfl := he
    · exact E.names_infinite
    · exact E.names_undefined
  have hsingular : A.isSingular e = true := by
    obtain rfl | rfl := he
    · exact E.isSingular_infinite
    · exact E.isSingular_undefined
  unfold value
  rw [hnone, List.mergeSort_nil, hsingular]
  rfl

/-- No rational is left of a division by zero. -/
theorem not_remains_rational (hA : A.Exact) (q : ℚ) : ¬ E.Remains (A.rational q) := by
  rintro (h | h)
  · have hsingular := E.isSingular_infinite
    rw [← h, hA.isSingular] at hsingular
    cases hsingular
  · have hsingular := E.isSingular_undefined
    rw [← h, hA.isSingular] at hsingular
    cases hsingular

end SymbolicAlgebra.Extension

namespace Formula

variable {A : SymbolicAlgebra} {E : A.Extension} {b : A.Bindings}

/-! ## Formulas with divisions by zero -/

section
variable (E b)

/-- Somewhere in a formula zero is built for a divisor, or is raised to a negative power. -/
inductive DividesByZero : Formula → Prop
  | divisor {left right : Formula} (hr : right.Builds b (A.rational 0)) :
      DividesByZero (.join .divide left right)
  | inverse {left right : Formula} {f : A.Form} (hl : left.Builds b (A.rational 0))
      (hr : right.Builds b f) (hneg : E.Negative f) : DividesByZero (.join .power left right)
  | left {op : Operator} {left right : Formula} (h : DividesByZero left) :
      DividesByZero (.join op left right)
  | right {op : Operator} {left right : Formula} (h : DividesByZero right) :
      DividesByZero (.join op left right)

/-- A division by zero shows: no operator above hides it, and what stands beside it has its place
among numbers. -/
inductive Exposes : Formula → Prop
  | divisor {left right : Formula} {e : A.Form} (hl : left.Builds b e) (he : E.Ordinary e)
      (hr : right.Builds b (A.rational 0)) : Exposes (.join .divide left right)
  | inverse {left right : Formula} {f : A.Form} (hl : left.Builds b (A.rational 0))
      (hr : right.Builds b f) (hneg : E.Negative f) : Exposes (.join .power left right)
  /-- Sums, products and dividends let it through. -/
  | left {op : Operator} {left right : Formula} {f : A.Form} (hop : op ≠ .power)
      (h : Exposes left) (hr : right.Builds b f) (hf : E.Ordinary f) :
      Exposes (.join op left right)
  /-- So do sums and products on their other sides. -/
  | right {op : Operator} {left right : Formula} {e : A.Form} (hdivide : op ≠ .divide)
      (hpower : op ≠ .power) (hl : left.Builds b e) (he : E.Ordinary e) (h : Exposes right) :
      Exposes (.join op left right)
  /-- A divisor that is the infinity gives zero, but one that is undefined leaves the quotient
  undefined. -/
  | undefinedDivisor {left right : Formula} {e : A.Form} (hl : left.Builds b e) (he : E.Ordinary e)
      (h : Exposes right) (hr : right.Builds b E.undefined) : Exposes (.join .divide left right)
  /-- Exponents let it through. -/
  | exponent {left right : Formula} {e : A.Form} (hl : left.Builds b e) (h : Exposes right) :
      Exposes (.join .power left right)
  /-- The infinity to a positive power is the infinity. -/
  | base {left right : Formula} {r : ℚ} (h : Exposes left) (hr : right.Builds b (A.rational r))
      (hpos : 0 < r) : Exposes (.join .power left right)
  /-- The undefined value is hidden by the power zero only. -/
  | undefinedBase {left right : Formula} {r : ℚ} (h : Exposes left)
      (hl : left.Builds b E.undefined) (hr : right.Builds b (A.rational r)) (hne : r ≠ 0) :
      Exposes (.join .power left right)

/-- The operator of a formula hides a division by zero that shows in an operand, and leaves a
rational. -/
inductive Hides : Formula → ℚ → Prop
  | divisor {left right : Formula} {e : A.Form} (hl : left.Builds b e) (he : E.Known e)
      (h : Exposes E b right) (hr : right.Builds b E.infinite) : Hides (.join .divide left right) 0
  | inverse {left right : Formula} {r : ℚ} (h : Exposes E b left) (hl : left.Builds b E.infinite)
      (hr : right.Builds b (A.rational r)) (hneg : r < 0) : Hides (.join .power left right) 0
  | zeroth {left right : Formula} (h : Exposes E b left) (hr : right.Builds b (A.rational 0)) :
      Hides (.join .power left right) 1

end

variable {t : Formula}

/-- A division by zero that shows is one. -/
theorem Exposes.dividesByZero (h : t.Exposes E b) : t.DividesByZero E b := by
  induction h with
  | divisor _ _ hr => exact .divisor hr
  | inverse hl hr hneg => exact .inverse hl hr hneg
  | left _ _ _ _ ih | base _ _ _ ih | undefinedBase _ _ _ _ ih => exact .left ih
  | right _ _ _ _ _ ih | undefinedDivisor _ _ _ _ ih | exponent _ _ ih => exact .right ih

/-- Where a division by zero shows, the infinity or the undefined value is built. -/
theorem Exposes.remains (hA : A.Exact) (h : t.Exposes E b) : ∃ e, t.Builds b e ∧ E.Remains e := by
  induction h with
  | divisor hl he hr => exact ⟨_, hl.fold_join hr, E.remains_div_zero he⟩
  | @inverse _ _ f hl hr hneg =>
    have hbounded : A.boundedPower (A.rational 0) f = .ok (A.pow (A.rational 0) f) := by
      rw [SymbolicAlgebra.boundedPower, SymbolicAlgebra.tooManyDigits?_zero hA]
    exact ⟨_, hl.power hr hbounded, .inl (E.zero_pow f hneg)⟩
  | @left op _ _ f hop _ hr hf ih =>
    obtain ⟨e, hl, he⟩ := ih
    cases op with
    | add => exact ⟨_, hl.fold_join hr, (E.remains_add he hf).1.1⟩
    | subtract => exact ⟨_, hl.fold_join hr, (E.remains_add he hf).2.1⟩
    | multiply => exact ⟨_, hl.fold_join hr, (E.remains_mul he hf).1⟩
    | divide => exact ⟨_, hl.fold_join hr, E.remains_div he hf⟩
    | power => exact absurd rfl hop
  | @right op _ _ e hdivide hpower hl he _ ih =>
    obtain ⟨f, hr, hf⟩ := ih
    cases op with
    | add => exact ⟨_, hl.fold_join hr, (E.remains_add hf he).1.2⟩
    | subtract => exact ⟨_, hl.fold_join hr, (E.remains_add hf he).2.2⟩
    | multiply => exact ⟨_, hl.fold_join hr, (E.remains_mul hf he).2⟩
    | divide => exact absurd rfl hdivide
    | power => exact absurd rfl hpower
  | undefinedDivisor hl he _ hr => exact ⟨_, hl.fold_join hr, .inr (E.undefined_div _ he).1⟩
  | @exponent _ _ e hl _ ih =>
    obtain ⟨f, hr, hf⟩ := ih
    exact ⟨_, hl.power hr (E.boundedPower_eq (.inr hf)), E.remains_pow hf⟩
  | @base _ _ r _ hr hpos ih =>
    obtain ⟨e, hl, he⟩ := ih
    refine ⟨_, hl.power hr (E.boundedPower_eq (.inl he)), ?_⟩
    obtain rfl | rfl := he
    · exact .inl (E.infinite_pow r hpos)
    · exact .inr (E.undefined_pow r hpos.ne')
  | @undefinedBase _ _ r _ hl hr hne =>
    exact ⟨_, hl.power hr (E.boundedPower_eq (.inl (.inr rfl))), .inr (E.undefined_pow r hne)⟩

/-- Where a division by zero is hidden, there is one, and a rational is built. -/
theorem Hides.builds {q : ℚ} (hA : A.Exact) (h : t.Hides E b q) :
    t.DividesByZero E b ∧ t.Builds b (A.rational q) := by
  cases h with
  | @divisor _ _ e hl he h hr =>
    refine ⟨.right h.dividesByZero, ?_⟩
    rw [← E.div_infinite e he]
    exact hl.fold_join hr
  | @inverse _ _ r h hl hr hneg =>
    refine ⟨.left h.dividesByZero, ?_⟩
    rw [← E.infinite_inv r hneg]
    exact hl.power hr (E.boundedPower_eq (.inl (.inl rfl)))
  | zeroth h hr =>
    obtain ⟨e, hl, he⟩ := h.remains hA
    refine ⟨.left h.dividesByZero, ?_⟩
    rw [← E.pow_zero e]
    exact hl.power hr (E.boundedPower_eq (.inl he))

namespace Amounts

variable {values : Fields} {a : Amount}

/-- Where no division by zero shows, the amount is finite. -/
theorem isFinite (hA : A.Exact) (hC : A.Converts) (h : t.Amounts values a)
    (hb : A.readBindings values = .ok b) (hnone : ¬ t.Exposes E b) : a.IsFinite := by
  induction h with
  | number | symbol => trivial
  | @join op left right a c hl hr _ ihl ihr =>
    have hleft := hl.builds hA hC E hb
    have hright := hr.builds hA hC E hb
    have ha := E.ordinary_ofAmount a
    have hc := E.ordinary_ofAmount c
    -- The operands that could show something are finite, and so is the result.
    have hfinite : op ≠ .power → a.IsFinite := fun hop =>
      ihl fun h => hnone (.left hop h hright hc)
    have hfinite' : op ≠ .divide → c.IsFinite := fun hop => ihr fun h => by
      by_cases hpower : op = .power
      · subst hpower
        exact hnone (.exponent hleft h)
      · exact hnone (.right hop hpower hleft ha h)
    cases op with
    | add => exact Amount.isFinite_add.2 ⟨hfinite nofun, hfinite' nofun⟩
    | subtract => exact Amount.isFinite_sub.2 ⟨hfinite nofun, hfinite' nofun⟩
    | multiply => exact Amount.isFinite_mul.2 ⟨hfinite nofun, hfinite' nofun⟩
    | divide =>
      refine Amount.isFinite_div.2 ⟨hfinite nofun, ?_, ?_⟩
      · rintro rfl
        exact hnone (.divisor hleft ha hright)
      · rintro rfl
        exact ihr fun h => hnone (.undefinedDivisor hleft ha h hright)
    | power =>
      obtain ⟨r, rfl⟩ := Amount.isFinite_iff.1 (hfinite' nofun)
      refine Amount.isFinite_pow.2 (or_iff_not_imp_left.2 fun hne => ?_)
      cases a with
      | finite q =>
        refine .inl ⟨trivial, fun hzero => (lt_or_gt_of_ne hne).resolve_left fun hneg => ?_⟩
        cases hzero
        exact hnone (.inverse hleft hright (E.negative_rational r hneg))
      | infinite =>
        refine .inr ⟨rfl, (lt_or_gt_of_ne hne).resolve_right fun hpos => ?_⟩
        exact ihl fun h => hnone (.base h hright hpos)
      | undefined => exact (ihl fun h => hnone (.undefinedBase h hleft hright hne)).elim

/-- A division by zero shows in a formula that amounts to something exactly if that is not
finite. -/
theorem exposes_iff (hA : A.Exact) (hC : A.Converts) (h : t.Amounts values a)
    (hb : A.readBindings values = .ok b) : t.Exposes E b ↔ ¬ a.IsFinite := by
  refine ⟨fun hshows hfinite => ?_, not_imp_comm.1 (h.isFinite hA hC hb)⟩
  obtain ⟨q, rfl⟩ := Amount.isFinite_iff.1 hfinite
  obtain ⟨e, he, hremains⟩ := hshows.remains hA
  obtain rfl := he.unique (h.builds hA hC E hb)
  exact E.not_remains_rational hA q hremains

end Amounts

end Formula

/-! ## Diagrams -/

namespace Diagram

/-- How divisions by zero come out when a complete formula is evaluated. -/
structure EvaluatesDivisions (g : Diagram) (sink bindings : Datum) (t : Formula)
    {A : SymbolicAlgebra} (E : A.Extension) (b : A.Bindings) : Prop where
  /-- One that shows is refused. -/
  shown : t.Exposes E b →
    t.DividesByZero E b ∧ g.evaluate bindings sink A = .error (.refusal .dividesByZero)
  /-- One that is hidden anywhere leaves a rational. -/
  hidden : ∀ (u : Formula) (q : ℚ), u.Hides E b q → u.DividesByZero E b ∧ u.Builds b (A.rational q)
  /-- A formula of which a rational is built in the end is evaluated. -/
  rational : ∀ q, t.Builds b (A.rational q) →
    g.evaluate bindings sink A = .ok (Double.ofRatTwice q)
  /-- If the formula amounts to something, then either a division by zero shows, or the formula
  amounts to a rational and is evaluated to that. -/
  amounted : ∀ a, t.Amounts bindings.asFields a →
    (t.Exposes E b ↔ ¬ a.IsFinite) ∧ (¬ t.Exposes E b → ∃ q, a = .finite q ∧
      g.evaluate bindings sink A = .ok (Double.ofRatTwice q))

/-- How divisions by zero come out in a complete diagram, whatever run of edits it comes from, with
any values for its variables that break no constraint. The algebra has to be exact on rationals, and
go on from a division by zero as the projective line does. -/
theorem evaluate_division {A : SymbolicAlgebra} (hA : A.Exact) (hC : A.Converts) (E : A.Extension)
    {edits : List Edit} {supply : Supply} {sink : Datum} {s : Synthesis}
    (hs : (run edits supply).synthesize sink = .ok s) (hc : s.complete = true) {t : Formula}
    (ht : (run edits supply).Expresses sink t) {bindings : Datum} {b : A.Bindings}
    (hb : (run edits supply).checkedBindings A bindings = .ok (.ok b)) :
    (run edits supply).EvaluatesDivisions sink bindings t E b := by
  have hevaluate := evaluate_eq (Keyed.run edits supply) hs hc ht hb
  have hvalue : ∀ e, t.Builds b e → (run edits supply).evaluate bindings sink A = A.value e :=
    fun e he => by rw [hevaluate, he, ok_bind]
  refine ⟨fun h => ⟨h.dividesByZero, ?_⟩, fun u q h => h.builds hA, fun q hq => ?_, ?_⟩
  · obtain ⟨e, he, hremains⟩ := h.remains hA
    rw [hvalue e he, E.value_remains hremains]
  · rw [hvalue _ hq, SymbolicAlgebra.value_rational hA hC]
  · intro a ha
    have hread := readBindings_of_checked hb
    have hiff := ha.exposes_iff (E := E) hA hC hread
    refine ⟨hiff, fun hnone => ?_⟩
    obtain ⟨q, rfl⟩ := Amount.isFinite_iff.1 (not_not.1 (mt hiff.2 hnone))
    exact ⟨q, rfl, by rw [hvalue _ (ha.builds hA hC E hread)]; exact A.value_rational hA hC q⟩

/-- One divided by zero, and one divided by that, each behind an output of its own. -/
def inverseOfInfinity : List Edit := [
  .create (.text "number") .null .null, .setValue (.text "n1") (.int 1),
  .create (.text "number") .null .null, .setValue (.text "n2") (.int 0),
  .create (.text "divide") .null .null, .create (.text "divide") .null .null,
  .create (.text "output") .null .null, .create (.text "output") .null .null,
  .connect (.text "n1") (.text "n3") (.int 0), .connect (.text "n2") (.text "n3") (.int 1),
  .connect (.text "n1") (.text "n4") (.int 0), .connect (.text "n3") (.text "n4") (.int 1),
  .connect (.text "n3") (.text "n5") (.int 0), .connect (.text "n4") (.text "n6") (.int 0)]

/-- One divided by zero is refused. -/
theorem evaluate_division_shown : (run inverseOfInfinity {}).evaluate .null (.text "n5") =
    .error (.refusal .dividesByZero) := by
  obtain ⟨s, hs, hc, hexpresses⟩ := (Keyed.run inverseOfInfinity {}).expresses_of_text (.text "n5")
    (t := .join .divide (.number (.whole 1)) (.number (.whole 0)))
    (by decide +kernel) (by decide +kernel)
  have hone : (Formula.number (.whole 1)).Builds [] (Expr.algebra.rational 1) :=
    Formula.builds_number (by decide +kernel)
  have hzero : (Formula.number (.whole 0)).Builds [] (Expr.algebra.rational 0) :=
    Formula.builds_number (by decide +kernel)
  have hb : (run inverseOfInfinity {}).checkedBindings Expr.algebra .null = .ok (.ok []) := rfl
  have hdivisions := evaluate_division Expr.algebra_exact Expr.algebra_converts
    Expr.algebraExtension hs hc hexpresses hb
  exact (hdivisions.shown (.divisor hone (.inl ⟨1, rfl⟩) hzero)).2

/-- One divided by the infinity is zero, and nothing is refused. -/
theorem evaluate_division_hidden :
    let t : Formula := .join .divide (.number (.whole 1))
      (.join .divide (.number (.whole 1)) (.number (.whole 0)))
    (∃ s, (run inverseOfInfinity {}).synthesize (.text "n6") = .ok s ∧ s.complete = true) ∧
      (run inverseOfInfinity {}).Expresses (.text "n6") t ∧
      t.DividesByZero Expr.algebraExtension [] ∧
      (run inverseOfInfinity {}).evaluate .null (.text "n6") = .ok (.finite .zero) := by
  intro t
  obtain ⟨s, hs, hc, hexpresses⟩ := (Keyed.run inverseOfInfinity {}).expresses_of_text (.text "n6")
    (t := t) (by decide +kernel) (by decide +kernel)
  have hzero : (Formula.number (.whole 0)).Builds [] (Expr.algebra.rational 0) :=
    Formula.builds_number (by decide +kernel)
  exact ⟨⟨s, hs, hc⟩, hexpresses, .right (.divisor hzero), by decide +kernel⟩

end Diagram

end EquationStudio
