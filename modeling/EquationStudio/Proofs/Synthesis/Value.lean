import EquationStudio.Proofs.Algebra.Lawful
import EquationStudio.Proofs.Numeric.Nearest
import EquationStudio.Proofs.Numeric.Significant
import EquationStudio.Proofs.Synthesis.Bounded
import EquationStudio.Proofs.Synthesis.Accepted

/-!
# Evaluation finds the double nearest to the value

`Formula.HasValue` says what rational a formula stands for, by the rules of arithmetic alone:
literals and bound values are the decimals that they are written as, no divisor is zero, exponents
are whole, zero is not raised to a negative exponent, and no power has more than `9999` digits. An
algebra that is exact on rationals builds that value of a formula (`Formula.HasValue.builds`),
however often its nodes are shared. So a complete diagram is evaluated to the double that the value
of the formula is rounded to by way of 53 significant digits, and that is the nearest one wherever
doubles have that many digits (`Diagram.evaluate_nearest`).

Below that range the two roundings may differ from one, and the values have to meet the constraints
of all variables of their names, also of those that are not behind the sink
(`Diagram.evaluate_not_nearest`).
-/

namespace EquationStudio

/-- The rational that a formula stands for, with values for its variables. -/
inductive Formula.HasValue (values : Fields) : Formula → ℚ → Prop
  | number {v : Number} {q : ℚ} (h : decimal? v.literal = some q) : HasValue values (.number v) q
  | symbol {name : String} {d : Datum} {v : Number} {q : ℚ} (hd : Fields.get? values name = some d)
      (hv : Number.ofDatum d = .ok v) (h : decimal? v.literal = some q) :
        HasValue values (.symbol name) q
  | add {left right : Formula} {a b : ℚ} (hl : HasValue values left a)
      (hr : HasValue values right b) :
      HasValue values (.join .add left right) (a + b)
  | subtract {left right : Formula} {a b : ℚ} (hl : HasValue values left a)
      (hr : HasValue values right b) :
      HasValue values (.join .subtract left right) (a - b)
  | multiply {left right : Formula} {a b : ℚ} (hl : HasValue values left a)
      (hr : HasValue values right b) :
      HasValue values (.join .multiply left right) (a * b)
  | divide {left right : Formula} {a b : ℚ} (hl : HasValue values left a)
      (hr : HasValue values right b)
      (hb : b ≠ 0) : HasValue values (.join .divide left right) (a / b)
  | power {left right : Formula} {a : ℚ} {n : ℤ} (hl : HasValue values left a)
      (hr : HasValue values right n) (hzero : a = 0 → 0 ≤ n)
      (hdigits : a ≠ 0 → |(n : ℝ) * Real.logb 10 (|(a : ℝ)|)| ≤ 9999) :
      HasValue values (.join .power left right) (a ^ n)

section
variable {A : SymbolicAlgebra} (hA : A.Exact) (hC : A.Converts)
include hA hC

/-- An algebra that is exact on rationals builds of a formula the value that it has. -/
theorem Formula.HasValue.builds {values : Fields} {t : Formula} {q : ℚ} (h : t.HasValue values q)
    {b : A.Bindings} (hb : A.readBindings values = .ok b) : t.Builds b (A.rational q) := by
  induction h with
  | number h => exact Formula.builds_number h
  | symbol hd hv h => exact Formula.builds_symbol hb hd hv h
  | @add _ _ p q _ _ ihl ihr =>
    rw [← hA.add]
    exact ihl.fold_join ihr
  | @subtract _ _ p q _ _ ihl ihr =>
    rw [← hA.sub]
    exact ihl.fold_join ihr
  | @multiply _ _ p q _ _ ihl ihr =>
    rw [← hA.mul]
    exact ihl.fold_join ihr
  | @divide _ _ p q _ _ hne ihl ihr =>
    rw [← hA.div p q hne]
    exact ihl.fold_join ihr
  | @power _ _ q n _ _ hzero hdigits ihl ihr =>
    rw [← hA.pow q n hzero]
    exact ihl.power ihr (SymbolicAlgebra.boundedPower_rational hA hC (by exact_mod_cast hdigits))

/-- A complete diagram is evaluated to the double that the value of its formula is rounded to by way
of 53 digits. -/
theorem Diagram.evaluate_of_value {g : Diagram} (hg : g.Keyed) {sink : Datum} {s : Synthesis}
    (hs : g.synthesize sink = .ok s) (hc : s.complete = true) {t : Formula}
    (ht : g.Expresses sink t) {values : Fields} (hvalues : g.Accepts values) {q : ℚ}
    (hq : t.HasValue values q) :
    g.evaluate (.record values) sink A = .ok (Double.ofRatTwice q) := by
  obtain ⟨b, hb, hchecked⟩ := hvalues.checkedBindings A
  rw [evaluate_eq hg hs hc ht hchecked, hq.builds hA hC hb]
  exact SymbolicAlgebra.value_rational hA hC q

end

namespace Diagram

/-- Whatever run of edits a diagram comes from: if it is complete and the formula that it expresses
has a value for the values that are bound, no greater than the largest double, it is evaluated to a
double. This is the one nearest to the value brought to 53 significant digits, and so the one
nearest to the value itself, unless that has a magnitude below `2⁻¹⁰²²`. The algebra need only be
exact on rationals and convert them by way of 53 digits. -/
theorem evaluate_nearest {A : SymbolicAlgebra} (hA : A.Exact) (hC : A.Converts) {edits : List Edit}
    {supply : Supply} {sink : Datum} {s : Synthesis}
    (hs : (run edits supply).synthesize sink = .ok s) (hc : s.complete = true) {t : Formula}
    (ht : (run edits supply).Expresses sink t) {values : Fields}
    (hvalues : (run edits supply).Accepts values) {q : ℚ} (hq : t.HasValue values q)
    (hrange : |q| ≤ FiniteDouble.largest.toRat) :
    ∃ x : FiniteDouble, (run edits supply).evaluate (.record values) sink A = .ok (.finite x) ∧
      x.IsNearest (roundedTo 53 q) ∧ (q = 0 ∨ 2 ^ (-1022 : ℤ) ≤ |q| → x.IsNearest q) := by
  have hevaluate := evaluate_of_value hA hC (Keyed.run edits supply) hs hc ht hvalues hq
  have hbelow : |q| < Double.overflow := hrange.trans_lt (by decide +kernel)
  obtain ⟨x, hx, -, hnearest⟩ | ⟨hinfinite, -⟩ := Double.ofRat_eq (roundedTo 53 q)
  · refine ⟨x, hevaluate.trans (congrArg Except.ok hx), hnearest, ?_⟩
    rintro (rfl | hnormal)
    · rwa [roundedTo_zero] at hnearest
    · obtain ⟨y, hy, hnearest'⟩ := Double.exists_isNearest hrange
      have hsame := (Double.ofRatTwice_eq hnormal).symm.trans hx
      cases hy.symm.trans hsame
      exact hnearest'
  · exact absurd ((Double.ofRatTwice_infinite_iff q).1 ⟨_, hinfinite⟩) hbelow.not_ge

/-- The double nearest to a tenth. -/
def tenth : FiniteDouble := ⟨false, ⟨4591870180066957722, by decide⟩⟩

/-- The double nearest to ten less a tenth. -/
def tenLessTenth : FiniteDouble := ⟨false, ⟨4621762822593629389, by decide⟩⟩

/-- A tenth plus a variable, used twice: as the base of a power, and as a factor of it. -/
def sharedSum : List Edit := [
  .create (.text "number") .null .null, .setValue (.text "n1") (.float (.finite tenth)),
  .create (.text "variable") .null .null, .setVariable (.text "n2") (.text "x"),
  .addConstraint (.text "n2") (.record [("type", .text "sign"), ("sign", .text "positive")]),
  .create (.text "add") .null .null, .create (.text "number") .null .null,
  .setValue (.text "n4") (.int (-2)), .create (.text "power") .null .null,
  .create (.text "multiply") .null .null, .create (.text "output") .null .null,
  .connect (.text "n1") (.text "n3") (.int 0), .connect (.text "n2") (.text "n3") (.int 1),
  .connect (.text "n3") (.text "n5") (.int 0), .connect (.text "n4") (.text "n5") (.int 1),
  .connect (.text "n5") (.text "n6") (.int 0), .connect (.text "n3") (.text "n6") (.int 1),
  .connect (.text "n6") (.text "n7") (.int 0)]

/-- A tenth plus a variable, as a formula. -/
def tenthPlusX : Formula := .join .add (.number (.real tenth)) (.symbol "x")

/-- A sum of two decimals that is ten exactly is shared, and the value is a tenth. -/
theorem evaluate_nearest_shared :
    ∃ x : FiniteDouble, (run sharedSum {}).evaluate
      (.record [("x", .float (.finite tenLessTenth))]) .null =
      .ok (.finite x) ∧ x.IsNearest (10 ^ (-2 : ℤ) * 10) := by
  obtain ⟨s, hs, hc, hexpresses⟩ := (Keyed.run sharedSum {}).expresses_of_text .null
    (t := .join .multiply (.join .power tenthPlusX (.number (.whole (-2)))) tenthPlusX)
    (by decide +kernel) (by decide +kernel)
  have hx : Number.ofDatum (.float (.finite tenLessTenth)) = .ok (.real tenLessTenth) := by
    decide +kernel
  have hchecks : ((run sharedSum {}).nodes.values.all fun n =>
    decide ((run sharedSum {}).constraints.check
      n.id.datum (Number.real tenLessTenth).toDatum = .ok ())) = true := by decide +kernel
  generalize Datum.float (.finite tenLessTenth) = d at hx ⊢
  have haccepts : (run sharedSum {}).Accepts [("x", d)] := by
    refine ⟨List.forall_mem_singleton.2 ⟨_, hx⟩, fun n hn name d' v hcontent hget hv => ?_⟩
    obtain ⟨f, hf, rfl⟩ := Option.map_eq_some_iff.1 hget
    obtain rfl := List.mem_singleton.1 (List.mem_of_find?_eq_some hf)
    cases hx.symm.trans hv
    exact of_decide_eq_true (List.all_eq_true.1 hchecks n hn)
  have hget : Fields.get? [("x", d)] "x" = some d := rfl
  have hsum : tenthPlusX.HasValue [("x", d)] (1 / 10 + 99 / 10) :=
    .add (.number (by decide +kernel)) (.symbol hget hx (by decide +kernel))
  norm_num at hsum
  have hminus : (Formula.number (.whole (-2))).HasValue [("x", d)] (-2 : ℤ) :=
    .number (by decide +kernel)
  have hrange : |(10 ^ (-2 : ℤ) * 10 : ℚ)| ≤ FiniteDouble.largest.toRat := by
    norm_num
    decide +kernel
  have hproduct : (Formula.join .multiply (.join .power tenthPlusX (.number (.whole (-2))))
      tenthPlusX).HasValue [("x", d)] (10 ^ (-2 : ℤ) * 10) :=
    .multiply (.power hsum hminus (by norm_num) fun _ => by norm_num) hsum
  obtain ⟨x, hx, -, hnearest⟩ := evaluate_nearest Expr.algebra_exact Expr.algebra_converts hs hc
    hexpresses haccepts hproduct hrange
  have hnormal : (2 : ℚ) ^ (-1022 : ℤ) ≤ 2 ^ (-4 : ℤ) :=
    zpow_le_zpow_right₀ one_le_two (by decide)
  exact ⟨x, hx, hnearest (.inr (hnormal.trans (by norm_num)))⟩

/-- The number one behind the output, and a positive variable that is not behind it. -/
def unreachedVariable : List Edit := [
  .create (.text "number") .null .null, .setValue (.text "n1") (.int 1),
  .create (.text "output") .null .null,
  .connect (.text "n1") (.text "n2") (.int 0), .create (.text "variable") .null .null,
  .setVariable (.text "n3") (.text "x"),
  .addConstraint (.text "n3") (.record [("type", .text "sign"), ("sign", .text "positive")])]

/-- The double nearest to two and a half. -/
def halfway : FiniteDouble := ⟨false, ⟨4612811918334230528, by decide⟩⟩

/-- The double nearest to `10 ^ (-20)`. -/
def little : FiniteDouble := ⟨false, ⟨4307583784117748259, by decide⟩⟩

/-- A little more than two and a half, times the least positive double. -/
def aboveHalfway : List Edit := [
  .create (.text "number") .null .null, .setValue (.text "n1") (.float (.finite halfway)),
  .create (.text "number") .null .null, .setValue (.text "n2") (.float (.finite little)),
  .create (.text "add") .null .null, .create (.text "number") .null .null,
  .setValue (.text "n4") (.int 2), .create (.text "number") .null .null,
  .setValue (.text "n5") (.int (-1074)), .create (.text "power") .null .null,
  .create (.text "multiply") .null .null, .create (.text "output") .null .null,
  .connect (.text "n1") (.text "n3") (.int 0), .connect (.text "n2") (.text "n3") (.int 1),
  .connect (.text "n4") (.text "n6") (.int 0), .connect (.text "n5") (.text "n6") (.int 1),
  .connect (.text "n3") (.text "n7") (.int 0), .connect (.text "n6") (.text "n7") (.int 1),
  .connect (.text "n7") (.text "n8") (.int 0)]

/-- That product, as a formula. -/
def leastProduct : Formula := .join .multiply
  (.join .add (.number (.real halfway)) (.number (.real little)))
  (.join .power (.number (.whole 2)) (.number (.whole (-1074))))

/-- The value of the product. -/
theorem hasValue_leastProduct :
    leastProduct.HasValue [] ((5 / 2 + 1 / 10 ^ 20) * 2 ^ (-1074 : ℤ)) := by
  have hdigits : |((-1074 : ℤ) : ℝ) * Real.logb 10 (|((2 : ℚ) : ℝ)|)| ≤ 9999 := by
    have hnonneg : 0 ≤ Real.logb 10 2 := Real.logb_nonneg (by norm_num) (by norm_num)
    have hone : Real.logb 10 2 ≤ 1 := by
      rw [← Real.logb_self_eq_one (by norm_num : (1 : ℝ) < 10)]
      exact Real.logb_le_logb_of_le (by norm_num) (by norm_num) (by norm_num)
    rw [Rat.cast_ofNat, abs_of_pos (by norm_num : (0 : ℝ) < 2), abs_mul, abs_of_nonneg hnonneg]
    norm_num
    linarith
  have hpower : (Formula.join .power (.number (.whole 2)) (.number (.whole (-1074)))).HasValue []
      (2 ^ (-1074 : ℤ)) :=
    .power (.number (by decide +kernel)) (.number (by decide +kernel)) (by norm_num) fun _ =>
      hdigits
  exact .multiply (.add (.number (by decide +kernel)) (.number (by decide +kernel))) hpower

/-- There are complete diagrams whose formulas have values within range that are not evaluated to
the nearest doubles. One has no variables, yet a value for a variable that is not behind the sink,
which breaks a constraint of it, keeps it from being evaluated. Of another the value is a little
more than two and a half times the least positive double, and it is evaluated to twice that. -/
theorem evaluate_not_nearest :
    ((∃ s, (run unreachedVariable {}).synthesize .null = .ok s ∧ s.complete = true) ∧
      (run unreachedVariable {}).Expresses .null (.number (.whole 1)) ∧
      (Formula.number (.whole 1)).HasValue [("x", .int (-1))] 1 ∧
      |(1 : ℚ)| ≤ FiniteDouble.largest.toRat ∧
      ¬ ∃ x, (run unreachedVariable {}).evaluate (.record [("x", .int (-1))]) .null = .ok x) ∧
    (∃ s, (run aboveHalfway {}).synthesize .null = .ok s ∧ s.complete = true) ∧
      (run aboveHalfway {}).Expresses .null leastProduct ∧ ∃ q x, leastProduct.HasValue [] q ∧
        |q| ≤ FiniteDouble.largest.toRat ∧
        (run aboveHalfway {}).evaluate (.record []) .null = .ok (.finite x) ∧ ¬ x.IsNearest q := by
  constructor
  · obtain ⟨s, hs, hc, hexpresses⟩ := (Keyed.run unreachedVariable {}).expresses_of_text .null
      (t := .number (.whole 1)) (by decide +kernel) (by decide +kernel)
    have hrefused : ((run unreachedVariable {}).evaluate
        (.record [("x", .int (-1))]) .null).toOption = none := by
      decide +kernel
    refine ⟨⟨s, hs, hc⟩, hexpresses, .number (by decide +kernel), ?_, ?_⟩
    · rw [abs_one]
      decide +kernel
    · rintro ⟨x, hx⟩
      rw [hx] at hrefused
      cases hrefused
  · obtain ⟨s, hs, hc, hexpresses⟩ := (Keyed.run aboveHalfway {}).expresses_of_text .null
      (t := leastProduct) (by decide +kernel) (by decide +kernel)
    have hevaluate := evaluate_of_value Expr.algebra_exact Expr.algebra_converts
      (Keyed.run aboveHalfway {}) hs hc hexpresses (accepts_nil _) hasValue_leastProduct
    have hrounded : Double.ofRatTwice ((5 / 2 + 1 / 10 ^ 20) * 2 ^ (-1074 : ℤ)) =
        .finite ⟨false, ⟨2, by decide⟩⟩ := by
      decide +kernel
    rw [hrounded] at hevaluate
    refine ⟨⟨s, hs, hc⟩, hexpresses, _, _, hasValue_leastProduct, by decide +kernel, hevaluate, ?_⟩
    intro hnearest
    exact absurd (hnearest.nearest ⟨false, ⟨3, by decide⟩⟩) (by decide +kernel)

end Diagram

end EquationStudio
