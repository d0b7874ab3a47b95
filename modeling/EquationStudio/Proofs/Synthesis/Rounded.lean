import EquationStudio.Proofs.Algebra.Digits
import EquationStudio.Proofs.Synthesis.Value

/-!
# Values that are too large

The value of a form is the double that the digits which the algebra finds of it are converted to. So
it is never undefined, but not always finite: a number beyond the largest double becomes an
infinity, and nothing is refused for it (`Diagram.evaluate_rounded`). For a rational the bound is
exact; for another constant it is met but for the last few bits (`SymbolicAlgebra.Measure.Bounds`).
-/

namespace EquationStudio

namespace SymbolicAlgebra

variable {A : SymbolicAlgebra} {e : A.Form} {x : Double}

/-- A form that is known to be a finite real number, without symbols. -/
structure Constant (e : A.Form) : Prop where
  names : A.names e = []
  isSingular : A.isSingular e = false
  isFinite : A.isFinite e = true
  isReal : A.isReal e = true

/-- The value of a constant is what it is converted to. -/
theorem Constant.value (h : Constant e) (hx : A.toDouble? e = some x) : A.value e = .ok x := by
  unfold SymbolicAlgebra.value
  rw [h.names, List.mergeSort_nil, h.isSingular, h.isFinite, h.isReal, hx]
  rfl

/-- A form with a value is a constant that is converted to it. -/
theorem constant_of_value (h : A.value e = .ok x) : Constant e ∧ A.toDouble? e = some x := by
  unfold value at h
  split at h
  · next hnames =>
    have hnone : A.names e = [] := by
      have hlength := congrArg List.length hnames
      rwa [List.length_mergeSort, List.length_nil, List.length_eq_zero_iff] at hlength
    split at h
    · cases h
    next hfinite =>
    split at h
    · obtain ⟨s, -, h⟩ := ok_of_bind h
      cases h
    next hreal =>
    rw [Bool.or_eq_true, not_or, Bool.not_eq_true, Bool.not_eq_true', Bool.not_eq_false] at hfinite
    rw [Bool.not_eq_true', Bool.not_eq_false] at hreal
    split at h
    · next y hy =>
      cases h
      exact ⟨⟨hnone, hfinite.1, hfinite.2, hreal⟩, hy⟩
    · cases h
  · cases h

/-- How a double stands for a form: where the real number that the form is lies beyond the range of
doubles, by more than its last few bits, it is an infinity, and where it lies within it is
finite. -/
structure Measure.Bounds (M : A.Measure) (e : A.Form) (x : Double) : Prop where
  beyond : ∀ v : ℝ, M.Is e v → Double.overflow * (1 + (2 ^ 49)⁻¹) ≤ |v| →
    ∃ negative, x = .infinite negative
  within : ∀ v : ℝ, M.Is e v → |v| ≤ Double.overflow * (1 - (2 ^ 49)⁻¹) → ∃ y, x = .finite y

/-- What a constant is converted to stands for it, and is not undefined. -/
theorem Measure.exists_toDouble (M : A.Measure) (h : Constant e) :
    ∃ x, A.toDouble? e = some x ∧ x ≠ .nan ∧ M.Bounds e x := by
  obtain ⟨d, hd, hnear⟩ := M.toDouble e h.names h.isSingular h.isFinite h.isReal
  have hrounds := Double.roundsTo_ofRat d
  have hinfinite := hrounds.infinite_iff
  have hoverflow : (0 : ℝ) < Double.overflow := by
    exact_mod_cast (by decide +kernel : (0 : ℚ) < Double.overflow)
  refine ⟨_, hd, hrounds.ne_nan, fun v hv hbeyond => hinfinite.2 ?_, fun v hv hwithin => ?_⟩
  · have hsize := abs_sub_abs_le_abs_sub v d
    have hv := hnear v hv
    rw [abs_sub_comm] at hsize
    norm_num at hv hbeyond
    linarith
  · have hsize := abs_sub_abs_le_abs_sub (d : ℝ) v
    have hv := hnear v hv
    norm_num at hv hwithin
    have hrange : |(d : ℝ)| < Double.overflow := by linarith
    cases hx : Double.ofRat d with
    | nan => exact absurd hx hrounds.ne_nan
    | infinite negative => exact absurd (hinfinite.1 ⟨negative, hx⟩) hrange.not_ge
    | finite y => exact ⟨y, rfl⟩

end SymbolicAlgebra

namespace Diagram

/-- The value of what is behind a sink is the double that a number is converted to. -/
structure Rounds (g : Diagram) (sink : Datum) {A : SymbolicAlgebra} (M : A.Measure) : Prop where
  /-- What is evaluated, with any bindings, is a constant. Its value is not undefined, and is an
  infinity if the constant is out of range. -/
  evaluated : ∀ bindings x, g.evaluate bindings sink A = .ok x → x ≠ .nan ∧
    ∃ b e, g.checkedBindings A bindings = .ok b ∧ g.algebraic A b sink = .ok (some e) ∧
      SymbolicAlgebra.Constant e ∧ M.Bounds e x
  /-- A constant is evaluated however large it is. -/
  constant : ∀ bindings b e, g.checkedBindings A bindings = .ok b →
    g.algebraic A b sink = .ok (some e) → SymbolicAlgebra.Constant e →
      ∃ x, g.evaluate bindings sink A = .ok x
  /-- A complete formula with a value is evaluated to an infinity exactly if the value is out of
  range. -/
  valued : ∀ s t values q, g.synthesize sink = .ok s → s.complete = true → g.Expresses sink t →
    g.Accepts values → t.HasValue values q →
      ∃ x, g.evaluate (.record values) sink A = .ok x ∧
        ((∃ negative, x = .infinite negative) ↔ Double.overflow ≤ |q|)

/-- Whatever run of edits a diagram comes from, and whatever is bound, values are rounded: to an
infinity if they are out of range, and none is refused for that. The algebra has to be exact on
rationals, and find enough digits of other constants. -/
theorem evaluate_rounded {A : SymbolicAlgebra} (hA : A.Exact) (hC : A.Converts) (M : A.Measure)
    (edits : List Edit) (supply : Supply) (sink : Datum) : (run edits supply).Rounds sink M := by
  refine ⟨fun bindings x hx => ?_, fun bindings b e hb he hconstant => ?_,
    fun s t values q hs hc ht hvalues hq => ?_⟩
  · obtain ⟨b, e, hb, he, hx⟩ := of_evaluate hx
    obtain ⟨hconstant, hx⟩ := SymbolicAlgebra.constant_of_value hx
    obtain ⟨y, hy, hnan, hbounds⟩ := M.exists_toDouble hconstant
    cases hx.symm.trans hy
    exact ⟨hnan, b, e, hb, he, hconstant, hbounds⟩
  · obtain ⟨x, hx, -⟩ := M.exists_toDouble hconstant
    refine ⟨x, ?_⟩
    rw [evaluate, hb, ok_bind, completeAlgebraic, he]
    exact hconstant.value hx
  · exact ⟨_, evaluate_of_value hA hC (Keyed.run edits supply) hs hc ht hvalues hq,
      Double.ofRatTwice_infinite_iff q⟩

/-- The double nearest to `10 ^ 308`. -/
def nearLargest : FiniteDouble := ⟨false, ⟨9214871658872686752, by decide⟩⟩

/-- Ten times a number that is nearly the largest. -/
def tooLarge : List Edit := [
  .create (.text "number") .null .null, .setValue (.text "n1") (.float (.finite nearLargest)),
  .create (.text "number") .null .null, .setValue (.text "n2") (.int 10),
  .create (.text "multiply") .null .null, .create (.text "output") .null .null,
  .connect (.text "n1") (.text "n3") (.int 0), .connect (.text "n2") (.text "n3") (.int 1),
  .connect (.text "n3") (.text "n4") (.int 0)]

/-- The product is out of range, and evaluated to an infinity. -/
theorem evaluate_rounded_too_large : ∃ (x : Double) (q : ℚ),
    (run tooLarge {}).evaluate (.record []) .null = .ok x ∧ Double.overflow ≤ |q| ∧
      ∃ negative, x = .infinite negative := by
  obtain ⟨s, hs, hc, hexpresses⟩ := (Keyed.run tooLarge {}).expresses_of_text .null
    (t := .join .multiply (.number (.real nearLargest)) (.number (.whole 10)))
    (by decide +kernel) (by decide +kernel)
  have hlarge : (Formula.number (.real nearLargest)).HasValue [] (10 ^ 308) :=
    .number (by decide +kernel)
  have hten : (Formula.number (.whole 10)).HasValue [] 10 := .number (by decide +kernel)
  obtain ⟨x, hx, hinfinite⟩ := (evaluate_rounded Expr.algebra_exact Expr.algebra_converts
    Expr.algebraMeasure tooLarge {} .null).valued s _ [] (10 ^ 308 * 10) hs hc hexpresses
      (accepts_nil _) (.multiply hlarge hten)
  have hbeyond : Double.overflow ≤ |(10 ^ 308 * 10 : ℚ)| := by
    rw [abs_of_nonneg (by positivity)]
    decide +kernel
  exact ⟨x, _, hx, hbeyond, hinfinite.2 hbeyond⟩

/-- Without any bindings too. -/
theorem evaluate_too_large : (run tooLarge {}).evaluate .null .null = .ok (.infinite false) := by
  decide +kernel

end Diagram

end EquationStudio
