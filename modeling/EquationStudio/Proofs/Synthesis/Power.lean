import EquationStudio.Proofs.Algebra.Lawful
import EquationStudio.Proofs.Synthesis.Bounded
import EquationStudio.Proofs.Synthesis.Simplified

/-!
# Which powers are refused

An operation is refused for the digits of its result if it raises a number to a number, and for
nothing else (`SymbolicAlgebra.combine_eq_powerTooLarge`). So where a number is raised to a number
anywhere in a formula (`Formula.Raises`), and the power has too many digits, there is no algebraic
form; and without such a power the digits of no power are refused. The base is looked at as it
stands, though: a number that is a factor of it is raised together with the other factors, however
many digits its power has (`Diagram.powers_of_numbers`).
-/

namespace EquationStudio

/-- An operation is refused for digits where it raises a number to a number and the power has too
many. -/
theorem SymbolicAlgebra.combine_eq_powerTooLarge {A : SymbolicAlgebra} {op : Operator}
    {left right : A.Operand} {digits : String} :
    A.combine op left right = .error (.refusal (.powerTooLarge digits)) ↔ op = .power ∧
      ∃ e f x, left = some e ∧ right = some f ∧ A.tooManyDigits? e f = some x ∧
        threeDigits x = digits := by
  constructor
  · intro h
    cases op with
    | add | subtract | multiply | divide => cases left <;> cases right <;> cases h
    | power =>
      have hpower : A.powerOfOperands left right = .error (.refusal (.powerTooLarge digits)) := h
      unfold powerOfOperands at hpower
      split at hpower
      · next e f =>
        obtain hb | ⟨c, -, hb⟩ := error_of_bind hpower
        · unfold boundedPower at hb
          split at hb
          · next x hx =>
            cases hb
            exact ⟨rfl, e, f, x, rfl, rfl, hx, rfl⟩
          · cases hb
        · cases hb
      · split at hpower <;> cases hpower
      · cases hpower
  · rintro ⟨rfl, e, f, x, rfl, rfl, hx, rfl⟩
    have hpower : A.boundedPower e f = .error (.refusal (.powerTooLarge (threeDigits x))) := by
      rw [boundedPower, hx]
    rw [combine, powerOfOperands, hpower]
    rfl

namespace Formula

variable {A : SymbolicAlgebra}

/-- Somewhere in a formula, one form is raised to another. -/
inductive Raises (b : A.Bindings) (e f : A.Form) : Formula → Prop
  | power {left right : Formula} (hl : left.Builds b e) (hr : right.Builds b f) :
      Raises b e f (.join .power left right)
  | left {op : Operator} {left right : Formula} (h : Raises b e f left) :
      Raises b e f (.join op left right)
  | right {op : Operator} {left right : Formula} (h : Raises b e f right) :
      Raises b e f (.join op left right)

variable {b : A.Bindings} {t : Formula} {e f : A.Form}

/-- Where a power of numbers has too many digits, there is no algebraic form. -/
theorem Raises.exists_fault (h : t.Raises b e f) (hdigits : A.tooManyDigits? e f ≠ none) :
    ∃ fault, t.fold (A.emitter b) = .error fault := by
  obtain ⟨x, hx⟩ := Option.ne_none_iff_exists'.1 hdigits
  induction h with
  | power hl hr =>
    refine ⟨.refusal (.powerTooLarge (threeDigits x)), ?_⟩
    rw [hl.fold_join hr]
    exact SymbolicAlgebra.combine_eq_powerTooLarge.2 ⟨rfl, e, f, x, rfl, rfl, hx, rfl⟩
  | left _ ih =>
    obtain ⟨fault, hfault⟩ := ih
    exact ⟨fault, by rw [fold, hfault]; rfl⟩
  | @right _ left _ _ ih =>
    obtain ⟨fault, hfault⟩ := ih
    rw [fold]
    cases left.fold (A.emitter b) with
    | error fault' => exact ⟨fault', rfl⟩
    | ok a => exact ⟨fault, by rw [ok_bind, hfault]; rfl⟩

/-- What is refused for its digits is a power of numbers. -/
theorem exists_raises {digits : String}
    (h : t.fold (A.emitter b) = .error (.refusal (.powerTooLarge digits))) :
    ∃ e f, t.Raises b e f ∧ A.tooManyDigits? e f ≠ none := by
  induction t with
  | number | symbol | loose => cases h
  | join op left right ihl ihr =>
    rw [fold] at h
    obtain h | ⟨a, hl, h⟩ := error_of_bind h
    · obtain ⟨e, f, hraises, hdigits⟩ := ihl h
      exact ⟨e, f, hraises.left, hdigits⟩
    obtain h | ⟨c, hr, h⟩ := error_of_bind h
    · obtain ⟨e, f, hraises, hdigits⟩ := ihr h
      exact ⟨e, f, hraises.right, hdigits⟩
    obtain ⟨rfl, e, f, x, rfl, rfl, hx, -⟩ := SymbolicAlgebra.combine_eq_powerTooLarge.1 h
    exact ⟨e, f, .power hl hr, by rw [hx]; exact Option.some_ne_none x⟩

/-- A formula without loose nodes fails only for the digits of a power. -/
theorem isPowerRefusal_of_fold {fault : Fault} (hloose : t.looseNodes = [])
    (h : t.fold (A.emitter b) = .error fault) : fault.IsPowerRefusal := by
  obtain ⟨e, he⟩ | ⟨fault', hfault, hpower⟩ := fold_of_looseNodes_nil (b := b) hloose
  · cases he.symm.trans h
  · cases hfault.symm.trans h
    exact hpower

/-- A joined formula with an algebraic form has no loose nodes. -/
theorem looseNodes_of_builds {op : Operator} {left right : Formula}
    (h : (join op left right).Builds b e) : (join op left right).looseNodes = [] := by
  by_contra hloose
  obtain ⟨fault, hfault⟩ := exists_fault_of_loose (b := b) hloose
  cases hfault.symm.trans h

/-- A whole power of a multiple of a symbol is not refused, and taken factor by factor. -/
theorem builds_power_multiple (hD : A.Distributes) {left right : Formula} {name : String} {q : ℚ}
    {k : ℤ} (hl : left.Builds b (A.mul (A.symbol name) (A.rational q)))
    (hr : right.Builds b (A.rational k)) (hq : q ≠ 0) : (join .power left right).Builds b
      (A.mul (A.pow (A.symbol name) (A.rational k)) (A.rational (q ^ k))) := by
  have hbounded : A.boundedPower (A.mul (A.symbol name) (A.rational q)) (A.rational k) =
      .ok (A.pow (A.mul (A.symbol name) (A.rational q)) (A.rational k)) := by
    rw [SymbolicAlgebra.boundedPower, SymbolicAlgebra.tooManyDigits?, hD.isNumber name q hq]
    rfl
  rw [← hD.pow name q k hq]
  exact hl.power hr hbounded

end Formula

/-! ## Diagrams -/

namespace Diagram

/-- The algebraic form behind a sink is a fault, and whoever needs it fails with that. -/
structure FailsWith (g : Diagram) {A : SymbolicAlgebra} (b : A.Bindings) (sink : Datum)
    (fault : Fault) : Prop where
  algebraic : g.algebraic A (.ok b) sink = .error fault
  unbound : b = [] → g.algebraicText sink A = .error fault ∧ g.simplified sink A = .error fault
  evaluate : ∀ bindings, g.checkedBindings A bindings = .ok (.ok b) →
    g.evaluate bindings sink A = .error fault

/-- Whoever needs an algebraic form that is a fault fails with it. -/
theorem FailsWith.of_algebraic {g : Diagram} {A : SymbolicAlgebra} {b : A.Bindings} {sink : Datum}
    {fault : Fault} (h : g.algebraic A (.ok b) sink = .error fault) : g.FailsWith b sink fault :=
  ⟨h, (failed_of_algebraic h).1, (failed_of_algebraic h).2⟩

/-- How powers are taken while the algebra builds a form of the formula behind a sink. -/
structure TakesPowers (g : Diagram) {A : SymbolicAlgebra} (b : A.Bindings) (sink : Datum)
    (s : Synthesis) (t : Formula) : Prop where
  /-- A number is not raised to a whole number with too many digits: whoever needs the form fails
  instead, in a complete diagram with a refusal. -/
  refuses : ∀ (q : ℚ) (k : ℤ), t.Raises b (A.rational q) (A.rational k) → q ≠ 0 →
    powerDigits + (2 ^ 36)⁻¹ < |(k : ℝ) * Real.logb 10 (|(q : ℝ)|)| →
      ∃ fault : Fault, (fault.IsOperandFault ∨ fault.IsPowerRefusal) ∧
        (s.complete = true → fault.IsPowerRefusal) ∧ g.FailsWith b sink fault
  /-- Nothing else is refused for its digits: a power that is refused is one of numbers, and of
  rationals it has that many digits. -/
  refused : ∀ fault : Fault, fault.IsPowerRefusal → g.algebraic A (.ok b) sink = .error fault →
    ∃ e f, t.Raises b e f ∧ A.tooManyDigits? e f ≠ none ∧ ∀ q r, e = A.rational q →
      f = A.rational r → q ≠ 0 ∧ powerDigits - (2 ^ 36)⁻¹ < |(r : ℝ) * Real.logb 10 (|(q : ℝ)|)|
  /-- A number that is a factor beside a symbol is raised to any whole number. -/
  multiples : ∀ (left right : Formula) (name : String) (q : ℚ) (k : ℤ),
    left.Builds b (A.mul (A.symbol name) (A.rational q)) → right.Builds b (A.rational k) → q ≠ 0 →
      (Formula.join .power left right).Builds b
          (A.mul (A.pow (A.symbol name) (A.rational k)) (A.rational (q ^ k))) ∧
        (t = .join .power left right → g.algebraic A (.ok b) sink =
          .ok (some (A.mul (A.pow (A.symbol name) (A.rational k)) (A.rational (q ^ k)))))

/-- How powers are taken in a diagram whose text is read, complete or not, whatever run of edits it
comes from, and with any values for its variables. The algebra has to be exact on rationals, find
the digits of their powers, and take whole powers of a multiple of a symbol factor by factor. -/
theorem powers_of_numbers {A : SymbolicAlgebra} (hA : A.Exact) (hC : A.Converts)
    (hD : A.Distributes) {edits : List Edit} {supply : Supply} {sink : Datum} {s : Synthesis}
    (hs : (run edits supply).synthesize sink = .ok s) {t : Formula}
    (ht : (run edits supply).Shows sink t) (b : A.Bindings) :
    (run edits supply).TakesPowers b sink s t := by
  have hg := Keyed.run edits supply
  generalize run edits supply = g at *
  obtain ⟨hloose, halgebraic⟩ := hg.algebraic_of_shows hs ht A
  refine ⟨fun q k hraises hq hdigits => ?_, fun fault hrefusal hfault => ?_,
    fun left right name q k hl hr hq => ?_⟩
  · obtain ⟨digits, hrefused⟩ :=
      SymbolicAlgebra.boundedPower_refused hA hC (r := k) hq (by exact_mod_cast hdigits)
    have htoo : A.tooManyDigits? (A.rational q) (A.rational k) ≠ none := fun hnone => by
      rw [SymbolicAlgebra.boundedPower, hnone] at hrefused
      cases hrefused
    obtain ⟨fault, hfault⟩ := hraises.exists_fault htoo
    exact ⟨fault, Formula.fault_of_fold hfault,
      fun hc => Formula.isPowerRefusal_of_fold (hloose.1 hc) hfault,
      .of_algebraic (by rw [halgebraic, hfault]; rfl)⟩
  · obtain ⟨digits, rfl⟩ := hrefusal
    rw [halgebraic] at hfault
    cases hfold : t.fold (A.emitter b) with
    | ok a =>
      rw [hfold] at hfault
      cases hfault
    | error fault =>
      rw [hfold] at hfault
      cases hfault
      obtain ⟨e, f, hraises, hdigits⟩ := Formula.exists_raises hfold
      refine ⟨e, f, hraises, hdigits, ?_⟩
      rintro q r rfl rfl
      exact SymbolicAlgebra.lt_of_tooManyDigits? hA hC hdigits
  · have hbuilds := Formula.builds_power_multiple hD hl hr hq
    refine ⟨hbuilds, ?_⟩
    rintro rfl
    rw [halgebraic, hbuilds, Except.map, if_pos (hloose.2 (Formula.looseNodes_of_builds hbuilds))]

/-- Ten to the power of twenty thousand. -/
def tower : List Edit := [
  .create (.text "number") .null .null, .setValue (.text "n1") (.int 10),
  .create (.text "number") .null .null, .setValue (.text "n2") (.int 20000),
  .create (.text "power") .null .null, .create (.text "output") .null .null,
  .connect (.text "n1") (.text "n3") (.int 0), .connect (.text "n2") (.text "n3") (.int 1),
  .connect (.text "n3") (.text "n4") (.int 0)]

/-- Ten to the power of twenty thousand is refused. -/
theorem powers_of_numbers_tower : ∃ s t fault, (run tower {}).synthesize .null = .ok s ∧
    s.complete = true ∧
    (run tower {}).Shows .null t ∧ t.Raises (A := Expr.algebra) [] (Expr.number 10)
      (Expr.number (20000 : ℤ)) ∧
    (10 : ℚ) ≠ 0 ∧ powerDigits + (2 ^ 36)⁻¹ < |((20000 : ℤ) : ℝ) * Real.logb 10
    (|((10 : ℚ) : ℝ)|)| ∧
    fault.IsPowerRefusal ∧ (run tower {}).FailsWith (A := Expr.algebra) [] .null fault := by
  obtain ⟨s, hs, hc, hexpresses⟩ := (Keyed.run tower {}).expresses_of_text .null
    (t := .join .power (.number (.whole 10)) (.number (.whole 20000))) (by decide +kernel)
    (by decide +kernel)
  have hraises : (Formula.join .power (.number (.whole 10)) (.number (.whole 20000))).Raises
      (A := Expr.algebra) [] (Expr.number 10) (Expr.number (20000 : ℤ)) :=
    .power (Formula.builds_number (by decide +kernel)) (Formula.builds_number (by decide +kernel))
  have hdigits : powerDigits + (2 ^ 36)⁻¹ < |((20000 : ℤ) : ℝ) * Real.logb 10
      (|((10 : ℚ) : ℝ)|)| := by
    have hlog : Real.logb 10 (|((10 : ℚ) : ℝ)|) = 1 := by
      rw [Rat.cast_ofNat, abs_of_pos (by norm_num), Real.logb_self_eq_one (by norm_num)]
    rw [hlog]
    norm_num
  obtain ⟨fault, -, hrefusal, hfails⟩ :=
    (powers_of_numbers Expr.algebra_exact Expr.algebra_converts Expr.algebra_distributes hs
      hexpresses.shows []).refuses 10 20000 hraises (by norm_num) hdigits
  exact ⟨s, _, fault, hs, hc, hexpresses.shows, hraises, by norm_num, hdigits, hrefusal hc, hfails⟩

/-- A variable times a number of sixteen digits, to the power of seven hundred, less the same. -/
def cancelled : List Edit := [
  .create (.text "variable") .null .null, .setVariable (.text "n1") (.text "x"),
  .create (.text "number") .null .null, .setValue (.text "n2") (.int (10 ^ 15)),
  .create (.text "multiply") .null .null, .create (.text "number") .null .null,
  .setValue (.text "n4") (.int 700),
  .create (.text "power") .null .null, .create (.text "subtract") .null .null,
  .create (.text "output") .null .null,
  .connect (.text "n1") (.text "n3") (.int 0), .connect (.text "n2") (.text "n3") (.int 1),
  .connect (.text "n3") (.text "n5") (.int 0), .connect (.text "n4") (.text "n5") (.int 1),
  .connect (.text "n5") (.text "n6") (.int 0), .connect (.text "n5") (.text "n6") (.int 1),
  .connect (.text "n6") (.text "n7") (.int 0)]

/-- That power, as a formula. -/
def raisedMultiple : Formula :=
  .join .power (.join .multiply (.symbol "x") (.number (.whole (10 ^ 15)))) (.number (.whole 700))

/-- A number of sixteen digits is raised to the power of seven hundred in a complete diagram, which
is not refused. -/
theorem multiple_raised : ∃ s, (run cancelled {}).synthesize .null = .ok s ∧ s.complete = true ∧
    (run cancelled {}).Expresses .null (.join .subtract raisedMultiple raisedMultiple) ∧
    raisedMultiple.fold (Expr.algebra.emitter []) =
      .ok (some (.product [.number ((10 ^ 15) ^ 700), .power (.symbol "x") (.number 700)])) ∧
    powerDigits < |(700 : ℝ) * Real.logb 10 (|(10 ^ 15 : ℝ)|)| ∧
    (run cancelled {}).algebraicText .null = .ok (some "0") := by
  obtain ⟨s, hs, hc, hexpresses⟩ := (Keyed.run cancelled {}).expresses_of_text .null
    (t := .join .subtract raisedMultiple raisedMultiple) (by decide +kernel) (by decide +kernel)
  have hsymbol : (Formula.symbol "x").Builds [] (Expr.algebra.symbol "x") := rfl
  have hfactor : (Formula.number (.whole (10 ^ 15))).Builds [] (Expr.algebra.rational (10 ^ 15)) :=
    Formula.builds_number (by decide +kernel)
  have hbase : (Formula.join .multiply (.symbol "x") (.number (.whole (10 ^ 15)))).Builds []
      (Expr.algebra.mul (Expr.algebra.symbol "x") (Expr.algebra.rational (10 ^ 15))) :=
    hsymbol.fold_join hfactor
  have hexponent : (Formula.number (.whole 700)).Builds [] (Expr.algebra.rational (700 : ℤ)) :=
    Formula.builds_number (by decide +kernel)
  have hfold : raisedMultiple.fold (Expr.algebra.emitter []) =
      .ok (some (.product [.number ((10 ^ 15) ^ 700), .power (.symbol "x") (.number 700)])) := by
    have hne : ((10 ^ 15) ^ 700 : ℚ) ≠ 1 := (one_lt_pow₀ (by norm_num) (by norm_num)).ne'
    have hbuilds := Formula.builds_power_multiple Expr.algebra_distributes hbase hexponent
      (by norm_num)
    refine hbuilds.trans (congrArg (fun e => Except.ok (some e)) ?_)
    dsimp only [Expr.algebra]
    rw [← Expr.pow_mul_symbol "x" 700 (by norm_num), Expr.mul_symbol_number "x" (by norm_num),
      Expr.pow_multiple "x" (by norm_num) (by norm_num), zpow_ofNat, Int.cast_ofNat,
      Expr.scaled_symbolPower "x" 700 (by positivity) hne, Expr.symbolPower, if_neg (by norm_num)]
  refine ⟨s, hs, hc, hexpresses, hfold, ?_, ?_⟩
  · rw [abs_of_pos (by positivity : (0 : ℝ) < 10 ^ 15), Real.logb_pow,
      Real.logb_self_eq_one (by norm_num)]
    norm_num
  · have hdifference : (Formula.join .subtract raisedMultiple raisedMultiple).fold
        (Expr.algebra.emitter []) = .ok (some Expr.zero) := by
      have hpositive : (0 : ℚ) < (10 ^ 15) ^ 700 := by positivity
      rw [Formula.fold, hfold, ok_bind, ok_bind, ← Expr.sub_multiple_self "x" (r := 700)
        hpositive.ne' (neg_one_lt_zero.trans hpositive).ne' (by norm_num) (by norm_num)]
      rfl
    have hshows := (Keyed.run cancelled {}).algebraic_of_shows hs hexpresses.shows Expr.algebra
    rw [algebraicText, hshows.2, hdifference, Except.map, if_pos hc, ok_bind]
    decide +kernel

end Diagram

end EquationStudio
