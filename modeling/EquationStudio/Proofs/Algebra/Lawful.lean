import EquationStudio.Algebra.Computed
import EquationStudio.Proofs.Algebra.Accuracy
import EquationStudio.Proofs.Algebra.Coefficient
import EquationStudio.Proofs.Algebra.Symbols
import EquationStudio.Proofs.Synthesis.Laws

/-!
# Expressions obey the laws

What results rely on of a computer algebra holds of the expressions in normal form, which are the
algebra that runs: they are exact on rationals (`Expr.algebra_exact`), are converted by way of 53
digits (`Expr.algebra_converts`), go on from a division by zero as the projective line does
(`Expr.algebraExtension`), invent no symbols (`Expr.algebra_scoped`) and keep their values
(`Expr.algebraValuation`).
-/

namespace EquationStudio.Expr

/-! ## Rationals -/

/-- Expressions work rationals out exactly. -/
theorem algebra_exact : algebra.Exact where
  injective _ _ h := number.inj h
  add p q := Amount.toExpr_add (.finite p) (.finite q)
  sub p q := by
    refine (Amount.toExpr_sub (.finite p) (.finite q)).trans (congrArg number ?_)
    ring
  mul p q := Amount.toExpr_mul (.finite p) (.finite q)
  div p q hq := by
    refine (Amount.toExpr_div (.finite p) (.finite q)).trans ?_
    rw [Amount.div, if_neg hq]
    rfl
  pow q n hzero := by
    have hpow :=
      Amount.toExpr_pow (.finite q) (.finite n) (by rintro _ _ - ⟨⟩; exact Rat.den_intCast n)
    refine hpow.trans ?_
    have hinverse : ¬ (q = 0 ∧ (n : ℚ) < 0) := fun h => (hzero h.1).not_gt (by exact_mod_cast h.2)
    by_cases hn : (n : ℚ) = 0
    · rw [hn, Amount.pow_zero, Int.cast_eq_zero.1 hn, zpow_zero]
      rfl
    · simp only [Amount.pow, hn, hinverse, if_false, Rat.num_intCast]
      rfl
  isNumber _ := rfl
  isZero e := beq_iff_eq
  names q := by
    show symbols (number q) = []
    rw [symbols, symbolList_number, List.foldl_nil]
  isSingular q := by
    show isSingular (number q) = false
    rfl
  isFinite _ := rfl
  isReal _ := rfl

/-- Expressions are converted to doubles by way of 53 significant digits. -/
theorem algebra_converts : algebra.Converts where
  toDouble _ := rfl
  powerDigits q r hq := by
    refine ⟨digitsOfPower q r, rfl, (digitsOfPower_near hq r).trans ?_⟩
    gcongr
    · norm_num
    · norm_num

/-! ## Divisions by zero -/

/-- Zero to a negative power is the infinity, with fuel for each step. -/
theorem powerWithin_zero_negative (fuel : Nat) {r : ℚ} (hr : r < 0) :
    powerWithin (fuel + 2) (number 0) (number r) = infinite := by
  have hinverse : ¬ 0 < r := hr.not_gt
  have hinfinite : (number r == infinite) = false := rfl
  have hzero : (number r == zero) = false := decide_eq_false hr.ne
  have hone : (number r == one) = false := decide_eq_false (hr.trans zero_lt_one).ne
  have hundefined : (number 0 == undefined || number r == undefined) = false := rfl
  have hbase : (number 0 == one) = false := decide_eq_false (by norm_num : (0 : ℚ) ≠ 1)
  have hwhole : wholePower 0 r.num = infinite := if_pos ⟨rfl, Rat.num_neg.2 hr⟩
  have hroot : numberPower (fuel + 1) 0 r = infinite := by
    rw [numberPower, if_pos rfl, if_neg hinverse]
  simp only [powerWithin, hinfinite, hzero, hone, hundefined, hbase, Bool.false_eq_true, if_false,
    hwhole, hroot, ite_self]

/-- Zero to a negative power is the infinity. -/
theorem pow_zero_negative {r : ℚ} (hr : r < 0) : pow (number 0) (number r) = infinite := by
  unfold pow
  dsimp only
  split
  · exact if_pos ⟨rfl, Rat.num_neg.2 hr⟩
  · exact powerWithin_zero_negative 398 hr

/-- To an infinite power everything is undefined. -/
theorem pow_infinite : ∀ e : Expr, pow e infinite = undefined
  | number _ | undefined | infinite | imaginary | symbol _ | power _ _ | product _ | sum _ => rfl

/-- To an undefined power too. -/
theorem pow_undefined : ∀ e : Expr, pow e undefined = undefined
  | number _ | undefined | infinite | imaginary | symbol _ | power _ _ | product _ | sum _ => rfl

open Amount

/-- Whether a number is zero decides what the infinity makes of it. -/
theorem toExpr_ite (q : ℚ) : (if q = 0 then Amount.undefined else .infinite).toExpr =
    if algebra.isZero (number q) then Expr.undefined else .infinite := by
  have hzero : algebra.isZero (number q) = decide (q = 0) := rfl
  rw [hzero, apply_ite toExpr]
  simp only [decide_eq_true_eq]
  rfl

/-- What is known of is an amount. -/
theorem exists_toExpr {e : Expr} (h : (∃ q, e = number q) ∨ e = .infinite ∨ e = .undefined) :
    ∃ a : Amount, e = a.toExpr := by
  obtain ⟨q, rfl⟩ | rfl | rfl := h
  · exact ⟨.finite q, rfl⟩
  · exact ⟨.infinite, rfl⟩
  · exact ⟨.undefined, rfl⟩

/-- Expressions go on from a division by zero as the projective line does. Of rationals it is known
what they are. -/
def algebraExtension : algebra.Extension where
  infinite := .infinite
  undefined := .undefined
  Known e := ∃ q, e = number q
  Negative e := ∃ q < 0, e = number q
  known_rational q := ⟨q, rfl⟩
  negative_rational q hq := ⟨q, hq, rfl⟩
  names_infinite := rfl
  names_undefined := rfl
  isSingular_infinite := rfl
  isSingular_undefined := rfl
  isNumber_infinite := rfl
  digits_undefined _ := rfl
  undefined_digits e := by cases e <;> rfl
  div_zero := by
    rintro _ ⟨q, rfl⟩
    refine (toExpr_div (.finite q) (.finite 0)).trans ?_
    rw [Amount.div, if_pos rfl]
    exact toExpr_ite q
  zero_pow := by
    rintro _ ⟨q, hq, rfl⟩
    exact pow_zero_negative hq
  pow_zero := pow_number_zero
  add_infinite := by
    rintro _ ⟨q, rfl⟩
    exact toExpr_add (.finite q) .infinite
  infinite_add := by
    rintro _ ⟨q, rfl⟩
    exact toExpr_add .infinite (.finite q)
  sub_infinite := by
    rintro _ ⟨q, rfl⟩
    exact toExpr_sub (.finite q) .infinite
  infinite_sub := by
    rintro _ ⟨q, rfl⟩
    exact toExpr_sub .infinite (.finite q)
  mul_infinite := by
    rintro _ ⟨q, rfl⟩
    exact (toExpr_mul (.finite q) .infinite).trans (toExpr_ite q)
  infinite_mul := by
    rintro _ ⟨q, rfl⟩
    exact (toExpr_mul .infinite (.finite q)).trans (toExpr_ite q)
  infinite_div := by
    rintro _ ⟨q, rfl⟩
    refine (toExpr_div .infinite (.finite q)).trans ?_
    rw [infinite_div_finite]
    rfl
  div_infinite := by
    rintro _ ⟨q, rfl⟩
    refine (toExpr_div (.finite q) .infinite).trans ?_
    rw [finite_div_infinite]
    rfl
  infinite_pow r hr := by
    refine (powerWithin_infinite 399 r).trans ?_
    simp only [Amount.pow, hr.ne', if_false, hr, if_true]
    rfl
  infinite_inv r hr := by
    refine (powerWithin_infinite 399 r).trans ?_
    simp only [Amount.pow, hr.ne, if_false, hr.not_gt]
    rfl
  pow_infinite := pow_infinite
  infinite_add_infinite := toExpr_add .infinite .infinite
  infinite_sub_infinite := toExpr_sub .infinite .infinite
  infinite_mul_infinite := toExpr_mul .infinite .infinite
  infinite_div_infinite := toExpr_div .infinite .infinite
  undefined_add := by
    rintro e he
    obtain ⟨a, rfl⟩ := exists_toExpr he
    refine ⟨(toExpr_add a .undefined).trans ?_, (toExpr_add .undefined a).trans ?_⟩
    all_goals cases a <;> rfl
  undefined_sub := by
    rintro e he
    obtain ⟨a, rfl⟩ := exists_toExpr he
    refine ⟨(toExpr_sub a .undefined).trans ?_, (toExpr_sub .undefined a).trans ?_⟩
    all_goals cases a <;> rfl
  undefined_mul := by
    rintro e he
    obtain ⟨a, rfl⟩ := exists_toExpr he
    refine ⟨(toExpr_mul a .undefined).trans ?_, (toExpr_mul .undefined a).trans ?_⟩
    all_goals cases a <;> rfl
  undefined_div := by
    rintro e he
    obtain ⟨a, rfl⟩ := exists_toExpr he
    refine ⟨(toExpr_div a .undefined).trans ?_, (toExpr_div .undefined a).trans ?_⟩
    all_goals cases a <;> rfl
  undefined_pow r hr := by
    refine (powerWithin_undefined 399 r).trans ?_
    simp only [Amount.pow, hr, if_false]
    rfl
  pow_undefined := pow_undefined

/-! ## Symbols and values -/

/-- The symbols of an expression, each once. -/
theorem mem_symbols {e : Expr} {s : String} : s ∈ e.symbols ↔ s ∈ e.symbolList := by
  have hcollected : ∀ names found : List String,
      s ∈ names.foldl (fun found s => if found.contains s then found else s :: found) found ↔
        s ∈ found ∨ s ∈ names := by
    intro names
    induction names with
    | nil => exact fun found => (or_iff_left List.not_mem_nil).symm
    | cons name names ih =>
      intro found
      rw [List.foldl_cons, ih, List.mem_cons]
      split
      · next h =>
        have hmem : name ∈ found := List.contains_iff_mem.1 h
        exact ⟨fun h => h.imp_right .inr,
          fun h => h.elim .inl fun h => h.elim (fun h => .inl (h ▸ hmem)) .inr⟩
      · rw [List.mem_cons]
        exact ⟨fun h => h.elim (fun h => h.elim (.inr ∘ .inl) .inl) (.inr ∘ .inr),
          fun h => h.elim (.inl ∘ .inr) fun h => h.elim (.inl ∘ .inl) .inr⟩
  rw [symbols, hcollected]
  exact or_iff_right List.not_mem_nil

/-- The symbols of an expression are from a list if they are from it with repetitions. -/
theorem Over.symbols {e : Expr} {names : List String} (h : e.Over names) : e.symbols ⊆ names :=
  fun _ hs => h _ (mem_symbols.1 hs)

/-- An expression has its own symbols. -/
theorem over_symbols (e : Expr) : e.Over e.symbols := fun _ hs => mem_symbols.2 hs

/-- Expressions over one list and over another are over both together. -/
theorem over_append (e f : Expr) :
    e.Over (e.symbols ++ f.symbols) ∧ f.Over (e.symbols ++ f.symbols) :=
  ⟨fun s hs => List.mem_append_left _ (e.over_symbols s hs),
    fun s hs => List.mem_append_right _ (f.over_symbols s hs)⟩

/-- Operations on expressions invent no symbols. -/
theorem algebra_scoped : algebra.Scoped where
  isNumber e h := by
    cases e with
    | number q => exact algebra_exact.names q
    | undefined => rfl
    | infinite | imaginary | symbol | power | product | sum => cases h
  symbol _ := (over_symbol.2 (List.mem_singleton_self _)).symbols
  add e f := ((over_append e f).1.add (over_append e f).2).symbols
  sub e f := ((over_append e f).1.sub (over_append e f).2).symbols
  mul e f := ((over_append e f).1.mul (over_append e f).2).symbols
  div e f := ((over_append e f).1.div (over_append e f).2).symbols
  pow e f := ((over_append e f).1.pow (over_append e f).2).symbols

/-- Operations on expressions keep their values. -/
def algebraValuation : algebra.Valuation where
  Meets := Meets
  rational _ q := ⟨.number q, rational_number q⟩
  symbol _ name := ⟨.symbol name, rational_symbol name⟩
  add he hf := he.add hf
  sub he hf := he.sub hf
  mul he hf := he.mul hf
  div he hf hq := he.div hf hq
  pow he hzero := by
    have hpow := he.pow (Rat.den_intCast _) fun h => Int.cast_nonneg (hzero h)
    rwa [Rat.num_intCast] at hpow
  constant {ρ e q} h hnone := by
    have hlist : e.symbolList = [] := List.eq_nil_iff_forall_not_mem.2 fun s hs => by
      have hmem : s ∈ e.symbols := mem_symbols.2 hs
      rw [show e.symbols = [] from hnone] at hmem
      cases hmem
    rw [← h.rational]
    exact h.regular.eq_number hlist

/-! ## Powers of multiples -/

/-- Whole powers of the multiples of a symbol are taken factor by factor. -/
theorem algebra_distributes : algebra.Distributes where
  isNumber name q hq := by
    dsimp only [algebra]
    rw [mul_symbol_number name hq]
    by_cases hq1 : q = 1
    · rw [hq1, one_scaled]
      rfl
    · have hscaled : scaled q (symbol name) = product [number q, symbol name] :=
        (if_neg hq1).trans (if_neg hq)
      rw [hscaled]
      rfl
  pow name q k hq := by
    dsimp only [algebra]
    exact pow_mul_symbol name k hq

end EquationStudio.Expr
