import EquationStudio.Proofs.Algebra.Amount
import Mathlib.Data.Int.Cast.Lemmas

/-!
# Whole powers of the multiples of a symbol

A whole power of a multiple of a symbol is taken factor by factor, and the number among the factors
is raised at once, however many digits that takes (`Expr.pow_mul_symbol`).
-/

namespace EquationStudio.Expr

/-- A symbol to a power. -/
def symbolPower (name : String) (r : ℚ) : Expr :=
  if r = 1 then symbol name else power (symbol name) (number r)

/-! ## Powers of numbers and of symbols -/

/-- A whole power of a number, unless zero is inverted. -/
theorem wholePower_number {q r : ℚ} (hq : q = 0 → 0 ≤ r) :
    wholePower q r.num = number (q ^ r.num) := by
  have hinverse : ¬ (q = 0 ∧ r < 0) := fun h => (hq h.1).not_gt h.2
  rw [Amount.wholePower_eq, Amount.pow]
  simp only [hinverse, if_false]
  split
  · next h => rw [h, Rat.num_zero, zpow_zero]; rfl
  · rfl

/-- Such a power is taken. -/
theorem powerWithin_number (fuel : Nat) {q r : ℚ} (hq : q = 0 → 0 < r) (hr : r.den = 1) :
    powerWithin (fuel + 1) (number q) (number r) = number (q ^ r.num) := by
  have hwhole : wholePower q r.num = number (q ^ r.num) := wholePower_number fun h => (hq h).le
  have hinfinite : (number r == infinite) = false := rfl
  have hzero : (number r == zero) = decide (r = 0) := rfl
  have hone : (number r == one) = decide (r = 1) := rfl
  have hundefined : (number q == undefined || number r == undefined) = false := rfl
  have hbase : (number q == one) = decide (q = 1) := rfl
  simp only [powerWithin, hinfinite, hzero, hone, hundefined, hbase, Bool.false_eq_true, if_false,
    decide_eq_true_eq, hr, if_true, hwhole]
  split_ifs with h0 h1 h1
  · rw [h0, Rat.num_zero, zpow_zero]; rfl
  · rw [h1, Rat.num_one, zpow_one]
  · rw [h1, one_zpow]; rfl
  · rfl

/-- A power of a symbol stays one. -/
theorem powerWithin_symbol (fuel : Nat) (name : String) {r : ℚ} (h0 : r ≠ 0) (h1 : r ≠ 1) :
    powerWithin (fuel + 1) (symbol name) (number r) = power (symbol name) (number r) := by
  have hinfinite : (number r == infinite) = false := rfl
  have hzero : (number r == zero) = false := decide_eq_false h0
  have hone : (number r == one) = false := decide_eq_false h1
  have hundefined : (symbol name == undefined || number r == undefined) = false := rfl
  have hbase : (symbol name == one) = false := rfl
  simp only [powerWithin, hinfinite, hzero, hone, hundefined, hbase, Bool.false_eq_true, if_false]

/-! ## Factors -/

/-- A multiple of one is a number. -/
theorem scaled_one (q : ℚ) : scaled q one = number q := by
  unfold scaled
  split_ifs with h1 h0
  · rw [h1]; rfl
  · rw [h0]; rfl
  · exact congrArg number (mul_one q)

/-- The base and the exponent of a power of numbers may be inverted, which leaves the power. -/
theorem exists_splitPower {q r : ℚ} (hq : q = 0 → 0 < r) (hr : r.den = 1) :
    ∃ p x : ℚ, (p = 0 → 0 < x) ∧ x.den = 1 ∧
    p ^ x.num = q ^ r.num ∧ (power (number q) (number r)).splitPower = (number p, number x) := by
  by_cases hinverse : q.num = 1 ∧ q.den ≠ 1
  · have hbase : (q.den : ℚ)⁻¹ = q := by
      conv_rhs => rw [← Rat.num_div_den q, hinverse.1, Int.cast_one, one_div]
    refine ⟨q.den, -r, fun h => absurd h (Nat.cast_ne_zero.2 q.den_ne_zero), hr, ?_, ?_⟩
    · rw [Rat.num_neg_eq_neg_num, zpow_neg, ← inv_zpow, hbase]
    · exact (if_pos hinverse).trans (congrArg (Prod.mk _) (scaled_one (-r)))
  · exact ⟨q, r, hq, hr, rfl, if_neg hinverse⟩

/-- A whole power of a number is multiplied into the coefficient. -/
theorem takeFactor_number (fuel : Nat) {s : ProductParts} {q r : ℚ} (hq : q = 0 → 0 < r)
    (hr : r.den = 1) :
    takeFactor (fuel + 2) s (power (number q) (number r)) = s.scale (q ^ r.num) := by
  obtain ⟨p, x, hp, hx, hpower, hsplit⟩ := exists_splitPower hq hr
  rw [takeFactor, hsplit]
  simp only [hx, true_or, if_true]
  rw [powerWithin_number fuel hp hx, hpower, takeFactor]

/-- A symbol is collected. -/
theorem takeFactor_symbol (fuel : Nat) (s : ProductParts) (name : String) :
    takeFactor (fuel + 1) s (symbol name) =
    { s with powers := s.powers ++ [(symbol name, one)] } := by
  rw [takeFactor]
  all_goals simp

/-- A power of a symbol is collected. -/
theorem takeFactor_symbolPower (fuel : Nat) (s : ProductParts) (name : String) (r : ℚ) :
    takeFactor (fuel + 1) s (power (symbol name) (number r)) =
      { s with powers := s.powers ++ [(symbol name, number r)] } := by
  rw [takeFactor]
  rfl

/-- One power of a symbol that was collected. -/
theorem raise_symbol (fuel rounds : Nat) (name : String) {r : ℚ} (h0 : r ≠ 0) :
    raise (fuel + 2) rounds [(symbol name, number r)] = [symbolPower name r] := by
  have hgather : gather [(symbol name, number r)] = [(symbol name, number r)] := by
    show [(symbol name, scaled (r * 1) one)] = _
    rw [mul_one, scaled_one]
  have hzero : (number r != zero) = true := congrArg not (decide_eq_false h0)
  have hsame : (symbol name != symbol name) = false := congrArg not (decide_eq_true rfl)
  have hraised : (if number r == one then (symbol name, symbol name, number r)
      else
        let e := powerWithin (fuel + 1) (symbol name) (number r)
        (e, if e.isPower && !(symbol name).isPower then e.splitPower
          else (symbol name, number r))) =
      (symbolPower name r, symbol name, number r) := by
    have hone : (number r == one) = decide (r = 1) := rfl
    rw [hone]
    by_cases h1 : r = 1
    · rw [if_pos (decide_eq_true h1), symbolPower, if_pos h1]
    · rw [if_neg (by simpa using h1), symbolPower, if_neg h1, powerWithin_symbol fuel name h0 h1]
      rfl
  cases rounds with
  | zero =>
    rw [raise]
    simp only [hgather, List.filter_cons, List.filter_nil, hzero, if_true, List.map_cons,
      List.map_nil, hraised]
  | succ rounds =>
    rw [raise]
    simp only [hgather, List.filter_cons, List.filter_nil, hzero, if_true, List.map_cons,
      List.map_nil, hraised, List.zip_cons_cons, List.zip_nil_left, List.any_cons, List.any_nil,
      hsame, Bool.or_false, Bool.false_and,
      Bool.false_eq_true, if_false]

/-! ## Multiples of a power of a symbol -/

/-- A power of a symbol is the symbol or stays a power. -/
theorem symbolPower_cases (name : String) (r : ℚ) :
    symbolPower name r = symbol name ∨ symbolPower name r = power (symbol name) (number r) := by
  unfold symbolPower
  split
  · exact .inl rfl
  · exact .inr rfl

/-- One times an expression is the expression. -/
theorem one_scaled (e : Expr) : scaled 1 e = e := if_pos rfl

/-- A multiple of a power of a symbol, by a number other than one. -/
theorem scaled_symbolPower (name : String) {q : ℚ} (r : ℚ) (hq : q ≠ 0) (hq1 : q ≠ 1) :
    scaled q (symbolPower name r) = product [number q, symbolPower name r] := by
  obtain h | h := symbolPower_cases name r
  all_goals
    rw [h]
    exact (if_neg hq1).trans (if_neg hq)

/-- A product of which a coefficient and one power of a symbol were collected. -/
theorem finishProduct_symbol (fuel : Nat) (name : String) {q r : ℚ} (hq : q ≠ 0) (h0 : r ≠ 0) :
    finishProduct (fuel + 3) { coefficient := q, powers := [(symbol name, number r)] } =
      scaled q (symbolPower name r) := by
  have hgather : gather [] = [] := rfl
  have hjoin : joinRoots (fuel + 2) [] [] = (1, []) := by rw [joinRoots]
  have hpart : (0 : ℚ) - ((0 : ℚ).floor : ℚ) = 0 := by decide +kernel
  have hroots : byExponent (α := ℚ) [] = [] := rfl
  have hexponentials : byExponent (α := Expr) [] = [] := rfl
  have hscale : ∀ s : ProductParts, s.scale 1 = s := fun s => by
    unfold ProductParts.scale
    split <;> simp
  have hsign : (if (0 : ℚ).floor % 2 = 0 then (1 : ℚ) else -1) = 1 := if_pos rfl
  have hnumbers : numbersProduct [] = 1 := rfl
  have hraise := raise_symbol fuel 2 name h0
  have hscaled := scaled_symbolPower name r hq
  obtain ⟨f, hf⟩ : ∃ f, f = symbolPower name r := ⟨_, rfl⟩
  have hcases := symbolPower_cases name r
  rw [← hf] at hcases
  have horder : orderedFactors [f] = [f] := by simp [orderedFactors]
  have hkind : f.factors = [f] ∧ (f == undefined) = false ∧ f.isNumber = false ∧ f.isSum = false ∧
      (f != infinite) = true ∧ (infinite == f) = false := by
    obtain rfl | rfl := hcases <;> exact ⟨rfl, rfl, rfl, rfl, rfl, rfl⟩
  obtain ⟨hfactors, hundefined, hnumber, hsum, hinfinite, hinfinite'⟩ := hkind
  rw [← hf] at hraise hscaled ⊢
  rw [finishProduct]
  simp only [hraise, hgather, hexponentials, hroots, hjoin, hpart, List.filterMap_nil, List.map_nil,
    List.foldl_nil, List.filter_nil, if_true, List.append_nil, List.flatMap_cons, List.flatMap_nil,
    hfactors, List.any_cons, List.any_nil, hundefined, Bool.or_false, Bool.false_eq_true, if_false,
    List.filter_cons, hnumber, Bool.not_false, hnumbers, mul_one, hsign, hscale, List.contains_cons,
    List.contains_nil, hinfinite, hinfinite', horder, hsum, hq]
  by_cases hq1 : q = 1
  · rw [if_pos hq1, hq1, one_scaled]
  · rw [if_neg hq1, hscaled hq1]

/-- A power of a symbol times a number. -/
theorem mul_symbolPower_number (name : String) {q r : ℚ} (hq : q ≠ 0) (h0 : r ≠ 0) :
    mul (symbolPower name r) (number q) = scaled q (symbolPower name r) := by
  have hproduct : mul (symbolPower name r) (number q) =
      finishProduct 399 (takeFactor 399 (takeFactor 399 {} (symbolPower name r)) (number q)) := by
    have hwithin : mul (symbolPower name r) (number q) =
        productWithin 400 [symbolPower name r, number q] := by
      unfold symbolPower
      split <;> rfl
    rw [hwithin, productWithin, List.foldl_cons, List.foldl_cons, List.foldl_nil]
  have htaken : takeFactor 399 (takeFactor 399 {} (symbolPower name r)) (number q) =
      { coefficient := q, powers := [(symbol name, number r)] } := by
    unfold symbolPower
    split
    · next h1 =>
      rw [takeFactor_symbol 398, takeFactor, h1]
      simp only [ProductParts.scale, Bool.false_eq_true, if_false, one_mul, List.nil_append, one]
    · rw [takeFactor_symbolPower 398, takeFactor]
      simp only [ProductParts.scale, Bool.false_eq_true, if_false, one_mul, List.nil_append]
  rw [hproduct, htaken, finishProduct_symbol 396 name hq h0]

/-- A whole power of a product of a number and a symbol is taken factor by factor, and the number is
raised at once. -/
theorem pow_product_symbol (name : String) {q : ℚ} {k : ℤ} (hq : q ≠ 0) (h0 : k ≠ 0) (h1 : k ≠ 1) :
    pow (product [number q, symbol name]) (number k) = scaled (q ^ k) (symbolPower name k) := by
  have hr : (k : ℚ).den = 1 := Rat.den_intCast k
  have hk : (k : ℚ) ≠ 0 := Int.cast_ne_zero.2 h0
  have hinfinite : (number (k : ℚ) == infinite) = false := rfl
  have hzero : (number (k : ℚ) == zero) = false := decide_eq_false hk
  have hone : (number (k : ℚ) == one) = false := decide_eq_false (by exact_mod_cast h1)
  have hundefined : (product [number q, symbol name] == undefined || number (k : ℚ) == undefined) =
    false := rfl
  have hbase : (product [number q, symbol name] == one) = false := rfl
  have hfactors : pow (product [number q, symbol name]) (number k) =
      productWithin 399 [power (number q) (number k), power (symbol name) (number k)] := by
    show powerWithin 400 _ _ = _
    simp only [powerWithin, hinfinite, hzero, hone, hundefined, hbase, Bool.false_eq_true, if_false,
      hr, if_true, List.map_cons, List.map_nil]
  have htaken : takeFactor 398 (takeFactor 398 {} (power (number q) (number k)))
      (power (symbol name) (number k)) =
        { coefficient := q ^ k, powers := [(symbol name, number k)] } := by
    rw [takeFactor_number 396 (fun h => absurd h hq) hr,
      takeFactor_symbolPower 397, Rat.num_intCast]
    simp only [ProductParts.scale, Bool.false_eq_true, if_false, one_mul, List.nil_append]
  rw [hfactors, productWithin, List.foldl_cons, List.foldl_cons, List.foldl_nil, htaken,
    finishProduct_symbol 395 name (zpow_ne_zero _ hq) hk]

/-- To the power zero everything is one. -/
theorem pow_number_zero : ∀ e : Expr, pow e (number 0) = number 1
  | number q => by
    rw [pow, if_pos Rat.den_zero, wholePower_number fun _ => le_rfl, Rat.num_zero, zpow_zero]
  | undefined | infinite | imaginary | symbol _ | power _ _ | product _ | sum _ => rfl

/-- A whole power of a multiple of a symbol, to a power other than zero. -/
theorem pow_multiple (name : String) {q : ℚ} {k : ℤ} (hq : q ≠ 0) (h0 : k ≠ 0) :
    pow (scaled q (symbol name)) (number k) = scaled (q ^ k) (symbolPower name k) := by
  have hsymbol : symbol name = symbolPower name 1 := (if_pos rfl).symm
  by_cases hq1 : q = 1
  · rw [hq1, one_zpow, one_scaled, one_scaled]
    by_cases h1 : (k : ℚ) = 1
    · rw [h1, ← hsymbol]
      rfl
    · rw [symbolPower, if_neg h1]
      exact powerWithin_symbol 399 name (Int.cast_ne_zero.2 h0) h1
  · rw [hsymbol, scaled_symbolPower name 1 hq hq1, ← hsymbol]
    by_cases h1 : k = 1
    · have hscaled := scaled_symbolPower name 1 hq hq1
      rw [h1, zpow_one, Int.cast_one, hscaled, ← hsymbol]
      rfl
    · exact pow_product_symbol name hq h0 h1

/-- A symbol times a number. -/
theorem mul_symbol_number (name : String) {q : ℚ} (hq : q ≠ 0) :
    mul (symbol name) (number q) = scaled q (symbol name) := by
  have hone := mul_symbolPower_number name hq one_ne_zero
  rwa [symbolPower, if_pos rfl] at hone

/-- Whole powers of the multiples of a symbol are taken factor by factor. -/
theorem pow_mul_symbol (name : String) {q : ℚ} (k : ℤ) (hq : q ≠ 0) :
    pow (mul (symbol name) (number q)) (number k) =
      mul (pow (symbol name) (number k)) (number (q ^ k)) := by
  by_cases h0 : k = 0
  · rw [h0, Int.cast_zero, pow_number_zero, pow_number_zero, zpow_zero]
    exact congrArg number (mul_one 1).symm
  · have hpow := pow_multiple name (q := 1) one_ne_zero h0
    rw [one_zpow, one_scaled, one_scaled] at hpow
    rw [mul_symbol_number name hq, pow_multiple name hq h0, hpow,
      mul_symbolPower_number name (zpow_ne_zero _ hq) (Int.cast_ne_zero.2 h0)]

/-- The difference of a multiple of a power of a symbol and itself. -/
theorem sub_multiple_self (name : String) {q r : ℚ} (hq : q ≠ 0) (hq1 : q ≠ -1)
    (h0 : r ≠ 0) (h1 : r ≠ 1) :
    Expr.sub (product [number q, power (symbol name) (number r)])
      (product [number q, power (symbol name) (number r)]) =
      zero := by
  have htaken : takeFactor 399 (takeFactor 399 {} minusOne) (product [number q,
      power (symbol name) (number r)]) =
      { coefficient := -q, powers := [(symbol name, number r)] } := by
    rw [minusOne, takeFactor, takeFactor, List.foldl_cons, List.foldl_cons,
      List.foldl_nil, takeFactor, takeFactor_symbolPower 397]
    simp only [ProductParts.scale, Bool.false_eq_true, if_false, one_mul, neg_mul, List.nil_append]
  have hneg : neg (product [number q, power (symbol name) (number r)]) =
      product [number (-q), power (symbol name) (number r)] := by
    show productWithin 400 [minusOne, product [number q, power (symbol name) (number r)]] = _
    rw [productWithin, List.foldl_cons, List.foldl_cons, List.foldl_nil, htaken,
      finishProduct_symbol 396 name (neg_ne_zero.2 hq) h0, scaled_symbolPower name r
        (neg_ne_zero.2 hq) fun h => hq1 (neg_eq_iff_eq_neg.1 h), symbolPower, if_neg h1]
  have hsame : (power (symbol name) (number r) == power (symbol name) (number r)) = true := by
    show (decide (name = name) && decide (r = r)) = true
    simp
  rw [Expr.sub, hneg]
  show sumOf [_, _] = _
  simp only [sumOf, terms, List.flatMap_cons, List.flatMap_nil, List.cons_append,
    List.nil_append, List.foldl_cons, List.foldl_nil, SumParts.take, splitCoefficient,
    addCoefficient, hsame, if_true, add_neg_cancel]
  simp [SumParts.total]

end EquationStudio.Expr
