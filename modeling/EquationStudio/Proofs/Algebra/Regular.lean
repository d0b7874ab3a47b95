import EquationStudio.Algebra.Sum
import Mathlib.Algebra.Order.Field.Rat
import Mathlib.Algebra.BigOperators.Ring.List
import Mathlib.Tactic.Ring

/-!
# Normal forms with whole exponents

With values for its symbols an expression whose exponents are whole is a rational (`Expr.rational`),
unless something with a negative exponent is zero. `Expr.Regular` are the normal forms that are
defined in this sense: a power has a symbol or a sum for its base, and products and sums that are no
numbers have a symbol somewhere (`Expr.Regular.exists_symbol`). Collecting the terms of a sum keeps
both the form and the rational (`Expr.Meets.sumOf`).
-/

namespace EquationStudio.Expr

/-! ## Equal expressions -/

mutual

/-- Expressions that are the same are equal. -/
theorem eq_of_same : ∀ {a b : Expr}, same a b = true → a = b
  | number p, b, h => by
    cases b <;> simp only [same, Bool.false_eq_true, decide_eq_true_eq] at h
    rw [h]
  | undefined, b, h | infinite, b, h | imaginary, b, h => by
    cases b <;> first | rfl | simp [same] at h
  | symbol name, b, h => by
    cases b <;> simp only [same, Bool.false_eq_true, decide_eq_true_eq] at h
    rw [h]
  | power b e, c, h => by
    cases c <;> simp only [same, Bool.false_eq_true, Bool.and_eq_true] at h
    rw [eq_of_same h.1, eq_of_same h.2]
  | product fs, b, h => by
    cases b <;> simp only [same, Bool.false_eq_true] at h
    rw [eq_of_sameList h]
  | sum ts, b, h => by
    cases b <;> simp only [same, Bool.false_eq_true] at h
    rw [eq_of_sameList h]

/-- Lists of expressions that are the same are equal. -/
theorem eq_of_sameList : ∀ {as bs : List Expr}, sameList as bs = true → as = bs
  | [], bs, h => by
    cases bs <;> first | rfl | simp [sameList] at h
  | a :: as, bs, h => by
    cases bs <;> simp only [sameList, Bool.false_eq_true, Bool.and_eq_true] at h
    rw [eq_of_same h.1, eq_of_sameList h.2]

end

mutual

/-- An expression is the same as itself. -/
theorem same_self : ∀ e : Expr, same e e = true
  | number _ | symbol _ => by simp [same]
  | undefined | infinite | imaginary => by simp [same]
  | power b e => by rw [same, same_self b, same_self e]; rfl
  | product fs => by rw [same, sameList_self fs]
  | sum ts => by rw [same, sameList_self ts]

/-- A list of expressions is the same as itself. -/
theorem sameList_self : ∀ es : List Expr, sameList es es = true
  | [] => by rw [sameList]
  | e :: es => by rw [sameList, same_self e, sameList_self es]; rfl

end

instance : LawfulBEq Expr where
  eq_of_beq := eq_of_same
  rfl := same_self _

/-! ## The rational that an expression is -/

mutual

/-- The rational that an expression with whole exponents is, with values for its symbols. -/
def rational (ρ : String → ℚ) : Expr → ℚ
  | number q => q
  | symbol name => ρ name
  | power b (number r) => rational ρ b ^ r.num
  | product fs => rationalProduct ρ fs
  | sum ts => rationalSum ρ ts
  | _ => 0

/-- The product of the rationals that expressions are. -/
def rationalProduct (ρ : String → ℚ) : List Expr → ℚ
  | [] => 1
  | e :: es => rational ρ e * rationalProduct ρ es

/-- The sum of the rationals that expressions are. -/
def rationalSum (ρ : String → ℚ) : List Expr → ℚ
  | [] => 0
  | e :: es => rational ρ e + rationalSum ρ es

end

variable {ρ : String → ℚ}

/-- The product is that of the list. -/
theorem rationalProduct_eq (fs : List Expr) :
    rationalProduct ρ fs = (fs.map (rational ρ)).prod := by
  induction fs with
  | nil => rw [rationalProduct, List.map_nil, List.prod_nil]
  | cons f fs ih => rw [rationalProduct, ih, List.map_cons, List.prod_cons]

/-- The sum is that of the list. -/
theorem rationalSum_eq (ts : List Expr) : rationalSum ρ ts = (ts.map (rational ρ)).sum := by
  induction ts with
  | nil => rw [rationalSum, List.map_nil, List.sum_nil]
  | cons t ts ih => rw [rationalSum, ih, List.map_cons, List.sum_cons]

@[simp] theorem rational_number (q : ℚ) : rational ρ (number q) = q := by rw [rational]

@[simp] theorem rational_symbol (name : String) : rational ρ (symbol name) = ρ name :=
  by rw [rational]

@[simp] theorem rational_power (b : Expr) (r : ℚ) :
    rational ρ (power b (number r)) = rational ρ b ^ r.num := by
  rw [rational]

@[simp] theorem rational_product (fs : List Expr) :
    rational ρ (product fs) = (fs.map (rational ρ)).prod := by
  rw [rational, rationalProduct_eq]

@[simp] theorem rational_sum (ts : List Expr) :
    rational ρ (sum ts) = (ts.map (rational ρ)).sum := by
  rw [rational, rationalSum_eq]

/-! ## Regular expressions -/

/-- Whether an expression is a base that powers keep: a symbol or a sum. -/
def isAtom : Expr → Bool
  | symbol _ | sum _ => true
  | _ => false

/-- Whether an expression is a product. -/
def isProduct : Expr → Bool
  | product _ => true
  | _ => false

/-- A whole exponent that a base may have: a positive one if the base is zero. -/
structure Admits (ρ : String → ℚ) (b : Expr) (r : ℚ) : Prop where
  whole : r.den = 1
  pos_of_zero : b.rational ρ = 0 → 0 < r

/-- Normal forms with whole exponents, in which nothing with a negative exponent is zero. -/
inductive Regular (ρ : String → ℚ) : Expr → Prop
  | number (q : ℚ) : Regular ρ (number q)
  | symbol (name : String) : Regular ρ (symbol name)
  | power {b : Expr} {r : ℚ} (hb : Regular ρ b) (hatom : b.isAtom = true)
      (hr : b.Admits ρ r) (h0 : r ≠ 0) :
      Regular ρ (power b (number r))
  | product {fs : List Expr} (h : ∀ f ∈ fs, Regular ρ f) (hflat : ∀ f ∈ fs, f.isProduct = false)
      (hsome : ∃ f ∈ fs, f.isNumber = false) : Regular ρ (product fs)
  | sum {ts : List Expr} (h : ∀ t ∈ ts, Regular ρ t) (hsome : ∃ t ∈ ts, t.isNumber = false) :
      Regular ρ (sum ts)

/-- Numbers have no symbols. -/
theorem symbolList_number (q : ℚ) : (number q).symbolList = [] := by
  rw [symbolList] <;> nofun

/-- The symbols of a member of a list are among those of the list. -/
theorem mem_symbolsOf {s : String} {e : Expr} {es : List Expr} (he : e ∈ es)
    (hs : s ∈ e.symbolList) : s ∈ symbolsOf es := by
  induction es with
  | nil => cases he
  | cons e' es ih =>
    rw [symbolsOf, List.mem_append]
    obtain rfl | he := List.mem_cons.1 he
    · exact .inl hs
    · exact .inr (ih he)

/-- The symbols of a list are those of its members. -/
theorem exists_of_mem_symbolsOf {s : String} {es : List Expr} (h : s ∈ symbolsOf es) :
    ∃ e ∈ es, s ∈ e.symbolList := by
  induction es with
  | nil => rw [symbolsOf] at h; cases h
  | cons e es ih =>
    rw [symbolsOf, List.mem_append] at h
    obtain h | h := h
    · exact ⟨e, List.mem_cons_self, h⟩
    · obtain ⟨e', he', h⟩ := ih h
      exact ⟨e', List.mem_cons_of_mem _ he', h⟩

namespace Regular

variable {e : Expr}

/-- A regular expression that is no number has a symbol. -/
theorem exists_symbol (h : e.Regular ρ) (hnumber : e.isNumber = false) : ∃ s, s ∈ e.symbolList := by
  induction h with
  | number q => cases hnumber
  | symbol => exact ⟨_, by rw [symbolList]; exact List.mem_singleton_self _⟩
  | @power b r hb hatom _ _ ih =>
    obtain ⟨s, hs⟩ := ih (by cases b <;> first | rfl | cases hatom)
    exact ⟨s, by rw [symbolList]; exact List.mem_append_left _ hs⟩
  | product _ _ hsome ih =>
    obtain ⟨f, hf, hnumber⟩ := hsome
    obtain ⟨s, hs⟩ := ih f hf hnumber
    exact ⟨s, by rw [symbolList]; exact mem_symbolsOf hf hs⟩
  | sum _ hsome ih =>
    obtain ⟨t, ht, hnumber⟩ := hsome
    obtain ⟨s, hs⟩ := ih t ht hnumber
    exact ⟨s, by rw [symbolList]; exact mem_symbolsOf ht hs⟩

/-- A regular expression without symbols is the number that it is. -/
theorem eq_number (h : e.Regular ρ) (hnone : e.symbolList = []) :
    e = Expr.number (rational ρ e) := by
  cases e with
  | number q => rw [rational_number]
  | undefined | infinite | imaginary => cases h
  | symbol | power | product | sum =>
    obtain ⟨s, hs⟩ := h.exists_symbol rfl
    rw [hnone] at hs
    cases hs

end Regular

/-- A regular expression that is a given rational. -/
structure Meets (ρ : String → ℚ) (e : Expr) (q : ℚ) : Prop where
  regular : e.Regular ρ
  rational : e.rational ρ = q

/-! ## Coefficients -/

/-- The rational factor of a regular expression and the rest. -/
theorem Regular.splitCoefficient {e : Expr} (h : e.Regular ρ) : e.splitCoefficient.2.Regular ρ ∧
    e.splitCoefficient.1 * e.splitCoefficient.2.rational ρ = e.rational ρ := by
  have hself : ((1 : ℚ), e).2.Regular ρ ∧
      ((1 : ℚ), e).1 * ((1 : ℚ), e).2.rational ρ = e.rational ρ :=
    ⟨h, one_mul _⟩
  unfold Expr.splitCoefficient
  split
  · exact ⟨.number 1, by simp [one]⟩
  · next q f =>
    cases h with
    | product h => exact ⟨h f (by simp), by simp⟩
  · next q fs _ =>
    cases h with
    | product h hflat hsome =>
      refine ⟨.product (fun f hf => h f (List.mem_cons_of_mem _ hf))
        (fun f hf => hflat f (List.mem_cons_of_mem _ hf)) ?_, by simp⟩
      simpa [isNumber] using hsome
  · exact hself

/-- The rest is a number only if the expression is. -/
theorem Regular.isNumber_splitCoefficient {e : Expr} (h : e.Regular ρ)
    (hnumber : e.isNumber = false) : e.splitCoefficient.2.isNumber = false := by
  unfold Expr.splitCoefficient
  split
  · cases hnumber
  · cases h with
    | product _ _ hsome => simpa [isNumber] using hsome
  · rfl
  · exact hnumber

/-- A rational multiple. -/
theorem Regular.scaled {e : Expr} (h : e.Regular ρ) (q : ℚ) :
    (Expr.scaled q e).Meets ρ (q * e.rational ρ) := by
  unfold Expr.scaled
  split
  · next h1 => exact ⟨h, by rw [h1, one_mul]⟩
  · split
    · next h0 => exact ⟨.number 0, by rw [h0, zero_mul, zero, rational_number]⟩
    · split
      · next p => exact ⟨.number _, by simp⟩
      · next fs =>
        cases h with
        | product h hflat hsome =>
          obtain ⟨f, hf, hnumber⟩ := hsome
          refine ⟨.product ?_ ?_ ⟨f, List.mem_cons_of_mem _ hf, hnumber⟩, by simp⟩
          · exact List.forall_mem_cons.2 ⟨.number q, h⟩
          · exact List.forall_mem_cons.2 ⟨rfl, hflat⟩
      · next hnumber hproduct =>
        refine ⟨.product ?_ ?_ ⟨e, by simp, ?_⟩, by simp⟩
        · exact List.forall_mem_cons.2 ⟨.number q, List.forall_mem_singleton.2 h⟩
        · refine List.forall_mem_cons.2 ⟨rfl, List.forall_mem_singleton.2 ?_⟩
          cases e with
          | product fs => exact absurd rfl (hproduct fs)
          | _ => rfl
        · cases e with
          | number p => exact absurd rfl (hnumber p)
          | _ => rfl

/-- A multiple that is not zero is a number only if the expression is. -/
theorem isNumber_scaled {e : Expr} (hnumber : e.isNumber = false) {q : ℚ} (hq : q ≠ 0) :
    (scaled q e).isNumber = false := by
  unfold scaled
  split
  · exact hnumber
  · split
    · cases hnumber
    · rfl
    · rfl

/-! ## Sums -/

/-- Expressions in order are the same expressions. -/
theorem orderedFactors_perm (fs : List Expr) : (orderedFactors fs).Perm fs := by
  refine ((List.mergeSort_perm _ _).map _).trans (.of_eq ?_)
  rw [List.map_map]
  exact List.map_id _

namespace SumParts

/-- Parts of a sum that are regular, and make a rational. -/
structure Meets (ρ : String → ℚ) (s : SumParts) (q : ℚ) : Prop where
  infinite : s.infinite = false
  undefined : s.undefined = false
  regular : ∀ t ∈ s.terms, t.1.Regular ρ ∧ t.1.isNumber = false
  rational : s.constant + (s.terms.map fun t => t.2 * t.1.rational ρ).sum = q

/-- A coefficient is added to that of its term. -/
theorem sum_addCoefficient (body : Expr) (q : ℚ) (ts : List (Expr × ℚ)) :
    ((addCoefficient body q ts).map fun t => t.2 * t.1.rational ρ).sum =
      (ts.map fun t => t.2 * t.1.rational ρ).sum + q * body.rational ρ := by
  induction ts with
  | nil => simp [addCoefficient]
  | cons t ts ih =>
    rw [addCoefficient]
    split
    · next h =>
      rw [List.map_cons, List.map_cons, List.sum_cons, List.sum_cons, ← eq_of_beq h]
      ring
    · rw [List.map_cons, List.map_cons, List.sum_cons, List.sum_cons, ih, add_assoc]

/-- The terms that coefficients belong to. -/
theorem mem_addCoefficient {body : Expr} {q : ℚ} {ts : List (Expr × ℚ)} {t : Expr × ℚ}
    (h : t ∈ addCoefficient body q ts) : t.1 = body ∨ ∃ t' ∈ ts, t'.1 = t.1 := by
  induction ts with
  | nil => exact .inl (by rw [List.mem_singleton.1 h])
  | cons t' ts ih =>
    rw [addCoefficient] at h
    split at h
    · obtain rfl | h := List.mem_cons.1 h
      · exact .inl rfl
      · exact .inr ⟨t, List.mem_cons_of_mem _ h, rfl⟩
    · obtain rfl | h := List.mem_cons.1 h
      · exact .inr ⟨t, List.mem_cons_self, rfl⟩
      · obtain h | ⟨t'', ht'', h⟩ := ih h
        · exact .inl h
        · exact .inr ⟨t'', List.mem_cons_of_mem _ ht'', h⟩

variable {s : SumParts} {p q : ℚ}

/-- One more term is added. -/
theorem Meets.take (hs : s.Meets ρ p) {e : Expr} (he : e.Meets ρ q) :
    (s.take e).Meets ρ (p + q) := by
  obtain ⟨hregular, rfl⟩ := he
  have hterm (hnumber : e.isNumber = false) :
      { s with
        terms := addCoefficient e.splitCoefficient.2 e.splitCoefficient.1 s.terms : SumParts }.Meets
        ρ (p + e.rational ρ) := by
    obtain ⟨hbody, hrational⟩ := hregular.splitCoefficient
    refine ⟨hs.infinite, hs.undefined, fun t ht => ?_, ?_⟩
    · obtain h | ⟨t', ht', h⟩ := mem_addCoefficient ht
      · rw [h]
        exact ⟨hbody, hregular.isNumber_splitCoefficient hnumber⟩
      · rw [← h]
        exact hs.regular t' ht'
    · rw [sum_addCoefficient, hrational, ← add_assoc, hs.rational]
  cases e with
  | number r =>
    refine ⟨hs.infinite, hs.undefined, hs.regular, ?_⟩
    rw [rational_number, ← hs.rational]
    exact add_right_comm _ _ _
  | undefined | infinite | imaginary => cases hregular
  | symbol | power | product | sum => exact hterm rfl

/-- Terms are added one by one. -/
theorem Meets.foldl_take {es : List Expr} (hes : ∀ e ∈ es, e.Regular ρ) (hs : s.Meets ρ p) :
    (es.foldl SumParts.take s).Meets ρ (p + (es.map (Expr.rational ρ)).sum) := by
  induction es generalizing s p with
  | nil => rwa [List.map_nil, List.sum_nil, add_zero]
  | cons e es ih =>
    obtain ⟨he, hes⟩ := List.forall_mem_cons.1 hes
    rw [List.map_cons, List.sum_cons, ← add_assoc]
    exact ih hes (hs.take ⟨he, rfl⟩)

/-- The regular expressions that are left of the terms that were collected, without those that
cancel. -/
theorem Meets.exists_terms (hs : s.Meets ρ p) :
    let terms := (s.terms.filter (·.2 ≠ 0)).map fun t => scaled t.2 t.1
    (∀ t ∈ terms, t.Regular ρ ∧ t.isNumber = false) ∧
    s.constant + (terms.map (Expr.rational ρ)).sum = p := by
  obtain ⟨-, -, hregular, hrational⟩ := hs
  intro terms
  have hscaled : ∀ t ∈ s.terms.filter (·.2 ≠ 0), (scaled t.2 t.1).Meets ρ (t.2 * t.1.rational ρ) ∧
      (scaled t.2 t.1).isNumber = false := fun t ht => by
    obtain ⟨ht, hne⟩ := List.mem_filter.1 ht
    exact ⟨(hregular t ht).1.scaled _, isNumber_scaled (hregular t ht).2 (of_decide_eq_true hne)⟩
  refine ⟨List.forall_mem_map.2 fun t ht => ⟨(hscaled t ht).1.regular, (hscaled t ht).2⟩, ?_⟩
  have hcancel : ∀ ts : List (Expr × ℚ), ((ts.filter (·.2 ≠ 0)).map fun t =>
    t.2 * t.1.rational ρ).sum =
      (ts.map fun t => t.2 * t.1.rational ρ).sum := fun ts => by
    induction ts with
    | nil => rfl
    | cons t ts ih =>
      rw [List.filter_cons]
      split
      · rw [List.map_cons, List.map_cons, List.sum_cons, List.sum_cons, ih]
      · next h => rw [ih, List.map_cons, List.sum_cons, (by simpa using h : t.2 = 0),
          zero_mul, zero_add]
  rw [← hrational, ← hcancel, List.map_map]
  exact congrArg _ (congrArg _ (List.map_congr_left fun t ht => (hscaled t ht).1.rational))

/-- The total of regular parts. -/
theorem Meets.total (hs : s.Meets ρ p) : s.total.Meets ρ p := by
  obtain ⟨hterms, hrational⟩ := hs.exists_terms
  obtain ⟨hinfinite, hundefined, -, -⟩ := hs
  unfold SumParts.total
  simp only [hundefined, hinfinite, Bool.false_eq_true, if_false]
  generalize (s.terms.filter (·.2 ≠ 0)).map (fun t => scaled t.2 t.1) = terms at hterms hrational ⊢
  have hperm := orderedFactors_perm terms
  unfold orderedFactors at hperm
  generalize ((terms.map fun t => (t.sortKey, t)).mergeSort fun a b =>
    SortKey.le a.1 b.1).map Prod.snd = sorted
    at hperm ⊢
  have hsorted : ∀ t ∈ sorted, t.Regular ρ ∧ t.isNumber = false :=
    fun t ht => hterms t (hperm.mem_iff.1 ht)
  rw [← (hperm.map _).sum_eq] at hrational
  have hfront : ∃ front : List Expr, (if s.constant = 0 then [] else [number s.constant]) = front ∧
      (∀ e ∈ front, e.Regular ρ) ∧ (front.map (Expr.rational ρ)).sum = s.constant ∧
      front.length ≤ 1 := by
    split
    · next h => exact ⟨_, rfl, List.forall_mem_nil _, by rw [h]; rfl, Nat.zero_le _⟩
    · exact ⟨_, rfl, List.forall_mem_singleton.2 (.number _), by simp, le_rfl⟩
  obtain ⟨front, hfront, hregular, hconstant, hlength⟩ := hfront
  rw [hfront]
  rw [← hconstant, ← List.sum_append, ← List.map_append] at hrational
  have hall : ∀ e ∈ front ++ sorted, e.Regular ρ := fun e he =>
    (List.mem_append.1 he).elim (hregular e) fun he => (hsorted e he).1
  split
  · next h =>
    rw [h] at hrational
    exact ⟨.number 0, by rw [← hrational]; simp [zero]⟩
  · next e h =>
    rw [h] at hrational hall
    exact ⟨hall e (List.mem_singleton_self e), by simpa using hrational⟩
  · next es hnil hsingleton =>
    -- Two or more members: one of them comes from the terms.
    refine ⟨.sum hall ?_, by rwa [rational_sum]⟩
    cases sorted with
    | nil =>
      rw [List.append_nil] at hnil hsingleton
      cases front with
      | nil => exact absurd rfl hnil
      | cons e rest =>
        cases rest with
        | nil => exact absurd rfl (hsingleton e)
        | cons => simp at hlength
    | cons t rest => exact ⟨t, by simp, (hsorted t List.mem_cons_self).2⟩

end SumParts

/-- The terms of a regular expression. -/
theorem Regular.terms {e : Expr} (h : e.Regular ρ) :
    (∀ t ∈ e.terms, t.Regular ρ) ∧ (e.terms.map (Expr.rational ρ)).sum = e.rational ρ := by
  cases h with
  | sum h => exact ⟨h, (rational_sum _).symm⟩
  | number | symbol | power | product =>
    exact ⟨List.forall_mem_singleton.2 (by constructor <;> assumption), by simp [Expr.terms]⟩

/-- A sum of regular expressions. -/
theorem meets_sumOf {es : List Expr} (h : ∀ e ∈ es, e.Regular ρ) :
    (sumOf es).Meets ρ (es.map (rational ρ)).sum := by
  have hempty : SumParts.Meets ρ {} 0 := ⟨rfl, rfl, List.forall_mem_nil _, by simp⟩
  have hterms : ∀ t ∈ es.flatMap Expr.terms, t.Regular ρ := List.forall_mem_flatMap.2 fun e he =>
    (h e he).terms.1
  have hsum : ((es.flatMap Expr.terms).map (rational ρ)).sum = (es.map (rational ρ)).sum := by
    clear hterms
    induction es with
    | nil => rfl
    | cons e es ih =>
      obtain ⟨he, hes⟩ := List.forall_mem_cons.1 h
      rw [List.flatMap_cons, List.map_append, List.sum_append, he.terms.2, ih hes,
        List.map_cons, List.sum_cons]
  rw [← hsum, ← zero_add ((es.flatMap Expr.terms).map (rational ρ)).sum]
  exact (hempty.foldl_take hterms).total

variable {a b e : Expr} {p q : ℚ}

/-- The sum of two regular expressions. -/
theorem Meets.add (ha : a.Meets ρ p) (hb : b.Meets ρ q) : (Expr.add a b).Meets ρ (p + q) := by
  have hsum : (sumOf [a, b]).Meets ρ (p + q) := by
    have h :=
      meets_sumOf (List.forall_mem_cons.2 ⟨ha.regular, List.forall_mem_singleton.2 hb.regular⟩)
    simpa [ha.rational, hb.rational] using h
  unfold Expr.add
  split
  · rw [← ha.rational, ← hb.rational, rational_number, rational_number]
    exact ⟨.number _, rational_number _⟩
  · exact hsum

/-- A multiple of a regular expression, taken term by term. -/
theorem Regular.multiple (h : e.Regular ρ) (q : ℚ) :
    (Expr.multiple q e).Meets ρ (q * e.rational ρ) := by
  have hone : ∀ {t : Expr}, t.Regular ρ →
      (Expr.scaled (q * t.splitCoefficient.1) t.splitCoefficient.2).Meets ρ (q * t.rational ρ) := by
    intro t ht
    obtain ⟨hbody, hrational⟩ := ht.splitCoefficient
    rw [← hrational, ← mul_assoc]
    exact hbody.scaled _
  unfold Expr.multiple
  split
  · next ts =>
    cases h with
    | sum h =>
      have hsum := meets_sumOf (List.forall_mem_map.2 fun t ht => (hone (h t ht)).regular)
      have hrational : (ts.map fun t =>
        rational ρ (Expr.scaled (q * t.splitCoefficient.1) t.splitCoefficient.2)) =
          ts.map fun t => q * t.rational ρ := List.map_congr_left fun t ht =>
            (hone (h t ht)).rational
      rw [List.map_map, Function.comp_def, hrational, List.sum_map_mul_left] at hsum
      rw [rational_sum]
      exact hsum
  · exact hone h

end EquationStudio.Expr
