import EquationStudio.Proofs.Algebra.RegularProduct

/-!
# The algebra invents no symbols

Whatever the algebra makes of expressions, its symbols are symbols of these (`Expr.Over`). The
functions of a product and a power need each other, so this is said of all of them for one amount of
fuel (`Expr.Keeps`) and proved by induction on the fuel (`Expr.keeps`).
-/

namespace EquationStudio.Expr

/-- All symbols of an expression are from a list. -/
def Over (names : List String) (e : Expr) : Prop := ∀ s ∈ e.symbolList, s ∈ names

variable {names : List String} {b e x : Expr} {q : ℚ}

@[simp] theorem over_number (q : ℚ) : (number q).Over names := fun s hs => by
  rw [symbolList_number] at hs
  cases hs

@[simp] theorem over_zero : zero.Over names := over_number 0

@[simp] theorem over_one : one.Over names := over_number 1

@[simp] theorem over_minusOne : minusOne.Over names := over_number (-1)

@[simp] theorem over_undefined : undefined.Over names := fun s hs => by
  simp [symbolList] at hs

@[simp] theorem over_infinite : infinite.Over names := fun s hs => by
  simp [symbolList] at hs

@[simp] theorem over_imaginary : imaginary.Over names := fun s hs => by
  simp [symbolList] at hs

@[simp] theorem over_symbol {name : String} : (symbol name).Over names ↔ name ∈ names := by
  simp [Over, symbolList]

@[simp] theorem over_power : (power b e).Over names ↔ b.Over names ∧ e.Over names := by
  simp only [Over, symbolList, List.mem_append, or_imp, forall_and]

/-- All symbols of a list of expressions are from a list if those of each are. -/
theorem over_symbolsOf {es : List Expr} : (∀ s ∈ symbolsOf es, s ∈ names) ↔
    ∀ e ∈ es, e.Over names := by
  refine ⟨fun h e he s hs => h s (mem_symbolsOf he hs), fun h s hs => ?_⟩
  obtain ⟨e, he, hs⟩ := exists_of_mem_symbolsOf hs
  exact h e he s hs

@[simp] theorem over_product {fs : List Expr} : (product fs).Over names ↔
    ∀ f ∈ fs, f.Over names := by
  rw [Over, symbolList, over_symbolsOf]

@[simp] theorem over_sum {ts : List Expr} : (sum ts).Over names ↔ ∀ t ∈ ts, t.Over names := by
  rw [Over, symbolList, over_symbolsOf]

/-- Both of two. -/
theorem over_pair {x y : Expr} (hx : x.Over names) (hy : y.Over names) :
    ∀ e ∈ [x, y], e.Over names :=
  List.forall_mem_cons.2 ⟨hx, List.forall_mem_singleton.2 hy⟩

/-- Whichever branch is taken. -/
theorem over_ite {c : Prop} [Decidable c] (hb : b.Over names) (he : e.Over names) :
    (if c then b else e).Over names := by
  split
  · exact hb
  · exact he

namespace Over

/-! ## Parts -/

/-- What stands beside the coefficient. -/
theorem splitCoefficient (h : e.Over names) : e.splitCoefficient.2.Over names := by
  unfold Expr.splitCoefficient
  split <;> simp_all

/-- Scaling by a number. -/
theorem scaled (h : e.Over names) (q : ℚ) : (Expr.scaled q e).Over names := by
  unfold Expr.scaled
  split_ifs
  · exact h
  · exact over_zero
  · split <;> simp_all

/-- The factors of an expression. -/
theorem factors (h : e.Over names) : ∀ f ∈ e.factors, f.Over names := by
  cases e with
  | product fs => exact over_product.1 h
  | _ => exact List.forall_mem_singleton.2 h

/-- The terms of an expression. -/
theorem terms (h : e.Over names) : ∀ t ∈ e.terms, t.Over names := by
  cases e with
  | sum ts => exact over_sum.1 h
  | _ => exact List.forall_mem_singleton.2 h

/-- Base and exponent, however they are split. -/
theorem splitPower (h : e.Over names) : e.splitPower.1.Over names ∧ e.splitPower.2.Over names := by
  unfold Expr.splitPower
  split
  · next q x =>
    have hx : x.Over names := (over_power.1 h).2
    split_ifs
    · exact ⟨over_number _, hx.splitCoefficient.scaled _⟩
    · exact ⟨over_number q, hx⟩
  · exact over_power.1 h
  · exact ⟨h, over_one⟩

end Over

/-! ## Sums -/

/-- A term is added to those that are collected, or to the coefficient of one of them. -/
theorem over_addCoefficient {body : Expr} (hbody : body.Over names) {ts : List (Expr × ℚ)}
    (hts : ∀ t ∈ ts, t.1.Over names) : ∀ t ∈ addCoefficient body q ts, t.1.Over names :=
  fun t ht => by
  obtain h | ⟨t', ht', h⟩ := SumParts.mem_addCoefficient ht
  · rwa [h]
  · rw [← h]
    exact hts t' ht'

/-- A sum takes in a term. -/
theorem over_take {s : SumParts} (hs : ∀ t ∈ s.terms, t.1.Over names) (he : e.Over names) :
    ∀ t ∈ (s.take e).terms, t.1.Over names := by
  unfold SumParts.take
  split
  · exact hs
  · exact hs
  · split <;> exact hs
  · exact over_addCoefficient he.splitCoefficient hs

/-- A sum is put together of the terms that were collected. -/
theorem over_total {s : SumParts} (hs : ∀ t ∈ s.terms, t.1.Over names) : s.total.Over names := by
  have hterms : ∀ e ∈ (s.terms.filter (·.2 ≠ 0)).map fun t => scaled t.2 t.1, e.Over names :=
    List.forall_mem_map.2 fun t ht => (hs t (List.mem_filter.1 ht).1).scaled _
  unfold SumParts.total
  refine over_ite over_undefined ?_
  extract_lets terms kept front sorted
  have hkept : ∀ e ∈ kept, e.Over names := by
    unfold kept
    split
    · exact fun e he => hterms e (List.mem_filter.1 he).1
    · exact hterms
  have hfront : ∀ e ∈ front, e.Over names := by
    unfold front
    split_ifs
    · exact List.forall_mem_singleton.2 over_infinite
    · exact List.forall_mem_nil _
    · exact List.forall_mem_singleton.2 (over_number _)
  have hall : ∀ e ∈ front ++ sorted.map Prod.snd, e.Over names :=
    List.forall_mem_append.2 ⟨hfront, fun e he => hkept e ((orderedFactors_perm kept).mem_iff.1 he)⟩
  split
  · exact over_zero
  · next e h =>
    rw [h] at hall
    exact hall e (List.mem_singleton_self e)
  · exact over_sum.2 hall

/-- The sum of expressions. -/
theorem over_sumOf {es : List Expr} (h : ∀ e ∈ es, e.Over names) : (sumOf es).Over names := by
  refine over_total (List.foldlRecOn (motive := fun s : SumParts =>
    ∀ t ∈ s.terms, t.1.Over names) _ _
    (List.forall_mem_nil _) ?_)
  intro s hs e he
  obtain ⟨e', he', he⟩ := List.mem_flatMap.1 he
  exact over_take hs ((h e' he').terms e he)

/-- A multiple, distributed over a sum. -/
theorem Over.multiple (h : e.Over names) (q : ℚ) : (Expr.multiple q e).Over names := by
  unfold Expr.multiple
  split
  · next ts => exact over_sumOf (List.forall_mem_map.2 fun t ht =>
      (over_sum.1 h t ht).splitCoefficient.scaled _)
  · exact h.splitCoefficient.scaled _

/-! ## Powers that are gathered -/

/-- Bases and exponents, all symbols of which are from a list. -/
def PairsOver (names : List String) (ps : List (Expr × Expr)) : Prop :=
  ∀ p ∈ ps, p.1.Over names ∧ p.2.Over names

/-- One more exponent of a base. -/
theorem over_addExponent {tail : Expr} (htail : tail.Over names) : ∀ {ts : List (Expr × ℚ)},
    (∀ t ∈ ts, t.1.Over names) → ∀ t ∈ addExponent tail q ts, t.1.Over names
  | [], _ => List.forall_mem_singleton.2 htail
  | t :: ts, h => by
    obtain ⟨ht, hts⟩ := List.forall_mem_cons.1 h
    rw [addExponent]
    split
    · exact List.forall_mem_cons.2 ⟨htail, hts⟩
    · exact List.forall_mem_cons.2 ⟨ht, over_addExponent htail hts⟩

/-- One more power in groups by base. -/
theorem over_addPower {tail : Expr} (hb : b.Over names) (htail : tail.Over names) :
    ∀ {gs : List (Expr × List (Expr × ℚ))}, (∀ g ∈ gs, g.1.Over names ∧ ∀ t ∈ g.2, t.1.Over names) →
      ∀ g ∈ addPower b tail q gs, g.1.Over names ∧ ∀ t ∈ g.2, t.1.Over names
  | [], _ => List.forall_mem_singleton.2 ⟨hb, List.forall_mem_singleton.2 htail⟩
  | g :: gs, h => by
    obtain ⟨hg, hgs⟩ := List.forall_mem_cons.1 h
    rw [addPower]
    split
    · exact List.forall_mem_cons.2 ⟨⟨hb, over_addExponent htail hg.2⟩, hgs⟩
    · exact List.forall_mem_cons.2 ⟨hg, over_addPower hb htail hgs⟩

/-- Powers are gathered by their bases. -/
theorem PairsOver.gather {ps : List (Expr × Expr)} (h : PairsOver names ps) :
    PairsOver names (gather ps) := by
  have hgroups :
      ∀ g ∈ ps.foldl (fun groups p => addPower p.1 p.2.splitCoefficient.2
      p.2.splitCoefficient.1 groups) [],
      g.1.Over names ∧ ∀ t ∈ g.2, t.1.Over names := by
    refine List.foldlRecOn (motive := fun gs : List (Expr × List (Expr × ℚ)) =>
      ∀ g ∈ gs, g.1.Over names ∧ ∀ t ∈ g.2, t.1.Over names) _ _ (List.forall_mem_nil _)
        fun gs hgs p hp => ?_
    exact over_addPower (h p hp).1 (h p hp).2.splitCoefficient hgs
  refine List.forall_mem_flatMap.2 fun g hg => List.forall_mem_map.2 fun t ht => ?_
  exact ⟨(hgroups g hg).1, ((hgroups g hg).2 t ht).multiple _⟩

/-- The exponents that bases are listed under are exponents of these. -/
theorem over_byExponent {ps : List (Expr × Expr)} (h : PairsOver names ps) :
    ∀ g ∈ byExponent ps, g.1.Over names := by
  refine List.foldlRecOn (motive := fun gs : List (Expr × List Expr) =>
    ∀ g ∈ gs, g.1.Over names) _ _
    (List.forall_mem_nil _) ?_
  intro gs hgs p hp
  split
  · refine List.forall_mem_map.2 fun g hg => ?_
    split <;> exact hgs g hg
  · exact List.forall_mem_append.2 ⟨hgs, List.forall_mem_singleton.2 (h p hp).2⟩

/-! ## Products and powers -/

/-- What was collected of a product, all symbols of which are from a list. -/
structure PartsOver (names : List String) (s : ProductParts) : Prop where
  exponentials : PairsOver names s.exponentials
  powers : PairsOver names s.powers

/-- Numbers that are multiplied in have no symbols. -/
theorem PartsOver.scale {s : ProductParts} (h : PartsOver names s) (q : ℚ) :
    PartsOver names (s.scale q) := by
  unfold ProductParts.scale
  split_ifs <;> exact ⟨h.exponentials, h.powers⟩

/-- The infinity has no symbols. -/
theorem PartsOver.blowUp {s : ProductParts} (h : PartsOver names s) : PartsOver names s.blowUp := by
  unfold ProductParts.blowUp
  split_ifs <;> exact ⟨h.exponentials, h.powers⟩

/-- With some fuel, the functions of products and powers invent no symbols. -/
structure Keeps (names : List String) (fuel : Nat) : Prop where
  product : ∀ {es : List Expr}, (∀ e ∈ es, e.Over names) → (productWithin fuel es).Over names
  take : ∀ {s : ProductParts} {e : Expr}, PartsOver names s → e.Over names →
    PartsOver names (takeFactor fuel s e)
  raise : ∀ {rounds : Nat} {ps : List (Expr × Expr)}, PairsOver names ps →
    ∀ f ∈ raise fuel rounds ps, f.Over names
  finish : ∀ {s : ProductParts}, PartsOver names s → (finishProduct fuel s).Over names
  number : ∀ q r : ℚ, (numberPower fuel q r).Over names
  root : ∀ {fs : List Expr} (r : ℚ), (∀ f ∈ fs, f.Over names) → (rootOfProduct fuel fs r).Over names
  nested : ∀ {b x e : Expr}, b.Over names → x.Over names → e.Over names →
    (powerOfPower fuel b x e).Over names
  power : ∀ {b e : Expr}, b.Over names → e.Over names → (powerWithin fuel b e).Over names

/-- Without fuel they leave things as they are. -/
theorem keeps_zero : Keeps names 0 where
  product h := by
    rw [productWithin]
    exact over_product.2 h
  take hs he := by
    rw [takeFactor]
    exact ⟨hs.exponentials, List.forall_mem_append.2 ⟨hs.powers,
      List.forall_mem_singleton.2 ⟨he, over_one⟩⟩⟩
  raise _ f hf := by
    rw [Expr.raise] at hf
    cases hf
  finish _ := by
    rw [finishProduct]
    exact over_undefined
  number q r := by
    rw [numberPower]
    exact over_power.2 ⟨over_number q, over_number r⟩
  root r h := by
    rw [rootOfProduct]
    exact over_power.2 ⟨over_product.2 h, over_number r⟩
  nested hb hx he := by
    rw [powerOfPower]
    exact over_power.2 ⟨over_power.2 ⟨hb, hx⟩, he⟩
  power hb he := by
    rw [powerWithin]
    exact over_power.2 ⟨hb, he⟩

section
variable {fuel : Nat}

/-- A product takes in a factor. -/
theorem over_takeFactor (h : Keeps names fuel) {s : ProductParts} (hs : PartsOver names s)
    (he : e.Over names) : PartsOver names (takeFactor (fuel + 1) s e) := by
  have hkept : ∀ {b x : Expr}, b.Over names → x.Over names →
      PartsOver names { s with powers := s.powers ++ [(b, x)] } := fun hb hx =>
    ⟨hs.exponentials, List.forall_mem_append.2 ⟨hs.powers, List.forall_mem_singleton.2 ⟨hb, hx⟩⟩⟩
  cases e with
  | number q =>
    rw [takeFactor]
    exact hs.scale q
  | undefined | imaginary =>
    rw [takeFactor]
    exact ⟨hs.exponentials, hs.powers⟩
  | infinite =>
    rw [takeFactor]
    exact hs.blowUp
  | product fs =>
    rw [takeFactor]
    exact List.foldlRecOn (motive := PartsOver names) _ _ hs fun s hs f hf =>
      h.take hs (over_product.1 he f hf)
  | symbol | sum =>
    rw [takeFactor]
    · exact hkept he over_one
    all_goals simp
  | power b x =>
    have hsplit := he.splitPower
    rw [takeFactor]
    split
    · next p r _ =>
      split
      · exact h.take hs (h.power (over_number p) (over_number r))
      · split_ifs <;> dsimp only <;> split_ifs <;> exact ⟨hs.exponentials, hs.powers⟩
    · next p x' _ hp =>
      rw [hp] at hsplit
      split_ifs
      · refine ⟨List.forall_mem_append.2 ⟨hs.exponentials, List.forall_mem_singleton.2 hsplit⟩,
          hs.powers⟩
      · exact hkept hsplit.1 hsplit.2
    · next b' x' _ _ hp =>
      rw [hp] at hsplit
      exact hkept hsplit.1 hsplit.2

/-- The powers that were collected are taken, again if that brings a new base to light. -/
theorem over_raise (h : Keeps names fuel) {rounds : Nat} {ps : List (Expr × Expr)}
    (hps : PairsOver names ps) : ∀ f ∈ raise (fuel + 1) rounds ps, f.Over names := by
  have hraised : ∀ r ∈ ((gather ps).filter fun p => p.2 != zero).map fun p =>
      if p.2 == one then (p.1, p)
      else (powerWithin fuel p.1 p.2,
        if (powerWithin fuel p.1 p.2).isPower && !p.1.isPower
        then (powerWithin fuel p.1 p.2).splitPower else p),
      r.1.Over names ∧ r.2.1.Over names ∧ r.2.2.Over names := List.forall_mem_map.2 fun p hp => by
    have hp := hps.gather p (List.mem_filter.1 hp).1
    have hpower := h.power hp.1 hp.2
    split
    · exact ⟨hp.1, hp⟩
    · refine ⟨hpower, ?_⟩
      dsimp only
      split
      · exact hpower.splitPower
      · exact hp
  cases rounds with
  | zero =>
    rw [raise]
    exact List.forall_mem_map.2 fun r hr => (hraised r hr).1
  | succ rounds =>
    rw [raise]
    dsimp only
    split_ifs
    · exact h.raise (List.forall_mem_map.2 fun r hr => (hraised r hr).2)
    · exact List.forall_mem_map.2 fun r hr => (hraised r hr).1

/-- A power of a number is built of numbers and the imaginary unit. -/
theorem over_numberPower (h : Keeps names fuel) (q r : ℚ) :
    (numberPower (fuel + 1) q r).Over names := by
  have hpower : ∀ p r : ℚ, (powerWithin fuel (number p) (number r)).Over names := fun p r =>
    h.power (over_number p) (over_number r)
  have hminus : ∀ r : ℚ, (powerWithin fuel minusOne (number r)).Over names := hpower (-1)
  have hkept : (power (number q) (number r)).Over names :=
    over_power.2 ⟨over_number q, over_number r⟩
  -- What leaves the root, what is left in it, and both with a sign.
  have hreduced : ∀ parts : RootParts, (productWithin fuel (number parts.whole ::
      parts.reduced.map (fun f : Nat × Rat => powerWithin fuel (number f.1) (number f.2)) ++
        [powerWithin fuel (number parts.radicand) (number (mkRat parts.index r.den))])).Over
        names := fun parts => by
    refine h.product (List.forall_mem_cons.2 ⟨over_number _, List.forall_mem_append.2 ⟨?_, ?_⟩⟩)
    · exact List.forall_mem_map.2 fun f _ => hpower _ _
    · exact List.forall_mem_singleton.2 (hpower _ _)
  have hsigned : ∀ e : Expr, e.Over names →
      (productWithin fuel [e, powerWithin fuel minusOne (number r)]).Over names :=
    fun e he => h.product (over_pair he (hminus r))
  rw [numberPower]
  split_ifs
  · exact over_zero
  · exact over_infinite
  · exact over_one
  · have hroot : (if r - (r.floor : ℚ) = 1 / 2 then imaginary
        else power minusOne (number (r - (r.floor : ℚ)))).Over names := by
      split_ifs <;> simp
    dsimp only
    split
    · exact hroot
    · exact h.product (over_pair over_minusOne hroot)
  · exact h.product (over_pair (hminus _) (hpower _ _))
  · exact hpower _ _
  · exact h.product (over_pair over_imaginary (hpower _ _))
  · dsimp only
    split
    · exact hsigned _ (over_number _)
    · exact over_ite hkept (hsigned _ (hreduced _))
  · dsimp only
    split
    · exact over_number _
    · exact over_ite hkept (hreduced _)
  · exact h.product (over_pair (hpower _ _) (over_number _))
  · exact h.product (List.forall_mem_cons.2 ⟨hpower _ _, over_pair (hpower _ _) (over_number _)⟩)

/-- A root of a product is taken of those factors that may leave it. -/
theorem over_rootOfProduct (h : Keeps names fuel) {fs : List Expr} (r : ℚ)
    (hfs : ∀ f ∈ fs, f.Over names) : (rootOfProduct (fuel + 1) fs r).Over names := by
  have hfiltered : ∀ keep : Expr → Bool, ∀ f ∈ fs.filter keep, f.Over names := fun keep f hf =>
    hfs f (List.mem_filter.1 hf).1
  rw [rootOfProduct]
  dsimp only
  refine iteInduction (fun _ => over_power.2 ⟨over_product.2 hfs, over_number r⟩) fun _ => ?_
  refine h.product (List.forall_mem_append.2 ⟨List.forall_mem_map.2 fun f hf =>
    h.power ?_ (over_number r), ?_⟩)
  · obtain hf | hf := List.mem_append.1 hf
    · exact hfiltered _ f hf
    · obtain ⟨g, hg, rfl⟩ := List.mem_map.1 hf
      exact (hfiltered _ g hg).multiple _
  · refine iteInduction (motive := fun rest : List Expr => ∀ f ∈ rest, f.Over names)
      (fun _ _ hf => absurd hf List.not_mem_nil) fun _ =>
        List.forall_mem_singleton.2 (over_power.2 ⟨?_, over_number r⟩)
    exact h.product (List.forall_mem_append.2 ⟨List.forall_mem_map.2 fun _ _ => over_minusOne,
      hfiltered _⟩)

/-- A power of a power, joined or kept. -/
theorem over_powerOfPower (h : Keeps names fuel) (hb : b.Over names) (hx : x.Over names)
    (he : e.Over names) : (powerOfPower (fuel + 1) b x e).Over names := by
  have hsplit := (over_power.2 ⟨hb, hx⟩).splitPower
  rw [powerOfPower.eq_def]
  dsimp only
  refine iteInduction (fun _ => h.power hsplit.1 (h.product ?_)) fun _ =>
    over_power.2 ⟨over_power.2 ⟨hb, hx⟩, he⟩
  exact over_pair hsplit.2 he

/-- A power of any base. -/
theorem over_powerWithin (h : Keeps names fuel) (hb : b.Over names) (he : e.Over names) :
    (powerWithin (fuel + 1) b e).Over names := by
  have hpower : (power b e).Over names := over_power.2 ⟨hb, he⟩
  rw [powerWithin.eq_def]
  dsimp only
  refine over_ite over_undefined (over_ite over_one
    (over_ite hb (over_ite over_undefined (over_ite over_one ?_))))
  split
  · next q r =>
    unfold wholePower
    split_ifs
    · exact over_infinite
    · exact over_number _
    · exact over_number _
    · exact h.number q r
  · next q _ =>
    split_ifs
    · split
      · exact over_zero
      · exact over_infinite
      · exact hpower
    · exact h.power over_infinite he.splitCoefficient
    · exact over_power.2 ⟨hb, he.splitCoefficient⟩
    · exact hpower
  · split_ifs
    · exact over_infinite
    · exact over_zero
  · split_ifs
    · split <;> simp
    all_goals simp
  · next fs r =>
    have hfs := over_product.1 hb
    split_ifs
    · exact h.product (List.forall_mem_map.2 fun f hf => over_power.2 ⟨hfs f hf, over_number r⟩)
    · exact h.root r hfs
  · next p i r =>
    have hconjugate : (sumOf [number p, scaled (-i.splitCoefficient.1) imaginary]).Over names :=
      over_sumOf (over_pair (over_number p) (over_imaginary.scaled _))
    split_ifs
    · exact hconjugate
    · exact over_product.2 (over_pair (over_number _) hconjugate)
    · exact hpower
  · exact h.nested (over_power.1 hb).1 (over_power.1 hb).2 he
  · exact hpower

/-- Factors are put in order. -/
theorem over_orderedFactors {fs : List Expr} (h : ∀ f ∈ fs, f.Over names) :
    ∀ f ∈ orderedFactors fs, f.Over names :=
  fun f hf => h f ((orderedFactors_perm fs).mem_iff.1 hf)

/-- A product is assembled of a coefficient and factors. -/
theorem over_assembled {fs : List Expr} (h : ∀ f ∈ fs, f.Over names) (q : ℚ) :
    (assembled q fs).Over names := by
  have hordered := over_orderedFactors h
  refine over_ite over_zero ?_
  split
  · exact over_number q
  · next f hf =>
    rw [hf] at hordered
    have hf := hordered f (List.mem_singleton_self f)
    refine over_ite hf (over_ite (hf.multiple q) (over_product.2 ?_))
    exact over_pair (over_number q) hf
  · refine over_product.2 ?_
    split
    · exact hordered
    · exact List.forall_mem_cons.2 ⟨over_number q, hordered⟩

/-- A product is put together of what was collected. -/
theorem over_finishProduct (h : Keeps names fuel) {s : ProductParts} (hs : PartsOver names s) :
    (finishProduct (fuel + 1) s).Over names := by
  rw [finishProduct]
  refine over_ite over_undefined ?_
  extract_lets powers exponentials combined wholes fractions whole part sign
  have hexponentials : ∀ f ∈ exponentials, f.Over names := fun f hf => by
    obtain ⟨g, hg, hf⟩ := List.mem_filterMap.1 hf
    split at hf
    · cases hf
    · cases hf
      exact h.power (over_number _) (over_byExponent hs.exponentials.gather g hg)
  split
  next q roots _ =>
  extract_lets grouped
  have hgrouped : ∀ g ∈ grouped, g.1.Over names := List.forall_mem_map.2 fun _ _ => over_number _
  split
  next turned grouped' hturned =>
  have hboth : (∀ f ∈ turned, f.Over names) ∧ ∀ g ∈ grouped', g.1.Over names := by
    split_ifs at hturned <;> cases hturned
    · exact ⟨List.forall_mem_nil _, hgrouped⟩
    · exact ⟨List.forall_mem_singleton.2 over_imaginary, hgrouped⟩
    · refine ⟨List.forall_mem_nil _, List.forall_mem_map.2 fun g hg => ?_⟩
      split
      · exact (hgrouped g hg).multiple _
      · exact hgrouped g hg
    · exact ⟨List.forall_mem_singleton.2 (over_power.2 ⟨over_minusOne, over_number _⟩), hgrouped⟩
  extract_lets rootFactors all numbers others scaled blown finite
  have hroots : ∀ f ∈ rootFactors, f.Over names := List.forall_mem_map.2 fun g hg =>
    h.power (hboth.2 g hg) (over_number _)
  have hall : ∀ f ∈ all, f.Over names := List.forall_mem_flatMap.2 fun f hf => by
    simp only [List.mem_append] at hf
    obtain ((hf | hf) | hf) | hf := hf
    · exact (h.raise hs.powers f hf).factors
    · exact (hexponentials f hf).factors
    · exact (hboth.1 f hf).factors
    · exact (hroots f hf).factors
  have hfinite : ∀ f ∈ finite, f.Over names := fun f hf =>
    hall f (List.mem_filter.1 (List.mem_filter.1 hf).1).1
  refine over_ite over_undefined (over_ite over_undefined (over_ite ?_ (over_assembled hfinite _)))
  have hconstant := over_orderedFactors fun f (hf : f ∈ finite.filter (!·.isSurelyNonzero)) =>
    hfinite f (List.mem_filter.1 hf).1
  split
  · exact over_infinite
  · exact over_product.2 (List.forall_mem_cons.2 ⟨over_infinite, hconstant⟩)

end

/-- With any fuel, the functions of products and powers invent no symbols. -/
theorem keeps (names : List String) : ∀ fuel : Nat, Keeps names fuel
  | 0 => keeps_zero
  | fuel + 1 => by
    have h := keeps names fuel
    refine ⟨fun hes => ?_, over_takeFactor h, over_raise h, over_finishProduct h,
      over_numberPower h, over_rootOfProduct h, over_powerOfPower h, over_powerWithin h⟩
    rw [productWithin]
    have hnone : PartsOver names {} := ⟨List.forall_mem_nil _, List.forall_mem_nil _⟩
    exact h.finish (List.foldlRecOn (motive := PartsOver names) _ _ hnone fun s hs e he =>
      h.take hs (hes e he))

/-! ## Operations -/

namespace Over

variable {a : Expr}

theorem add (ha : a.Over names) (hb : b.Over names) : (Expr.add a b).Over names := by
  unfold Expr.add
  split
  · exact over_number _
  · exact over_sumOf (over_pair ha hb)

theorem mul (ha : a.Over names) (hb : b.Over names) : (Expr.mul a b).Over names := by
  unfold Expr.mul
  split
  · exact over_number _
  · exact (keeps names ampleFuel).product (over_pair ha hb)

theorem sub (ha : a.Over names) (hb : b.Over names) : (Expr.sub a b).Over names :=
  ha.add (over_minusOne.mul hb)

theorem pow (ha : a.Over names) (hb : b.Over names) : (Expr.pow a b).Over names := by
  have hpower := (keeps names ampleFuel).power ha hb
  unfold Expr.pow
  split
  · refine over_ite ?_ hpower
    unfold wholePower
    exact over_ite over_infinite (over_number _)
  · exact hpower

theorem div (ha : a.Over names) (hb : b.Over names) : (Expr.div a b).Over names := by
  unfold Expr.div
  split
  · exact over_ite (over_ite over_undefined over_infinite) (over_number _)
  · exact ha.mul (hb.pow over_minusOne)

end Over

end EquationStudio.Expr
