import EquationStudio.Proofs.Algebra.Coefficient
import EquationStudio.Proofs.Algebra.Regular

/-!
# Products and whole powers of regular expressions

Collecting the factors of a product adds the exponents of equal bases, which keeps the product: a
base that is zero has positive exponents only (`Expr.Admits`). So products and whole powers of
regular expressions are regular, and are the rational that they should be (`Expr.Meets.mul`,
`Expr.Meets.pow`, `Expr.Meets.div`).
-/

namespace EquationStudio.Expr

variable {ρ : String → ℚ} {b e f : Expr} {p q r : ℚ}

/-! ## Exponents -/

namespace Admits

/-- An exponent is an integer. -/
theorem exists_int (h : b.Admits ρ r) : ∃ k : ℤ, r = k :=
  ⟨r.num, (Rat.coe_int_num_of_den_eq_one h.whole).symm⟩

/-- Exponents of one base are added. -/
theorem add (hp : b.Admits ρ p) (hq : b.Admits ρ q) : b.Admits ρ (p + q) ∧
    b.rational ρ ^ (p + q).num = b.rational ρ ^ p.num * b.rational ρ ^ q.num := by
  obtain ⟨m, rfl⟩ := hp.exists_int
  obtain ⟨n, rfl⟩ := hq.exists_int
  have hsum : ((m : ℚ) + n) = ((m + n : ℤ) : ℚ) := (Int.cast_add m n).symm
  refine ⟨⟨?_, fun hzero => add_pos (hp.pos_of_zero hzero) (hq.pos_of_zero hzero)⟩, ?_⟩
  · rw [hsum, Rat.den_intCast]
  · rw [hsum, Rat.num_intCast, Rat.num_intCast, Rat.num_intCast]
    by_cases hzero : b.rational ρ = 0
    · have hm : 0 < m := Rat.intCast_pos.1 (hp.pos_of_zero hzero)
      have hn : 0 < n := Rat.intCast_pos.1 (hq.pos_of_zero hzero)
      rw [hzero, zero_zpow _ (add_pos hm hn).ne', zero_zpow _ hm.ne', zero_mul]
    · exact zpow_add₀ hzero m n

/-- Exponents one above the other are multiplied. -/
theorem mul (hp : b.Admits ρ p) (hq : (power b (number p)).Admits ρ q) : b.Admits ρ (p * q) ∧
    b.rational ρ ^ (p * q).num = (b.rational ρ ^ p.num) ^ q.num := by
  obtain ⟨m, rfl⟩ := hp.exists_int
  obtain ⟨n, rfl⟩ := hq.exists_int
  have hproduct : (m : ℚ) * n = ((m * n : ℤ) : ℚ) := (Int.cast_mul m n).symm
  refine ⟨⟨by rw [hproduct, Rat.den_intCast], fun hzero => ?_⟩, ?_⟩
  · have hm := hp.pos_of_zero hzero
    refine mul_pos hm (hq.pos_of_zero ?_)
    rw [rational_power, hzero, Rat.num_intCast, zero_zpow _ (Rat.intCast_pos.1 hm).ne']
  · rw [hproduct, Rat.num_intCast, Rat.num_intCast, Rat.num_intCast, zpow_mul]

/-- One is an exponent for every base. -/
theorem one (b : Expr) : b.Admits ρ 1 := ⟨rfl, fun _ => one_pos⟩

end Admits

/-! ## Powers that are collected -/

/-- A base with an exponent that it may have: a symbol, a sum, or a power of one of these. -/
structure Entry (ρ : String → ℚ) (p : Expr × Expr) : Prop where
  base : p.1.Regular ρ
  kind : p.1.isAtom = true ∨ p.1.isPower = true
  exponent : ∃ r, p.2 = number r ∧ p.1.Admits ρ r

/-- The product of powers. -/
def powersValue (ρ : String → ℚ) (ps : List (Expr × Expr)) : ℚ :=
  (ps.map fun p => (power p.1 p.2).rational ρ).prod

/-- One base with its exponents, by what they are but for a coefficient; here that is one. -/
structure Group (ρ : String → ℚ) (g : Expr × List (Expr × ℚ)) : Prop where
  base : g.1.Regular ρ
  kind : g.1.isAtom = true ∨ g.1.isPower = true
  exponents : ∀ t ∈ g.2, t.1 = one ∧ g.1.Admits ρ t.2

/-- The product of the powers of one base. -/
def groupValue (ρ : String → ℚ) (g : Expr × List (Expr × ℚ)) : ℚ :=
  (g.2.map fun t => g.1.rational ρ ^ t.2.num).prod

/-- One more exponent is added to those of a base. -/
theorem Group.addExponent {ts : List (Expr × ℚ)} (hg : Group ρ (b, ts)) (hr : b.Admits ρ r) :
    Group ρ (b, Expr.addExponent one r ts) ∧
      groupValue ρ (b, Expr.addExponent one r ts) = groupValue ρ (b,
      ts) * b.rational ρ ^ r.num := by
  induction ts with
  | nil => exact ⟨⟨hg.base, hg.kind, List.forall_mem_singleton.2 ⟨rfl, hr⟩⟩,
      by simp [groupValue, Expr.addExponent]⟩
  | cons t ts ih =>
    obtain ⟨ht, hts⟩ := List.forall_mem_cons.1 hg.exponents
    rw [Expr.addExponent]
    split
    · obtain ⟨hadmits, hpower⟩ := ht.2.add hr
      refine ⟨⟨hg.base, hg.kind, List.forall_mem_cons.2 ⟨⟨rfl, hadmits⟩, hts⟩⟩, ?_⟩
      simp only [groupValue, List.map_cons, List.prod_cons, hpower]
      ring
    · obtain ⟨hrest, hvalue⟩ := ih ⟨hg.base, hg.kind, hts⟩
      refine ⟨⟨hg.base, hg.kind, List.forall_mem_cons.2 ⟨ht, hrest.exponents⟩⟩, ?_⟩
      simp only [groupValue, List.map_cons, List.prod_cons] at hvalue ⊢
      rw [hvalue, mul_assoc]

/-- One more power is added to groups. -/
theorem group_addPower (hbase : b.Regular ρ) (hkind : b.isAtom = true ∨ b.isPower = true)
    (hr : b.Admits ρ r) :
    ∀ {gs : List (Expr × List (Expr × ℚ))}, (∀ g ∈ gs, Group ρ g) →
      (∀ g ∈ addPower b one r gs, Group ρ g) ∧
      ((addPower b one r gs).map (groupValue ρ)).prod = (gs.map (groupValue ρ)).prod *
      b.rational ρ ^ r.num
  | [], _ => by
    refine ⟨List.forall_mem_singleton.2 ⟨hbase, hkind, List.forall_mem_singleton.2 ⟨rfl, hr⟩⟩, ?_⟩
    simp [addPower, groupValue]
  | g :: gs, hgs => by
    obtain ⟨hg, hgs⟩ := List.forall_mem_cons.1 hgs
    rw [addPower]
    split
    · next hsame =>
      obtain rfl := eq_of_beq hsame
      obtain ⟨hgroup, hvalue⟩ := hg.addExponent hr
      refine ⟨List.forall_mem_cons.2 ⟨hgroup, hgs⟩, ?_⟩
      rw [List.map_cons, List.map_cons, List.prod_cons, List.prod_cons, hvalue]
      exact mul_right_comm _ _ _
    · obtain ⟨hrest, hvalue⟩ := group_addPower hbase hkind hr hgs
      refine ⟨List.forall_mem_cons.2 ⟨hg, hrest⟩, ?_⟩
      rw [List.map_cons, List.map_cons, List.prod_cons, List.prod_cons, hvalue, mul_assoc]

/-- Powers are added to groups one by one. -/
theorem groups_foldl {ps : List (Expr × Expr)} {gs : List (Expr × List (Expr × ℚ))}
    (hps : ∀ p ∈ ps, Entry ρ p) (hgs : ∀ g ∈ gs, Group ρ g) :
    let grouped :=
      ps.foldl (fun groups p => addPower p.1 p.2.splitCoefficient.2 p.2.splitCoefficient.1 groups)
        gs
    (∀ g ∈ grouped, Group ρ g) ∧
      (grouped.map (groupValue ρ)).prod = (gs.map (groupValue ρ)).prod * powersValue ρ ps := by
  induction ps generalizing gs with
  | nil => exact ⟨hgs, (mul_one _).symm⟩
  | cons p ps ih =>
    obtain ⟨⟨hbase, hkind, r, hx, hr⟩, hrest⟩ := List.forall_mem_cons.1 hps
    obtain ⟨b, x⟩ := p
    subst hx
    obtain ⟨hadded, hvalue⟩ := group_addPower hbase hkind hr hgs
    obtain ⟨hall, hproduct⟩ := ih hrest hadded
    refine ⟨hall, hproduct.trans ?_⟩
    rw [hvalue, powersValue, powersValue, List.map_cons, List.prod_cons, rational_power, mul_assoc]

/-- The powers of one base, each with a number for its exponent. -/
theorem Group.listed {g : Expr × List (Expr × ℚ)} (hg : Group ρ g) :
    (g.2.map fun t => (g.1, Expr.multiple t.2 t.1)) = g.2.map fun t => (g.1, number t.2) :=
  List.map_congr_left fun t ht => by
    rw [(hg.exponents t ht).1]
    exact congrArg (Prod.mk g.1) ((scaled_one _).trans (congrArg number (mul_one _)))

/-- Powers that are gathered by their bases make the same product. -/
theorem gather_entries {ps : List (Expr × Expr)} (h : ∀ p ∈ ps, Entry ρ p) :
    (∀ p ∈ gather ps, Entry ρ p) ∧ powersValue ρ (gather ps) = powersValue ρ ps := by
  have hnone : ∀ g ∈ ([] : List (Expr × List (Expr × ℚ))), Group ρ g := List.forall_mem_nil _
  obtain ⟨hall, hproduct⟩ := groups_foldl h hnone
  rw [List.map_nil, List.prod_nil, one_mul] at hproduct
  rw [← hproduct]
  have hgather : gather ps =
      (ps.foldl (fun groups p => addPower p.1 p.2.splitCoefficient.2 p.2.splitCoefficient.1 groups)
        []).flatMap
        fun g => g.2.map fun t => (g.1, Expr.multiple t.2 t.1) := rfl
  rw [hgather]
  generalize ps.foldl (fun groups p =>
    addPower p.1 p.2.splitCoefficient.2 p.2.splitCoefficient.1 groups) [] = gs
    at hall ⊢
  clear hproduct
  induction gs with
  | nil => exact ⟨List.forall_mem_nil _, rfl⟩
  | cons g gs ih =>
    obtain ⟨hg, hgs⟩ := List.forall_mem_cons.1 hall
    obtain ⟨hrest, hvalue⟩ := ih hgs
    rw [List.flatMap_cons, hg.listed, List.map_cons, List.prod_cons, ← hvalue]
    refine ⟨List.forall_mem_append.2 ⟨List.forall_mem_map.2 fun t ht => ?_, hrest⟩, ?_⟩
    · exact ⟨hg.base, hg.kind, t.2, rfl, (hg.exponents t ht).2⟩
    · simp [powersValue, groupValue, Function.comp_def]

/-! ## Powers of bases -/

/-- A regular expression that stands as one factor. -/
structure Factor (ρ : String → ℚ) (f : Expr) : Prop where
  regular : f.Regular ρ
  flat : f.isProduct = false
  symbolic : f.isNumber = false

/-- A regular expression is neither undefined nor infinite, and not the imaginary unit. -/
theorem Regular.ne_constant (h : b.Regular ρ) : b ≠ undefined ∧ b ≠ infinite ∧ b ≠ imaginary := by
  refine ⟨?_, ?_, ?_⟩ <;> rintro rfl <;> cases h

/-- A power of a base that powers keep. -/
theorem powerWithin_atom (fuel : Nat) (hb : b.Regular ρ) (hatom : b.isAtom = true)
    (h0 : r ≠ 0) (h1 : r ≠ 1) : powerWithin (fuel + 1) b (number r) = power b (number r) := by
  cases b with
  | symbol name => exact powerWithin_symbol fuel name h0 h1
  | sum ts =>
    simp only [powerWithin, zero, one, beq_iff_eq, number.injEq, reduceCtorEq, h0, h1,
      or_self, Bool.or_eq_true, if_false]
    split <;> first | rfl | contradiction | skip
    -- The second term of the sum is no multiple of the imaginary unit.
    next i _ hts _ =>
      obtain rfl := sum.inj hts
      cases hb with
      | sum hterms =>
        have hunit := (hterms i (by simp)).splitCoefficient.1
        rw [if_neg]
        exact fun h => hunit.ne_constant.2.2 (beq_iff_eq.1 h.2)
  | _ => cases hatom

/-- A power of a power. -/
theorem powerWithin_power (fuel : Nat) (hb : b.Regular ρ) (hatom : b.isAtom = true)
    (hp : b.Admits ρ p) (hr : (power b (number p)).Admits ρ r) (hp0 : p ≠ 0)
    (h0 : r ≠ 0) (h1 : r ≠ 1) : powerWithin (fuel + 5) (power b (number p)) (number r) =
      if p * r = 1 then b else power b (number (p * r)) := by
  have hsplit : (power b (number p)).splitPower = (b, number p) := by
    cases b <;> first | rfl | cases hatom
  have hexponent : productWithin (fuel + 3) [number p, number r] = number (p * r) :=
    Amount.productWithin_toExpr (.finite p) (.finite r) fuel
  have hjoined : powerWithin (fuel + 3) b (number (p * r)) = if p * r = 1 then b
      else power b (number (p * r)) := by
    split
    · next h =>
      simp [powerWithin, zero, one, h]
    · next h => exact powerWithin_atom (fuel + 2) hb hatom (mul_ne_zero hp0 h0) h
  have hpowers :
      powerOfPower (fuel + 4) b (number p) (number r) = if p * r = 1 then b
      else power b (number (p * r)) := by
    rw [powerOfPower, hsplit]
    simp only [hexponent, hjoined, hr.whole, decide_true, Bool.true_or, if_true]
  rw [← hpowers]
  simp [powerWithin, zero, one, h0, h1]

/-- The power of a base that was collected, taken. -/
def takenPower (fuel : Nat) (p : Expr × Expr) : Expr :=
  if p.2 == one then p.1 else powerWithin fuel p.1 p.2

/-- A base to an exponent other than zero is a factor. -/
theorem Entry.factor (fuel : Nat) {p : Expr × Expr} (h : Entry ρ p) (h0 : (p.2 != zero) = true) :
    Factor ρ (takenPower (fuel + 5) p) ∧
    (takenPower (fuel + 5) p).rational ρ = (power p.1 p.2).rational ρ := by
  obtain ⟨b, x⟩ := p
  obtain ⟨hbase, hkind, r, hx, hr⟩ := h
  subst hx
  have hne : r ≠ 0 := by simpa using (show (!decide (r = 0)) = true from h0)
  have hone : (number r == one) = decide (r = 1) := rfl
  unfold takenPower
  rw [hone]
  by_cases h1 : r = 1
  · rw [if_pos (decide_eq_true h1), h1]
    refine ⟨⟨hbase, ?_, ?_⟩, by simp⟩
    all_goals cases b <;> first | rfl | simp [isAtom, isPower] at hkind
  · rw [if_neg (by simpa using h1)]
    obtain hatom | hpower := hkind
    · rw [powerWithin_atom (fuel + 4) hbase hatom hne h1]
      exact ⟨⟨.power hbase hatom hr hne, rfl, rfl⟩, rfl⟩
    · cases hbase with
      | number | symbol | product | sum => cases hpower
      | @power b p hb hatom hp hp0 =>
        obtain ⟨hadmits, hvalue⟩ := hp.mul hr
        rw [powerWithin_power fuel hb hatom hp hr hp0 hne h1]
        split
        · next hinverse =>
          refine ⟨⟨hb, ?_, ?_⟩, ?_⟩
          · cases b <;> first | rfl | cases hatom
          · cases b <;> first | rfl | cases hatom
          · rw [rational_power, rational_power, ← hvalue, hinverse, Rat.num_one, zpow_one]
        · exact ⟨⟨.power hb hatom hadmits (mul_ne_zero hp0 hne), rfl, rfl⟩,
            by rw [rational_power, hvalue]; simp⟩

/-! ## Factors that are collected -/

/-- The power of a base is taken without bringing another base to light. -/
theorem Entry.raised (fuel : Nat) {p : Expr × Expr} (h : Entry ρ p) (h0 : (p.2 != zero) = true) :
    (if p.2 == one then (p.1, p)
      else (powerWithin (fuel + 1) p.1 p.2,
        if (powerWithin (fuel + 1) p.1 p.2).isPower && !p.1.isPower
        then (powerWithin (fuel + 1) p.1 p.2).splitPower
        else p)) = (takenPower (fuel + 1) p, p) := by
  unfold takenPower
  split
  · rfl
  · next hne =>
    obtain ⟨b, x⟩ := p
    obtain ⟨hbase, hatom | hpower, r, hx, hr⟩ := h
    · subst hx
      have hr0 : r ≠ 0 := by simpa using (show (!decide (r = 0)) = true from h0)
      have hr1 : r ≠ 1 := fun h1 => hne (decide_eq_true h1)
      rw [powerWithin_atom fuel hbase hatom hr0 hr1]
      cases b <;> first | rfl | cases hatom
    · rw [hpower, Bool.not_true, Bool.and_false]
      rfl

/-- The powers of bases that were collected, each taken once. -/
theorem raise_eq (fuel rounds : Nat) {ps : List (Expr × Expr)} (h : ∀ p ∈ gather ps, Entry ρ p) :
    raise (fuel + 2) rounds ps = ((gather ps).filter fun p => p.2 != zero).map
    (takenPower (fuel + 1)) := by
  have hraised : ((gather ps).filter fun p => p.2 != zero).map (fun p =>
      if p.2 == one then (p.1, p)
      else (powerWithin (fuel + 1) p.1 p.2,
        if (powerWithin (fuel + 1) p.1 p.2).isPower && !p.1.isPower
        then (powerWithin (fuel + 1) p.1 p.2).splitPower
        else p)) = ((gather ps).filter fun p => p.2 != zero).map fun p =>
          (takenPower (fuel + 1) p, p) :=
    List.map_congr_left fun p hp =>
      (h p (List.mem_filter.1 hp).1).raised fuel (List.mem_filter.1 hp).2
  -- No base is changed.
  have hunchanged : ∀ gathered : List (Expr × Expr),
      ((gathered.map fun p => (takenPower (fuel + 1) p, p)).zip gathered).any (fun r =>
        r.1.2.1 != r.2.1) = false := by
    intro gathered
    induction gathered with
    | nil => rfl
    | cons p gathered ih =>
      rw [List.map_cons, List.zip_cons_cons, List.any_cons, ih, bne_self_eq_false]
      rfl
  cases rounds with
  | zero =>
    rw [raise]
    simp only [hraised, List.map_map]
    rfl
  | succ rounds =>
    rw [raise]
    simp only [hraised, hunchanged, Bool.false_and, Bool.false_eq_true, if_false, List.map_map]
    rfl

/-- The powers of bases that were collected are factors, and make the same product. -/
theorem raise_entries (fuel rounds : Nat) {ps : List (Expr × Expr)} (h : ∀ p ∈ ps, Entry ρ p) :
    (∀ f ∈ raise (fuel + 6) rounds ps, Factor ρ f) ∧
      ((raise (fuel + 6) rounds ps).map (rational ρ)).prod = powersValue ρ ps := by
  obtain ⟨hentries, hvalue⟩ := gather_entries h
  rw [raise_eq (fuel + 4) rounds hentries, ← hvalue]
  generalize gather ps = gathered at hentries ⊢
  have hfactor : ∀ p ∈ gathered.filter fun p => p.2 != zero, _ ∧ _ := fun p hp =>
    (hentries p (List.mem_filter.1 hp).1).factor fuel (List.mem_filter.1 hp).2
  have htaken : (gathered.filter fun p => p.2 != zero).map
      (rational ρ ∘ takenPower (fuel + 4 + 1)) =
      (gathered.filter fun p => p.2 != zero).map fun p => (power p.1 p.2).rational ρ :=
    List.map_congr_left fun p hp => (hfactor p hp).2
  refine ⟨List.forall_mem_map.2 fun p hp => (hfactor p hp).1, ?_⟩
  rw [List.map_map, htaken]
  -- What is left out has the exponent zero.
  clear hfactor htaken hvalue
  induction gathered with
  | nil => rfl
  | cons p gathered ih =>
    obtain ⟨hp, hrest⟩ := List.forall_mem_cons.1 hentries
    rw [List.filter_cons]
    split
    · rw [List.map_cons, List.prod_cons, ih hrest, powersValue, powersValue,
        List.map_cons, List.prod_cons]
    · next h0 =>
      have hzero : p.2 = zero := by simpa using h0
      rw [ih hrest, powersValue, powersValue, List.map_cons, List.prod_cons, hzero, zero,
        rational_power, Rat.num_zero, zpow_zero, one_mul]

namespace ProductParts

/-- Parts of a product of which a coefficient and powers were collected, that make a rational. -/
structure Meets (ρ : String → ℚ) (s : ProductParts) (q : ℚ) : Prop where
  shape : s = { coefficient := s.coefficient, powers := s.powers }
  entries : ∀ p ∈ s.powers, Entry ρ p
  value : s.coefficient * powersValue ρ s.powers = q

variable {s : ProductParts}

/-- No factors make one. -/
theorem meets_empty : ({} : ProductParts).Meets ρ 1 :=
  ⟨rfl, List.forall_mem_nil _, by simp [powersValue]⟩

/-- A number is multiplied in. -/
theorem Meets.scale (hs : s.Meets ρ p) (q : ℚ) : (s.scale q).Meets ρ (p * q) := by
  obtain ⟨hshape, hentries, rfl⟩ := hs
  have hfinite : s.infinite = false := by rw [hshape]
  rw [ProductParts.scale, if_neg (by simp [hfinite])]
  refine ⟨?_, hentries, mul_right_comm _ _ _⟩
  rw [hshape]

/-- A power is kept. -/
theorem Meets.keep (hs : s.Meets ρ p) {x : Expr × Expr} (hx : Entry ρ x) :
    ({ s with powers := s.powers ++ [x] } : ProductParts).Meets ρ
    (p * (power x.1 x.2).rational ρ) := by
  obtain ⟨hshape, hentries, rfl⟩ := hs
  refine ⟨by rw [hshape], List.forall_mem_append.2 ⟨hentries, List.forall_mem_singleton.2 hx⟩, ?_⟩
  simp [powersValue, mul_assoc]

/-- A factor that is no product is taken. -/
theorem Meets.takeFlat (fuel : Nat) (hs : s.Meets ρ p) (hf : f.Regular ρ)
    (hflat : f.isProduct = false) : (takeFactor (fuel + 1) s f).Meets ρ (p * f.rational ρ) := by
  cases hf with
  | number q =>
    rw [takeFactor, rational_number]
    exact hs.scale q
  | symbol name =>
    rw [takeFactor_symbol]
    have hentry : Entry ρ (symbol name, one) := ⟨.symbol name, .inl rfl, 1, rfl, .one _⟩
    simpa [one] using hs.keep hentry
  | sum h hsome =>
    rw [takeFactor]
    · have hentry : Entry ρ (sum _, one) := ⟨.sum h hsome, .inl rfl, 1, rfl, .one _⟩
      simpa [one] using hs.keep hentry
    all_goals simp
  | @power b r hb hatom hr h0 =>
    have htaken : takeFactor (fuel + 1) s (power b (number r)) =
        { s with powers := s.powers ++ [(b, number r)] } := by
      rw [takeFactor]
      cases b <;> first | rfl | cases hatom
    rw [htaken]
    exact hs.keep ⟨hb, .inl hatom, r, rfl, hr⟩
  | product => cases hflat

/-- What is taken one by one is multiplied in. -/
theorem Meets.foldl {take : ProductParts → Expr → ProductParts} {value : Expr → ℚ} {es : List Expr}
    (htake : ∀ e ∈ es, ∀ {s : ProductParts} {p : ℚ}, s.Meets ρ p → (take s e).Meets ρ (p * value e))
    (hs : s.Meets ρ p) : (es.foldl take s).Meets ρ (p * (es.map value).prod) := by
  induction es generalizing s p with
  | nil => rwa [List.map_nil, List.prod_nil, mul_one]
  | cons e es ih =>
    obtain ⟨he, hes⟩ := List.forall_mem_cons.1 htake
    rw [List.map_cons, List.prod_cons, ← mul_assoc]
    exact ih hes (he hs)

/-- A factor is taken. -/
theorem Meets.takeFactor (fuel : Nat) (hs : s.Meets ρ p) (hf : f.Regular ρ) :
    (takeFactor (fuel + 2) s f).Meets ρ (p * f.rational ρ) := by
  cases hflat : f.isProduct with
  | false => exact hs.takeFlat (fuel + 1) hf hflat
  | true =>
    cases hf with
    | product h hflat' =>
      rw [Expr.takeFactor, rational_product]
      exact hs.foldl fun f hf _ _ hs => hs.takeFlat fuel (h f hf) (hflat' f hf)
    | _ => cases hflat

/-- A power of a factor is taken. -/
theorem Meets.takePower (fuel : Nat) (hs : s.Meets ρ p) (hf : f.Regular ρ)
    (hflat : f.isProduct = false) (hr : f.Admits ρ r) :
    (Expr.takeFactor (fuel + 2) s (power f (number r))).Meets ρ (p * f.rational ρ ^ r.num) := by
  have hkept (hkind : f.isAtom = true ∨
      f.isPower = true) (hsplit : (power f (number r)).splitPower = (f, number r))
      (hnumber : f.isNumber = false) :
      (Expr.takeFactor (fuel + 2) s (power f (number r))).Meets ρ (p * f.rational ρ ^ r.num) := by
    have htaken : Expr.takeFactor (fuel + 2) s (power f (number r)) =
        { s with powers := s.powers ++ [(f, number r)] } := by
      rw [Expr.takeFactor, hsplit]
      cases f <;> first | rfl | cases hnumber
    rw [htaken, ← rational_power]
    exact hs.keep ⟨hf, hkind, r, rfl, hr⟩
  cases f with
  | number q =>
    have hpos := hr.pos_of_zero
    rw [rational_number] at hpos ⊢
    rw [takeFactor_number fuel hpos hr.whole]
    exact hs.scale _
  | symbol | sum => exact hkept (.inl rfl) rfl rfl
  | power => exact hkept (.inr rfl) rfl rfl
  | product => cases hflat
  | undefined | infinite | imaginary => cases hf

end ProductParts

/-! ## Products -/

/-- A factor is its only factor. -/
theorem Factor.factors (h : Factor ρ f) : f.factors = [f] := by
  cases f with
  | product => cases h.flat
  | _ => rfl

/-- The product of a coefficient and factors, with the factors in order. -/
def assembled (q : ℚ) (fs : List Expr) : Expr :=
  if q = 0 then zero
  else match orderedFactors fs with
    | [] => number q
    | [f] => if q = 1 then f else if f.isSum then multiple q f else product [number q, f]
    | fs => product (if q = 1 then fs else number q :: fs)

/-- A product of which a coefficient and powers were collected. -/
theorem finishProduct_eq (fuel : Nat) {q : ℚ} {ps : List (Expr × Expr)}
    (hraise : ∀ f ∈ raise (fuel + 2) 2 ps, Factor ρ f) :
    finishProduct (fuel + 3) { coefficient := q, powers := ps } =
    assembled q (raise (fuel + 2) 2 ps) := by
  have hgather : gather [] = [] := rfl
  have hjoin : joinRoots (fuel + 2) [] [] = (1, []) := by rw [joinRoots]
  have hpart : (0 : ℚ) - ((0 : ℚ).floor : ℚ) = 0 := by decide +kernel
  have hroots : byExponent (α := ℚ) [] = [] := rfl
  have hexponentials : byExponent (α := Expr) [] = [] := rfl
  have hscale : ∀ s : ProductParts, s.scale 1 = s := fun s => by
    unfold ProductParts.scale
    split <;> simp
  have hsign : (if (0 : ℚ).floor % 2 = 0 then (1 : ℚ) else -1) = 1 := if_pos rfl
  have hnumbers : numbersProduct [] = 1 := rfl
  generalize hfs : raise (fuel + 2) 2 ps = fs at hraise ⊢
  have hfactors : fs.flatMap factors = fs := by
    rw [List.flatMap_congr fun f hf => (hraise f hf).factors, List.flatMap_singleton']
  have hundefined : (fs.any fun e => e == undefined) = false :=
    List.any_eq_false.2 fun f hf h => (hraise f hf).regular.ne_constant.1 (beq_iff_eq.1 h)
  have hinfinite : fs.contains infinite = false :=
    Bool.eq_false_iff.2 fun h => (hraise _ (List.contains_iff_mem.1 h)).regular.ne_constant.2.1 rfl
  have hfinite : (fs.filter fun e => e != infinite) = fs :=
    List.filter_eq_self.2 fun f hf => bne_iff_ne.2 (hraise f hf).regular.ne_constant.2.1
  have hnumber : fs.filter isNumber = [] :=
    List.filter_eq_nil_iff.2 fun f hf => Bool.eq_false_iff.1 (hraise f hf).symbolic
  have hothers : (fs.filter fun e => !e.isNumber) = fs :=
    List.filter_eq_self.2 fun f hf => by rw [(hraise f hf).symbolic]; rfl
  rw [finishProduct]
  simp only [hfs, hgather, hexponentials, hroots, hjoin, hpart, List.filterMap_nil,
    List.map_nil, List.foldl_nil, List.filter_nil, if_true, List.append_nil, hfactors, hundefined,
    hnumber, hothers, hinfinite, hfinite,
    Bool.false_eq_true, if_false, hnumbers, mul_one, hsign, hscale]
  rfl

/-- A coefficient and factors make a regular product. -/
theorem meets_assembled {fs : List Expr} (h : ∀ f ∈ fs, Factor ρ f) (q : ℚ) :
    (assembled q fs).Meets ρ (q * (fs.map (rational ρ)).prod) := by
  have hperm := orderedFactors_perm fs
  rw [← (hperm.map (rational ρ)).prod_eq]
  have hordered : ∀ f ∈ orderedFactors fs, Factor ρ f := fun f hf => h f (hperm.mem_iff.1 hf)
  unfold assembled
  generalize orderedFactors fs = ordered at hordered ⊢
  split
  · next h0 => exact ⟨.number 0, by rw [h0, zero_mul, zero, rational_number]⟩
  · split
    · exact ⟨.number q, by simp⟩
    · next f =>
      obtain ⟨hregular, hflat, hsymbolic⟩ := hordered f (List.mem_singleton_self f)
      rw [List.map_singleton, List.prod_singleton]
      split
      · next h1 => exact ⟨hregular, by rw [h1, one_mul]⟩
      · split
        · exact hregular.multiple q
        · refine ⟨.product ?_ ?_ ⟨f, by simp, hsymbolic⟩, by simp⟩
          · exact List.forall_mem_cons.2 ⟨.number q, List.forall_mem_singleton.2 hregular⟩
          · exact List.forall_mem_cons.2 ⟨rfl, List.forall_mem_singleton.2 hflat⟩
    · next hnil _ =>
      obtain ⟨f, hf⟩ := List.exists_mem_of_ne_nil ordered hnil
      split
      · next h1 =>
        refine ⟨.product (fun f hf => (hordered f hf).regular) (fun f hf => (hordered f hf).flat)
          ⟨f, hf, (hordered f hf).symbolic⟩, ?_⟩
        rw [rational_product, h1, one_mul]
      · refine ⟨.product ?_ ?_ ⟨f, List.mem_cons_of_mem _ hf, (hordered f hf).symbolic⟩, by simp⟩
        · exact List.forall_mem_cons.2 ⟨.number q, fun f hf => (hordered f hf).regular⟩
        · exact List.forall_mem_cons.2 ⟨rfl, fun f hf => (hordered f hf).flat⟩

/-- The product of what was collected. -/
theorem ProductParts.Meets.finishProduct (fuel : Nat) {s : ProductParts} (hs : s.Meets ρ q) :
    (Expr.finishProduct (fuel + 7) s).Meets ρ q := by
  obtain ⟨hshape, hentries, rfl⟩ := hs
  obtain ⟨hfactors, hvalue⟩ := raise_entries fuel 2 hentries
  rw [hshape, finishProduct_eq (fuel + 4) hfactors, ← hvalue]
  exact meets_assembled hfactors _

/-- A product of regular expressions. -/
theorem meets_productWithin (fuel : Nat) {es : List Expr} (h : ∀ e ∈ es, e.Regular ρ) :
    (productWithin (fuel + 8) es).Meets ρ (es.map (rational ρ)).prod := by
  rw [productWithin, ← one_mul (es.map (rational ρ)).prod]
  have htaken : (es.foldl (takeFactor (fuel + 7)) {}).Meets ρ (1 * (es.map (rational ρ)).prod) :=
    ProductParts.meets_empty.foldl fun e he _ _ hs => hs.takeFactor (fuel + 5) (h e he)
  exact htaken.finishProduct fuel

/-! ## Operations -/

variable {a : Expr}

/-- A product of two regular expressions. -/
theorem Meets.mul (ha : a.Meets ρ p) (hb : b.Meets ρ q) : (Expr.mul a b).Meets ρ (p * q) := by
  have hproduct : (productOf [a, b]).Meets ρ (p * q) := by
    have h := meets_productWithin 392
      (List.forall_mem_cons.2 ⟨ha.regular, List.forall_mem_singleton.2 hb.regular⟩)
    rw [List.map_cons, List.map_singleton, List.prod_cons, List.prod_singleton,
      ha.rational, hb.rational] at h
    exact h
  unfold Expr.mul
  split
  · rw [← ha.rational, ← hb.rational, rational_number, rational_number]
    exact ⟨.number _, rational_number _⟩
  · exact hproduct

/-- A difference of two regular expressions. -/
theorem Meets.sub (ha : a.Meets ρ p) (hb : b.Meets ρ q) : (Expr.sub a b).Meets ρ (p - q) := by
  have hminus : minusOne.Meets ρ (-1) := ⟨.number _, rational_number _⟩
  rw [sub_eq_add_neg, ← neg_one_mul q]
  exact ha.add (hminus.mul hb)

/-- A whole power of a product is taken factor by factor. -/
theorem meets_pow_product (fuel : Nat) {fs : List Expr} (h : (product fs).Regular ρ)
    (hr : (product fs).Admits ρ r) :
    (productWithin (fuel + 8) (fs.map fun f => power f (number r))).Meets ρ
    ((product fs).rational ρ ^ r.num) := by
  cases h with
  | product h hflat =>
    -- A factor that is zero makes the product zero.
    have hadmits : ∀ f ∈ fs, f.Admits ρ r := fun f hf => ⟨hr.whole, fun hzero => hr.pos_of_zero (by
      rw [rational_product]
      exact List.prod_eq_zero (List.mem_map.2 ⟨f, hf, hzero⟩))⟩
    have htaken : (fs.foldl (fun s f => takeFactor (fuel + 7) s (power f (number r))) {}).Meets ρ
        (1 * (fs.map fun f => f.rational ρ ^ r.num).prod) :=
      ProductParts.meets_empty.foldl fun f hf _ _ hs =>
        hs.takePower (fuel + 5) (h f hf) (hflat f hf) (hadmits f hf)
    have hpower : (product fs).rational ρ ^ r.num = (fs.map fun f =>
        f.rational ρ ^ r.num).prod := by
      rw [rational_product, List.prod_zpow, List.map_map]
      rfl
    rw [productWithin, List.foldl_map, hpower,
      ← one_mul (fs.map fun f => f.rational ρ ^ r.num).prod]
    exact htaken.finishProduct fuel

/-- A whole power, unless zero is inverted. -/
theorem Meets.pow (hb : b.Meets ρ q) (hwhole : r.den = 1) (hzero : q = 0 → 0 ≤ r) :
    (Expr.pow b (number r)).Meets ρ (q ^ r.num) := by
  obtain ⟨hregular, rfl⟩ := hb
  cases hnumber : b.isNumber with
  | true =>
    cases b with
    | number p =>
      have hpow : Expr.pow (number p) (number r) = wholePower p r.num := if_pos hwhole
      rw [rational_number] at hzero ⊢
      rw [hpow, wholePower_number hzero]
      exact ⟨.number _, rational_number _⟩
    | _ => cases hnumber
  | false =>
    have hpow : Expr.pow b (number r) = powerWithin 400 b (number r) := by
      cases b <;> first | rfl | cases hnumber
    rw [hpow]
    by_cases h0 : r = 0
    · have hone : powerWithin 400 b (number r) = one := by simp [powerWithin, zero, h0]
      rw [hone, h0, Rat.num_zero, zpow_zero]
      exact ⟨.number 1, rational_number 1⟩
    · have hadmits : b.Admits ρ r := ⟨hwhole, fun h => (hzero h).lt_of_ne' h0⟩
      by_cases h1 : r = 1
      · have hself : powerWithin 400 b (number r) = b := by simp [powerWithin, zero, one, h1]
        rw [hself, h1, Rat.num_one, zpow_one]
        exact ⟨hregular, rfl⟩
      · have hkept (hkind : b.isAtom = true ∨ b.isPower = true) :
            (powerWithin 400 b (number r)).Meets ρ (b.rational ρ ^ r.num) := by
          have hentry : Entry ρ (b, number r) := ⟨hregular, hkind, r, rfl, hadmits⟩
          obtain ⟨hfactor, hvalue⟩ := hentry.factor 395 (by simp [zero, h0])
          rw [takenPower, if_neg (by simp [one, h1])] at hfactor hvalue
          exact ⟨hfactor.regular, hvalue.trans (rational_power b r)⟩
        cases b with
        | product fs =>
          have htaken : powerWithin 400 (product fs) (number r) =
              productWithin 399 (fs.map fun f => power f (number r)) := by
            simp [powerWithin, zero, one, h0, h1, hwhole]
          rw [htaken]
          exact meets_pow_product 391 hregular hadmits
        | symbol | sum => exact hkept (.inl rfl)
        | power => exact hkept (.inr rfl)
        | number => cases hnumber
        | undefined | infinite | imaginary => cases hregular

/-- A quotient by what is not zero. -/
theorem Meets.div (ha : e.Meets ρ p) (hb : b.Meets ρ q) (hq : q ≠ 0) :
    (Expr.div e b).Meets ρ (p / q) := by
  have hinverse : (Expr.pow b minusOne).Meets ρ q⁻¹ := by
    rw [← zpow_neg_one q]
    exact hb.pow (r := -1) rfl fun h => absurd h hq
  unfold Expr.div
  split
  · next p' q' =>
    have hp := ha.rational
    have hq' := hb.rational
    rw [rational_number] at hp hq'
    subst hp hq'
    rw [if_neg hq]
    exact ⟨.number _, rational_number _⟩
  · rw [div_eq_mul_inv]
    exact ha.mul hinverse

end EquationStudio.Expr
