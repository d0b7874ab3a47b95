import EquationStudio.Proofs.Fields
import Mathlib.Data.List.Perm.Subperm

/-!
# Equality of data

Data are equal by what they stand for: numbers across their kinds, records without regard to the
order of their fields. The relation is symmetric (`Datum.equal_symm`) and transitive
(`Datum.equal_trans`), though the undefined number is not equal to itself. Symmetry needs records
that hold each key once (`Datum.Distinct`): each field has an equal one in the other record, and as
there are no more of those, the other way round too.
-/

namespace EquationStudio.Datum

/-! ## Records that hold each key once -/

mutual

/-- A datum whose records hold each key once. -/
def Distinct : Datum → Prop
  | list items => DistinctItems items
  | record fields => (fields.map Prod.fst).Nodup ∧ DistinctFields fields
  | null | bool _ | int _ | float _ | text _ => True

/-- Members whose records hold each key once. -/
def DistinctItems : List Datum → Prop
  | [] => True
  | x :: xs => x.Distinct ∧ DistinctItems xs

/-- Fields whose values' records hold each key once. -/
def DistinctFields : List (String × Datum) → Prop
  | [] => True
  | (_, x) :: fs => x.Distinct ∧ DistinctFields fs

end

/-- A list holds each key once if its members do. -/
theorem distinct_list {items : List Datum} : (list items).Distinct ↔ ∀ x ∈ items, x.Distinct := by
  rw [Distinct]
  induction items with
  | nil => simp [DistinctItems]
  | cons x xs ih => simp [DistinctItems, ih]

/-- A record holds each key once if it does itself and its values do. -/
theorem distinct_record {fields : Fields} :
    (record fields).Distinct ↔ (fields.map Prod.fst).Nodup ∧ ∀ f ∈ fields, f.2.Distinct := by
  rw [Distinct, and_congr_right_iff]
  rintro -
  induction fields with
  | nil => simp [DistinctFields]
  | cons f fs ih => simp [DistinctFields, ih]

mutual

/-- Whether records hold each key once is decided part by part. -/
def decideDistinct : (d : Datum) → Decidable d.Distinct
  | null | bool _ | int _ | float _ | text _ => .isTrue trivial
  | list items => decideDistinctItems items
  | record fields =>
    @instDecidableAnd _ _ (inferInstanceAs (Decidable (fields.map Prod.fst).Nodup))
      (decideDistinctFields fields)

/-- Whether members do. -/
def decideDistinctItems : (items : List Datum) → Decidable (DistinctItems items)
  | [] => .isTrue trivial
  | x :: xs => @instDecidableAnd _ _ (decideDistinct x) (decideDistinctItems xs)

/-- Whether the values of fields do. -/
def decideDistinctFields : (fields : List (String × Datum)) → Decidable (DistinctFields fields)
  | [] => .isTrue trivial
  | (_, x) :: fs => @instDecidableAnd _ _ (decideDistinct x) (decideDistinctFields fs)

end

instance (d : Datum) : Decidable d.Distinct := d.decideDistinct

/-! ## Numbers -/

namespace Quantity

/-- What a number stands for, except the undefined one: the integer of steps that it is, or an
infinity by its sign. -/
def measure? : Quantity → Option (Int ⊕ Bool)
  | whole n => some (.inl (n * Nat.pow 2 stepBits))
  | real (.finite x) => some (.inl x.steps)
  | real (.infinite negative) => some (.inr negative)
  | real .nan => none

/-- Numbers are equal exactly if they stand for the same. -/
theorem equal_iff {p q : Quantity} : p.equal q = true ↔ ∃ v, p.measure? = some v ∧
    q.measure? = some v := by
  have hpow : ∀ k, (Nat.pow 2 k : Int) ≠ 0 := fun _ =>
    Int.natCast_ne_zero.2 (Nat.ne_of_gt (Nat.pow_pos (Nat.succ_pos 1)))
  have hcancel : ∀ m n : Int, m * Nat.pow 2 stepBits = n * Nat.pow 2 stepBits ↔ m = n := fun _ _ =>
    Int.mul_eq_mul_right_iff (hpow stepBits)
  have hsteps : ∀ m n : Int, m = n ↔ ∃ u : Int ⊕ Bool, some (.inl m) = some u ∧
      some (.inl n) = some u :=
    fun m n => ⟨fun h => ⟨.inl m, rfl, by rw [h]⟩,
      fun ⟨_, hm, hn⟩ => Sum.inl.inj (Option.some.inj (hm.trans hn.symm))⟩
  have hapart : ∀ (n : Int) (s : Bool),
      (¬ ∃ u : Int ⊕ Bool, some (.inl n) = some u ∧ some (.inr s) = some u) ∧
        ¬ ∃ u : Int ⊕ Bool, some (.inr s) = some u ∧ some (.inl n) = some u := by simp
  have hnone : ∀ v : Option (Int ⊕ Bool), (¬ ∃ u, v = some u ∧ none = some u) ∧
      ¬ ∃ u, none = some u ∧ v = some u := by simp
  cases p with
  | whole m =>
    cases q with
    | whole n => exact beq_iff_eq.trans ((hcancel m n).symm.trans (hsteps _ _))
    | real y =>
      cases y with
      | finite y => exact beq_iff_eq.trans (hsteps _ _)
      | infinite s => exact iff_of_false Bool.false_ne_true (hapart _ s).1
      | nan => exact iff_of_false Bool.false_ne_true (hnone _).1
  | real x =>
    cases q with
    | whole n =>
      cases x with
      | finite x => exact beq_iff_eq.trans (eq_comm.trans (hsteps _ _))
      | infinite s => exact iff_of_false Bool.false_ne_true (hapart _ s).2
      | nan => exact iff_of_false Bool.false_ne_true (hnone _).2
    | real y =>
      cases x with
      | finite x =>
        cases y with
        | finite y => exact beq_iff_eq.trans (hsteps _ _)
        | infinite s => exact iff_of_false Bool.false_ne_true (hapart _ s).1
        | nan => exact iff_of_false Bool.false_ne_true (hnone _).1
      | infinite s =>
        cases y with
        | finite y => exact iff_of_false Bool.false_ne_true (hapart _ s).2
        | infinite t => cases s <;> cases t <;> simp [equal, Double.equal, measure?]
        | nan => exact iff_of_false Bool.false_ne_true (hnone _).1
      | nan => exact iff_of_false Bool.false_ne_true (hnone _).2

/-- Numbers that are equal are so in the other order. -/
theorem equal_symm {p q : Quantity} (h : p.equal q = true) : q.equal p = true := by
  obtain ⟨v, hp, hq⟩ := equal_iff.1 h
  exact equal_iff.2 ⟨v, hq, hp⟩

/-- Numbers that are equal to one number are equal to each other. -/
theorem equal_trans {p q r : Quantity} (hpq : p.equal q = true) (hqr : q.equal r = true) :
    p.equal r = true := by
  obtain ⟨v, hp, hq⟩ := equal_iff.1 hpq
  obtain ⟨w, hq', hr⟩ := equal_iff.1 hqr
  obtain rfl : v = w := Option.some.inj (hq.symm.trans hq')
  exact equal_iff.2 ⟨v, hp, hr⟩

end Quantity

/-! ## Data -/

section
variable {a b : Datum} {fs gs : Fields}

/-- Data that stand for numbers are equal to numbers only. -/
theorem equal_of_quantity {p : Quantity} (ha : a.quantity? = some p) :
    a.equal b = true ↔ ∃ q, b.quantity? = some q ∧ p.equal q = true := by
  cases a with
  | bool | int | float =>
    cases ha
    cases b <;> simp [equal, quantity?]
  | _ => cases ha

/-- The fields of one record have equal ones in another exactly if each has. -/
theorem equalFields_iff : equalFields fs gs = true ↔
    ∀ f ∈ fs, ∃ y, Fields.get? gs f.1 = some y ∧ f.2.equal y = true := by
  induction fs with
  | nil => simp [equalFields]
  | cons f fs ih =>
    rw [equalFields, Bool.and_eq_true, ih, List.forall_mem_cons]
    refine and_congr_left fun _ => ?_
    cases Fields.get? gs f.1 <;> simp

/-- Where the keys of fields are distinct and all found among as many other fields, they are the
keys of those. -/
theorem perm_keys (hlen : fs.length = gs.length) (hn : (fs.map Prod.fst).Nodup)
    (h : ∀ f ∈ fs, ∃ y, Fields.get? gs f.1 = some y) :
    (fs.map Prod.fst).Perm (gs.map Prod.fst) := by
  have hsub : fs.map Prod.fst ⊆ gs.map Prod.fst := by
    intro key hkey
    obtain ⟨f, hf, rfl⟩ := List.mem_map.1 hkey
    obtain ⟨y, hy⟩ := h f hf
    exact List.mem_map.2 ⟨_, Fields.mem_of_get? hy, rfl⟩
  exact (List.subperm_of_subset hn hsub).perm_of_length_le (by simp [hlen])

end

mutual

/-- Data that are equal are so in the other order, if the records of the first one hold each key
once. -/
theorem equal_symm : ∀ {a b : Datum}, a.Distinct → a.equal b = true → b.equal a = true
  | null, b, _, h => by
    cases b with
    | null => rfl
    | _ => simp [equal, quantity?] at h
  | bool _, b, _, h | int _, b, _, h | float _, b, _, h => by
    obtain ⟨q, hq, hpq⟩ := (equal_of_quantity rfl).1 h
    exact (equal_of_quantity hq).2 ⟨_, rfl, Quantity.equal_symm hpq⟩
  | text s, b, _, h => by
    cases b with
    | text t =>
      rw [equal, beq_iff_eq] at h ⊢
      exact h.symm
    | _ => simp [equal, quantity?] at h
  | list xs, b, hd, h => by
    cases b with
    | list ys =>
      rw [equal] at h ⊢
      exact equalItems_symm hd h
    | _ => simp [equal, quantity?] at h
  | record fs, b, hd, h => by
    cases b with
    | record gs =>
      rw [equal, Bool.and_eq_true, beq_iff_eq, equalFields_iff] at h ⊢
      refine ⟨h.1.symm, fun g hg => ?_⟩
      have hperm : (fs.map Prod.fst).Perm (gs.map Prod.fst) := perm_keys h.1 hd.1 fun f hf => by
        obtain ⟨y, hy, -⟩ := h.2 f hf
        exact ⟨y, hy⟩
      obtain ⟨f, hf, hkey⟩ := List.mem_map.1 (hperm.mem_iff.2 (List.mem_map_of_mem hg))
      obtain ⟨y, hy, hfy⟩ := h.2 f hf
      have hfound : Fields.get? gs f.1 = some g.2 := by
        rw [hkey]
        exact Fields.get?_of_mem (hperm.nodup_iff.1 hd.1) hg
      obtain rfl : y = g.2 := Option.some.inj (hy.symm.trans hfound)
      exact ⟨f.2, hkey ▸ Fields.get?_of_mem hd.1 hf, equalValue_symm hd.2 f hf hfy⟩
    | _ => simp [equal, quantity?] at h

/-- Lists that are equal are so in the other order. -/
theorem equalItems_symm : ∀ {xs ys : List Datum}, DistinctItems xs → equalItems xs ys = true →
    equalItems ys xs = true
  | [], [], _, _ => rfl
  | [], _ :: _, _, h | _ :: _, [], _, h => by cases h
  | x :: xs, y :: ys, hd, h => by
    rw [equalItems, Bool.and_eq_true] at h ⊢
    exact ⟨equal_symm hd.1 h.1, equalItems_symm hd.2 h.2⟩

/-- Values of fields that are equal to data are so in the other order. -/
theorem equalValue_symm : ∀ {fs : List (String × Datum)}, DistinctFields fs →
    ∀ f ∈ fs, ∀ {y : Datum},
    f.2.equal y = true → y.equal f.2 = true
  | [], _, _, hf, _, _ => absurd hf List.not_mem_nil
  | (key, x) :: fs, hd, f, hf, y, h => by
    obtain rfl | hf := List.mem_cons.1 hf
    · exact equal_symm hd.1 h
    · exact equalValue_symm hd.2 f hf h

end

mutual

/-- Data that are equal to one datum are equal to each other. -/
theorem equal_trans : ∀ {a b c : Datum}, a.equal b = true → b.equal c = true → a.equal c = true
  | null, b, c, h, h' => by
    cases b with
    | null => exact h'
    | _ => simp [equal, quantity?] at h
  | bool _, b, c, h, h' | int _, b, c, h, h' | float _, b, c, h, h' => by
    obtain ⟨q, hq, hpq⟩ := (equal_of_quantity rfl).1 h
    obtain ⟨r, hr, hqr⟩ := (equal_of_quantity hq).1 h'
    exact (equal_of_quantity rfl).2 ⟨r, hr, Quantity.equal_trans hpq hqr⟩
  | text s, b, c, h, h' => by
    cases b with
    | text t =>
      rw [equal, beq_iff_eq] at h
      rwa [h]
    | _ => simp [equal, quantity?] at h
  | list xs, b, c, h, h' => by
    cases b with
    | list ys =>
      cases c with
      | list zs =>
        rw [equal] at h h' ⊢
        exact equalItems_trans h h'
      | _ => simp [equal, quantity?] at h'
    | _ => simp [equal, quantity?] at h
  | record fs, b, c, h, h' => by
    cases b with
    | record gs =>
      cases c with
      | record hs =>
        rw [equal, Bool.and_eq_true, beq_iff_eq, equalFields_iff] at h h' ⊢
        refine ⟨h.1.trans h'.1, fun f hf => ?_⟩
        obtain ⟨y, hy, hfy⟩ := h.2 f hf
        obtain ⟨z, hz, hyz⟩ := h'.2 _ (Fields.mem_of_get? hy)
        exact ⟨z, hz, equalValue_trans f hf hfy hyz⟩
      | _ => simp [equal, quantity?] at h'
    | _ => simp [equal, quantity?] at h

/-- Lists that are equal to one list are equal to each other. -/
theorem equalItems_trans : ∀ {xs ys zs : List Datum}, equalItems xs ys = true →
    equalItems ys zs = true →
    equalItems xs zs = true
  | [], [], _, _, h' => h'
  | [], _ :: _, _, h, _ | _ :: _, [], _, h, _ => by cases h
  | _ :: _, _ :: _, [], _, h' => by cases h'
  | x :: xs, y :: ys, z :: zs, h, h' => by
    rw [equalItems, Bool.and_eq_true] at h h' ⊢
    exact ⟨equal_trans h.1 h'.1, equalItems_trans h.2 h'.2⟩

/-- A value of a field that is equal to a datum is equal to what that is equal to. -/
theorem equalValue_trans : ∀ {fs : List (String × Datum)}, ∀ f ∈ fs, ∀ {y z : Datum},
    f.2.equal y = true → y.equal z = true → f.2.equal z = true
  | [], _, hf, _, _, _, _ => absurd hf List.not_mem_nil
  | (key, x) :: fs, f, hf, y, z, h, h' => by
    obtain rfl | hf := List.mem_cons.1 hf
    · exact equal_trans h h'
    · exact equalValue_trans f hf h h'

end

end EquationStudio.Datum
