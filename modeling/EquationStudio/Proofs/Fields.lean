import EquationStudio.Datum.Basic
import Mathlib.Data.List.Nodup

/-!
# Fields of records

What is found under a key after fields are set, erased or selected by their keys (`Fields.get?_set`,
`Fields.get?_erase`, `Fields.get?_filter`). None of these operations makes two fields of one key.
-/

namespace EquationStudio.Fields

variable {fields : Fields} {key : String} {value : Datum}

/-- Nothing is found where there are no fields. -/
@[simp] theorem get?_nil (key : String) : get? [] key = none := rfl

/-- The first field is found under its key, the others are found under theirs. -/
theorem get?_cons (f : String × Datum) (fields : Fields) (key : String) :
    get? (f :: fields) key = if f.1 = key then some f.2 else get? fields key := by
  rw [get?, get?, List.find?_cons]
  by_cases h : f.1 = key
  · simp [h]
  · simp [beq_eq_false_iff_ne.2 h, h]

/-- A field that is found is there. -/
theorem mem_of_get? (h : get? fields key = some value) : (key, value) ∈ fields := by
  obtain ⟨⟨k, v⟩, hf, rfl⟩ := Option.map_eq_some_iff.1 h
  obtain rfl : k = key := by simpa using List.find?_some hf
  exact List.mem_of_find?_eq_some hf

/-- A field that is there is found, if no other has its key. -/
theorem get?_of_mem (hn : (fields.map Prod.fst).Nodup) (h : (key, value) ∈ fields) :
    get? fields key = some value := by
  induction fields with
  | nil => cases h
  | cons f fields ih =>
    obtain ⟨hnew, hn⟩ := List.nodup_cons.1 hn
    rw [get?_cons]
    obtain rfl | h := List.mem_cons.1 h
    · rw [if_pos rfl]
    · rw [if_neg fun he => hnew (List.mem_map.2 ⟨_, h, he.symm⟩)]
      exact ih hn h

/-- The fields after one is set are that one and earlier ones. -/
theorem mem_set {f : String × Datum} (h : f ∈ set fields key value) :
    f = (key, value) ∨ f ∈ fields := by
  unfold set at h
  split at h
  · obtain ⟨f', hf', rfl⟩ := List.mem_map.1 h
    split
    · exact .inl rfl
    · exact .inr hf'
  · rw [List.mem_append, List.mem_singleton] at h
    exact h.symm

/-- There is a field under a key exactly if one is found. -/
theorem any_eq_isSome (fields : Fields) (key : String) :
    fields.any (·.1 == key) = (get? fields key).isSome := by
  induction fields with
  | nil => rfl
  | cons f fields ih =>
    rw [List.any_cons, get?_cons, ih]
    by_cases h : f.1 = key <;> simp [h]

/-- Replacing the fields of one key changes what is found under it only. -/
theorem get?_map_replace (fields : Fields) (key key' : String) (value : Datum) :
    get? (fields.map fun f => if f.1 == key then (key, value) else f) key' =
      if key' = key then (get? fields key).map fun _ => value else get? fields key' := by
  induction fields with
  | nil => simp
  | cons f fields ih =>
    rw [List.map_cons, get?_cons, get?_cons, get?_cons, ih]
    by_cases hf : f.1 = key
    · by_cases hk : key' = key
      · simp [hf, hk]
      · simp [hf, hk, Ne.symm hk]
    · by_cases hk : key' = key
      · subst hk; simp [hf]
      · simp [hf, hk]

/-- Setting a field changes what is found under its key only. -/
theorem get?_set (fields : Fields) (key key' : String) (value : Datum) :
    get? (set fields key value) key' = if key' = key then some value else get? fields key' := by
  unfold set
  split
  · next h =>
    rw [any_eq_isSome, Option.isSome_iff_exists] at h
    obtain ⟨old, hold⟩ := h
    rw [get?_map_replace, hold, Option.map_some]
  · next h =>
    rw [any_eq_isSome, Bool.not_eq_true, Option.isSome_eq_false_iff, Option.isNone_iff_eq_none] at h
    have happend : get? (fields ++ [(key, value)]) key' =
        (get? fields key').or (get? [(key, value)] key') := by
      rw [get?, List.find?_append, Option.map_or]
      rfl
    rw [happend, get?_cons]
    by_cases hk : key' = key
    · subst hk; simp [h]
    · simp [hk, Ne.symm hk]

/-- Selecting fields by their keys leaves what is found under those keys. -/
theorem get?_filter (fields : Fields) (p : String → Bool) (key : String) :
    get? (fields.filter fun f => p f.1) key = if p key then get? fields key else none := by
  induction fields with
  | nil => simp
  | cons f fields ih =>
    rw [List.filter_cons, get?_cons]
    by_cases hf : f.1 = key
    · subst hf
      by_cases hp : p f.1 = true
      · simp [hp, get?_cons]
      · simp [hp, ih]
    · by_cases hp : p f.1 = true
      · simp [hp, get?_cons, hf, ih]
      · simp [hp, hf, ih]

/-- Erasing a field leaves what is found under the other keys. -/
theorem get?_erase (fields : Fields) (key key' : String) :
    get? (erase fields key) key' = if key' = key then none else get? fields key' := by
  rw [erase, get?_filter fields (· != key)]
  by_cases h : key' = key <;> simp [h]

/-- Setting a field makes no second field of its key. -/
theorem nodup_set (h : (fields.map Prod.fst).Nodup) (key : String) (value : Datum) :
    ((set fields key value).map Prod.fst).Nodup := by
  unfold set
  split
  · have hkeys : (fields.map fun f => if f.1 == key then (key, value) else f).map Prod.fst =
        fields.map Prod.fst := by
      rw [List.map_map]
      refine List.map_congr_left fun f _ => ?_
      by_cases hf : f.1 = key <;> simp [hf]
    rwa [hkeys]
  · next hnew =>
    rw [List.map_append, List.nodup_append]
    refine ⟨h, by simp, fun k hk k' hk' hne => hnew ?_⟩
    obtain ⟨f, hf, rfl⟩ := List.mem_map.1 hk
    obtain rfl : f.1 = key := by simpa [hne] using hk'
    exact List.any_eq_true.2 ⟨f, hf, by simp⟩

/-- Selecting fields makes no second field of a key. -/
theorem nodup_filter (h : (fields.map Prod.fst).Nodup) (p : String × Datum → Bool) :
    ((fields.filter p).map Prod.fst).Nodup := h.sublist (List.filter_sublist.map _)

end EquationStudio.Fields
