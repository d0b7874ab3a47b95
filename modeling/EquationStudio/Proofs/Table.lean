import EquationStudio.Table
import Mathlib.Data.List.Nodup

/-!
# Look-ups in tables

A table is known by what `Table.get?` finds under each key and by the order of `Table.values`. Each
operation is described by its effect on these two: `get?_insert`, `get?_erase` and `get?_empty` on
the look-ups, `toList_insert` and `insert_insert` on the order. A table in which entries were
inserted one after another under new keys lists them in that order (`foldl_insert_toList`), and an
order of entries determines the table (`Table.ext_toList`). A table whose values name the keys under
which they stand is known by the order of its values (`foldl_insert_values`). What is left when
values are removed is the part of the table that is kept (`foldl_erase_values`).
-/

namespace EquationStudio.Table

variable {α : Type}

/-! ## Entries -/

/-- A table finds under a key exactly the value of its entry. -/
theorem get?_eq_some {t : Table α} {k : Key} {v : α} :
    t.get? k = some v ↔ (k, v) ∈ t.entries := by
  obtain ⟨es, hn⟩ := t
  induction es with
  | nil => simp [get?]
  | cons e es ih =>
    obtain ⟨hne, hn⟩ := List.nodup_cons.1 hn
    specialize ih hn
    simp only [get?, Option.map_eq_some_iff] at ih ⊢
    rw [List.find?_cons]
    by_cases hk : e.1 = k
    · subst hk
      simp only [decide_true, Option.some.injEq, exists_eq_left', List.mem_cons]
      constructor
      · rintro rfl; exact .inl rfl
      · rintro (h | h)
        · rw [← h]
        · exact absurd (List.mem_map.2 ⟨_, h, rfl⟩) hne
    · simp only [hk, decide_false, ih, List.mem_cons]
      exact ⟨.inr, fun h => h.resolve_left fun he => hk (by rw [← he])⟩

/-- The values of a table are what it finds under some key. -/
theorem mem_values {t : Table α} {v : α} : v ∈ t.values ↔ ∃ k, t.get? k = some v := by
  simp [values, toList, get?_eq_some]

/-- There are as many values as entries. -/
theorem length_values (t : Table α) : t.values.length = t.size := by
  rw [values, toList, List.length_map, List.length_reverse, size]

/-- A table has an entry under a key exactly if it finds one. -/
theorem contains_eq_isSome (t : Table α) (k : Key) : t.contains k = (t.get? k).isSome := by
  rw [Bool.eq_iff_iff, Option.isSome_iff_exists]
  simp [contains, get?_eq_some]

/-- A table has no entry under a key exactly if it finds nothing. -/
theorem contains_eq_false {t : Table α} {k : Key} : t.contains k = false ↔ t.get? k = none := by
  rw [contains_eq_isSome]; simp

/-- The keys of a table are those under which it finds something. -/
theorem mem_keys {t : Table α} {k : Key} : k ∈ t.entries.map Prod.fst ↔ t.contains k = true := by
  simp [contains, List.any_eq_true]

/-! ## Operations -/

@[simp] theorem get?_empty (k : Key) : (empty : Table α).get? k = none := rfl

/-- An entry that is there is replaced in its place. -/
theorem entries_insert_of_contains {t : Table α} {k : Key} (h : t.contains k = true) (v : α) :
    (t.insert k v).entries = t.entries.map (replaced k v) := by simp [insert, h]

/-- An entry that is not there is added. -/
theorem entries_insert_of_not_contains {t : Table α} {k : Key} (h : ¬ t.contains k = true)
    (v : α) : (t.insert k v).entries = (k, v) :: t.entries := by simp [insert, h]

/-- Setting an entry changes what is found under its key only. -/
@[simp] theorem get?_insert (t : Table α) (k k' : Key) (v : α) :
    (t.insert k v).get? k' = if k' = k then some v else t.get? k' := by
  ext w
  rw [get?_eq_some]
  by_cases h : t.contains k = true
  · rw [entries_insert_of_contains h, List.mem_map]
    by_cases hk : k' = k
    · subst hk
      rw [contains_eq_isSome] at h
      obtain ⟨u, hu⟩ := Option.isSome_iff_exists.1 h
      simp only [if_true, Option.some.injEq, replaced]
      constructor
      · rintro ⟨e, -, he⟩
        split at he
        · exact (Prod.mk.inj he).2
        · next hne => exact absurd (congrArg Prod.fst he) hne
      · rintro rfl
        exact ⟨_, get?_eq_some.1 hu, by simp⟩
    · simp only [hk, if_false, get?_eq_some, replaced]
      constructor
      · rintro ⟨e, hm, he⟩
        split at he
        · exact absurd (congrArg Prod.fst he).symm hk
        · rw [← he]; exact hm
      · exact fun hm => ⟨_, hm, by simp [hk]⟩
  · rw [entries_insert_of_not_contains h, List.mem_cons, Prod.mk.injEq]
    by_cases hk : k' = k
    · subst hk
      have hno : t.get? k' = none := contains_eq_false.1 (by simpa using h)
      simp [← get?_eq_some, hno, eq_comm]
    · simp [hk, get?_eq_some]

/-- Removing an entry changes what is found under its key only. -/
@[simp] theorem get?_erase (t : Table α) (k k' : Key) :
    (t.erase k).get? k' = if k' = k then none else t.get? k' := by
  ext v
  rw [get?_eq_some]
  by_cases hk : k' = k <;> simp [erase, hk, get?_eq_some]

/-- Removing entries changes what is found under their keys only. -/
theorem get?_foldl_erase : ∀ (ks : List Key) (t : Table α) (k : Key),
    (ks.foldl erase t).get? k = if k ∈ ks then none else t.get? k
  | [], _, _ => by simp
  | k' :: ks, t, k => by
    rw [List.foldl_cons, get?_foldl_erase ks, get?_erase]
    by_cases hk : k = k' <;> by_cases hks : k ∈ ks <;> simp [hk, hks]

/-! ## Order -/

/-- A table is determined by its entries. -/
theorem ext_entries {t u : Table α} (h : t.entries = u.entries) : t = u := by
  obtain ⟨es, _⟩ := t
  obtain ⟨fs, _⟩ := u
  cases h; rfl

/-- A table is determined by its entries in order. -/
theorem ext_toList {t u : Table α} (h : t.toList = u.toList) : t = u :=
  ext_entries (List.reverse_inj.1 h)

/-- A new entry goes to the end. -/
theorem toList_insert {t : Table α} {k : Key} (h : t.get? k = none) (v : α) :
    (t.insert k v).toList = t.toList ++ [(k, v)] := by
  have hc : ¬ t.contains k = true := by simp [contains_eq_isSome, h]
  simp [toList, entries_insert_of_not_contains hc]

/-- A new value comes after the others. -/
theorem values_insert {t : Table α} {k : Key} (h : t.get? k = none) (v : α) :
    (t.insert k v).values = t.values ++ [v] := by
  rw [values, toList_insert h, List.map_append]
  rfl

/-- Of two entries set under one key the second counts. -/
theorem insert_insert (t : Table α) (k : Key) (v w : α) :
    (t.insert k v).insert k w = t.insert k w := by
  have hc : (t.insert k v).contains k = true := by simp [contains_eq_isSome]
  refine ext_entries ?_
  rw [entries_insert_of_contains hc]
  by_cases h : t.contains k = true
  · rw [entries_insert_of_contains h, entries_insert_of_contains h, List.map_map]
    refine List.map_congr_left fun e _ => ?_
    by_cases he : e.1 = k <;> simp [replaced, he]
  · rw [entries_insert_of_not_contains h, entries_insert_of_not_contains h, List.map_cons]
    congr 1
    · simp [replaced]
    · refine (List.map_congr_left fun e he => ?_).trans t.entries.map_id
      have hne : e.1 ≠ k := fun hk =>
        not_mem_of_contains_false h (List.mem_map.2 ⟨e, he, hk⟩)
      simp [replaced, hne]

/-- The keys of a table, in order, are distinct. -/
theorem nodup_toList (t : Table α) : (t.toList.map Prod.fst).Nodup := by
  rw [toList, List.map_reverse]
  exact List.nodup_reverse.2 t.nodup

/-- Entries inserted under keys that are new and distinct stand at the end, in order. -/
theorem foldl_insert_toList : ∀ (es : List (Key × α)) (t : Table α),
    (es.map Prod.fst).Nodup → (∀ e ∈ es, t.get? e.1 = none) →
      (es.foldl (fun t e => t.insert e.1 e.2) t).toList = t.toList ++ es
  | [], _, _, _ => by simp
  | e :: es, t, hn, hnew => by
    obtain ⟨hne, hn⟩ := List.nodup_cons.1 hn
    have hrest : ∀ e' ∈ es, (t.insert e.1 e.2).get? e'.1 = none := fun e' he' => by
      have : e'.1 ≠ e.1 := fun h => hne (h ▸ List.mem_map_of_mem he')
      simp [this, hnew e' (List.mem_cons_of_mem _ he')]
    rw [List.foldl_cons, foldl_insert_toList es _ hn hrest, toList_insert (hnew e (.head _))]
    simp

/-- After entries are inserted under new and distinct keys, each is found under its own. -/
theorem get?_foldl_insert {es : List (Key × α)} {t : Table α} (hn : (es.map Prod.fst).Nodup)
    (hnew : ∀ e ∈ es, t.get? e.1 = none) {k : Key} {v : α} :
    (es.foldl (fun t e => t.insert e.1 e.2) t).get? k = some v ↔
      t.get? k = some v ∨ (k, v) ∈ es := by
  have horder := foldl_insert_toList es t hn hnew
  rw [toList, toList] at horder
  rw [get?_eq_some, get?_eq_some, ← List.mem_reverse, horder, List.mem_append, List.mem_reverse]

/-- Inserting the entries of a table into the empty one gives the table again. -/
theorem foldl_insert_empty (t : Table α) :
    t.toList.foldl (fun u e => u.insert e.1 e.2) empty = t :=
  ext_toList (by rw [foldl_insert_toList _ _ t.nodup_toList fun _ _ => rfl]; rfl)

/-- Removing what is not there changes nothing. -/
theorem erase_of_get?_none {t : Table α} {k : Key} (h : t.get? k = none) : t.erase k = t := by
  refine ext_entries (List.filter_eq_self.2 fun e he => decide_eq_true ?_)
  rintro rfl
  exact absurd (get?_eq_some.2 he) (by simp [h])

/-- Removing entries leaves the others in their order. -/
theorem entries_foldl_erase : ∀ (ks : List Key) (t : Table α),
    (ks.foldl erase t).entries = t.entries.filter fun e => e.1 ∉ ks
  | [], t => by simp
  | k :: ks, t => by
    rw [List.foldl_cons, entries_foldl_erase ks, erase, List.filter_filter]
    refine List.filter_congr fun e _ => ?_
    by_cases hk : e.1 = k <;> simp [hk]

/-! ## Values of a kind -/

section
variable {t : Table α} {p : α → Bool} {k : Key} {v : α}

/-- The entries whose values are of a kind. -/
def keep (t : Table α) (p : α → Bool) : Table α :=
  ⟨t.entries.filter (p ·.2), t.nodup.sublist (List.filter_sublist.map Prod.fst)⟩

/-- What is found among the entries that are kept. -/
theorem get?_keep : (t.keep p).get? k = some v ↔ t.get? k = some v ∧ p v = true := by
  simp [get?_eq_some, keep]

/-- The values that are kept stay in their order. -/
theorem values_keep : (t.keep p).values = t.values.filter p := by
  rw [values, values, toList, toList, keep, ← List.filter_reverse, List.filter_map]
  rfl

/-- A table all of whose values are of a kind is kept as a whole. -/
theorem keep_eq_self (h : ∀ k v, t.get? k = some v → p v = true) : t.keep p = t :=
  ext_entries (List.filter_eq_self.2 fun e he => h e.1 e.2 (get?_eq_some.2 he))

/-- A new entry that is not of the kind does not matter. -/
theorem keep_insert (h : t.get? k = none) (hv : p v = false) :
    (t.insert k v).keep p = t.keep p := by
  have hc : ¬ t.contains k = true := by simp [contains_eq_isSome, h]
  refine ext_entries ?_
  show (t.insert k v).entries.filter (p ·.2) = t.entries.filter (p ·.2)
  rw [entries_insert_of_not_contains hc, List.filter_cons]
  simp [hv]

/-- An entry that is not of the kind may be removed. -/
theorem keep_erase (h : t.get? k = some v) (hv : p v = false) : (t.erase k).keep p = t.keep p := by
  refine ext_entries ?_
  show (t.entries.filter (·.1 ≠ k)).filter (p ·.2) = t.entries.filter (p ·.2)
  rw [List.filter_filter]
  refine List.filter_congr fun e he => ?_
  by_cases hk : e.1 = k
  · obtain rfl : e.2 = v := Option.some.inj ((get?_eq_some.2 he).symm.trans (hk ▸ h))
    simp [hv]
  · simp [hk]

end

/-! ## Values that name their keys -/

section
variable {β : Type} {key : α → Key}

/-- Values that name the keys under which they stand give the entries. -/
theorem toList_eq_map_values {t : Table α} (h : ∀ k v, t.get? k = some v → key v = k) :
    t.toList = t.values.map fun v => (key v, v) := by
  rw [values, List.map_map]
  refine (List.map_id _).symm.trans (List.map_congr_left fun e he => ?_)
  have hkey : key e.2 = e.1 := h _ _ (get?_eq_some.2 (List.mem_reverse.1 he))
  simp [hkey]

/-- Values that name the keys under which they stand name distinct keys. -/
theorem nodup_values {t : Table α} (h : ∀ k v, t.get? k = some v → key v = k) :
    (t.values.map key).Nodup := by
  have hn := t.nodup_toList
  rwa [toList_eq_map_values h, List.map_map] at hn

/-- Inserting the values of a table into the empty one, each under the key that it names, gives the
table again. -/
theorem foldl_insert_values {t : Table α} (h : ∀ k v, t.get? k = some v → key v = k) :
    t.values.foldl (fun u v => u.insert (key v) v) empty = t := by
  conv_rhs => rw [← t.foldl_insert_empty, toList_eq_map_values h, List.foldl_map]

/-- Removing the values of a kind, each under the key that it names, leaves the others. -/
theorem foldl_erase_values {t : Table α} (h : ∀ k v, t.get? k = some v → key v = k) (p : α → Bool) :
    ((t.values.filter p).map key).foldl erase t = t.keep fun v => !p v := by
  refine ext_entries ?_
  rw [entries_foldl_erase]
  refine List.filter_congr fun e he => ?_
  have hfound : t.get? e.1 = some e.2 := get?_eq_some.2 he
  have hmem : e.1 ∈ (t.values.filter p).map key ↔ p e.2 = true := by
    rw [List.mem_map]
    constructor
    · rintro ⟨v, hv, hkey⟩
      obtain ⟨hv, hp⟩ := List.mem_filter.1 hv
      obtain ⟨k, hk⟩ := mem_values.1 hv
      rw [← hkey, h k v hk, hk] at hfound
      rwa [← Option.some.inj hfound]
    · intro hp
      exact ⟨e.2, List.mem_filter.2 ⟨mem_values.2 ⟨_, hfound⟩, hp⟩, h _ _ hfound⟩
  by_cases hp : p e.2 = true <;> simp [hmem, hp]

/-- A table into which values were inserted under distinct keys lists them in that order. -/
theorem values_foldl_insert {vs : List α} (hn : (vs.map key).Nodup) (f : α → β) :
    (vs.foldl (fun u v => u.insert (key v) (f v)) empty).values = vs.map f := by
  have horder := foldl_insert_toList (vs.map fun v => (key v, f v)) empty
    (by simpa [Function.comp_def] using hn) fun _ _ => rfl
  rw [List.foldl_map] at horder
  rw [values, horder]
  simp [toList, empty, Function.comp_def]

end

end EquationStudio.Table
