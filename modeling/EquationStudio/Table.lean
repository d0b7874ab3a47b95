import EquationStudio.Datum.Key

/-!
# Tables that remember the order of insertion

A table holds at most one entry for each key. A new entry goes to the end, a replaced one stays in
its place, and an erased one leaves no gap. The newest entry is stored first, since it is the one
looked for most often; `Table.toList` shows the entries in order of insertion.
-/

namespace EquationStudio

/-- Entries under distinct keys, the newest first. -/
structure Table (α : Type) where
  entries : List (Key × α)
  nodup : (entries.map Prod.fst).Nodup

namespace Table

variable {α : Type}

/-- The table without entries. -/
def empty : Table α := ⟨[], .nil⟩

instance : Inhabited (Table α) := ⟨empty⟩

/-- The entry under a key. -/
def get? (t : Table α) (k : Key) : Option α := (t.entries.find? (·.1 = k)).map Prod.snd

/-- Whether there is an entry under a key. -/
def contains (t : Table α) (k : Key) : Bool := t.entries.any (·.1 = k)

/-- The entry in the place of one under the same key, if the key is `k`. -/
def replaced (k : Key) (v : α) (e : Key × α) : Key × α := if e.1 = k then (k, v) else e

theorem map_fst_replaced (k : Key) (v : α) (es : List (Key × α)) :
    (es.map (replaced k v)).map Prod.fst = es.map Prod.fst := by
  induction es with
  | nil => rfl
  | cons e es ih =>
    simp only [List.map_cons, ih, List.cons.injEq, and_true, replaced]
    split <;> simp_all

theorem not_mem_of_contains_false {t : Table α} {k : Key} (h : ¬ t.contains k = true) :
    k ∉ t.entries.map Prod.fst := by
  intro hk
  obtain ⟨e, he, rfl⟩ := List.mem_map.1 hk
  exact h (List.any_eq_true.2 ⟨e, he, by simp⟩)

/-- Sets the entry under a key. -/
def insert (t : Table α) (k : Key) (v : α) : Table α :=
  if h : t.contains k then
    ⟨t.entries.map (replaced k v), by rw [map_fst_replaced]; exact t.nodup⟩
  else ⟨(k, v) :: t.entries, List.nodup_cons.2 ⟨not_mem_of_contains_false h, t.nodup⟩⟩

/-- Removes the entry under a key, if there is one. -/
def erase (t : Table α) (k : Key) : Table α :=
  ⟨t.entries.filter (·.1 ≠ k), t.nodup.sublist (List.filter_sublist.map Prod.fst)⟩

/-- The entries in order of insertion. -/
def toList (t : Table α) : List (Key × α) := t.entries.reverse

/-- The values in order of insertion. -/
def values (t : Table α) : List α := t.toList.map Prod.snd

/-- How many entries there are. -/
def size (t : Table α) : Nat := t.entries.length

/-- Whether there is no entry. -/
def isEmpty (t : Table α) : Bool := t.entries.isEmpty

end Table

end EquationStudio
