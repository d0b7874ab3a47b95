import EquationStudio.Proofs.Basic
import EquationStudio.Service.Session

/-!
# The open sessions

The open sessions stand in the order in which they were opened, and a further one pushes out the
first when there are as many as may be open. `Sessions.Holds` follows one session through what
happens to the others: sessions that are asked or closed leave it where it is
(`Sessions.Holds.update_of_ne`, `Sessions.Holds.erase_of_ne`), and a further one pushes it out only
once as many as may be open have been opened after it (`Sessions.Holds.insert`).
-/

namespace EquationStudio.Sessions

variable {ss ss' : Sessions} {id : String} {tutor : Tutor} {newer : Nat} {s : Session}
  {journal : Journal}

/-! ## How many are open -/

/-- No more sessions are open than may be, and one may. -/
structure Bounded (ss : Sessions) : Prop where
  positive : 1 ≤ ss.capacity
  size_le : ss.size ≤ ss.capacity

/-- There is a place for every further session. -/
theorem Bounded.insert_isSome (h : ss.Bounded) (s : Session) : (ss.insert s).isSome = true := by
  have hpos := h.positive
  unfold insert
  split
  · rfl
  · next hfull =>
    split
    · next hnil => exact absurd (by rw [size, hnil]; exact hpos) hfull
    · rfl

/-- A further session stands last, behind all others or behind all but the oldest. -/
theorem insert_cases (h : ss.insert s = some (journal, ss')) : ss'.capacity = ss.capacity ∧
    ((ss.size < ss.capacity ∧ ss'.opened = ss.opened ++ [s]) ∨
      ∃ oldest rest, ss.capacity ≤ ss.size ∧ ss.opened = oldest :: rest ∧
      ss'.opened = rest ++ [s]) := by
  unfold insert at h
  split at h
  · next hroom =>
    cases h
    exact ⟨rfl, .inl ⟨hroom, rfl⟩⟩
  · next hfull =>
    split at h
    · cases h
    · next oldest rest hopened =>
      cases h
      exact ⟨rfl, .inr ⟨oldest, rest, Nat.le_of_not_lt hfull, hopened, rfl⟩⟩

namespace Bounded

/-- A further session keeps the bound. -/
theorem insert (h : ss.Bounded) (hinsert : ss.insert s = some (journal, ss')) : ss'.Bounded := by
  have hle := h.size_le
  obtain ⟨hcapacity, ⟨hroom, hopened⟩ | ⟨oldest, rest, -, hold, hopened⟩⟩ := insert_cases hinsert
  · refine ⟨hcapacity ▸ h.positive, ?_⟩
    rw [hcapacity, size, hopened, List.length_append]
    exact hroom
  · refine ⟨hcapacity ▸ h.positive, ?_⟩
    rw [size, hold] at hle
    rw [hcapacity, size, hopened, List.length_append]
    exact hle

/-- So does a session whose state changes. -/
theorem update (h : ss.Bounded) (s : Session) : (ss.update s).Bounded :=
  ⟨h.positive, by simpa [size, Sessions.update] using h.size_le⟩

/-- So does one that is closed. -/
theorem erase (h : ss.Bounded) (id : String) : (ss.erase id).Bounded :=
  ⟨h.positive, Nat.le_trans (List.length_filter_le _ _) h.size_le⟩

end Bounded

/-! ## Which are open -/

/-- A session is not open exactly if no open one has its identifier. -/
theorem find?_eq_none : ss.find? id = none ↔ ∀ s ∈ ss.opened, s.id ≠ id := by
  simp [find?]

/-- A session that is found has the identifier. -/
theorem id_of_find? (h : ss.find? id = some s) : s.id = id := by
  simpa using List.find?_some h

/-- A session whose state changes keeps its identifier. -/
theorem map_id_update (s : Session) :
    (ss.update s).opened.map Session.id = ss.opened.map Session.id := by
  rw [update, List.map_map]
  refine List.map_congr_left fun t _ => ?_
  show (if t.id == s.id then s else t).id = t.id
  split
  · next h => exact (eq_of_beq h).symm
  · rfl

/-- Sessions whose state changes are no others. -/
theorem find?_update_eq_none (h : ss.find? id = none) (s : Session) :
    (ss.update s).find? id = none := by
  rw [find?_eq_none] at h ⊢
  intro t ht
  have hmem : t.id ∈ ss.opened.map Session.id :=
    map_id_update s ▸ List.mem_map_of_mem ht
  obtain ⟨t', ht', heq⟩ := List.mem_map.1 hmem
  exact heq ▸ h t' ht'

/-- A closed session is not open. -/
theorem find?_erase_self (ss : Sessions) (id : String) : (ss.erase id).find? id = none := by
  rw [find?_eq_none]
  intro s hs
  simpa using (List.mem_filter.1 hs).2

/-- Closing sessions opens none. -/
theorem find?_erase_eq_none (h : ss.find? id = none) (other : String) :
    (ss.erase other).find? id = none := by
  rw [find?_eq_none] at h ⊢
  exact fun s hs => h s (List.mem_filter.1 hs).1

/-- A further session opens none but itself. -/
theorem find?_insert_eq_none (h : ss.find? id = none) (hne : s.id ≠ id)
    (hinsert : ss.insert s = some (journal, ss')) : ss'.find? id = none := by
  rw [find?_eq_none] at h ⊢
  obtain ⟨-, ⟨-, hopened⟩ | ⟨oldest, rest, -, hold, hopened⟩⟩ := insert_cases hinsert
  · intro t ht
    rcases List.mem_append.1 (hopened ▸ ht) with ht | ht
    · exact h t ht
    · exact List.mem_singleton.1 ht ▸ hne
  · intro t ht
    rcases List.mem_append.1 (hopened ▸ ht) with ht | ht
    · exact h t (hold ▸ List.mem_cons_of_mem _ ht)
    · exact List.mem_singleton.1 ht ▸ hne

/-! ## Following a session -/

/-- A session is open, with a tutor, and no more than so many of the open ones are newer. -/
inductive Holds (ss : Sessions) (id : String) (tutor : Tutor) (newer : Nat) : Prop
  | at (older later : List Session) (opened : ss.opened = older ++ ⟨id, tutor⟩ :: later)
      (others : ∀ s ∈ older ++ later, s.id ≠ id) (few : later.length ≤ newer)

namespace Holds

/-- It is found. -/
theorem find? (h : ss.Holds id tutor newer) : ss.find? id = some ⟨id, tutor⟩ := by
  obtain ⟨older, later, hopened, hothers, -⟩ := h
  have holder : older.find? (·.id == id) = none :=
    List.find?_eq_none.2 fun s hs => by simpa using hothers s (List.mem_append_left _ hs)
  rw [Sessions.find?, hopened, List.find?_append, holder]
  simp

/-- It is open for longer as more are newer. -/
theorem mono (h : ss.Holds id tutor newer) {more : Nat} (hle : newer ≤ more) :
    ss.Holds id tutor more := by
  obtain ⟨older, later, hopened, hothers, hfew⟩ := h
  exact ⟨older, later, hopened, hothers, Nat.le_trans hfew hle⟩

/-- Its own state changes. -/
theorem update_self (h : ss.Holds id tutor newer) (t : Tutor) :
    (ss.update ⟨id, t⟩).Holds id t newer := by
  obtain ⟨older, later, hopened, hothers, hfew⟩ := h
  have hkeep : ∀ l : List Session, (∀ s ∈ l, s.id ≠ id) →
      l.map (fun s => if s.id == id then ⟨id, t⟩ else s) = l := by
    intro l hl
    refine (List.map_congr_left fun s hs => ?_).trans (List.map_id l)
    simp [hl s hs]
  refine ⟨older, later, ?_, hothers, hfew⟩
  rw [update, hopened, List.map_append, List.map_cons, hkeep older, hkeep later]
  · simp
  · exact fun s hs => hothers s (List.mem_append_right _ hs)
  · exact fun s hs => hothers s (List.mem_append_left _ hs)

/-- The state of another session changes. -/
theorem update_of_ne (h : ss.Holds id tutor newer) (hne : s.id ≠ id) :
    (ss.update s).Holds id tutor newer := by
  obtain ⟨older, later, hopened, hothers, hfew⟩ := h
  let change : Session → Session := fun t => if t.id == s.id then s else t
  refine ⟨older.map change, later.map change, ?_, ?_, by rwa [List.length_map]⟩
  · rw [update, hopened, List.map_append, List.map_cons]
    simp [change, hne.symm]
  · rw [← List.map_append]
    intro t ht
    obtain ⟨u, hu, rfl⟩ := List.mem_map.1 ht
    simp only [change]
    split
    · exact hne
    · exact hothers u hu

/-- Another session is closed. -/
theorem erase_of_ne (h : ss.Holds id tutor newer) {other : String} (hne : other ≠ id) :
    (ss.erase other).Holds id tutor newer := by
  obtain ⟨older, later, hopened, hothers, hfew⟩ := h
  refine ⟨older.filter (·.id != other), later.filter (·.id != other), ?_, ?_,
    Nat.le_trans (List.length_filter_le _ _) hfew⟩
  · rw [erase, hopened, List.filter_append, List.filter_cons_of_pos (by simpa using hne.symm)]
  · rw [← List.filter_append]
    exact fun s hs => hothers s (List.mem_filter.1 hs).1

/-- A further session pushes it out only when, with that one, as many as may be open are newer. -/
theorem insert (h : ss.Holds id tutor newer) (hne : s.id ≠ id)
    (hinsert : ss.insert s = some (journal, ss')) :
    ss'.Holds id tutor (newer + 1) ∨ ss'.find? id = none ∧ ss.capacity ≤ newer + 1 := by
  obtain ⟨older, later, hopened, hothers, hfew⟩ := h
  obtain ⟨-, ⟨-, hopened'⟩ | ⟨oldest, rest, hfull, hold, hopened'⟩⟩ := insert_cases hinsert
  · refine .inl ⟨older, later ++ [s], by simp [hopened', hopened], ?_, by simpa using hfew⟩
    intro t ht
    rw [← List.append_assoc, List.mem_append, List.mem_singleton] at ht
    rcases ht with ht | rfl
    · exact hothers t ht
    · exact hne
  · cases older with
    | nil =>
      cases hopened.symm.trans hold
      refine .inr ⟨find?_eq_none.2 fun t ht => ?_, ?_⟩
      · rcases List.mem_append.1 (hopened' ▸ ht) with ht | ht
        · exact hothers t ht
        · exact List.mem_singleton.1 ht ▸ hne
      · rw [size, hopened] at hfull
        exact Nat.le_trans hfull (Nat.succ_le_succ hfew)
    | cons first older =>
      cases hopened.symm.trans hold
      refine .inl ⟨older, later ++ [s], by simp [hopened'], ?_, by simpa using hfew⟩
      intro t ht
      rw [← List.append_assoc, List.mem_append, List.mem_singleton] at ht
      rcases ht with ht | rfl
      · exact hothers t (List.mem_cons_of_mem _ ht)
      · exact hne

end Holds

/-- A session just opened. -/
theorem holds_insert (habsent : ss.find? id = none)
    (hinsert : ss.insert ⟨id, tutor⟩ = some (journal, ss')) : ss'.Holds id tutor 0 := by
  rw [find?_eq_none] at habsent
  obtain ⟨-, ⟨-, hopened⟩ | ⟨oldest, rest, -, hold, hopened⟩⟩ := insert_cases hinsert
  · exact ⟨ss.opened, [], hopened, by simpa using habsent, Nat.le_refl _⟩
  · refine ⟨rest, [], hopened, ?_, Nat.le_refl _⟩
    rw [List.append_nil]
    exact fun s hs => habsent s (hold ▸ List.mem_cons_of_mem _ hs)

end EquationStudio.Sessions
