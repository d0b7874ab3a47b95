import EquationStudio.Proofs.Schedule.Routine
import EquationStudio.Schedule.TimerPool

/-!
# Timer pools as schedulers

A pool numbers its timers, so it is a scheduler that a routine can rely on (`TimerPool.sight`), and
a timer of a routine that fires is a move of the routine that can be made (`TimerPool.sight_fire`).

What becomes of timers is accounted for: of all timers ever started each one runs, has made its
call, or was cancelled, and only one of these (`TimerPool.Account.run_accounted`). So no timer makes
its call twice, and none that was cancelled makes it at all.
-/

namespace EquationStudio

/-- The member that is found under a key, taken off a list in which keys differ. -/
theorem perm_of_find? {α κ : Type} [DecidableEq κ] (key : α → κ) {as : List α} {k : κ} {a : α}
    (h : as.find? (key · = k) = some a) (hkeys : (as.map key).Nodup) :
    key a = k ∧ as.Perm (a :: as.filter (key · ≠ k)) := by
  obtain ⟨hfound, front, back, rfl, -⟩ := List.find?_eq_some_iff_append.1 h
  have hkey : key a = k := of_decide_eq_true hfound
  have hsplit : (front ++ a :: back).Perm (a :: (front ++ back)) := List.perm_middle
  refine ⟨hkey, hsplit.trans (.cons a ?_)⟩
  rw [← hkey]
  exact (filter_ne_perm key hsplit hkeys).symm

namespace TimerPool

/-- What a pool keeps: its timers differ, and are among those that were started. -/
structure Sound {α : Type} (p : TimerPool α) : Prop where
  nodup : (p.running.map Prod.fst).Nodup
  started : ∀ q ∈ p.running, q.1 < p.started

section
variable {α : Type} {p : TimerPool α}

theorem Sound.fresh (h : Sound p) : p.started ∉ p.running.map Prod.fst := by
  intro hmem
  obtain ⟨q, hq, he⟩ := List.mem_map.1 hmem
  exact Nat.lt_irrefl _ (he ▸ h.started q hq)

theorem Sound.start (h : Sound p) (call : α) : Sound (p.start call).2 where
  nodup := List.nodup_cons.2 ⟨h.fresh, h.nodup⟩
  started q hq := by
    rcases List.mem_cons.1 hq with rfl | hq
    · exact Nat.lt_succ_self _
    · exact Nat.lt_succ_of_lt (h.started q hq)

theorem Sound.cancel (h : Sound p) (timer : Nat) : Sound (p.cancel timer) where
  nodup := h.nodup.sublist (List.filter_sublist.map _)
  started q hq := h.started q (List.mem_filter.1 hq).1

/-- A timer that fires ran and makes its call; the others run on. -/
theorem Sound.fire (h : Sound p) {timer : Nat} {call : α} (hfire : (p.fire timer).1 = some call) :
    p.running.Perm ((timer, call) :: (p.fire timer).2.running) ∧
      (p.fire timer).2 = { p.cancel timer with fired := p.fired + 1 } := by
  unfold TimerPool.fire at hfire ⊢
  cases hfound : p.running.find? (·.1 = timer) with
  | none => rw [hfound] at hfire; cases hfire
  | some q =>
    rw [hfound] at hfire
    obtain ⟨timer', call'⟩ := q
    cases hfire
    obtain ⟨rfl, hperm⟩ := perm_of_find? Prod.fst hfound h.nodup
    exact ⟨hperm, rfl⟩

end

/-- What can be relied on of a pool as a scheduler. -/
def sight : Scheduler.Sight (TimerPool Callback) Nat where
  waiting := running
  Sound := Sound
  schedule := by
    rintro p delay c _ _ _ hs ⟨⟩
    exact ⟨rfl, hs.fresh, hs.start c, .refl _⟩
  cancel hs hperm := ⟨hs.cancel _, filter_ne_perm Prod.fst hperm hs.nodup⟩

/-- A timer that fires takes the call of a routine off the pool. -/
theorem sight_fire {b : PlacedRoutine (TimerPool Callback) Nat}
    (hs : Sound b.scheduler) {timer : Nat} {c : Callback}
    (hfire : (b.scheduler.fire timer).1 = some c) (hown : c.routine = b.routine.serial)
    (action : Routine.Action) :
    b.Allows sight (.call (timer, c) (b.scheduler.fire timer).2 action) := by
  obtain ⟨hperm, hrest⟩ := hs.fire hfire
  refine ⟨hown, ?_, hperm⟩
  rw [hrest]
  exact ⟨(hs.cancel timer).nodup, (hs.cancel timer).started⟩

/-! ## Accounts -/

/-- What can be done with a pool. -/
inductive Use (α : Type) where
  | start (call : α)
  | cancel (timer : Nat)
  | cancelAll
  | fire (timer : Nat)

/-- A pool, with an account of the timers that made their calls and of those that were cancelled. -/
structure Account (α : Type) where
  pool : TimerPool α := {}
  made : List Nat := []
  dropped : List Nat := []

namespace Account

variable {α : Type}

/-- Uses the pool. -/
def use (a : Account α) : Use α → Account α
  | .start call => { a with pool := (a.pool.start call).2 }
  | .cancel timer =>
    { a with
      pool := a.pool.cancel timer
      dropped := (a.pool.running.filter (·.1 = timer)).map Prod.fst ++ a.dropped }
  | .cancelAll =>
    { a with pool := a.pool.cancelAll, dropped := a.pool.running.map Prod.fst ++ a.dropped }
  | .fire timer =>
    match a.pool.fire timer with
    | (some _, pool) => { a with pool, made := timer :: a.made }
    | (none, pool) => { a with pool }

/-- The timers of an account: those that run, those that made their calls, and those that were
cancelled. -/
def timers (a : Account α) : List Nat := a.pool.running.map Prod.fst ++ (a.made ++ a.dropped)

/-- The account holds each timer that was started once. -/
structure Accounted (a : Account α) : Prop where
  timers : a.timers.Perm (List.range a.pool.started)
  fired : a.pool.fired = a.made.length

variable {a : Account α}

/-- The timers of a pool that is accounted for are in order. -/
theorem Accounted.sound (h : Accounted a) : Sound a.pool := by
  have hrunning : (a.pool.running.map Prod.fst).Sublist a.timers := List.sublist_append_left _ _
  refine ⟨(h.timers.nodup_iff.2 List.nodup_range).sublist hrunning, fun q hq => ?_⟩
  exact List.mem_range.1 (h.timers.mem_iff.1 (hrunning.subset (List.mem_map_of_mem hq)))

theorem Accounted.start (h : Accounted a) (call : α) : Accounted (a.use (.start call)) where
  timers := by
    show (a.pool.started :: a.timers).Perm (List.range (a.pool.started + 1))
    rw [List.range_succ]
    exact (h.timers.cons _).trans (List.perm_append_singleton _ _).symm
  fired := h.fired

/-- Timers that are dropped are still accounted for. -/
theorem perm_dropped {dropped kept running : List (Nat × α)} (h : (dropped ++ kept).Perm running)
    (made others : List Nat) :
    (kept.map Prod.fst ++ (made ++ (dropped.map Prod.fst ++ others))).Perm
      (running.map Prod.fst ++ (made ++ others)) := by
  have hmoved : (made ++ (dropped.map Prod.fst ++ others)).Perm
      (dropped.map Prod.fst ++ (made ++ others)) := by
    rw [← List.append_assoc, ← List.append_assoc]
    exact List.perm_append_comm.append_right _
  have hrunning := h.map Prod.fst
  rw [List.map_append] at hrunning
  refine (hmoved.append_left _).trans ?_
  rw [← List.append_assoc]
  exact (List.perm_append_comm.trans hrunning).append_right _

theorem Accounted.cancel (h : Accounted a) (timer : Nat) : Accounted (a.use (.cancel timer)) where
  timers := by
    have hsplit := List.filter_append_perm (·.1 = timer) a.pool.running
    simp only [← decide_not] at hsplit
    exact (perm_dropped hsplit a.made a.dropped).trans h.timers
  fired := h.fired

theorem Accounted.cancelAll (h : Accounted a) : Accounted (a.use .cancelAll) where
  timers := by
    have hall : (a.pool.running ++ []).Perm a.pool.running := .of_eq (List.append_nil _)
    exact (perm_dropped hall a.made a.dropped).trans h.timers
  fired := h.fired

theorem Accounted.fire (h : Accounted a) (timer : Nat) : Accounted (a.use (.fire timer)) := by
  rcases hfire : a.pool.fire timer with ⟨_ | call, pool⟩
  · have hpool : pool = a.pool := by
      unfold TimerPool.fire at hfire
      split at hfire <;> cases hfire
      rfl
    simp only [use, hfire, hpool]
    exact h
  · obtain ⟨hperm, hrest⟩ := h.sound.fire (congrArg Prod.fst hfire)
    rw [hfire] at hperm hrest
    obtain rfl : pool = { a.pool.cancel timer with fired := a.pool.fired + 1 } := hrest
    simp only [use, hfire]
    have hrunning := hperm.map Prod.fst
    exact ⟨List.perm_middle.trans ((hrunning.symm.append_right _).trans h.timers),
      congrArg (· + 1) h.fired⟩

/-- Whatever is done with a pool, each timer that was started in it runs, has made its call once, or
was cancelled and never makes it. -/
theorem run_accounted (uses : List (Use α)) :
    let a := uses.foldl use {}
    (a.pool.running.map Prod.fst ++ (a.made ++ a.dropped)).Perm (List.range a.pool.started) ∧
      a.pool.fired = a.made.length ∧
      a.pool.pending + a.pool.fired + a.dropped.length = a.pool.started := by
  have hrun : ∀ {a : Account α}, Accounted a → Accounted (uses.foldl use a) := by
    induction uses with
    | nil => exact id
    | cons u uses ih =>
      intro a h
      refine ih ?_
      cases u with
      | start call => exact h.start call
      | cancel timer => exact h.cancel timer
      | cancelAll => exact h.cancelAll
      | fire timer => exact h.fire timer
  intro a
  have h : Accounted a := hrun ⟨.refl _, rfl⟩
  refine ⟨h.timers, h.fired, ?_⟩
  have hcount := h.timers.length_eq
  rw [timers, List.length_append, List.length_append, List.length_map, List.length_range,
    ← h.fired] at hcount
  rw [pending, ← hcount, Nat.add_assoc]

end Account

end TimerPool

end EquationStudio
