import EquationStudio.Schedule.Routine
import Mathlib.Data.List.Induction
import Mathlib.Data.List.Perm.Lattice

/-!
# Routines on any scheduler

A routine sees of its scheduler only the handles that it is given. `Scheduler.Sight` is what can be
relied on of a scheduler that hands out distinct handles and asks nobody to stop while it takes a
call; the studio's own agenda is one (`Agenda.sight`). The action of a routine may ask it to stop
and to start again before it is done, and fail in the end, and a call that a stop has cancelled may
still be made late.

One invariant carries everything (`PlacedRoutine.Kept`): of the routine's calls exactly the one it
remembers waits, in its present generation, and those that were cancelled are of earlier ones. Every
move keeps it (`PlacedRoutine.Kept.move`), and `PlacedRoutine.run_armed` says what it means for
whole runs.
-/

namespace EquationStudio

/-- A new routine is at rest. -/
theorem Routine.create_ok {ι : Type} {serial : Nat} {interval : Datum} {r : Routine ι}
    (h : Routine.create serial interval = .ok r) : r = { serial, interval } := by
  unfold Routine.create at h
  dsimp only at h
  split at h
  · split at h <;> cases h; rfl
  · split at h <;> cases h; rfl
  · cases h
  · cases h; rfl
  · cases h

/-- What can be seen of a scheduler and relied on: the calls that wait, each under its handle. -/
structure Scheduler.Sight (σ ι : Type) [Scheduler σ ι Callback] where
  /-- The calls that wait, under their handles. -/
  waiting : σ → List (ι × Callback)
  /-- The states that the scheduler may be in. -/
  Sound : σ → Prop
  /-- A call that is taken waits under a handle that no other call has, and nobody is asked to stop
  meanwhile. -/
  schedule : ∀ {s : σ} (delay : Datum) (c : Callback) {handle : ι} {interrupted : Bool} {s' : σ},
    Sound s →
    Scheduler.schedule s delay c = (handle, interrupted, s') →
      interrupted = false ∧ handle ∉ (waiting s).map Prod.fst ∧ Sound s' ∧
        (waiting s').Perm ((handle, c) :: waiting s)
  /-- A call that is cancelled waits no longer, and the others do. -/
  cancel : ∀ {s : σ} {p : ι × Callback} {ps : List (ι × Callback)}, Sound s →
    (waiting s).Perm (p :: ps) →
    Sound (Scheduler.cancel s p.1) ∧ (waiting (Scheduler.cancel s p.1)).Perm ps

/-- The calls of one routine among those that wait. -/
def Scheduler.Sight.callsOf {σ ι : Type} [Scheduler σ ι Callback] (v : Scheduler.Sight σ ι) (s : σ)
    (serial : Nat) : List (ι × Callback) :=
  (v.waiting s).filter (·.2.routine = serial)

namespace Routine

variable {σ ι : Type} [Scheduler σ ι Callback]

/-- What a routine is made with and keeps: its number and its interval. -/
def name (r : Routine ι) : Nat × Datum := (r.serial, r.interval)

/-- Scheduling a call keeps number and interval. -/
theorem name_arm (r : Routine ι) (s : σ) (generation : Nat) :
    (r.arm s generation).1.name = r.name := by
  unfold arm
  dsimp only
  split <;> rfl

/-- So does starting. -/
theorem name_start (r : Routine ι) (s : σ) : (r.start s).1.name = r.name := by
  unfold start
  split
  · rfl
  · exact r.name_arm s _

/-- So does a call. -/
theorem name_fire (r : Routine ι) (s : σ) (generation : Nat) :
    (r.fire s generation).2.1.name = r.name := by
  unfold fire
  split
  · rfl
  · dsimp only
    split <;> exact r.name_arm s generation

/-- What an action may ask of the routine that called it. -/
inductive Request where
  | start
  | stop
  deriving DecidableEq

/-- What an action does: what it asks of the routine, one thing after another, and whether it fails
in the end. -/
structure Action where
  requests : List Request := []
  fails : Bool := false

end Routine

/-- A routine on a scheduler. -/
structure PlacedRoutine (σ ι : Type) where
  routine : Routine ι
  scheduler : σ
  /-- The calls to the routine that its stops have cancelled. -/
  cancelled : List Callback := []

/-- What can happen to a routine on a scheduler. -/
inductive PlacedRoutine.Move (σ ι : Type) where
  | start
  | stop
  /-- The scheduler takes a call off and makes it. -/
  | call (p : ι × Callback) (rest : σ) (action : Routine.Action)
  /-- A call that has been cancelled is made all the same. -/
  | late (c : Callback) (action : Routine.Action)
  /-- Others use the scheduler. -/
  | others (scheduler : σ)

namespace PlacedRoutine

variable {σ ι : Type} [Scheduler σ ι Callback]

/-- Starts the routine. -/
def start (b : PlacedRoutine σ ι) : PlacedRoutine σ ι :=
  let (routine, scheduler) := b.routine.start b.scheduler
  { b with routine, scheduler }

/-- Stops the routine. Its calls that waited are cancelled. -/
def stop (v : Scheduler.Sight σ ι) (b : PlacedRoutine σ ι) : PlacedRoutine σ ι :=
  let (routine, scheduler) := b.routine.stop b.scheduler
  { routine, scheduler
    cancelled := (v.callsOf b.scheduler b.routine.serial).map Prod.snd ++ b.cancelled }

/-- Does what the action asks for. -/
def ask (v : Scheduler.Sight σ ι) (b : PlacedRoutine σ ι) : Routine.Request → PlacedRoutine σ ι
  | .start => b.start
  | .stop => b.stop v

/-- What a call comes to: the intervals with which the action was called, and whether it failed. -/
structure Outcome where
  acted : List Datum := []
  failed : Bool := false

/-- A call to the routine. If the routine acts on it, the action is called with the interval. -/
def called (v : Scheduler.Sight σ ι) (b : PlacedRoutine σ ι) (c : Callback)
    (action : Routine.Action) : Outcome × PlacedRoutine σ ι :=
  let (acts, routine, scheduler) := b.routine.fire b.scheduler c.generation
  let b := { b with routine, scheduler }
  if acts then (⟨[routine.interval], action.fails⟩, action.requests.foldl (ask v) b) else ({}, b)

/-- What a move comes to. -/
def move (v : Scheduler.Sight σ ι) (b : PlacedRoutine σ ι) : Move σ ι → Outcome × PlacedRoutine σ ι
  | .start => ({}, b.start)
  | .stop => ({}, b.stop v)
  | .call p rest action => called v { b with scheduler := rest } p.2 action
  | .late c action => called v b c action
  | .others scheduler => ({}, { b with scheduler })

/-- The moves that can be made: a call that is made waits and is taken off, one that comes late has
been cancelled, and others do not touch the routine's calls. -/
def Allows (v : Scheduler.Sight σ ι) (b : PlacedRoutine σ ι) : Move σ ι → Prop
  | .start | .stop => True
  | .call p rest _ => p.2.routine = b.routine.serial ∧ v.Sound rest ∧
      (v.waiting b.scheduler).Perm (p :: v.waiting rest)
  | .late c _ => c ∈ b.cancelled
  | .others scheduler => v.Sound scheduler ∧
      (v.callsOf scheduler b.routine.serial).Perm (v.callsOf b.scheduler b.routine.serial)

/-- What a routine has come to, by moves that can be made. -/
inductive Leads (v : Scheduler.Sight σ ι) (b : PlacedRoutine σ ι) : PlacedRoutine σ ι → Prop
  | refl : Leads v b b
  | step {b' : PlacedRoutine σ ι} {m : Move σ ι} (before : Leads v b b') (allowed : b'.Allows v m) :
      Leads v b (b'.move v m).2

/-! ## The invariant -/

/-- The call that the routine waits for. -/
def awaited (b : PlacedRoutine σ ι) : List (ι × Callback) :=
  (b.routine.handle.map fun handle => (handle, ⟨b.routine.serial, b.routine.generation⟩)).toList

/-- Of the routine's calls the one that it remembers waits, and the cancelled ones are of earlier
generations. -/
structure Kept (v : Scheduler.Sight σ ι) (b : PlacedRoutine σ ι) : Prop where
  sound : v.Sound b.scheduler
  calls : v.callsOf b.scheduler b.routine.serial = b.awaited
  earlier : ∀ c ∈ b.cancelled, c.generation < b.routine.generation

section
variable {v : Scheduler.Sight σ ι} {b : PlacedRoutine σ ι}

/-- A routine of which no call waits schedules one and remembers it. -/
theorem Kept.arm {r : Routine ι} {s : σ} {cancelled : List Callback} (hs : v.Sound s)
    (hnone : v.callsOf s r.serial = []) (hearlier : ∀ c ∈ cancelled, c.generation < r.generation) :
    ∃ handle s', r.arm s r.generation = ({ r with handle := some handle }, s') ∧
      Kept v ⟨{ r with handle := some handle }, s', cancelled⟩ := by
  rcases htaken : Scheduler.schedule s r.interval (Callback.mk r.serial r.generation) with
    ⟨handle, interrupted, s'⟩
  obtain ⟨rfl, -, hs', hperm⟩ := v.schedule _ _ hs htaken
  refine ⟨handle, s', by simp only [Routine.arm, htaken, Bool.false_eq_true, if_false],
    hs', ?_, hearlier⟩
  have hcalls := hperm.filter (·.2.routine = r.serial)
  rw [List.filter_cons, if_pos (by simp)] at hcalls
  rw [Scheduler.Sight.callsOf] at hnone
  rw [hnone] at hcalls
  exact List.perm_singleton.1 hcalls

/-- The calls of a routine at rest. -/
theorem Kept.calls_of_not_active (h : Kept v b) (hrest : ¬ b.routine.isActive = true) :
    b.routine.handle = none ∧ v.callsOf b.scheduler b.routine.serial = [] := by
  have hnone : b.routine.handle = none := by simpa [Routine.isActive] using hrest
  exact ⟨hnone, by rw [h.calls, awaited, hnone]; rfl⟩

/-- A routine that is started is active. -/
theorem Kept.start (h : Kept v b) : Kept v b.start ∧ b.start.routine.isActive = true := by
  by_cases hactive : b.routine.isActive = true
  · have hstart : b.start = b := by simp only [PlacedRoutine.start, Routine.start, if_pos hactive]
    rw [hstart]
    exact ⟨h, hactive⟩
  · obtain ⟨handle, s', harm, hkept⟩ := Kept.arm h.sound (h.calls_of_not_active hactive).2 h.earlier
    have hstart : b.start = ⟨{ b.routine with handle := some handle }, s', b.cancelled⟩ := by
      simp only [PlacedRoutine.start, Routine.start, if_neg hactive, harm]
    rw [hstart]
    exact ⟨hkept, rfl⟩

/-- The call of an active routine can be taken off, and then none of its calls waits. -/
theorem Kept.exists_rest (h : Kept v b) {handle : ι} (hhandle : b.routine.handle = some handle) :
    ∃ ps, (v.waiting b.scheduler).Perm
        ((handle, ⟨b.routine.serial, b.routine.generation⟩) :: ps) ∧
      ps.filter (·.2.routine = b.routine.serial) = [] := by
  have hcalls := h.calls
  rw [awaited, hhandle] at hcalls
  refine ⟨(v.waiting b.scheduler).filter fun p => !decide (p.2.routine = b.routine.serial), ?_, ?_⟩
  · have hsplit := List.filter_append_perm (·.2.routine = b.routine.serial) (v.waiting b.scheduler)
    rw [Scheduler.Sight.callsOf] at hcalls
    rw [hcalls] at hsplit
    exact hsplit.symm
  · simp [List.filter_filter]

/-- A routine that is stopped is at rest, and its call is of an earlier generation from then on. -/
theorem Kept.stop (h : Kept v b) : Kept v (b.stop v) ∧ (b.stop v).routine.isActive = false := by
  refine ⟨?_, rfl⟩
  have hlater : ∀ c ∈ (v.callsOf b.scheduler b.routine.serial).map Prod.snd ++ b.cancelled,
      c.generation < b.routine.generation + 1 := by
    intro c hc
    rcases List.mem_append.1 hc with hc | hc
    · obtain ⟨p, hp, rfl⟩ := List.mem_map.1 hc
      rw [h.calls, awaited, Option.mem_toList, Option.map_eq_some_iff] at hp
      obtain ⟨handle, -, rfl⟩ := hp
      exact Nat.lt_succ_self _
    · exact Nat.lt_succ_of_lt (h.earlier c hc)
  unfold PlacedRoutine.stop Routine.stop
  cases hhandle : b.routine.handle with
  | none =>
    have hcalls := h.calls
    rw [awaited, hhandle] at hcalls
    exact ⟨h.sound, hcalls, hlater⟩
  | some handle =>
    obtain ⟨ps, hperm, hnone⟩ := h.exists_rest hhandle
    obtain ⟨hs, hrest⟩ := v.cancel h.sound hperm
    refine ⟨hs, List.perm_nil.1 ?_, hlater⟩
    have hfiltered := hrest.filter (·.2.routine = b.routine.serial)
    rwa [hnone] at hfiltered

/-- Whatever an action asks for, the routine is kept, and active in the end unless the last thing
asked for is to stop. -/
theorem Kept.ask (h : Kept v b) (hactive : b.routine.isActive = true)
    (requests : List Routine.Request) : Kept v (requests.foldl (PlacedRoutine.ask v) b) ∧
      ((requests.foldl (PlacedRoutine.ask v) b).routine.isActive = true ↔
      requests.getLast? ≠ some .stop) := by
  -- On the last request: what went before does not matter to whether the routine is active.
  induction requests using List.reverseRecOn with
  | nil => exact ⟨h, by simpa using hactive⟩
  | append_singleton requests request ih =>
    rw [List.foldl_append, List.getLast?_concat]
    cases request with
    | start => exact ⟨ih.1.start.1, by simpa [PlacedRoutine.ask] using ih.1.start.2⟩
    | stop => exact ⟨ih.1.stop.1, by simpa [PlacedRoutine.ask] using ih.1.stop.2⟩

/-! ## Calls -/

/-- A call that waits is acted on once, with the next one scheduled before. -/
theorem Kept.called (h : Kept v b) {p : ι × Callback} {rest : σ}
    (hown : p.2.routine = b.routine.serial) (hs : v.Sound rest)
    (hperm : (v.waiting b.scheduler).Perm (p :: v.waiting rest)) (action : Routine.Action) :
    (PlacedRoutine.called v { b with scheduler := rest } p.2 action).1 = ⟨[b.routine.interval],
    action.fails⟩ ∧ Kept v (PlacedRoutine.called v { b with scheduler := rest } p.2 action).2 ∧
    ((PlacedRoutine.called v { b with scheduler := rest } p.2 action).2.routine.isActive = true ↔
      action.requests.getLast? ≠ some .stop) := by
  -- The call that is made is the one that the routine waits for, so none of its calls is left.
  have hcalls := hperm.filter (·.2.routine = b.routine.serial)
  rw [List.filter_cons, if_pos (by simpa using hown)] at hcalls
  have hawaited : b.awaited.Perm (p :: v.callsOf rest b.routine.serial) := h.calls ▸ hcalls
  unfold awaited at hawaited
  cases hhandle : b.routine.handle with
  | none => rw [hhandle] at hawaited; exact absurd hawaited.symm (by simp)
  | some handle =>
    rw [hhandle] at hawaited
    obtain ⟨hp, hnone⟩ := List.cons.inj (List.singleton_perm.1 hawaited)
    have hgeneration : p.2.generation = b.routine.generation := by rw [← hp]
    obtain ⟨handle', s', harm, hkept⟩ := Kept.arm hs hnone.symm h.earlier
    have hfire : b.routine.fire rest p.2.generation =
        (true, { b.routine with handle := some handle' }, s') := by
      have hactive : b.routine.isActive = true := by rw [Routine.isActive, hhandle]; rfl
      simp only [Routine.fire, hgeneration, hactive, ne_eq, not_true_eq_false, Bool.not_true,
        Bool.false_eq_true, or_self, if_false, harm, if_true]
    simp only [PlacedRoutine.called, hfire, if_true]
    exact ⟨trivial, hkept.ask rfl action.requests⟩

/-- A call that has been cancelled is not acted on. -/
theorem Kept.late (h : Kept v b) {c : Callback} (hc : c ∈ b.cancelled) (action : Routine.Action) :
    PlacedRoutine.called v b c action = ({}, b) := by
  have hne : c.generation ≠ b.routine.generation := Nat.ne_of_lt (h.earlier c hc)
  simp only [PlacedRoutine.called, Routine.fire, if_pos (Or.inl hne), Bool.false_eq_true, if_false]

/-- A move that can be made keeps the invariant. -/
theorem Kept.move (h : Kept v b) {m : Move σ ι} (hm : b.Allows v m) : Kept v (b.move v m).2 := by
  cases m with
  | start => exact h.start.1
  | stop => exact h.stop.1
  | call p rest action =>
    obtain ⟨hown, hs, hperm⟩ := hm
    exact (h.called hown hs hperm action).2.1
  | late c action =>
    rw [PlacedRoutine.move, h.late hm]
    exact h
  | others scheduler =>
    obtain ⟨hs, hperm⟩ := hm
    refine ⟨hs, ?_, h.earlier⟩
    have hcalls : (v.callsOf scheduler b.routine.serial).Perm b.awaited := h.calls ▸ hperm
    show v.callsOf scheduler b.routine.serial = b.awaited
    unfold awaited at hcalls ⊢
    cases hhandle : b.routine.handle with
    | none => rw [hhandle] at hcalls; exact List.perm_nil.1 hcalls
    | some handle => rw [hhandle] at hcalls; exact List.perm_singleton.1 hcalls

/-! ## Runs -/

/-- What a call or a request never changes of a routine. -/
theorem name_move (v : Scheduler.Sight σ ι) (b : PlacedRoutine σ ι) (m : Move σ ι) :
    (b.move v m).2.routine.name = b.routine.name := by
  have hstart : ∀ b : PlacedRoutine σ ι, b.start.routine.name = b.routine.name := fun b =>
    b.routine.name_start b.scheduler
  have hask : ∀ (requests : List Routine.Request) (b : PlacedRoutine σ ι),
      (requests.foldl (PlacedRoutine.ask v) b).routine.name = b.routine.name := by
    intro requests
    induction requests with
    | nil => exact fun _ => rfl
    | cons request requests ih =>
      intro b
      rw [List.foldl_cons, ih]
      cases request with
      | start => exact hstart b
      | stop => rfl
  have hcalled : ∀ (b : PlacedRoutine σ ι) (c : Callback) (action : Routine.Action),
      (PlacedRoutine.called v b c action).2.routine.name = b.routine.name := by
    intro b c action
    unfold PlacedRoutine.called
    dsimp only
    split
    · rw [hask]
      exact b.routine.name_fire b.scheduler c.generation
    · exact b.routine.name_fire b.scheduler c.generation
  cases m with
  | start => exact hstart b
  | stop | others => rfl
  | call p rest action => exact hcalled { b with scheduler := rest } p.2 action
  | late c action => exact hcalled b c action

/-- Moves one after another keep the invariant and the routine's number and interval. -/
theorem Kept.leads (h : Kept v b) {b' : PlacedRoutine σ ι} (hb : Leads v b b') :
    Kept v b' ∧ b'.routine.name = b.routine.name := by
  induction hb with
  | refl => exact ⟨h, rfl⟩
  | step _ allowed ih => exact ⟨ih.1.move allowed, (name_move v _ _).trans ih.2⟩

end

/-- Whatever happens to a new routine on a scheduler, one of its calls waits while it is active, the
one that it remembers, and none while it is not. A call that waits is acted on once, with the
interval, and the routine is active from then on unless the action asked it to stop and not to start
again. A call that was ever cancelled comes to nothing. -/
theorem run_armed (v : Scheduler.Sight σ ι) {serial : Nat} {interval : Datum} {r : Routine ι}
    (hmade : Routine.create serial interval = .ok r) {s : σ} (hs : v.Sound s)
    (hnew : v.callsOf s serial = []) {b : PlacedRoutine σ ι} (h : Leads v ⟨r, s, []⟩ b) :
    (v.callsOf b.scheduler serial).length = (if b.routine.isActive then 1 else 0) ∧
    (∀ p ∈ v.callsOf b.scheduler serial, b.routine.handle = some p.1) ∧
    b.start.routine.isActive = true ∧ (b.stop v).routine.isActive = false ∧
    (∀ p rest action, b.Allows v (.call p rest action) →
      (b.move v (.call p rest action)).1 = ⟨[interval], action.fails⟩ ∧
      ((b.move v (.call p rest action)).2.routine.isActive = true ↔
        action.requests.getLast? ≠ some .stop)) ∧
    ∀ c ∈ b.cancelled, ∀ action, b.move v (.late c action) = ({}, b) := by
  obtain rfl := Routine.create_ok hmade
  obtain ⟨hkept, hname⟩ := Kept.leads (b := ⟨{ serial, interval }, s, []⟩) ⟨hs, hnew, nofun⟩ h
  have hserial : b.routine.serial = serial := (Prod.mk.inj hname).1
  have hinterval : b.routine.interval = interval := (Prod.mk.inj hname).2
  have hcalls : v.callsOf b.scheduler serial = b.awaited := hserial ▸ hkept.calls
  refine ⟨?_, fun p hp => ?_, hkept.start.2, hkept.stop.2, fun p rest action hm => ?_,
    fun c hc action =>
    hkept.late hc action⟩
  · rw [hcalls, awaited, Routine.isActive]
    cases b.routine.handle <;> rfl
  · rw [hcalls, awaited, Option.mem_toList, Option.map_eq_some_iff] at hp
    obtain ⟨handle, hhandle, rfl⟩ := hp
    exact hhandle
  · obtain ⟨hown, hrest, hperm⟩ := hm
    obtain ⟨hacted, -, hactive⟩ := hkept.called hown hrest hperm action
    rw [hinterval] at hacted
    exact ⟨hacted, hactive⟩

end PlacedRoutine

/-! ## The agenda -/

/-- Without the member that has a key that no other has, what is left of a list is the others. -/
theorem filter_ne_perm {α κ : Type} [DecidableEq κ] (key : α → κ) {as bs : List α} {a : α}
    (h : as.Perm (a :: bs)) (hkeys : (as.map key).Nodup) : (as.filter (key · ≠ key a)).Perm bs := by
  have hnodup := (h.map key).nodup_iff.1 hkeys
  rw [List.map_cons, List.nodup_cons] at hnodup
  have hkept : bs.filter (key · ≠ key a) = bs := by
    refine List.filter_eq_self.2 fun b hb => decide_eq_true fun he => hnodup.1 ?_
    rw [← he]
    exact List.mem_map_of_mem hb
  have hfiltered := h.filter (key · ≠ key a)
  rwa [List.filter_cons, if_neg (by simp), hkept] at hfiltered

namespace Agenda

/-- A call that waits on the agenda, under its handle. -/
def entry (p : Appointment Callback) : Nat × Callback := (p.handle, p.call)

/-- What can be relied on of the agenda, while nobody is asked to stop: handles are numbered, so no
two calls that wait have one. -/
def sight : Scheduler.Sight (Agenda Callback) Nat where
  waiting a := a.waiting.map entry
  Sound a := a.interrupts = false ∧ (a.waiting.map Appointment.handle).Nodup ∧
    ∀ p ∈ a.waiting, p.handle ≤ a.taken.length
  schedule := by
    rintro a delay c _ _ _ ⟨hquiet, hnodup, hle⟩ ⟨⟩
    have hnew : a.taken.length + 1 ∉ a.waiting.map Appointment.handle := by
      intro hmem
      obtain ⟨p, hp, he⟩ := List.mem_map.1 hmem
      have := hle p hp
      omega
    refine ⟨hquiet, ?_, ⟨rfl, ?_, fun p hp => ?_⟩, ?_⟩
    · rwa [List.map_map]
    · rw [List.map_append, List.nodup_append_comm]
      exact List.nodup_cons.2 ⟨hnew, hnodup⟩
    · rcases List.mem_append.1 hp with hp | hp
      · exact Nat.le_succ_of_le (hle p hp)
      · rw [List.mem_singleton.1 hp]
        exact Nat.le_refl _
    · rw [List.map_append]
      exact List.perm_append_singleton _ _
  cancel := by
    rintro a p ps ⟨hquiet, hnodup, hle⟩ hperm
    refine ⟨⟨hquiet, hnodup.sublist (List.filter_sublist.map _),
      fun q hq => hle q (List.mem_filter.1 hq).1⟩, ?_⟩
    have hrest := filter_ne_perm Prod.fst hperm (by rwa [List.map_map])
    rw [List.filter_map] at hrest
    exact hrest

end Agenda

namespace PlacedRoutine

/-- A routine on the agenda whose action stops and starts it again; the call that this cancels is
made after a further stop and start, and then the one that waits, by an action that stops the
routine and fails. -/
theorem run_armed_restarted :
    let v := Agenda.sight
    let moves : List (Move (Agenda Callback) Nat) := [.start,
      .call (1, ⟨0, 0⟩) { taken := [⟨1, .int 10, ⟨0, 0⟩⟩] } { requests := [.stop, .start] },
      .stop, .start]
    let b := moves.foldl (fun b m => (b.move v m).2) ⟨{ serial := 0, interval := .int 10 }, {}, []⟩
    let m : Move (Agenda Callback) Nat :=
      .call (4, ⟨0, 2⟩) { b.scheduler with waiting := [] }
        { requests := [.start, .stop], fails := true }
    (Routine.create 0 (.int 10) : Except Fault (Routine Nat)) =
      .ok { serial := 0, interval := .int 10 } ∧
      v.Sound {} ∧ v.callsOf {} 0 = [] ∧ Leads v ⟨{ serial := 0, interval := .int 10 }, {}, []⟩ b ∧
      (v.callsOf b.scheduler 0).length = 1 ∧ b.cancelled = [⟨0, 1⟩, ⟨0, 0⟩] ∧
      b.move v (.late ⟨0, 0⟩ {}) = ({}, b) ∧
      b.Allows v m ∧ (b.move v m).1 = ⟨[.int 10], true⟩ ∧
      (b.move v m).2.routine.isActive = false := by
  intro v moves b m
  have hmade : Routine.create 0 (.int 10) =
      .ok ({ serial := 0, interval := .int 10 } : Routine Nat) := rfl
  have hs : v.Sound {} := ⟨rfl, .nil, nofun⟩
  have hleads : Leads v ⟨{ serial := 0, interval := .int 10 }, {}, []⟩ b :=
    .step (.step (.step (.step .refl trivial) ⟨rfl, ⟨rfl, .nil, nofun⟩, .refl _⟩) trivial) trivial
  have hcancelled : b.cancelled = [⟨0, 1⟩, ⟨0, 0⟩] := by decide +kernel
  have hm : b.Allows v m := ⟨rfl, ⟨rfl, .nil, nofun⟩, .refl _⟩
  obtain ⟨hwaits, -, -, -, hacts, hlate⟩ := run_armed v hmade hs rfl hleads
  obtain ⟨hacted, hactive⟩ := hacts _ _ _ hm
  refine ⟨hmade, hs, rfl, hleads, hwaits, hcancelled,
    hlate _ (by simp [hcancelled]) {}, hm, hacted, ?_⟩
  exact Bool.eq_false_iff.2 fun h => hactive.1 h rfl

end PlacedRoutine

end EquationStudio
