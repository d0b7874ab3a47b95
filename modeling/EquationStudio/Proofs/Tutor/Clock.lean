import EquationStudio.Proofs.Schedule.Routine
import EquationStudio.Proofs.Tutor.Step
import Mathlib.Logic.Relation

/-!
# The routines of a tutor and the calls that wait for them

The calls that wait on the agenda are those of the routines that the tutor has, one for each
(`Tutor.Clocked`). A call from the agenda schedules the next one before the tutor acts on it, and
that may stop the routine; so the agenda is followed through each way in which a routine uses it
(`Agenda.Serves.stop`, `Agenda.Serves.start`, `Agenda.Serves.fire`), and each operation is put
together from these (`Tutor.Clocked.apply`, `Tutor.Clocked.fire`).

A routine that the tutor has put aside never comes back, since every new one has a new number
(`Tutor.Beat`). A call to it comes to nothing, however late it is made (`Tutor.run_clocked`).
-/

namespace EquationStudio

/-! ## Agendas that serve routines -/

/-- The call that an active routine waits for. -/
def Routine.appointment? (r : Routine Nat) : Option (Appointment Callback) :=
  r.handle.map fun handle => ⟨handle, r.interval, ⟨r.serial, r.generation⟩⟩

namespace Agenda

/-- No call that waits has the handle that is given next. -/
def Fresh {α : Type} (a : Agenda α) : Prop := ∀ p ∈ a.waiting, p.handle ≠ a.taken.length + 1

instance {α : Type} (a : Agenda α) : Decidable a.Fresh :=
  inferInstanceAs (Decidable (∀ p ∈ a.waiting, p.handle ≠ a.taken.length + 1))

/-- What schedulers may have made of an agenda in the meantime: the calls wait in any order, as
schedulers take their own time, and the next handle is any that no call that waits has. A handle
stands for a scheduler and what it gave. Nobody is asked to stop while a call is taken. -/
structure Rearranged {α : Type} (a b : Agenda α) : Prop where
  waiting : b.waiting.Perm a.waiting
  fresh : b.Fresh
  quiet : b.interrupts = false

/-- A call that is cancelled no longer waits, and the others do. -/
theorem cancel_perm {α : Type} {a : Agenda α} {p : Appointment α} {ps : List (Appointment α)}
    (h : a.waiting.Perm (p :: ps)) (hhandles : (a.waiting.map Appointment.handle).Nodup) :
    (a.cancel p.handle).waiting.Perm ps := filter_ne_perm Appointment.handle h hhandles

/-- The calls that wait are those of the given routines. -/
structure Serves (a : Agenda Callback) (rs : List (Routine Nat)) : Prop where
  waiting : a.waiting.Perm (rs.filterMap Routine.appointment?)
  handles : (a.waiting.map Appointment.handle).Nodup
  quiet : a.interrupts = false

namespace Serves

variable {a b : Agenda Callback} {r : Routine Nat} {rs rs' : List (Routine Nat)}

/-- The order of the routines does not matter. -/
theorem perm (h : a.Serves rs) (hrs : rs.Perm rs') : a.Serves rs' :=
  ⟨h.waiting.trans (hrs.filterMap _), h.handles, h.quiet⟩

/-- Nor does what schedulers make of the agenda. -/
theorem rearranged (h : a.Serves rs) (hb : a.Rearranged b) : b.Serves rs :=
  ⟨hb.waiting.trans h.waiting, (hb.waiting.map _).nodup_iff.2 h.handles, hb.quiet⟩

/-- A routine that is stopped takes its call off the agenda. -/
theorem stop (h : a.Serves (r :: rs)) : (r.stop a).2.Serves rs := by
  obtain ⟨hwaiting, hhandles, hquiet⟩ := h
  rw [List.filterMap_cons, Routine.appointment?] at hwaiting
  unfold Routine.stop
  cases hr : r.handle with
  | none =>
    rw [hr] at hwaiting
    exact ⟨hwaiting, hhandles, hquiet⟩
  | some handle =>
    rw [hr] at hwaiting
    exact ⟨cancel_perm hwaiting hhandles, hhandles.sublist (List.filter_sublist.map _), hquiet⟩

/-- A routine that schedules its next call puts it on the agenda. -/
theorem arm (h : a.Serves rs) (hfresh : a.Fresh) :
    ∃ b, r.arm a r.generation = ({ r with handle := some (a.taken.length + 1) }, b) ∧
      b.Serves ({ r with handle := some (a.taken.length + 1) } :: rs) := by
  have harm : r.arm a r.generation = ({ r with handle := some (a.taken.length + 1) },
      (a.schedule r.interval ⟨r.serial, r.generation⟩).2.2) := by
    have hquiet : (Scheduler.schedule a r.interval (Callback.mk r.serial r.generation)).2.1 =
        false := h.quiet
    simp only [Routine.arm, hquiet, Bool.false_eq_true, if_false]
    rfl
  refine ⟨_, harm, ?_, ?_, rfl⟩
  · exact (List.perm_append_singleton _ _).trans (h.waiting.cons _)
  · have hperm : ((a.schedule r.interval ⟨r.serial, r.generation⟩).2.2.waiting.map
        Appointment.handle).Perm
        ((a.taken.length + 1) :: a.waiting.map Appointment.handle) :=
      (List.perm_append_singleton _ _).map _
    rw [hperm.nodup_iff, List.nodup_cons]
    refine ⟨fun hmem => ?_, h.handles⟩
    obtain ⟨p, hp, he⟩ := List.mem_map.1 hmem
    exact hfresh p hp he

/-- A routine that is called while it waits for the call acts on it, and waits for the next one. -/
theorem fire (h : a.Serves (r :: rs)) (hserial : ∀ r' ∈ rs, r'.serial ≠ r.serial)
    {p : Appointment Callback} {rest : List (Appointment Callback)} (hwaits : a.waiting = p :: rest)
    (hcalled : p.call.routine = r.serial) (hfresh : a.Fresh) :
    ∃ handle b, r.fire { a with waiting := rest } p.call.generation = (true,
      { r with handle := some handle }, b) ∧ b.Serves ({ r with handle := some handle } :: rs) := by
  have hmem : p ∈ (r :: rs).filterMap Routine.appointment? :=
    h.waiting.mem_iff.1 (hwaits ▸ .head _)
  obtain ⟨r', hr', hp⟩ := List.mem_filterMap.1 hmem
  have hown : r' = r := by
    obtain rfl | hr' := List.mem_cons.1 hr'
    · rfl
    · refine absurd ?_ (hserial r' hr')
      rw [← hcalled]
      obtain ⟨handle, -, rfl⟩ := Option.map_eq_some_iff.1 hp
      rfl
  subst hown
  obtain ⟨handle, hhandle, rfl⟩ := Option.map_eq_some_iff.1 hp
  have hserves : Serves { a with waiting := rest } rs := by
    have hperm := h.waiting
    rw [hwaits, List.filterMap_cons, hp] at hperm
    have hhandles := h.handles
    rw [hwaits, List.map_cons, List.nodup_cons] at hhandles
    exact ⟨hperm.cons_inv, hhandles.2, h.quiet⟩
  obtain ⟨b, harm, hb⟩ := hserves.arm (r := r') fun p hp => hfresh p (hwaits ▸ .tail _ hp)
  refine ⟨_, b, ?_, hb⟩
  have hactive : r'.isActive = true := by rw [Routine.isActive, hhandle]; rfl
  simp only [Routine.fire, hactive, ne_eq, not_true_eq_false, Bool.not_true,
    Bool.false_eq_true, or_self, if_false, harm, if_true]

end Serves

end Agenda

namespace Tutor

/-! ## Tutors and their routines -/

/-- The routines that a tutor has. -/
def held (t : Tutor) : List (Routine Nat) := t.timer.toList ++ t.autoPlay.toList

/-- A routine of the given number is among those that the tutor has. -/
def Owns (t : Tutor) (serial : Nat) : Prop := ∃ r ∈ t.held, r.serial = serial

/-- A tutor whose routines wait for their next calls, each for one, and no other calls wait. -/
structure Clocked (t : Tutor) : Prop where
  serves : t.agenda.Serves t.held
  active : ∀ r ∈ t.held, r.isActive = true
  below : ∀ r ∈ t.held, r.serial < t.routines
  apart : ∀ r r', t.timer = some r → t.autoPlay = some r' → r.serial ≠ r'.serial
  playing : ∀ r, t.autoPlay = some r → t.phase = .inProgress

/-- What has become of a tutor's routines: each one that it has now is one that it had, or a new
one. -/
structure Beat (t t' : Tutor) : Prop where
  clocked : t'.Clocked
  routines : t.routines ≤ t'.routines
  timer : ∀ r', t'.timer = some r' →
    (∃ r, t.timer = some r ∧ r.serial = r'.serial) ∨ t.routines ≤ r'.serial
  autoPlay : ∀ r', t'.autoPlay = some r' →
    (∃ r, t.autoPlay = some r ∧ r.serial = r'.serial) ∨ t.routines ≤ r'.serial

section
variable {t t' t'' : Tutor} {r : Routine Nat}

/-- A routine that a tutor has is its timer or its auto-play. -/
theorem mem_held : r ∈ t.held ↔ t.timer = some r ∨ t.autoPlay = some r := by
  rw [held, List.mem_append, Option.mem_toList, Option.mem_toList]

/-- One thing after another. -/
theorem Beat.trans (h : Beat t t') (h' : Beat t' t'') : Beat t t'' where
  clocked := h'.clocked
  routines := Nat.le_trans h.routines h'.routines
  timer r'' hr'' := by
    obtain ⟨r', hr', he'⟩ | hnew := h'.timer r'' hr''
    · obtain ⟨r, hr, he⟩ | hnew := h.timer r' hr'
      · exact .inl ⟨r, hr, he.trans he'⟩
      · exact .inr (he' ▸ hnew)
    · exact .inr (Nat.le_trans h.routines hnew)
  autoPlay r'' hr'' := by
    obtain ⟨r', hr', he'⟩ | hnew := h'.autoPlay r'' hr''
    · obtain ⟨r, hr, he⟩ | hnew := h.autoPlay r' hr'
      · exact .inl ⟨r, hr, he.trans he'⟩
      · exact .inr (he' ▸ hnew)
    · exact .inr (Nat.le_trans h.routines hnew)

/-- The routines and the agenda are as they were, and a lesson that plays is in progress. -/
theorem Clocked.same (h : t.Clocked) (htimer : t'.timer = t.timer)
    (hauto : t'.autoPlay = t.autoPlay) (hroutines : t'.routines = t.routines)
    (hagenda : t'.agenda = t.agenda) (hphase : ∀ r, t.autoPlay = some r → t'.phase = .inProgress) :
    Beat t t' where
  clocked := by
    have hheld : t'.held = t.held := by rw [held, held, htimer, hauto]
    exact ⟨by rw [hagenda, hheld]; exact h.serves, by rw [hheld]; exact h.active,
      by rw [hheld, hroutines]; exact h.below, by rw [htimer, hauto]; exact h.apart,
      by rw [hauto]; exact hphase⟩
  routines := Nat.le_of_eq hroutines.symm
  timer r hr := .inl ⟨r, htimer ▸ hr, rfl⟩
  autoPlay r hr := .inl ⟨r, hauto ▸ hr, rfl⟩

/-- Schedulers take their time. -/
theorem Clocked.rearranged (h : t.Clocked) {agenda : Agenda Callback}
    (ha : t.agenda.Rearranged agenda) : Beat t { t with agenda } where
  clocked := ⟨h.serves.rearranged ha, h.active, h.below, h.apart, h.playing⟩
  routines := Nat.le_refl _
  timer r hr := .inl ⟨r, hr, rfl⟩
  autoPlay r hr := .inl ⟨r, hr, rfl⟩

/-- Stopping the timer. -/
theorem Clocked.stopTimer (h : t.Clocked) : Beat t t.stopTimer := by
  unfold Tutor.stopTimer
  split
  · exact h.same rfl rfl rfl rfl h.playing
  · next r hr =>
    have hheld : t.held = r :: t.autoPlay.toList := by rw [held, hr]; rfl
    have hserves := h.serves
    rw [hheld] at hserves
    refine ⟨⟨hserves.stop, fun r' hr' => h.active r' ?_, fun r' hr' => h.below r' ?_,
      nofun, h.playing⟩, Nat.le_refl _, nofun, fun r' hr' => .inl ⟨r', hr', rfl⟩⟩
    · exact mem_held.2 (.inr ((mem_held.1 hr').resolve_left nofun))
    · exact mem_held.2 (.inr ((mem_held.1 hr').resolve_left nofun))

/-- Stopping to play. -/
theorem Clocked.stopAutoPlay (h : t.Clocked) : Beat t t.stopAutoPlay := by
  unfold Tutor.stopAutoPlay
  split
  · exact h.same rfl rfl rfl rfl h.playing
  · next r hr =>
    have hserves : t.agenda.Serves (r :: t.timer.toList) := by
      refine h.serves.perm ?_
      rw [held, hr]
      exact List.perm_append_singleton _ _
    have hheld : ({ t with autoPlay := none, agenda := (r.stop t.agenda).2 } : Tutor).held =
        t.timer.toList := List.append_nil _
    refine ⟨⟨hheld ▸ hserves.stop, fun r' hr' => h.active r' ?_,
      fun r' hr' => h.below r' ?_, nofun, nofun⟩, Nat.le_refl _,
      fun r' hr' => .inl ⟨r', hr', rfl⟩, nofun⟩
    · exact mem_held.2 (.inl ((mem_held.1 hr').resolve_right nofun))
    · exact mem_held.2 (.inl ((mem_held.1 hr').resolve_right nofun))

/-- A timer that is stopped is put aside. -/
theorem timer_stopTimer : t.stopTimer.timer = none := by
  unfold Tutor.stopTimer
  split
  · next hnone => exact hnone
  · rfl

/-- So is what plays. -/
theorem autoPlay_stopAutoPlay : t.stopAutoPlay.autoPlay = none := by
  unfold Tutor.stopAutoPlay
  split
  · next hnone => exact hnone
  · rfl

/-- Stopping to play does not look at the phase. -/
theorem stopAutoPlay_phase (phase : Phase) :
    ({ t with phase } : Tutor).stopAutoPlay = { t.stopAutoPlay with phase } := by
  obtain ⟨_, _, _, _, autoPlay, _, _, _⟩ := t
  cases autoPlay <;> rfl

/-- The lesson and the attempt may be put aside once it no longer plays. -/
theorem Clocked.stopped (h : t.Clocked) (htimer : t'.timer = t.stopAutoPlay.timer)
    (hauto : t'.autoPlay = t.stopAutoPlay.autoPlay)
    (hroutines : t'.routines = t.stopAutoPlay.routines)
    (hagenda : t'.agenda = t.stopAutoPlay.agenda) : Beat t t' :=
  h.stopAutoPlay.trans (h.stopAutoPlay.clocked.same htimer hauto hroutines hagenda fun r hr => by
    cases autoPlay_stopAutoPlay.symm.trans hr)

/-- Loading a lesson stops the one that plays. -/
theorem Clocked.load (h : t.Clocked) (l : Lesson) : Beat t (t.load l) := h.stopped rfl rfl rfl rfl

/-- So does a reset. -/
theorem Clocked.reset (h : t.Clocked) : Beat t t.reset := h.stopped rfl rfl rfl rfl

/-- So does the end of the lesson. -/
theorem Clocked.complete (h : t.Clocked) (a : Attempt) : Beat t (t.complete a) := by
  unfold Tutor.complete
  rw [stopAutoPlay_phase]
  dsimp only
  split <;> exact h.stopped rfl rfl rfl rfl

/-- One more step may be the last one. -/
theorem Clocked.advance (h : t.Clocked) : Beat t t.advance := by
  unfold Tutor.advance
  split
  · exact h.same rfl rfl rfl rfl h.playing
  · next a ha =>
    have hmoved : Beat t { t with attempt? := some a.advance } := h.same rfl rfl rfl rfl h.playing
    dsimp only
    split
    · exact hmoved.trans (hmoved.clocked.complete _)
    · exact hmoved

/-- Dismissing the tutor stops everything. -/
theorem Clocked.destroy (h : t.Clocked) : Beat t t.destroy :=
  h.stopTimer.trans (h.stopTimer.clocked.stopped rfl rfl rfl rfl)

/-! ## Starting -/

/-- Stopping the timer leaves the next handle free. -/
theorem fresh_stopTimer (h : t.agenda.Fresh) : t.stopTimer.agenda.Fresh := by
  unfold Tutor.stopTimer
  split
  · exact h
  · next r _ =>
    intro p hp
    unfold Routine.stop at hp ⊢
    cases hhandle : r.handle with
    | none => rw [hhandle] at hp; exact h p hp
    | some handle => rw [hhandle] at hp; exact h p (List.mem_filter.1 hp).1

/-- Another timer that waits for its call, or the timer with another call. -/
theorem Clocked.withTimer (h : t.Clocked) {agenda : Agenda Callback} {routines : Nat}
    (hserves : agenda.Serves (r :: t.autoPlay.toList)) (hactive : r.isActive = true)
    (hserial : (∃ r', t.timer = some r' ∧ r'.serial = r.serial) ∨ t.routines ≤ r.serial)
    (hbelow : r.serial < routines) (hroutines : t.routines ≤ routines) :
    Beat t { t with timer := some r, routines, agenda } where
  clocked := by
    refine ⟨hserves, fun r' hr' => ?_, fun r' hr' => ?_, fun r' r'' hr' hr'' => ?_, h.playing⟩
    · obtain hr' | hr' := mem_held.1 hr'
      · cases hr'; exact hactive
      · exact h.active r' (mem_held.2 (.inr hr'))
    · obtain hr' | hr' := mem_held.1 hr'
      · cases hr'; exact hbelow
      · exact Nat.lt_of_lt_of_le (h.below r' (mem_held.2 (.inr hr'))) hroutines
    · cases hr'
      have := h.below r'' (mem_held.2 (.inr hr''))
      obtain ⟨r₀, hr₀, he⟩ | hnew := hserial
      · exact he ▸ h.apart r₀ r'' hr₀ hr''
      · omega
  routines := hroutines
  timer r' hr' := by cases hr'; exact hserial
  autoPlay r' hr' := .inl ⟨r', hr', rfl⟩

/-- The same of what plays, while a lesson is in progress. -/
theorem Clocked.withAutoPlay (h : t.Clocked) {agenda : Agenda Callback} {routines : Nat}
    (hserves : agenda.Serves (r :: t.timer.toList)) (hactive : r.isActive = true)
    (hserial : (∃ r', t.autoPlay = some r' ∧ r'.serial = r.serial) ∨ t.routines ≤ r.serial)
    (hbelow : r.serial < routines) (hroutines : t.routines ≤ routines)
    (hphase : t.phase = .inProgress) : Beat t { t with autoPlay := some r, routines, agenda } where
  clocked := by
    refine ⟨hserves.perm (List.perm_append_singleton _ _).symm, fun r' hr' => ?_, fun r' hr' => ?_,
      fun r' r'' hr' hr'' => ?_, fun _ _ => hphase⟩
    · obtain hr' | hr' := mem_held.1 hr'
      · exact h.active r' (mem_held.2 (.inl hr'))
      · cases hr'; exact hactive
    · obtain hr' | hr' := mem_held.1 hr'
      · exact Nat.lt_of_lt_of_le (h.below r' (mem_held.2 (.inl hr'))) hroutines
      · cases hr'; exact hbelow
    · cases hr''
      have := h.below r' (mem_held.2 (.inl hr'))
      obtain ⟨r₀, hr₀, he⟩ | hnew := hserial
      · exact he ▸ h.apart r' r₀ hr' hr₀
      · omega
  routines := hroutines
  timer r' hr' := .inl ⟨r', hr', rfl⟩
  autoPlay r' hr' := by cases hr'; exact hserial

/-- Starting the timer afresh. -/
theorem Clocked.startTimer (h : t.Clocked) (hfresh : t.agenda.Fresh) (interval : Datum) :
    Beat t (t.startTimer interval).2 := by
  refine h.stopTimer.trans ?_
  have hnone : t.stopTimer.timer = none := timer_stopTimer
  have hclocked := h.stopTimer.clocked
  have hfresh := fresh_stopTimer hfresh
  unfold Tutor.startTimer
  generalize t.stopTimer = u at *
  dsimp only
  split
  · exact hclocked.same rfl rfl rfl rfl hclocked.playing
  · next r hr =>
    obtain rfl := Routine.create_ok hr
    have hserves := hclocked.serves
    rw [held, hnone] at hserves
    obtain ⟨b, harm, hb⟩ := hserves.arm (r := { serial := u.routines, interval }) hfresh
    have hstart : Routine.start ({ serial := u.routines, interval } : Routine Nat) u.agenda =
        Routine.arm { serial := u.routines, interval } u.agenda 0 := rfl
    rw [hstart, harm]
    exact hclocked.withTimer hb rfl (.inr (Nat.le_refl _)) (Nat.lt_succ_self _) (Nat.le_succ _)

/-- Starting to play. -/
theorem Clocked.startAutoPlay (h : t.Clocked) (hfresh : t.agenda.Fresh) (interval : Datum) :
    Beat t (t.after ((t.startAutoPlay interval).map Prod.snd)) := by
  have hsame : Beat t t := h.same rfl rfl rfl rfl h.playing
  unfold Tutor.startAutoPlay
  split
  · exact hsame
  · next hready =>
    rw [Bool.or_eq_true, not_or] at hready
    obtain ⟨hrunning, hplaying⟩ := hready
    cases hr : Routine.create t.routines interval with
    | error fault => exact hsame
    | ok r =>
      obtain rfl := Routine.create_ok hr
      have hnone : t.autoPlay = none := by
        cases hauto : t.autoPlay with
        | none => rfl
        | some r =>
          rw [isPlaying, hauto] at hplaying
          exact absurd (h.active r (mem_held.2 (.inr hauto))) hplaying
      have hphase : t.phase = .inProgress := by
        cases ha : t.running? with
        | none => exact absurd (by rw [ha]; rfl) hrunning
        | some a => exact (running?_eq_some ha).1
      have hserves := h.serves
      rw [held, hnone, Option.toList_none, List.append_nil] at hserves
      obtain ⟨b, harm, hb⟩ := hserves.arm (r := { serial := t.routines, interval }) hfresh
      have hstart : Routine.start ({ serial := t.routines, interval } : Routine Nat) t.agenda =
          Routine.arm { serial := t.routines, interval } t.agenda 0 := rfl
      rw [ok_bind, hstart, harm]
      have hbeat :=
        h.withAutoPlay hb rfl (.inr (Nat.le_refl _)) (Nat.lt_succ_self _) (Nat.le_succ _) hphase
      exact hbeat.trans (hbeat.clocked.same rfl rfl rfl rfl hbeat.clocked.playing)

/-! ## Calls -/

/-- Time that passes leaves the routines. -/
theorem Clocked.tick (h : t.Clocked) {ms : Datum} (ht : t.tick ms = .ok t') : Beat t t' := by
  unfold Tutor.tick at ht
  split at ht
  · cases ht
  · split at ht
    · cases ht
    · split at ht
      · cases ht
        exact h.same rfl rfl rfl rfl h.playing
      · obtain ⟨spent, -, ht⟩ := ok_of_bind ht
        cases ht
        exact h.same rfl rfl rfl rfl h.playing

/-- The first call that waits is made: the routine that waits for it schedules the next one, and the
tutor acts on it. -/
theorem Clocked.ring (h : t.Clocked) (hfresh : t.agenda.Fresh) {p : Appointment Callback}
    {rest : List (Appointment Callback)} (hwaits : t.agenda.waiting = p :: rest) :
    Beat t (({ t with agenda := { t.agenda with waiting := rest } } : Tutor).fire p.call).2 := by
  have hmem : p ∈ t.held.filterMap Routine.appointment? :=
    h.serves.waiting.mem_iff.1 (hwaits ▸ .head _)
  obtain ⟨r, hr, hp⟩ := List.mem_filterMap.1 hmem
  have hcalled : p.call.routine = r.serial := by
    obtain ⟨handle, -, rfl⟩ := Option.map_eq_some_iff.1 hp
    rfl
  unfold Tutor.fire
  obtain htimer | hauto := mem_held.1 hr
  · have hfilter : t.timer.filter (·.serial = p.call.routine) = some r := by
      rw [htimer, Option.filter_some, if_pos (decide_eq_true hcalled.symm)]
    have hserves : t.agenda.Serves (r :: t.autoPlay.toList) := by
      have hserves := h.serves
      rwa [held, htimer] at hserves
    obtain ⟨handle, b, hfire, hb⟩ := hserves.fire
      (fun r' hr' => (h.apart r r' htimer (Option.mem_toList.1 hr')).symm) hwaits hcalled hfresh
    have hbeat := h.withTimer (r := { r with handle := some handle }) hb rfl (.inl ⟨r, htimer, rfl⟩)
      (h.below r hr) (Nat.le_refl _)
    simp only [hfilter, Tutor.fireTimer, hfire, if_true]
    split
    · next t' ht' => exact hbeat.trans (hbeat.clocked.tick ht')
    · exact hbeat
  · have htimer : t.timer.filter (·.serial = p.call.routine) = none := by
      rw [Option.filter_eq_none_iff]
      intro r' hr' he
      exact h.apart r' r hr' hauto ((of_decide_eq_true he).trans hcalled)
    have hfilter : t.autoPlay.filter (·.serial = p.call.routine) = some r := by
      rw [hauto, Option.filter_some, if_pos (decide_eq_true hcalled.symm)]
    have hserves : t.agenda.Serves (r :: t.timer.toList) := by
      refine h.serves.perm ?_
      rw [held, hauto]
      exact List.perm_append_singleton _ _
    obtain ⟨handle, b, hfire, hb⟩ := hserves.fire
      (fun r' hr' => h.apart r' r (Option.mem_toList.1 hr') hauto) hwaits hcalled hfresh
    have hbeat :=
      h.withAutoPlay (r := { r with handle := some handle }) hb rfl (.inl ⟨r, hauto, rfl⟩)
      (h.below r hr) (Nat.le_refl _) (h.playing r hauto)
    simp only [htimer, hfilter, Tutor.fireAutoPlay, hfire, if_true]
    exact hbeat.trans hbeat.clocked.advance

/-! ## Operations -/

/-- Operations that are asked for; calls come from schedulers. -/
def Op.Asked : Op → Prop
  | .call _ _ => False
  | _ => True

/-- Going back leaves the routines. -/
theorem Clocked.previous (h : t.Clocked) : Beat t t.previous.2 := by
  unfold Tutor.previous
  split
  · exact h.same rfl rfl rfl rfl h.playing
  · split <;> exact h.same rfl rfl rfl rfl h.playing

/-- Going to a step leaves the routines, whether there is such a step or not. -/
theorem Clocked.arrive (h : t.Clocked) (a? : Option Attempt) : Beat t (t.arrive a?).2 := by
  cases a? with
  | none => exact h.same rfl rfl rfl rfl h.playing
  | some a => exact h.same rfl rfl rfl rfl h.playing

/-- So does going to one given by an integer … -/
theorem Clocked.goTo (h : t.Clocked) (index : Int) : Beat t (t.goTo index).2 := by
  unfold Tutor.goTo
  split
  · exact h.same rfl rfl rfl rfl h.playing
  · exact h.arrive _

/-- … or by any datum. -/
theorem Clocked.goToDatum (h : t.Clocked) {index : Datum} {done : Bool}
    (hgone : t.goToDatum index = .ok (done, t')) : Beat t t' := by
  unfold Tutor.goToDatum at hgone
  split at hgone
  · cases hgone
    exact h.same rfl rfl rfl rfl h.playing
  · obtain ⟨a?, -, hgone⟩ := ok_of_bind hgone
    obtain rfl : (t.arrive a?).2 = t' := congrArg Prod.snd (Except.ok.inj hgone)
    exact h.arrive a?

/-- A hint leaves the routines. -/
theorem Clocked.requestHint (h : t.Clocked) : Beat t t.requestHint.2 := by
  unfold Tutor.requestHint
  split
  · exact h.same rfl rfl rfl rfl h.playing
  · split
    · dsimp only
      split <;> exact h.same rfl rfl rfl rfl h.playing
    · exact h.same rfl rfl rfl rfl h.playing

/-- A request that may be refused leaves the routines if it is. -/
theorem Clocked.after (h : t.Clocked) {r : Except Fault Tutor} (hr : ∀ t', r = .ok t' → Beat t t') :
    Beat t (t.after r) := by
  cases r with
  | ok t' => exact hr t' rfl
  | error fault => exact h.same rfl rfl rfl rfl h.playing

/-- An operation that is asked for keeps the routines and the agenda in step. -/
theorem Clocked.apply (h : t.Clocked) (hfresh : t.agenda.Fresh) {op : Op} (hop : op.Asked) :
    Beat t (t.apply op) := by
  cases op with
  | load l => exact h.load l
  | loadRecord record =>
    refine h.after fun t' ht' => ?_
    unfold Tutor.loadRecord at ht'
    split at ht'
    · obtain ⟨l, -, ht'⟩ := ok_of_bind ht'
      cases ht'
      exact h.load l
    · cases ht'
  | loadParts id name equation difficulty topic steps =>
    refine h.after fun t' ht' => ?_
    cases hl : Lesson.assemble id name equation difficulty topic steps with
    | error fault => rw [hl] at ht'; cases ht'
    | ok l =>
      rw [hl] at ht'
      cases ht'
      exact h.load l
  | advance => exact h.advance
  | previous => exact h.previous
  | goTo index => exact h.goTo index
  | hint => exact h.requestHint
  | reset => exact h.reset
  | tick ms => exact h.after fun t' ht' => h.tick ht'
  | startTimer interval => exact h.startTimer hfresh interval
  | stopTimer => exact h.stopTimer
  | startAutoPlay interval => exact h.startAutoPlay hfresh interval
  | stopAutoPlay => exact h.stopAutoPlay
  | destroy => exact h.destroy
  | call => exact hop.elim

/-- An operation that is asked of a tutor, whatever its schedulers have come to. -/
inductive Asks (t : Tutor) (op : Op) : Tutor → Prop
  | mk {agenda : Agenda Callback} (rearranged : t.agenda.Rearranged agenda) (asked : op.Asked) :
      Asks t op (({ t with agenda } : Tutor).apply op)

/-- What can happen to a tutor next. -/
inductive Move (t : Tutor) : Tutor → Prop
  /-- An operation is asked for. -/
  | ask {op : Op} {t' : Tutor} (asks : t.Asks op t') : Move t t'
  /-- The student goes to a step, whose number is given by any datum. -/
  | goTo {index : Datum} {done : Bool} {t' : Tutor} (gone : t.goToDatum index = .ok (done, t')) :
      Move t t'
  /-- A scheduler makes a call that waits, and drops it. -/
  | ring {agenda : Agenda Callback} {p : Appointment Callback} {rest : List (Appointment Callback)}
      (rearranged : t.agenda.Rearranged agenda) (waits : agenda.waiting = p :: rest) :
      Move t (({ t with agenda := { agenda with waiting := rest } } : Tutor).fire p.call).2
  /-- A call comes late, to a routine that the tutor has put aside. -/
  | late {c : Callback} (known : c.routine < t.routines) (stopped : ¬ t.Owns c.routine) :
      Move t (t.fire c).2

/-- What a run of moves comes to. -/
abbrev Leads : Tutor → Tutor → Prop := Relation.ReflTransGen Move

/-- An operation that is asked for, while the schedulers keep the agenda as it is, is a move. -/
theorem Leads.apply (h : Leads t t') (op : Op) (hop : op.Asked) (hfresh : t'.agenda.Fresh)
    (hquiet : t'.agenda.interrupts = false) : Leads t (t'.apply op) := by
  have hkept : t'.agenda.Rearranged t'.agenda := ⟨.refl _, hfresh, hquiet⟩
  exact h.tail (.ask (.mk hkept hop))

/-- A run of the first call on the agenda is a move, if there is one. -/
theorem Leads.runNext (h : Leads t t') (hfresh : t'.agenda.Fresh)
    (hquiet : t'.agenda.interrupts = false) : Leads t t'.runNext.2 := by
  have hkept : t'.agenda.Rearranged t'.agenda := ⟨.refl _, hfresh, hquiet⟩
  unfold Tutor.runNext Agenda.next?
  cases hwaits : t'.agenda.waiting with
  | nil => exact h
  | cons p rest => exact h.tail (.ring hkept hwaits)

/-- A call to a routine that the tutor does not have comes to nothing. -/
theorem fire_of_not_owns {c : Callback} (h : ¬ t.Owns c.routine) : t.fire c = (.ok (), t) := by
  have htimer : t.timer.filter (·.serial = c.routine) = none :=
    Option.filter_eq_none_iff.2 fun r hr he => h ⟨r, mem_held.2 (.inl hr), of_decide_eq_true he⟩
  have hauto : t.autoPlay.filter (·.serial = c.routine) = none :=
    Option.filter_eq_none_iff.2 fun r hr he => h ⟨r, mem_held.2 (.inr hr), of_decide_eq_true he⟩
  rw [Tutor.fire, htimer, hauto]

/-- Every move keeps the routines and the agenda in step. -/
theorem Clocked.move (h : t.Clocked) (hm : t.Move t') : Beat t t' := by
  cases hm with
  | ask asks =>
    obtain ⟨rearranged, asked⟩ := asks
    have hbeat := h.rearranged rearranged
    exact hbeat.trans (hbeat.clocked.apply rearranged.fresh asked)
  | goTo gone => exact h.goToDatum gone
  | ring rearranged waits =>
    have hbeat := h.rearranged rearranged
    exact hbeat.trans (hbeat.clocked.ring rearranged.fresh waits)
  | late known stopped =>
    rw [fire_of_not_owns stopped]
    exact h.same rfl rfl rfl rfl h.playing

/-- So does a run. -/
theorem Clocked.leads (h : t.Clocked) (hl : t.Leads t') : Beat t t' := by
  induction hl with
  | refl => exact h.same rfl rfl rfl rfl h.playing
  | tail _ hm ih => exact ih.trans (ih.clocked.move hm)

end

end Tutor

end EquationStudio
