import EquationStudio.Proofs.Basic
import EquationStudio.Tutor.Play

/-!
# Runs of a tutor

A `Tutor.Op` is one of the tutor's operations together with its arguments, or a call from a
scheduler, and `Tutor.apply` is what becomes of the tutor, whether the operation is carried out or
refused.

`Tutor.Step` says once all that an operation can do to a session (`Tutor.View`: the lesson, the
attempt, the phase, and how often a completion was made known), with the conditions under which it
does it; `Tutor.apply_step` proves that no operation does anything else. The routines that drive a
tutor do not occur in it: a call from a scheduler lets time pass, or takes the student one step
further. Calls may come at any time, to any routine; those of the agenda (`Tutor.runNext_eq`,
`Tutor.runLate_eq`) are cases.
-/

namespace EquationStudio

/-- A notice that a lesson is completed. -/
def Event.isCompletion : Event → Bool
  | .notice n => "Congratulations! You completed \"".toList.isPrefixOf n.message.toList
  | .entry _ => false

namespace Tutor

/-! ## Operations -/

/-- An operation of a tutor with its arguments. -/
inductive Op where
  | load (lesson : Lesson)
  | loadRecord (record : Datum)
  /-- A lesson is put together from its parts, whose steps may be refused, and loaded. -/
  | loadParts (id name equation : String) (difficulty : Difficulty) (topic : String)
    (steps : OfferedSteps)
  | advance
  | previous
  | goTo (index : Int)
  | hint
  | reset
  | tick (ms : Datum)
  | startTimer (interval : Datum)
  | stopTimer
  | startAutoPlay (interval : Datum)
  | stopAutoPlay
  | destroy
  /-- A call from a scheduler, to any routine in any generation, whatever the agenda has come to. -/
  | call (agenda : Agenda Callback) (c : Callback)

/-- The lesson that an operation loads, if it loads one and that is not refused. -/
def Op.loaded? : Op → Option Lesson
  | load lesson => some lesson
  | loadRecord (.record fields) => (Lesson.ofRecord (.record fields)).toOption
  | loadParts id name equation difficulty topic steps =>
    (Lesson.assemble id name equation difficulty topic steps).toOption
  | _ => none

/-- The tutor after a request that may be refused: a refused one changes nothing. -/
def after (t : Tutor) : Except Fault Tutor → Tutor
  | .ok t' => t'
  | .error _ => t

/-- What an operation makes of a tutor, carried out or refused. -/
def apply (t : Tutor) : Op → Tutor
  | .load lesson => t.load lesson
  | .loadRecord record => t.after (t.loadRecord record)
  | .loadParts id name equation difficulty topic steps =>
    t.after ((Lesson.assemble id name equation difficulty topic steps).map t.load)
  | .advance => t.advance
  | .previous => t.previous.2
  | .goTo index => (t.goTo index).2
  | .hint => t.requestHint.2
  | .reset => t.reset
  | .tick ms => t.after (t.tick ms)
  | .startTimer interval => (t.startTimer interval).2
  | .stopTimer => t.stopTimer
  | .startAutoPlay interval => t.after ((t.startAutoPlay interval).map Prod.snd)
  | .stopAutoPlay => t.stopAutoPlay
  | .destroy => t.destroy
  | .call agenda c => ({ t with agenda }.fire c).2

/-- A call that waits on the agenda is among the operations. -/
theorem runNext_eq (t : Tutor) :
    t.runNext.2 = t ∨ ∃ agenda c, t.runNext.2 = t.apply (.call agenda c) := by
  unfold runNext
  split
  · exact .inl rfl
  · next p agenda _ => exact .inr ⟨agenda, p.call, rfl⟩

/-- A call that comes late is among the operations. -/
theorem runLate_eq (t : Tutor) (handle : Nat) :
    (t.runLate handle).2 = t ∨ ∃ agenda c, (t.runLate handle).2 = t.apply (.call agenda c) := by
  unfold runLate
  split
  · exact .inl rfl
  · next p _ => exact .inr ⟨t.agenda, p.call, rfl⟩

/-- The tutor at the end of a run of operations of a new one. -/
def run (ops : List Op) : Tutor := ops.foldl apply {}

/-! ## Steps -/

/-- How often a completion was made known. -/
def completions (t : Tutor) : Nat := t.events.countP Event.isCompletion

/-- What a session has come to. -/
structure View where
  lesson? : Option Lesson
  attempt? : Option Attempt
  phase : Phase
  completions : Nat

/-- What the session with a tutor has come to. -/
def view (t : Tutor) : View := ⟨t.lesson?, t.attempt?, t.phase, t.completions⟩

/-- All that an operation can do to a session. -/
inductive Step (op : Op) (v : View) : View → Prop
  | stay : Step op v v
  | load {l : Lesson} (accepted : op.loaded? = some l) :
      Step op v ⟨some l, some { total := l.length }, .inProgress, v.completions⟩
  | reset (asked : op = .reset) : Step op v { v with attempt? := none, phase := .idle }
  | destroy (asked : op = .destroy) : Step op v ⟨none, none, .idle, v.completions⟩
  | spend {a : Attempt} (held : v.attempt? = some a) (hints ms : Nat) :
      Step op v { v with
        attempt? := some { a with hints := a.hints + hints, elapsed := a.elapsed + ms } }
  | back {a a' : Attempt} (running : v.phase = .inProgress) (held : v.attempt? = some a)
      (before : a.previous? = some a') : Step op v { v with attempt? := some a' }
  | jump {a a' : Attempt} (running : v.phase = .inProgress) (held : v.attempt? = some a)
      {index : Int} (there : a.at? index = some a') : Step op v { v with attempt? := some a' }
  | next {a : Attempt} (running : v.phase = .inProgress) (held : v.attempt? = some a)
      (more : a.advance.isCompleted = false) : Step op v { v with attempt? := some a.advance }
  | complete {a : Attempt} (running : v.phase = .inProgress) (held : v.attempt? = some a)
      (last : a.advance.isCompleted = true) :
      Step op v { v with
        attempt? := some a.advance, phase := .completed,
        completions := v.completions + if v.lesson?.isSome then 1 else 0 }

/-! ## Making known -/

section
variable {t : Tutor}

/-- A notice counts if it is that of a completion. -/
theorem view_notify (message : String) (level : Level) :
    (t.notify message level).view = { t.view with
      completions := t.completions +
        if (Event.notice ⟨message, level⟩).isCompletion then 1 else 0 } := by
  simp [view, notify, completions, List.countP_append, List.countP_singleton]

/-- A notice that does not congratulate does not count. -/
theorem view_notify_of_ne {message : String} (level : Level)
    (h : message.toList.head? ≠ some 'C') : (t.notify message level).view = t.view := by
  have hno : ¬ (Event.notice ⟨message, level⟩).isCompletion = true := by
    intro hc
    have hprefix : "Congratulations! You completed \"".toList <+: message.toList :=
      List.isPrefixOf_iff_prefix.1 hc
    obtain ⟨rest, hrest⟩ := hprefix
    exact h (by rw [← hrest]; rfl)
  rw [view_notify, if_neg hno]
  rfl

/-- What is entered in the journal does not count. -/
theorem view_log (message : String) : (t.log message).view = t.view := by
  simp [view, log, completions, List.countP_append, Event.isCompletion]

/-- Stopping the timer leaves the session. -/
theorem view_stopTimer : t.stopTimer.view = t.view := by
  unfold stopTimer
  split <;> rfl

/-- Stopping to play leaves the session. -/
theorem view_stopAutoPlay : t.stopAutoPlay.view = t.view := by
  unfold stopAutoPlay
  split
  · rfl
  · exact view_notify_of_ne .info (by decide)

end

/-! ## Every operation is a step -/

section
variable {t : Tutor} {op : Op}

/-- A request that is carried out by a step, or refused, is a step. -/
theorem Step.after {r : Except Fault Tutor} (h : ∀ t', r = .ok t' → Step op t.view t'.view) :
    Step op t.view (t.after r).view := by
  match r, h with
  | .ok t', h => exact h t' rfl
  | .error _, _ => exact .stay

/-- A tutor that shows the same session. -/
theorem Step.of_view_eq {t' : Tutor} (h : t'.view = t.view) : Step op t.view t'.view :=
  h ▸ .stay

/-- The attempt that is in progress. -/
theorem running?_eq_some {a : Attempt} (h : t.running? = some a) :
    t.phase = .inProgress ∧ t.attempt? = some a := by
  unfold running? at h
  split at h
  · next hrunning => exact ⟨hrunning, h⟩
  · cases h

/-- Loading a lesson starts an attempt. -/
theorem view_load (l : Lesson) : (t.load l).view =
    ⟨some l, some { total := l.length }, .inProgress, t.completions⟩ := by
  have hstop : t.stopAutoPlay.completions = t.completions :=
    congrArg View.completions view_stopAutoPlay
  unfold load
  rw [view_notify_of_ne .success (by simp [toString, String.toList_append]), view_log]
  exact congrArg (View.mk _ _ _) hstop

/-- A lesson that is accepted is loaded, and a refused one changes nothing. -/
theorem loadRecord_step (record : Datum) :
    Step (.loadRecord record) t.view (t.after (t.loadRecord record)).view := by
  refine .after fun t' h => ?_
  unfold loadRecord at h
  split at h
  · next fields =>
    obtain ⟨l, hl, h⟩ := ok_of_bind h
    cases h
    rw [view_load]
    exact .load (by rw [Op.loaded?, hl]; rfl)
  · cases h

/-- The completion of a lesson is made known once. -/
theorem view_complete (a : Attempt) : (t.complete a).view = { t.view with
    phase := .completed,
    completions := t.completions + if t.lesson?.isSome then 1 else 0 } := by
  have hstop : ({ t with phase := .completed } : Tutor).stopAutoPlay.view =
      { t.view with phase := .completed } := view_stopAutoPlay
  unfold complete
  generalize ({ t with phase := .completed } : Tutor).stopAutoPlay = u at hstop
  have hlesson : u.lesson? = t.lesson? := congrArg View.lesson? hstop
  have hcompletions : u.completions = t.completions := congrArg View.completions hstop
  dsimp only
  rw [hlesson]
  split
  · next hnone => rw [hstop, hnone]; rfl
  · next l hl =>
    have hcongratulates : (Event.notice ⟨s!"Congratulations! You completed \"{l.name}\"",
        .success⟩).isCompletion = true :=
      List.isPrefixOf_iff_prefix.2 ⟨(l.name ++ "\"").toList,
        by simp [toString, String.toList_append]⟩
    have hlog := view_log (t := u) s!"Completed sequence {l.id}: {a.hints} hints, {a.elapsed} ms"
    rw [view_notify, hlog, hstop, if_pos hcongratulates, hl]
    exact congrArg (View.mk _ _ _) (congrArg (· + 1)
      ((congrArg View.completions hlog).trans hcompletions))

/-- One more step. The last one completes the lesson. -/
theorem advance_step : Step op t.view t.advance.view := by
  unfold advance
  split
  · exact .stay
  · next a ha =>
    obtain ⟨hrunning, hheld⟩ := running?_eq_some ha
    dsimp only
    split
    · next hlast =>
      rw [view_complete]
      exact .complete hrunning hheld hlast
    · next hmore => exact .next hrunning hheld (Bool.not_eq_true _ ▸ hmore)

/-- Going back one step, unless the student is at the first. -/
theorem previous_step : Step op t.view t.previous.2.view := by
  unfold previous
  split
  · exact .of_view_eq (view_notify_of_ne .error (by decide))
  · next a ha =>
    obtain ⟨hrunning, hheld⟩ := running?_eq_some ha
    split
    · exact .of_view_eq (view_notify_of_ne .warning (by decide))
    · next a' ha' => exact .back hrunning hheld ha'

/-- Going to a step, unless there is no such step. -/
theorem goTo_step (index : Int) : Step op t.view (t.goTo index).2.view := by
  unfold goTo
  split
  · exact .of_view_eq (view_notify_of_ne .error (by decide))
  · next a ha =>
    obtain ⟨hrunning, hheld⟩ := running?_eq_some ha
    cases ha' : a.at? index with
    | none => exact .of_view_eq (view_notify_of_ne .error (by decide))
    | some a' => exact .jump hrunning hheld ha'

/-- A hint that was asked for is counted. -/
theorem requestHint_step : Step op t.view t.requestHint.2.view := by
  unfold requestHint
  split
  · exact .stay
  · split
    · next a l ha hl =>
      dsimp only
      split
      · next hint _ =>
        rw [view_notify_of_ne .info (by simp [toString, String.toList_append])]
        exact .spend ha 1 0
      · exact .spend ha 1 0
    · exact .stay

/-- Time that passes is counted. -/
theorem tick_step (ms : Datum) : Step op t.view (t.after (t.tick ms)).view := by
  refine .after fun t' h => ?_
  unfold tick at h
  split at h
  · cases h
  · split at h
    · cases h
    · split at h
      · cases h; exact .stay
      · next a ha =>
        obtain ⟨spent, -, h⟩ := ok_of_bind h
        cases h
        exact .spend (running?_eq_some ha).2 0 spent

/-- A reset puts the attempt aside. -/
theorem view_reset : t.reset.view = { t.view with attempt? := none, phase := .idle } := by
  have hstop : t.stopAutoPlay.view = t.view := view_stopAutoPlay
  unfold reset
  rw [view_notify_of_ne .info (by decide)]
  exact congrArg (fun v : View => { v with attempt? := none, phase := .idle }) hstop

/-- Dismissing the tutor leaves neither a lesson nor an attempt. -/
theorem view_destroy : t.destroy.view = ⟨none, none, .idle, t.completions⟩ := by
  have hstop : t.stopTimer.stopAutoPlay.view = t.view := view_stopAutoPlay.trans view_stopTimer
  exact congrArg (fun v : View => View.mk none none .idle v.completions) hstop

/-- Starting the timer leaves the session. -/
theorem view_startTimer (interval : Datum) : (t.startTimer interval).2.view = t.view := by
  unfold startTimer
  dsimp only
  split <;> exact view_stopTimer

/-- Starting to play leaves the session. -/
theorem startAutoPlay_step (interval : Datum) :
    Step op t.view (t.after ((t.startAutoPlay interval).map Prod.snd)).view := by
  unfold startAutoPlay
  split
  · exact .stay
  · cases Routine.create (ι := Nat) t.routines interval with
    | error fault => exact .stay
    | ok routine =>
      exact .of_view_eq (view_notify_of_ne (t := { t with
        autoPlay := some (routine.start t.agenda).1, routines := t.routines + 1,
        agenda := (routine.start t.agenda).2 }) .info (by decide))

/-- A call to the timer lets time pass, or does nothing. -/
theorem fireTimer_step (routine : Routine Nat) (generation : Nat) :
    Step op t.view (t.fireTimer routine generation).2.view := by
  unfold fireTimer
  rcases routine.fire t.agenda generation with ⟨acts, routine, agenda⟩
  cases acts with
  | false => exact .stay
  | true =>
    have htick : Step op t.view (({ t with timer := some routine, agenda } : Tutor).after
        (({ t with timer := some routine, agenda } : Tutor).tick routine.interval)).view :=
      tick_step (t := { t with timer := some routine, agenda }) routine.interval
    simp only [if_true]
    split
    · next h => rwa [h] at htick
    · exact .stay

/-- A call to the auto-play takes the student one step further, or does nothing. -/
theorem fireAutoPlay_step (routine : Routine Nat) (generation : Nat) :
    Step op t.view (t.fireAutoPlay routine generation).view := by
  unfold fireAutoPlay
  rcases routine.fire t.agenda generation with ⟨acts, routine, agenda⟩
  cases acts with
  | false => exact .stay
  | true => exact advance_step (t := { t with autoPlay := some routine, agenda })

/-- A call from a scheduler is a step. -/
theorem fire_step (c : Callback) : Step op t.view (t.fire c).2.view := by
  unfold fire
  split
  · exact fireTimer_step _ _
  · exact fireAutoPlay_step _ _
  · exact .stay

/-- An operation is a step. -/
theorem apply_step (t : Tutor) (op : Op) : Step op t.view (t.apply op).view := by
  cases op with
  | load lesson =>
    rw [apply, view_load]
    exact .load rfl
  | loadRecord record => exact loadRecord_step record
  | loadParts id name equation difficulty topic steps =>
    refine .after fun t' h => ?_
    cases hl : Lesson.assemble id name equation difficulty topic steps with
    | error fault => rw [hl] at h; cases h
    | ok l =>
      rw [hl] at h
      cases h
      rw [view_load]
      exact .load (by rw [Op.loaded?, hl]; rfl)
  | advance => exact advance_step
  | previous => exact previous_step
  | goTo index => exact goTo_step index
  | hint => exact requestHint_step
  | reset =>
    rw [apply, view_reset]
    exact .reset rfl
  | tick ms => exact tick_step ms
  | startTimer interval => exact .of_view_eq (view_startTimer interval)
  | stopTimer => exact .of_view_eq view_stopTimer
  | startAutoPlay interval => exact startAutoPlay_step interval
  | stopAutoPlay => exact .of_view_eq view_stopAutoPlay
  | destroy =>
    rw [apply, view_destroy]
    exact .destroy rfl
  | call agenda c => exact fire_step (t := { t with agenda }) c

end

end Tutor

end EquationStudio
