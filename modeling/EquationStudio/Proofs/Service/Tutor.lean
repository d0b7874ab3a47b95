import EquationStudio.Lesson.Catalog
import EquationStudio.Proofs.Tutor.Phase
import EquationStudio.Service.Basic

/-!
# The tutor of a session

The tutor of a session has one lesson of the catalog and plays nothing by itself (`Tutor.Teaches`).
Whatever a session is asked, its tutor does not fail (`Tutor.Serves`), and what it does and makes
known does not depend on what has been collected from it before: with earlier events put back in
front (`Tutor.recalling`) it answers the same and adds the same events. So a tutor from which
everything is collected after each answer makes known, piece by piece, what an undisturbed tutor
makes known altogether.
-/

namespace EquationStudio

/-- The notice that an event is, if it is one. -/
def Event.notice? : Event → Option Notice
  | .notice n => some n
  | .entry _ => none

/-- A notifier that records keeps the notices among the events, in order. -/
theorem Notifier.kept_recording (events : List Event) :
    (Notifier.recording.handle events).kept = events.filterMap Event.notice? := by
  induction events using List.reverseRecOn with
  | nil => rfl
  | append_singleton events e ih =>
    rw [List.filterMap_append, ← ih, Notifier.handle, List.foldl_append]
    cases e with
    | entry e => rfl
    | notice n => rfl

namespace Tutor

/-! ## Events put back -/

/-- The tutor with earlier events in front of what it has made known. -/
def recalling (t : Tutor) (es : List Event) : Tutor := { t with events := es ++ t.events }

section
variable (t : Tutor) (es : List Event)

/-- A notice comes after the earlier events. -/
theorem notify_recalling (message : String) (level : Level) :
    (t.recalling es).notify message level = (t.notify message level).recalling es := by
  simp [notify, recalling]

/-- So does an entry in the journal. -/
theorem log_recalling (message : String) :
    (t.recalling es).log message = (t.log message).recalling es := by
  simp [log, recalling]

/-- Stopping to play does not depend on earlier events. -/
theorem stopAutoPlay_recalling : (t.recalling es).stopAutoPlay = t.stopAutoPlay.recalling es := by
  have hauto : (t.recalling es).autoPlay = t.autoPlay := rfl
  unfold stopAutoPlay
  rw [hauto]
  cases t.autoPlay with
  | none => rfl
  | some routine =>
    exact notify_recalling { t with autoPlay := none, agenda := (routine.stop t.agenda).2 } es _ _

/-- Nor does completing the lesson. -/
theorem complete_recalling (a : Attempt) :
    (t.recalling es).complete a = (t.complete a).recalling es := by
  have hstop := stopAutoPlay_recalling { t with phase := .completed } es
  unfold complete
  rw [show ({ t.recalling es with phase := .completed } : Tutor).stopAutoPlay = _ from hstop]
  generalize ({ t with phase := .completed } : Tutor).stopAutoPlay = u
  have hlesson : (u.recalling es).lesson? = u.lesson? := rfl
  dsimp only
  rw [hlesson]
  cases u.lesson? with
  | none => rfl
  | some l =>
    dsimp only
    rw [log_recalling, notify_recalling]

/-- Nor does going on to the next step. -/
theorem advance_recalling : (t.recalling es).advance = t.advance.recalling es := by
  have hrunning : (t.recalling es).running? = t.running? := rfl
  unfold advance
  rw [hrunning]
  cases t.running? with
  | none => rfl
  | some a =>
    dsimp only
    split
    · exact complete_recalling { t with attempt? := some a.advance } es _
    · rfl

/-- Nor does putting the lesson aside. -/
theorem reset_recalling : (t.recalling es).reset = t.reset.recalling es := by
  unfold reset
  rw [stopAutoPlay_recalling]
  exact notify_recalling { t.stopAutoPlay with attempt? := none, phase := .idle } es _ _

/-- Nor does a hint, which is given in the same words. -/
theorem requestHint_recalling :
    (t.recalling es).requestHint = (t.requestHint.1, t.requestHint.2.recalling es) := by
  have hphase : (t.recalling es).phase = t.phase := rfl
  have hattempt : (t.recalling es).attempt? = t.attempt? := rfl
  have hlesson : (t.recalling es).lesson? = t.lesson? := rfl
  unfold requestHint
  rw [hphase, hattempt, hlesson]
  split
  · rfl
  · split
    · next a l _ _ =>
      dsimp only
      split
      · exact congrArg (Prod.mk _) (notify_recalling { t with attempt? := some a.countHint } es _ _)
      · rfl
    · rfl

end

/-- A number of milliseconds from zero on is spent on the attempt in progress. -/
theorem tick_int (t : Tutor) (ms : Nat) : t.tick (.int ms) = .ok (match t.running? with
    | none => t
    | some a => { t with attempt? := some (a.spend ms) }) := by
  have hzero : isBelowZero (.whole ms) = false := by simp [isBelowZero]
  unfold tick
  simp only [Datum.quantity?, hzero]
  cases t.running? with
  | none => rfl
  | some a => rfl

/-! ## A lesson of the catalog -/

/-- The tutor of a session with a lesson. -/
structure Teaches (l : Lesson) (t : Tutor) : Prop where
  lesson : t.lesson? = some l
  /-- It does not play by itself. -/
  quiet : t.autoPlay = none
  agrees : t.view.Agrees

/-- Only loading a lesson and dismissing the tutor change the lesson. -/
theorem Step.lesson?_eq {op : Op} {v v' : View} (hs : Step op v v') (hload : op.loaded? = none)
    (hdestroy : op ≠ .destroy) : v'.lesson? = v.lesson? := by
  cases hs with
  | load accepted => cases hload.symm.trans accepted
  | destroy asked => exact absurd asked hdestroy
  | stay | reset | spend | back | jump | next | complete => rfl

namespace Teaches

variable {l : Lesson} {t : Tutor}

/-- A lesson that has been loaded is taught. -/
theorem load (l : Lesson) : (Tutor.load {} l).Teaches l :=
  ⟨rfl, rfl, (apply_step {} (.load l)).agrees agrees_new⟩

/-- An operation that neither loads a lesson nor dismisses the tutor, nor sets it to play. -/
theorem apply (h : t.Teaches l) {op : Op} (hload : op.loaded? = none) (hdestroy : op ≠ .destroy)
    (hquiet : (t.apply op).autoPlay = none) : (t.apply op).Teaches l :=
  ⟨((apply_step t op).lesson?_eq hload hdestroy).trans h.lesson, hquiet,
    (apply_step t op).agrees h.agrees⟩

/-- What has been made known does not matter. -/
theorem collected (h : t.Teaches l) (events : List Event) : Teaches l { t with events } :=
  ⟨h.lesson, h.quiet, h.agrees.idle, h.agrees.lesson, h.agrees.counted, h.agrees.index⟩

end Teaches

/-- Nothing is stopped where nothing plays by itself. -/
theorem stopAutoPlay_quiet {t : Tutor} (h : t.autoPlay = none) : t.stopAutoPlay = t := by
  rw [stopAutoPlay, h]

/-- Dismissing a tutor that does not play by itself makes nothing known. -/
theorem destroy_quiet {t : Tutor} (h : t.autoPlay = none) :
    t.destroy.events = t.events ∧ t.destroy.autoPlay = none := by
  have htimer : t.stopTimer.events = t.events ∧ t.stopTimer.autoPlay = none := by
    unfold stopTimer
    split
    · exact ⟨rfl, h⟩
    · exact ⟨rfl, h⟩
  rw [destroy, stopAutoPlay_quiet htimer.2]
  exact htimer

/-- Every step of a lesson of the catalog has a hint. -/
theorem hint_catalog {l : Lesson} (hl : l ∈ Catalog.lessons) {s : EquationStudio.Step}
    (hs : s ∈ l.steps) (number : Nat) : ∃ hint, s.hint number = .ok hint := by
  have hall : ∀ l ∈ Catalog.lessons, ∀ s ∈ l.steps, (s.action.nudge s.operand).toBool = true := by
    decide +kernel
  have hnudge := hall l hl s hs
  unfold Step.hint
  cases hn : s.action.nudge s.operand with
  | error fault => simp [hn, Except.toBool] at hnudge
  | ok nudge => exact ⟨_, rfl⟩

/-! ## What a session is asked -/

/-- What a session asks of its tutor comes to an operation, or leaves the tutor as it is. It keeps
the lesson, sets nothing to play by itself, succeeds with every lesson of the catalog, and does not
depend on what has been collected before. -/
structure Serves (f : Tutor → Except Fault (Option Hint) × Tutor) (op? : Option Op) : Prop where
  after : ∀ t, (f t).2 = op?.elim t t.apply
  keeps : ∀ op ∈ op?, op.loaded? = none ∧ op ≠ .destroy
  quiet : ∀ t : Tutor, t.autoPlay = none → (f t).2.autoPlay = none
  answers : ∀ l ∈ Catalog.lessons, ∀ t, Teaches l t → ∃ hint, (f t).1 = .ok hint
  recalling : ∀ t es, f (t.recalling es) = ((f t).1, (f t).2.recalling es)

/-- The lesson goes on being taught. -/
theorem Serves.teaches {f : Tutor → Except Fault (Option Hint) × Tutor} {op? : Option Op}
    (hf : Serves f op?) {l : Lesson} {t : Tutor} (h : t.Teaches l) : Teaches l (f t).2 := by
  have hquiet := hf.quiet t h.quiet
  rw [hf.after] at hquiet ⊢
  cases op? with
  | none => exact h
  | some op => exact h.apply (hf.keeps op rfl).1 (hf.keeps op rfl).2 hquiet

/-- Where everything has been collected before, the same is answered, and what is made known is what
comes to it where nothing has been. -/
theorem Serves.collected {f : Tutor → Except Fault (Option Hint) × Tutor} {op? : Option Op}
    (hf : Serves f op?) {l : Lesson} (hl : l ∈ Catalog.lessons) {t t' : Tutor} (h : t.Teaches l)
    (hafter : t' = op?.elim t t.apply) : t'.Teaches l ∧ ∃ hint events,
      f t.collect.2 = (.ok hint, { t' with events }) ∧ t'.events = t.events ++ events := by
  have hsplit : t.collect.2.recalling t.events = t := by
    show ({ t with events := t.events ++ [] } : Tutor) = t
    rw [List.append_nil]
  obtain ⟨hint, hanswer⟩ := hf.answers l hl _ (h.collected [])
  have hsecond : t' = (f t.collect.2).2.recalling t.events := by
    have hrecalling := congrArg Prod.snd (hf.recalling t.collect.2 t.events)
    rwa [hsplit, hf.after, ← hafter] at hrecalling
  refine ⟨?_, hint, (f t.collect.2).2.events, Prod.ext hanswer ?_, ?_⟩
  · rw [hafter, ← hf.after]
    exact hf.teaches h
  · rw [hsecond]
    rfl
  · rw [hsecond]
    rfl

/-- Looking at a session. -/
theorem serves_view : Serves (fun t => (.ok none, t)) none :=
  ⟨fun _ => rfl, nofun, fun _ h => h, fun _ _ _ _ => ⟨_, rfl⟩, fun _ _ => rfl⟩

/-- Going on to the next step. -/
theorem serves_advance : Serves (fun t => (.ok none, t.advance)) (some .advance) where
  after _ := rfl
  keeps := by
    rintro _ ⟨⟩
    exact ⟨rfl, nofun⟩
  quiet t h := by
    show t.advance.autoPlay = none
    unfold advance
    split
    · exact h
    · next a _ =>
      dsimp only
      split
      · have hdone : ({ t with attempt? := some a.advance, phase := .completed }
            : Tutor).stopAutoPlay =
            { t with attempt? := some a.advance, phase := .completed } := stopAutoPlay_quiet h
        rw [complete, hdone]
        dsimp only
        split <;> exact h
      · exact h
  answers _ _ _ _ := ⟨_, rfl⟩
  recalling t es := by rw [advance_recalling]

/-- Asking for a hint. -/
theorem serves_hint : Serves requestHint (some .hint) where
  after _ := rfl
  keeps := by
    rintro _ ⟨⟩
    exact ⟨rfl, nofun⟩
  quiet t h := by
    unfold requestHint
    split
    · exact h
    · split
      · dsimp only
        split <;> exact h
      · exact h
  answers l hl t h := by
    have hcoherent := h.agrees.coherent
    cases ha : t.attempt? with
    | none => exact ⟨none, congrArg Prod.fst (hcoherent.silent ha).2.2.1⟩
    | some a =>
      obtain ⟨hlt, heq⟩ := hcoherent.hint l a h.lesson ha
      obtain ⟨hint, hhint⟩ :=
        hint_catalog hl (List.getElem_mem hlt) (min a.index (l.length - 1) + 1)
      exact ⟨some hint, by rw [heq, hhint]; rfl⟩
  recalling t es := requestHint_recalling t es

/-- Putting the lesson aside. -/
theorem serves_reset : Serves (fun t => (.ok none, t.reset)) (some .reset) where
  after _ := rfl
  keeps := by
    rintro _ ⟨⟩
    exact ⟨rfl, nofun⟩
  quiet t h := by
    show t.reset.autoPlay = none
    rw [reset, stopAutoPlay_quiet h]
    exact h
  answers _ _ _ _ := ⟨_, rfl⟩
  recalling t es := by rw [reset_recalling]

/-- Letting time pass. -/
theorem serves_passTime (ms : Nat) : Serves (Service.passTime ms) (some (.tick (.int ms))) where
  after t := by
    show _ = t.after (t.tick (.int ms))
    rw [Service.passTime, tick_int]
    rfl
  keeps := by
    rintro _ ⟨⟩
    exact ⟨rfl, nofun⟩
  quiet t h := by
    rw [Service.passTime, tick_int]
    dsimp only
    split <;> exact h
  answers _ _ t _ := by
    rw [Service.passTime, tick_int]
    exact ⟨_, rfl⟩
  recalling t es := by
    have hrunning : (t.recalling es).running? = t.running? := rfl
    rw [Service.passTime, Service.passTime, tick_int, tick_int, hrunning]
    cases t.running? <;> rfl

end Tutor

end EquationStudio
