import EquationStudio.Proofs.Tutor.Step
import EquationStudio.Tutor.Report

/-!
# The phases of a tutor

The phase of a tutor is kept beside the attempt whose state it tells. `Tutor.View.Agrees` says how
the two agree; every step preserves it (`Tutor.Step.agrees`). Since a step goes from one phase to
another in few ways only (`Tutor.Step.completions_eq`, `Tutor.Step.leaves`,
`Tutor.Step.pending_le`), a completion is made known once for each lesson that is completed.
`Tutor.run_coherent` states what follows of all that a tutor shows, after every run.
-/

namespace EquationStudio

namespace Attempt

variable {a a' : Attempt}

/-- An attempt with an integer for its index has no double there. -/
theorem double?_of_counted (h : a.uncounted? = none) : a.double? = none := by
  rw [double?, h]

/-- One step further, the index is one more. -/
theorem advance_of_counted (h : a.uncounted? = none) :
    a.advance = { a with index := a.index + 1, uncounted? := none } := by
  rw [advance, double?_of_counted h]

/-- One step back, the index is one less, and it was not zero. -/
theorem previous?_eq_some (h : a.uncounted? = none) (hbefore : a.previous? = some a') :
    0 < a.index ∧ a' = { a with index := a.index - 1, uncounted? := none } := by
  rw [previous?, double?_of_counted h] at hbefore
  dsimp only at hbefore
  split at hbefore
  · next hpos =>
    cases hbefore
    exact ⟨hpos, rfl⟩
  · cases hbefore

/-- A step to which one goes is one of the lesson. -/
theorem at?_eq_some {index : Int} (h : a.at? index = some a') :
    index.toNat < a.total ∧ a' = { a with index := index.toNat, uncounted? := none } := by
  unfold at? at h
  split at h
  · next hin =>
    cases h
    exact ⟨(Int.toNat_lt hin.1).2 hin.2, rfl⟩
  · cases h

end Attempt

namespace Tutor

/-! ## What steps preserve -/

/-- How the phase of a session agrees with the attempt and the lesson, as long as all steps to which
the student went were given by integers. -/
structure View.Agrees (v : View) : Prop where
  idle : v.phase = .idle ↔ v.attempt? = none
  lesson : ∀ a, v.attempt? = some a → ∃ l, v.lesson? = some l ∧ a.total = l.length
  counted : ∀ a, v.attempt? = some a → a.uncounted? = none
  index : ∀ a, v.attempt? = some a → a.index ≤ a.total ∧ (v.phase = .completed ↔ a.index = a.total)

/-- The completions that a session can still come to without a further load. -/
def View.pending (v : View) : Nat := if v.phase = .inProgress then 1 else 0

section
variable {op : Op} {v v' : View}

/-- An attempt in progress has steps left. -/
theorem View.Agrees.index_lt (h : v.Agrees) {a : Attempt} (hrunning : v.phase = .inProgress)
    (hheld : v.attempt? = some a) : a.index < a.total := by
  obtain ⟨hle, hcompleted⟩ := h.index a hheld
  refine Nat.lt_of_le_of_ne hle fun he => ?_
  rw [hcompleted.2 he] at hrunning
  cases hrunning

/-- An attempt in progress is still in progress at a step of its lesson. -/
theorem View.Agrees.moved (h : v.Agrees) {a a' : Attempt} (hrunning : v.phase = .inProgress)
    (hheld : v.attempt? = some a) (htotal : a'.total = a.total) (hcounted : a'.uncounted? = none)
    (hindex : a'.index < a.total) : View.Agrees { v with attempt? := some a' } where
  idle := by simp [hrunning]
  lesson := by
    rintro _ ⟨⟩
    rw [htotal]
    exact h.lesson a hheld
  counted := by
    rintro _ ⟨⟩
    exact hcounted
  index := by
    rintro _ ⟨⟩
    rw [htotal]
    exact ⟨Nat.le_of_lt hindex, by simp [hrunning, Nat.ne_of_lt hindex]⟩

/-- A step keeps the phase in agreement with the attempt. -/
theorem Step.agrees (h : v.Agrees) (hs : Step op v v') : v'.Agrees := by
  cases hs with
  | stay => exact h
  | @load l accepted =>
    refine ⟨by simp, ?_, ?_, ?_⟩
    · rintro _ ⟨⟩
      exact ⟨l, rfl, rfl⟩
    · rintro _ ⟨⟩
      rfl
    · rintro _ ⟨⟩
      exact ⟨Nat.zero_le _, by simpa using (Nat.ne_of_gt l.length_pos).symm⟩
  | reset | destroy => exact ⟨by simp, nofun, nofun, nofun⟩
  | @spend a held hints ms =>
    refine ⟨by simp [h.idle, held], ?_, ?_, ?_⟩
    · rintro _ ⟨⟩
      exact h.lesson a held
    · rintro _ ⟨⟩
      exact h.counted a held
    · rintro _ ⟨⟩
      exact h.index a held
  | back running held before =>
    obtain ⟨-, rfl⟩ := Attempt.previous?_eq_some (h.counted _ held) before
    exact h.moved running held rfl rfl
      (Nat.lt_of_le_of_lt (Nat.sub_le _ _) (h.index_lt running held))
  | jump running held there =>
    obtain ⟨hbelow, rfl⟩ := Attempt.at?_eq_some there
    exact h.moved running held rfl rfl hbelow
  | next running held more =>
    rw [Attempt.advance_of_counted (h.counted _ held)] at more ⊢
    have hmore := of_decide_eq_false more
    exact h.moved running held rfl rfl (Nat.lt_of_le_of_ne (h.index_lt running held) hmore)
  | @complete a running held last =>
    rw [Attempt.advance_of_counted (h.counted a held)] at last ⊢
    have hlast : a.index + 1 = a.total := of_decide_eq_true last
    refine ⟨by simp, ?_, ?_, ?_⟩
    · rintro _ ⟨⟩
      exact h.lesson a held
    · rintro _ ⟨⟩
      rfl
    · rintro _ ⟨⟩
      exact ⟨Nat.le_of_eq hlast, by simpa using hlast⟩

/-- A completion is made known by the step to it, and by no other. -/
theorem Step.completions_eq (h : v.Agrees) (hs : Step op v v') :
    v'.completions =
      v.completions + if v.phase ≠ .completed ∧ v'.phase = .completed then 1 else 0 := by
  cases hs with
  | stay | spend | back | jump | next => simp
  | load | reset | destroy => simp
  | @complete a running held last =>
    obtain ⟨l, hl, -⟩ := h.lesson a held
    simp [running, hl]

/-- The only ways on from a completed lesson. -/
theorem Step.leaves (hs : Step op v v') (hcompleted : v.phase = .completed)
    (hleft : v'.phase ≠ .completed) : op.loaded?.isSome = true ∨ op = .reset ∨ op = .destroy := by
  cases hs with
  | stay | spend => exact absurd hcompleted hleft
  | load accepted => exact .inl (by rw [accepted]; rfl)
  | reset asked => exact .inr (.inl asked)
  | destroy asked => exact .inr (.inr asked)
  | back running | jump running | next running | complete running =>
    rw [running] at hcompleted
    cases hcompleted

/-- Completions that are made known were still to come, or are of a lesson that is loaded. -/
theorem Step.pending_le (hs : Step op v v') :
    v'.completions + v'.pending ≤
      v.completions + v.pending + if op.loaded?.isSome = true then 1 else 0 := by
  cases hs with
  | stay | spend | back | jump | next => exact Nat.le_add_right _ _
  | load accepted => simp [View.pending, accepted]
  | reset | destroy =>
    simp only [View.pending, reduceCtorEq, if_false]
    omega
  | complete running =>
    simp only [View.pending, running, reduceCtorEq, if_true, if_false]
    split <;> omega

end

/-! ## What a tutor shows -/

/-- What the answers of a tutor say of each other and of its lesson. -/
structure Coherent (t : Tutor) : Prop where
  /-- The tutor is idle exactly while there is no attempt. -/
  idle : t.phase = .idle ↔ t.attempt? = none
  /-- An attempt is at the lesson that is loaded, which has steps … -/
  lesson : ∀ a, t.attempt? = some a → ∃ l, t.lesson? = some l ∧ 1 ≤ l.length ∧ a.total = l.length
  /-- … and it is completed at their end, and in progress before. -/
  index : ∀ a, t.attempt? = some a → a.index ≤ a.total ∧
    (t.phase = .completed ↔ a.index = a.total) ∧ (t.phase = .inProgress ↔ a.index < a.total)
  /-- There are statistics of an attempt, and no number in them is negative. -/
  stats : ∀ a, t.attempt? = some a → ∃ fields, t.stats? = some (.record fields) ∧
    ∀ key n, (key, .int n) ∈ fields → 0 ≤ n
  /-- The next step of a lesson in progress is one of its steps. -/
  current : ∀ l a, t.lesson? = some l → t.attempt? = some a → t.currentStep? =
    if h : t.phase = .inProgress ∧ a.index < l.steps.length then some l.steps[a.index] else none
  /-- A hint is for the next step, and for the last one at the end. -/
  hint : ∀ l a, t.lesson? = some l → t.attempt? = some a →
    ∃ h : min a.index (l.length - 1) < l.steps.length,
      t.requestHint.1 = (l.steps[min a.index (l.length - 1)].hint
        (min a.index (l.length - 1) + 1)).map some
  /-- Steps are explained by their numbers, the next one if there is none given. -/
  explanation : ∀ l a, t.lesson? = some l → t.attempt? = some a → ∀ (d : Datum) (i : Int),
    d = .int i ∨ d = .null ∧ i = a.index → t.explanation? d =
      .ok (if h : 0 ≤ i ∧ i.toNat < l.steps.length then
        some (l.steps[i.toNat].explained (i.toNat + 1)) else none)
  /-- Without an attempt there is nothing to tell. -/
  silent : t.attempt? = none → t.stats? = none ∧ t.currentStep? = none ∧
    t.requestHint = (.ok none, t) ∧ ∀ d, t.explanation? d = .ok none

section
variable {t : Tutor} {l : Lesson} {a : Attempt}

/-- The next step is that at the index, while the lesson is in progress. -/
theorem currentStep?_eq (hl : t.lesson? = some l) (ha : t.attempt? = some a)
    (hcounted : a.uncounted? = none) :
    t.currentStep? =
      if h : t.phase = .inProgress ∧ a.index < l.steps.length then some l.steps[a.index]
      else none := by
  unfold currentStep? currentStep running?
  by_cases hrunning : t.phase = .inProgress
  · simp only [hrunning, if_true, ha, hl, Attempt.double?_of_counted hcounted, true_and]
    exact getElem?_def ..
  · simp [hrunning, Except.toOption]

/-- The hint that is asked for is one for the step that the student looks at. -/
theorem requestHint_eq (hphase : t.phase ≠ .idle) (hl : t.lesson? = some l)
    (ha : t.attempt? = some a) {i : Nat} (hlooked : a.lookedAt = .ok i) (h : i < l.steps.length) :
    t.requestHint.1 = (l.steps[i].hint (i + 1)).map some := by
  have hhint : a.lookedAt.bind l.hint = l.steps[i].hint (i + 1) := by
    rw [hlooked]
    show l.hint i = _
    rw [Lesson.hint, List.getElem?_eq_getElem h]
  unfold requestHint
  simp only [if_neg hphase, ha, hl, hhint]
  cases l.steps[i].hint (i + 1) <;> rfl

/-- An explanation that is asked for by a number is that of the step with the number, if there is
one; without a number it is that of the next step. -/
theorem explanation?_eq (hl : t.lesson? = some l) (ha : t.attempt? = some a)
    (hcounted : a.uncounted? = none) {d : Datum} {i : Int}
    (hd : d = .int i ∨ d = .null ∧ i = a.index) : t.explanation? d =
      .ok (if h : 0 ≤ i ∧ i.toNat < l.steps.length then
        some (l.steps[i.toNat].explained (i.toNat + 1)) else none) := by
  have hexplain : ∀ k, l.explain k = if h : k < l.steps.length then
      some (l.steps[k].explained (k + 1)) else none := by
    intro k
    rw [Lesson.explain, getElem?_def]
    split <;> rfl
  have hasked : (if d.isGiven then d else a.shownIndex) = .int i := by
    obtain rfl | ⟨rfl, rfl⟩ := hd
    · rfl
    · exact if_neg (by decide) |>.trans (by rw [Attempt.shownIndex, hcounted])
  simp only [explanation?, hl, ha, hasked]
  by_cases hi : 0 ≤ i ∧ i < l.length
  · have hlt : i.toNat < l.steps.length := (Int.toNat_lt hi.1).2 hi.2
    simp [Datum.indexBelow?, Datum.quantity?, hi, hlt, hexplain, pure, Except.pure]
  · have hno : ¬ (0 ≤ i ∧ i.toNat < l.steps.length) :=
      fun h => hi ⟨h.1, (Int.toNat_lt h.1).1 h.2⟩
    rw [dif_neg hno]
    simp [Datum.indexBelow?, Datum.quantity?, hi, pure, Except.pure]

/-- What a tutor shows is coherent, if its phase agrees with the attempt. -/
theorem View.Agrees.coherent (h : t.view.Agrees) : t.Coherent where
  idle := h.idle
  lesson a ha := by
    obtain ⟨l, hl, htotal⟩ := h.lesson a ha
    exact ⟨l, hl, l.length_pos, htotal⟩
  index a ha := by
    obtain ⟨hle, hcompleted⟩ := h.index a ha
    refine ⟨hle, hcompleted, fun hrunning => h.index_lt hrunning ha, fun hlt => ?_⟩
    cases hphase : t.phase with
    | idle => cases ha.symm.trans (h.idle.1 hphase)
    | inProgress => rfl
    | completed => exact absurd (hcompleted.1 hphase) (Nat.ne_of_lt hlt)
  stats a ha := by
    obtain ⟨l, hl, -⟩ := h.lesson a ha
    have hshown : a.shownIndex = .int a.index := by
      rw [Attempt.shownIndex, h.counted a ha]
    refine ⟨_, by simp only [stats?, show t.attempt? = some a from ha,
      show t.lesson? = some l from hl]; rfl, fun key n hn => ?_⟩
    simp only [hshown, List.mem_cons, Prod.mk.injEq, reduceCtorEq, and_false,
      false_or, Datum.int.injEq, List.not_mem_nil, or_false] at hn
    omega
  current l a hl ha := currentStep?_eq hl ha (h.counted a ha)
  hint l a hl ha := by
    obtain ⟨l', hl', htotal⟩ := h.lesson a ha
    cases hl.symm.trans hl'
    have hlooked : a.lookedAt = .ok (min a.index (l.length - 1)) := by
      rw [Attempt.lookedAt, Attempt.double?_of_counted (h.counted a ha), htotal]
    have hlt : min a.index (l.length - 1) < l.steps.length :=
      Nat.lt_of_le_of_lt (Nat.min_le_right _ _) (Nat.sub_lt l.length_pos Nat.one_pos)
    have hphase : t.phase ≠ .idle := fun he => by cases ha.symm.trans (h.idle.1 he)
    exact ⟨hlt, requestHint_eq hphase hl ha hlooked hlt⟩
  explanation l a hl ha d i hd := explanation?_eq hl ha (h.counted a ha) hd
  silent hnone := by
    have hidle : t.phase = .idle := h.idle.2 hnone
    refine ⟨by simp [stats?, hnone], by simp [currentStep?, currentStep, running?,
      hidle, Except.toOption], by rw [requestHint, if_pos hidle], fun d => ?_⟩
    unfold explanation?
    split
    · next ha => cases hnone.symm.trans ha
    · rfl

end

/-! ## Runs -/

/-- Operations keep the phase in agreement with the attempt. -/
theorem foldl_agrees : ∀ (ops : List Op) {t : Tutor}, t.view.Agrees →
    (ops.foldl apply t).view.Agrees
  | [], _, h => h
  | op :: ops, t, h => foldl_agrees ops ((apply_step t op).agrees h)

/-- The phase of a new tutor agrees with there being no attempt. -/
theorem agrees_new : ({} : Tutor).view.Agrees := ⟨by simp [view], nofun, nofun, nofun⟩

/-- The completions that operations make known were still to come, or are of lessons that they
load. -/
theorem foldl_pending_le : ∀ (ops : List Op) (t : Tutor),
    (ops.foldl apply t).view.completions + (ops.foldl apply t).view.pending ≤
      t.view.completions + t.view.pending + ops.countP (·.loaded?.isSome)
  | [], _ => Nat.le_refl _
  | op :: ops, t => by
    have hstep := (apply_step t op).pending_le
    have hrest := foldl_pending_le ops (t.apply op)
    rw [List.foldl_cons, List.countP_cons]
    omega

/-- After every run of operations, carried out or refused, with calls from schedulers in between:
what the tutor shows is coherent; a completed lesson is left only by loading one, by a reset or by
dismissing the tutor; each completion is made known once, by the operation that completes the
lesson; and however the run goes on, no more completions are made known than lessons are in progress
or loaded. -/
theorem run_coherent (ops : List Op) :
    (run ops).Coherent ∧
    (∀ op, (run ops).phase = .completed → ((run ops).apply op).phase ≠ .completed →
      op.loaded?.isSome = true ∨ op = .reset ∨ op = .destroy) ∧
    (∀ op, ((run ops).apply op).completions = (run ops).completions +
      if (run ops).phase ≠ .completed ∧ ((run ops).apply op).phase = .completed then 1 else 0) ∧
    ∀ more, (run (ops ++ more)).completions ≤ (run ops).completions +
      (if (run ops).phase = .inProgress then 1 else 0) + more.countP (·.loaded?.isSome) := by
  have hagrees : (run ops).view.Agrees := foldl_agrees ops agrees_new
  refine ⟨hagrees.coherent, fun op => (apply_step _ op).leaves,
    fun op => (apply_step _ op).completions_eq hagrees, fun more => ?_⟩
  have hmore := foldl_pending_le more (run ops)
  rw [run, List.foldl_append]
  exact Nat.le_trans (Nat.le_add_right _ _) hmore

/-- A run in which a lesson is refused, and one of two steps is played to its end by a call that
comes from a scheduler; a later call and a step back come to nothing, and a reset leaves the end. -/
theorem run_coherent_played :
    let step (number : Int) : EquationStudio.Step :=
      { number, equation := "x", action := .simplify, explanation := "combine" }
    let ops : List Op := [.loadParts "a" "one" "x" .beginner "t" (some []),
      .loadParts "a" "two" "x" .beginner "t" (some [some (step 1), some (step 2)]),
      .startAutoPlay (.int 10), .goTo 2, .goTo 1, .hint, .tick (.int 3), .call {} ⟨0, 0⟩,
      .call {} ⟨0, 0⟩, .previous]
    (run ops).Coherent ∧ (run ops).phase = .completed ∧ (run ops).completions = 1 ∧
      ((run ops).attempt?.map fun a => (a.index, a.hints, a.elapsed)) = some (2, 1, 3) ∧
      ((run ops).apply .reset).phase ≠ .completed ∧
      (Op.reset.loaded?.isSome = true ∨ Op.reset = .reset ∨ Op.reset = .destroy) ∧
      (run (ops ++ [.reset, .advance])).completions ≤ 1 + 0 + 0 := by
  intro step ops
  have hcompleted : (run ops).phase = .completed := by decide +kernel
  have hleft : ((run ops).apply .reset).phase ≠ .completed := by decide +kernel
  have hone : (run ops).completions = 1 := by decide +kernel
  obtain ⟨hcoherent, hleaves, -, hmore⟩ := run_coherent ops
  refine ⟨hcoherent, hcompleted, hone, by decide +kernel, hleft,
    hleaves .reset hcompleted hleft, ?_⟩
  have hlast := hmore [.reset, .advance]
  rwa [hone, hcompleted] at hlast

end Tutor

end EquationStudio
