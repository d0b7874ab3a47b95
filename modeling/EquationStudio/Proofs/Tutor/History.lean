import EquationStudio.Proofs.Tutor.Phase

/-!
# The history of a session

The statistics of an attempt are kept up to date by a dozen operations. Here they are read off the
history: a `Tutor.Deed` is what a request comes to, or a call that its routine acts on, and the
deeds since the lesson was loaded tell the index (`Deed.indexAfter`), the hints and the time
(`Deed.timeAfter`) without regard to the tutor. `Tutor.session?_apply` proves that each operation
has the effect of its deed, and `Tutor.run_stats` what follows for every run.
-/

namespace EquationStudio

/-- A stretch of time in whole milliseconds. What is below zero, or no number, is none. -/
def Datum.milliseconds (d : Datum) : Nat :=
  match d.quantity? with
  | some (.whole n) => n.toNat
  | some (.real (.finite x)) => (x.steps / Nat.pow 2 stepBits).toNat
  | _ => 0

namespace Tutor

/-! ## Deeds -/

/-- What a request comes to, or a call that its routine acts on. -/
inductive Deed where
  /-- A lesson is loaded. -/
  | load (l : Lesson)
  /-- The lesson is put aside, by a reset or by dismissing the tutor. -/
  | close
  | hint
  /-- Time passes, as the request says or for the interval of the timer. -/
  | pass (ms : Datum)
  /-- One step further, by the student or by auto-play. -/
  | forward
  | back
  | jump (index : Int)

/-- What a call comes to: the routine that it reaches may act on it. -/
def reached? (t : Tutor) (agenda : Agenda Callback) (c : Callback) : Option Deed :=
  match t.timer.filter (·.serial = c.routine), t.autoPlay.filter (·.serial = c.routine) with
  | some routine, _ =>
    if (routine.fire agenda c.generation).1 then some (.pass routine.interval) else none
  | none, some routine => if (routine.fire agenda c.generation).1 then some .forward else none
  | none, none => none

/-- What an operation comes to, if it comes to anything. A lesson that is refused is not loaded, and
what becomes of the routines is no deed. -/
def deed? (t : Tutor) : Op → Option Deed
  | .advance => some .forward
  | .previous => some .back
  | .goTo index => some (.jump index)
  | .hint => some .hint
  | .tick ms => some (.pass ms)
  | .reset | .destroy => some .close
  | .startTimer _ | .stopTimer | .startAutoPlay _ | .stopAutoPlay => none
  | .call agenda c => t.reached? agenda c
  | op => op.loaded?.map .load

/-- What operations come to, one after another. -/
def deeds : Tutor → List Op → List Deed
  | _, [] => []
  | t, op :: ops => (t.deed? op).toList ++ deeds (t.apply op) ops

/-- What the operations of a new tutor come to. -/
def history (ops : List Op) : List Deed := deeds {} ops

namespace Deed

/-- A deed by which a session neither begins nor ends. -/
def isWithin : Deed → Bool
  | load _ | close => false
  | hint | pass _ | forward | back | jump _ => true

/-- A hint that is asked for. -/
def isHint : Deed → Bool
  | hint => true
  | _ => false

/-- The index that a deed leads to in a lesson of `n` steps: one up, one down unless it is zero, or
the one that is asked for if there is such a step. Once the index is `n` it stays. -/
def move (n i : Nat) : Deed → Nat
  | forward => if i < n then i + 1 else i
  | back => if i < n ∧ 0 < i then i - 1 else i
  | jump k => if i < n ∧ 0 ≤ k ∧ k < n then k.toNat else i
  | load _ | close | hint | pass _ => i

/-- The time that a deed adds at an index in a lesson of `n` steps. -/
def spent (n i : Nat) : Deed → Nat
  | pass ms => if i < n then ms.milliseconds else 0
  | _ => 0

/-- The index after deeds, in a lesson of `n` steps, from an index on. -/
def indexAfter (n i : Nat) (ds : List Deed) : Nat := ds.foldl (move n) i

/-- The time that deeds add, in a lesson of `n` steps, from an index on. -/
def timeAfter (n : Nat) : Nat → List Deed → Nat
  | _, [] => 0
  | i, d :: ds => d.spent n i + timeAfter n (d.move n i) ds

/-- The attempt after a deed within a session. -/
def act (d : Deed) (a : Attempt) : Attempt where
  total := a.total
  index := d.move a.total a.index
  hints := a.hints + if d.isHint then 1 else 0
  elapsed := a.elapsed + d.spent a.total a.index
  uncounted? := a.uncounted?

/-- What a deed makes of the lesson that is played and of the attempt at it. -/
def effect (session : Option (Lesson × Attempt)) : Deed → Option (Lesson × Attempt)
  | load l => some (l, { total := l.length })
  | close => none
  | d => session.map fun s => (s.1, d.act s.2)

end Deed

/-! ## The effect of an operation -/

/-- The lesson that is played, with the attempt at it. -/
def session? (t : Tutor) : Option (Lesson × Attempt) := do return (← t.lesson?, ← t.attempt?)

section
variable {t t' : Tutor} {a : Attempt}

/-- An attempt is in progress while steps are left. -/
theorem View.Agrees.running?_eq (h : t.view.Agrees) (ha : t.attempt? = some a) :
    t.running? = if a.index < a.total then some a else none := by
  have hrunning : t.phase = .inProgress ↔ a.index < a.total := (h.coherent.index a ha).2.2
  unfold running?
  simp only [hrunning, ha]

/-- Without an attempt there is none in progress. -/
theorem running?_eq_none (ha : t.attempt? = none) : t.running? = none := by
  unfold running?
  rw [ha, ite_self]

/-- A deed within a session leaves the lesson. -/
theorem Deed.effect_of_within {d : Deed} (hd : d.isWithin = true) (s : Option (Lesson × Attempt)) :
    d.effect s = s.map fun s => (s.1, d.act s.2) := by
  cases d with
  | load | close => cases hd
  | _ => rfl

/-- At the end of a lesson only hints count. -/
theorem Deed.act_of_le {d : Deed} (hd : d.isHint = false)
    (ha : a.total ≤ a.index) : d.act a = a := by
  have hend : ¬ a.index < a.total := Nat.not_lt.2 ha
  cases d with
  | hint => cases hd
  | _ => simp [act, move, spent, isHint, hend]

/-- An operation that leaves the lesson, and changes the attempt as a deed does, has the effect of
the deed. -/
theorem session?_eq {d : Deed} (hd : d.isWithin = true)
    (h : t'.lesson? = t.lesson? ∧ t'.attempt? = t.attempt?.map d.act) :
    t'.session? = d.effect t.session? := by
  rw [Deed.effect_of_within hd]
  unfold session?
  rw [h.1, h.2]
  cases t.lesson? <;> cases t.attempt? <;> rfl

/-- An operation on an attempt in progress that leaves the lesson has the effect of a deed, if it
changes the attempt as the deed does while steps are left, and changes nothing once none are. -/
theorem View.Agrees.session?_eq (h : t.view.Agrees) {d : Deed} (hd : d.isWithin = true)
    (hhint : d.isHint = false) (hrunning : ∀ a, t.running? = some a → a.index < a.total →
      t.attempt? = some a →
      t'.lesson? = t.lesson? ∧ t'.attempt? = some (d.act a))
    (hidle : t.running? = none → t'.lesson? = t.lesson? ∧ t'.attempt? = t.attempt?) :
    t'.session? = d.effect t.session? := by
  refine Tutor.session?_eq hd ?_
  cases ha : t.attempt? with
  | none =>
    obtain ⟨hl, ha'⟩ := hidle (running?_eq_none ha)
    exact ⟨hl, ha'.trans ha⟩
  | some a =>
    by_cases hlt : a.index < a.total
    · exact hrunning a (by rw [h.running?_eq ha, if_pos hlt]) hlt ha
    · obtain ⟨hl, ha'⟩ := hidle (by rw [h.running?_eq ha, if_neg hlt])
      rw [Option.map_some, Deed.act_of_le hhint (Nat.not_lt.1 hlt)]
      exact ⟨hl, ha'.trans ha⟩

/-- An advance is a step forward. -/
theorem session?_advance (h : t.view.Agrees) :
    t.advance.session? = Deed.forward.effect t.session? := by
  refine h.session?_eq rfl rfl (fun a hrunning hlt ha => ?_) fun hidle => ?_
  · have hcounted := h.counted a ha
    have hact : Deed.forward.act a = a.advance := by
      simp [Deed.act, Deed.move, Deed.spent, Deed.isHint, Attempt.advance_of_counted hcounted,
        hcounted, hlt]
    rw [hact]
    unfold advance
    rw [hrunning]
    dsimp only
    split
    · have hview := view_complete (t := { t with attempt? := some a.advance }) a.advance
      exact ⟨congrArg View.lesson? hview, congrArg View.attempt? hview⟩
    · exact ⟨rfl, rfl⟩
  · unfold advance
    rw [hidle]
    exact ⟨rfl, rfl⟩

/-- Going back is a step back. -/
theorem session?_previous (h : t.view.Agrees) :
    t.previous.2.session? = Deed.back.effect t.session? := by
  refine h.session?_eq rfl rfl (fun a hrunning hlt ha => ?_) fun hidle => ?_
  · have hcounted := h.counted a ha
    unfold previous
    rw [hrunning]
    simp only [Attempt.previous?, Attempt.double?_of_counted hcounted]
    by_cases hpos : 0 < a.index
    · simp [Deed.act, Deed.move, Deed.spent, Deed.isHint, hlt, hpos, hcounted]
    · simp [Deed.act, Deed.move, Deed.spent, Deed.isHint, hpos, notify, ha]
  · unfold previous
    rw [hidle]
    exact ⟨rfl, rfl⟩

/-- Going to a step is a jump. -/
theorem session?_goTo (h : t.view.Agrees) (index : Int) :
    (t.goTo index).2.session? = (Deed.jump index).effect t.session? := by
  refine h.session?_eq rfl rfl (fun a hrunning hlt ha => ?_) fun hidle => ?_
  · have hcounted := h.counted a ha
    unfold goTo
    rw [hrunning]
    dsimp only [Attempt.at?]
    by_cases hin : 0 ≤ index ∧ index < a.total
    · simp [Deed.act, Deed.move, Deed.spent, Deed.isHint, hin, hlt, hcounted, arrive]
    · simp [Deed.act, Deed.move, Deed.spent, Deed.isHint, hin, arrive, notify, ha]
  · unfold goTo
    rw [hidle]
    exact ⟨rfl, rfl⟩

/-- An amount below zero has no milliseconds, and neither has one that has no whole number of
them. -/
theorem milliseconds_eq {ms : Datum} {q : Datum.Quantity} (hq : ms.quantity? = some q) :
    ms.milliseconds = if isBelowZero q then 0 else (wholeMilliseconds q).toOption.getD 0 := by
  unfold Datum.milliseconds
  rw [hq]
  cases q with
  | whole n =>
    by_cases hn : n < 0
    · simp [isBelowZero, hn, Int.toNat_of_nonpos (Int.le_of_lt hn)]
    · simp [isBelowZero, hn, wholeMilliseconds, Except.toOption]
  | real x =>
    cases x with
    | finite x =>
      have hpow : ∀ k, (0 : Int) < Nat.pow 2 k :=
        fun _ => Int.natCast_pos.2 (Nat.pow_pos (Nat.succ_pos 1))
      by_cases hx : x.steps < 0
      · have hneg : x.steps / Nat.pow 2 stepBits < 0 :=
          Int.ediv_neg_of_neg_of_pos hx (hpow stepBits)
        simp only [isBelowZero, hx, decide_true, if_true]
        exact Int.toNat_of_nonpos (Int.le_of_lt hneg)
      · simp only [isBelowZero, hx, decide_false, Bool.false_eq_true, if_false]
        rfl
    | infinite negative => cases negative <;> rfl
    | nan => rfl

/-- A tick lets time pass. -/
theorem session?_tick (h : t.view.Agrees) (ms : Datum) :
    (t.after (t.tick ms)).session? = (Deed.pass ms).effect t.session? := by
  refine h.session?_eq rfl rfl (fun a hrunning hlt ha => ?_) fun hidle => ?_
  · have hact : (Deed.pass ms).act a = a.spend ms.milliseconds := by
      simp [Deed.act, Deed.move, Deed.spent, Deed.isHint, Attempt.spend, hlt]
    have hnone : a.spend 0 = a := rfl
    rw [hact]
    unfold tick
    cases hq : ms.quantity? with
    | none =>
      have hzero : ms.milliseconds = 0 := by rw [Datum.milliseconds, hq]
      rw [hzero, hnone]
      exact ⟨rfl, ha⟩
    | some q =>
      rw [milliseconds_eq hq]
      dsimp only
      by_cases hbelow : isBelowZero q = true
      · rw [if_pos hbelow, if_pos hbelow, hnone]
        exact ⟨rfl, ha⟩
      · rw [if_neg hbelow, if_neg hbelow, hrunning]
        cases hwhole : wholeMilliseconds q with
        | error fault => exact ⟨rfl, ha⟩
        | ok spent => exact ⟨rfl, rfl⟩
  · unfold tick
    rw [hidle]
    split
    · exact ⟨rfl, rfl⟩
    · split <;> exact ⟨rfl, rfl⟩

/-- A hint that is asked for counts until the lesson is put aside, and nothing else of it does. -/
theorem session?_requestHint (h : t.view.Agrees) :
    t.requestHint.2.session? = Deed.hint.effect t.session? := by
  refine session?_eq rfl ?_
  unfold requestHint
  cases ha : t.attempt? with
  | none =>
    rw [if_pos (show t.phase = .idle from h.idle.2 ha)]
    exact ⟨rfl, ha⟩
  | some a =>
    obtain ⟨l, hl, -⟩ := h.lesson a ha
    have hphase : t.phase ≠ .idle := fun he => by cases ha.symm.trans (h.idle.1 he)
    rw [if_neg hphase, show t.lesson? = some l from hl]
    dsimp only
    split <;> exact ⟨rfl, rfl⟩

/-- What leaves a session as it shows leaves the lesson and the attempt. -/
theorem session?_of_view_eq (h : t'.view = t.view) : t'.session? = t.session? := by
  unfold session?
  rw [show t'.lesson? = t.lesson? from congrArg View.lesson? h,
    show t'.attempt? = t.attempt? from congrArg View.attempt? h]

/-- A routine keeps its interval when it is called. -/
theorem interval_fire (r : Routine Nat) (agenda : Agenda Callback) (generation : Nat) :
    (r.fire agenda generation).2.1.interval = r.interval := by
  have harm : ∀ g, (r.arm agenda g).1.interval = r.interval := by
    intro g
    unfold Routine.arm
    dsimp only
    split <;> rfl
  unfold Routine.fire
  split
  · rfl
  · dsimp only
    split <;> exact harm generation

/-- A call to the timer that it acts on lets its interval pass. -/
theorem session?_fireTimer (h : t.view.Agrees) (routine : Routine Nat) (generation : Nat) :
    (t.fireTimer routine generation).2.session? = (if (routine.fire t.agenda generation).1 then
      (Deed.pass routine.interval).effect t.session? else t.session?) := by
  have hinterval := interval_fire routine t.agenda generation
  unfold fireTimer
  generalize routine.fire t.agenda generation = fired at hinterval ⊢
  obtain ⟨acts, routine', agenda⟩ := fired
  cases acts with
  | false => rfl
  | true =>
    have htick := session?_tick (t := { t with timer := some routine', agenda }) h routine'.interval
    dsimp only at hinterval ⊢
    rw [hinterval] at htick ⊢
    rw [if_pos rfl, if_pos rfl]
    revert htick
    cases ({ t with timer := some routine', agenda } : Tutor).tick routine.interval <;> exact id

/-- A call to the auto-play that it acts on is a step forward. -/
theorem session?_fireAutoPlay (h : t.view.Agrees) (routine : Routine Nat) (generation : Nat) :
    (t.fireAutoPlay routine generation).session? = (if (routine.fire t.agenda generation).1 then
      Deed.forward.effect t.session? else t.session?) := by
  unfold fireAutoPlay
  obtain ⟨acts, routine', agenda⟩ := routine.fire t.agenda generation
  cases acts with
  | false => rfl
  | true => exact session?_advance (t := { t with autoPlay := some routine', agenda }) h

/-- A call has the effect of what it comes to. -/
theorem session?_fire (h : t.view.Agrees) (agenda : Agenda Callback) (c : Callback) :
    (({ t with agenda } : Tutor).fire c).2.session? =
      (t.reached? agenda c).toList.foldl Deed.effect t.session? := by
  unfold fire reached?
  dsimp only
  cases t.timer.filter (·.serial = c.routine) with
  | some routine =>
    dsimp only
    rw [session?_fireTimer (t := { t with agenda }) h]
    split <;> rfl
  | none =>
    cases t.autoPlay.filter (·.serial = c.routine) with
    | some routine =>
      dsimp only
      rw [session?_fireAutoPlay (t := { t with agenda }) h]
      split <;> rfl
    | none => rfl

/-- Without an attempt there is no session. -/
theorem session?_eq_none (ha : t.attempt? = none) : t.session? = none := by
  unfold session?
  rw [ha]
  cases t.lesson? <;> rfl

/-- An operation has the effect of what it comes to. -/
theorem session?_apply (h : t.view.Agrees) (op : Op) :
    (t.apply op).session? = (t.deed? op).toList.foldl Deed.effect t.session? := by
  cases op with
  | load lesson => rfl
  | loadRecord record =>
    cases record with
    | record fields =>
      simp only [apply, loadRecord, deed?, Op.loaded?]
      cases Lesson.ofRecord (.record fields) <;> rfl
    | _ => rfl
  | loadParts id name equation difficulty topic steps =>
    simp only [apply, deed?, Op.loaded?]
    cases Lesson.assemble id name equation difficulty topic steps <;> rfl
  | advance => exact session?_advance h
  | previous => exact session?_previous h
  | goTo index => exact session?_goTo h index
  | hint => exact session?_requestHint h
  | reset => exact session?_eq_none (congrArg View.attempt? (view_reset (t := t)))
  | tick ms => exact session?_tick h ms
  | startTimer interval => exact session?_of_view_eq (view_startTimer interval)
  | stopTimer => exact session?_of_view_eq view_stopTimer
  | startAutoPlay interval =>
    simp only [apply, startAutoPlay]
    split
    · rfl
    · cases Routine.create (ι := Nat) t.routines interval <;> rfl
  | stopAutoPlay => exact session?_of_view_eq view_stopAutoPlay
  | destroy => rfl
  | call agenda c => exact session?_fire h agenda c

/-- Operations have the effect of what they come to, one after another. -/
theorem session?_foldl (ops : List Op) (h : t.view.Agrees) :
    (ops.foldl apply t).session? = (t.deeds ops).foldl Deed.effect t.session? := by
  induction ops generalizing t with
  | nil => rfl
  | cons op ops ih =>
    rw [List.foldl_cons, deeds, List.foldl_append, ← session?_apply h,
      ih ((apply_step t op).agrees h)]

end

/-! ## The effect of a history -/

section
variable {ds since : List Deed} {l : Lesson} {s : Option (Lesson × Attempt)}

/-- Deeds within a session lead the attempt to the index, the hints and the time that they tell. -/
theorem foldl_effect_within (hsince : ∀ d ∈ since, d.isWithin = true) (a : Attempt) :
    since.foldl Deed.effect (some (l, a)) = some (l, {
      total := a.total
      index := Deed.indexAfter a.total a.index since
      hints := a.hints + since.countP Deed.isHint
      elapsed := a.elapsed + Deed.timeAfter a.total a.index since
      uncounted? := a.uncounted? }) := by
  induction since generalizing a with
  | nil => rfl
  | cons d ds ih =>
    obtain ⟨hd, hds⟩ := List.forall_mem_cons.1 hsince
    rw [List.foldl_cons, Deed.effect_of_within hd, Option.map_some, ih hds, List.countP_cons]
    simp only [Deed.act, Deed.indexAfter, Deed.timeAfter, List.foldl_cons, Nat.add_assoc,
      Nat.add_comm (List.countP _ _)]

/-- A session goes on until it is closed. -/
theorem isSome_foldl_effect (hopen : .close ∉ since) (hs : s.isSome = true) :
    (since.foldl Deed.effect s).isSome = true := by
  induction since generalizing s with
  | nil => exact hs
  | cons d ds ih =>
    rw [List.mem_cons, not_or] at hopen
    refine ih hopen.2 ?_
    cases d with
    | load => rfl
    | close => exact absurd rfl hopen.1
    | _ => simpa [Deed.effect] using hs

/-- A session was begun by a lesson that was loaded, and neither closed nor replaced since. -/
theorem exists_load (hds : (ds.foldl Deed.effect none).isSome = true) :
    ∃ before l since, ds = before ++ .load l :: since ∧ ∀ d ∈ since, d.isWithin = true := by
  induction ds using List.reverseRecOn with
  | nil => cases hds
  | append_singleton ds d ih =>
    rw [List.foldl_append, List.foldl_cons, List.foldl_nil] at hds
    by_cases hd : d.isWithin = true
    · rw [Deed.effect_of_within hd, Option.isSome_map] at hds
      obtain ⟨before, l, since, rfl, hsince⟩ := ih hds
      refine ⟨before, l, since ++ [d], by rw [List.append_assoc, List.cons_append], ?_⟩
      exact List.forall_mem_append.2 ⟨hsince, List.forall_mem_singleton.2 hd⟩
    · cases d with
      | load l => exact ⟨ds, l, [], rfl, fun d hd => absurd hd List.not_mem_nil⟩
      | close => cases hds
      | _ => exact absurd rfl hd

/-- There is no session exactly if each lesson that was loaded was put aside later. -/
theorem foldl_effect_eq_none :
    ds.foldl Deed.effect none = none ↔
      ∀ before l since, ds = before ++ .load l :: since → .close ∈ since := by
  constructor
  · rintro hnone before l since rfl
    by_contra hopen
    rw [List.foldl_append, List.foldl_cons] at hnone
    have hsome :=
      isSome_foldl_effect (s := Deed.effect (before.foldl Deed.effect none) (.load l)) hopen rfl
    rw [hnone] at hsome
    cases hsome
  · intro hclosed
    by_contra hsome
    obtain ⟨before, l, since, hds, hsince⟩ := exists_load (Option.isSome_iff_ne_none.2 hsome)
    cases hsince .close (hclosed before l since hds)

end

/-! ## Statistics -/

/-- The statistics of a lesson at an index, after so many hints and milliseconds. -/
def statistics (l : Lesson) (index hints elapsed : Nat) : Datum :=
  .record [("equation_id", .text l.id), ("current_step", .int index),
    ("total_steps", .int l.length), ("progress", .float (Double.ofRat (mkRat index l.length))),
    ("hints_used", .int hints),
    ("time_spent_ms", .int elapsed),
    ("state", .text (if index = l.length then "completed" else "in_progress"))]

/-- The statistics are those of the session. -/
theorem stats?_eq {t : Tutor} (h : t.view.Agrees) :
    t.stats? = t.session?.map fun s => statistics s.1 s.2.index s.2.hints s.2.elapsed := by
  cases ha : t.attempt? with
  | none =>
    rw [session?_eq_none ha, (h.coherent.silent ha).1]
    rfl
  | some a =>
    obtain ⟨l, hl, htotal⟩ := h.lesson a ha
    obtain ⟨hle, hcompleted, hrunning⟩ := h.coherent.index a ha
    have hl : t.lesson? = some l := hl
    have hphase : t.phase.name = if a.index = l.length then "completed" else "in_progress" := by
      rw [← htotal]
      by_cases hend : a.index = a.total
      · rw [if_pos hend, hcompleted.2 hend, Phase.name]
      · rw [if_neg hend, hrunning.2 (by omega), Phase.name]
    have hcounted := h.counted a ha
    simp only [stats?, session?, ha, hl, statistics, hphase, htotal, Attempt.progress,
      Attempt.shownIndex, Attempt.double?_of_counted hcounted, hcounted, Option.bind_eq_bind,
      Option.bind_some, Option.pure_def, Option.map_some]

/-- After every run of operations, carried out or refused, with calls from schedulers in between,
the statistics depend on the history alone. There are none exactly if each lesson that was loaded
was put aside later. Otherwise they count what has happened since the last lesson was loaded: the
hints that were asked for, the time that passed while steps were left, and the index to which the
steps forward and back and the jumps have led, which stays once no steps are left. -/
theorem run_stats (ops : List Op) :
    ((run ops).stats? = none ↔
      ∀ before l since, history ops = before ++ .load l :: since → .close ∈ since) ∧
    ∀ before l since, history ops = before ++ .load l :: since → (∀ d ∈ since, d.isWithin = true) →
      (run ops).stats? = some (statistics l (Deed.indexAfter l.length 0 since)
        (since.countP Deed.isHint) (Deed.timeAfter l.length 0 since)) := by
  have hagrees : (run ops).view.Agrees := foldl_agrees ops agrees_new
  have hsession : (run ops).session? = (history ops).foldl Deed.effect none :=
    session?_foldl ops agrees_new
  rw [stats?_eq hagrees, hsession]
  refine ⟨by rw [Option.map_eq_none_iff, foldl_effect_eq_none], ?_⟩
  intro before l since hds hsince
  rw [hds, List.foldl_append, List.foldl_cons]
  have hloaded : Deed.effect (before.foldl Deed.effect none) (.load l) = some (l,
      { total := l.length }) := rfl
  rw [hloaded, foldl_effect_within hsince]
  simp

/-- A lesson of two steps is played a second time. A lesson that is refused, a negative amount,
jumps to no step and a step back from the first one count for nothing, and neither does the time
after the end; calls to the timer and to auto-play count like requests. A reset leaves nothing to
tell. -/
theorem run_stats_replayed :
    let step (number : Int) : EquationStudio.Step :=
      { number, equation := "x", action := .simplify, explanation := "combine" }
    let l : Lesson :=
      { id := "a", name := "one", equation := "x", difficulty := .beginner, topic := "t",
        steps := [step 1, step 2], playable := by decide }
    let ops : List Op :=
      [.startTimer (.int 1000), .load l, .hint, .tick (.int 5), .reset, .tick (.int 9),
      .load l, .startAutoPlay (.int 20), .call {} ⟨0, 0⟩, .call {} ⟨1, 0⟩,
      .loadParts "b" "two" "x" .beginner "t" (some []), .tick (.int (-4)), .hint,
        .goTo 7, .goTo (-1),
      .previous, .previous, .goTo 1, .advance, .tick (.int 8), .hint]
    (run ops).stats? = some (statistics l 2 2 1000) ∧
      ∀ before l' since, history (ops ++ [.reset]) = before ++ .load l' :: since →
      .close ∈ since := by
  intro step l ops
  let since : List Deed :=
    [.pass (.int 1000), .forward, .pass (.int (-4)), .hint, .jump 7, .jump (-1), .back,
    .back, .jump 1, .forward, .pass (.int 8), .hint]
  have hindex : Deed.indexAfter l.length 0 since = 2 := by decide +kernel
  have hhints : since.countP Deed.isHint = 2 := by decide +kernel
  have htime : Deed.timeAfter l.length 0 since = 1000 := by decide +kernel
  have hhistory : history ops =
      [.load l, .hint, .pass (.int 5), .close, .pass (.int 9)] ++ .load l :: since := by rfl
  have hstats := (run_stats ops).2 _ l since hhistory (by decide +kernel)
  rw [hindex, hhints, htime] at hstats
  have hreset : (run (ops ++ [.reset])).stats? = none :=
    Option.isNone_iff_eq_none.1 (by decide +kernel)
  have hclosed := (run_stats (ops ++ [.reset])).1
  exact ⟨hstats, hclosed.1 hreset⟩

end Tutor

end EquationStudio
