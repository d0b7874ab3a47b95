import EquationStudio.Proofs.Schedule.Routine

/-!
# Routines that are stopped while a scheduler takes their calls

A scheduler may ask a routine to stop while it is taking a call of the routine. Either the routine
is firing and schedules the next call, or it is being started. `Scheduler.Insight` is what can be
relied on of a scheduler that does so; the studio's agenda is one (`Agenda.insight`), and there it
makes no difference whether the stop comes before the call is taken or after it
(`Agenda.arm_interrupted`).

Whatever happens, every call of the routine that waits is under the handle that the routine
remembers (`Routine.Held`). So a firing that is interrupted takes back all that it did, and the stop
has its way (`Routine.Stopped`). A start that is interrupted takes nothing back: the routine takes
itself for active, the call that waits is of a generation that is over, and no later start changes
that (`Routine.Stuck`).
-/

namespace EquationStudio

/-- What can be relied on of a scheduler, whether or not it asks for a stop while it takes a
call. -/
structure Scheduler.Insight (σ ι : Type) [Scheduler σ ι Callback] where
  /-- A call waits under a handle. -/
  Waits : σ → ι → Callback → Prop
  /-- The states that the scheduler may be in. -/
  Sound : σ → Prop
  /-- A call that is taken waits under a handle that no other call has. -/
  schedule : ∀ {s : σ} (delay : Datum) (c : Callback), Sound s →
    Sound (Scheduler.schedule s delay c).2.2 ∧ (∀ d, ¬ Waits s (Scheduler.schedule s delay c).1 d) ∧
      ∀ h d, Waits (Scheduler.schedule s delay c).2.2 h d ↔
        h = (Scheduler.schedule s delay c).1 ∧ d = c ∨ Waits s h d
  /-- A call that is cancelled waits no longer, and the others do. -/
  cancel : ∀ {s : σ} (handle : ι), Sound s → Sound (Scheduler.cancel s handle) ∧
    ∀ h d, Waits (Scheduler.cancel s handle) h d ↔ Waits s h d ∧ h ≠ handle

namespace Scheduler

variable {σ ι : Type} [Scheduler σ ι Callback]

/-- The scheduler asks for a stop while it takes a call. -/
def Interrupts (s : σ) (delay : Datum) (c : Callback) : Prop := (schedule s delay c).2.1 = true

/-- No call of a routine waits. -/
def Insight.Silent (v : Insight σ ι) (s : σ) (serial : Nat) : Prop :=
  ∀ h c, v.Waits s h c → c.routine ≠ serial

/-- A call that waits is taken off to be made. -/
structure Insight.Takes (v : Insight σ ι) (s : σ) (handle : ι) (c : Callback)
    (rest : σ) : Prop where
  waits : v.Waits s handle c
  sound : v.Sound rest
  others : ∀ h d, v.Waits rest h d ↔ v.Waits s h d ∧ h ≠ handle

end Scheduler

namespace Routine

open Scheduler

variable {σ ι : Type} [Scheduler σ ι Callback]

/-- What a routine on a scheduler can come to: it is started and stopped, its calls are made as they
wait or late, when their generation is over, and others use the scheduler. -/
inductive Reaches (v : Insight σ ι) (p : Routine ι × σ) : Routine ι × σ → Prop
  | refl : Reaches v p p
  | start {r : Routine ι} {s : σ} (before : Reaches v p (r, s)) : Reaches v p (r.start s)
  | stop {r : Routine ι} {s : σ} (before : Reaches v p (r, s)) : Reaches v p (r.stop s)
  | call {r : Routine ι} {s rest : σ} {handle : ι} {c : Callback} (before : Reaches v p (r, s))
      (taken : v.Takes s handle c rest) (own : c.routine = r.serial) :
      Reaches v p (r.fire rest c.generation).2
  | late {r : Routine ι} {s : σ} {generation : Nat} (before : Reaches v p (r, s))
      (outdated : generation < r.generation) : Reaches v p (r.fire s generation).2
  | others {r : Routine ι} {s s' : σ} (before : Reaches v p (r, s)) (sound : v.Sound s')
      (same : ∀ h c, c.routine = r.serial → (v.Waits s' h c ↔ v.Waits s h c)) : Reaches v p (r, s')

/-- Every call of the routine that waits is under the handle that the routine remembers. -/
structure Held (v : Insight σ ι) (r : Routine ι) (s : σ) : Prop where
  sound : v.Sound s
  remembered : ∀ h c, v.Waits s h c → c.routine = r.serial → r.handle = some h

/-- The routine waits for a call of its present generation. -/
def Armed (v : Insight σ ι) (p : Routine ι × σ) : Prop :=
  ∃ handle, p.1.handle = some handle ∧ v.Waits p.2 handle ⟨p.1.serial, p.1.generation⟩

/-- A stop has had its way: the routine is at rest, none of its calls waits, and the next start arms
it, unless that is interrupted. -/
structure Stopped (v : Insight σ ι) (p : Routine ι × σ) : Prop where
  rest : p.1.isActive = false
  sound : v.Sound p.2
  silent : v.Silent p.2 p.1.serial
  again : ∀ s, v.Sound s → v.Silent s p.1.serial →
    ¬ Interrupts s p.1.interval ⟨p.1.serial, p.1.generation⟩ → Armed v (p.1.start s)

/-- A stop has come to nothing: the routine takes itself for active and waits for a call of a
generation that is over, which comes to nothing; no start changes that, only a further stop does. -/
structure Stuck (v : Insight σ ι) (p : Routine ι × σ) : Prop where
  active : p.1.isActive = true
  waits : ∃ handle generation, p.1.handle = some handle ∧
    v.Waits p.2 handle ⟨p.1.serial, generation⟩
  outdated : ∀ h c, v.Waits p.2 h c → c.routine = p.1.serial → c.generation < p.1.generation ∧
    ∀ s : σ, p.1.fire s c.generation = (false, p.1, s)
  idle : ∀ s : σ, p.1.start s = (p.1, s)
  stopped : Stopped v (p.1.stop p.2)

section
variable {v : Insight σ ι} {r : Routine ι} {s : σ}

/-! ## Arming -/

/-- A call that is scheduled without interruption is the only one of the routine that waits, if none
did. -/
theorem arm_of_not_interrupts (hs : v.Sound s) (hsilent : v.Silent s r.serial) {generation : Nat}
    (hquiet : ¬ Interrupts s r.interval ⟨r.serial, generation⟩) :
    ∃ handle s', r.arm s generation = ({ r with handle := some handle }, s') ∧
      v.Waits s' handle ⟨r.serial, generation⟩ ∧ Held v { r with handle := some handle } s' := by
  rcases htaken : Scheduler.schedule s r.interval (Callback.mk r.serial generation) with
    ⟨handle, interrupted, s'⟩
  obtain ⟨hs', -, hwaits⟩ := v.schedule r.interval ⟨r.serial, generation⟩ hs
  rw [htaken] at hs' hwaits
  have hfalse : interrupted = false := by
    rw [Interrupts, htaken] at hquiet
    exact Bool.eq_false_iff.2 hquiet
  subst hfalse
  refine ⟨handle, s', by simp only [arm, htaken, Bool.false_eq_true, if_false],
    (hwaits _ _).2 (.inl ⟨rfl, rfl⟩), hs', fun h c hc hown => ?_⟩
  rcases (hwaits h c).1 hc with ⟨rfl, -⟩ | hc
  · rfl
  · exact absurd hown (hsilent h c hc)

/-- A call that is scheduled while the routine is asked to stop waits under the handle that the
routine remembers, and a new generation has begun. -/
theorem arm_of_interrupts (hs : v.Sound s) (hsilent : v.Silent s r.serial) {generation : Nat}
    (hinterrupts : Interrupts s r.interval ⟨r.serial, generation⟩) :
    ∃ handle s', r.arm s generation =
        ({ r with handle := some handle, generation := r.generation + 1 }, s') ∧
      (r.handle = none → v.Waits s' handle ⟨r.serial, generation⟩) ∧ v.Sound s' ∧
      ∀ h c, v.Waits s' h c → c.routine = r.serial → h = handle ∧ c.generation = generation := by
  rcases htaken : Scheduler.schedule s r.interval (Callback.mk r.serial generation) with
    ⟨handle, interrupted, s'⟩
  obtain ⟨hs', -, hwaits⟩ := v.schedule r.interval ⟨r.serial, generation⟩ hs
  rw [htaken] at hs' hwaits
  rw [Interrupts, htaken] at hinterrupts
  obtain rfl : interrupted = true := hinterrupts
  have hown : ∀ h c, v.Waits s' h c → c.routine = r.serial → h = handle ∧
      c.generation = generation := by
    intro h c hc hown
    rcases (hwaits h c).1 hc with ⟨rfl, rfl⟩ | hc
    · exact ⟨rfl, rfl⟩
    · exact absurd hown (hsilent h c hc)
  -- The stop cancels the call that the routine remembers from before, if there is one.
  cases hhandle : r.handle with
  | none =>
    refine ⟨handle, s', ?_, fun _ => (hwaits _ _).2 (.inl ⟨rfl, rfl⟩), hs', hown⟩
    simp only [arm, htaken, if_true, stop, hhandle]
  | some before =>
    obtain ⟨hcancelled, hleft⟩ := v.cancel before hs'
    refine ⟨handle, Scheduler.cancel s' before, ?_,
      fun hnone => absurd hnone (Option.some_ne_none _),
      hcancelled, fun h c hc => hown h c ((hleft h c).1 hc).1⟩
    simp only [arm, htaken, if_true, stop, hhandle]

/-- A routine that remembers no call schedules one when it is started. -/
theorem start_eq_arm (hrest : r.handle = none) : r.start s = r.arm s r.generation := by
  rw [start, isActive, hrest]
  rfl

/-- A routine does nothing on a call of another generation. -/
theorem fire_of_ne {generation : Nat} (hne : generation ≠ r.generation) :
    r.fire s generation = (false, r, s) := by
  simp only [fire, if_pos (Or.inl hne)]

/-- On a call of its generation an active routine schedules the next one, and takes that back if
another generation has begun meanwhile. -/
theorem fire_of_arm {handle handle' : ι} (hhandle : r.handle = some handle)
    {r' : Routine ι} {s' : σ} (harm : r.arm s r.generation = (r', s'))
    (hremembers : r'.handle = some handle') :
    r.fire s r.generation = if r.generation = r'.generation then (true, r', s')
      else (false, { r' with handle := none }, Scheduler.cancel s' handle') := by
  have hactive : r.isActive = true := by rw [isActive, hhandle]; rfl
  simp only [fire, hactive, ne_eq, not_true_eq_false, Bool.not_true, Bool.false_eq_true,
    or_self, if_false, harm, hremembers]

/-! ## What is kept -/

/-- No call of a routine at rest waits. -/
theorem Held.silent (h : Held v r s) (hrest : r.handle = none) : v.Silent s r.serial := by
  intro handle c hc hown
  cases hrest.symm.trans (h.remembered handle c hc hown)

/-- Without calls that wait there is nothing to remember. -/
theorem Held.of_silent (hs : v.Sound s) (hsilent : v.Silent s r.serial) : Held v r s :=
  ⟨hs, fun h c hc hown => absurd hown (hsilent h c hc)⟩

/-- A routine that remembers no call and has none that waits is stopped. -/
theorem Stopped.of_silent (hrest : r.handle = none) (hs : v.Sound s)
    (hsilent : v.Silent s r.serial) : Stopped v (r, s) where
  rest := by rw [isActive, hrest]; rfl
  sound := hs
  silent := hsilent
  again s' hs' hsilent' hquiet := by
    obtain ⟨handle, s'', harm, hwaits, -⟩ := arm_of_not_interrupts hs' hsilent' hquiet
    rw [start_eq_arm hrest, harm]
    exact ⟨handle, rfl, hwaits⟩

/-- After a stop no call waits. -/
theorem Held.stop (h : Held v r s) : Stopped v (r.stop s) := by
  unfold Routine.stop
  cases hhandle : r.handle with
  | none => exact .of_silent rfl h.sound (h.silent hhandle)
  | some handle =>
    obtain ⟨hs, hleft⟩ := v.cancel handle h.sound
    refine .of_silent rfl hs fun h' c hc hown => ?_
    obtain ⟨hc, hne⟩ := (hleft h' c).1 hc
    cases hhandle.symm.trans (h.remembered h' c hc hown)
    exact hne rfl

/-- A start that is interrupted leaves the routine stuck. -/
theorem Held.start_interrupted (h : Held v r s) (hrest : r.handle = none)
    (hinterrupts : Interrupts s r.interval ⟨r.serial, r.generation⟩) :
    Held v (r.start s).1 (r.start s).2 ∧ Stuck v (r.start s) := by
  obtain ⟨handle, s', harm, hwaits, hs', hown⟩ :=
    arm_of_interrupts h.sound (h.silent hrest) hinterrupts
  rw [start_eq_arm hrest, harm]
  have hheld : Held v { r with handle := some handle, generation := r.generation + 1 } s' :=
    ⟨hs', fun h' c hc hc' => congrArg some (hown h' c hc hc').1.symm⟩
  refine ⟨hheld, rfl, ⟨handle, r.generation, rfl, hwaits hrest⟩,
    fun h' c hc hc' => ?_, fun _ => rfl, hheld.stop⟩
  have hover : c.generation < r.generation + 1 := by
    have hgeneration : c.generation = r.generation := (hown h' c hc hc').2
    omega
  exact ⟨hover, fun s'' => fire_of_ne (Nat.ne_of_lt hover)⟩

/-- Starting keeps the calls under the handle. -/
theorem Held.start (h : Held v r s) : Held v (r.start s).1 (r.start s).2 := by
  cases hhandle : r.handle with
  | some handle =>
    have hactive : r.isActive = true := by rw [isActive, hhandle]; rfl
    rw [Routine.start, if_pos hactive]
    exact h
  | none =>
    by_cases hinterrupts : Interrupts s r.interval ⟨r.serial, r.generation⟩
    · exact (h.start_interrupted hhandle hinterrupts).1
    · obtain ⟨handle, s', harm, -, hheld⟩ :=
        arm_of_not_interrupts h.sound (h.silent hhandle) hinterrupts
      rw [start_eq_arm hhandle, harm]
      exact hheld

/-! ## Calls -/

/-- Once the call that waited is taken off, no call of the routine waits. -/
theorem Held.taken (h : Held v r s) {handle : ι} {c : Callback} {rest : σ}
    (htakes : v.Takes s handle c rest) (hown : c.routine = r.serial) :
    r.handle = some handle ∧ v.Silent rest r.serial := by
  have hhandle : r.handle = some handle := h.remembered handle c htakes.waits hown
  refine ⟨hhandle, fun h' d hd hown' => ?_⟩
  obtain ⟨hd, hne⟩ := (htakes.others h' d).1 hd
  cases hhandle.symm.trans (h.remembered h' d hd hown')
  exact hne rfl

/-- A firing that is interrupted takes its call back. -/
theorem Held.fire_interrupted (h : Held v r s) {handle : ι} {c : Callback} {rest : σ}
    (htakes : v.Takes s handle c rest) (hown : c.routine = r.serial)
    (hpresent : c.generation = r.generation)
    (hinterrupts : Interrupts rest r.interval ⟨r.serial, r.generation⟩) :
    (r.fire rest c.generation).1 = false ∧ Stopped v (r.fire rest c.generation).2 := by
  obtain ⟨hhandle, hsilent⟩ := h.taken htakes hown
  obtain ⟨handle', s', harm, -, hs', hcalls⟩ := arm_of_interrupts htakes.sound hsilent hinterrupts
  obtain ⟨hcancelled, hleft⟩ := v.cancel handle' hs'
  rw [hpresent, fire_of_arm hhandle harm rfl, if_neg (Nat.succ_ne_self _).symm]
  refine ⟨rfl, .of_silent rfl hcancelled fun h' d hd hown' => ?_⟩
  obtain ⟨hd, hne⟩ := (hleft h' d).1 hd
  exact hne (hcalls h' d hd hown').1

/-- A call that is made keeps the calls under the handle. -/
theorem Held.fire (h : Held v r s) {handle : ι} {c : Callback} {rest : σ}
    (htakes : v.Takes s handle c rest) (hown : c.routine = r.serial) :
    Held v (r.fire rest c.generation).2.1 (r.fire rest c.generation).2.2 := by
  obtain ⟨hhandle, hsilent⟩ := h.taken htakes hown
  by_cases hpresent : c.generation = r.generation
  · by_cases hinterrupts : Interrupts rest r.interval ⟨r.serial, r.generation⟩
    · obtain ⟨-, hstopped⟩ := h.fire_interrupted htakes hown hpresent hinterrupts
      exact .of_silent hstopped.sound hstopped.silent
    · obtain ⟨handle', s', harm, -, hheld⟩ := arm_of_not_interrupts htakes.sound hsilent hinterrupts
      rw [hpresent, fire_of_arm hhandle harm rfl, if_pos rfl]
      exact hheld
  · rw [fire_of_ne hpresent]
    exact .of_silent htakes.sound hsilent

/-! ## Runs -/

/-- Whatever happens keeps the calls under the handle, and the routine keeps its number and its
interval. -/
theorem Held.reaches (h : Held v r s) {p : Routine ι × σ} (hp : Reaches v (r, s) p) :
    Held v p.1 p.2 ∧ p.1.name = r.name := by
  induction hp with
  | refl => exact ⟨h, rfl⟩
  | start _ ih => exact ⟨ih.1.start, (name_start _ _).trans ih.2⟩
  | stop _ ih => exact ⟨.of_silent ih.1.stop.sound ih.1.stop.silent, ih.2⟩
  | call _ taken own ih => exact ⟨ih.1.fire taken own, (name_fire _ _ _).trans ih.2⟩
  | late _ outdated ih =>
    rw [fire_of_ne (Nat.ne_of_lt outdated)]
    exact ih
  | others _ sound same ih =>
    exact ⟨⟨sound, fun h c hc hown => ih.1.remembered h c ((same h c hown).1 hc) hown⟩, ih.2⟩

/-- A routine, whatever it has come to on a scheduler, is stopped while the scheduler takes its next
call. If it is firing, it does not act on the call, it is at rest, none of its calls waits, and a
later start arms it. If it is being started, the stop has come to nothing: it takes itself for
active, its call waits and comes to nothing when it is made, and no later start arms it before it is
stopped once more. -/
theorem reaches_interrupted (v : Insight σ ι) {serial : Nat} {interval : Datum} {r₀ : Routine ι}
    (hmade : Routine.create serial interval = .ok r₀) {s₀ : σ} (hs : v.Sound s₀)
    (hnew : v.Silent s₀ serial) {r : Routine ι} {s : σ} (h : Reaches v (r₀, s₀) (r, s)) :
    (∀ handle c rest, v.Takes s handle c rest → c.routine = serial → c.generation = r.generation →
      Interrupts rest interval c →
      (r.fire rest c.generation).1 = false ∧ Stopped v (r.fire rest c.generation).2) ∧
    (r.isActive = false → Interrupts s interval ⟨serial, r.generation⟩ → Stuck v (r.start s)) := by
  obtain rfl := create_ok hmade
  obtain ⟨hheld, hname⟩ := Held.reaches (r := { serial, interval }) (.of_silent hs hnew) h
  obtain ⟨rfl, rfl⟩ : r.serial = serial ∧ r.interval = interval := Prod.mk.inj hname
  refine ⟨fun handle c rest htakes hown hpresent hinterrupts => ?_, fun hrest hinterrupts => ?_⟩
  · obtain ⟨routine, generation⟩ := c
    cases hown
    cases hpresent
    exact hheld.fire_interrupted htakes rfl rfl hinterrupts
  · have hnone : r.handle = none := by simpa [isActive] using hrest
    exact (hheld.start_interrupted hnone hinterrupts).2

end

end Routine

/-! ## The agenda -/

namespace Agenda

/-- What can be relied on of the agenda, whether or not it asks for a stop: handles are numbered. -/
def insight : Scheduler.Insight (Agenda Callback) Nat where
  Waits a h c := ∃ p ∈ a.waiting, p.handle = h ∧ p.call = c
  Sound a := ∀ p ∈ a.waiting, p.handle ≤ a.taken.length
  schedule := by
    intro a delay c hle
    refine ⟨fun p hp => ?_, fun d hd => ?_, fun h d => ⟨fun hd => ?_, fun hd => ?_⟩⟩
    · rcases List.mem_append.1 hp with hp | hp
      · exact Nat.le_succ_of_le (hle p hp)
      · rw [List.mem_singleton.1 hp]
        exact Nat.le_refl _
    · obtain ⟨p, hp, he, -⟩ := hd
      have hnew : p.handle = a.taken.length + 1 := he
      have hgiven := hle p hp
      omega
    · obtain ⟨p, hp, rfl, rfl⟩ := hd
      rcases List.mem_append.1 hp with hp | hp
      · exact .inr ⟨p, hp, rfl, rfl⟩
      · rw [List.mem_singleton.1 hp]
        exact .inl ⟨rfl, rfl⟩
    · rcases hd with ⟨rfl, rfl⟩ | ⟨p, hp, he⟩
      · exact ⟨_, List.mem_append_right _ (.head _), rfl, rfl⟩
      · exact ⟨p, List.mem_append_left _ hp, he⟩
  cancel := by
    intro a handle hle
    refine ⟨fun p hp => hle p (List.mem_filter.1 hp).1, fun h d => ⟨fun hd => ?_, fun hd => ?_⟩⟩
    · obtain ⟨p, hp, rfl, rfl⟩ := hd
      obtain ⟨hp, hne⟩ := List.mem_filter.1 hp
      exact ⟨⟨p, hp, rfl, rfl⟩, of_decide_eq_true hne⟩
    · obtain ⟨⟨p, hp, rfl, rfl⟩, hne⟩ := hd
      exact ⟨p, List.mem_filter.2 ⟨hp, decide_eq_true hne⟩, rfl, rfl⟩

/-- On the agenda it makes no difference when the stop comes while a call is taken: it may as well
come before the call is there. -/
theorem arm_interrupted (a : Agenda Callback) (r : Routine Nat) (generation : Nat)
    (hinterrupts : a.interrupts = true)
    (hgiven : ∀ handle, r.handle = some handle → handle ≤ a.taken.length) :
    r.arm a generation =
      let stopped := r.stop a
      let taken := stopped.2.schedule r.interval ⟨r.serial, generation⟩
      ({ stopped.1 with handle := some taken.1 }, taken.2.2) := by
  have hasked : (Scheduler.schedule a r.interval (Callback.mk r.serial generation)).2.1 = true :=
    hinterrupts
  simp only [Routine.arm, hasked, if_true]
  cases hhandle : r.handle with
  | none =>
    simp only [Routine.stop, hhandle]
    rfl
  | some handle =>
    have hne : a.taken.length + 1 ≠ handle := by
      have := hgiven handle hhandle
      omega
    simp only [Routine.stop, hhandle, Scheduler.schedule, Scheduler.cancel, schedule, cancel,
      List.filter_append, List.filter_cons, List.filter_nil, decide_eq_true hne, if_true]

end Agenda

namespace Routine

open Scheduler

/-- A routine on the agenda that is stopped while it schedules its next call in a firing, and one
that is stopped while it is being started. -/
theorem reaches_interrupted_both :
    let r₀ : Routine Nat := { serial := 0, interval := .int 10 }
    let p := r₀.start ({} : Agenda Callback)
    let rest : Agenda Callback := { p.2 with waiting := [], interrupts := true }
    let a : Agenda Callback := { interrupts := true }
    (Routine.create 0 (.int 10) : Except Fault (Routine Nat)) = .ok r₀ ∧
      Reaches Agenda.insight (r₀, {}) (p.1, { p.2 with interrupts := true }) ∧
      (p.1.fire rest 0).1 = false ∧ Stopped Agenda.insight (p.1.fire rest 0).2 ∧
      Reaches Agenda.insight (r₀, {}) (r₀, a) ∧ Stuck Agenda.insight (r₀.start a) := by
  intro r₀ p rest a
  have hmade : (Routine.create 0 (.int 10) : Except Fault (Routine Nat)) = .ok r₀ := rfl
  have hstarted : Reaches Agenda.insight (r₀, {}) (p.1, { p.2 with interrupts := true }) :=
    .others (.start .refl) (fun p hp => by cases List.mem_singleton.1 hp; exact Nat.le_refl 1)
      fun _ _ _ => .rfl
  have hrest : Reaches Agenda.insight (r₀, {}) (r₀, a) := .others .refl nofun fun _ _ _ => .rfl
  have htakes : Agenda.insight.Takes { p.2 with interrupts := true } 1 ⟨0, 0⟩ rest := by
    refine ⟨⟨_, .head _, rfl, rfl⟩, nofun, fun h d => ⟨nofun, ?_⟩⟩
    rintro ⟨⟨q, hq, rfl, rfl⟩, hne⟩
    cases List.mem_singleton.1 hq
    exact absurd rfl hne
  have hsound : Agenda.insight.Sound {} := nofun
  have hsilent : Agenda.insight.Silent {} 0 := nofun
  obtain ⟨hfire, -⟩ := reaches_interrupted Agenda.insight hmade hsound hsilent hstarted
  obtain ⟨-, hstart⟩ := reaches_interrupted Agenda.insight hmade hsound hsilent hrest
  obtain ⟨hacts, hstopped⟩ := hfire 1 ⟨0, 0⟩ rest htakes rfl rfl rfl
  exact ⟨hmade, hstarted, hacts, hstopped, hrest, hstart rfl rfl⟩

/-- A new routine that is stopped while it is being started: it is active, its call waits, a second
start does nothing, and the call does nothing but to leave the routine active with nothing to wait
for. -/
theorem start_interrupted_stays :
    let p :=
      ({ serial := 0, interval := .int 10 } : Routine Nat).start
        ({ interrupts := true } : Agenda Callback)
    let again := p.1.start p.2
    let called := again.1.fire { again.2 with waiting := [] } 0
    p.1.isActive = true ∧ p.2.waiting.map Appointment.call = [⟨0, 0⟩] ∧
      again.1.generation = 1 ∧ again.2.waiting.map Appointment.call = [⟨0, 0⟩] ∧
      called.1 = false ∧ called.2.1.isActive = true ∧ called.2.2.waiting.length = 0 := by
  decide

end Routine

end EquationStudio
