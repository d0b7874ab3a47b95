import EquationStudio.Console
import EquationStudio.Proofs.Service.Tutor
import EquationStudio.Proofs.Tutor.History
import Mathlib.Data.List.Nodup

/-!
# What is typed at the console

A session at the console is told by the typed lines alone. `Console.Reading` says which of them are
read and how many are asked for: up to the first that quits or does the last step, or all of them.
`Console.stepsDone` and `Console.hintsAsked` count the lines since the lesson was last started over.
What is asked for by one line changes the session as it changes the counts (`Console.Stands.obey`),
so at the end the statistics are what the lines that are read count (`Console.run_told`).
-/

namespace EquationStudio

/-- The lessons of the catalog are found by their identifiers. -/
theorem Catalog.find?_id {l : Lesson} (hl : l ∈ Catalog.lessons) : Catalog.find? l.id = some l := by
  have hids : (Catalog.lessons.map Lesson.id).Nodup := by decide +kernel
  have hfound : (Catalog.find? l.id).isSome = true :=
    List.find?_isSome.2 ⟨l, hl, beq_self_eq_true _⟩
  obtain ⟨l', hl'⟩ := Option.isSome_iff_exists.1 hfound
  have hid : l'.id = l.id :=
    beq_iff_eq.1 (List.find?_some (p := fun l' : Lesson => l'.id == l.id) hl')
  rw [hl', List.inj_on_of_nodup_map hids (List.mem_of_find?_eq_some hl') hl hid]

namespace Tutor

variable {t : Tutor} {l : Lesson} {a : Attempt}

/-- A session is a lesson with an attempt at it. -/
theorem session?_eq_some : t.session? = some (l, a) ↔ t.lesson? = some l ∧ t.attempt? = some a := by
  unfold session?
  cases t.lesson? <;> cases t.attempt? <;> simp

end Tutor

namespace Console

/-! ## Lines -/

/-- A typed line as it is compared with the commands: without blanks around it, in small letters. -/
def word (line : String) : String := lowerLatin (trimBlank line)

/-- The lines since the lesson was last started over. -/
def sinceRestart (lines : List String) : List String := lines.rtakeWhile (word · ≠ "r")

/-- How many steps have been done since then: a line does one if it is no command. -/
def stepsDone (lines : List String) : Nat := (sinceRestart lines).countP (word · ∉ ["q", "h", "r"])

/-- How many hints have been asked for since then. -/
def hintsAsked (lines : List String) : Nat := (sinceRestart lines).countP (word · = "h")

/-- A session with a lesson of `n` steps goes on after typed lines: none of them quits, and at no
time all steps have been done. -/
structure GoesOn (n : Nat) (typed : List String) : Prop where
  stays : ∀ line ∈ typed, word line ≠ "q"
  left : ∀ before, before <+: typed → stepsDone before < n

/-- Which lines are read in a session with a lesson of `n` steps, and how many are asked for. -/
inductive Reading (n : Nat) : (lines read : List String) → (asked : Nat) → Prop
  /-- All lines are read, and one more is asked for. -/
  | exhausted {lines : List String} (going : GoesOn n lines) :
  Reading n lines lines (lines.length + 1)
  /-- The first line that quits, or does the last step, is the last one that is read. -/
  | stopped {before : List String} {line : String} {rest : List String} (going : GoesOn n before)
      (stops : word line = "q" ∨ stepsDone (before ++ [line]) = n) :
      Reading n (before ++ line :: rest) (before ++ [line]) (before.length + 1)

section
variable {n : Nat} {typed before lines read : List String} {line : String} {asked : Nat}

/-- The lines since the last start, once one more is typed. -/
theorem sinceRestart_concat (typed : List String) (line : String) :
    sinceRestart (typed ++ [line]) =
      if word line = "r" then [] else sinceRestart typed ++ [line] := by
  rw [sinceRestart, List.rtakeWhile_concat]
  by_cases h : word line = "r" <;> simp [h, sinceRestart]

/-- The steps done, once one more line is typed. -/
theorem stepsDone_concat (typed : List String) (line : String) : stepsDone (typed ++ [line]) =
    if word line = "r" then 0 else stepsDone typed + if word line ∈ ["q", "h", "r"] then 0
    else 1 := by
  rw [stepsDone, sinceRestart_concat]
  split
  · rfl
  · rw [List.countP_append, List.countP_singleton, stepsDone]
    by_cases h : word line ∈ ["q", "h", "r"] <;> simp [h]

/-- The hints asked for, once one more line is typed. -/
theorem hintsAsked_concat (typed : List String) (line : String) : hintsAsked (typed ++ [line]) =
    if word line = "r" then 0 else hintsAsked typed + if word line = "h" then 1 else 0 := by
  rw [hintsAsked, sinceRestart_concat]
  split
  · rfl
  · rw [List.countP_append, List.countP_singleton, hintsAsked]
    simp

/-- The command that a line is, by its word. -/
theorem ofLine_eq (line : String) : Command.ofLine line =
    if word line = "q" then .quit else if word line = "h" then .hint
    else if word line = "r" then .restart else .next := by
  unfold Command.ofLine word
  split <;> simp_all

/-! ## Reading -/

/-- Before anything is typed a session with a lesson that has steps goes on. -/
theorem GoesOn.nil (hn : 0 < n) : GoesOn n [] where
  stays := List.forall_mem_nil _
  left before h := by
    rw [List.prefix_nil.1 h]
    exact hn

/-- A session that goes on has gone on before. -/
theorem GoesOn.of_prefix (h : GoesOn n typed) (hbefore : before <+: typed) : GoesOn n before :=
  ⟨fun line hline => h.stays line (hbefore.subset hline), fun p hp => h.left p (hp.trans hbefore)⟩

/-- A session goes on after one more line, if that does not quit and leaves steps. -/
theorem goesOn_concat :
    GoesOn n (typed ++ [line]) ↔ GoesOn n typed ∧ word line ≠ "q" ∧
    stepsDone (typed ++ [line]) < n := by
  constructor
  · intro h
    exact ⟨h.of_prefix (List.prefix_append _ _), h.stays line (by simp), h.left _ List.prefix_rfl⟩
  · rintro ⟨h, hstays, hleft⟩
    refine ⟨fun line' hline => ?_, fun before hbefore => ?_⟩
    · rcases List.mem_append.1 hline with hline | hline
      · exact h.stays line' hline
      · rwa [List.mem_singleton.1 hline]
    · rcases List.prefix_concat_iff.1 hbefore with rfl | hbefore
      · exact hleft
      · exact h.left before hbefore

/-- A session does not go on after a line that stops it. -/
theorem not_goesOn (stops : word line = "q" ∨ stepsDone (typed ++ [line]) = n) :
    ¬ GoesOn n (typed ++ [line]) := by
  intro h
  obtain ⟨-, hstays, hleft⟩ := goesOn_concat.1 h
  rcases stops with hquits | hlast
  · exact hstays hquits
  · exact Nat.ne_of_lt hleft hlast

/-- The lines that are read are the first ones of those that are typed. -/
theorem Reading.eq_take (h : Reading n lines read asked) : read = lines.take asked := by
  cases h with
  | exhausted => exact (List.take_of_length_le (Nat.le_succ _)).symm
  | @stopped before line rest =>
    rw [List.take_length_add_append, List.take_succ_cons, List.take_zero]

/-- Before each line that is read the session goes on. -/
theorem Reading.goesOn (h : Reading n lines read asked)
    (hread : typed ++ [line] <+: read) : GoesOn n typed := by
  have htyped : typed <+: typed ++ [line] := List.prefix_append _ _
  cases h with
  | exhausted going => exact going.of_prefix (htyped.trans hread)
  | stopped going =>
    rcases List.prefix_concat_iff.1 hread with he | hread
    · obtain ⟨rfl, -⟩ := List.append_inj' he rfl
      exact going
    · exact going.of_prefix (htyped.trans hread)

/-- Either all lines are read, and the session goes on, or it stops with the last line that is
read. -/
theorem Reading.ends (h : Reading n lines read asked) :
    (read = lines ∧ GoesOn n lines ∧ asked = lines.length + 1) ∨
      ∃ before line, read = before ++ [line] ∧ read <+: lines ∧ GoesOn n before ∧ ¬ GoesOn n read ∧
        asked = read.length := by
  cases h with
  | exhausted going => exact .inl ⟨rfl, going, rfl⟩
  | @stopped before line rest going stops =>
    have hread : before ++ [line] <+: before ++ line :: rest :=
      (List.prefix_append_right_inj before).2 (List.cons_prefix_cons.2 ⟨rfl, List.nil_prefix⟩)
    exact .inr ⟨before, line, rfl, hread, going, not_goesOn stops, by simp⟩

/-- The typed lines determine which of them are read, and how many are asked for. -/
theorem Reading.unique (h : Reading n lines read asked) {read' : List String} {asked' : Nat}
    (h' : Reading n lines read' asked') : read' = read ∧ asked' = asked := by
  -- Lines with which the session stops are no beginning of lines before which it goes on.
  have hfirst : ∀ {r before line}, ¬ GoesOn n r → GoesOn n before → r <+: before ++ [line] →
      r = before ++ [line] :=
    fun hstop hgoes hr => (List.prefix_concat_iff.1 hr).resolve_right fun hr =>
      hstop (hgoes.of_prefix hr)
  rcases h.ends with ⟨rfl, hgoes, rfl⟩ | ⟨before, line, hread, hprefix, hgoes, hstop, rfl⟩
  · rcases h'.ends with ⟨rfl, -, rfl⟩ | ⟨-, -, -, hprefix', -, hstop', -⟩
    · exact ⟨rfl, rfl⟩
    · exact absurd (hgoes.of_prefix hprefix') hstop'
  · rcases h'.ends with ⟨-, hgoes', -⟩ | ⟨before', line', hread', hprefix', hgoes', hstop', rfl⟩
    · exact absurd (hgoes'.of_prefix hprefix) hstop
    · have he : read' = read := by
        rcases List.prefix_or_prefix_of_prefix hprefix hprefix' with hr | hr
        · rw [hread'] at hr ⊢
          exact (hfirst hstop hgoes' hr).symm
        · rw [hread] at hr ⊢
          exact hfirst hstop' hgoes hr
      exact ⟨he, congrArg List.length he⟩

end

/-! ## The session -/

/-- A line with which the session goes on is followed by the others. -/
theorem play_goesOn {c c' : Console} {line text : String}
    (h : c.obey (.ofLine line) = (text, c', true))
    (rest : List String) : c.play (line :: rest) =
      (text ++ (c'.play rest).1, (c'.play rest).2.1 + 1, (c'.play rest).2.2) := by
  rw [play, h]
  rfl

/-- A line with which the session stops is the last one. -/
theorem play_stops {c c' : Console} {line text : String}
    (h : c.obey (.ofLine line) = (text, c', false))
    (rest : List String) : c.play (line :: rest) = (text, 1, c') := by
  rw [play, h]
  rfl

/-- The session with a lesson, once lines are typed. -/
structure Stands (l : Lesson) (typed : List String) (c : Console) : Prop where
  lesson : c.lesson = l
  agrees : c.tutor.view.Agrees
  session : c.tutor.session? =
    some (l, { total := l.length, index := stepsDone typed, hints := hintsAsked typed })

section
variable {l : Lesson} {typed : List String} {c : Console}

/-- The session before anything is typed. -/
theorem stands_start (l : Lesson) : Stands l [] (start l).2 where
  lesson := rfl
  agrees := (Tutor.apply_step {} (.load l)).agrees Tutor.agrees_new
  session := rfl

namespace Stands

/-- The lesson is loaded, and the attempt is what the lines count. -/
theorem held (h : Stands l typed c) : c.tutor.lesson? = some l ∧ c.tutor.attempt? =
    some { total := l.length, index := stepsDone typed, hints := hintsAsked typed } :=
  Tutor.session?_eq_some.1 h.session

/-- Never more steps are done than there are. -/
theorem stepsDone_le (h : Stands l typed c) : stepsDone typed ≤ l.length :=
  (h.agrees.index _ h.held.2).1

/-- The session with a tutor that has done an operation within the lesson. -/
theorem act (h : Stands l typed c) (op : Tutor.Op) (d : Tutor.Deed) {line : String}
    (hd : d.isWithin = true) (hop : (c.tutor.apply op).session? = d.effect c.tutor.session?)
    (hindex : d.move l.length (stepsDone typed) = stepsDone (typed ++ [line]))
    (hhints : hintsAsked typed + (if d.isHint then 1 else 0) = hintsAsked (typed ++ [line]))
    (hspent : d.spent l.length (stepsDone typed) = 0) :
    Stands l (typed ++ [line]) { c with tutor := c.tutor.apply op } where
  lesson := h.lesson
  agrees := (Tutor.apply_step c.tutor op).agrees h.agrees
  session := by
    rw [hop, Tutor.Deed.effect_of_within hd, h.session, Option.map_some, Tutor.Deed.act,
      hindex, hhints, hspent]

/-- Quitting leaves the session and ends it. -/
theorem obey_quit (h : Stands l typed c) {line : String} (hline : word line = "q") :
    Stands l (typed ++ [line]) (c.obey .quit).2.1 ∧ (c.obey .quit).2.2 = false := by
  have hsteps : stepsDone (typed ++ [line]) = stepsDone typed := by simp [stepsDone_concat, hline]
  have hhints : hintsAsked (typed ++ [line]) = hintsAsked typed :=
    by simp [hintsAsked_concat, hline]
  refine ⟨⟨h.lesson, h.agrees, ?_⟩, rfl⟩
  rw [hsteps, hhints]
  exact h.session

/-- A hint is counted, and the session goes on. -/
theorem obey_hint (h : Stands l typed c) {line : String} (hline : word line = "h") :
    Stands l (typed ++ [line]) (c.obey .hint).2.1 ∧ (c.obey .hint).2.2 = true :=
  ⟨h.act .hint .hint rfl (Tutor.session?_requestHint h.agrees)
    (by simp [Tutor.Deed.move, stepsDone_concat, hline]) (by simp [Tutor.Deed.isHint,
    hintsAsked_concat, hline]) rfl, rfl⟩

/-- Starting over begins the counts anew, and the session goes on. -/
theorem obey_restart (h : Stands l typed c) {line : String} (hline : word line = "r") :
    Stands l (typed ++ [line]) (c.obey .restart).2.1 ∧ (c.obey .restart).2.2 = true := by
  have hsteps : stepsDone (typed ++ [line]) = 0 := by simp [stepsDone_concat, hline]
  have hhints : hintsAsked (typed ++ [line]) = 0 := by simp [hintsAsked_concat, hline]
  have hreset := (Tutor.apply_step c.tutor .reset).agrees h.agrees
  refine ⟨⟨h.lesson, (Tutor.apply_step c.tutor.reset (.load c.lesson)).agrees hreset, ?_⟩, rfl⟩
  rw [hsteps, hhints, ← h.lesson]
  rfl

/-- Going on to the next step counts one, and the session goes on exactly if there are steps
left. -/
theorem obey_next (h : Stands l typed c) (hleft : stepsDone typed < l.length) {line : String}
    (hline : word line ∉ ["q", "h", "r"]) : Stands l (typed ++ [line]) (c.obey .next).2.1 ∧
      ((c.obey .next).2.2 = true ↔ stepsDone (typed ++ [line]) < l.length) := by
  have hrestart : word line ≠ "r" := fun he => hline (by simp [he])
  have hhint : word line ≠ "h" := fun he => hline (by simp [he])
  have hsteps : stepsDone (typed ++ [line]) = stepsDone typed + 1 := by
    rw [stepsDone_concat, if_neg hrestart, if_neg hline]
  have hhints : hintsAsked (typed ++ [line]) = hintsAsked typed := by
    rw [hintsAsked_concat, if_neg hrestart, if_neg hhint]
    rfl
  have hadvance : Stands l (typed ++ [line]) { c with tutor := c.tutor.advance } :=
    h.act .advance .forward rfl (Tutor.session?_advance h.agrees)
      (by rw [hsteps, Tutor.Deed.move, if_pos hleft]) hhints.symm rfl
  have hcompleted := (hadvance.agrees.index _ hadvance.held.2).2
  have hle := hadvance.stepsDone_le
  change c.tutor.advance.phase = .completed ↔ stepsDone (typed ++ [line]) = l.length at hcompleted
  unfold Console.obey
  dsimp only
  split
  · next hdone => exact ⟨hadvance, by simp [hcompleted.1 hdone]⟩
  · next hmore =>
    refine ⟨hadvance, iff_of_true rfl (Nat.lt_of_le_of_ne hle fun he => hmore (hcompleted.2 he))⟩

/-- What a line asks for changes the session as the line changes the counts, and the session goes on
exactly if the line does not quit and leaves steps. -/
theorem obey (h : Stands l typed c) (hleft : stepsDone typed < l.length) (line : String) :
    Stands l (typed ++ [line]) (c.obey (.ofLine line)).2.1 ∧
      ((c.obey (.ofLine line)).2.2 = true ↔ word line ≠ "q" ∧
      stepsDone (typed ++ [line]) < l.length) := by
  rw [ofLine_eq]
  by_cases hquit : word line = "q"
  · obtain ⟨hstands, hends⟩ := h.obey_quit hquit
    rw [if_pos hquit]
    exact ⟨hstands, by simp [hends, hquit]⟩
  rw [if_neg hquit]
  by_cases hhint : word line = "h"
  · obtain ⟨hstands, hgoes⟩ := h.obey_hint hhint
    rw [if_pos hhint]
    exact ⟨hstands, iff_of_true hgoes ⟨hquit, by simpa [stepsDone_concat, hhint] using hleft⟩⟩
  rw [if_neg hhint]
  by_cases hrestart : word line = "r"
  · obtain ⟨hstands, hgoes⟩ := h.obey_restart hrestart
    rw [if_pos hrestart]
    exact ⟨hstands, iff_of_true hgoes ⟨hquit,
      by simpa [stepsDone_concat, hrestart] using l.length_pos⟩⟩
  · have hnext : word line ∉ ["q", "h", "r"] := by simp [hquit, hhint, hrestart]
    obtain ⟨hstands, hgoes⟩ := h.obey_next hleft hnext
    rw [if_neg hrestart]
    exact ⟨hstands, hgoes.trans (by simp [hquit])⟩

/-- When lines are typed, after others with which the session went on, those that are read change
the session as they change the counts. -/
theorem play (h : Stands l typed c) (hgoes : GoesOn l.length typed) (lines : List String) :
    ∃ read, Reading l.length (typed ++ lines) (typed ++ read) (typed.length + (c.play lines).2.1) ∧
      Stands l (typed ++ read) (c.play lines).2.2 := by
  -- On the lines still to come: the first of them, once it is obeyed, is among those that were
  -- typed before.
  induction lines generalizing typed c with
  | nil =>
    refine ⟨[], ?_, ?_⟩
    · rw [List.append_nil]
      exact .exhausted hgoes
    · rw [List.append_nil]
      exact h
  | cons line rest ih =>
    obtain ⟨hstands, hon⟩ := h.obey (hgoes.left typed List.prefix_rfl) line
    rcases hobey : c.obey (.ofLine line) with ⟨text, c', on⟩
    rw [hobey] at hstands hon
    cases on with
    | true =>
      rw [play_goesOn hobey]
      obtain ⟨read, hreading, hend⟩ := ih hstands (goesOn_concat.2 ⟨hgoes, hon.1 rfl⟩)
      refine ⟨line :: read, ?_, ?_⟩
      · simpa [Nat.add_assoc, Nat.add_comm 1] using hreading
      · simpa using hend
    | false =>
      rw [play_stops hobey]
      have hstops : word line = "q" ∨ stepsDone (typed ++ [line]) = l.length := by
        by_contra hno
        rw [not_or] at hno
        have hmore := Nat.lt_of_le_of_ne hstands.stepsDone_le hno.2
        cases hon.2 ⟨hno.1, hmore⟩
      exact ⟨[line], .stopped hgoes hstops, hstands⟩

/-- A hint that is asked for is given, at every time of a session with a lesson of the catalog. -/
theorem hint (h : Stands l typed c) (hl : l ∈ Catalog.lessons) :
    ∃ hint, c.tutor.requestHint.1 = .ok (some hint) := by
  obtain ⟨hlesson, hattempt⟩ := h.held
  obtain ⟨hlt, heq⟩ := h.agrees.coherent.hint l _ hlesson hattempt
  obtain ⟨hint, hhint⟩ :=
    Tutor.hint_catalog hl (List.getElem_mem hlt) (min (stepsDone typed) (l.length - 1) + 1)
  exact ⟨hint, by rw [heq, hhint]; rfl⟩

end Stands

/-- What is typed after the lines that are read is not looked at. -/
theorem play_take (c : Console) (lines others : List String)
    (h : (c.play lines).2.1 ≤ lines.length) :
    c.play (lines.take (c.play lines).2.1 ++ others) = c.play lines := by
  induction lines generalizing c with
  | nil => exact absurd h (Nat.not_succ_le_zero 0)
  | cons line rest ih =>
    rcases hobey : c.obey (.ofLine line) with ⟨text, c', on⟩
    cases on with
    | true =>
      simp only [play_goesOn hobey] at h ⊢
      rw [List.take_succ_cons, List.cons_append, play_goesOn hobey,
        ih c' (Nat.le_of_succ_le_succ h)]
    | false => rw [play_stops hobey, List.take_succ_cons, List.cons_append, play_stops hobey]

end

/-! ## The end of a session -/

/-- A session with a lesson of the catalog is that lesson taken up, and the lines played. -/
theorem run_id {l : Lesson} (hl : l ∈ Catalog.lessons) (lines : List String) : run l.id lines =
    { text := (start l).1 ++ ((start l).2.play lines).1 ++ ((start l).2.play lines).2.2.farewell
      stats := ((start l).2.play lines).2.2.tutor.stats?
      prompts := ((start l).2.play lines).2.1
      journal := ((start l).2.play lines).2.2.close.tell.1 } := by
  rw [run, Catalog.find?_id hl]

/-- What is left of a session with a lesson of the catalog: the lines that are read tell it. -/
structure Told (l : Lesson) (lines read : List String) : Prop where
  /-- Reading ends with these lines, … -/
  reading : Reading l.length lines read (run l.id lines).prompts
  /-- … and with no others. -/
  unique : ∀ read' asked, Reading l.length lines read' asked → read' = read ∧
    asked = (run l.id lines).prompts
  /-- Never more steps are done than there are. -/
  bounded : stepsDone read ≤ l.length
  /-- The lesson is completed exactly if all of them are done. -/
  completed : ((start l).2.play lines).2.2.tutor.phase = .completed ↔ stepsDone read = l.length
  /-- The statistics are what the lines count. No time is counted, as nothing plays by itself. -/
  stats : (run l.id lines).stats = some (Tutor.statistics l (stepsDone read) (hintsAsked read) 0)
  /-- Once the session has stopped, what is typed later is not looked at. -/
  unread : (run l.id lines).prompts = read.length →
    ∀ others, run l.id (read ++ others) = run l.id lines
  /-- Each hint that is asked for is given. -/
  hinted : ∀ typed line, typed ++ [line] <+: read → word line = "h" →
    ∃ hint, ((start l).2.play typed).2.2.tutor.requestHint.1 = .ok (some hint)

/-- Whatever is typed in a session with a lesson of the catalog, up to the end of the input: the
session ends, and the lines alone tell how. Lines are read up to the first that quits or does the
last step, or all of them; the steps and the hints in the statistics are those since the last start
among the lines that are read, and the lesson is completed exactly if all steps are done. -/
theorem run_told {l : Lesson} (hl : l ∈ Catalog.lessons) (lines : List String) :
    ∃ read, Told l lines read := by
  have hstart := stands_start l
  have hnil : GoesOn l.length [] := .nil l.length_pos
  obtain ⟨read, hreading, hend⟩ := hstart.play hnil lines
  simp only [List.nil_append, List.length_nil, Nat.zero_add] at hreading hend
  refine ⟨read, ?_, ?_, hend.stepsDone_le, (hend.agrees.index _ hend.held.2).2, ?_, ?_, ?_⟩
  · rw [run_id hl]
    exact hreading
  · intro read' asked h'
    rw [run_id hl]
    exact hreading.unique h'
  · rw [run_id hl]
    dsimp only
    rw [Tutor.stats?_eq hend.agrees, hend.session]
    rfl
  · intro hstopped others
    rw [run_id hl] at hstopped
    dsimp only at hstopped
    have hle : ((start l).2.play lines).2.1 ≤ lines.length := by
      rw [hstopped, hreading.eq_take]
      exact List.length_take_le' _ _
    rw [run_id hl, run_id hl, hreading.eq_take, play_take _ _ others hle]
  · intro typed line hread hline
    have hgoes := hreading.goesOn hread
    obtain ⟨read', hreading', hstands⟩ := hstart.play hnil typed
    simp only [List.nil_append, List.length_nil, Nat.zero_add] at hreading' hstands
    exact hstands.hint hl

/-- A lesson of three steps is started over after the first one, and is done with the seventh line.
What was done before does not count, and the last two lines are not read. -/
theorem run_told_restarted :
    let lines := ["", " H\t", "r", "x", "h", "", "\u3000", "q", ""]
    Catalog.lin001 ∈ Catalog.lessons ∧ Told Catalog.lin001 lines (lines.take 7) ∧
      (run "lin_001" lines).prompts = 7 ∧
      (run "lin_001" lines).stats = some (Tutor.statistics Catalog.lin001 3 1 0) := by
  intro lines
  have hl : Catalog.lin001 ∈ Catalog.lessons := by simp [Catalog.lessons, Catalog.categories]
  have hprompts : (run Catalog.lin001.id lines).prompts = 7 := by decide +kernel
  have hcounts : stepsDone (lines.take 7) = 3 ∧ hintsAsked (lines.take 7) = 1 := by decide +kernel
  obtain ⟨read, h⟩ := run_told hl lines
  obtain rfl : read = lines.take 7 := hprompts ▸ h.reading.eq_take
  refine ⟨hl, h, hprompts, ?_⟩
  have hstats := h.stats
  rw [hcounts.1, hcounts.2] at hstats
  exact hstats

end Console

end EquationStudio
