import EquationStudio.Proofs.Fields
import EquationStudio.Proofs.Tutor.Step

/-!
# Reading lessons

`Datum.TellsLesson` says which record tells which lesson, without regard to the order in which the
parts are looked at. `Lesson.ofRecord` reads exactly these records (`Lesson.ofRecord_eq_ok`), and
what it says of any other is that it breaks the schema or that its steps cannot be played, as long
as the integers in it can be written (`Lesson.ofRecord_orderly`). A tutor that is given such a
record stays as it is.
-/

namespace EquationStudio

/-! ## Integers that can be written -/

/-- An integer that has not too many digits is written. -/
theorem exists_integerText {n : Int} (h : n.natAbs < Nat.pow 10 writtenDigits) :
    ∃ digits, integerText n = .ok digits :=
  ⟨toString n, if_pos h⟩

namespace Datum

mutual

/-- All integers in a datum. -/
def integers : Datum → List Int
  | int n => [n]
  | list items => itemIntegers items
  | record fields => fieldIntegers fields
  | null | bool _ | float _ | text _ => []

/-- All integers in a list. -/
def itemIntegers : List Datum → List Int
  | [] => []
  | x :: xs => x.integers ++ itemIntegers xs

/-- All integers in the values of fields. -/
def fieldIntegers : List (String × Datum) → List Int
  | [] => []
  | (_, x) :: fs => x.integers ++ fieldIntegers fs

end

/-- A datum none of whose integers has too many digits to be written. -/
def Displayable (d : Datum) : Prop := ∀ n ∈ d.integers, n.natAbs < Nat.pow 10 writtenDigits

instance (d : Datum) : Decidable d.Displayable :=
  inferInstanceAs (Decidable (∀ n ∈ d.integers, n.natAbs < Nat.pow 10 writtenDigits))

/-- The integers in a list are those in its members. -/
theorem mem_integers_list {items : List Datum} {n : Int} :
    n ∈ (list items).integers ↔ ∃ x ∈ items, n ∈ x.integers := by
  rw [integers]
  induction items with
  | nil => simp [itemIntegers]
  | cons x xs ih => simp [itemIntegers, ih]

/-- The integers in a record are those in its values. -/
theorem mem_integers_record {fields : Fields} {n : Int} :
    n ∈ (record fields).integers ↔ ∃ f ∈ fields, n ∈ f.2.integers := by
  rw [integers]
  induction fields with
  | nil => simp [fieldIntegers]
  | cons f fs ih => simp [fieldIntegers, ih]

/-- The members of a displayable list are displayable. -/
theorem Displayable.item {items : List Datum} (h : (list items).Displayable) {x : Datum}
    (hx : x ∈ items) : x.Displayable :=
  fun n hn => h n (mem_integers_list.2 ⟨x, hx, hn⟩)

/-- What is found in a displayable record is displayable. -/
theorem Displayable.get {fields : Fields} (h : (record fields).Displayable) (key : String) :
    (Fields.get fields key).Displayable := by
  unfold Fields.get
  cases hget : Fields.get? fields key with
  | none =>
    intro n hn
    cases hn
  | some x => exact fun n hn => h n (mem_integers_record.2 ⟨_, Fields.mem_of_get? hget, hn⟩)

mutual

/-- A displayable datum is displayed. -/
theorem exists_display : ∀ {d : Datum}, (∀ n ∈ d.integers, n.natAbs < Nat.pow 10 writtenDigits) →
    ∃ shown, d.display = .ok shown
  | null, _ | bool _, _ | float _, _ | text _, _ => ⟨_, by unfold display; rfl⟩
  | int n, h => by
    rw [display]
    exact exists_integerText (h n (by simp [integers]))
  | list items, h => by
    rw [integers] at h
    obtain ⟨shown, hshown⟩ := exists_displayItems h
    exact ⟨_, by rw [display, hshown]; rfl⟩
  | record fields, h => by
    rw [integers] at h
    obtain ⟨shown, hshown⟩ := exists_displayFields h
    exact ⟨_, by rw [display, hshown]; rfl⟩

/-- The members of a displayable list are displayed. -/
theorem exists_displayItems : ∀ {items : List Datum},
    (∀ n ∈ itemIntegers items, n.natAbs < Nat.pow 10 writtenDigits) →
    ∃ shown, displayItems items = .ok shown
  | [], _ => ⟨_, rfl⟩
  | x :: xs, h => by
    rw [itemIntegers, List.forall_mem_append] at h
    obtain ⟨shown, hshown⟩ := exists_display h.1
    obtain ⟨rest, hrest⟩ := exists_displayItems h.2
    exact ⟨_, by rw [displayItems, hshown, ok_bind, hrest]; rfl⟩

/-- The fields of a displayable record are displayed. -/
theorem exists_displayFields : ∀ {fields : Fields},
    (∀ n ∈ fieldIntegers fields, n.natAbs < Nat.pow 10 writtenDigits) →
    ∃ shown, displayFields fields = .ok shown
  | [], _ => ⟨_, rfl⟩
  | (key, x) :: fs, h => by
    rw [fieldIntegers, List.forall_mem_append] at h
    obtain ⟨shown, hshown⟩ := exists_display h.1
    obtain ⟨rest, hrest⟩ := exists_displayFields h.2
    exact ⟨_, by rw [displayFields, hshown, ok_bind, hrest]; rfl⟩

end

end Datum

/-! ## Records that tell a lesson -/

/-- A field holds a text, and not all characters of that are blank. -/
def Fields.Says (fields : Fields) (key s : String) : Prop :=
  Fields.get fields key = .text s ∧ ∃ c ∈ s.toList, isBlank c = false

/-- Which record tells which step. -/
inductive Datum.TellsStep : Datum → Step → Prop
  | record {fields : Fields} {s : Step}
    (number : Fields.get fields "step" = .int s.number) (positive : 1 ≤ s.number)
    (action : Fields.get fields "action" = .text s.action.name)
    (equation : Fields.Says fields "equation" s.equation)
    (explanation : Fields.Says fields "explanation" s.explanation)
    (operand : Fields.get fields "value" = s.operand)
    (kind : s.operand = .null ∨ (∃ n, s.operand = .int n) ∨ (∃ x, s.operand = .float x) ∨
      ∃ t, s.operand = .text t) : TellsStep (.record fields) s

/-- Which record tells which lesson. -/
inductive Datum.TellsLesson : Datum → Lesson → Prop
  | record {fields : Fields} {l : Lesson} {items : List Datum}
    (id : Fields.Says fields "id" l.id) (name : Fields.Says fields "name" l.name)
    (equation : Fields.Says fields "equation" l.equation)
    (topic : Fields.Says fields "topic" l.topic)
    (difficulty : Fields.get fields "difficulty" = .text l.difficulty.name)
    (steps : Fields.get fields "steps" = .list items) (some : items ≠ [])
    (each : List.Forall₂ TellsStep items l.steps)
    (increasing : (l.steps.map Step.number).Pairwise (· < ·)) : TellsLesson (.record fields) l

/-! ## Faults of what is authored -/

/-- A fault of the schema, or the special case of steps that cannot be played. -/
def Fault.IsAuthored (fault : Fault) : Prop :=
  (∃ cause, fault = .schema cause) ∨ ∃ cause, fault = .sequence cause

/-- A computation that fails only with faults of what is authored. -/
def Orderly {α : Type} (x : Except Fault α) : Prop := ∀ fault, x = .error fault → fault.IsAuthored

/-- What succeeds is orderly. -/
theorem Orderly.ok {α : Type} (a : α) : Orderly (.ok a : Except Fault α) := nofun

/-- A fault of the schema is orderly. -/
theorem Orderly.schema {α : Type} (cause : SchemaFault) :
    Orderly (.error (.schema cause) : Except Fault α) := by
  rintro _ ⟨⟩
  exact .inl ⟨cause, rfl⟩

/-- A fault of steps is orderly. -/
theorem Orderly.sequence {α : Type} (cause : SequenceFault) :
    Orderly (.error (.sequence cause) : Except Fault α) := by
  rintro _ ⟨⟩
  exact .inr ⟨cause, rfl⟩

/-- A sequence of two computations is orderly if both are. -/
theorem Orderly.bind {α β : Type} {x : Except Fault α} {f : α → Except Fault β} (hx : Orderly x)
    (hf : ∀ a, x = .ok a → Orderly (f a)) : Orderly (x >>= f) :=
  forall_error_of_bind hx hf

/-! ## What is read -/

section
variable {fields : Fields} {key place s : String} {d : Datum}

/-- A text is not blank exactly if one of its characters is not. -/
theorem isBlankText_eq_false : isBlankText s = false ↔ ∃ c ∈ s.toList, isBlank c = false := by
  simp [isBlankText, List.all_eq_false]

/-- A text that is required is the one that the field says. -/
theorem requireText_eq_ok : requireText fields key place = .ok s ↔ Fields.Says fields key s := by
  unfold requireText Fields.Says
  split
  · next t ht =>
    rw [ht, Datum.text.injEq, ← isBlankText_eq_false]
    constructor
    · intro h
      split at h
      · cases h
      · next hblank =>
        cases h
        exact ⟨rfl, Bool.not_eq_true _ ▸ hblank⟩
    · rintro ⟨rfl, hblank⟩
      rw [hblank]
      rfl
  · next hother => exact ⟨nofun, fun h => absurd h.1 (hother s)⟩

/-- A text is refused for the schema only. -/
theorem requireText_orderly (fields : Fields) (key place : String) :
    Orderly (requireText fields key place) := by
  unfold requireText
  split
  · split
    · exact .schema _
    · exact .ok _
  · exact .schema _

/-- A datum names an action exactly if it is the text of its name. -/
theorem Action.ofDatum?_eq_some {a : Action} : Action.ofDatum? d = some a ↔ d = .text a.name := by
  constructor
  · intro h
    unfold ofDatum? at h
    split at h
    · next t =>
      have hname : (a.name == t) = true := List.find?_some (p := fun b : Action => b.name == t) h
      rw [eq_of_beq hname]
    · cases h
  · rintro rfl
    cases a <;> rfl

/-- A datum names a difficulty exactly if it is the text of its name. -/
theorem Difficulty.ofDatum?_eq_some {difficulty : Difficulty} :
    Difficulty.ofDatum? d = some difficulty ↔ d = .text difficulty.name := by
  constructor
  · intro h
    unfold ofDatum? at h
    split at h
    · next t =>
      have hname : (difficulty.name == t) = true :=
        List.find?_some (p := fun b : Difficulty => b.name == t) h
      rw [eq_of_beq hname]
    · cases h
  · rintro rfl
    cases difficulty <;> rfl

/-- What can be the operand of a step is null, a number or a text. -/
theorem Datum.isOperand_iff : d.isOperand = true ↔
    d = .null ∨ (∃ n, d = .int n) ∨ (∃ x, d = .float x) ∨ ∃ t, d = .text t := by
  cases d <;> simp [isOperand]

/-! ### Steps -/

namespace Step

/-- The number of a step, as the record has it. -/
def readNumber (fields : Fields) (place : String) : Except Fault Int :=
  match Fields.get fields "step" with
  | .int n => if n < 1 then .error (.sequence (.stepNumber place)) else .ok n
  | _ => .error (.sequence (.stepNumber place))

/-- The action of a step, as the record has it. -/
def readAction (fields : Fields) (place : String) : Except Fault Action :=
  match Action.ofDatum? (Fields.get fields "action") with
  | some a => .ok a
  | none => do .error (.schema (.actionUnknown place (← (Fields.get fields "action").display)))

/-- The operand of a step, as the record has it. -/
def readOperand (fields : Fields) (place : String) : Except Fault Datum :=
  if (Fields.get fields "value").isOperand then .ok (Fields.get fields "value")
  else .error (.schema (.stepValue place))

/-- A step is read part by part. -/
theorem ofRecord_record (fields : Fields) (place : String) : ofRecord (.record fields) place = (do
    let number ← readNumber fields place
    let action ← readAction fields place
    let operand ← readOperand fields place
    let equation ← requireText fields "equation" place
    let explanation ← requireText fields "explanation" place
    return { number, equation, action, explanation, operand }) := by
  unfold ofRecord readNumber readAction readOperand
  dsimp only
  cases Fields.get fields "step" with
  | int n =>
    dsimp only
    cases Action.ofDatum? (Fields.get fields "action") with
    | none =>
      by_cases hn : n < 1
      · simp only [if_pos hn, error_bind]
      · simp only [if_neg hn, ok_bind, bind_assoc]
        rfl
    | some a => by_cases hn : n < 1 <;> cases (Fields.get fields "value").isOperand <;> simp [hn]
  | _ => rfl

/-- The number that is read is the positive integer of the field. -/
theorem readNumber_eq_ok {n : Int} :
    readNumber fields place = .ok n ↔ Fields.get fields "step" = .int n ∧ 1 ≤ n := by
  unfold readNumber
  split
  · next m hm =>
    rw [hm, Datum.int.injEq]
    split
    · next hlt => exact ⟨nofun, by rintro ⟨rfl, hle⟩; omega⟩
    · next hle =>
      constructor
      · rintro ⟨⟩
        exact ⟨rfl, by omega⟩
      · rintro ⟨rfl, -⟩
        rfl
  · next hother => exact ⟨nofun, fun h => absurd h.1 (hother n)⟩

/-- The action that is read is the one that the field names. -/
theorem readAction_eq_ok {a : Action} :
    readAction fields place = .ok a ↔ Fields.get fields "action" = .text a.name := by
  rw [← Action.ofDatum?_eq_some]
  unfold readAction
  cases Action.ofDatum? (Fields.get fields "action") with
  | none => cases (Fields.get fields "action").display <;> exact ⟨nofun, nofun⟩
  | some b => simp

/-- The operand that is read is the null, number or text of the field. -/
theorem readOperand_eq_ok {operand : Datum} : readOperand fields place = .ok operand ↔
    Fields.get fields "value" = operand ∧ operand.isOperand = true := by
  unfold readOperand
  split
  · next h =>
    rw [Except.ok.injEq]
    exact ⟨fun he => ⟨he, he ▸ h⟩, And.left⟩
  · next h => exact ⟨nofun, by rintro ⟨rfl, h'⟩; exact absurd h' h⟩

/-- The step that is read of a record is the one that the record tells. -/
theorem ofRecord_eq_ok {step : Step} : ofRecord d place = .ok step ↔ d.TellsStep step := by
  constructor
  · intro h
    cases d with
    | record fields =>
      rw [ofRecord_record] at h
      obtain ⟨number, hnumber, h⟩ := ok_of_bind h
      obtain ⟨action, haction, h⟩ := ok_of_bind h
      obtain ⟨operand, hoperand, h⟩ := ok_of_bind h
      obtain ⟨equation, hequation, h⟩ := ok_of_bind h
      obtain ⟨explanation, hexplanation, h⟩ := ok_of_bind h
      cases h
      obtain ⟨hnumber, hpositive⟩ := readNumber_eq_ok.1 hnumber
      obtain ⟨hoperand, hkind⟩ := readOperand_eq_ok.1 hoperand
      exact .record hnumber hpositive (readAction_eq_ok.1 haction) (requireText_eq_ok.1 hequation)
        (requireText_eq_ok.1 hexplanation) hoperand (Datum.isOperand_iff.1 hkind)
    | _ => cases h
  · rintro ⟨number, positive, action, equation, explanation, operand, kind⟩
    rw [ofRecord_record, readNumber_eq_ok.2 ⟨number, positive⟩, ok_bind,
      readAction_eq_ok.2 action, ok_bind, readOperand_eq_ok.2 ⟨operand, Datum.isOperand_iff.2 kind⟩,
      ok_bind, requireText_eq_ok.2 equation,
      ok_bind, requireText_eq_ok.2 explanation]
    rfl

/-- A record of a step that can be displayed is read in an orderly way. -/
theorem ofRecord_orderly (hd : d.Displayable) (place : String) : Orderly (ofRecord d place) := by
  cases d with
  | record fields =>
    have hnumber : Orderly (readNumber fields place) := by
      unfold readNumber
      split
      · split
        · exact .sequence _
        · exact .ok _
      · exact .sequence _
    have haction : Orderly (readAction fields place) := by
      unfold readAction
      split
      · exact .ok _
      · obtain ⟨shown, hshown⟩ := Datum.exists_display (hd.get "action")
        rw [hshown]
        exact .schema _
    have hoperand : Orderly (readOperand fields place) := by
      unfold readOperand
      split
      · exact .ok _
      · exact .schema _
    rw [ofRecord_record]
    refine hnumber.bind fun _ _ => haction.bind fun _ _ => hoperand.bind fun _ _ => ?_
    exact (requireText_orderly _ _ _).bind fun _ _ =>
      (requireText_orderly _ _ _).bind fun _ _ => .ok _
  | _ => exact .sequence _

end Step

/-- The number of a step that a displayable record tells has not too many digits. -/
theorem Datum.TellsStep.number_lt {step : Step} (h : d.TellsStep step) (hd : d.Displayable) :
    step.number.natAbs < Nat.pow 10 writtenDigits := by
  obtain ⟨number⟩ := h
  refine hd.get "step" step.number ?_
  rw [number, integers]
  exact .head _

end

/-! ### Lists of steps -/

section
variable {place : String} {items : List Datum} {steps : List Step}

/-- The steps that are read of a list are those that its members tell, one by one. -/
theorem Lesson.readSteps_eq_ok {number : Nat} :
    readSteps place number items = .ok steps ↔ List.Forall₂ Datum.TellsStep items steps := by
  induction items generalizing number steps with
  | nil =>
    rw [List.forall₂_nil_left_iff]
    exact ⟨fun h => (Except.ok.inj h).symm, by rintro rfl; rfl⟩
  | cons d ds ih =>
    constructor
    · intro h
      obtain ⟨s, hs, h⟩ := ok_of_bind h
      obtain ⟨rest, hrest, h⟩ := ok_of_bind h
      cases h
      exact .cons (Step.ofRecord_eq_ok.1 hs) (ih.1 hrest)
    · intro h
      cases h with
      | cons hd hds => rw [readSteps, Step.ofRecord_eq_ok.2 hd, ok_bind, ih.2 hds]; rfl

/-- Records of steps that can be displayed are read in an orderly way. -/
theorem Lesson.readSteps_orderly (hitems : ∀ d ∈ items, d.Displayable)
    (place : String) (number : Nat) : Orderly (readSteps place number items) := by
  induction items generalizing number with
  | nil => exact .ok _
  | cons d ds ih =>
    refine (Step.ofRecord_orderly (hitems d (.head _)) _).bind fun _ _ => ?_
    exact (ih (fun d hd => hitems d (.tail _ hd)) _).bind fun _ _ => .ok _

/-- Steps whose numbers increase are accepted as they are. -/
theorem checkIncreasing_of_pairwise {previous : Int}
    (h : (previous :: steps.map Step.number).Pairwise (· < ·)) :
    checkIncreasing place previous (steps.map some) = .ok ⟨steps, h⟩ := by
  induction steps generalizing previous with
  | nil => rfl
  | cons s steps ih =>
    obtain ⟨habove, hrest⟩ := List.pairwise_cons.1 h
    rw [List.map_cons, checkIncreasing, dif_pos (habove s.number (.head _)), ih hrest]

/-- Steps that are accepted are the steps that are offered. -/
theorem eq_of_checkIncreasing {previous : Int}
    {checked : { steps : List Step // (previous :: steps.map Step.number).Pairwise (· < ·) }}
    (h : checkIncreasing place previous (steps.map some) = .ok checked) : checked.1 = steps := by
  induction steps generalizing previous with
  | nil => cases h; rfl
  | cons s steps ih =>
    rw [List.map_cons, checkIncreasing] at h
    split at h
    · split at h
      · next hrest => cases h; rw [← ih hrest]
      · cases h
    · obtain ⟨_, -, h⟩ := ok_of_bind h
      obtain ⟨_, -, h⟩ := ok_of_bind h
      cases h

/-- Steps whose numbers can be written are accepted, or refused for their order. -/
theorem checkIncreasing_orderly {previous : Int}
    (hprevious : previous.natAbs < Nat.pow 10 writtenDigits)
    (hsteps : ∀ s ∈ steps, s.number.natAbs < Nat.pow 10 writtenDigits) :
    Orderly (checkIncreasing place previous (steps.map some)) := by
  induction steps generalizing previous with
  | nil => exact .ok _
  | cons s steps ih =>
    rw [List.map_cons, checkIncreasing]
    split
    · have hrest := ih (hsteps s (.head _)) fun s hs => hsteps s (.tail _ hs)
      split
      · exact .ok _
      · next fault hfault =>
        rintro _ ⟨⟩
        exact hrest fault hfault
    · obtain ⟨before, hbefore⟩ := exists_integerText hprevious
      obtain ⟨next, hnext⟩ := exists_integerText (hsteps s (.head _))
      rw [hbefore, ok_bind, hnext]
      exact .sequence _

/-- Steps that can be played are accepted as they are. -/
theorem checkSteps_of_playable (h : Playable steps) :
    checkSteps place (some (steps.map some)) = .ok ⟨steps, h⟩ := by
  cases steps with
  | nil => exact absurd rfl h.1
  | cons s steps => rw [checkSteps, checkIncreasing_of_pairwise h.2]

/-- Steps that are accepted to be played are the steps that are offered. -/
theorem eq_of_checkSteps {checked : { steps : List Step // Playable steps }}
    (h : checkSteps place (some (steps.map some)) = .ok checked) : checked.1 = steps := by
  unfold checkSteps at h
  split at h
  · cases h
  · next offered hoffered =>
    cases hoffered
    split at h
    · next s rest hrest hincreasing => cases h; exact eq_of_checkIncreasing hincreasing
    · cases h
    · cases h

/-- Steps whose numbers can be written are accepted to be played, or refused for what they are. -/
theorem checkSteps_orderly (hsteps : ∀ s ∈ steps, s.number.natAbs < Nat.pow 10 writtenDigits) :
    Orderly (checkSteps place (some (steps.map some))) := by
  have hzero : ∀ k, (0 : Int).natAbs < Nat.pow 10 k := fun _ => Nat.pow_pos (Nat.succ_pos 9)
  have hincreasing : Orderly (checkIncreasing place 0 (steps.map some)) :=
    checkIncreasing_orderly (hzero writtenDigits) hsteps
  unfold checkSteps
  dsimp only
  split
  · exact .ok _
  · exact .sequence _
  · next fault hfault =>
    rintro _ ⟨⟩
    exact hincreasing fault hfault

end

/-! ### Lessons -/

namespace Lesson

variable {fields : Fields} {here : String} {d : Datum} {l : Lesson}

/-- The difficulty of a lesson, as the record has it. -/
def readDifficulty (fields : Fields) (here : String) : Except Fault Difficulty :=
  match Difficulty.ofDatum? (Fields.get fields "difficulty") with
  | some difficulty => .ok difficulty
  | none =>
    do .error (.schema (.difficultyUnknown here (← (Fields.get fields "difficulty").display)))

/-- The list of a lesson's steps, as the record has it. -/
def readItems (fields : Fields) (here : String) : Except Fault (List Datum) :=
  match Fields.get fields "steps" with
  | .list (d :: ds) => .ok (d :: ds)
  | _ => .error (.sequence (.noSteps here))

/-- A lesson is read part by part. -/
theorem ofRecord_record (fields : Fields) : ofRecord (.record fields) = (do
    let id ← requireText fields "id" "equation"
    let difficulty ← readDifficulty fields (place id)
    let items ← readItems fields (place id)
    let steps ← readSteps (place id) 1 items
    let name ← requireText fields "name" (place id)
    let equation ← requireText fields "equation" (place id)
    let topic ← requireText fields "topic" (place id)
    let checked ← checkSteps (place id) (some (steps.map some))
    return { id, name, equation, difficulty, topic
             steps := checked
             playable := checked.property }) := by
  unfold ofRecord readDifficulty readItems
  dsimp only
  refine bind_congr fun id => ?_
  cases Difficulty.ofDatum? (Fields.get fields "difficulty") with
  | none => simp only [bind_assoc, error_bind]
  | some difficulty =>
    simp only [ok_bind]
    cases Fields.get fields "steps" with
    | list items => cases items <;> rfl
    | _ => rfl

/-- The difficulty that is read is the one that the field names. -/
theorem readDifficulty_eq_ok {difficulty : Difficulty} :
    readDifficulty fields here = .ok difficulty ↔
    Fields.get fields "difficulty" = .text difficulty.name := by
  rw [← Difficulty.ofDatum?_eq_some]
  unfold readDifficulty
  cases Difficulty.ofDatum? (Fields.get fields "difficulty") with
  | none => cases (Fields.get fields "difficulty").display <;> exact ⟨nofun, nofun⟩
  | some b => simp

/-- The list that is read is that of the field, which has members. -/
theorem readItems_eq_ok {items : List Datum} :
    readItems fields here = .ok items ↔ Fields.get fields "steps" = .list items ∧ items ≠ [] := by
  unfold readItems
  split
  · next d ds hsteps =>
    rw [hsteps, Except.ok.injEq, Datum.list.injEq]
    exact ⟨by rintro rfl; exact ⟨rfl, List.cons_ne_nil _ _⟩, And.left⟩
  · next hother =>
    refine ⟨nofun, fun ⟨hsteps, hne⟩ => ?_⟩
    obtain ⟨d, ds, rfl⟩ := List.exists_cons_of_ne_nil hne
    exact absurd hsteps (hother d ds)

/-- The lesson that is read of a record is the one that the record tells. -/
theorem ofRecord_eq_ok : ofRecord d = .ok l ↔ d.TellsLesson l := by
  constructor
  · intro h
    cases d with
    | record fields =>
      rw [ofRecord_record] at h
      obtain ⟨id, hid, h⟩ := ok_of_bind h
      obtain ⟨difficulty, hdifficulty, h⟩ := ok_of_bind h
      obtain ⟨items, hitems, h⟩ := ok_of_bind h
      obtain ⟨steps, hsteps, h⟩ := ok_of_bind h
      obtain ⟨name, hname, h⟩ := ok_of_bind h
      obtain ⟨equation, hequation, h⟩ := ok_of_bind h
      obtain ⟨topic, htopic, h⟩ := ok_of_bind h
      obtain ⟨checked, hchecked, h⟩ := ok_of_bind h
      cases h
      obtain ⟨hlist, hne⟩ := readItems_eq_ok.1 hitems
      have heach : List.Forall₂ Datum.TellsStep items checked.1 :=
        eq_of_checkSteps hchecked ▸ readSteps_eq_ok.1 hsteps
      exact .record (requireText_eq_ok.1 hid) (requireText_eq_ok.1 hname)
        (requireText_eq_ok.1 hequation)
        (requireText_eq_ok.1 htopic) (readDifficulty_eq_ok.1 hdifficulty) hlist hne heach
        (List.pairwise_cons.1 checked.2.2).2
    | _ => cases h
  · rintro ⟨hid, hname, hequation, htopic, hdifficulty, hlist, hne, heach, -⟩
    rw [ofRecord_record, requireText_eq_ok.2 hid, ok_bind,
      readDifficulty_eq_ok.2 hdifficulty, ok_bind, readItems_eq_ok.2 ⟨hlist, hne⟩, ok_bind,
      readSteps_eq_ok.2 heach, ok_bind, requireText_eq_ok.2 hname,
      ok_bind, requireText_eq_ok.2 hequation, ok_bind, requireText_eq_ok.2 htopic, ok_bind,
      checkSteps_of_playable l.playable]
    rfl

/-- A record that can be displayed is read as a lesson in an orderly way. -/
theorem ofRecord_orderly (hd : d.Displayable) : Orderly (ofRecord d) := by
  cases d with
  | record fields =>
    have hdifficulty : ∀ here, Orderly (readDifficulty fields here) := by
      intro here
      unfold readDifficulty
      split
      · exact .ok _
      · obtain ⟨shown, hshown⟩ := Datum.exists_display (hd.get "difficulty")
        rw [hshown]
        exact .schema _
    have hlist : ∀ here, Orderly (readItems fields here) := by
      intro here
      unfold readItems
      split
      · exact .ok _
      · exact .sequence _
    rw [ofRecord_record]
    refine (requireText_orderly _ _ _).bind fun id _ => (hdifficulty _).bind fun _ _ => ?_
    refine (hlist _).bind fun items hitems => ?_
    have hdisplayable : ∀ x ∈ items, x.Displayable :=
      fun x hx => ((readItems_eq_ok.1 hitems).1 ▸ hd.get "steps").item hx
    refine (readSteps_orderly hdisplayable _ _).bind fun steps hsteps => ?_
    refine (requireText_orderly _ _ _).bind fun _ _ => (requireText_orderly _ _ _).bind fun _ _ =>
      (requireText_orderly _ _ _).bind fun _ _ => ?_
    refine (checkSteps_orderly fun s hs => ?_).bind fun _ _ => .ok _
    obtain ⟨x, hx, htells⟩ := exists_mem_of_forall₂ (readSteps_eq_ok.1 hsteps) hs
    exact htells.number_lt (hdisplayable x hx)
  | _ => exact .schema _

end Lesson

/-- A record is read as a lesson exactly if it tells that lesson: it is a mapping with texts that
are not blank for identifier, name, equation and topic, with the name of a difficulty, and with a
list of steps that is not empty, each a mapping with a positive integer above those of the steps
before it, the name of an action, texts that are not blank for equation and explanation, and as its
value nothing, a number or a text. Any other record whose integers can be written is refused with a
fault of the schema or, as a special case, of the steps, and leaves the tutor as it is, with all
that it has made known. -/
theorem Tutor.loadRecord_decides (t : Tutor) {d : Datum} (hd : d.Displayable) :
    (∀ l, Lesson.ofRecord d = .ok l ↔ d.TellsLesson l) ∧
    ((∀ l, ¬ d.TellsLesson l) →
      (∃ fault, Lesson.ofRecord d = .error fault ∧ fault.IsAuthored) ∧
      (∃ fault, t.loadRecord d = .error fault ∧ fault.IsAuthored) ∧
      t.apply (.loadRecord d) = t) := by
  refine ⟨fun l => Lesson.ofRecord_eq_ok, fun hno => ?_⟩
  obtain ⟨fault, hfault⟩ : ∃ fault, Lesson.ofRecord d = .error fault := by
    cases hread : Lesson.ofRecord d with
    | ok l => exact absurd (Lesson.ofRecord_eq_ok.1 hread) (hno l)
    | error fault => exact ⟨fault, rfl⟩
  have hauthored : fault.IsAuthored := Lesson.ofRecord_orderly hd fault hfault
  obtain ⟨refused, hrefused, hkind⟩ : ∃ refused, t.loadRecord d = .error refused ∧
      refused.IsAuthored := by
    cases d with
    | record fields => exact ⟨fault, by rw [loadRecord, hfault]; rfl, hauthored⟩
    | _ => exact ⟨_, rfl, .inr ⟨.notEquation, rfl⟩⟩
  refine ⟨⟨fault, hfault, hauthored⟩, ⟨refused, hrefused, hkind⟩, ?_⟩
  rw [apply, hrefused, after]

/-- A lesson whose steps are numbered upwards is told by its record. With the steps exchanged, or
with a truth value for the first number, the record tells none, and a tutor who plays the lesson
goes on with it. -/
theorem Tutor.loadRecord_decides_numbers :
    let step (number : Datum) : Datum := .record [("step", number), ("equation", .text "x + 3 = 7"),
      ("action", .text "simplify"), ("explanation", .text "combine"),
      ("value", .float (.finite .zero))]
    let record (numbers : List Datum) : Datum :=
      .record [("id", .text "lin"), ("name", .text "Sums"),
      ("equation", .text "x + 3 = 7"), ("difficulty", .text "beginner"), ("topic", .text "linear"),
      ("steps", .list (numbers.map step))]
    (∃ l, (record [.int 1, .int 4]).TellsLesson l) ∧
    ∀ numbers ∈ [[.int 4, .int 1], [.bool true, .int 4]], (record numbers).Displayable ∧
      (∀ l, ¬ (record numbers).TellsLesson l) ∧
      (run [.loadRecord (record [.int 1, .int 4]), .advance,
        .loadRecord (record numbers)]).attempt?.map
        Attempt.index = some 1 := by
  intro step record
  have hgood : (record [.int 1, .int 4]).Displayable := by decide +kernel
  have hread : (Lesson.ofRecord (record [.int 1, .int 4])).isOk = true := by decide +kernel
  refine ⟨?_, fun numbers hnumbers => ?_⟩
  · cases hl : Lesson.ofRecord (record [.int 1, .int 4]) with
    | ok l => exact ⟨l, ((loadRecord_decides {} hgood).1 l).1 hl⟩
    | error fault => rw [hl] at hread; cases hread
  · have hshort : (record numbers).Displayable := by
      revert numbers
      decide +kernel
    have hrefused : (Lesson.ofRecord (record numbers)).isOk = false := by
      revert numbers
      decide +kernel
    have hplayed : (run [.loadRecord (record [.int 1, .int 4]),
        .advance]).attempt?.map Attempt.index =
        some 1 := by decide +kernel
    obtain ⟨hdecides, hrest⟩ := loadRecord_decides
      (run [.loadRecord (record [.int 1, .int 4]), .advance]) hshort
    have hno : ∀ l, ¬ (record numbers).TellsLesson l := by
      intro l hl
      rw [(hdecides l).2 hl] at hrefused
      cases hrefused
    refine ⟨hshort, hno, ?_⟩
    rw [← hplayed]
    exact congrArg (fun t : Tutor => t.attempt?.map Attempt.index) (hrest hno).2.2

end EquationStudio
