import EquationStudio.Proofs.Lesson.Reading

/-!
# Lessons read from their own records

The record of a lesson that was read is the record that it was read from, with nothing left but the
fields that are known and hold something, in the order in which they are known (`Datum.lessonCore`):
no datum in them is changed. It tells the same lesson, so a lesson is read back from its own record,
and what is made of a record by reading it and writing it down again does not change any more when
that is repeated (`Lesson.read_again`).
-/

namespace EquationStudio

/-- The fields under some keys that hold something, in the order of the keys. -/
def Fields.core (keys : List String) (fields : Fields) : Fields :=
  (keys.map fun key => (key, Fields.get fields key)).filter (·.2.isGiven)

namespace Datum

/-- What is known of a step: its record without other fields and without null. -/
def stepCore : Datum → Datum
  | record fields =>
  record (Fields.core ["step", "equation", "action", "explanation", "value"] fields)
  | d => d

/-- The records of steps that a datum lists. -/
def stepRecords : Datum → List Datum
  | list ds => ds
  | _ => []

/-- What is known of a lesson: its record without other fields, and with what is known of its
steps. -/
def lessonCore : Datum → Datum
  | record fields => record (Fields.core ["id", "name", "equation", "difficulty", "topic"] fields ++
      [("steps", .list ((Fields.get fields "steps").stepRecords.map stepCore))])
  | d => d

section
variable {d : Datum} {s : Step} {l : Lesson}

/-! ## Steps -/

/-- The record of a step is what is known of it in any record that tells it. -/
theorem TellsStep.toRecord_eq (h : d.TellsStep s) : s.toRecord = d.stepCore := by
  obtain ⟨number, -, action, ⟨equation, -⟩, ⟨explanation, -⟩, operand, -⟩ := h
  simp only [stepCore, Fields.core, List.map_cons, List.map_nil, number, action, equation,
    explanation, operand, Step.toRecord]
  cases s.operand <;> rfl

/-- The record of a step tells the step, if any record does. -/
theorem TellsStep.toRecord (h : d.TellsStep s) : s.toRecord.TellsStep s := by
  obtain ⟨-, positive, -, ⟨-, equation⟩, ⟨-, explanation⟩, -, kind⟩ := h
  -- Only where the operand stands depends on whether there is one.
  refine .record rfl positive rfl ⟨rfl, equation⟩ ⟨rfl, explanation⟩ ?_ kind
  cases s.operand <;> rfl

/-- The records of steps are what is known of them in any list of records that tells them. -/
theorem map_toRecord_of_tellsSteps {items : List Datum} {steps : List Step}
    (h : List.Forall₂ TellsStep items steps) : steps.map Step.toRecord = items.map stepCore := by
  induction h with
  | nil => rfl
  | cons hd _ ih => rw [List.map_cons, List.map_cons, ih, hd.toRecord_eq]

/-- The records of steps tell the steps, if any records do. -/
theorem tellsSteps_toRecord {items : List Datum} {steps : List Step}
    (h : List.Forall₂ TellsStep items steps) :
    List.Forall₂ TellsStep (steps.map Step.toRecord) steps := by
  induction h with
  | nil => exact .nil
  | cons hd _ ih => exact .cons hd.toRecord ih

/-! ## Lessons -/

/-- The record of a lesson is what is known of it in any record that tells it. -/
theorem TellsLesson.toRecord_eq (h : d.TellsLesson l) : l.toRecord = d.lessonCore := by
  obtain ⟨⟨id, -⟩, ⟨name, -⟩, ⟨equation, -⟩, ⟨topic, -⟩, difficulty, steps, -, each, -⟩ := h
  simp only [lessonCore, Fields.core, List.map_cons, List.map_nil, id, name, equation, topic,
    difficulty, steps, stepRecords, ← map_toRecord_of_tellsSteps each]
  rfl

/-- The record of a lesson tells the lesson, if any record does. -/
theorem TellsLesson.toRecord (h : d.TellsLesson l) : l.toRecord.TellsLesson l := by
  obtain ⟨⟨-, id⟩, ⟨-, name⟩, ⟨-, equation⟩, ⟨-, topic⟩, -, -, -, each, increasing⟩ := h
  have hsome : l.steps.map Step.toRecord ≠ [] :=
    fun hnil => l.playable.1 (List.map_eq_nil_iff.1 hnil)
  exact .record ⟨rfl, id⟩ ⟨rfl, name⟩ ⟨rfl, equation⟩ ⟨rfl,
    topic⟩ rfl rfl hsome (tellsSteps_toRecord each)
    increasing

end

end Datum

/-! ## Reading again -/

/-- What is made of a record by reading it as a lesson and writing the lesson down. -/
def Lesson.settle (d : Datum) : Except Fault Datum := (Lesson.ofRecord d).map Lesson.toRecord

/-- A lesson that was read is read again from its record. That record is the one that was read, each
datum as it was, without the fields that are not known and those that hold nothing; and it is made
of itself. -/
theorem Lesson.read_again {d : Datum} {l : Lesson} (h : ofRecord d = .ok l) :
    ofRecord l.toRecord = .ok l ∧ l.toRecord = d.lessonCore ∧
      settle d = .ok d.lessonCore ∧ settle d.lessonCore = .ok d.lessonCore := by
  have htells := ofRecord_eq_ok.1 h
  have hrecord := htells.toRecord_eq
  have hread : ofRecord l.toRecord = .ok l := ofRecord_eq_ok.2 htells.toRecord
  refine ⟨hread, hrecord, ?_, ?_⟩
  · rw [settle, h, ← hrecord]
    rfl
  · rw [settle, ← hrecord, hread]
    rfl

/-- A lesson whose steps leave gaps in their numbers, with blanks around its texts: zeros of both
kinds and an empty text stay as operands, a null and two fields that are not known are dropped. -/
theorem Lesson.read_again_operands :
    let step (number : Int) (rest : Fields) : Datum := .record ([("step", .int number),
      ("equation", .text " x = 1 "), ("action", .text "simplify"),
      ("explanation", .text "combine\n")] ++ rest)
    let lesson (steps : List Datum) (rest : Fields) : Datum := .record ([("id", .text "lin "),
      ("name", .text "Sums"), ("equation", .text "x = 1"), ("difficulty", .text "advanced"),
      ("topic", .text "\tlinear"), ("steps", .list steps)] ++ rest)
    ∃ l, ofRecord (lesson [step 2 [("value", .int 0), ("hint", .text "add")],
        step 5 [("value", .null)], step 9 [("value", .text "")],
        step 12 [("value", .float (.finite .zero))]] [("author", .null)]) = .ok l ∧
      l.toRecord = lesson [step 2 [("value", .int 0)], step 5 [], step 9 [("value", .text "")],
        step 12 [("value", .float (.finite .zero))]] [] ∧
      ofRecord l.toRecord = .ok l := by
  intro step lesson
  have hread : (ofRecord (lesson [step 2 [("value", .int 0), ("hint", .text "add")],
      step 5 [("value", .null)], step 9 [("value", .text "")],
      step 12 [("value", .float (.finite .zero))]]
      [("author", .null)])).toOption.isSome = true := by decide +kernel
  obtain ⟨l, hl⟩ := Option.isSome_iff_exists.1 hread
  have h := toOption_eq_some.1 hl
  obtain ⟨hagain, hrecord, -⟩ := read_again h
  exact ⟨l, h, hrecord.trans rfl, hagain⟩

end EquationStudio
