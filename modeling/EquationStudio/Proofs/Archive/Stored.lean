import EquationStudio.Proofs.Archive.Refused

/-!
# What an archive stores

The records of an archive (`Archive.stored`) change in four ways only, whatever kind of identifier
and constraints they have: one is saved in front of those with other identifiers, those with an
identifier are removed, all are forgotten, or nothing happens to them (`Archive.Stores.apply`). A
request to save that answers an identifier has saved the record under it (`Archive.Stores.save`).
-/

namespace EquationStudio

namespace Database

variable {settings : Datum} {records : List Fields} {table : Fields}

/-- A table without the entry of an identifier is a table. -/
theorem exists_withdraw {id left : Datum} (h : withdraw (.record table) id = .ok left) :
    ∃ table', left = .record table' := by
  cases table with
  | nil =>
    cases h
    exact ⟨_, rfl⟩
  | cons f table =>
    cases id with
    | text s =>
      cases h
      exact ⟨_, rfl⟩
    | null | bool | int | float | list | record =>
      obtain ⟨key, -, h⟩ := ok_of_bind h
      cases h
      exact ⟨_, rfl⟩

/-- What is done to a table for a record that is saved leaves a table. -/
theorem exists_tabled {id items left : Datum} {entered : Option String}
    (h : tabled (.record table) id items = .ok (left, entered)) :
    ∃ table', left = .record table' := by
  unfold tabled at h
  split at h
  · obtain ⟨members, -, h⟩ := ok_of_bind h
    obtain ⟨entry, hentry, h⟩ := ok_of_bind h
    cases h
    obtain ⟨key, -, hentry⟩ := ok_of_bind hentry
    cases hentry
    exact ⟨_, rfl⟩
  · obtain ⟨entry, hwithdraw, h⟩ := ok_of_bind h
    cases h
    exact exists_withdraw hwithdraw

/-- A record that is saved stands in front of those with other identifiers, as many as there is room
for. -/
theorem front_of_save {new : Fields} {id : Datum} (hid : ownId new = id) {db : Database}
    (h : (ofParts settings records table).save new id = .ok db) :
    ∃ table', db = ofParts settings (InStep.front new records) table' := by
  have hfront : (Datum.record new :: (records.filter fun r => !(ownId r).equal id).map .record).take
      archiveCapacity = (InStep.front new records).map .record := by
    rw [InStep.front, hid, List.map_take, List.map_cons]
  rw [save_eq, equations_ofParts, Datum.members, ok_bind, otherRecords_record, ok_bind, hfront,
    constraints_ofParts] at h
  obtain ⟨⟨table₁, entered⟩, htabled, h⟩ := ok_of_bind h
  obtain ⟨fields, rfl⟩ := exists_tabled htabled
  obtain ⟨ids, -, h⟩ := ok_of_bind h
  obtain ⟨table₂, hretain, h⟩ := ok_of_bind h
  cases hretain
  cases h
  exact ⟨_, set_ofParts _ _⟩

/-- What is left when records are removed. -/
theorem left_of_remove {id : Datum} {removed : Bool} {db : Database}
    (h : (ofParts settings records table).remove id = .ok (removed, db)) :
    ∃ table', db = ofParts settings (records.filter fun r => !(ownId r).equal id) table' := by
  rw [remove, equations_ofParts, Datum.size, ok_bind, Datum.members, ok_bind,
    otherRecords_record, ok_bind, constraints_ofParts] at h
  obtain ⟨table₁, hwithdraw, h⟩ := ok_of_bind h
  obtain ⟨fields, rfl⟩ := exists_withdraw hwithdraw
  cases h
  exact ⟨_, set_ofParts _ _⟩

end Database

namespace Archive

open Database (ofParts ownId InStep)

/-- The records that an archive stores, in their order. -/
def stored (a : Archive) : List Fields :=
  match a.read.1 with
  | .ok db => db.equations.items.map Datum.asFields
  | .error _ => []

/-- An archive whose file is whole and holds the records. -/
structure Stores (a : Archive) (records : List Fields) : Prop where
  whole : a.place.Whole
  read : ∃ settings table, a.read = (.ok (ofParts settings records table), [])

/-- A change that saves a record: what is saved, under the identifier that is answered. -/
def Request.saved? (s : Archive × Supply) : Request → Option Fields
  | save now record =>
    match (s.1.save s.2 now record).1.answer, record.toFields with
    | .ok id, .ok fields => some (stamped fields id now)
    | _, _ => none
  | remove _ | saveSettings _ | clear => none

/-- What a change leaves of the records. -/
inductive Request.Leaves (s : Archive × Supply) (r : Request) (records : List Fields) :
    List Fields → Prop
  | saved {new : Fields} (saves : r.saved? s = some new) :
  Leaves s r records (InStep.front new records)
  | removed {id : Datum} (removes : r = .remove id) :
      Leaves s r records (records.filter fun r' => !(ownId r').equal id)
  | cleared (clears : r = .clear) : Leaves s r records []
  | same (saves : r.saved? s = none) : Leaves s r records records

/-- A change that is committed and leaves a whole file is answered. -/
theorem commit_whole {α : Type} {a : Archive} (ha : a.place.Whole) {db : Database} {answer : α}
    {before changed : Journal} (hkept : (a.commit db answer before changed).archive.place.Whole) :
    (a.commit db answer before changed).answer = .ok answer ∧
      (a.commit db answer before changed).archive =
        { a with place := .file (.document (.record db.fields)) } := by
  rw [archive_commit] at hkept
  unfold commit
  rw [write_whole ha hkept]
  exact ⟨rfl, rfl⟩

/-- A change that is committed and answered leaves a whole file. -/
theorem whole_of_commit {α : Type} {a : Archive} {db : Database} {answer answer' : α}
    {before changed : Journal} (h : (a.commit db answer before changed).answer = .ok answer') :
    (a.commit db answer before changed).archive.place.Whole := by
  by_cases hopen : a.place.Open
  · unfold commit at h ⊢
    cases hdraft : (Datum.record db.fields).toDocument with
    | ok document =>
      rw [write_of_ok hopen hdraft]
      trivial
    | error torn =>
      rw [write_of_torn hopen hdraft] at h
      cases h
  · obtain ⟨path, place⟩ := a
    cases place with
    | blocked | directory => cases h
    | absent | file => exact absurd trivial hopen

namespace Stores

variable {a : Archive} {s : Archive × Supply} {records : List Fields}

/-- Nothing is stored where there is no file. -/
theorem absent (path : String) : ({ path } : Archive).Stores [] := ⟨trivial, _, _, rfl⟩

/-- A document of settings, records and a table stores the records. -/
theorem document (path : String) (settings : Datum) (records : List Fields) (table : Fields) :
    (⟨path, .file (.document (.record (ofParts settings records table).fields))⟩ : Archive).Stores
    records :=
  ⟨trivial, settings, table, congrArg (fun db => (Except.ok db, [])) Database.ofDatum_ofParts⟩

/-- The records are those that the archive stores. -/
theorem stored_eq (h : a.Stores records) : a.stored = records := by
  obtain ⟨settings, table, hread⟩ := h.read
  have hfields : ∀ r : Fields, (Datum.record r).asFields = r := fun _ => rfl
  simp [stored, hread, Datum.items, Function.comp_def, hfields]

/-- A change that commits records and leaves a whole file stores them, and is answered. -/
theorem commit {α : Type} (h : a.Stores records) {settings : Datum}
    {records' : List Fields} {table' : Fields} {answer : α} {before changed : Journal}
    (hkept : (a.commit (ofParts settings records' table') answer before
    changed).archive.place.Whole) :
    (a.commit (ofParts settings records' table') answer before
    changed).archive.Stores records' := by
  rw [(commit_whole h.whole hkept).2]
  exact document a.path settings records' table'

/-- A request to save that answers an identifier, which is the record's own or one that is drawn,
has saved the record under it, in front of the others. -/
theorem save (h : s.1.Stores records) {now : Moment} {record id : Datum}
    (hanswer : (s.1.save s.2 now record).1.answer = .ok id) :
    ∃ fields, record.toFields = .ok fields ∧
      id = (if (Fields.get fields "id").isTruthy then Fields.get fields "id"
      else .text (s.2.draw 12).1) ∧
      ((Request.save now record).apply s).1.Stores
      (InStep.front (stamped fields id now) records) := by
  obtain ⟨settings, table, hread⟩ := h.read
  unfold Request.apply Request.applyUnder
  dsimp only
  unfold Archive.save at hanswer ⊢
  rw [hread] at hanswer ⊢
  dsimp only at hanswer ⊢
  cases hfields : record.toFields with
  | error fault =>
    rw [hfields] at hanswer
    cases hanswer
  | ok fields =>
    rw [hfields] at hanswer
    dsimp only at hanswer ⊢
    generalize hdrawn : (if (Fields.get fields "id").isTruthy then (Fields.get fields "id", s.2)
      else (Datum.text (s.2.draw 12).1, (s.2.draw 12).2)) = drawn at hanswer ⊢
    obtain ⟨id', supply'⟩ := drawn
    have hid := (apply_ite Prod.fst ..).symm.trans (congrArg Prod.fst hdrawn)
    dsimp only at hanswer hid ⊢
    rw [show Fields.set _ "epoch" _ = stamped fields id' now from rfl] at hanswer ⊢
    cases hsave : (ofParts settings records table).save (stamped fields id' now) id' with
    | error fault =>
      rw [hsave] at hanswer
      cases hanswer
    | ok db =>
      rw [hsave] at hanswer
      dsimp only at hanswer ⊢
      obtain ⟨table', rfl⟩ := Database.front_of_save (own_stamped fields id' now).1 hsave
      have hkept := whole_of_commit hanswer
      cases (commit_whole h.whole hkept).1.symm.trans hanswer
      exact ⟨fields, rfl, hid.symm, h.commit hkept⟩

/-- A change that leaves a whole file saves a record in front of the others, removes some, forgets
all or leaves the records as they are. -/
theorem apply (h : s.1.Stores records) (r : Request) (hkept : (r.apply s).1.place.Whole) :
    ∃ records', (r.apply s).1.Stores records' ∧ r.Leaves s records records' := by
  cases hfault : r.fault? s with
  | some fault =>
    -- What is refused leaves all as it was, since the file is whole.
    obtain hsame | ⟨torn, htorn⟩ := kept_or_torn s r hfault
    · refine ⟨records, hsame ▸ h, .same ?_⟩
      cases r with
      | remove | saveSettings | clear => rfl
      | save now record =>
        rw [Request.saved?]
        rw [Request.fault?, Outcome.fault?] at hfault
        cases hanswer : (s.1.save s.2 now record).1.answer with
        | error => rfl
        | ok id =>
          rw [hanswer] at hfault
          cases hfault
    · rw [htorn] at hkept
      cases hkept
  | none =>
    obtain ⟨settings, table, hread⟩ := h.read
    cases r with
    | save now record =>
      rw [Request.fault?, Outcome.fault?] at hfault
      cases hanswer : (s.1.save s.2 now record).1.answer with
      | error fault =>
        rw [hanswer] at hfault
        cases hfault
      | ok id =>
        obtain ⟨fields, hfields, -, hstores⟩ := h.save hanswer
        exact ⟨_, hstores, .saved (by rw [Request.saved?, hanswer, hfields])⟩
    | remove id =>
      unfold Request.apply Request.applyUnder Archive.remove at hkept ⊢
      rw [hread] at hkept ⊢
      dsimp only at hkept ⊢
      cases hremove : (ofParts settings records table).remove id with
      | error fault => exact ⟨records, h, .same rfl⟩
      | ok removed =>
        obtain ⟨removed, db⟩ := removed
        rw [hremove] at hkept
        cases removed with
        | false => exact ⟨records, h, .same rfl⟩
        | true =>
          obtain ⟨table', rfl⟩ := Database.left_of_remove hremove
          exact ⟨_, h.commit hkept, .removed rfl⟩
    | saveSettings settings' =>
      unfold Request.apply Request.applyUnder Archive.saveSettings at hkept ⊢
      rw [hread] at hkept ⊢
      dsimp only at hkept ⊢
      rw [Database.setSettings_ofParts] at hkept ⊢
      exact ⟨records, h.commit hkept, .same rfl⟩
    | clear =>
      have hclear : (Request.clear.apply s).1 =
          (s.1.commit (ofParts (.record defaultSettings) [] []) () [] []).archive := rfl
      rw [hclear] at hkept ⊢
      exact ⟨[], h.commit hkept, .cleared rfl⟩

end Stores

end Archive

end EquationStudio
