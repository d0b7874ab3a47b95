import EquationStudio.Proofs.Archive.Run
import EquationStudio.Proofs.Archive.Writable

/-!
# Refused changes

A change that is refused should leave an archive as it was. It does unless the refusal comes from
writing: to open the file empties it, so a document that cannot be made to its end, or whose writing
is stopped, leaves what was written of it in the place of everything that was saved. What a change
does is said once (`Request.attempt`): nothing, or it writes a database that it makes of what was
read. From it follow what a refused change leaves (`Archive.refused_leaves`), and that a refused
change leaves an archive as it was as long as all data can be written and nothing stops the writing,
after one change as after many (`Archive.refused_keeps`, `Archive.whole_run`,
`Archive.run_refused`).
-/

namespace EquationStudio

/-- What gets written of a datum if nothing stops the writing. -/
def Datum.drafted (d : Datum) : String :=
  match d.toDocument with
  | .ok document => document
  | .error torn => torn.written

namespace Archive

/-- The archive with nothing more in its file than the first bytes of what is written of a
database. -/
def cutOff (a : Archive) (db : Database) (bytes : Nat) : Archive :=
  let written := (Datum.record db.fields).drafted
  { a with place := .file (.ofBytes (written.toUTF8.extract 0 bytes)) }

/-- The fault with which a request is refused, if it is. -/
def Outcome.fault? {α : Type} (o : Outcome α) : Option Fault :=
  match o.answer with
  | .ok _ => none
  | .error fault => some fault

/-- What was read in the way of an obstacle is what is read without it. -/
theorem read_of_ok {a : Archive} {obstacle : Option Obstacle} {db : Database} {journal : Journal}
    (h : a.read obstacle = (.ok db, journal)) : a.read = (.ok db, journal) := by
  unfold read at h ⊢
  cases hplace : a.place with
  | absent | blocked | directory => rwa [hplace] at h
  | file content =>
    rw [hplace] at h
    dsimp only at h ⊢
    split at h
    · cases h
    · exact h

namespace Request

/-- The fault with which a change is refused, if it is. -/
def fault? (s : Archive × Supply) (r : Request) (obstacle : Option Obstacle := none) :
    Option Fault :=
  match r with
  | save now record => (s.1.save s.2 now record obstacle).1.fault?
  | remove id => (s.1.remove id obstacle).fault?
  | saveSettings settings => (s.1.saveSettings settings obstacle).fault?
  | clear => (s.1.clear obstacle).fault?

/-- A database that a change makes of the one that an archive holds. -/
inductive Makes (a : Archive) : Request → Database → Prop
  | save {now : Moment} {record id : Datum} {db db' : Database} {journal : Journal}
      {fields : Fields} (read : a.read = (.ok db, journal)) (taken : record.toFields = .ok fields)
      (named : id = Fields.get fields "id" ∨ ∃ supply : Supply, id = .text (supply.draw 12).1)
      (made : db.save (stamped fields id now) id = .ok db') : Makes a (save now record) db'
  | remove {id : Datum} {db db' : Database} {journal : Journal} {removed : Bool}
      (read : a.read = (.ok db, journal)) (made : db.remove id = .ok (removed, db')) :
      Makes a (remove id) db'
  | saveSettings {settings : Datum} {db : Database} {journal : Journal}
      (read : a.read = (.ok db, journal)) :
      Makes a (saveSettings settings) (db.set "settings" settings)
  | clear : Makes a clear .empty

/-- What a change comes to when it meets an obstacle or none: the archive stays as it is, or a
database is written, and the change is refused exactly if the writing is. -/
inductive Attempt (obstacle : Option Obstacle) (s : Archive × Supply) (r : Request) : Prop
  | kept (same : (r.applyUnder obstacle s).1 = s.1)
  | wrote {db : Database} (makes : r.Makes s.1 db)
      (left : (r.applyUnder obstacle s).1 = (s.1.write db obstacle).2)
      (refused : r.fault? s obstacle = match (s.1.write db obstacle).1 with
        | .ok () => none
        | .error fault => some fault)

end Request

section
variable (obstacle : Option Obstacle)

/-- A change that is committed is refused exactly if the writing is. -/
theorem fault?_commit {α : Type} (a : Archive) (db : Database) (answer : α)
    (before changed : Journal) :
    (a.commit db answer before changed obstacle).fault? = match (a.write db obstacle).1 with
      | .ok () => none
      | .error fault => some fault := by
  unfold commit Outcome.fault?
  rcases a.write db obstacle with ⟨_ | _, _⟩ <;> rfl

/-- What saving a record comes to. -/
theorem Request.attempt_save (a : Archive) (supply : Supply) (now : Moment) (record : Datum) :
    (Request.save now record).Attempt obstacle (a, supply) := by
  cases hread : a.read obstacle with
  | mk result journal =>
  cases result with
  | error fault => exact .kept (by simp only [applyUnder, Archive.save, hread])
  | ok db =>
  cases hfields : record.toFields with
  | error fault => exact .kept (by simp only [applyUnder, Archive.save, hread, hfields])
  | ok fields =>
  obtain ⟨id, supply', hnamed, hdrawn⟩ : ∃ id supply',
      (id = Fields.get fields "id" ∨ ∃ supply : Supply, id = .text (supply.draw 12).1) ∧
      (if (Fields.get fields "id").isTruthy then (Fields.get fields "id", supply)
        else (Datum.text (supply.draw 12).1, (supply.draw 12).2)) = (id, supply') := by
    split
    · exact ⟨_, _, .inl rfl, rfl⟩
    · exact ⟨_, _, .inr ⟨supply, rfl⟩, rfl⟩
  cases hmade : db.save (stamped fields id now) id with
  | error fault =>
    refine .kept ?_
    simp only [applyUnder, Archive.save, hread, hfields, hdrawn]
    rw [show Fields.set _ "epoch" _ = stamped fields id now from rfl, hmade]
  | ok db' =>
    refine .wrote (.save (read_of_ok hread) hfields hnamed hmade) ?_ ?_
    · simp only [applyUnder, Archive.save, hread, hfields, hdrawn]
      rw [show Fields.set _ "epoch" _ = stamped fields id now from rfl, hmade]
      exact archive_commit ..
    · simp only [fault?, Archive.save, hread, hfields, hdrawn]
      rw [show Fields.set _ "epoch" _ = stamped fields id now from rfl, hmade]
      exact fault?_commit ..

/-- What removing a record comes to. -/
theorem Request.attempt_remove (a : Archive) (supply : Supply) (id : Datum) :
    (Request.remove id).Attempt obstacle (a, supply) := by
  cases hread : a.read obstacle with
  | mk result journal =>
  cases result with
  | error fault => exact .kept (by simp only [applyUnder, Archive.remove, hread])
  | ok db =>
  cases hmade : db.remove id with
  | error fault => exact .kept (by simp only [applyUnder, Archive.remove, hread, hmade])
  | ok made =>
  obtain ⟨removed, db'⟩ := made
  cases removed with
  | false => exact .kept (by simp only [applyUnder, Archive.remove, hread, hmade])
  | true =>
    refine .wrote (.remove (read_of_ok hread) hmade) ?_ ?_
    · simp only [applyUnder, Archive.remove, hread, hmade]
      exact archive_commit ..
    · simp only [fault?, Archive.remove, hread, hmade]
      exact fault?_commit ..

/-- What saving the settings comes to. -/
theorem Request.attempt_saveSettings (a : Archive) (supply : Supply) (settings : Datum) :
    (Request.saveSettings settings).Attempt obstacle (a, supply) := by
  cases hread : a.read obstacle with
  | mk result journal =>
  cases result with
  | error fault => exact .kept (by simp only [applyUnder, Archive.saveSettings, hread])
  | ok db =>
    refine .wrote (.saveSettings (read_of_ok hread)) ?_ ?_
    · simp only [applyUnder, Archive.saveSettings, hread]
      exact archive_commit ..
    · simp only [fault?, Archive.saveSettings, hread]
      exact fault?_commit ..

/-- What every change comes to. -/
theorem Request.attempt (s : Archive × Supply) : ∀ r : Request, r.Attempt obstacle s
  | .save now record => attempt_save obstacle s.1 s.2 now record
  | .remove id => attempt_remove obstacle s.1 s.2 id
  | .saveSettings settings => attempt_saveSettings obstacle s.1 s.2 settings
  | .clear => .wrote .clear (archive_commit ..) (fault?_commit ..)

end

/-! ## What a refused change leaves -/

/-- An archive whose database can be written, if it can be read at all. -/
def Sound (a : Archive) : Prop :=
  ∀ db journal, a.read = (.ok db, journal) → (Datum.record db.fields).Writable

/-- A change whose data can be written. -/
def Request.Writable : Request → Prop
  | .save now record => isEncodable now.stamp = true ∧
    ∀ fields, record.toFields = .ok fields → (Datum.record fields).Writable
  | .saveSettings settings => settings.Writable
  | .remove _ | .clear => True

/-- What is saved of a record can be written if the record, its identifier and the moment can. -/
theorem writable_stamped {fields : Fields} (h : (Datum.record fields).Writable) {id : Datum}
    (hid : id.Writable) {now : Moment} (hnow : isEncodable now.stamp = true) :
    (Datum.record (stamped fields id now)).Writable := by
  have hstamp : (Datum.text now.stamp).Writable := hnow
  have hepoch : (Datum.float now.seconds).Writable := trivial
  exact Datum.writable_set (Datum.writable_set (Datum.writable_set h (by decide +kernel) hid)
    (by decide +kernel) hstamp) (by decide +kernel) hepoch

/-- A change whose data can be written makes a database that can be written of one that can. -/
theorem Request.Makes.writable {a : Archive} {r : Request} {db : Database}
    (h : r.Makes a db) (ha : a.Sound) (hr : r.Writable) : (Datum.record db.fields).Writable := by
  cases h with
  | @save now record id db' _ journal fields read taken named made =>
    obtain ⟨hnow, hrecord⟩ := hr
    have hfields := hrecord fields taken
    have hid : id.Writable := by
      obtain rfl | ⟨supply, rfl⟩ := named
      · exact Datum.writable_get hfields "id"
      · exact supply.isEncodable_draw 12
    exact Database.writable_save made (ha _ _ read) (writable_stamped hfields hid hnow) hid
  | remove read made => exact Database.writable_remove made (ha _ _ read)
  | saveSettings read => exact Datum.writable_set (ha _ _ read) (by decide +kernel) hr
  | clear => exact Database.writable_empty

/-- A document that was not written to its end could not be made to its end, or the writing was
stopped. -/
theorem torn_or_stopped {d : Datum} {obstacle : Option Obstacle} {content : FileContent}
    {fault : Fault} (h : draft d obstacle = (content, some fault)) :
    (∃ torn, d.toDocument = .error torn ∧ fault = .datum torn.cause ∧
      content = .text torn.written) ∨
    (∃ bytes, obstacle = some (.writing bytes fault) ∧
      content = .ofBytes (d.drafted.toUTF8.extract 0 bytes)) := by
  unfold draft at h
  unfold Datum.drafted
  split at h
  · next hdocument =>
    cases h
    exact .inr ⟨_, rfl, by rw [hdocument]⟩
  · cases h
  · next hdocument =>
    split at h <;> cases h
    · exact .inr ⟨_, rfl, by rw [hdocument]⟩
    · exact .inl ⟨_, hdocument, rfl, rfl⟩
  · next hdocument _ =>
    cases h
    exact .inl ⟨_, hdocument, rfl, rfl⟩

/-- A write that is refused changes nothing, or the file is left with what was written of the
document. -/
theorem write_of_error {a : Archive} {db : Database} {obstacle : Option Obstacle} {fault : Fault}
    (h : (a.write db obstacle).1 = .error fault) :
    (a.write db obstacle).2 = a ∨
      a.place.Open ∧ ∃ content, draft (.record db.fields) obstacle = (content, some fault) ∧
        (a.write db obstacle).2 = { a with place := .file content } := by
  obtain ⟨path, place⟩ := a
  unfold write at h ⊢
  cases place with
  | blocked | directory => exact .inl rfl
  | absent | file content =>
    dsimp only at h ⊢
    split
    · exact .inl (by rfl)
    · next hopened =>
      rcases hdraft : draft (.record db.fields) obstacle with ⟨left, _ | fault'⟩
      all_goals
        rw [hdraft] at h
        split at h
      · exact absurd rfl (hopened _)
      · cases h
      · exact absurd rfl (hopened _)
      · cases h
        exact .inr ⟨trivial, left, rfl, rfl⟩

/-- A refused change leaves an archive as it was, or it leaves what was written of a document that
was not written to its end. -/
theorem kept_or_drafted (s : Archive × Supply) (r : Request) (obstacle : Option Obstacle)
    {fault : Fault} (h : r.fault? s obstacle = some fault) :
    (r.applyUnder obstacle s).1 = s.1 ∨
      s.1.place.Open ∧ ∃ (db : Database) (content : FileContent), r.Makes s.1 db ∧
        draft (.record db.fields) obstacle = (content, some fault) ∧
        (r.applyUnder obstacle s).1 = { s.1 with place := .file content } := by
  cases r.attempt obstacle s with
  | kept same => exact .inl same
  | @wrote db makes left refused =>
    rw [h] at refused
    split at refused
    · cases refused
    · next fault' hwrite =>
      cases refused
      obtain same | ⟨hopen, content, hdraft, hleft⟩ := write_of_error hwrite
      · exact .inl (left.trans same)
      · exact .inr ⟨hopen, db, content, makes, hdraft, left.trans hleft⟩

/-- A refused change that met no obstacle leaves an archive as it was, or it leaves a part of a
document that could not be made to its end. -/
theorem kept_or_torn (s : Archive × Supply) (r : Request) {fault : Fault}
    (h : r.fault? s = some fault) :
    (r.apply s).1 = s.1 ∨
      ∃ torn : Torn, (r.apply s).1 = { s.1 with place := .file (.text torn.written) } := by
  obtain same | ⟨-, db, content, -, hdraft, left⟩ := kept_or_drafted s r none h
  · exact .inl same
  · obtain ⟨torn, -, -, rfl⟩ | ⟨bytes, hstopped, -⟩ := torn_or_stopped hdraft
    · exact .inr ⟨torn, left⟩
    · cases hstopped

/-- As long as all data can be written, a refused change leaves an archive as it was, unless the
writing was stopped. -/
theorem refused_keeps {s : Archive × Supply} (hs : s.1.Sound) {r : Request} (hr : r.Writable)
    {obstacle : Option Obstacle} {fault : Fault} (h : r.fault? s obstacle = some fault)
    (hfree : ∀ bytes, obstacle ≠ some (.writing bytes fault)) :
    (r.applyUnder obstacle s).1 = s.1 := by
  obtain same | ⟨-, db, content, makes, hdraft, -⟩ := kept_or_drafted s r obstacle h
  · exact same
  · obtain ⟨torn, htorn, -⟩ | ⟨bytes, hstopped, -⟩ := torn_or_stopped hdraft
    · obtain ⟨document, hdocument⟩ := Datum.exists_toDocument (makes.writable hs hr)
      rw [htorn] at hdocument
      cases hdocument
    · exact absurd hstopped (hfree bytes)

/-- Whatever an archive holds, whatever a change brings and whatever comes in its way: if the change
is refused, the archive is left as it was, and so are all its answers; or else an integer was too
long to be written or a text could not be held by a file, among the data that were there or among
those that the change brought, and the file is left with the part of the new document that was
written until then; or the writing was stopped, and the file is left with the bytes of the new
document that it had by then. -/
theorem refused_leaves (s : Archive × Supply) (r : Request) (obstacle : Option Obstacle)
    {fault : Fault} (h : r.fault? s obstacle = some fault) :
    (r.applyUnder obstacle s).1 = s.1 ∨
      ((fault = .datum .tooManyDigits ∨ fault = .datum .notEncodable) ∧
        ¬ (s.1.Sound ∧ r.Writable) ∧ ∃ (db : Database) (torn : Torn), r.Makes s.1 db ∧
          (Datum.record db.fields).toDocument = .error torn ∧
          (r.applyUnder obstacle s).1 = { s.1 with place := .file (.text torn.written) }) ∨
      ∃ (db : Database) (bytes : Nat), r.Makes s.1 db ∧
        obstacle = some (.writing bytes fault) ∧
        (r.applyUnder obstacle s).1 = s.1.cutOff db bytes := by
  obtain same | ⟨-, db, content, makes, hdraft, left⟩ := kept_or_drafted s r obstacle h
  · exact .inl same
  · obtain ⟨torn, htorn, rfl, rfl⟩ | ⟨bytes, hstopped, rfl⟩ := torn_or_stopped hdraft
    · refine .inr (.inl ⟨?_, fun ⟨hs, hr⟩ => ?_, db, torn, makes, htorn, left⟩)
      · exact (Datum.cause_of_draft _ _ _ _ _ htorn).imp (congrArg Fault.datum)
          (congrArg Fault.datum)
      · obtain ⟨document, hdocument⟩ := Datum.exists_toDocument (makes.writable hs hr)
        rw [htorn] at hdocument
        cases hdocument
    · exact .inr (.inr ⟨db, bytes, makes, hstopped, left⟩)

/-- A record whose identifier is a list is refused before anything is written, and so before the
writing could be stopped. -/
theorem refused_leaves_unkeyed :
    let s : Archive × Supply := ({ path := "eqbuilder.json" }, {})
    let r := Request.save ⟨"2026-01-01 00:00:00", .finite .zero⟩ (.record [("id", .list [.int 1])])
    let obstacle : Option Obstacle := some (.writing 0 (.unavailable "no space left"))
    r.fault? s obstacle = some (.datum (.notKey "list")) ∧ (r.applyUnder obstacle s).1 = s.1 := by
  intro s r obstacle
  have hfault : r.fault? s obstacle = some (.datum (.notKey "list")) := by decide +kernel
  obtain same | ⟨hcause, -⟩ | ⟨db, bytes, -, hstopped, -⟩ := refused_leaves s r obstacle hfault
  · exact ⟨hfault, same⟩
  · obtain hdigits | htext := hcause
    · cases hdigits
    · cases htext
  · simp [obstacle] at hstopped

/-- A file made elsewhere may spell one half of a pair of code units, which cannot be written back.
The next record that is saved is refused, and with it all that the file held is gone. -/
theorem refused_forgets :
    let stored : Archive := {
      path := "eqbuilder.json"
      place := .file (.text ("\x7b\"equations\": [\x7b\"id\": \"a\", \"name\": \"eq\"\x7d, " ++
        "\x7b\"id\": \"b\", \"name\": \"\\ud800\"\x7d]\x7d")) }
    let r := Request.save ⟨"2026-01-01 00:00:00", .finite .zero⟩
      (.record [("id", .text "c"), ("name", .text "new")])
    r.fault? (stored, {}) = some (.datum .notEncodable) ∧
      (stored.load (.text "a")).answer.toOption.map Option.isSome = some true ∧
      ((r.apply (stored, {})).1.load (.text "a")).answer.toOption.map
      Option.isSome = some false := by
  decide +kernel

/-- A change to an archive without a file, or with one that is whole, leaves it so, as long as the
data can be written. -/
theorem whole_apply {s : Archive × Supply} (hs : s.1.place.Whole) (hsound : s.1.Sound) {r : Request}
    (hr : r.Writable) : (r.apply s).1.place.Whole ∧ (r.apply s).1.Sound := by
  cases r.attempt none s with
  | kept same => exact (show (r.apply s).1 = s.1 from same) ▸ ⟨hs, hsound⟩
  | @wrote db makes left =>
    have hdb := makes.writable hsound hr
    obtain ⟨document, hdocument⟩ := Datum.exists_toDocument hdb
    have hwritten : (r.apply s).1 =
        { s.1 with place := .file (.document (.record db.fields)) } :=
      left.trans (congrArg Prod.snd (write_of_ok hs.open hdocument))
    rw [hwritten]
    refine ⟨trivial, fun db' journal hread => ?_⟩
    cases hread
    exact Database.writable_ofDatum hdb

/-- The file is whole all through a run of changes to an archive that begins without one, if their
data can be written: nothing but an integer too long or a text that no file can hold keeps the
database from being written to its end. -/
theorem whole_run (path : String) (supply : Supply) {requests : List Request}
    (hw : ∀ r ∈ requests, r.Writable) :
    (run path supply requests).1.place.Whole ∧ (run path supply requests).1.Sound := by
  have hfold : ∀ (requests : List Request) (s : Archive × Supply), (∀ r ∈ requests, r.Writable) →
      s.1.place.Whole → s.1.Sound →
      (requests.foldl Request.apply s).1.place.Whole ∧
      (requests.foldl Request.apply s).1.Sound := by
    intro requests
    induction requests with
    | nil => exact fun s _ hs hsound => ⟨hs, hsound⟩
    | cons r requests ih =>
      intro s hw hs hsound
      obtain ⟨hs', hsound'⟩ := whole_apply hs hsound (hw r (.head _))
      exact ih (r.apply s) (fun r' hr' => hw r' (.tail _ hr')) hs' hsound'
  refine hfold requests _ hw trivial fun db journal hread => ?_
  cases hread
  exact Database.writable_empty

/-- After changes whose data can be written, a refused change whose data can be written leaves the
archive as it was. -/
theorem run_refused (path : String) (supply : Supply) {requests : List Request} {r : Request}
    (hw : ∀ r' ∈ r :: requests, r'.Writable) {fault : Fault}
    (h : r.fault? (run path supply requests) = some fault) :
    (r.apply (run path supply requests)).1 = (run path supply requests).1 :=
  refused_keeps (whole_run path supply fun r' hr' => hw r' (.tail _ hr')).2 (hw r (.head _)) h
    fun _ hstopped => nomatch hstopped

end EquationStudio.Archive
