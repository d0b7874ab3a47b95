import EquationStudio.Archive.Basic
import EquationStudio.Proofs.Archive.Database
import Mathlib.Data.List.Infix

/-!
# Runs of changes to an archive

An archive begins without a file. As long as every change is written to its end, the file holds
settings, equations and a table of constraints that agree (`Archive.Holds`). What one change does is
said once (`Archive.Holds.effect`): nothing, or it writes a database that is in step. From it follow
what a run of changes leaves and how the archive then answers (`Archive.run_inStep`).
-/

namespace EquationStudio

/-- A place without a file, or with a document that was written to its end. -/
def Place.Whole : Place → Prop
  | .absent | .file (.document _) => True
  | .blocked | .directory | .file (.text _) | .file .undecodable => False

instance (p : Place) : Decidable p.Whole :=
  match p with
  | .absent | .file (.document _) => isTrue trivial
  | .blocked | .directory | .file (.text _) | .file .undecodable => isFalse id

/-- A place at which there is a file or one can be made. -/
def Place.Open : Place → Prop
  | .absent | .file _ => True
  | .blocked | .directory => False

/-- A place that is whole can be written to. -/
theorem Place.Whole.open {p : Place} (h : p.Whole) : p.Open := by
  cases p with
  | absent | file => trivial
  | blocked | directory => cases h

namespace Archive

/-- A change that is asked of an archive. -/
inductive Request where
  | save (now : Moment) (record : Datum)
  | remove (id : Datum)
  | saveSettings (settings : Datum)
  | clear

namespace Request

/-- What becomes of an archive and the supply of identifiers when a change meets an obstacle or
none, whether it is made or refused. -/
def applyUnder (obstacle : Option Obstacle) (s : Archive × Supply) : Request → Archive × Supply
  | save now record =>
    let (outcome, supply) := s.1.save s.2 now record obstacle
    (outcome.archive, supply)
  | remove id => ((s.1.remove id obstacle).archive, s.2)
  | saveSettings settings => ((s.1.saveSettings settings obstacle).archive, s.2)
  | clear => ((s.1.clear obstacle).archive, s.2)

/-- What becomes of an archive and the supply of identifiers when nothing comes in the way of a
change. -/
def apply (s : Archive × Supply) (r : Request) : Archive × Supply := r.applyUnder none s

/-- A record to be saved has a text as its identifier or none, and a list of constraints or none. -/
def Ordinary : Request → Prop
  | save _ record => ∀ fields, record.toFields = .ok fields →
    (Fields.get fields "id" = .null ∨ ∃ s, Fields.get fields "id" = .text s) ∧
      (Fields.get fields "constraints" = .null ∨
      ∃ items, Fields.get fields "constraints" = .list items)
  | remove _ | saveSettings _ | clear => True

/-- The settings that are chosen after a change: only saving settings and clearing choose any. -/
def settingsAfter (before : Datum) : Request → Datum
  | saveSettings settings => settings
  | clear => .record defaultSettings
  | save _ _ | remove _ => before

end Request

/-- The archive at the end of a run of changes to one without a file, and the supply. -/
def run (path : String) (supply : Supply) (requests : List Request) : Archive × Supply :=
  requests.foldl Request.apply ({ path }, supply)

/-- What is saved of the fields of a record. -/
def stamped (fields : Fields) (id : Datum) (now : Moment) : Fields :=
  Fields.set (Fields.set (Fields.set fields "id" id) "timestamp" (.text now.stamp)) "epoch"
    (.float now.seconds)

/-- An archive whose file is whole and holds settings, equations and a table that agrees with
them. -/
structure Holds (a : Archive) (settings : Datum) (records : List Fields)
    (table : Fields) : Prop where
  whole : a.place.Whole
  read : a.read = (.ok (.ofParts settings records table), [])
  inStep : Database.InStep records table

/-- What a change does to an archive: nothing, or it writes the settings that are chosen by then,
and equations with a table in step. -/
inductive Effect (a : Archive) (settings : Datum) (r : Request) (a' : Archive) : Prop
  | nothing (same : a' = a) (chosen : r.settingsAfter settings = settings)
  | written {records' : List Fields} {table' : Fields}
      (commit : a' = (a.write (.ofParts (r.settingsAfter settings) records' table')).2)
      (inStep : Database.InStep records' table')

/-! ## One change -/

/-- A change that is committed leaves what writing the database leaves. -/
theorem archive_commit {α : Type} (a : Archive) (db : Database) (answer : α)
    (before changed : Journal) (obstacle : Option Obstacle) :
    (a.commit db answer before changed obstacle).archive = (a.write db obstacle).2 := by
  unfold commit
  rcases a.write db obstacle with ⟨_ | _, _⟩ <;> rfl

/-- What a file holds of a document that nothing stops. -/
theorem draft_of_ok {d : Datum} {document : String} (h : d.toDocument = .ok document) :
    draft d none = (.document d, none) := by
  unfold draft
  rw [h]

/-- What a file holds of a datum that cannot be written to its end. -/
theorem draft_of_error {d : Datum} {torn : Torn} (h : d.toDocument = .error torn) :
    draft d none = (.text torn.written, some (.datum torn.cause)) := by
  unfold draft
  rw [h]

/-- A database is written to its end if its document can be made. -/
theorem write_of_ok {a : Archive} (ha : a.place.Open) {db : Database} {document : String}
    (h : (Datum.record db.fields).toDocument = .ok document) :
    a.write db = (.ok (), { a with place := .file (.document (.record db.fields)) }) := by
  obtain ⟨path, place⟩ := a
  unfold write
  cases place with
  | blocked | directory => cases ha
  | absent | file content =>
    dsimp only
    rw [draft_of_ok h]

/-- Of a database whose document cannot be made to its end, the part is written that can. -/
theorem write_of_torn {a : Archive} (ha : a.place.Open) {db : Database} {torn : Torn}
    (h : (Datum.record db.fields).toDocument = .error torn) :
    a.write db =
      (.error (.datum torn.cause), { a with place := .file (.text torn.written) }) := by
  obtain ⟨path, place⟩ := a
  unfold write
  cases place with
  | blocked | directory => cases ha
  | absent | file content =>
    dsimp only
    rw [draft_of_error h]

/-- A database that was written to its end is what the file holds. -/
theorem write_whole {a : Archive} (ha : a.place.Whole) {db : Database}
    (hkept : (a.write db).2.place.Whole) :
    a.write db = (.ok (), { a with place := .file (.document (.record db.fields)) }) := by
  cases hdraft : (Datum.record db.fields).toDocument with
  | ok document => exact write_of_ok ha.open hdraft
  | error torn =>
    rw [write_of_torn ha.open hdraft] at hkept
    cases hkept

/-- What is saved has the identifier that it is saved under, and the constraints that it came
with. -/
theorem own_stamped (fields : Fields) (id : Datum) (now : Moment) :
    Database.ownId (stamped fields id now) = id ∧
      Database.ownConstraints (stamped fields id now) = Fields.get fields "constraints" := by
  simp [stamped, Database.ownId, Database.ownConstraints, Fields.get, Fields.get?_set]

/-- The other fields of a record are stored as they are. -/
theorem get?_stamped {key : String} (hkey : key ∉ ["id", "timestamp", "epoch"]) (fields : Fields)
    (id : Datum) (now : Moment) :
    Fields.get? (stamped fields id now) key = Fields.get? fields key := by
  simp only [List.mem_cons, List.not_mem_nil, or_false, not_or] at hkey
  obtain ⟨hid, htimestamp, hepoch⟩ := hkey
  rw [stamped, Fields.get?_set, if_neg hepoch, Fields.get?_set, if_neg htimestamp, Fields.get?_set,
    if_neg hid]

/-- The identifier that a record is saved under is a text: its own, or one that is drawn. -/
theorem exists_savedId {own : Datum} (h : own = .null ∨ ∃ t, own = .text t) (supply : Supply) :
    ∃ t supply', (if own.isTruthy then (own, supply)
      else (Datum.text (supply.draw 12).1, (supply.draw 12).2)) = (.text t, supply') := by
  obtain rfl | ⟨t, rfl⟩ := h
  · exact ⟨_, _, rfl⟩
  · split
    · exact ⟨t, supply, rfl⟩
    · exact ⟨_, _, rfl⟩

namespace Holds

variable {s : Archive × Supply} {settings : Datum} {records : List Fields} {table : Fields}

/-- Nothing is held where there is no file. -/
theorem absent (path : String) : ({ path } : Archive).Holds (.record defaultSettings) [] [] :=
  ⟨trivial, rfl, .empty⟩

/-- What saving a record does. -/
theorem save_effect (h : s.1.Holds settings records table) {now : Moment} {record : Datum}
    (hr : (Request.save now record).Ordinary) :
    s.1.Effect settings (.save now record) ((Request.save now record).apply s).1 := by
  unfold Request.apply Request.applyUnder Archive.save
  rw [h.read]
  dsimp only
  cases hfields : record.toFields with
  | error fault => exact .nothing rfl rfl
  | ok fields =>
    obtain ⟨hid, hlisted⟩ := hr fields hfields
    obtain ⟨t, supply', hdrawn⟩ := exists_savedId hid s.2
    obtain ⟨hown, hconstraints⟩ := own_stamped fields (.text t) now
    obtain ⟨table', hsaved, hstep'⟩ :=
      Database.save_ofParts settings h.inStep hown (hconstraints ▸ hlisted)
    dsimp only
    rw [hdrawn]
    dsimp only
    rw [show Fields.set _ "epoch" _ = stamped fields (.text t) now from rfl, hsaved]
    exact .written (archive_commit ..) hstep'

/-- What removing a record does. -/
theorem remove_effect (h : s.1.Holds settings records table) (id : Datum) :
    s.1.Effect settings (.remove id) ((Request.remove id).apply s).1 := by
  unfold Request.apply Request.applyUnder Archive.remove
  rw [h.read]
  dsimp only
  split
  · exact .nothing rfl rfl
  · exact .nothing rfl rfl
  · next db hremoved =>
    obtain ⟨records', table', rfl, hstep'⟩ := Database.remove_ofParts h.inStep hremoved
    exact .written (archive_commit ..) hstep'

/-- What a change does. -/
theorem effect (h : s.1.Holds settings records table) {r : Request} (hr : r.Ordinary) :
    s.1.Effect settings r (r.apply s).1 := by
  cases r with
  | save now record => exact h.save_effect hr
  | remove id => exact h.remove_effect id
  | saveSettings settings' =>
    unfold Request.apply Request.applyUnder Archive.saveSettings
    rw [h.read]
    dsimp only
    rw [Database.setSettings_ofParts]
    exact .written (archive_commit ..) h.inStep
  | clear =>
    have hcommit : (Request.clear.apply s).1 =
        (s.1.write (.ofParts (.record defaultSettings) [] [])).2 := archive_commit ..
    exact .written hcommit .empty

/-- A change that is written to its end is held. -/
theorem apply (h : s.1.Holds settings records table) {r : Request} (hr : r.Ordinary)
    (hkept : (r.apply s).1.place.Whole) :
    ∃ records' table', (r.apply s).1.Holds (r.settingsAfter settings) records' table' := by
  cases h.effect hr with
  | nothing same chosen =>
    rw [same, chosen]
    exact ⟨records, table, h⟩
  | @written records' table' commit inStep =>
    rw [commit] at hkept ⊢
    rw [write_whole h.whole hkept]
    exact ⟨records', table', trivial, congrArg (fun db => (Except.ok db, []))
      Database.ofDatum_ofParts, inStep⟩

/-- Changes one after another are held, if each is written to its end. -/
theorem foldl_apply : ∀ {requests : List Request} {s : Archive × Supply} {settings : Datum}
    {records : List Fields} {table : Fields}, s.1.Holds settings records table →
      (∀ r ∈ requests, r.Ordinary) →
      (∀ before, before <+: requests → (before.foldl Request.apply s).1.place.Whole) →
      ∃ records' table', (requests.foldl Request.apply s).1.Holds
        (requests.foldl Request.settingsAfter settings) records' table'
  | [], _, _, records, table, h, _, _ => ⟨records, table, h⟩
  | r :: requests, s, settings, _, _, h, hordinary, hkept => by
    obtain ⟨records', table', h'⟩ := h.apply (hordinary r (.head _)) (hkept [r] ⟨requests, rfl⟩)
    rw [List.foldl_cons, List.foldl_cons]
    exact foldl_apply h' (fun r' hr' => hordinary r' (.tail _ hr')) fun before hbefore =>
      hkept (r :: before) (List.cons_prefix_cons.2 ⟨rfl, hbefore⟩)

end Holds

/-! ## Runs of changes -/

/-- After any run of changes to an archive that begins without a file, if each is written to its
end, the equations and the table of constraints agree: the equations have distinct identifiers,
there are no more of them than the archive keeps, and the table has an entry for exactly those with
constraints, which is their list. Hence the constraints of an identifier are those of the equation
that is loaded by it, and the settings are those chosen last, by saving settings or by clearing. -/
theorem run_inStep (path : String) (supply : Supply) (requests : List Request)
    (hordinary : ∀ r ∈ requests, r.Ordinary)
    (hkept : ∀ before, before <+: requests → (run path supply before).1.place.Whole) :
    let a := (run path supply requests).1
    let settings := requests.foldl Request.settingsAfter (.record defaultSettings)
    ∃ records table, a.read = (.ok (.ofParts settings records table), []) ∧
      Database.InStep records table ∧
      (∀ id k, id.key = .ok k → ∃ found, (a.load id).answer = .ok found ∧
        (a.constraintsOf id).answer = .ok (Database.constraintsIn found)) ∧
      a.settings.answer = (Database.ofParts settings [] []).currentSettings := by
  intro a settings
  obtain ⟨records, table, -, hread, hstep⟩ := Holds.foldl_apply (Holds.absent path) hordinary hkept
  have hask : ∀ {α : Type} (f : Database → Except Fault α),
      (a.ask f).answer = f (.ofParts settings records table) := by
    intro α f
    unfold ask
    rw [show a.read = _ from hread]
  refine ⟨records, table, hread, hstep, fun id k hk => ?_, hask _⟩
  obtain ⟨found, hfound, hitems⟩ := Database.constraintsOf_ofParts settings hstep hk
  exact ⟨found, (hask _).trans hfound, (hask _).trans hitems⟩

/-- An equation that is saved again without constraints, another that is removed, and settings. -/
theorem run_inStep_resaved :
    let now : Moment := ⟨"2026-01-01 00:00:00", .finite .zero⟩
    let requests : List Request := [
      .save now (.record [("id", .text "a"), ("constraints", .list [.int 1])]),
      .save now (.record [("name", .text "b"), ("constraints", .list [.int 2])]),
      .saveSettings (.record [("log_level", .text "DEBUG")]),
      .save now (.record [("id", .text "a")]),
      .remove (.text "000000010000")]
    (∀ r ∈ requests, r.Ordinary) ∧
      (∀ before, before <+: requests → (run "eqbuilder.json" {} before).1.place.Whole) ∧
      ∃ records table, (run "eqbuilder.json" {} requests).1.read =
          (.ok (.ofParts (.record [("log_level", .text "DEBUG")]) records table), []) ∧
        Database.InStep records table := by
  intro now requests
  have hordinary : ∀ r ∈ requests, r.Ordinary := by
    simp only [requests, List.forall_mem_cons]
    refine ⟨?_, ?_, trivial, ?_, trivial, by simp⟩ <;> intro fields hfields <;> cases hfields
    · exact ⟨.inr ⟨_, rfl⟩, .inr ⟨_, rfl⟩⟩
    · exact ⟨.inl rfl, .inr ⟨_, rfl⟩⟩
    · exact ⟨.inr ⟨_, rfl⟩, .inl rfl⟩
  have hkept : ∀ before, before <+: requests → (run "eqbuilder.json" {} before).1.place.Whole := by
    intro before hbefore
    have hall : ∀ before ∈ requests.inits, (run "eqbuilder.json" {} before).1.place.Whole := by
      decide +kernel
    exact hall before ((List.mem_inits _ _).2 hbefore)
  obtain ⟨records, table, hread, hstep, -⟩ :=
    run_inStep "eqbuilder.json" {} requests hordinary hkept
  exact ⟨hordinary, hkept, records, table, hread, hstep⟩

/-- A name with one half of a pair of code units cannot be written: saving it is refused, and it
resets the settings that were chosen before and forgets the equation that was there. -/
theorem run_forgets :
    let now : Moment := ⟨"2026-01-01 00:00:00", .finite .zero⟩
    let chosen : Datum := .record [("log_level", .text "DEBUG")]
    let requests : List Request := [
      .save now (.record [("id", .text "b")]), .saveSettings chosen,
      .save now (.record [("id", .text "a"), ("name", .text (String.singleton (loneUnit 0xd800)))])]
    let a := (run "eqbuilder.json" {} requests).1
    (∀ r ∈ requests, r.Ordinary) ∧
      requests.foldl Request.settingsAfter (.record defaultSettings) = chosen ∧
      (Database.ofParts chosen [] []).currentSettings.toOption.map
        (fun fields => (Fields.get fields "log_level").equal (.text "DEBUG")) = some true ∧
      a.settings.answer.toOption.map
        (fun fields => (Fields.get fields "log_level").equal (.text "INFO")) = some true ∧
      (a.load (.text "b")).answer.toOption.map Option.isSome = some false := by
  intro now chosen requests a
  have hordinary : ∀ r ∈ requests, r.Ordinary := by
    simp only [requests, List.forall_mem_cons]
    refine ⟨?_, trivial, ?_, by simp⟩ <;> intro fields hfields <;> cases hfields
    · exact ⟨.inr ⟨_, rfl⟩, .inl rfl⟩
    · exact ⟨.inr ⟨_, rfl⟩, .inl rfl⟩
  exact ⟨hordinary, rfl, by decide +kernel, by decide +kernel, by decide +kernel⟩

end Archive

end EquationStudio
