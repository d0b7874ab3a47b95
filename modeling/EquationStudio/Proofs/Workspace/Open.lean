import EquationStudio.Proofs.Diagram.Damaged

/-!
# Opening a saved record

A record that the archive finds is opened as a whole or not at all (`Workspace.reopen_found`). If a
diagram can be rebuilt of it, the workspace takes over the diagram, the identifier and the name
together; if the record is damaged, there is one notice of error and the workspace keeps what it
had. There is no third way but for a record that was not reckoned with: what stands for its diagram
is no mapping, or holds an integer larger than every double. Then the request itself fails, without
a notice, and the workspace keeps what it had (`Workspace.reopen_raises` has a record of each kind).
-/

namespace EquationStudio

/-! ## What is found -/

/-- Null is equal to nothing else. -/
theorem Datum.eq_null_of_null_equal {d : Datum} (h : Datum.null.equal d = true) : d = .null := by
  cases d with
  | null => rfl
  | bool | int | float | text | list | record => simp [equal, quantity?] at h

namespace Database

/-- A record that is found is a mapping with an identifier, equal to the one that was asked for. -/
theorem findRecord_found {id record : Datum} (hid : id.isGiven = true) : ∀ {ds : List Datum},
    findRecord id ds = .ok (some record) →
      ∃ fields own, record = .record fields ∧ Fields.get? fields "id" = some own ∧
      own.equal id = true
  | [], h => by cases h
  | d :: ds, h => by
    obtain ⟨own, hown, h⟩ := ok_of_bind h
    split at h
    · next hequal =>
      obtain rfl : d = record := Option.some.inj (Except.ok.inj h)
      cases d with
      | record fields =>
        obtain rfl : (Fields.get? fields "id").getD .null = own := Except.ok.inj hown
        cases hget : Fields.get? fields "id" with
        | some own => rw [hget] at hequal; exact ⟨fields, own, rfl, hget, hequal⟩
        | none =>
          rw [hget] at hequal
          rw [Datum.eq_null_of_null_equal hequal] at hid
          cases hid
      | null | bool | int | float | text | list => cases hown
    · exact findRecord_found hid h

end Database

/-- What an archive loads is a mapping with an identifier, equal to the one that was asked for. -/
theorem Archive.load_found {a : Archive} {id record : Datum} (hid : id.isGiven = true)
    (h : (a.load id).answer = .ok (some record)) :
    ∃ fields own, record = .record fields ∧ Fields.get? fields "id" = some own ∧
    own.equal id = true := by
  unfold load ask at h
  split at h
  · obtain ⟨items, -, h⟩ := ok_of_bind h
    exact Database.findRecord_found hid h
  · cases h

namespace Workspace

/-! ## What is made known -/

/-- The notices among what has been made known and not yet collected. -/
def notices (w : Workspace) : List Notice :=
  w.events.filterMap fun
    | .notice n => some n
    | .entry _ => none

/-- A notice that is sent is the last one. -/
@[simp] theorem notices_notify (w : Workspace) (message : String) (level : Level) :
    (w.notify message level).notices = w.notices ++ [⟨message, level⟩] := by
  rw [notices, notify, List.filterMap_append]
  rfl

/-- Entries in the journal are no notices. -/
@[simp] theorem notices_record (w : Workspace) (journal : Journal) :
    (w.record journal).notices = w.notices := by
  have hnone : (journal.map Event.entry).filterMap (fun
      | .notice n => some n
      | .entry _ => none) = ([] : List Notice) := by
    rw [List.filterMap_map, List.filterMap_eq_nil_iff]
    exact fun _ _ => rfl
  rw [notices, record, List.filterMap_append, hnone, List.append_nil]
  rfl

/-- A warning in the journal is no notice. -/
@[simp] theorem notices_warn (w : Workspace) (message : String) :
    (w.warn message).notices = w.notices :=
  notices_record w _

/-! ## Outcomes -/

/-- What is under edit stays: the diagram, its identifier and its name. -/
structure Keeps (w w' : Workspace) : Prop where
  diagram : w'.diagram = w.diagram
  current : w'.current = w.current
  name : w'.name = w.name

/-- What stands for the diagram in a record, an empty mapping if nothing does. -/
def graphOf (fields : Fields) : Datum := (Fields.get? fields "graph").getD (.record [])

/-- What is told when a record of the given name is opened. -/
def openedMessage (name : Datum) : String := s!"Loaded \"{Archive.spell name}\""

/-- How a request comes out that asks to open a record with the given fields: the answer, and the
workspace after it. -/
inductive Opens (w : Workspace) (id : Datum) (fields : Fields) :
    Except Fault Datum → Workspace → Prop
  /-- The record is opened. -/
  | opened {w' : Workspace}
      (rebuilt : (Diagram.ofRecord w.supply (graphOf fields)).1 = .ok w'.diagram)
      (current : Fields.get? fields "id" = some w'.current) (asked : w'.current.equal id = true)
      (name : w'.name = (Fields.get? fields "name").getD (.text untitled))
      (told : w'.notices = w.notices ++ [⟨openedMessage w'.name, .success⟩]) :
      Opens w id fields (.ok (.record fields)) w'
  /-- The record is damaged. -/
  | damaged {w' : Workspace} {fault : Fault}
      (refused : (Diagram.ofRecord w.supply (graphOf fields)).1 = .error fault)
      (damage : fault.isDamage = true) (kept : w.Keeps w')
      (told : w'.notices =
        w.notices ++ [⟨"Could not open the equation. The saved data is damaged.", .error⟩]) :
      Opens w id fields (.ok .null) w'
  /-- What stands for the diagram is no mapping. -/
  | shapeless {w' : Workspace} (shape : ∀ data, graphOf fields ≠ .record data) (kept : w.Keeps w')
      (told : w'.notices = w.notices) :
      Opens w id fields (.error (.datum (.noMethod (graphOf fields).kindName "get"))) w'
  /-- The diagram has an integer larger than every double. -/
  | oversized {w' : Workspace} {data : Fields} (shape : graphOf fields = .record data)
      (large : ¬ (graphOf fields).Ranged) (kept : w.Keeps w') (told : w'.notices = w.notices) :
      Opens w id fields (.error (.datum .tooLargeForDouble)) w'

/-! ## Opening -/

section
variable {w : Workspace} {id : Datum} {fields : Fields}

/-- A record is opened as a whole: nothing of it can be missing once its diagram is rebuilt. -/
theorem adopt_record {own : Datum} (hown : Fields.get? fields "id" = some own) (g : Diagram) :
    w.adopt (.record fields) g = (.ok (.record fields),
      { w with
        diagram := g, current := own, name :=
  (Fields.get? fields "name").getD (.text untitled) }.notify
          (openedMessage ((Fields.get? fields "name").getD (.text untitled))) .success) := by
  simp only [adopt, Datum.field, Datum.fieldOr, hown]
  rfl

/-- What comes of a record that was found. -/
theorem rebuild_opens {own : Datum} (hown : Fields.get? fields "id" = some own)
    (hasked : own.equal id = true) :
    w.Opens id fields (w.rebuild id (.record fields)).1 (w.rebuild id (.record fields)).2 := by
  have hgraph : (Datum.record fields).fieldOr "graph" (.record []) = .ok (graphOf fields) := rfl
  unfold rebuild
  rw [hgraph]
  dsimp only
  obtain ⟨⟨rebuilt, supply⟩, hrebuilt⟩ : ∃ r, Diagram.ofRecord w.supply (graphOf fields) = r :=
    ⟨_, rfl⟩
  rw [hrebuilt]
  cases rebuilt with
  | ok g =>
    dsimp only
    rw [adopt_record hown]
    exact .opened (congrArg Prod.fst hrebuilt) hown hasked rfl (notices_notify _ _ _)
  | error fault =>
    have hrefused := congrArg Prod.fst hrebuilt
    dsimp only at hrefused ⊢
    by_cases hdamage : fault.isDamage = true
    · rw [if_pos hdamage]
      exact .damaged hrefused hdamage ⟨rfl, rfl, rfl⟩
        ((notices_notify _ _ _).trans (congrArg (· ++ _) (notices_warn _ _)))
    · rw [if_neg hdamage]
      by_cases hshape : ∃ data, graphOf fields = .record data
      · obtain ⟨data, hdata⟩ := hshape
        rw [hdata] at hrefused
        obtain hdamage' | ⟨rfl, hlarge⟩ := Diagram.fault_of_ofRecord hrefused
        · exact absurd hdamage' hdamage
        · exact .oversized hdata (hdata ▸ hlarge) ⟨rfl, rfl, rfl⟩ rfl
      · have hshape : ∀ data, graphOf fields ≠ .record data :=
          fun data hdata => hshape ⟨data, hdata⟩
        rw [Diagram.ofRecord_of_not_record hshape] at hrefused
        obtain rfl := Except.error.inj hrefused
        exact .shapeless hshape ⟨rfl, rfl, rfl⟩ rfl

/-- What comes of a request that is passed on to a workspace with the same under edit. -/
theorem Opens.of_keeps {w₀ w' : Workspace} {answer : Except Fault Datum} (hkeeps : w.Keeps w₀)
    (hsupply : w₀.supply = w.supply) (hnotices : w₀.notices = w.notices)
    (h : w₀.Opens id fields answer w') : w.Opens id fields answer w' := by
  have htrans : w₀.Keeps w' → w.Keeps w' := fun h =>
    ⟨h.diagram.trans hkeeps.diagram, h.current.trans hkeeps.current, h.name.trans hkeeps.name⟩
  cases h with
  | opened rebuilt current asked name told =>
    exact .opened (hsupply ▸ rebuilt) current asked name (hnotices ▸ told)
  | damaged refused damage kept told =>
    exact .damaged (hsupply ▸ refused) damage (htrans kept) (hnotices ▸ told)
  | shapeless shape kept told => exact .shapeless shape (htrans kept) (hnotices ▸ told)
  | oversized shape large kept told => exact .oversized shape large (htrans kept) (hnotices ▸ told)

/-- What comes of a request to open a record that the archive finds: the record is opened as a
whole, or it is damaged and the workspace keeps what it had, with one notice either way. Where what
stands for the diagram is no mapping, the request fails whatever it is, and where it is a mapping,
only an integer larger than every double makes the request fail; then there is no notice, and the
workspace keeps what it had. -/
theorem reopen_found {a : Archive} {record : Datum} (hstorage : w.storage = .archive a)
    (hid : id.isGiven = true) (hfound : (a.load id).answer = .ok (some record)) :
    ∃ fields, record = .record fields ∧ w.Opens id fields (w.reopen id).1 (w.reopen id).2 ∧
      ((∀ data, graphOf fields ≠ .record data) →
        (w.reopen id).1 = .error (.datum (.noMethod (graphOf fields).kindName "get"))) := by
  obtain ⟨fields, own, rfl, hown, hasked⟩ := Archive.load_found hid hfound
  have hopens : w.Opens id fields (w.reopen id).1 (w.reopen id).2 := by
    unfold reopen request
    rw [hstorage]
    dsimp only
    rw [hfound]
    refine .of_keeps ?_ ?_ ?_ (rebuild_opens hown hasked)
    · exact ⟨rfl, rfl, rfl⟩
    · rfl
    · exact notices_record _ _
  refine ⟨fields, rfl, hopens, fun hshape => ?_⟩
  have hrefused := Diagram.ofRecord_of_not_record hshape w.supply
  generalize w.reopen id = r at hopens ⊢
  obtain ⟨answer, w'⟩ := r
  cases hopens with
  | opened rebuilt => rw [hrefused] at rebuilt; cases rebuilt
  | damaged refused damage => rw [hrefused] at refused; cases refused; cases damage
  | shapeless => rfl
  | oversized shape => exact absurd shape (hshape _)

end

/-- A record without a diagram, which is opened with an empty one, and a damaged record, which
leaves what is under edit and is told of once. -/
theorem reopen_found_damaged :
    let whole : Fields := [("id", .text "a"), ("name", .text "first")]
    let damaged : Fields := [("id", .text "b"), ("graph", .record [("nodes", .list [.record []])])]
    let a : Archive := { path := "eqbuilder.json", place := .file (.document
      (.record [("equations", .list [.record whole, .record damaged])])) }
    let w : Workspace := { storage := .archive a, current := .text "c", name := .text "mine" }
    (a.load (.text "a")).answer = .ok (some (.record whole)) ∧
      (a.load (.text "b")).answer = .ok (some (.record damaged)) ∧
      w.Opens (.text "a") whole (.ok (.record whole)) (w.reopen (.text "a")).2 ∧
      (w.reopen (.text "a")).2.name = .text "first" ∧
      w.Opens (.text "b") damaged (.ok .null) (w.reopen (.text "b")).2 ∧
      (w.reopen (.text "b")).2.name = .text "mine" := by
  intro whole damaged a w
  have hwhole : (a.load (.text "a")).answer = .ok (some (.record whole)) := rfl
  have hdamaged : (a.load (.text "b")).answer = .ok (some (.record damaged)) := rfl
  have hopened : (w.reopen (.text "a")).1 = .ok (.record whole) := rfl
  have hrefused : (w.reopen (.text "b")).1 = .ok .null := rfl
  obtain ⟨fields, hfields, hopens, -⟩ := reopen_found (w := w) rfl rfl hwhole
  obtain ⟨fields', hfields', hkeeps, -⟩ := reopen_found (w := w) rfl rfl hdamaged
  obtain rfl := Datum.record.inj hfields
  obtain rfl := Datum.record.inj hfields'
  rw [hopened] at hopens
  rw [hrefused] at hkeeps
  exact ⟨hwhole, hdamaged, hopens, rfl, hkeeps, rfl⟩

/-- The fault with which a request to open a record fails, if it does. -/
def openFault? (w : Workspace) (id : Datum) : Option Fault :=
  match (w.reopen id).1 with
  | .ok _ => none
  | .error fault => some fault

/-- A record with null for its diagram, and one with a place larger than every double: a request to
open either fails, and the user is told nothing. -/
theorem reopen_raises :
    let place : Datum := .record [("x", .int (.ofNat (Nat.pow 10 400)))]
    let node : Datum := .record [("type", .text "number"), ("position", place)]
    let a : Archive := { path := "eqbuilder.json", place := .file (.document
      (.record [("equations", .list [
        .record [("id", .text "a"), ("graph", .null)],
        .record [("id", .text "b"), ("graph", .record [("nodes", .list [node])])]])])) }
    let w : Workspace := { storage := .archive a }
    w.openFault? (.text "a") = some (.datum (.noMethod "NoneType" "get")) ∧
      (w.reopen (.text "a")).2.notices = [] ∧
      w.openFault? (.text "b") = some (.datum .tooLargeForDouble) ∧
      (w.reopen (.text "b")).2.notices = [] := by
  decide +kernel

end Workspace

end EquationStudio
