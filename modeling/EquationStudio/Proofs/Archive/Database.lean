import EquationStudio.Archive.Database
import EquationStudio.Proofs.Basic
import EquationStudio.Proofs.Fields

/-!
# The table of constraints and the saved equations

The table repeats what the saved equations hold: under each identifier the constraints of the
equation with it, if it has any. `Database.InStep` says that the two agree, and that the equations
have distinct identifiers and are no more than the archive keeps. Saving an equation
(`Database.InStep.save`) and removing one (`Database.InStep.remove`) keep the two in step, whether
the equation is new, replaces one, or makes the oldest one fall off the end. While they are, the
table answers with the constraints that the equation itself holds
(`Database.constraintsOf_ofParts`).
-/

namespace EquationStudio

/-- What is equal to a text is that text. -/
theorem Datum.text_equal {s : String} {d : Datum} :
    (Datum.text s).equal d = true ↔ d = .text s := by
  cases d with
  | text t => simp [equal, eq_comm (a := s)]
  | _ => simp [equal, quantity?]

/-- The members of a list. -/
def Datum.items : Datum → List Datum
  | .list items => items
  | _ => []

namespace Database

/-- The identifier that a saved record has. -/
abbrev ownId (r : Fields) : Datum := Fields.get r "id"

/-- The text that a saved record has as its identifier. -/
def ownName (r : Fields) : String :=
  match ownId r with
  | .text s => s
  | _ => ""

/-- The constraints that a saved record has, of whatever kind. -/
abbrev ownConstraints (r : Fields) : Datum := Fields.get r "constraints"

/-- The entry that belongs to a record: its constraints, unless there are none. -/
def entryOf (r : Fields) : Option Datum :=
  match ownConstraints r with
  | .list (x :: xs) => some (.list (x :: xs))
  | _ => none

/-- The constraints that a record which was looked for has. -/
def constraintsIn : Option Datum → List Datum
  | some (.record r) => (ownConstraints r).items
  | _ => []

/-- The saved equations and the table of their constraints agree. -/
structure InStep (records : List Fields) (table : Fields) : Prop where
  /-- The identifiers are texts … -/
  named : ∀ r ∈ records, ∃ s, ownId r = .text s
  /-- … and distinct. -/
  distinct : (records.map ownId).Nodup
  /-- No more equations are kept than there is room for. -/
  capped : records.length ≤ archiveCapacity
  /-- Constraints form a list where there are any. -/
  listed : ∀ r ∈ records, ownConstraints r = .null ∨ ∃ items, ownConstraints r = .list items
  /-- No two entries of the table have the same identifier. -/
  keys : (table.map Prod.fst).Nodup
  /-- The table has an entry for exactly the equations with constraints, and it is their list. -/
  entry : ∀ s d, Fields.get? table s = some d ↔ ∃ r ∈ records, ownId r = .text s ∧
    entryOf r = some d

/-- The database of settings, equations and a table of constraints. -/
def ofParts (settings : Datum) (records : List Fields) (table : Fields) : Database :=
  ⟨[("settings", settings), ("equations", .list (records.map .record)),
    ("constraints", .record table)]⟩

section
variable {settings : Datum} {records : List Fields} {table : Fields}

@[simp] theorem equations_ofParts :
    (ofParts settings records table).equations = .list (records.map .record) := rfl

@[simp] theorem constraints_ofParts :
    (ofParts settings records table).constraints = .record table := rfl

/-- Equations and table exchanged. -/
theorem set_ofParts (records' : List Fields) (table' : Fields) :
    ((ofParts settings records table).set "equations" (.list (records'.map .record))).set
      "constraints" (.record table') = ofParts settings records' table' := by
  simp [ofParts, set, Fields.set]

/-- Settings exchanged. -/
theorem setSettings_ofParts (settings' : Datum) :
    (ofParts settings records table).set "settings" settings' =
    ofParts settings' records table := by
  simp [ofParts, set, Fields.set]

/-- A database with all its parts is read as it is. -/
theorem ofDatum_ofParts :
    ofDatum (.record (ofParts settings records table).fields) = ofParts settings records table := by
  simp [ofDatum, ofParts, empty, withPart, Fields.get?]

/-! ## Records with an identifier -/

/-- A saved record tells its identifier. -/
theorem recordId_record (r : Fields) : (Datum.record r).recordId = .ok (ownId r) := rfl

/-- The first record with an identifier is found. -/
theorem findRecord_record (id : Datum) : ∀ records : List Fields,
    findRecord id (records.map .record) =
      .ok ((records.find? fun r => (ownId r).equal id).map .record)
  | [] => rfl
  | r :: rs => by
    rw [List.map_cons, findRecord, recordId_record, ok_bind, List.find?_cons]
    cases h : (ownId r).equal id with
    | true => rfl
    | false => simpa using findRecord_record id rs

/-- The records with other identifiers are left. -/
theorem otherRecords_record (id : Datum) : ∀ records : List Fields,
    otherRecords id (records.map .record) =
      .ok ((records.filter fun r => !(ownId r).equal id).map .record)
  | [] => rfl
  | r :: rs => by
    rw [List.map_cons, otherRecords, recordId_record, ok_bind, otherRecords_record id rs, ok_bind,
      List.filter_cons]
    cases (ownId r).equal id <;> rfl

/-- A record with a text as its identifier has its name. -/
theorem ownName_eq {r : Fields} {s : String} (h : ownId r = .text s) : ownName r = s := by
  rw [ownName, h]

/-- A text is the name of a record exactly if it is the identifier of one. -/
theorem contains_ownName (h : ∀ r ∈ records, ∃ s, ownId r = .text s) {t : String} :
    (records.map ownName).contains t = true ↔ ∃ r ∈ records, ownId r = .text t := by
  rw [List.contains_iff_mem, List.mem_map]
  refine exists_congr fun r => and_congr_right fun hr => ?_
  obtain ⟨u, hu⟩ := h r hr
  rw [ownName_eq hu, hu, Datum.text.injEq]

/-- The keys of records with texts as identifiers. -/
theorem mapM_key : ∀ {records : List Fields}, (∀ r ∈ records, ∃ s, ownId r = .text s) →
    (records.map Datum.record).mapM (fun r => do (← r.recordId).key) =
      .ok (records.map fun r => Key.text (ownName r))
  | [], _ => rfl
  | r :: rs, h => by
    obtain ⟨s, hs⟩ := h r (.head _)
    rw [List.map_cons, List.mapM_cons, recordId_record, ok_bind, hs,
      mapM_key fun r hr => h r (.tail _ hr), List.map_cons, ownName_eq hs]
    rfl

/-- The table without an entry. -/
theorem withdraw_text (table : Fields) (s : String) :
    withdraw (.record table) (.text s) = .ok (.record (Fields.erase table s)) := by
  cases table <;> rfl

/-- The table with nothing but the entries of the equations that are there. -/
theorem retain_record (table : Fields) (records : List Fields) (entered : Option String)
    (hentered : ∀ s, entered = some s → ∃ r ∈ records, ownName r = s) :
    retain (.record table) (records.map fun r => Key.text (ownName r)) entered =
      .ok (.record (table.filter fun f => (records.map ownName).contains f.1)) := by
  refine congrArg (fun fields => Except.ok (Datum.record fields)) (List.filter_congr fun f _ => ?_)
  rw [Bool.eq_iff_iff]
  simp only [Bool.or_eq_true, List.contains_iff_mem, List.mem_map, Key.text.injEq, beq_iff_eq]
  exact ⟨fun h => h.elim id (hentered f.1), .inl⟩

/-! ## Saving -/

namespace InStep

/-- Nothing is saved, and the table is empty. -/
theorem empty : InStep [] [] where
  named := by simp
  distinct := .nil
  capped := Nat.zero_le _
  listed := by simp
  keys := .nil
  entry := by simp

/-- Equations with one identifier are the same. -/
theorem unique (h : InStep records table) {r r' : Fields} (hr : r ∈ records) (hr' : r' ∈ records)
    (he : ownId r = ownId r') : r = r' := List.inj_on_of_nodup_map h.distinct hr hr' he

/-- The equations once one is saved in front of all others, as many as there is room for. -/
def front (new : Fields) (records : List Fields) : List Fields :=
  (new :: records.filter fun r => !(ownId r).equal (ownId new)).take archiveCapacity

/-- The equation that is saved is there, and else only earlier ones with other identifiers. -/
theorem mem_front {new r : Fields} {s : String} (hs : ownId new = .text s)
    (h : r ∈ front new records) : r = new ∨ r ∈ records ∧ ownId r ≠ .text s := by
  obtain rfl | hr := List.mem_cons.1 (List.mem_of_mem_take h)
  · exact .inl rfl
  · obtain ⟨hr, hne⟩ := List.mem_filter.1 hr
    refine .inr ⟨hr, fun he => ?_⟩
    rw [he, hs, Datum.text_equal.2 rfl] at hne
    cases hne

/-- The equation that is saved is there. -/
theorem new_mem_front (new : Fields) (records : List Fields) : new ∈ front new records := .head _

/-- The equations have texts as identifiers when one more is saved. -/
theorem named_front (h : InStep records table) {new : Fields} {s : String}
    (hs : ownId new = .text s) : ∀ r ∈ front new records, ∃ t, ownId r = .text t := by
  intro r hr
  obtain rfl | ⟨hr, -⟩ := mem_front hs hr
  · exact ⟨s, hs⟩
  · exact h.named r hr

/-- The identifiers stay distinct when one more equation is saved: earlier ones with its identifier
go. -/
theorem distinct_front (h : InStep records table) {new : Fields} {s : String}
    (hs : ownId new = .text s) : ((front new records).map ownId).Nodup := by
  rw [front, List.map_take]
  refine List.Nodup.sublist (List.take_sublist _ _) (List.nodup_cons.2 ⟨fun hnew => ?_, ?_⟩)
  · obtain ⟨r, hr, he⟩ := List.mem_map.1 hnew
    have hne := (List.mem_filter.1 hr).2
    rw [he, hs, Datum.text_equal.2 rfl] at hne
    cases hne
  · exact h.distinct.sublist (List.filter_sublist.map _)

/-- Saving an equation keeps the table in step: what is entered or erased for it is what it holds,
and the entries of equations that fell off the end go with them. -/
theorem save (h : InStep records table) {new : Fields} {s : String} (hs : ownId new = .text s)
    (hlisted : ownConstraints new = .null ∨ ∃ items, ownConstraints new = .list items)
    {table' : Fields} (hkeys : (table'.map Prod.fst).Nodup)
    (hentry : ∀ t, Fields.get? table' t = if t = s then entryOf new else Fields.get? table t) :
    InStep (front new records)
      (table'.filter fun f => ((front new records).map ownName).contains f.1) := by
  have hnamed := h.named_front hs
  refine ⟨hnamed, h.distinct_front hs, List.length_take_le _ _, ?_, Fields.nodup_filter hkeys _, ?_⟩
  · intro r hr
    obtain rfl | ⟨hr, -⟩ := mem_front hs hr
    · exact hlisted
    · exact h.listed r hr
  · intro t d
    rw [Fields.get?_filter table' fun t => ((front new records).map ownName).contains t, hentry]
    by_cases ht : t = s
    · subst ht
      rw [if_pos ((contains_ownName hnamed).2 ⟨new, new_mem_front new records, hs⟩), if_pos rfl]
      constructor
      · exact fun hd => ⟨new, new_mem_front new records, hs, hd⟩
      · rintro ⟨r, hr, hid, hd⟩
        obtain rfl | ⟨-, hne⟩ := mem_front hs hr
        · exact hd
        · exact absurd hid hne
    · have hold : ∀ r ∈ front new records, ownId r = .text t → r ∈ records := by
        intro r hr hid
        obtain rfl | ⟨hr, -⟩ := mem_front hs hr
        · exact absurd (Datum.text.inj (hid.symm.trans hs)) ht
        · exact hr
      rw [if_neg ht, Option.ite_none_right_eq_some, contains_ownName hnamed, h.entry]
      constructor
      · rintro ⟨⟨r', hr', hid'⟩, r, hr, hid, hd⟩
        obtain rfl := h.unique hr (hold r' hr' hid') (hid.trans hid'.symm)
        exact ⟨r, hr', hid, hd⟩
      · rintro ⟨r, hr, hid, hd⟩
        exact ⟨⟨r, hr, hid⟩, r, hold r hr hid, hid, hd⟩

/-! ## Removing -/

/-- Removing an equation and its entry keeps the table in step. -/
theorem remove (h : InStep records table) (s : String) :
    InStep (records.filter fun r => !(ownId r).equal (.text s)) (Fields.erase table s) := by
  have hmem : ∀ {r}, r ∈ records.filter (fun r => !(ownId r).equal (.text s)) ↔
      r ∈ records ∧ ownId r ≠ .text s := by
    intro r
    rw [List.mem_filter, Bool.not_eq_true', ← Bool.not_eq_true]
    refine and_congr_right fun hr => not_congr ?_
    obtain ⟨t, ht⟩ := h.named r hr
    rw [ht, Datum.text_equal, eq_comm]
  refine ⟨fun r hr => h.named r (hmem.1 hr).1, h.distinct.sublist (List.filter_sublist.map _),
    (List.length_filter_le _ _).trans h.capped, fun r hr => h.listed r (hmem.1 hr).1,
    Fields.nodup_filter h.keys _, fun t d => ?_⟩
  rw [Fields.get?_erase]
  by_cases ht : t = s
  · subst ht
    rw [if_pos rfl]
    constructor
    · nofun
    · rintro ⟨r, hr, hid, -⟩
      exact absurd hid (hmem.1 hr).2
  · rw [if_neg ht, h.entry]
    refine exists_congr fun r => ⟨?_, ?_⟩
    · rintro ⟨hr, hid, hd⟩
      exact ⟨hmem.2 ⟨hr, fun he => ht (Datum.text.inj (hid.symm.trans he))⟩, hid, hd⟩
    · rintro ⟨hr, hid, hd⟩
      exact ⟨(hmem.1 hr).1, hid, hd⟩

end InStep

/-! ## The library's operations -/

/-- What is done to the table for a record that is saved: its constraints are entered, or an earlier
entry is withdrawn. The answer names what was entered. -/
def tabled (table id items : Datum) : Except Fault (Datum × Option String) :=
  if items.isTruthy then do
    return (← enter table id (← items.members), some id.keyText)
  else do
    return (← withdraw table id, none)

/-- Saving, with what is done to the table said apart. -/
theorem save_eq (db : Database) (record : Fields) (id : Datum) :
    db.save record id = (do
      let others ← otherRecords id (← db.equations.members)
      let records := (.record record :: others).take archiveCapacity
      let (table, entered) ← tabled db.constraints id (Fields.get record "constraints")
      let ids ← records.mapM fun r => do (← r.recordId).key
      let table ← retain table ids entered
      return (db.set "equations" (.list records)).set "constraints" table) := by
  unfold save tabled
  refine bind_congr fun members => bind_congr fun others => ?_
  dsimp only
  split <;> simp only [bind_assoc, pure_bind]

/-- What becomes of the table for a record that is saved under a text. -/
theorem tabled_text (h : InStep records table) {new : Fields} (s : String)
    (hlisted : ownConstraints new = .null ∨ ∃ items, ownConstraints new = .list items) :
    ∃ table' entered,
      tabled (.record table) (.text s) (ownConstraints new) = .ok (.record table', entered) ∧
      (table'.map Prod.fst).Nodup ∧ (∀ u, entered = some u → u = s) ∧
      ∀ t, Fields.get? table' t = if t = s then entryOf new else Fields.get? table t := by
  have hwithdrawn : entryOf new = none → ∀ t, Fields.get? (Fields.erase table s) t =
      if t = s then entryOf new else Fields.get? table t := by
    intro hnone t
    rw [Fields.get?_erase, hnone]
  unfold entryOf tabled at *
  obtain hnull | ⟨items, hitems⟩ := hlisted
  · rw [hnull] at hwithdrawn ⊢
    exact ⟨_, none, by rw [withdraw_text]; rfl, Fields.nodup_filter h.keys _, nofun, hwithdrawn rfl⟩
  · rw [hitems] at hwithdrawn ⊢
    cases items with
    | nil =>
      exact ⟨_, none, by rw [withdraw_text]; rfl, Fields.nodup_filter h.keys _,
        nofun, hwithdrawn rfl⟩
    | cons x xs =>
      exact ⟨_, some s, rfl, Fields.nodup_set h.keys s _, fun _ hu => (Option.some.inj hu).symm,
        fun t => Fields.get?_set table s t _⟩

/-- Saving a record under the text that it has as its identifier succeeds, and the table stays in
step with the equations. -/
theorem save_ofParts (settings : Datum) (h : InStep records table) {new : Fields} {s : String}
    (hs : ownId new = .text s)
    (hlisted : ownConstraints new = .null ∨ ∃ items, ownConstraints new = .list items) :
    ∃ table', (ofParts settings records table).save new (.text s) =
        .ok (ofParts settings (InStep.front new records) table') ∧
      InStep (InStep.front new records) table' := by
  obtain ⟨table₁, entered, htable, hkeys, hentered, hentry⟩ := tabled_text h s hlisted
  have hstep := h.save hs hlisted hkeys hentry
  have hfront : (Datum.record new :: (records.filter fun r =>
    !(ownId r).equal (.text s)).map .record).take
      archiveCapacity = (InStep.front new records).map .record := by
    rw [InStep.front, hs, List.map_take, List.map_cons]
  refine ⟨_, ?_, hstep⟩
  rw [save_eq, equations_ofParts, Datum.members, ok_bind, otherRecords_record, ok_bind, hfront,
    constraints_ofParts, htable, ok_bind]
  dsimp only
  rw [mapM_key hstep.named, ok_bind, retain_record _ _ _ fun u hu =>
    ⟨new, InStep.new_mem_front new records, (ownName_eq hs).trans (hentered u hu).symm⟩, ok_bind]
  exact congrArg Except.ok (set_ofParts _ _)

/-- Where a record was removed, the table stays in step with the equations that are left. -/
theorem remove_ofParts (h : InStep records table) {id : Datum} {db : Database}
    (hr : (ofParts settings records table).remove id = .ok (true, db)) :
    ∃ records' table', db = ofParts settings records' table' ∧ InStep records' table' := by
  rw [remove, equations_ofParts, Datum.size, ok_bind, Datum.members, ok_bind, otherRecords_record,
    ok_bind, constraints_ofParts] at hr
  obtain ⟨table', htable, hr⟩ := ok_of_bind hr
  obtain ⟨hfound, rfl⟩ := Prod.mk.inj (Except.ok.inj hr)
  -- Something was removed, so the identifier is that of an equation: a text.
  obtain ⟨r, hrm, hid⟩ : ∃ r ∈ records, (ownId r).equal id = true := by
    by_contra hnone
    have hall : records.filter (fun r => !(ownId r).equal id) = records :=
      List.filter_eq_self.2 fun r hr => by simpa using fun he => hnone ⟨r, hr, he⟩
    simp [hall] at hfound
  obtain ⟨s, hs⟩ := h.named r hrm
  rw [hs, Datum.text_equal] at hid
  subst hid
  rw [withdraw_text] at htable
  cases htable
  exact ⟨_, _, set_ofParts _ _, h.remove s⟩

/-- The table answers with the constraints of the record with an identifier, with none if there is
no such record. -/
theorem constraintsOf_ofParts (settings : Datum) (h : InStep records table) {id : Datum} {k : Key}
    (hk : id.key = .ok k) :
    ∃ found, (ofParts settings records table).find? id = .ok found ∧
      (ofParts settings records table).constraintsOf id = .ok (constraintsIn found) := by
  refine ⟨(records.find? fun r => (ownId r).equal id).map .record, findRecord_record id records, ?_⟩
  rw [constraintsOf, constraints_ofParts]
  dsimp only
  rw [hk, ok_bind]
  cases hfound : records.find? fun r => (ownId r).equal id with
  | none =>
    cases id with
    | text s =>
      have hnone : Fields.get? table s = none := by
        refine Option.eq_none_iff_forall_ne_some.2 fun d hd => ?_
        obtain ⟨r, hr, hid, -⟩ := (h.entry s d).1 hd
        exact List.find?_eq_none.1 hfound r hr (by rw [hid]; exact Datum.text_equal.2 rfl)
      dsimp only
      rw [hnone]
      rfl
    | _ => rfl
  | some r =>
    have hr := List.mem_of_find?_eq_some hfound
    obtain ⟨s, hs⟩ := h.named r hr
    have hid := List.find?_some hfound
    rw [hs, Datum.text_equal] at hid
    subst hid
    dsimp only [Option.map_some, constraintsIn]
    have hentry : Fields.get? table s = entryOf r := by
      ext d
      rw [h.entry]
      constructor
      · rintro ⟨r', hr', hid', hd⟩
        rwa [h.unique hr hr' (hs.trans hid'.symm)]
      · exact fun hd => ⟨r, hr, hs, hd⟩
    rw [hentry, entryOf]
    obtain hnull | ⟨items, hitems⟩ := h.listed r hr
    · rw [hnull]; rfl
    · rw [hitems]; cases items <;> rfl

end

end Database

end EquationStudio
