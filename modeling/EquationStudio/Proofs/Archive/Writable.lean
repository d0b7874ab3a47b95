import EquationStudio.Document.Writing
import EquationStudio.Proofs.Archive.Database
import EquationStudio.Proofs.Number
import EquationStudio.Supply

/-!
# Data that are written to their end

A document is written piece by piece, and only an integer too long to be written stops it, or a text
that no file can hold. Data without either are written to their end (`Datum.exists_toDocument`). A
database that can be written stays so when records are saved that can be (`Database.writable_save`)
and when records are removed (`Database.writable_remove`), of whatever kind its parts are.
-/

namespace EquationStudio

/-- A file can hold a text if it can hold each character, and only then. -/
theorem isEncodable_iff {s : String} : isEncodable s = true ↔
    ∀ c ∈ s.toList, isLoneUnit c = false := by
  rw [isEncodable, Bool.not_eq_true', List.any_eq_false]
  exact forall₂_congr fun c _ => iff_of_eq (Bool.not_eq_true _)

/-- A file can hold what is written of the characters of numerals. -/
theorem NumeralChars.isEncodable {s : String} (h : NumeralChars s.toList) :
    isEncodable s = true := by
  refine isEncodable_iff.2 fun c hc => ?_
  obtain hdigit | hmem := h c hc
  · have hle : c.toNat ≤ 57 := (Char.isDigit_iff_toNat.1 hdigit).2
    exact decide_eq_false (by show ¬0x10f800 ≤ c.toNat; omega)
  · have hall : ['-', '+', '.', 'e'].all (! isLoneUnit ·) = true := by decide +kernel
    simpa using List.all_eq_true.1 hall c hmem

/-- A file can hold an identifier that is drawn. -/
theorem Supply.isEncodable_draw (supply : Supply) (length : Nat) :
    isEncodable (supply.draw length).1 = true := by
  have hchars : NumeralChars (freshIdentifier (supply.drawn + 1)).toList := by
    simp only [freshIdentifier, String.toList_append, String.toList_ofList, numeralChars_append]
    exact ⟨⟨numeralChars_zeros _, numeralChars_nat _⟩, numeralChars_zeros _⟩
  refine NumeralChars.isEncodable ?_
  rw [Supply.draw, String.toList_ofList]
  exact hchars.subset (List.take_subset _ _)

namespace Datum

mutual

/-- A datum without integers that are too long to be written and without texts that no file can
hold. -/
def Writable : Datum → Prop
  | int n => ∃ digits, integerText n = .ok digits
  | text s => isEncodable s = true
  | list items => WritableItems items
  | record fields => WritableFields fields
  | null | bool _ | float _ => True

/-- Members without such integers and texts. -/
def WritableItems : List Datum → Prop
  | [] => True
  | x :: xs => x.Writable ∧ WritableItems xs

/-- Fields without such integers and texts, in their keys and in their values. -/
def WritableFields : List (String × Datum) → Prop
  | [] => True
  | (key, x) :: fs => isEncodable key = true ∧ x.Writable ∧ WritableFields fs

end

/-- A list can be written if its members can. -/
theorem writable_list {items : List Datum} : (list items).Writable ↔ ∀ x ∈ items, x.Writable := by
  rw [Writable]
  induction items with
  | nil => simp [WritableItems]
  | cons x xs ih => simp [WritableItems, ih]

/-- A record can be written if its keys and its values can. -/
theorem writable_record {fields : Fields} :
    (record fields).Writable ↔ ∀ f ∈ fields, isEncodable f.1 = true ∧ f.2.Writable := by
  rw [Writable]
  induction fields with
  | nil => simp [WritableFields]
  | cons f fs ih => simp [WritableFields, ih, and_assoc]

mutual

/-- Data that can be written are written to their end, at any level and behind any text. -/
theorem exists_draft : ∀ {d : Datum}, d.Writable → ∀ (level : Nat) (before mark : String),
    ∃ s, draft level before mark d = .ok s
  | null, _, _, _, _ | bool _, _, _, _, _ | float _, _, _, _, _ => ⟨_, rfl⟩
  | text _, h, _, _, _ => ⟨_, by unfold draft; exact if_pos h⟩
  | int n, ⟨digits, h⟩, _, before, mark => ⟨before ++ mark ++ digits, by unfold draft; rw [h]⟩
  | list [], _, _, _, _ => ⟨_, rfl⟩
  | list (x :: xs), ⟨hx, hxs⟩, level, before, mark => by
    obtain ⟨first, hfirst⟩ :=
      exists_draft hx (level + 1) (before ++ mark) ("[" ++ newLine (level + 1))
    obtain ⟨items, hitems⟩ := exists_draftItems hxs (level + 1) first
    exact ⟨items ++ newLine level ++ "]", by unfold draft; rw [hfirst, ok_bind, hitems]; rfl⟩
  | record [], _, _, _, _ => ⟨_, rfl⟩
  | record (f :: fs), h, level, before, mark => by
    obtain ⟨fields, hfields⟩ := exists_draftFields h (level + 1)
      (before ++ mark ++ "\x7b" ++ newLine (level + 1)) ""
    exact ⟨fields ++ newLine level ++ "\x7d", by unfold draft; rw [hfields]; rfl⟩

/-- Members that can be written are written to their end. -/
theorem exists_draftItems : ∀ {items : List Datum}, WritableItems items →
    ∀ (level : Nat) (before : String),
    ∃ s, draftItems level before items = .ok s
  | [], _, _, _ => ⟨_, rfl⟩
  | x :: xs, ⟨hx, hxs⟩, level, before => by
    obtain ⟨first, hfirst⟩ := exists_draft hx level before ("," ++ newLine level)
    obtain ⟨items, hitems⟩ := exists_draftItems hxs level first
    exact ⟨items, by unfold draftItems; rw [hfirst]; exact hitems⟩

/-- Fields that can be written are written to their end. -/
theorem exists_draftFields : ∀ {fields : List (String × Datum)}, WritableFields fields →
    ∀ (level : Nat) (before mark : String), ∃ s, draftFields level before mark fields = .ok s
  | [], _, _, _, _ => ⟨_, rfl⟩
  | (key, x) :: fs, ⟨hkey, hx, hfs⟩, level, before, mark => by
    obtain ⟨first, hfirst⟩ := exists_draft hx level (before ++ mark ++ documentText key ++ ": ") ""
    obtain ⟨fields, hfields⟩ := exists_draftFields hfs level first ("," ++ newLine level)
    exact ⟨fields, by unfold draftFields; rw [if_pos hkey, hfirst]; exact hfields⟩

end

mutual

/-- Nothing but an integer too long or a text that no file can hold stops a document. -/
theorem cause_of_draft : ∀ (d : Datum) (level : Nat) (before mark : String) (torn : Torn),
    draft level before mark d = .error torn → torn.cause = .tooManyDigits ∨
    torn.cause = .notEncodable
  | null, _, _, _, _ | bool _, _, _, _, _ | float _, _, _, _, _ | list [], _, _, _, _
  | record [], _, _, _, _ => by
    unfold draft
    nofun
  | text s, _, _, _, _ => by
    unfold draft
    split <;> rintro ⟨⟩
    exact .inr rfl
  | int n, _, _, _, _ => by
    unfold draft
    split <;> rintro ⟨⟩
    exact .inl rfl
  | list (x :: xs), _, _, _, _ => by
    unfold draft
    intro h
    obtain h | ⟨_, -, h⟩ := error_of_bind h
    · exact cause_of_draft x _ _ _ _ h
    · obtain h | ⟨_, -, h⟩ := error_of_bind h
      · exact cause_of_draftItems xs _ _ _ h
      · cases h
  | record (f :: fs), _, _, _, _ => by
    unfold draft
    intro h
    obtain h | ⟨_, -, h⟩ := error_of_bind h
    · exact cause_of_draftFields (f :: fs) _ _ _ _ h
    · cases h

/-- The same for members. -/
theorem cause_of_draftItems : ∀ (items : List Datum) (level : Nat) (before : String) (torn : Torn),
    draftItems level before items = .error torn →
      torn.cause = .tooManyDigits ∨ torn.cause = .notEncodable
  | [], _, _, _ => by
    unfold draftItems
    nofun
  | x :: xs, _, _, _ => by
    unfold draftItems
    intro h
    obtain h | ⟨_, -, h⟩ := error_of_bind h
    · exact cause_of_draft x _ _ _ _ h
    · exact cause_of_draftItems xs _ _ _ h

/-- The same for fields, whose keys are texts too. -/
theorem cause_of_draftFields :
    ∀ (fields : List (String × Datum)) (level : Nat) (before mark : String)
    (torn : Torn), draftFields level before mark fields = .error torn →
      torn.cause = .tooManyDigits ∨ torn.cause = .notEncodable
  | [], _, _, _, _ => by
    unfold draftFields
    nofun
  | (key, x) :: fs, _, _, _, _ => by
    unfold draftFields
    split
    · intro h
      obtain h | ⟨_, -, h⟩ := error_of_bind h
      · exact cause_of_draft x _ _ _ _ h
      · exact cause_of_draftFields fs _ _ _ _ h
    · rintro ⟨⟩
      exact .inr rfl

end

/-- What a record has under a key can be written if the record can. -/
theorem writable_get {fields : Fields} (h : (record fields).Writable) (key : String) :
    (Fields.get fields key).Writable := by
  unfold Fields.get
  cases hfound : Fields.get? fields key with
  | none => trivial
  | some value => exact (writable_record.1 h _ (Fields.mem_of_get? hfound)).2

/-- A record in which a field is set can be written if it could before and the field can. -/
theorem writable_set {fields : Fields} (h : (record fields).Writable) {key : String}
    (hkey : isEncodable key = true) {value : Datum} (hvalue : value.Writable) :
    (record (Fields.set fields key value)).Writable := by
  refine writable_record.2 fun f hf => ?_
  obtain rfl | hf := Fields.mem_set hf
  · exact ⟨hkey, hvalue⟩
  · exact writable_record.1 h f hf

/-- What a datum that can be written goes through can be written. -/
theorem writable_members {d : Datum} (h : d.Writable) {items : List Datum}
    (hitems : d.members = .ok items) : ∀ x ∈ items, x.Writable := by
  cases d with
  | list xs => cases hitems; exact writable_list.1 h
  | text s =>
    cases hitems
    intro x hx
    obtain ⟨c, hc, rfl⟩ := List.mem_map.1 hx
    have hchar : ∀ c' ∈ (String.singleton c).toList, isLoneUnit c' = false := by
      simpa using isEncodable_iff.1 h c hc
    exact isEncodable_iff.2 hchar
  | record fields =>
    cases hitems
    intro x hx
    obtain ⟨f, hf, rfl⟩ := List.mem_map.1 hx
    exact (writable_record.1 h f hf).1
  | null | bool | int | float => cases hitems

/-- A file can hold the words for a key that can be written. -/
theorem isEncodable_keyText {d : Datum} (h : d.Writable) : isEncodable d.keyText = true := by
  cases d with
  | text s => exact h
  | int n => exact (numeralChars_int n).isEncodable
  | float x =>
    cases x with
    | finite x => exact x.numeralChars_write.isEncodable
    | nan => decide +kernel
    | infinite negative => cases negative <;> decide +kernel
  | bool b => cases b <;> decide +kernel
  | null => decide +kernel
  | list | record => exact isEncodable_iff.2 nofun

/-- Data that can be written make a document. -/
theorem exists_toDocument {d : Datum} (h : d.Writable) : ∃ s, d.toDocument = .ok s :=
  exists_draft h 0 "" ""

end Datum

namespace Database

/-- The default settings can be written. -/
theorem writable_defaultSettings : (Datum.record defaultSettings).Writable :=
  ⟨by decide +kernel, ⟨"1000", by decide +kernel⟩, by decide +kernel, ⟨"2000", by decide +kernel⟩,
    by decide +kernel, by unfold Datum.Writable; decide +kernel, trivial⟩

/-- The empty database can be written. -/
theorem writable_empty : (Datum.record empty.fields).Writable :=
  ⟨by decide +kernel, writable_defaultSettings, by decide +kernel, trivial,
    by decide +kernel, trivial, trivial⟩

/-- A database that is read from a document can be written if the document can. -/
theorem writable_ofDatum {d : Datum} (h : d.Writable) :
    (Datum.record (ofDatum d).fields).Writable := by
  have hparts : ∀ (parts fields : Fields), (Datum.record parts).Writable →
      (Datum.record fields).Writable →
      (Datum.record (parts.foldl withPart fields)).Writable := by
    intro parts
    induction parts with
    | nil => exact fun _ _ h => h
    | cons part parts ih =>
      intro fields ⟨hkey, hvalue, hrest⟩ hfields
      refine ih _ hrest ?_
      unfold withPart
      split
      · exact hfields
      · refine Datum.writable_record.2 fun f hf => ?_
        obtain hf | hf := List.mem_append.1 hf
        · exact Datum.writable_record.1 hfields f hf
        · rw [List.mem_singleton.1 hf]
          exact ⟨hkey, hvalue⟩
  cases d with
  | record fields => exact hparts _ _ writable_empty h
  | null | bool | int | float | text | list => exact writable_empty

/-- The other records are among all. -/
theorem otherRecords_subset {id : Datum} :
    ∀ {ds others : List Datum}, otherRecords id ds = .ok others → others ⊆ ds
  | [], _, h => by cases h; exact List.nil_subset _
  | d :: ds, others, h => by
    obtain ⟨here, -, h⟩ := ok_of_bind h
    obtain ⟨rest, hrest, h⟩ := ok_of_bind h
    cases h
    have hsub := otherRecords_subset hrest
    split
    · exact List.subset_cons_of_subset d hsub
    · exact List.cons_subset_cons d hsub

/-- A table stays writable when constraints are entered. -/
theorem writable_enter {table id : Datum} {items : List Datum} {table' : Datum}
    (h : enter table id items = .ok table') (htable : table.Writable) (hid : id.Writable)
    (hitems : ∀ x ∈ items, x.Writable) : table'.Writable := by
  unfold enter at h
  split at h
  · next fields =>
    obtain ⟨k, hk, h⟩ := ok_of_bind h
    cases h
    exact Datum.writable_set htable (Datum.isEncodable_keyText hid) (Datum.writable_list.2 hitems)
  · next entries =>
    split at h
    · split at h <;> cases h
      exact htable
    · split at h <;> cases h
      exact htable
    · cases h
  · cases h

/-- A table stays writable when constraints are withdrawn. -/
theorem writable_withdraw {table id table' : Datum} (h : withdraw table id = .ok table')
    (htable : table.Writable) : table'.Writable := by
  unfold withdraw at h
  split at h
  · cases h
    exact htable
  · next fields _ =>
    split at h
    · next s =>
      cases h
      exact Datum.writable_record.2 fun f hf =>
        Datum.writable_record.1 htable f (List.mem_of_mem_filter hf)
    · obtain ⟨k, hk, h⟩ := ok_of_bind h
      cases h
      exact htable
  · cases h
  · cases h

/-- A table stays writable when entries are dropped. -/
theorem writable_retain {table table' : Datum} {ids : List Key} {entered : Option String}
    (h : retain table ids entered = .ok table') (htable : table.Writable) : table'.Writable := by
  unfold retain at h
  split at h <;> cases h
  exact Datum.writable_record.2 fun f hf =>
    Datum.writable_record.1 htable f (List.mem_of_mem_filter hf)

/-- A database stays writable when equations and table are exchanged for writable ones. -/
theorem writable_set_set {db : Database} (h : (Datum.record db.fields).Writable)
    {records : List Datum} (hrecords : ∀ r ∈ records, r.Writable) {table : Datum}
    (htable : table.Writable) :
    (Datum.record ((db.set "equations" (.list records)).set "constraints" table).fields).Writable :=
  Datum.writable_set (Datum.writable_set h (by decide +kernel) (Datum.writable_list.2 hrecords))
    (by decide +kernel) htable

/-- A database stays writable when a record is saved that can be written. -/
theorem writable_save {db db' : Database} {record : Fields} {id : Datum}
    (h : db.save record id = .ok db') (hdb : (Datum.record db.fields).Writable)
    (hrecord : (Datum.record record).Writable) (hid : id.Writable) :
    (Datum.record db'.fields).Writable := by
  rw [save_eq] at h
  obtain ⟨members, hmembers, h⟩ := ok_of_bind h
  obtain ⟨others, hothers, h⟩ := ok_of_bind h
  obtain ⟨⟨table, entered⟩, htable, h⟩ := ok_of_bind h
  obtain ⟨ids, -, h⟩ := ok_of_bind h
  obtain ⟨table', hretain, h⟩ := ok_of_bind h
  cases h
  have hrecords : ∀ r ∈ (.record record :: others).take archiveCapacity, r.Writable := by
    intro r hr
    obtain rfl | hr := List.mem_cons.1 (List.mem_of_mem_take hr)
    · exact hrecord
    · exact Datum.writable_members (Datum.writable_get hdb _) hmembers r
        (otherRecords_subset hothers hr)
  refine writable_set_set hdb hrecords (writable_retain hretain ?_)
  unfold tabled at htable
  split at htable
  · obtain ⟨items, hitems, htable⟩ := ok_of_bind htable
    obtain ⟨_, henter, htable⟩ := ok_of_bind htable
    cases htable
    exact writable_enter henter (Datum.writable_get hdb _) hid
      (Datum.writable_members (Datum.writable_get hrecord _) hitems)
  · obtain ⟨_, hwithdraw, htable⟩ := ok_of_bind htable
    cases htable
    exact writable_withdraw hwithdraw (Datum.writable_get hdb _)

/-- A database stays writable when records are removed. -/
theorem writable_remove {db db' : Database} {id : Datum} {removed : Bool}
    (h : db.remove id = .ok (removed, db')) (hdb : (Datum.record db.fields).Writable) :
    (Datum.record db'.fields).Writable := by
  obtain ⟨before, -, h⟩ := ok_of_bind h
  obtain ⟨members, hmembers, h⟩ := ok_of_bind h
  obtain ⟨others, hothers, h⟩ := ok_of_bind h
  obtain ⟨table, hwithdraw, h⟩ := ok_of_bind h
  cases h
  refine writable_set_set hdb (fun r hr =>
    ?_) (writable_withdraw hwithdraw (Datum.writable_get hdb _))
  exact Datum.writable_members (Datum.writable_get hdb _) hmembers r
    (otherRecords_subset hothers hr)

end Database

end EquationStudio
