import EquationStudio.Proofs.Archive.Stored
import EquationStudio.Proofs.Document.RoundTrip
import Mathlib.Data.Finset.Card

/-!
# Archives that work

An archive works (`Archive.Works`) if its file can be written, what is read of it are settings,
equations and a table that agrees with them, and nothing of it is lost in a document. Saving a
record that no document loses anything of succeeds and leaves a working archive with the record in
front (`Archive.Works.save`), removing one leaves a working archive without it
(`Archive.Works.remove`), and so does exchanging the document for the text that was written of it
(`Archive.Works.reread`).

An equation stays while the others that were saved since are fewer than the archive keeps
(`Database.SavedSince.save`): each of them stands in front of it once.
-/

namespace EquationStudio

namespace Database

/-- The default settings are held without loss. -/
theorem lossless_defaultSettings : (Datum.record defaultSettings).Lossless := by decide +kernel

/-- A database whose settings and equations are held without loss is held without loss, since its
table repeats what the equations hold. -/
theorem InStep.lossless {records : List Fields} {table : Fields} (h : InStep records table)
    {settings : Datum} (hsettings : settings.Lossless)
    (hrecords : ∀ r ∈ records, (Datum.record r).Lossless) :
    (Datum.record (ofParts settings records table).fields).Lossless := by
  have hequations : (Datum.list (records.map .record)).Lossless := by
    refine Datum.lossless_list.2 fun d hd => ?_
    obtain ⟨r, hr, rfl⟩ := List.mem_map.1 hd
    exact hrecords r hr
  have htable : (Datum.record table).Lossless := by
    refine Datum.lossless_record.2 ⟨h.keys, fun f hf => ?_⟩
    obtain ⟨r, hr, hid, hentry⟩ := (h.entry f.1 f.2).1 (Fields.get?_of_mem h.keys hf)
    have hown := (hrecords r hr).get "id"
    have hconstraints := (hrecords r hr).get "constraints"
    rw [show Fields.get r "id" = _ from hid] at hown
    refine ⟨hown.writable, ?_⟩
    unfold entryOf at hentry
    split at hentry
    · next heq =>
      rw [← Option.some.inj hentry, ← heq]
      exact hconstraints
    · cases hentry
  refine Datum.lossless_record.2 ⟨by simp [ofParts], ?_⟩
  simp only [ofParts, List.forall_mem_cons, List.not_mem_nil, false_imp_iff, implies_true, and_true]
  exact ⟨⟨by decide +kernel, hsettings⟩, ⟨by decide +kernel, hequations⟩, by decide +kernel, htable⟩

/-- What is left when a record is removed are the records with other identifiers. -/
theorem equations_remove {settings : Datum} {records : List Fields} {table : Fields}
    {id : Datum} {removed : Bool} {db : Database}
    (h : (ofParts settings records table).remove id = .ok (removed, db)) :
    db.equations = .list ((records.filter fun r => !(ownId r).equal id).map .record) := by
  obtain ⟨table', rfl⟩ := left_of_remove h
  rfl

/-! ## How long an equation stays -/

/-- An equation is there, and in front of it only such as were saved under one of the given
names. -/
def SavedSince (r : Fields) (names : List String) (records : List Fields) : Prop :=
  ∃ newer older, records = newer ++ r :: older ∧ ∀ r' ∈ newer, ∃ t ∈ names, ownId r' = .text t

namespace SavedSince

variable {r : Fields} {names : List String} {records : List Fields}

/-- The equation is there. -/
theorem mem (h : SavedSince r names records) : r ∈ records := by
  obtain ⟨newer, older, rfl, -⟩ := h
  exact List.mem_append_right _ (.head _)

/-- An equation that was just saved stands in front of all others. -/
theorem front (r : Fields) (records : List Fields) : SavedSince r [] (InStep.front r records) :=
  ⟨[], _, rfl, nofun⟩

/-- Equations of distinct names are no more than the names. -/
theorem length_le_card {newer : List Fields} (hdistinct : (newer.map ownId).Nodup)
    (hnames : ∀ r ∈ newer, ∃ t ∈ names, ownId r = .text t) :
    newer.length ≤ names.toFinset.card := by
  have hnamed : (newer.map ownName).Nodup := by
    refine List.Nodup.of_map Datum.text ?_
    rw [List.map_map, List.map_congr_left (g := ownId) fun r hr => ?_]
    · exact hdistinct
    · obtain ⟨t, -, ht⟩ := hnames r hr
      rw [Function.comp_apply, ownName_eq ht, ht]
  rw [← List.length_map ownName, ← List.toFinset_card_of_nodup hnamed]
  refine Finset.card_le_card fun t ht => ?_
  obtain ⟨r, hr, rfl⟩ := List.mem_map.1 (List.mem_toFinset.1 ht)
  obtain ⟨t, ht, hid⟩ := hnames r hr
  rw [ownName_eq hid, List.mem_toFinset]
  exact ht

/-- An equation stays when another one is saved, as long as fewer have been saved since than there
is room for. -/
theorem save (h : SavedSince r names records) (hrecords : (records.map ownId).Nodup) {s t : String}
    (hs : ownId r = .text s) {new : Fields} (ht : ownId new = .text t) (hne : t ≠ s)
    (hroom : (t :: names).toFinset.card < archiveCapacity) :
    SavedSince r (t :: names) (InStep.front new records) := by
  obtain ⟨newer, older, rfl, hnames⟩ := h
  have hother : (!(ownId r).equal (ownId new)) = true := by
    rw [hs, ht, Bool.not_eq_true', ← Bool.not_eq_true, Datum.text_equal]
    exact fun he => hne (Datum.text.inj he)
  have hsaved : ∀ r' ∈ new :: newer.filter (fun r' => !(ownId r').equal (ownId new)),
      ∃ u ∈ t :: names, ownId r' = .text u := by
    intro r' hr'
    obtain rfl | hr' := List.mem_cons.1 hr'
    · exact ⟨t, .head _, ht⟩
    · obtain ⟨u, hu, hid⟩ := hnames r' (List.mem_of_mem_filter hr')
      exact ⟨u, .tail _ hu, hid⟩
  have hdistinct : ((new :: newer.filter fun r' =>
      !(ownId r').equal (ownId new)).map ownId).Nodup := by
    refine List.nodup_cons.2 ⟨fun hmem => ?_, ?_⟩
    · obtain ⟨r', hr', he⟩ := List.mem_map.1 hmem
      have hr' := (List.mem_filter.1 hr').2
      rw [he, ht, Datum.text_equal.2 rfl] at hr'
      cases hr'
    · have hsub : newer.Sublist (newer ++ r :: older) := List.sublist_append_left _ _
      exact hrecords.sublist ((List.filter_sublist.trans hsub).map _)
  have hlength := Nat.lt_of_le_of_lt (length_le_card hdistinct hsaved) hroom
  generalize hkept : (new :: newer.filter fun r' => !(ownId r').equal (ownId new)) = kept at *
  obtain ⟨room, hroom⟩ := Nat.exists_eq_add_of_lt hlength
  refine ⟨kept, (older.filter fun r' => !(ownId r').equal (ownId new)).take room, ?_, hsaved⟩
  have hfilter : (newer ++ r :: older).filter (fun r' => !(ownId r').equal (ownId new)) =
      newer.filter (fun r' => !(ownId r').equal (ownId new)) ++
        r :: older.filter (fun r' => !(ownId r').equal (ownId new)) := by
    rw [List.filter_append, List.filter_cons, if_pos hother]
  rw [InStep.front, hfilter, ← List.cons_append, hkept, hroom, Nat.add_assoc,
    List.take_length_add_append, List.take_succ_cons]

/-- An equation stays when another one is removed. -/
theorem remove (h : SavedSince r names records) {id : Datum} (hne : (ownId r).equal id = false) :
    SavedSince r names (records.filter fun r' => !(ownId r').equal id) := by
  obtain ⟨newer, older, rfl, hnames⟩ := h
  refine ⟨newer.filter fun r' => !(ownId r').equal id,
    older.filter fun r' => !(ownId r').equal id, ?_,
    fun r' hr' => hnames r' (List.mem_of_mem_filter hr')⟩
  rw [List.filter_append, List.filter_cons, if_pos (by rw [hne]; rfl)]

end SavedSince

end Database

namespace Archive

open Database (ofParts InStep ownId ownConstraints)

/-- A request that only asks leaves the archive as it is. -/
theorem ask_archive {α : Type} (a : Archive) (f : Database → Except Fault α)
    (obstacle : Option Obstacle) : (a.ask f obstacle).archive = a := by
  unfold ask
  rcases a.read obstacle with ⟨_ | _, _⟩ <;> rfl

/-! ## Working archives -/

/-- An archive that works, with the equations in it. -/
structure Works (a : Archive) (records : List Fields) : Prop where
  /-- Its file can be written. -/
  opens : a.place.Open
  /-- It holds settings, the equations and a table that agrees with them. -/
  read : ∃ settings table journal, a.read = (.ok (ofParts settings records table), journal) ∧
    InStep records table ∧ settings.Lossless
  /-- Nothing of the equations is lost in a document … -/
  lossless : ∀ r ∈ records, (Datum.record r).Lossless
  /-- … nor of what was written last. -/
  stored : ∀ d, a.place = .file (.document d) → d.Lossless

namespace Works

variable {a : Archive} {records : List Fields}

/-- An archive without a file works. -/
theorem absent (path : String) : ({ path } : Archive).Works [] where
  opens := trivial
  read := ⟨.record defaultSettings, [], [], rfl, .empty, Database.lossless_defaultSettings⟩
  lossless := nofun
  stored := nofun

/-- Equations and a table that agrees with them are written to a working archive, which works with
them. -/
theorem write (h : a.Works records) {settings : Datum} (hsettings : settings.Lossless)
    {records' : List Fields} {table' : Fields} (hstep : InStep records' table')
    (hrecords : ∀ r ∈ records', (Datum.record r).Lossless) :
    ∃ a', a.write (ofParts settings records' table') = (.ok (), a') ∧ a'.Works records' := by
  have hlossless := hstep.lossless hsettings hrecords
  obtain ⟨s, hs⟩ := Datum.exists_toDocument hlossless.writable
  obtain ⟨path, place⟩ := a
  have hread : (⟨path, .file (.document (.record (ofParts settings records' table').fields))⟩
      : Archive).read =
      (.ok (ofParts settings records' table'), []) :=
    congrArg (fun db => (Except.ok db, [])) Database.ofDatum_ofParts
  refine ⟨⟨path, .file (.document (.record (ofParts settings records' table').fields))⟩,
    ?_, trivial, ⟨settings, table', [], hread, hstep, hsettings⟩, hrecords, ?_⟩
  · exact write_of_ok h.opens hs
  · rintro d ⟨⟩
    exact hlossless

/-- What was written last may be read back as text. -/
theorem reread (h : a.Works records) {d : Datum} {s : String}
    (hplace : a.place = .file (.document d)) (hs : d.toDocument = .ok s) :
    ({ a with place := .file (.text s) } : Archive).Works records := by
  obtain ⟨s', hs', hread⟩ := Datum.ofDocument_toDocument (h.stored d hplace)
  obtain rfl : s' = s := Except.ok.inj (hs'.symm.trans hs)
  refine ⟨trivial, ?_, h.lossless, nofun⟩
  obtain ⟨settings, table, journal, hsame, hstep, hsettings⟩ := h.read
  refine ⟨settings, table, journal, ?_, hstep, hsettings⟩
  rw [← hsame]
  unfold Archive.read
  rw [hplace]
  simp only [FileContent.read, hread]

/-! ## Saving -/

/-- The identifier that a record is saved under: its own, or one that is drawn if it has none. -/
theorem savedId {own : Datum} (h : own = .null ∨ ∃ t, own = .text t ∧ isEncodable t = true)
    (supply : Supply) : ∃ t supply', (if own.isTruthy then (own, supply)
        else (Datum.text (supply.draw 12).1, (supply.draw 12).2)) = (.text t, supply') ∧
      t ≠ "" ∧ isEncodable t = true := by
  have hdrawn : (supply.draw 12).1 ≠ "" := by
    intro he
    have hchars := congrArg String.toList he
    rw [Supply.draw, String.toList_ofList, String.toList_empty,
      List.take_eq_nil_iff, freshIdentifier, String.toList_append, List.append_eq_nil_iff] at hchars
    obtain h | ⟨-, h⟩ := hchars
    · cases h
    · rw [String.toList_ofList] at h
      cases h
  have hencodable := supply.isEncodable_draw 12
  obtain rfl | ⟨t, rfl, ht⟩ := h
  · exact ⟨_, _, rfl, hdrawn, hencodable⟩
  · by_cases hempty : t = ""
    · subst hempty
      exact ⟨_, _, rfl, hdrawn, hencodable⟩
    · have htruthy : (Datum.text t).isTruthy = true := by simpa [Datum.isTruthy] using hempty
      exact ⟨t, supply, by rw [if_pos htruthy], hempty, ht⟩

/-- What is saved of a record is held without loss if the record is. -/
theorem lossless_stamped {fields : Fields} (h : (Datum.record fields).Lossless) {t : String}
    (ht : isEncodable t = true) {now : Moment} (hnow : isEncodable now.stamp = true) :
    (Datum.record (stamped fields (.text t) now)).Lossless :=
  ((h.set (by decide +kernel) (Datum.lossless_text ht)).set (by decide +kernel)
    (Datum.lossless_text hnow)).set
    (by decide +kernel) (Datum.lossless_float _)

/-- A record that no document loses anything of is saved, and stands in front of the others. -/
theorem save (h : a.Works records) (supply : Supply) {now : Moment}
    (hnow : isEncodable now.stamp = true) {record : Datum} {fields : Fields}
    (htaken : record.toFields = .ok fields) (hfields : (Datum.record fields).Lossless)
    (hid : Fields.get fields "id" = .null ∨ ∃ t, Fields.get fields "id" = .text t)
    (hlisted : Fields.get fields "constraints" = .null ∨
    ∃ items, Fields.get fields "constraints" = .list items) :
    ∃ t, (a.save supply now record).1.answer = .ok (.text t) ∧ t ≠ "" ∧
      (a.save supply now record).1.archive.Works
      (InStep.front (stamped fields (.text t) now) records) := by
  have hown : Fields.get fields "id" = .null ∨
      ∃ t, Fields.get fields "id" = .text t ∧ isEncodable t = true := by
    refine hid.imp_right fun ⟨t, ht⟩ => ⟨t, ht, ?_⟩
    have hwritable := (hfields.get "id").writable
    rwa [ht] at hwritable
  obtain ⟨t, supply', hdrawn, hne, ht⟩ := savedId hown supply
  obtain ⟨settings, table, journal, hread, hstep, hsettings⟩ := h.read
  obtain ⟨hnew, hconstraints⟩ := own_stamped fields (.text t) now
  obtain ⟨table', hsaved, hstep'⟩ :=
    Database.save_ofParts settings hstep hnew (hconstraints ▸ hlisted)
  have hrecords : ∀ r ∈ InStep.front (stamped fields (.text t) now) records,
      (Datum.record r).Lossless := by
    intro r hr
    obtain rfl | ⟨hr, -⟩ := InStep.mem_front hnew hr
    · exact lossless_stamped hfields ht hnow
    · exact h.lossless r hr
  obtain ⟨a', hwrite, hworks⟩ := h.write hsettings hstep' hrecords
  obtain ⟨journal', hsave⟩ : ∃ journal', a.save supply now record =
      (⟨.ok (.text t), a', journal'⟩, supply') := by
    unfold Archive.save
    rw [hread]
    dsimp only
    rw [htaken]
    dsimp only
    rw [hdrawn]
    dsimp only
    rw [show Fields.set _ "epoch" _ = stamped fields (.text t) now from rfl, hsaved]
    dsimp only [commit]
    rw [hwrite]
    exact ⟨_, rfl⟩
  rw [hsave]
  exact ⟨t, rfl, hne, hworks⟩

/-! ## Loading -/

/-- A record is loaded by its identifier, and its constraints are answered. -/
theorem load (h : a.Works records) {r : Fields} (hr : r ∈ records) {s : String}
    (hs : ownId r = .text s) : (a.load (.text s)).answer = .ok (some (.record r)) ∧
      (a.constraintsOf (.text s)).answer = .ok (ownConstraints r).items := by
  obtain ⟨settings, table, journal, hread, hstep, -⟩ := h.read
  have hfind : (ofParts settings records table).find? (.text s) = .ok (some (.record r)) := by
    obtain ⟨r', hfound⟩ : ∃ r', records.find? (fun r' => (ownId r').equal (.text s)) = some r' :=
      Option.isSome_iff_exists.1 (List.find?_isSome.2 ⟨r, hr, hs ▸ Datum.text_equal.2 rfl⟩)
    have hr' := List.mem_of_find?_eq_some hfound
    obtain ⟨t, ht⟩ := hstep.named r' hr'
    have hid := List.find?_some (p := fun r' => (ownId r').equal (.text s)) hfound
    rw [ht, Datum.text_equal] at hid
    obtain rfl := hstep.unique hr' hr (by rw [ht, hs, hid])
    exact (Database.findRecord_record (.text s) records).trans (by rw [hfound]; rfl)
  have hkey : (Datum.text s).key = .ok (.text s) := rfl
  obtain ⟨found, hfound, hitems⟩ := Database.constraintsOf_ofParts settings hstep hkey
  rw [hfind] at hfound
  cases hfound
  unfold Archive.load Archive.constraintsOf ask
  rw [hread]
  exact ⟨hfind, hitems⟩

/-! ## Removing -/

/-- Removing a record leaves a working archive with the same records, or without the one. -/
theorem remove (h : a.Works records) (id : Datum) :
    (a.remove id).archive.Works records ∨
      (a.remove id).archive.Works (records.filter fun r => !(ownId r).equal id) := by
  obtain ⟨settings, table, journal, hread, hstep, hsettings⟩ := h.read
  unfold Archive.remove
  rw [hread]
  dsimp only
  split
  · exact .inl h
  · exact .inl h
  · next db hremoved =>
    have hleft := Database.equations_remove hremoved
    obtain ⟨records', table', rfl, hstep'⟩ := Database.remove_ofParts hstep hremoved
    obtain rfl : records' = records.filter fun r => !(ownId r).equal id :=
      (List.map_injective_iff.2 fun _ _ => Datum.record.inj) (Datum.list.inj hleft)
    obtain ⟨a', hwrite, hworks⟩ := h.write hsettings hstep' fun r hr =>
      h.lossless r (List.mem_of_mem_filter hr)
    refine .inr ?_
    dsimp only [commit]
    rw [hwrite]
    exact hworks

end Works

/-! ## Runs of changes -/

/-- A change whose data are held without loss. -/
def Request.Lossless : Request → Prop
  | .save now record => isEncodable now.stamp = true ∧
    ∀ fields, record.toFields = .ok fields → (Datum.record fields).Lossless
  | .saveSettings settings => settings.Lossless
  | .remove _ | .clear => True

/-- A change whose data are held without loss leaves a working archive. -/
theorem Works.apply {s : Archive × Supply} {records : List Fields}
    (h : s.1.Works records) {r : Request} (hr : r.Ordinary) (hl : r.Lossless) :
    ∃ records', (r.apply s).1.Works records' := by
  obtain ⟨settings, table, journal, hread, hstep, hsettings⟩ := h.read
  have hcommit :
      ∀ {α : Type} {settings' : Datum} {records' : List Fields} {table' : Fields} (answer : α)
      (before changed : Journal), settings'.Lossless → InStep records' table' →
      (∀ r ∈ records', (Datum.record r).Lossless) →
      (s.1.commit (ofParts settings' records' table') answer before
      changed).archive.Works records' := by
    intro α settings' records' table' answer before changed hsettings' hstep' hrecords
    obtain ⟨a', hwrite, hworks⟩ := h.write hsettings' hstep' hrecords
    rw [archive_commit, hwrite]
    exact hworks
  cases r with
  | save now record =>
    cases htaken : record.toFields with
    | error fault =>
      have hsame : ((Request.save now record).apply s).1 = s.1 := by
        simp only [Request.apply, Request.applyUnder, Archive.save, hread, htaken]
      exact ⟨records, hsame ▸ h⟩
    | ok fields =>
      obtain ⟨hid, hlisted⟩ := hr fields htaken
      obtain ⟨t, -, -, hworks⟩ := h.save s.2 hl.1 htaken (hl.2 fields htaken) hid hlisted
      exact ⟨_, hworks⟩
  | remove id =>
    obtain hsame | hwithout := h.remove id
    · exact ⟨_, hsame⟩
    · exact ⟨_, hwithout⟩
  | saveSettings settings' =>
    refine ⟨records, ?_⟩
    simp only [Request.apply, Request.applyUnder, Archive.saveSettings, hread,
      Database.setSettings_ofParts]
    exact hcommit _ _ _ hl hstep h.lossless
  | clear =>
    have hclear : (s.1.commit (ofParts (.record defaultSettings) [] []) () []
        []).archive.Works [] :=
      hcommit () [] [] Database.lossless_defaultSettings .empty fun _ hr =>
        absurd hr List.not_mem_nil
    exact ⟨[], hclear⟩

/-- An archive that begins without a file works after any run of changes whose data are held without
loss. -/
theorem works_run (path : String) (supply : Supply) {requests : List Request}
    (hordinary : ∀ r ∈ requests, r.Ordinary) (hlossless : ∀ r ∈ requests, r.Lossless) :
    ∃ records, (run path supply requests).1.Works records := by
  have hfold : ∀ (requests : List Request) (s : Archive × Supply) (records : List Fields),
      (∀ r ∈ requests, r.Ordinary) → (∀ r ∈ requests, r.Lossless) → s.1.Works records →
      ∃ records', (requests.foldl Request.apply s).1.Works records' := by
    intro requests
    induction requests with
    | nil => exact fun s records _ _ h => ⟨records, h⟩
    | cons r requests ih =>
      intro s records hr hl h
      obtain ⟨records', h'⟩ := h.apply (hr r (.head _)) (hl r (.head _))
      exact ih (r.apply s) records' (fun r' hr' => hr r' (.tail _ hr')) (fun r' hr' =>
        hl r' (.tail _ hr')) h'
  exact hfold requests _ [] hordinary hlossless (.absent path)

end Archive

end EquationStudio
