import EquationStudio.Proofs.Archive.Listing
import EquationStudio.Proofs.Archive.Working

/-!
# The order of the last saves

An archive keeps its records in the order in which they were saved last, newest first: what it
stores is always a part, in the same order, of the last saves of the identifiers (`Archive.Keeps`).
A save drops at most one record, the one that was saved longest ago, and a record stays as long as
it is not removed and fewer other identifiers are saved than the archive has room for
(`Archive.run_recent`).
-/

namespace EquationStudio

namespace Archive

open Database (ownId ownName IsCountable shown InStep SavedSince)

/-- A record to be saved has a text as its identifier, or none. -/
def Request.Named : Request → Prop
  | save _ record => ∀ fields, record.toFields = .ok fields →
    Fields.get fields "id" = .null ∨ ∃ t, Fields.get fields "id" = .text t
  | remove _ | saveSettings _ | clear => True

/-- What a run of changes saves, newest first. -/
def savedBy (s : Archive × Supply) : List Request → List Fields
  | [] => []
  | r :: rs => savedBy (r.apply s) rs ++ (r.saved? s).toList

/-- The first record of each identifier, in their order. -/
def firstOfEach : List Fields → List Fields
  | [] => []
  | r :: rs => r :: (firstOfEach rs).filter fun r' => !(ownId r').equal (ownId r)

/-- The first of each are some of them. -/
theorem firstOfEach_sublist : ∀ past : List Fields, (firstOfEach past).Sublist past
  | [] => .slnil
  | _ :: past => (List.filter_sublist.trans (firstOfEach_sublist past)).cons_cons _

/-- The first of each have different identifiers. -/
theorem nodup_firstOfEach : ∀ {past : List Fields}, (∀ r ∈ past, ∃ t, ownId r = .text t) →
    ((firstOfEach past).map ownId).Nodup
  | [], _ => .nil
  | r :: past, hnamed => by
    have hrest := nodup_firstOfEach fun r' hr' => hnamed r' (.tail _ hr')
    rw [firstOfEach, List.map_cons, List.nodup_cons]
    refine ⟨fun hmem => ?_, hrest.sublist (List.filter_sublist.map _)⟩
    obtain ⟨r', hr', he⟩ := List.mem_map.1 hmem
    obtain ⟨t, ht⟩ := hnamed r (.head _)
    have hother := (List.mem_filter.1 hr').2
    rw [he, ht, Datum.text_equal.2 rfl] at hother
    cases hother

/-! ## One change -/

/-- An archive that stores, in their order, some of the records that were saved last under their
identifiers. -/
structure Keeps (a : Archive) (records past : List Fields) : Prop where
  stores : a.Stores records
  recent : records.Sublist (firstOfEach past)
  capped : records.length ≤ archiveCapacity
  named : ∀ r ∈ past, ∃ t, ownId r = .text t

/-- What is saved of a record with a text as its identifier, or with none, has a text as its
identifier. -/
theorem Stores.named_saved {s : Archive × Supply} {records : List Fields}
    (h : s.1.Stores records) {r : Request} (hr : r.Named) {new : Fields}
    (hnew : r.saved? s = some new) : ∃ t, ownId new = .text t := by
  cases r with
  | remove | saveSettings | clear => cases hnew
  | save now record =>
    rw [Request.saved?] at hnew
    cases hanswer : (s.1.save s.2 now record).1.answer with
    | error fault =>
      rw [hanswer] at hnew
      cases hnew
    | ok id =>
      obtain ⟨fields, hfields, hid, -⟩ := h.save hanswer
      rw [hanswer, hfields] at hnew
      cases hnew
      rw [(own_stamped fields id now).1, hid]
      obtain hnone | ⟨t, ht⟩ := hr fields hfields
      · rw [hnone]
        exact ⟨_, rfl⟩
      · rw [ht]
        split
        · exact ⟨t, rfl⟩
        · exact ⟨_, rfl⟩

namespace Keeps

variable {a : Archive} {s : Archive × Supply} {records past : List Fields}

/-- Nothing is stored where there is no file. -/
theorem absent (path : String) : ({ path } : Archive).Keeps [] [] :=
  ⟨.absent path, .slnil, Nat.zero_le _, nofun⟩

/-- The stored records have different identifiers. -/
theorem distinct (h : a.Keeps records past) : (records.map ownId).Nodup :=
  (nodup_firstOfEach h.named).sublist (h.recent.map _)

/-- A record that is saved stands in front, and the others stay in their order. -/
theorem sublist_leaves (h : a.Keeps records past) {r : Request} {records' : List Fields}
    (hleaves : r.Leaves s records records') :
    records'.Sublist (firstOfEach ((r.saved? s).toList ++ past)) := by
  cases hleaves with
  | @saved new saves =>
    rw [saves]
    exact (List.take_sublist _ _).trans ((h.recent.filter _).cons_cons _)
  | removed removes =>
    subst removes
    exact List.filter_sublist.trans h.recent
  | cleared clears => exact List.nil_sublist _
  | same saves =>
    rw [saves]
    exact h.recent

/-- There are never more records than there is room for. -/
theorem capped_leaves (h : a.Keeps records past) {r : Request} {records' : List Fields}
    (hleaves : r.Leaves s records records') : records'.length ≤ archiveCapacity := by
  cases hleaves with
  | saved saves => exact List.length_take_le _ _
  | removed removes => exact (List.length_filter_le _ _).trans h.capped
  | cleared clears => exact Nat.zero_le _
  | same saves => exact h.capped

/-- A change keeps the order of the last saves. -/
theorem apply (h : s.1.Keeps records past) {r : Request} (hr : r.Named)
    (hkept : (r.apply s).1.place.Whole) :
    ∃ records', (r.apply s).1.Keeps records' ((r.saved? s).toList ++ past) ∧
    r.Leaves s records records' := by
  obtain ⟨records', hstores, hleaves⟩ := h.stores.apply r hkept
  refine ⟨records', ⟨hstores, h.sublist_leaves hleaves, h.capped_leaves hleaves,
    fun r' hr' => ?_⟩, hleaves⟩
  obtain hr' | hr' := List.mem_append.1 hr'
  · exact h.stores.named_saved hr (Option.mem_toList.1 hr')
  · exact h.named r' hr'

/-- Changes one after another keep the order of the last saves. -/
theorem foldl : ∀ {requests : List Request} {s : Archive × Supply} {records past : List Fields},
    s.1.Keeps records past → (∀ r ∈ requests, r.Named) →
      (∀ before, before <+: requests → (before.foldl Request.apply s).1.place.Whole) →
      ∃ records', (requests.foldl Request.apply s).1.Keeps records' (savedBy s requests ++ past)
  | [], _, records, _, h, _, _ => ⟨records, h⟩
  | r :: requests, s, _, past, h, hnamed, hkept => by
    obtain ⟨records', h', -⟩ := h.apply (hnamed r (.head _)) (hkept [r] ⟨requests, rfl⟩)
    rw [savedBy, List.append_assoc]
    exact foldl h' (fun r' hr' => hnamed r' (.tail _ hr')) fun before hbefore =>
      hkept (r :: before) (List.cons_prefix_cons.2 ⟨rfl, hbefore⟩)

/-- A save drops at most one record: the last. -/
theorem dropped (h : a.Keeps records past) (new : Fields) :
    ∃ gone, new :: records.filter (fun r => !(ownId r).equal (ownId new)) =
      InStep.front new records ++ gone ∧ gone.length ≤ 1 := by
  refine ⟨_, (List.take_append_drop archiveCapacity _).symm, ?_⟩
  have hfilter : (records.filter fun r => !(ownId r).equal (ownId new)).length ≤ records.length :=
    List.length_filter_le _ _
  have hcapped := h.capped
  rw [List.length_drop, List.length_cons]
  omega

/-- A stored record is loaded by its identifier. -/
theorem load (h : a.Keeps records past) {r : Fields} (hr : r ∈ records) {t : String}
    (ht : ownId r = .text t) : (a.load (.text t)).answer = .ok (some (.record r)) := by
  obtain ⟨settings, table, hanswer⟩ := h.stores.ask fun db => db.find? (.text t)
  obtain ⟨r', hfound⟩ : ∃ r', records.find? (fun r' => (ownId r').equal (.text t)) = some r' :=
    Option.isSome_iff_exists.1 (List.find?_isSome.2 ⟨r, hr, ht ▸ Datum.text_equal.2 rfl⟩)
  have hr' := List.mem_of_find?_eq_some hfound
  obtain ⟨t', ht'⟩ := h.named r' ((firstOfEach_sublist past).subset (h.recent.subset hr'))
  have hid := List.find?_some (p := fun r' => (ownId r').equal (.text t)) hfound
  rw [ht', Datum.text_equal] at hid
  obtain rfl : r' = r := List.inj_on_of_nodup_map h.distinct hr' hr (by rw [ht', ht, hid])
  rw [Archive.load, hanswer]
  exact (Database.findRecord_record (.text t) records).trans (by rw [hfound]; rfl)

/-- A change keeps a record that it does not replace, remove or clear, as long as there is room. -/
theorem since (h : s.1.Keeps records past) {r : Request} (hr : r.Named) {records' : List Fields}
    (hleaves : r.Leaves s records records') {new : Fields} {t : String} (ht : ownId new = .text t)
    {names : List String} (hsince : SavedSince new names records) (hclear : r ≠ .clear)
    (hremove : r ≠ .remove (.text t)) (hother : ∀ r' ∈ (r.saved? s).toList, ownId r' ≠ .text t)
    (hroom : (((r.saved? s).toList.map ownName) ++ names).toFinset.card < archiveCapacity) :
    SavedSince new ((r.saved? s).toList.map ownName ++ names) records' := by
  cases hleaves with
  | @saved saved saves =>
    obtain ⟨t', ht'⟩ := h.stores.named_saved hr saves
    rw [saves, Option.toList_some, List.map_singleton, Database.ownName_eq ht',
      List.singleton_append] at hroom ⊢
    refine hsince.save h.distinct ht ht' (fun he => ?_) hroom
    refine hother saved ?_ (he ▸ ht')
    rw [saves]
    exact .head _
  | @removed id removes =>
    subst removes
    refine hsince.remove ?_
    rw [ht, ← Bool.not_eq_true, Datum.text_equal]
    rintro rfl
    exact hremove rfl
  | cleared clears => exact absurd clears hclear
  | same saves =>
    rw [saves]
    exact hsince

/-- Changes one after another keep a record that they do not replace, remove or clear, as long as
fewer other identifiers are saved than there is room for. -/
theorem retains {new : Fields} {t : String} (ht : ownId new = .text t) : ∀ {after : List Request}
    {s : Archive × Supply} {records past since : List Fields}, s.1.Keeps records past →
      SavedSince new (since.map ownName) records → (∀ r ∈ after, r.Named) →
      (∀ before, before <+: after → (before.foldl Request.apply s).1.place.Whole) → .clear ∉ after →
      .remove (.text t) ∉ after → (∀ r ∈ savedBy s after, ownId r ≠ .text t) →
      ((savedBy s after ++ since).map ownName).toFinset.card < archiveCapacity →
      ((after.foldl Request.apply s).1.load (.text t)).answer = .ok (some (.record new))
  | [], _, _, _, _, h, hsince, _, _, _, _, _, _ => h.load hsince.mem ht
  | r :: after, s, records, past, since, h, hsince, hnamed, hkept, hclear, hremove,
      hother, hroom => by
    obtain ⟨records', h', hleaves⟩ := h.apply (hnamed r (.head _)) (hkept [r] ⟨after, rfl⟩)
    rw [savedBy, List.append_assoc] at hroom
    have hsub : ((r.saved? s).toList.map ownName ++ since.map ownName).toFinset.card <
        archiveCapacity := by
      rw [← List.map_append]
      rw [List.map_append, List.toFinset_append] at hroom
      exact Nat.lt_of_le_of_lt (Finset.card_le_card Finset.subset_union_right) hroom
    have hsince' := h.since (hnamed r (.head _)) hleaves ht hsince (fun he => hclear (he ▸ .head _))
      (fun he => hremove (he ▸ .head _)) (fun r' hr' =>
        hother r' (List.mem_append_right _ hr')) hsub
    rw [← List.map_append] at hsince'
    rw [List.foldl_cons]
    exact retains ht h' hsince' (fun r' hr' => hnamed r' (.tail _ hr'))
      (fun before hbefore => hkept (r :: before) (List.cons_prefix_cons.2 ⟨rfl, hbefore⟩))
      (fun hmem => hclear (.tail _ hmem)) (fun hmem => hremove (.tail _ hmem))
      (fun r' hr' => hother r' (List.mem_append_left _ hr')) hroom

end Keeps

/-! ## Runs of changes -/

/-- After any run of changes to an archive that begins without a file, if each is written to its end
and the records have texts as identifiers or none: what is stored is, in the order of the last saves
and newest first, some of the records that were saved last under their identifiers, and a listing
shows it in this order if the nodes of each record can be counted. For each save in the run that
answered an identifier: it dropped at most one record, the one that was saved longest ago, and if
its record was not cleared, removed or saved again since, and fewer other identifiers were saved
than there is room for, it is loaded as it was saved. -/
theorem run_recent (path : String) (supply : Supply) (requests : List Request)
    (hnamed : ∀ r ∈ requests, r.Named)
    (hkept : ∀ before, before <+: requests → (run path supply before).1.place.Whole) :
    let a := (run path supply requests).1
    a.stored.Sublist (firstOfEach (savedBy ({ path }, supply) requests)) ∧
    ((∀ r ∈ a.stored, IsCountable r) → a.list.answer = .ok (a.stored.map shown)) ∧
    ∀ before now record after fields t, requests = before ++ .save now record :: after →
      record.toFields = .ok fields →
      let s := run path supply before
      let s' := (Request.save now record).apply s
      let new := stamped fields (.text t) now
      (s.1.save s.2 now record).1.answer = .ok (.text t) →
      (∃ gone, new :: s.1.stored.filter (fun r => !(ownId r).equal (.text t)) =
        s'.1.stored ++ gone ∧
        gone.length ≤ 1) ∧
      (.clear ∉ after → .remove (.text t) ∉ after → (∀ r ∈ savedBy s' after, ownId r ≠ .text t) →
        ((savedBy s' after).map ownName).toFinset.card < archiveCapacity →
        (a.load (.text t)).answer = .ok (some (.record new))) := by
  intro a
  have hkeeps : ∀ before, before <+: requests → ∃ records,
      (run path supply before).1.Keeps records (savedBy ({ path }, supply) before ++ []) := by
    intro before hbefore
    exact (Keeps.absent path).foldl (fun r hr => hnamed r (hbefore.subset hr)) fun start hstart =>
      hkept start (hstart.trans hbefore)
  obtain ⟨records, h⟩ := hkeeps requests List.prefix_rfl
  have hstored : a.stored = records := h.stores.stored_eq
  refine ⟨?_, ?_, ?_⟩
  · rw [hstored]
    simpa using h.recent
  · rw [hstored]
    exact h.stores.list
  · intro before now record after fields t hsplit hfields s s' new hanswer
    obtain ⟨records₀, h₀⟩ := hkeeps before ⟨_, hsplit.symm⟩
    have hnew : ownId new = .text t := (own_stamped fields (.text t) now).1
    obtain ⟨fields', hfields', -, hfront⟩ := h₀.stores.save hanswer
    obtain rfl : fields = fields' := Except.ok.inj (hfields.symm.trans hfields')
    -- The rest of the run begins where the save ends.
    have hrest : ∀ rest, run path supply (before ++ .save now record :: rest) =
        rest.foldl Request.apply s' := by
      intro rest
      rw [run, List.foldl_append, List.foldl_cons]
      rfl
    have hbegun : ∀ rest, rest <+: after → (rest.foldl Request.apply s').1.place.Whole := by
      intro rest hrest'
      rw [← hrest rest]
      refine hkept _ ?_
      rw [hsplit]
      exact (List.prefix_append_right_inj _).2 (List.cons_prefix_cons.2 ⟨rfl, hrest'⟩)
    refine ⟨?_, fun hclear hremove hother hroom => ?_⟩
    · rw [h₀.stores.stored_eq, hfront.stored_eq]
      have hdropped := h₀.dropped new
      rwa [hnew] at hdropped
    · obtain ⟨records', h', -⟩ :=
        h₀.apply (hnamed (.save now record) (by rw [hsplit]; simp)) (hbegun [] List.nil_prefix)
      obtain rfl : records' = InStep.front new records₀ :=
        h'.stores.stored_eq.symm.trans hfront.stored_eq
      have hsince : SavedSince new (([] : List Fields).map ownName) (InStep.front new records₀) :=
        .front ..
      have hload := h'.retains hnew hsince
        (fun r hr => hnamed r (by rw [hsplit]; simp [hr])) hbegun hclear hremove hother
        (by simpa using hroom)
      rwa [← hrest after, ← hsplit] at hload

/-- An equation that is saved, left behind by another, and saved again; then settings are saved, and
an equation is removed that is not there. -/
theorem run_recent_resaved :
    let now : Moment := ⟨"2026-01-01 00:00:00", .finite .zero⟩
    let first : List Request :=
      [.save now (.record [("id", .text "a")]), .save now (.record [("name", .text "b")])]
    let again : Fields := [("id", .text "a"), ("name", .text "again")]
    let last : List Request := [.saveSettings .null, .remove (.text "c")]
    let requests : List Request := first ++ .save now (.record again) :: last
    (∀ r ∈ requests, r.Named) ∧
      (∀ before, before <+: requests → (run "eqbuilder.json" {} before).1.place.Whole) ∧
      (run "eqbuilder.json" {} requests).1.stored.map ownName = ["a", "000000010000"] ∧
      ((run "eqbuilder.json" {} requests).1.load (.text "a")).answer =
        .ok (some (.record (stamped again (.text "a") now))) := by
  intro now first again last requests
  have hnamed : ∀ r ∈ requests, r.Named := by
    simp only [requests, first, last, List.cons_append, List.nil_append, List.forall_mem_cons]
    refine ⟨?_, ?_, ?_, trivial, trivial, by simp⟩ <;> intro fields hfields <;> cases hfields
    · exact .inr ⟨_, rfl⟩
    · exact .inl rfl
    · exact .inr ⟨_, rfl⟩
  have hkept : ∀ before, before <+: requests → (run "eqbuilder.json" {} before).1.place.Whole := by
    intro before hbefore
    have hall : ∀ before ∈ requests.inits, (run "eqbuilder.json" {} before).1.place.Whole := by
      decide +kernel
    exact hall before ((List.mem_inits _ _).2 hbefore)
  have hanswer : let s := run "eqbuilder.json" {} first
      (s.1.save s.2 now (.record again)).1.answer = .ok (.text "a") := by
    intro s
    have hequal : ((s.1.save s.2 now (.record again)).1.answer.map
        (Datum.text "a").equal).toOption =
        some true := by decide +kernel
    generalize (s.1.save s.2 now (.record again)).1.answer = answer at hequal ⊢
    cases answer with
    | error fault => cases hequal
    | ok id => rw [Datum.text_equal.1 (Option.some.inj hequal)]
  obtain ⟨-, hretained⟩ := (run_recent "eqbuilder.json" {} requests hnamed hkept).2.2
    first now (.record again) last again "a" rfl rfl hanswer
  exact ⟨hnamed, hkept, by decide +kernel,
    hretained (by simp [last]) (by simp [last]) nofun (by decide)⟩

/-- A record with null for its graph is saved, and a listing does not show it. -/
theorem run_recent_unlisted :
    let now : Moment := ⟨"2026-01-01 00:00:00", .finite .zero⟩
    let a := (run "eqbuilder.json" {} [.save now (.record [("id", .text "a"), ("graph", .null)])]).1
    a.place.Whole ∧ a.stored.map ownName = ["a"] ∧
    a.list.fault? = some (.datum (.noMethod "NoneType" "get")) := by
  decide +kernel

end Archive

end EquationStudio
