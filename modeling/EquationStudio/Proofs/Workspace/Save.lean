import EquationStudio.Proofs.Archive.Working
import EquationStudio.Proofs.Diagram.RoundTrip
import EquationStudio.Proofs.Synthesis.Outcome
import EquationStudio.Proofs.Workspace.Open

/-!
# Saving and opening again

A diagram that was made by edits is always saved to an archive that works: it has an expression, or
it is circular and is saved without one (`Diagram.SavedAs`), and nothing of its record is lost in a
document (`Workspace.Savable`). The request answers an identifier (`Workspace.save_works`). From the
record a diagram is rebuilt that has the same record again (`Workspace.reopen_works`), and the table
answers its constraints (`Workspace.constraintsOf_works`).

What may be done in between is said move by move (`Workspace.Move`), the reading of the file from
the text that was written included. A move keeps the record, since other records stand in front of
it only if they were saved since (`Workspace.Retains.move`), and so do moves one after another
(`Workspace.save_reopen`).
-/

namespace EquationStudio

namespace Diagram

variable {g : Diagram}

/-- A diagram that was made by edits is well-formed and keyed. -/
theorem ReachableWith.wellFormed_keyed {P : Constraint → Prop} (h : g.ReachableWith P) :
    g.WellFormed ∧ g.Keyed := by
  obtain ⟨edits, supply, hedits, rfl⟩ := h
  have hreachable : (run edits supply).Reachable :=
    ⟨edits, supply, fun e he => (hedits e he).1, rfl⟩
  exact ⟨hreachable.wellFormed, Keyed.run edits supply⟩

/-- A diagram whose constraints were built or read is rebuilt from its record: what is read has the
same record. -/
theorem ReachableWith.ofRecord_toRecord (h : g.ReachableWith Constraint.Made) (supply : Supply) :
    ∃ g', ofRecord supply g.toRecord = (.ok g', supply) ∧ g'.toRecord = g.toRecord := by
  have hids : g.constraints.Forall Constraint.Made :=
    h.induction (fun k a ha => by cases ha) Step.forall_constraints
  obtain ⟨g', hread, hnodes, hconnections, hrecords, -⟩ :=
    h.wellFormed_keyed.1.ofRecord_toRecord (fun k a ha c hc => (hids k a ha c hc).isTruthy) supply
  exact ⟨g', hread, by rw [toRecord, toRecord, hnodes, hconnections, hrecords]⟩

/-- The expression under which a diagram is saved: the one that is read off, or none if the diagram
is circular. -/
structure SavedAs (g : Diagram) (expression : String) : Prop where
  read : ∀ {s : Synthesis}, g.synthesize .null = .ok s → expression = s.expression
  circular : ∀ {fault : Fault}, g.synthesize .null = .error fault →
    (∃ name names, fault = .cycle name names) ∧ expression = ""

end Diagram

namespace Workspace

/-- The name under which a workspace is saved, if the given one is asked for. -/
def nameFor (w : Workspace) (name : Datum) : Datum := if name.isTruthy then name else w.name

/-- A workspace that is saved is given the name first. -/
theorem named_eq (w : Workspace) (name : Datum) :
    (if name.isTruthy then { w with name } else w) = { w with name := w.nameFor name } := by
  unfold nameFor
  split <;> rfl

/-- A workspace whose diagram was made by edits and is saved without loss, under the given name and
with the given constraints, if any are given. -/
structure Savable (w : Workspace) (now : Moment) (name constraints : Datum) : Prop where
  made : w.diagram.ReachableWith Constraint.Made
  diagram : w.diagram.toRecord.Lossless
  /-- The diagram has not been saved, or it has been saved under a text. -/
  current : w.current = .null ∨ ∃ s, w.current = .text s ∧ isEncodable s = true
  name : (w.nameFor name).Lossless
  /-- No constraints are given, or a list of them. -/
  listed : constraints = .null ∨ ∃ items, constraints = .list items
  constraints : constraints.Lossless
  moment : isEncodable now.stamp = true

/-! ## Saving -/

/-- The constraints with which a workspace is saved: those that are given, or those of its
diagram. -/
def constraintsFor (w : Workspace) (constraints : Datum) : Datum :=
  if constraints.isGiven then constraints else .list w.diagram.constraints.toRecords

section
variable {w : Workspace} {now : Moment} {name constraints : Datum}

/-- The expression under which a diagram is saved is found, whatever the diagram lacks, and a file
can hold it. -/
theorem savedExpression_eq (hwf : w.diagram.WellFormed) (hkeyed : w.diagram.Keyed)
    (hwritable : w.diagram.toRecord.Writable) :
    ∃ expression events, w.savedExpression = .ok (expression, { w with events }) ∧
      w.diagram.SavedAs expression ∧ isEncodable expression = true := by
  unfold savedExpression
  dsimp only [record]
  cases hread : w.diagram.synthesize .null with
  | ok s =>
    refine ⟨s.expression, _, rfl, ⟨fun hs => ?_, fun hs => ?_⟩,
      Diagram.isEncodable_expression hkeyed (fun _ hn =>
        Diagram.isEncodable_label hwritable hn) hread⟩
    · rw [Except.ok.inj (hread.symm.trans hs)]
    · cases hread.symm.trans hs
  | error fault =>
    obtain ⟨node, path, rfl⟩ := Diagram.fault_of_synthesize hwf hkeyed hread
    refine ⟨"", _, rfl, ⟨fun hs => ?_, fun hs => ⟨⟨node, path, ?_⟩, rfl⟩⟩, rfl⟩
    · cases hread.symm.trans hs
    · exact (Except.error.inj (hread.symm.trans hs)).symm

/-- What is found under the keys of the record under which a workspace is saved. -/
theorem toRecord_eq (w : Workspace) (expression : String) (constraints : Datum) :
    ∃ fields, w.toRecord expression constraints = .record fields ∧
      Fields.get fields "id" = w.current ∧
      Fields.get? fields "name" = some w.name ∧
      Fields.get? fields "expression" = some (.text expression) ∧
      Fields.get? fields "graph" = some w.diagram.toRecord ∧
      Fields.get fields "constraints" = if constraints.isTruthy then constraints else .null := by
  refine ⟨_, rfl, ?_⟩
  by_cases h : constraints.isTruthy = true <;> simp [h, Fields.get, Fields.get?]

/-- The record under which a workspace is saved is held without loss if its parts are. -/
theorem lossless_toRecord {w : Workspace} {expression : String} (hcurrent : w.current.Lossless)
    (hname : w.name.Lossless) (hexpression : isEncodable expression = true)
    (hdiagram : w.diagram.toRecord.Lossless) (hconstraints : constraints.Lossless) :
    (w.toRecord expression constraints).Lossless := by
  have hdistinct : ["id", "name", "expression", "graph", "constraints"].Nodup := by decide
  have hfields : ∀ f ∈ [("id", w.current), ("name", w.name), ("expression", .text expression),
      ("graph", w.diagram.toRecord), ("constraints", constraints)],
      isEncodable f.1 = true ∧ f.2.Lossless := by
    simp only [List.forall_mem_cons, List.not_mem_nil, false_imp_iff, implies_true, and_true]
    exact ⟨⟨by decide +kernel, hcurrent⟩, ⟨by decide +kernel, hname⟩,
      ⟨by decide +kernel, Datum.lossless_text hexpression⟩, ⟨by decide +kernel, hdiagram⟩,
      by decide +kernel,
      hconstraints⟩
  unfold toRecord
  dsimp only
  split
  · exact Datum.lossless_record.2 ⟨hdistinct, hfields⟩
  · refine Datum.lossless_record.2 ⟨?_, fun f hf => hfields f (List.mem_append_left _ hf)⟩
    exact (List.dropLast_sublist _).nodup hdistinct

/-- What a record keeps of a diagram that was saved. -/
structure Records (g : Diagram) (id : String) (name given : Datum) (fields : Fields) : Prop where
  id : Fields.get? fields "id" = some (.text id)
  name : Fields.get? fields "name" = some name
  expression : ∃ s, Fields.get? fields "expression" = some (.text s) ∧ g.SavedAs s
  graph : Fields.get? fields "graph" = some g.toRecord
  constraints : (Fields.get fields "constraints").items = given.items

/-- What is stored of a record keeps of the diagram what the record does. -/
theorem Records.stamped {g : Diagram} {id expression : String} {name given : Datum}
    {fields : Fields} {items : List Datum} (now : Moment)
    (hname : Fields.get? fields "name" = some name)
    (hexpression : Fields.get? fields "expression" = some (.text expression))
    (hsavedAs : g.SavedAs expression) (hgraph : Fields.get? fields "graph" = some g.toRecord)
    (hgiven : given = .list items)
    (hconstraints : Fields.get fields "constraints" = if given.isTruthy then given else .null) :
    Records g id name given (Archive.stamped fields (.text id) now) where
  id := by simp [Archive.stamped, Fields.get?_set]
  name := by rw [Archive.get?_stamped (by decide), hname]
  expression := ⟨expression, by rw [Archive.get?_stamped (by decide), hexpression], hsavedAs⟩
  graph := by rw [Archive.get?_stamped (by decide), hgraph]
  constraints := by
    rw [Fields.get, Archive.get?_stamped (by decide), ← Fields.get, hconstraints, hgiven]
    split
    · rfl
    · next hempty =>
      cases items with
      | nil => rfl
      | cons => exact absurd rfl hempty

/-- The constraints with which a workspace is saved are a list that is held without loss. -/
theorem Savable.constraintsFor (h : w.Savable now name constraints) :
    (w.constraintsFor constraints).Lossless ∧
    ∃ items, w.constraintsFor constraints = .list items := by
  obtain rfl | ⟨items, rfl⟩ := h.listed
  · exact ⟨((Datum.lossless_record.1 h.diagram).2 ("constraints",
      .list w.diagram.constraints.toRecords)
      (by simp)).2, _, rfl⟩
  · exact ⟨h.constraints, items, rfl⟩

/-- A request that the storage answers changes nothing but the archive, the supply and what is made
known. -/
theorem request_answered {α : Type} (action : String)
    {f : Archive → Supply → Archive.Outcome α × Supply}
    {a : Archive} (hstorage : w.storage = .archive a) {answer : α}
    (h : (f a w.supply).1.answer = .ok answer) : ∃ supply events, w.request action f =
      (.ok (some answer),
      { w with storage := .archive (f a w.supply).1.archive, supply, events }) := by
  unfold request
  rw [hstorage]
  dsimp only
  rw [h]
  exact ⟨_, _, rfl⟩

/-- A workspace that can be saved is saved to a working archive: the request answers an identifier,
and the record stands in front of the others. -/
theorem save_works {a : Archive} {records : List Fields} (hstorage : w.storage = .archive a)
    (ha : a.Works records) (h : w.Savable now name constraints) :
    ∃ id w' fields a', w.save now name constraints = (.ok (.text id), w') ∧ id ≠ "" ∧
      Records w.diagram id (w.nameFor name) (w.constraintsFor constraints) fields ∧
      w'.storage = .archive a' ∧ a'.Works (Database.InStep.front fields records) ∧
      w'.diagram = w.diagram ∧
      w'.current = .text id ∧ w'.name = w.nameFor name := by
  obtain ⟨hwf, hkeyed⟩ := h.made.wellFormed_keyed
  obtain ⟨expression, events, hexpression, hsavedAs, hencodable⟩ :=
    savedExpression_eq (w := { w with name := w.nameFor name }) hwf hkeyed h.diagram.writable
  obtain ⟨hgiven, items, hitems⟩ := h.constraintsFor
  obtain ⟨fields, hrecord, hid, hname, hexpr, hgraph, hconstraints⟩ :=
    toRecord_eq { w with name := w.nameFor name, events } expression (w.constraintsFor constraints)
  have hcurrent : w.current.Lossless := by
    obtain hnull | ⟨s, hs, hencodable⟩ := h.current
    · exact hnull ▸ ⟨trivial, trivial⟩
    · exact hs ▸ Datum.lossless_text hencodable
  have hlossless : (Datum.record fields).Lossless :=
    hrecord ▸ lossless_toRecord hcurrent h.name hencodable h.diagram hgiven
  have hown : Fields.get fields "id" = .null ∨ ∃ t, Fields.get fields "id" = .text t := by
    rw [hid]
    exact h.current.imp_right fun ⟨s, hs, _⟩ => ⟨s, hs⟩
  have hlisted : Fields.get fields "constraints" = .null ∨
      ∃ items, Fields.get fields "constraints" = .list items := by
    rw [hconstraints, hitems]
    split
    · exact .inr ⟨_, rfl⟩
    · exact .inl rfl
  have htaken : (Datum.record fields).toFields = .ok fields := rfl
  obtain ⟨id, hanswer, hne, hworks⟩ := ha.save w.supply h.moment htaken hlossless hown hlisted
  obtain ⟨supply, events', hrequest⟩ := request_answered "save the equation"
    (w := { w with name := w.nameFor name, events })
    (f := fun a supply => a.save supply now (.record fields)) hstorage hanswer
  obtain ⟨w', hsave, hstorage', hdiagram', hcurrent', hname'⟩ : ∃ w', w.save now name constraints =
      (.ok (.text id), w') ∧ w'.storage =
      .archive (a.save w.supply now (.record fields)).1.archive ∧
      w'.diagram = w.diagram ∧ w'.current = .text id ∧ w'.name = w.nameFor name := by
    unfold save
    split
    · next hnone => cases hstorage.symm.trans hnone
    · dsimp only
      rw [named_eq, hexpression]
      dsimp only
      rw [show (if constraints.isGiven then constraints else _) =
        w.constraintsFor constraints from rfl, hrecord,
        hrequest]
      exact ⟨_, rfl, rfl, rfl, rfl, rfl⟩
  refine ⟨id, w', Archive.stamped fields (.text id) now, _, hsave, hne, ?_, hstorage', hworks,
    hdiagram', hcurrent', hname'⟩
  exact .stamped now hname hexpr hsavedAs hgraph hitems hconstraints

/-! ## Opening -/

section
variable {a : Archive} {records : List Fields} {g : Diagram} {id : String}
  {given : Datum} {fields : Fields}

/-- A saved record is opened as long as the archive that works holds it: its diagram has the record
that it had when it was saved, and the workspace takes over the identifier and the name. -/
theorem reopen_works (hstorage : w.storage = .archive a) (ha : a.Works records)
    (hg : g.ReachableWith Constraint.Made) (hfields : Records g id name given fields)
    (hmem : fields ∈ records) :
    ∃ w', w.reopen (.text id) = (.ok (.record fields), w') ∧ w'.storage = .archive a ∧
      w'.diagram.toRecord = g.toRecord ∧ w'.current = .text id ∧ w'.name = name := by
  have hown : Database.ownId fields = .text id := congrArg (·.getD .null) hfields.id
  obtain ⟨hload, -⟩ := ha.load hmem hown
  obtain ⟨supply, events, hrequest⟩ := request_answered "load the equation"
    (f := fun a supply => (a.load (.text id), supply)) hstorage hload
  have hkept : (a.load (.text id)).archive = a := Archive.ask_archive a _ none
  obtain ⟨g', hrebuilt, hsame⟩ := hg.ofRecord_toRecord supply
  have hgraph : (Datum.record fields).fieldOr "graph" (.record []) = .ok g.toRecord := by
    rw [Datum.fieldOr, hfields.graph]
    rfl
  unfold reopen
  rw [hrequest]
  dsimp only
  unfold rebuild
  rw [hgraph]
  dsimp only
  rw [hrebuilt]
  dsimp only
  rw [adopt_record hfields.id, hfields.name, hkept]
  exact ⟨_, rfl, rfl, hsame, rfl, rfl⟩

/-- The constraints of a saved record are answered as long as the archive that works holds it. -/
theorem constraintsOf_works (hstorage : w.storage = .archive a)
    (ha : a.Works records) (hid : id ≠ "") (hfields : Records g id name given fields)
    (hmem : fields ∈ records) : (w.constraintsOf (.text id)).1 = .ok given.items := by
  have hown : Database.ownId fields = .text id := congrArg (·.getD .null) hfields.id
  obtain ⟨-, hconstraints⟩ := ha.load hmem hown
  rw [show Database.ownConstraints fields = Fields.get fields "constraints" from rfl,
    hfields.constraints]
    at hconstraints
  obtain ⟨supply, events, hrequest⟩ := request_answered "read constraints"
    (f := fun a supply => (a.constraintsOf (.text id), supply)) hstorage hconstraints
  have htruthy : (Datum.text id).isTruthy = true := by simpa [Datum.isTruthy] using hid
  unfold constraintsOf
  dsimp only
  rw [if_pos htruthy, if_pos (by rfl), inquire, hrequest]
  rfl

end

/-! ## What becomes of the storage -/

/-- The storage after a request is what the archive has become. -/
theorem storage_request {α : Type} (action : String)
    {f : Archive → Supply → Archive.Outcome α × Supply}
    {a : Archive} (hstorage : w.storage = .archive a) :
    (w.request action f).2.storage = .archive (f a w.supply).1.archive := by
  unfold request
  rw [hstorage]
  dsimp only
  split <;> rfl

/-- Rebuilding a saved diagram leaves the storage. -/
theorem storage_rebuild (w : Workspace) (id record : Datum) :
    (w.rebuild id record).2.storage = w.storage := by
  unfold rebuild adopt
  repeat' split
  all_goals rfl

/-- Opening a saved diagram leaves the archive as it is. -/
theorem storage_reopen {a : Archive} (hstorage : w.storage = .archive a) (id : Datum) :
    (w.reopen id).2.storage = .archive a := by
  have hrequest := storage_request "load the equation"
    (f := fun a supply => (a.load id, supply)) hstorage
  rw [show (a.load id).archive = a from Archive.ask_archive a _ none] at hrequest
  unfold reopen
  split
  all_goals
    next heq =>
      rw [heq] at hrequest
      first
      | exact hrequest
      | exact (storage_rebuild _ _ _).trans hrequest

/-- Deleting a saved diagram leaves what the archive has become. -/
theorem storage_discard {a : Archive} (hstorage : w.storage = .archive a) (id : Datum) :
    (w.discard id).2.storage = .archive (a.remove id).archive := by
  have hrequest := storage_request "delete the equation"
    (f := fun a supply => (a.remove id, supply)) hstorage
  unfold discard inquire
  generalize w.request "delete the equation" (fun a supply => (a.remove id, supply)) = r
    at hrequest ⊢
  obtain ⟨answer, w'⟩ := r
  dsimp only at hrequest ⊢
  split
  · next heq =>
    obtain rfl := congrArg Prod.snd heq
    dsimp only
    split <;> exact hrequest
  · exact hrequest

/-! ## Going on working -/

/-- A working workspace that holds a record, behind such as were saved under the given names. -/
def Retains (w : Workspace) (r : Fields) (names : List String) : Prop :=
  ∃ a records, w.storage = .archive a ∧ a.Works records ∧ Database.SavedSince r names records

/-- What may be done with a workspace while the record with an identifier is to be kept. Any edit
and any diagram that is opened will do; a diagram that is saved is saved under another identifier,
and is one that can be saved. The names are those under which something was saved. -/
inductive Move (id : String) (w : Workspace) : List String → Workspace → Prop
  | edit (e : Edit) : Move id w []
      { w with
        diagram := (e.apply (w.diagram, w.supply)).1
        supply := (e.apply (w.diagram, w.supply)).2 }
  | renew : Move id w [] w.renew
  | reopen (other : Datum) : Move id w [] (w.reopen other).2
  | discard {other : Datum} (ne : other ≠ .text id) : Move id w [] (w.discard other).2
  | save {now : Moment} {name constraints : Datum} {other : String} {w' : Workspace}
      (savable : w.Savable now name constraints)
      (saved : w.save now name constraints = (.ok (.text other), w'))
      (ne : other ≠ id) : Move id w [other] w'
  /-- The file is read back from the text that was written of its document. -/
  | reread {a : Archive} {d : Datum} {s : String} (storage : w.storage = .archive a)
      (place : a.place = .file (.document d)) (written : d.toDocument = .ok s) :
      Move id w [] { w with storage := .archive { a with place := .file (.text s) } }

/-- One move after another. -/
inductive Moves (id : String) (w : Workspace) : List String → Workspace → Prop
  | none : Moves id w [] w
  | more {names names' : List String} {w' w'' : Workspace} (before : Moves id w names w')
      (move : Move id w' names' w'') : Moves id w (names' ++ names) w''

/-- A move keeps the record. -/
theorem Retains.move {r : Fields} {names names' : List String} {w' : Workspace}
    (h : w.Retains r names) {id : String} (hr : Database.ownId r = .text id)
    (hm : w.Move id names' w') (hroom : (names' ++ names).toFinset.card < archiveCapacity) :
    w'.Retains r (names' ++ names) := by
  obtain ⟨a, records, hstorage, ha, hsince⟩ := h
  cases hm with
  | edit e => exact ⟨a, records, hstorage, ha, hsince⟩
  | renew => exact ⟨a, records, hstorage, ha, hsince⟩
  | reopen other => exact ⟨a, records, storage_reopen hstorage other, ha, hsince⟩
  | @discard other ne =>
    have hother : (Database.ownId r).equal other = false := by
      rw [hr, ← Bool.not_eq_true, Datum.text_equal]
      exact ne
    obtain hsame | hwithout := ha.remove other
    · exact ⟨_, records, storage_discard hstorage other, hsame, hsince⟩
    · exact ⟨_, _, storage_discard hstorage other, hwithout, hsince.remove hother⟩
  | @save now name constraints other w' savable saved ne =>
    obtain ⟨id', w'', fields, a', hsave, -, hfields, hstorage', ha', -⟩ :=
      save_works hstorage ha savable
    rw [saved] at hsave
    cases hsave
    obtain ⟨settings, table, journal, -, hstep, -⟩ := ha.read
    have hnew : Database.ownId fields = .text other := congrArg (·.getD .null) hfields.id
    exact ⟨a', _, hstorage', ha', hsince.save hstep.distinct hr hnew ne hroom⟩
  | reread storage place written =>
    cases hstorage.symm.trans storage
    exact ⟨_, records, rfl, ha.reread place written, hsince⟩

/-- Moves one after another keep the record, as long as fewer identifiers were saved under than the
archive keeps. -/
theorem Retains.moves {r : Fields} {id : String} (hr : Database.ownId r = .text id)
    {names : List String} {w' : Workspace} (hm : w.Moves id names w') (h : w.Retains r [])
    (hroom : names.toFinset.card < archiveCapacity) :
    w'.Retains r names := by
  induction hm with
  | none => exact h
  | @more names names' w' w'' before move ih =>
    have hsub : names.toFinset ⊆ (names' ++ names).toFinset := by
      rw [List.toFinset_append]
      exact Finset.subset_union_right
    exact (ih (Nat.lt_of_le_of_lt (Finset.card_le_card hsub) hroom)).move hr move hroom

/-- A workspace that can be saved is saved to a working archive, whatever its diagram lacks and
circular or not: the request answers an identifier, and the record keeps the expression that is read
off, or none exactly if it is refused for a cycle. Whatever is done from then on, as long as fewer
other identifiers are saved under than the archive keeps and the record is neither saved again nor
deleted, the record is opened by the identifier: the diagram has the record that it had when it was
saved, the name is the same, and the constraints that are answered are those of the diagram, if none
were given. -/
theorem save_reopen {a : Archive} {records : List Fields} (hstorage : w.storage = .archive a)
    (ha : a.Works records) (h : w.Savable now name constraints) :
    ∃ id w' fields expression, w.save now name constraints = (.ok (.text id), w') ∧
      w'.name = w.nameFor name ∧
      Fields.get? fields "expression" = some (.text expression) ∧ w.diagram.SavedAs expression ∧
      ∀ names w'', w'.Moves id names w'' → names.toFinset.card < archiveCapacity →
        (∃ opened, w''.reopen (.text id) = (.ok (.record fields), opened) ∧
          opened.diagram.toRecord = w.diagram.toRecord ∧ opened.name = w'.name ∧
          opened.current = .text id) ∧
        (constraints = .null →
          (w''.constraintsOf (.text id)).1 = .ok w.diagram.constraints.toRecords) := by
  obtain ⟨id, w', fields, a', hsave, hid, hfields, hstorage', ha', -, -, hname⟩ :=
    save_works hstorage ha h
  obtain ⟨expression, hexpression, hsavedAs⟩ := hfields.expression
  refine ⟨id, w', fields, expression, hsave, hname, hexpression, hsavedAs,
    fun names w'' hmoves hroom => ?_⟩
  have hown : Database.ownId fields = .text id := congrArg (·.getD .null) hfields.id
  have hretains : w'.Retains fields [] := ⟨a', _, hstorage', ha', .front fields records⟩
  obtain ⟨a'', records'', hstorage'', ha'', hsince⟩ := hretains.moves hown hmoves hroom
  obtain ⟨opened, hopened, -, hdiagram, hcurrent, hopenedName⟩ :=
    reopen_works hstorage'' ha'' h.made hfields hsince.mem
  refine ⟨⟨opened, hopened, hdiagram, hopenedName.trans hname.symm, hcurrent⟩, ?_⟩
  rintro rfl
  exact constraintsOf_works hstorage'' ha'' hid hfields hsince.mem

end

/-- A diagram that was begun anew can be saved. -/
theorem savable_renew (w : Workspace) {now : Moment}
    (hnow : isEncodable now.stamp = true) {name : Datum}
    (hname : name.Lossless) : w.renew.Savable now name .null where
  made := ⟨[], {}, by simp, rfl⟩
  diagram := show ({} : Diagram).toRecord.Lossless by decide +kernel
  current := .inl rfl
  name := by
    unfold nameFor
    split
    · exact hname
    · exact Datum.lossless_text (by decide +kernel)
  listed := .inl rfl
  constraints := ⟨trivial, trivial⟩
  moment := hnow

/-- The identifier that a request to save answers, if it answers a text. -/
def savedId? (w : Workspace) (now : Moment) (name constraints : Datum) : Option String :=
  match (w.save now name constraints).1 with
  | .ok (.text id) => some id
  | _ => none

/-- A circular diagram with a constraint, which is kept while another diagram is begun and saved. -/
theorem save_reopen_circular :
    let edits : List Edit := [
      .create (.text "add") .null (.text "s"), .create (.text "power") .null (.text "p"),
      .create (.text "number") .null (.text "a"), .create (.text "output") .null (.text "r"),
      .connect (.text "a") (.text "s") (.int 0), .connect (.text "p") (.text "s") (.int 1),
      .connect (.text "s") (.text "p") (.int 0), .connect (.text "a") (.text "p") (.int 1),
      .connect (.text "s") (.text "r") (.int 0), .setLabel (.text "a") (.text "größe"),
      .addConstraint (.text "a") (.record [("type", .text "range"), ("min", .int 0),
      ("max", .int 9)])]
    let a : Archive := { path := "eqbuilder.json" }
    let w : Workspace := { storage := .archive a, diagram := Diagram.run edits {} }
    let now : Moment := ⟨"2026-01-01 00:00:00", .finite .zero⟩
    (w.storage = .archive a ∧ a.Works [] ∧ w.Savable now (.text "loop") .null) ∧
      (w.diagram.synthesize .null).toOption.isNone = true ∧
      ∃ id w' other w'', w.save now (.text "loop") .null = (.ok (.text id), w') ∧
        w'.renew.save now (.text "other") .null = (.ok (.text other), w'') ∧ other ≠ id ∧
        ∃ record opened, w''.reopen (.text id) = (.ok record, opened) ∧
          opened.diagram.toRecord = w.diagram.toRecord ∧ opened.name = .text "loop" ∧
          (w''.constraintsOf (.text id)).1 = .ok w.diagram.constraints.toRecords := by
  intro edits a w now
  have hmade : w.diagram.ReachableWith Constraint.Made := by
    have htextual : ∀ e ∈ edits, e.Textual := by simp [edits, Edit.Textual]
    refine ⟨edits, {}, fun e he => ⟨htextual e he, ?_⟩, rfl⟩
    cases e with
    | attach id c => simp [edits] at he
    | addConstraint id record => exact fun supply supply' c hc => ⟨supply, supply', .inl ⟨_, hc⟩⟩
    | _ => trivial
  have hsavable : w.Savable now (.text "loop") .null := by
    refine ⟨hmade, ?_, .inl rfl, ?_, .inl rfl, ?_, ?_⟩
    all_goals decide +kernel
  have hcircular : (w.diagram.synthesize .null).toOption.isNone = true := by decide +kernel
  have hids : (w.save now (.text "loop") .null).2.renew.savedId? now (.text "other") .null ≠
      w.savedId? now (.text "loop") .null := by decide +kernel
  obtain ⟨_, w₁, _, a', hfirst, -, -, hstorage, ha, -⟩ :=
    save_works (w := w) rfl (.absent _) hsavable
  obtain ⟨id, w', fields, expression, hsave, hname, -, -, hkept⟩ :=
    save_reopen (w := w) rfl (.absent "eqbuilder.json") hsavable
  obtain rfl : w' = w₁ := congrArg Prod.snd (hsave.symm.trans hfirst)
  have hrenewed : w'.renew.Savable now (.text "other") .null :=
    w'.savable_renew (by decide +kernel) (by decide +kernel)
  obtain ⟨other, w'', _, _, hother, -⟩ := save_works (w := w'.renew) hstorage ha hrenewed
  have hne : other ≠ id := by
    rintro rfl
    refine hids ?_
    rw [savedId?, savedId?, hsave, hother]
  obtain ⟨⟨opened, hopened, hdiagram, hopenedName, -⟩, hconstraints⟩ :=
    hkept [other] w'' (.more (.more .none .renew) (.save hrenewed hother hne))
      (by simp [archiveCapacity])
  exact ⟨⟨rfl, .absent _, hsavable⟩, hcircular, id, w', other, w'', hsave, hother, hne, _, opened,
    hopened, hdiagram, hopenedName.trans hname, hconstraints rfl⟩

end Workspace

end EquationStudio
