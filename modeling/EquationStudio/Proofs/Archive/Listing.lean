import EquationStudio.Proofs.Archive.Stored
import EquationStudio.Workspace

/-!
# Which archives can be listed

A listing shows the number of nodes of each record, and it goes into the record's graph for it.
Saving a record does not look at the graph, so it may be null, a list or a text, and what it has as
its nodes may be a number. A record of which the nodes cannot be counted (`Database.IsCountable`) is
saved like any other and keeps the whole archive from being listed, as long as it is stored
(`Archive.list_saved`).
-/

namespace EquationStudio

/-- The fault of looking for a field or a size in a datum that has none. -/
def Fault.IsShapeFault (fault : Fault) : Prop :=
  (∃ kind, fault = .datum (.noMethod kind "get")) ∨ ∃ kind, fault = .datum (.noSize kind)

namespace Database

/-- How many nodes the graph of a record has: none if there is no graph, or a graph without
nodes. -/
def nodeCount? (r : Fields) : Option Nat :=
  match Fields.get? r "graph" with
  | none => some 0
  | some (.record graph) =>
    match Fields.get? graph "nodes" with
    | none => some 0
    | some nodes => nodes.size.toOption
  | some _ => none

/-- A record of which the nodes can be counted. -/
def IsCountable (r : Fields) : Prop := (nodeCount? r).isSome = true

instance (r : Fields) : Decidable (IsCountable r) := inferInstanceAs (Decidable (_ = true))

/-- What a listing shows of a record of which the nodes can be counted. -/
def shown (r : Fields) : Datum :=
  .record [("id", ownId r), ("name", (Fields.get? r "name").getD (.text "")),
    ("expression", (Fields.get? r "expression").getD (.text "")),
    ("timestamp", (Fields.get? r "timestamp").getD (.text "")),
    ("node_count", .int ((nodeCount? r).getD 0))]

/-- The nodes of a record as a listing counts them. -/
def count (r : Fields) : Except Fault Nat := do
  (← ((Fields.get? r "graph").getD (.record [])).fieldOr "nodes" (.list [])).size

/-- The count is the number of nodes, and there is none for graphs of other shapes. -/
theorem toOption_count (r : Fields) : (count r).toOption = nodeCount? r := by
  rw [count, nodeCount?]
  cases Fields.get? r "graph" with
  | none => rfl
  | some graph =>
    cases graph with
    | null | bool | int | float | text | list => rfl
    | record parts =>
      rw [Option.getD_some, Datum.fieldOr, ok_bind]
      dsimp only
      cases Fields.get? parts "nodes" <;> rfl

/-- A count fails where a field or a size is looked for. -/
theorem isShapeFault_of_count {r : Fields} {fault : Fault} (h : count r = .error fault) :
    fault.IsShapeFault := by
  rw [count] at h
  generalize (Fields.get? r "graph").getD (.record []) = graph at h
  cases graph with
  | null | bool | int | float | text | list =>
    cases h
    exact .inl ⟨_, rfl⟩
  | record parts =>
    rw [Datum.fieldOr, ok_bind] at h
    generalize (Fields.get? parts "nodes").getD (.list []) = nodes at h
    cases nodes with
    | list | text | record => cases h
    | null | bool | int | float =>
      cases h
      exact .inr ⟨_, rfl⟩

/-- What is shown of a record has the count of its nodes. -/
theorem summary_record (r : Fields) :
    summary (.record r) = count r >>= fun n => .ok (.record [("id", ownId r),
      ("name", (Fields.get? r "name").getD (.text "")),
      ("expression", (Fields.get? r "expression").getD (.text "")),
      ("timestamp", (Fields.get? r "timestamp").getD (.text "")), ("node_count", .int n)]) := by
  rw [count]
  cases hnodes : ((Fields.get? r "graph").getD (.record [])).fieldOr "nodes" (.list []) with
  | error fault =>
    rw [error_bind, error_bind]
    simp only [summary, Datum.recordId, Datum.fieldOr, ok_bind] at hnodes ⊢
    rw [hnodes]
    rfl
  | ok nodes =>
    rw [ok_bind]
    simp only [summary, Datum.recordId, Datum.fieldOr, ok_bind] at hnodes ⊢
    rw [hnodes]
    rfl

/-- A record is shown if its nodes can be counted. -/
theorem summary_of_countable {r : Fields} (h : IsCountable r) :
    summary (.record r) = .ok (shown r) := by
  obtain ⟨n, hn⟩ := Option.isSome_iff_exists.1 h
  have hcount : count r = .ok n := toOption_eq_some.1 ((toOption_count r).trans hn)
  rw [summary_record, hcount, ok_bind, shown, hn, Option.getD_some]

/-- A record is not shown if its nodes cannot be counted. -/
theorem fault_of_summary {r : Fields} (h : ¬ IsCountable r) :
    ∃ fault, summary (.record r) = .error fault ∧ fault.IsShapeFault := by
  rw [IsCountable, ← toOption_count] at h
  cases hcount : count r with
  | ok n =>
    rw [hcount] at h
    exact absurd rfl h
  | error fault => exact ⟨fault, by rw [summary_record, hcount]; rfl, isShapeFault_of_count hcount⟩

/-- Records of which the nodes can be counted are shown one after another. -/
theorem mapM_summary : ∀ {records : List Fields}, (∀ r ∈ records, IsCountable r) →
    (records.map Datum.record).mapM summary = .ok (records.map shown)
  | [], _ => rfl
  | r :: rs, h => by
    rw [List.map_cons, List.mapM_cons, summary_of_countable (h r (.head _)), ok_bind,
      mapM_summary fun r' hr' => h r' (.tail _ hr')]
    rfl

/-- A record of which the nodes cannot be counted keeps all from being shown. -/
theorem fault_of_mapM_summary : ∀ {records : List Fields}, (¬ ∀ r ∈ records, IsCountable r) →
    ∃ fault, (records.map Datum.record).mapM summary = .error fault ∧ fault.IsShapeFault
  | [], h => absurd (fun _ hr => absurd hr List.not_mem_nil) h
  | r :: rs, h => by
    rw [List.map_cons, List.mapM_cons]
    by_cases hr : IsCountable r
    · have hrest : ¬ ∀ r ∈ rs, IsCountable r := fun hrs => h (List.forall_mem_cons.2 ⟨hr, hrs⟩)
      obtain ⟨fault, hfault, hshape⟩ := fault_of_mapM_summary hrest
      exact ⟨fault, by rw [summary_of_countable hr, ok_bind, hfault]; rfl, hshape⟩
    · obtain ⟨fault, hfault, hshape⟩ := fault_of_summary hr
      exact ⟨fault, by rw [hfault]; rfl, hshape⟩

end Database

namespace Archive

open Database (ownId IsCountable shown InStep)

/-- What is saved of a record leaves its graph as it is. -/
theorem countable_stamped (fields : Fields) (id : Datum) (now : Moment) :
    IsCountable (stamped fields id now) ↔ IsCountable fields := by
  have hgraph : Fields.get? (stamped fields id now) "graph" = Fields.get? fields "graph" := by
    simp [stamped, Fields.get?_set]
  rw [IsCountable, IsCountable, Database.nodeCount?, Database.nodeCount?, hgraph]

namespace Stores

variable {a : Archive} {records : List Fields}

/-- An archive is asked for what it stores. -/
theorem ask (h : a.Stores records) {α : Type} (f : Database → Except Fault α) :
    ∃ settings table, (a.ask f).answer = f (.ofParts settings records table) := by
  obtain ⟨settings, table, hread⟩ := h.read
  refine ⟨settings, table, ?_⟩
  unfold Archive.ask
  rw [hread]

/-- All that is stored is listed, in its order, if the nodes of each record can be counted. -/
theorem list (h : a.Stores records) (hcount : ∀ r ∈ records, IsCountable r) :
    a.list.answer = .ok (records.map shown) := by
  obtain ⟨settings, table, hanswer⟩ := h.ask Database.summaries
  rw [Archive.list, hanswer, Database.summaries, Database.equations_ofParts, Datum.members, ok_bind]
  exact Database.mapM_summary hcount

/-- Nothing is listed if the nodes of some record cannot be counted. -/
theorem fault_of_list (h : a.Stores records) (hcount : ¬ ∀ r ∈ records, IsCountable r) :
    ∃ fault, a.list.answer = .error fault ∧ fault.IsShapeFault := by
  obtain ⟨settings, table, hanswer⟩ := h.ask Database.summaries
  rw [Archive.list, hanswer, Database.summaries, Database.equations_ofParts, Datum.members, ok_bind]
  exact Database.fault_of_mapM_summary hcount

end Stores

/-! ## Runs of saves -/

/-- None of the changes that are made one after another is refused. -/
def Unrefused (s : Archive × Supply) : List Request → Prop
  | [] => True
  | r :: rs => r.fault? s = none ∧ Unrefused (r.apply s) rs

instance : (s : Archive × Supply) → (requests : List Request) → Decidable (Unrefused s requests)
  | _, [] => .isTrue trivial
  | s, r :: rs =>
    have := instDecidableUnrefused (r.apply s) rs
    inferInstanceAs (Decidable (_ ∧ _))

/-- A request to save a record at a moment. -/
def Request.ofSave (p : Moment × Datum) : Request := .save p.1 p.2

/-- What is stored after saves that are answered was stored before or is what one of them saved. -/
theorem Stores.saves :
    ∀ {saves : List (Moment × Datum)} {s : Archive × Supply} {records : List Fields},
    s.1.Stores records → Unrefused s (saves.map .ofSave) →
      ∃ records', ((saves.map Request.ofSave).foldl Request.apply s).1.Stores records' ∧
        ∀ r ∈ records', r ∈ records ∨
          ∃ p ∈ saves, ∃ fields id, p.2.toFields = .ok fields ∧ r = stamped fields id p.1
  | [], _, records, h, _ => ⟨records, h, fun _ hr => .inl hr⟩
  | p :: saves, s, records, h, ⟨hanswered, hrest⟩ => by
    rw [Request.ofSave, Request.fault?, Outcome.fault?] at hanswered
    cases hanswer : (s.1.save s.2 p.1 p.2).1.answer with
    | error fault =>
      rw [hanswer] at hanswered
      cases hanswered
    | ok id =>
      obtain ⟨fields, hfields, -, hsaved⟩ := h.save hanswer
      obtain ⟨records', hstores, hmem⟩ := Stores.saves hsaved hrest
      refine ⟨records', hstores, fun r hr => ?_⟩
      obtain hr | ⟨p', hp', hr⟩ := hmem r hr
      · obtain rfl | hr := List.mem_cons.1 (List.mem_of_mem_take hr)
        · exact .inr ⟨p, .head _, fields, id, hfields, rfl⟩
        · exact .inl (List.mem_of_mem_filter hr)
      · exact .inr ⟨p', .tail _ hp', hr⟩

/-- After any run of saves to an archive that stores some records, or has no file yet, where each
save answers an identifier: what is stored was there before or was saved, with the graph that it
came with. If the nodes of all stored records can be counted, a listing shows each of them, in their
order. If those of some cannot, as where the graph is null, a list or a text, nothing is listed at
all. A workspace that saves to the archive lists what the archive does, and fails where it fails. -/
theorem list_saved (s : Archive × Supply) (before : List Fields) (hstart : s.1.Stores before)
    (saves : List (Moment × Datum)) (hanswered : Unrefused s (saves.map .ofSave)) :
    let a := ((saves.map Request.ofSave).foldl Request.apply s).1
    (∀ r ∈ a.stored, r ∈ before ∨ ∃ p ∈ saves, ∃ fields id, p.2.toFields = .ok fields ∧
      r = stamped fields id p.1 ∧ (IsCountable r ↔ IsCountable fields)) ∧
    ((∀ r ∈ a.stored, IsCountable r) → a.list.answer = .ok (a.stored.map shown)) ∧
    ((¬ ∀ r ∈ a.stored, IsCountable r) → ∃ fault, a.list.answer = .error fault ∧
    fault.IsShapeFault) ∧
    ∀ w : Workspace, w.storage = .archive a → w.listing.1 = a.list.answer := by
  intro a
  obtain ⟨records, (hstores : a.Stores records), hmem⟩ := hstart.saves hanswered
  have hstored : a.stored = records := hstores.stored_eq
  rw [hstored]
  refine ⟨fun r hr => ?_, hstores.list, hstores.fault_of_list, fun w hw => ?_⟩
  · obtain hr | ⟨p, hp, fields, id, hfields, rfl⟩ := hmem r hr
    · exact .inl hr
    · exact .inr ⟨p, hp, fields, id, hfields, rfl, countable_stamped fields id p.1⟩
  · unfold Workspace.listing Workspace.inquire Workspace.request
    rw [hw]
    dsimp only
    by_cases hcount : ∀ r ∈ records, IsCountable r
    · rw [hstores.list hcount]
      rfl
    · obtain ⟨fault, hfault, ⟨kind, rfl⟩ | ⟨kind, rfl⟩⟩ := hstores.fault_of_list hcount
      all_goals
        rw [hfault]
        rfl

/-- A record without a graph, and one with two nodes that is saved again under another name. -/
theorem list_saved_counted :
    let now : Moment := ⟨"2026-01-01 00:00:00", .finite .zero⟩
    let graph : Datum := .record [("nodes", .list [.null, .int 7])]
    let saves : List (Moment × Datum) := [
      (now, .record [("id", .text "a"), ("name", .text "A"), ("graph", graph)]),
      (now, .record [("id", .int 5)]),
      (now, .record [("id", .text "a"), ("name", .text "B"), ("graph", graph)])]
    let s : Archive × Supply := ({ path := "eqbuilder.json" }, {})
    let a := ((saves.map Request.ofSave).foldl Request.apply s).1
    s.1.Stores [] ∧ Unrefused s (saves.map .ofSave) ∧ (∀ r ∈ a.stored, IsCountable r) ∧
      a.list.answer = .ok (a.stored.map shown) ∧
      a.stored.map Database.nodeCount? = [some 2, some 0] := by
  intro now graph saves s a
  have hstart : s.1.Stores [] := Stores.absent _
  have hanswered : Unrefused s (saves.map .ofSave) := by decide +kernel
  have hcount : ∀ r ∈ a.stored, IsCountable r := by decide +kernel
  exact ⟨hstart, hanswered, hcount, (list_saved s [] hstart saves hanswered).2.1 hcount,
    by decide +kernel⟩

/-- A record with null for its graph is saved, and nothing is listed any more. -/
theorem list_poisoned :
    let now : Moment := ⟨"2026-01-01 00:00:00", .finite .zero⟩
    let saves : List (Moment × Datum) := [
      (now, .record [("id", .text "ok"), ("name", .text "fine")]),
      (now, .record [("id", .text "bad"), ("graph", .null)])]
    let s : Archive × Supply := ({ path := "eqbuilder.json" }, {})
    let a := ((saves.map Request.ofSave).foldl Request.apply s).1
    Unrefused s (saves.map .ofSave) ∧ a.list.fault? =
    some (.datum (.noMethod "NoneType" "get")) := by
  decide +kernel

end Archive

end EquationStudio
