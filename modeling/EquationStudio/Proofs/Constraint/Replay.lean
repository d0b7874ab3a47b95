import EquationStudio.Datum.Access
import EquationStudio.Proofs.Constraint.Record
import EquationStudio.Proofs.Constraint.Registry

/-!
# Registries replayed from their records

The attachments of a valid registry, target by target in the order of the targets, can be made again
one after another: each is tested against others than when it was first made, yet all are accepted
(`Registry.addEach_attached`). So the records of a registry, read back and attached in order, give a
registry with the same records (`Registry.replay_toRecords`).
-/

namespace EquationStudio

/-- An identity is read back from its datum. -/
theorem Identity.ofDatum_datum (i : Identity) : Identity.ofDatum i.datum = .ok i := by
  unfold ofDatum
  split
  · next key h =>
    obtain rfl : key = i.key := Except.ok.inj (h.symm.trans i.made)
    rfl
  · next h => cases h.symm.trans i.made

/-- The record of an attached constraint names its target. -/
theorem Constraint.field_recordAt (target : Identity) (c : Constraint) :
    (c.recordAt target).field "target" = .ok target.datum := by
  simp [recordAt, Datum.field, Fields.get?]

/-- The constraints of a target with the terms forgotten that do not state their rules. -/
def Attached.rebuilt (a : Attached) : Attached := ⟨a.target, a.constraints.map Constraint.rebuilt⟩

/-- The constraints of a target, each with the target. -/
def Attached.attachments (a : Attached) : List (Identity × Constraint) :=
  a.constraints.map (a.target, ·)

namespace Registry

/-! ## Attachments -/

/-- All constraints with their targets, target by target. -/
def attachments (r : Registry) : List (Identity × Constraint) :=
  r.table.values.flatMap Attached.attachments

/-- Attaches constraints, each to its target, one after another. -/
def addEach (r : Registry) (ps : List (Identity × Constraint)) : Except Fault Registry :=
  ps.foldlM (fun r p => r.add p.1 p.2) r

/-- The records of a registry are those of its attachments. -/
theorem toRecords_eq (r : Registry) : r.toRecords = r.attachments.map fun p =>
    p.2.recordAt p.1 := by
  simp only [toRecords, attachments, List.map_flatMap, Attached.attachments, List.map_map]
  rfl

/-- An attachment is one of a constraint to the target under which it is kept. -/
theorem exists_of_mem_attachments {r : Registry} {p : Identity × Constraint}
    (hp : p ∈ r.attachments) :
    ∃ k a, r.table.get? k = some a ∧ p.1 = a.target ∧ p.2 ∈ a.constraints := by
  obtain ⟨a, ha, hp⟩ := List.mem_flatMap.1 hp
  obtain ⟨c, hc, rfl⟩ := List.mem_map.1 hp
  obtain ⟨k, hk⟩ := Table.mem_values.1 ha
  exact ⟨k, a, hk, rfl, hc⟩

/-- Constraints that are compatible, with each other and with those of their target, are attached to
it. -/
theorem addAll_of_pairwise {target : Identity} {cs : List Constraint} (hne : cs ≠ []) {r : Registry}
    (hknown : ((r.table.get? target.key).map Attached.target).getD target = target)
    (hpair : (r.constraintsAt target.key ++ cs).Pairwise Constraint.Compatible) :
    r.addAll target cs =
      .ok ⟨r.table.insert target.key ⟨target, r.constraintsAt target.key ++ cs⟩⟩ := by
  induction cs generalizing r with
  | nil => exact absurd rfl hne
  | cons c cs ih =>
    have hadd := add_of_compatible fun earlier he =>
      (List.pairwise_append.1 hpair).2.2 earlier he c (.head _)
    rw [hknown] at hadd
    rw [addAll, List.foldlM_cons, hadd, ok_bind]
    by_cases hcs : cs = []
    · rw [hcs]
      rfl
    · -- The constraint that is attached now is one of those that the target has for the rest.
      have hat := constraintsAt_add hadd
      have hrest :=
        ih (r := ⟨r.table.insert target.key ⟨target, r.constraintsAt target.key ++ [c]⟩⟩) hcs
        (by simp) (by rwa [hat, List.append_assoc])
      rw [addAll, hat] at hrest
      rw [hrest, Table.insert_insert, List.append_assoc, List.singleton_append]

/-- Constraints under targets that have none yet are attached again, if those of each target are
compatible. -/
theorem addEach_attached {as : List Attached} {r : Registry}
    (has : ∀ a ∈ as, a.constraints ≠ [] ∧ a.constraints.Pairwise Constraint.Compatible ∧
      r.table.get? a.target.key = none)
    (hn : (as.map (·.target.key)).Nodup) :
    r.addEach (as.flatMap Attached.attachments) =
      .ok ⟨as.foldl (fun t a => t.insert a.target.key a) r.table⟩ := by
  induction as generalizing r with
  | nil => rfl
  | cons a as ih =>
    obtain ⟨⟨hne, hpair, hnew⟩, hrest⟩ := List.forall_mem_cons.1 has
    obtain ⟨hfresh, hn⟩ := List.nodup_cons.1 hn
    have hnone : r.constraintsAt a.target.key = [] := constraintsAt_of_none hnew
    have hfirst : r.addAll a.target a.constraints = .ok ⟨r.table.insert a.target.key a⟩ := by
      rw [addAll_of_pairwise hne (by rw [hnew]; rfl) (by rwa [hnone]), hnone]
      rfl
    have hrest' : ∀ b ∈ as, b.constraints ≠ [] ∧ b.constraints.Pairwise Constraint.Compatible ∧
        (r.table.insert a.target.key a).get? b.target.key = none := by
      intro b hb
      obtain ⟨hne', hpair', hnew'⟩ := hrest b hb
      have hapart : b.target.key ≠ a.target.key := fun he => hfresh (List.mem_map.2 ⟨b, hb, he⟩)
      exact ⟨hne', hpair', by simp [hapart, hnew']⟩
    rw [List.flatMap_cons, addEach, List.foldlM_append, Attached.attachments, List.foldlM_map]
    rw [addAll] at hfirst
    rw [hfirst, ok_bind]
    exact ih hrest' hn

/-- The attachments of a valid registry, with the terms forgotten that do not state the rules, are
made again in an empty one, in the same order. -/
theorem Valid.addEach_rebuilt {r : Registry} (h : r.Valid) : ∃ r' : Registry,
    addEach {} (r.attachments.map fun p => (p.1, p.2.rebuilt)) = .ok r' ∧
    r'.toRecords = r.toRecords := by
  have hn : (r.table.values.map (·.target.key)).Nodup := Table.nodup_values fun k a ha =>
    (h k a ha).1
  have has : ∀ a ∈ r.table.values.map Attached.rebuilt, a.constraints ≠ [] ∧
      a.constraints.Pairwise Constraint.Compatible ∧
      ({} : Registry).table.get? a.target.key = none := by
    intro b hb
    obtain ⟨a, ha, rfl⟩ := List.mem_map.1 hb
    obtain ⟨k, ha⟩ := Table.mem_values.1 ha
    obtain ⟨-, hne, hpair⟩ := h k a ha
    refine ⟨by simpa [Attached.rebuilt] using hne, ?_, rfl⟩
    rw [Attached.rebuilt, List.pairwise_map]
    exact hpair
  have hattachments : r.attachments.map (fun p => (p.1, p.2.rebuilt)) =
      (r.table.values.map Attached.rebuilt).flatMap Attached.attachments := by
    simp only [attachments, Attached.attachments, Attached.rebuilt,
      List.map_flatMap, List.flatMap_map, List.map_map, Function.comp_def]
  have hrun := addEach_attached has (by rw [List.map_map]; exact hn)
  rw [← hattachments] at hrun
  refine ⟨_, hrun, ?_⟩
  have hvalues : ((r.table.values.map Attached.rebuilt).foldl (fun t a => t.insert a.target.key a)
      Table.empty).values = r.table.values.map Attached.rebuilt := by
    rw [List.foldl_map]
    exact Table.values_foldl_insert hn Attached.rebuilt
  rw [toRecords_eq, toRecords_eq, attachments, hvalues, ← hattachments, List.map_map]
  refine List.map_congr_left fun p _ => ?_
  rw [Function.comp_apply, Constraint.recordAt, Constraint.recordAt, p.2.fields_rebuilt]

/-! ## Reading records -/

/-- Reads the record of a constraint and attaches it to the target that the record names. -/
def addRecord (s : Registry × Supply) (d : Datum) : Except Fault (Registry × Supply) := do
  let target ← Identity.ofDatum (← d.field "target")
  let (read, supply) := Constraint.ofRecord s.2 d
  return (← s.1.add target (← read), supply)

/-- Reads the records of constraints, one after another, into an empty registry. -/
def replay (supply : Supply) (records : List Datum) : Except Fault (Registry × Supply) :=
  records.foldlM addRecord ({}, supply)

/-- Attachments that can be made again are made by their records, if the constraints have identities
that count as such. -/
theorem foldlM_addRecord {ps : List (Identity × Constraint)}
    (hids : ∀ p ∈ ps, p.2.id.isTruthy = true) {r r' : Registry}
    (h : r.addEach (ps.map fun p => (p.1, p.2.rebuilt)) = .ok r') (supply : Supply) :
    (ps.map fun p => p.2.recordAt p.1).foldlM addRecord (r, supply) = .ok (r', supply) := by
  induction ps generalizing r with
  | nil =>
    cases h
    rfl
  | cons p ps ih =>
    obtain ⟨hid, hids⟩ := List.forall_mem_cons.1 hids
    obtain ⟨r₁, hadd, hrest⟩ := ok_of_bind h
    have hstep : addRecord (r, supply) (p.2.recordAt p.1) = .ok (r₁, supply) := by
      simp only [addRecord, Constraint.field_recordAt, Identity.ofDatum_datum, ok_bind,
        Constraint.ofRecord_recordAt supply p.1 hid, hadd]
      rfl
    rw [List.map_cons, List.foldlM_cons, hstep, ok_bind]
    exact ih hids hrest

end Registry

end EquationStudio
