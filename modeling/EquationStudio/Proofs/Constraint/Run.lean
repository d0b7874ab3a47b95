import EquationStudio.Proofs.Constraint.Conflict
import EquationStudio.Proofs.Constraint.Replay
import EquationStudio.Proofs.Datum.Equality

/-!
# Runs of a registry

Constraints are attached and detached in any order, and some of the requests are refused. A request
keeps a registry valid with constraints that were made (`Registry.Sound.apply`), so every registry
at the end of a run is. What is known of such a registry, and of what is asked of it next, is put
together in `Registry.WellKept`: identities are distinct and no two constraints are in conflict, the
targets are those that have constraints, a constraint is detached by its identity and no other is
touched, and the records give the registry again (`Registry.run_wellKept`).
-/

namespace EquationStudio.Registry

/-! ## Operations -/

/-- An operation of a registry with its arguments. -/
inductive Op where
  | add (target : Datum) (c : Constraint)
  | remove (target id : Datum)
  /-- All constraints of a target are detached, or of every target if it is null. -/
  | clear (target : Datum)

/-- What an operation makes of a registry, unless it is refused. -/
def attempt (r : Registry) : Op → Except Fault Registry
  | .add target c => do r.add (← Identity.ofDatum target) c
  | .remove target id => do return (← r.remove target id).2
  | .clear target => r.clear target

/-- What an operation makes of a registry, carried out or refused. -/
def apply (r : Registry) (op : Op) : Registry :=
  match r.attempt op with
  | .ok r' => r'
  | .error _ => r

/-- The registry at the end of a run of operations of an empty one. -/
def run (ops : List Op) : Registry := ops.foldl apply {}

/-- A constraint that is attached was built or read from a record, with an identity whose records
hold each key once, as all data from outside do. -/
def Op.Attachable : Op → Prop
  | .add _ c => c.Made ∧ c.id.Distinct
  | .remove .. | .clear _ => True

/-! ## What operations preserve -/

/-- A valid registry of constraints that were made. -/
structure Sound (r : Registry) : Prop where
  valid : r.Valid
  made : r.Forall fun c => c.Made ∧ c.id.Distinct

/-- The registry without constraints is sound. -/
theorem sound_empty : Sound {} := ⟨nofun, nofun⟩

section
variable {r r' : Registry} {op : Op}

/-- An operation that is carried out leaves a sound registry. -/
theorem Sound.attempt (h : r.Sound) (hop : op.Attachable)
    (hr : r.attempt op = .ok r') : r'.Sound := by
  cases op with
  | add target c =>
    obtain ⟨identity, -, hadd⟩ := ok_of_bind hr
    exact ⟨h.valid.add hadd, h.made.add hop hadd⟩
  | remove target id =>
    obtain ⟨⟨found, left⟩, hremove, hleft⟩ := ok_of_bind hr
    cases hleft
    exact ⟨h.valid.remove hremove, h.made.remove hremove⟩
  | clear target =>
    have hclear : r.clear target = .ok r' := hr
    unfold clear at hclear
    split at hclear
    · cases hclear
      exact sound_empty
    · split at hclear
      · cases hclear
        exact h
      · obtain ⟨key, -, hkept⟩ := ok_of_bind hclear
        cases hkept
        exact ⟨h.valid.clearAt key, h.made.clearAt key⟩

/-- An operation that is refused changes nothing. -/
theorem apply_of_error {fault : Fault} (hr : r.attempt op = .error fault) : r.apply op = r := by
  rw [apply, hr]

/-- An operation, carried out or refused, leaves a sound registry. -/
theorem Sound.apply (h : r.Sound) (hop : op.Attachable) : (r.apply op).Sound := by
  cases hr : r.attempt op with
  | error fault => rwa [apply_of_error hr]
  | ok r' =>
    rw [Registry.apply, hr]
    exact h.attempt hop hr

end

/-- Operations leave a sound registry. -/
theorem Sound.foldl {ops : List Op} {r : Registry} (h : r.Sound)
    (hops : ∀ op ∈ ops, op.Attachable) : (ops.foldl Registry.apply r).Sound := by
  induction ops generalizing r with
  | nil => exact h
  | cons op ops ih =>
    obtain ⟨hop, hops⟩ := List.forall_mem_cons.1 hops
    exact ih (h.apply hop) hops

/-! ## What is known of a sound registry -/

section
variable {r : Registry}

/-- The constraints of a target are compatible with each other. -/
theorem Valid.pairwise (h : r.Valid) (k : Key) :
    (r.constraintsAt k).Pairwise Constraint.Compatible := by
  cases hk : r.table.get? k with
  | none =>
    rw [constraintsAt_of_none hk]
    exact .nil
  | some a =>
    rw [constraintsAt_of_get? hk]
    exact (h k a hk).2.2

/-- The constraints of a target satisfy what all do. -/
theorem Forall.constraintsAt {P : Constraint → Prop} (h : r.Forall P) {k : Key} {c : Constraint}
    (hc : c ∈ r.constraintsAt k) : P c := by
  cases hk : r.table.get? k with
  | none =>
    rw [constraintsAt_of_none hk] at hc
    cases hc
  | some a =>
    rw [constraintsAt_of_get? hk] at hc
    exact h k a hk c hc

/-- Two constraints that may be attached to one target in one order may be in the other. -/
theorem compatible_symm {a b : Constraint} (hb : b.id.Distinct)
    (h : a.Compatible b) : b.Compatible a := by
  refine ⟨?_, Constraint.findConflict_comm.1 h.2⟩
  by_contra hequal
  rw [Bool.not_eq_false] at hequal
  have := h.1.symm.trans (Datum.equal_symm hb hequal)
  cases this

/-- The constraints of a target are compatible with each other, in both orders. -/
theorem Sound.pairwise (h : r.Sound) (k : Key) :
    (r.constraintsAt k).Pairwise fun a b => a.Compatible b ∧ b.Compatible a :=
  (h.valid.pairwise k).imp_of_mem fun _ hb hab =>
    ⟨hab, compatible_symm (h.made.constraintsAt hb).2 hab⟩

/-! ### Targets -/

/-- The targets of a valid registry are those that have constraints, each once, and together they
have as many as there are. -/
theorem Valid.targets (h : r.Valid) : ∃ keys : List Key,
    r.targets.map Datum.key = keys.map .ok ∧ keys.Nodup ∧ (∀ k, k ∈ keys ↔ r.constraintsAt k ≠ []) ∧
    r.size = (keys.flatMap r.constraintsAt).length := by
  have hat : ∀ a ∈ r.table.values, r.constraintsAt a.target.key = a.constraints := by
    intro a ha
    obtain ⟨k, hk⟩ := Table.mem_values.1 ha
    rw [(h k a hk).1]
    exact constraintsAt_of_get? hk
  refine ⟨r.table.values.map (·.target.key), ?_,
    Table.nodup_values fun k a hk => (h k a hk).1, fun k => ?_, ?_⟩
  · rw [Registry.targets, List.map_map, List.map_map]
    exact List.map_congr_left fun a _ => a.target.made
  · constructor
    · intro hk
      obtain ⟨a, ha, rfl⟩ := List.mem_map.1 hk
      obtain ⟨k, hk⟩ := Table.mem_values.1 ha
      rw [hat a ha]
      exact (h k a hk).2.1
    · intro hne
      cases hk : r.table.get? k with
      | none => exact absurd (constraintsAt_of_none hk) hne
      | some a => exact List.mem_map.2 ⟨a, Table.mem_values.2 ⟨k, hk⟩, (h k a hk).1⟩
  · have hcount : ∀ (as : List Attached) (n : Nat), as.foldl (fun n a =>
      n + a.constraints.length) n =
        n + (as.flatMap (·.constraints)).length := by
      intro as
      induction as with
      | nil => simp
      | cons a as ih =>
        intro n
        rw [List.foldl_cons, ih, List.flatMap_cons, List.length_append, Nat.add_assoc]
    rw [size, hcount, Nat.zero_add, List.flatMap_map]
    exact congrArg List.length (List.flatMap_congr fun a ha => (hat a ha).symm)

/-! ### Detaching -/

/-- What is left of constraints that are apart when the first with an identity is taken out: no
other has it. -/
theorem exists_of_eraseP {cs : List Constraint} {id : Datum}
    (hpair : cs.Pairwise fun a b => a.Compatible b ∧ b.Compatible a)
    (hdistinct : ∀ c ∈ cs, c.id.Distinct) (hany : ∃ c ∈ cs, c.id.equal id = true) :
      ∃ before c after, cs = before ++ c :: after ∧
      cs.eraseP (·.id.equal id) = before ++ after ∧ c.id.equal id = true ∧
      ∀ c' ∈ before ++ after, c'.id.equal id = false := by
  obtain ⟨c₀, hc₀, hid₀⟩ := hany
  obtain ⟨c, before, after, hbefore, hid, rfl, herased⟩ :=
    List.exists_of_eraseP (p := (·.id.equal id)) hc₀ hid₀
  refine ⟨before, c, after, rfl, herased, hid, fun c' hc' => ?_⟩
  rcases List.mem_append.1 hc' with hc' | hc'
  · exact Bool.eq_false_iff.2 (hbefore c' hc')
  · -- An identity that is equal to the same one is equal to that of the constraint taken out.
    by_contra hequal
    rw [Bool.not_eq_false] at hequal
    have hd' : c'.id.Distinct := hdistinct c' (by simp [hc'])
    have hsame : c.id.equal c'.id = true := Datum.equal_trans hid (Datum.equal_symm hd' hequal)
    have happart := (List.pairwise_cons.1 (List.pairwise_append.1 hpair).2.1).1 c' hc'
    cases happart.1.1.symm.trans hsame

/-- What a request to detach a constraint comes to. -/
structure Removes (r : Registry) (target : Identity) (id : Datum) (found : Bool)
    (r' : Registry) : Prop where
  /-- A constraint that is found is taken out, and no other has the identity. -/
  taken : found = true → ∃ before c after, r.constraintsAt target.key = before ++ c :: after ∧
    c.id.equal id = true ∧ (∀ c' ∈ before ++ after, c'.id.equal id = false) ∧
    r'.constraintsAt target.key = before ++ after
  /-- If none is found, none has the identity. -/
  missing : found = false → r' = r ∧ ∀ c ∈ r.constraintsAt target.key, c.id.equal id = false
  /-- The other targets keep what they have. -/
  others : ∀ k, k ≠ target.key → r'.constraintsAt k = r.constraintsAt k

/-- A constraint is detached by its identity. -/
theorem Sound.remove (h : r.Sound) (target : Identity) (id : Datum) :
    ∃ found r', r.remove target.datum id = .ok (found, r') ∧ r.Removes target id found r' := by
  simp only [Registry.remove, target.made, ok_bind]
  cases hk : r.table.get? target.key with
  | none =>
    refine ⟨false, r, rfl, nofun, fun _ => ⟨rfl, fun c hc => ?_⟩, fun _ _ => rfl⟩
    rw [constraintsAt_of_none hk] at hc
    cases hc
  | some a =>
    have hat : r.constraintsAt target.key = a.constraints := constraintsAt_of_get? hk
    by_cases hany : ∃ c ∈ a.constraints, c.id.equal id = true
    · obtain ⟨before, c, after, hcs, herased, hid, hothers⟩ :=
        exists_of_eraseP (hat ▸ h.pairwise target.key)
        (fun c hc => (h.made _ a hk c hc).2) hany
      have hlength : (before ++ after).length ≠ a.constraints.length := by
        simp [hcs]
      simp only [herased, if_neg hlength]
      have htaken : ∀ r' : Registry, r'.constraintsAt target.key = before ++ after →
          (∀ k, k ≠ target.key → r'.constraintsAt k = r.constraintsAt k) →
          r.Removes target id true r' :=
        fun r' hr' hrest =>
          ⟨fun _ => ⟨before, c, after, hat.trans hcs, hid, hothers, hr'⟩, nofun, hrest⟩
      by_cases hempty : (before ++ after).isEmpty = true
      · rw [if_pos hempty]
        refine ⟨true, _, rfl, htaken _ ?_ fun k hne => ?_⟩
        · rw [List.isEmpty_iff.1 hempty]
          exact constraintsAt_of_none (by rw [Table.get?_erase, if_pos rfl])
        · rw [constraintsAt, constraintsAt, Table.get?_erase, if_neg hne]
      · rw [if_neg hempty]
        refine ⟨true, _, rfl, htaken _ ?_ fun k hne => ?_⟩
        · exact constraintsAt_of_get? (a := ⟨a.target, before ++ after⟩)
            (by rw [Table.get?_insert, if_pos rfl])
        · rw [constraintsAt, constraintsAt, Table.get?_insert, if_neg hne]
    · have hnone : ∀ c ∈ a.constraints, ¬ c.id.equal id = true := fun c hc hid => hany ⟨c, hc, hid⟩
      simp only [List.eraseP_of_forall_not hnone, if_true]
      refine ⟨false, r, rfl, nofun, fun _ => ⟨rfl, fun c hc => ?_⟩, fun _ _ => rfl⟩
      exact Bool.eq_false_iff.2 (hnone c (hat ▸ hc))

end

/-! ## The main statement -/

/-- What is known of a registry, and of what is asked of it next. -/
structure WellKept (r : Registry) : Prop where
  /-- The constraints of a target have distinct identities, and no two of them are in conflict. -/
  apart : ∀ k, (r.constraintsAt k).Pairwise fun a b =>
    (a.id.equal b.id = false ∧ b.id.equal a.id = false) ∧
      a.findConflict b = .ok none ∧ b.findConflict a = .ok none
  /-- The targets are those that have constraints, and the size is how many they have together. -/
  targets : ∃ keys : List Key, r.targets.map Datum.key = keys.map .ok ∧ keys.Nodup ∧
    (∀ k, k ∈ keys ↔ r.constraintsAt k ≠ []) ∧ r.size = (keys.flatMap r.constraintsAt).length
  /-- A constraint that is refused leaves everything as it was. -/
  refuses : ∀ target c fault, r.attempt (.add target c) = .error fault → r.apply (.add target c) = r
  /-- A constraint is detached by its identity, and no other is touched. -/
  removes : ∀ (target : Identity) (id : Datum),
    ∃ found r', r.remove target.datum id = .ok (found, r') ∧ r.Removes target id found r'
  /-- The records are read into an empty registry, which then has the same records. -/
  replays : ∀ supply, ∃ r', replay supply r.toRecords = .ok (r', supply) ∧
    r'.toRecords = r.toRecords

/-- After every run of operations, carried out or refused, that attach constraints which were built
or read from records, what is known of a registry holds. -/
theorem run_wellKept {ops : List Op} (hops : ∀ op ∈ ops, op.Attachable) : (run ops).WellKept := by
  have h : (run ops).Sound := sound_empty.foldl hops
  refine ⟨fun k => ?_, h.valid.targets, fun _ _ _ => apply_of_error, h.remove, fun supply => ?_⟩
  · exact (h.pairwise k).imp fun hab => ⟨⟨hab.1.1, hab.2.1⟩, hab.1.2, hab.2.2⟩
  · obtain ⟨r', hrun, hrecords⟩ := h.valid.addEach_rebuilt
    refine ⟨r', ?_, hrecords⟩
    rw [replay, toRecords_eq]
    refine foldlM_addRecord (fun p hp => ?_) hrun supply
    obtain ⟨k, a, ha, -, hc⟩ := exists_of_mem_attachments hp
    exact (h.made k a ha p.2 hc).1.isTruthy

/-- A constraint that is refused beside an earlier one is attached once that is detached. -/
theorem run_wellKept_exchanged :
    let even : Constraint :=
      ⟨.text "e", true, .parity, { parity := some .even }, .parity .even, rfl⟩
    let odd : Constraint := ⟨.text "o", true, .parity, { parity := some .odd }, .parity .odd, rfl⟩
    let ops : List Op := [.add (.text "n1") even, .add (.text "n1") odd, .add (.text "n1") even,
      .add (.text "n2") even, .remove (.text "n1") (.text "e"), .add (.text "n1") odd,
      .clear (.text "n2")]
    (∀ op ∈ ops, op.Attachable) ∧ (run ops).WellKept ∧ (run ops).size = 1 := by
  intro even odd ops
  let record (id parity : String) : Datum :=
    .record [("id", .text id), ("type", .text "even_odd"), ("parity", .text parity)]
  have heven : (Op.add (.text "n1") even).Attachable :=
    ⟨⟨{}, {}, .inl ⟨record "e" "even", rfl⟩⟩, trivial⟩
  have hodd : (Op.add (.text "n1") odd).Attachable :=
    ⟨⟨{}, {}, .inl ⟨record "o" "odd", rfl⟩⟩, trivial⟩
  have hops : ∀ op ∈ ops, op.Attachable := by
    intro op hop
    simp only [ops, List.mem_cons, List.not_mem_nil, or_false] at hop
    obtain rfl | rfl | rfl | rfl | rfl | rfl | rfl := hop
    · exact heven
    · exact hodd
    · exact heven
    · exact heven
    · trivial
    · exact hodd
    · trivial
  exact ⟨hops, run_wellKept hops, by decide +kernel⟩

end EquationStudio.Registry
