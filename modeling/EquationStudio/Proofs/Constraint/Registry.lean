import EquationStudio.Constraint.Registry
import EquationStudio.Proofs.Basic
import EquationStudio.Proofs.Table

/-!
# What a registry of constraints keeps

The constraints of a target are pairwise compatible (`Constraint.Compatible`): none has the identity
of an earlier one or conflicts with it. `Registry.Valid` says so for every target, and that no
target is kept without constraints; attaching and detaching preserve it (`Registry.Valid.add`,
`Registry.Valid.remove`, `Registry.Valid.clearAt`). They also preserve what every attached
constraint satisfies (`Registry.Forall`), if the new one does.
-/

namespace EquationStudio

/-- A constraint that may be attached to a target that has an earlier one. -/
def Constraint.Compatible (earlier later : Constraint) : Prop :=
  earlier.id.equal later.id = false ∧ earlier.findConflict later = .ok none

namespace Registry

/-- A registry in which targets stand under their own keys, with constraints that are compatible. -/
def Valid (r : Registry) : Prop :=
  ∀ k a, r.table.get? k = some a →
    a.target.key = k ∧ a.constraints ≠ [] ∧ a.constraints.Pairwise Constraint.Compatible

/-- A constraint has no conflicts with a list of others exactly if it has none with any of them. -/
theorem conflictsWith_eq_nil {c : Constraint} : ∀ {others : List Constraint},
    conflictsWith c others = .ok [] ↔ ∀ other ∈ others, other.findConflict c = .ok none
  | [] => by simp [conflictsWith]
  | other :: rest => by
    rw [List.forall_mem_cons, ← conflictsWith_eq_nil, conflictsWith]
    constructor
    · intro h
      obtain ⟨found, hfound, h⟩ := ok_of_bind h
      obtain ⟨more, hmore, h⟩ := ok_of_bind h
      obtain ⟨hnone, rfl⟩ := List.append_eq_nil_iff.1 (Except.ok.inj h)
      rw [Option.toList_eq_nil_iff] at hnone
      exact ⟨by rw [hfound, hnone], hmore⟩
    · rintro ⟨hfound, hmore⟩
      rw [hfound, ok_bind, hmore]
      rfl

/-- The constraints found at a target are those attached there. -/
theorem constraintsAt_of_get? {r : Registry} {k : Key} {a : Attached}
    (h : r.table.get? k = some a) : r.constraintsAt k = a.constraints := by
  rw [constraintsAt, h]; rfl

/-- No constraints are found at a target that is not kept. -/
theorem constraintsAt_of_none {r : Registry} {k : Key} (h : r.table.get? k = none) :
    r.constraintsAt k = [] := by
  rw [constraintsAt, h]; rfl

/-- A constraint that is attached goes to the end of those of its target, with all of which it is
compatible. -/
theorem add_ok {r r' : Registry} {target : Identity} {c : Constraint}
    (h : r.add target c = .ok r') :
    (∀ earlier ∈ r.constraintsAt target.key, earlier.Compatible c) ∧
      r' = ⟨r.table.insert target.key
        ⟨((r.table.get? target.key).map Attached.target).getD target,
          r.constraintsAt target.key ++ [c]⟩⟩ := by
  simp only [add] at h
  split at h
  · obtain ⟨_, _, h⟩ := ok_of_bind h
    cases h
  · next hid =>
    obtain ⟨kinds, hkinds, h⟩ := ok_of_bind h
    split at h
    · next hnone =>
      cases h
      rw [List.isEmpty_iff.1 hnone, conflictsWith_eq_nil] at hkinds
      refine ⟨fun earlier he => ⟨?_, hkinds earlier he⟩, rfl⟩
      simpa using fun heq => hid (List.any_eq_true.2 ⟨earlier, he, heq⟩)
    · obtain ⟨_, _, h⟩ := ok_of_bind h
      cases h

/-- A constraint that is compatible with those of its target is attached. -/
theorem add_of_compatible {r : Registry} {target : Identity} {c : Constraint}
    (h : ∀ earlier ∈ r.constraintsAt target.key, earlier.Compatible c) :
    r.add target c = .ok ⟨r.table.insert target.key
      ⟨((r.table.get? target.key).map Attached.target).getD target,
        r.constraintsAt target.key ++ [c]⟩⟩ := by
  have hid : ¬ (r.constraintsAt target.key).any (·.id.equal c.id) = true := by
    simpa using fun earlier he => (h earlier he).1
  have hkinds : conflictsWith c (r.constraintsAt target.key) = .ok [] :=
    conflictsWith_eq_nil.2 fun earlier he => (h earlier he).2
  simp only [add, if_neg hid, hkinds, ok_bind, List.isEmpty_nil, if_true]
  rfl

section
variable {r r' : Registry}

/-- Attaching a constraint keeps a registry valid. -/
theorem Valid.add (h : r.Valid) {target : Identity} {c : Constraint}
    (ha : r.add target c = .ok r') : r'.Valid := by
  obtain ⟨hc, rfl⟩ := add_ok ha
  intro k a hk
  rw [Table.get?_insert] at hk
  split at hk
  · next heq =>
    subst heq
    cases hk
    cases hold : r.table.get? target.key with
    | none =>
      rw [constraintsAt_of_none hold] at hc ⊢
      exact ⟨rfl, by simp, by simp⟩
    | some old =>
      obtain ⟨hkey, -, hpair⟩ := h _ _ hold
      rw [constraintsAt_of_get? hold] at hc ⊢
      refine ⟨hkey, by simp, List.pairwise_append.2 ⟨hpair, by simp, ?_⟩⟩
      simpa using hc
  · exact h k a hk

/-- The targets after a constraint is attached are the earlier ones and its own. -/
theorem target_of_add {target : Identity} {c : Constraint} (ha : r.add target c = .ok r') {k : Key}
    {a : Attached} (hk : r'.table.get? k = some a) :
    k = target.key ∨ ∃ old, r.table.get? k = some old := by
  obtain ⟨-, rfl⟩ := add_ok ha
  rw [Table.get?_insert] at hk
  split at hk
  · next heq => exact .inl heq
  · exact .inr ⟨a, hk⟩

/-- What is left at a target after a constraint is detached was there before, in the same order. -/
theorem get?_of_remove {target id : Datum} {found : Bool}
    (hr : r.remove target id = .ok (found, r')) {k : Key} {a : Attached}
    (hk : r'.table.get? k = some a) : ∃ old, r.table.get? k = some old ∧ a.target = old.target ∧
      a.constraints.Sublist old.constraints ∧ (old.constraints ≠ [] → a.constraints ≠ []) := by
  have hsame : ∀ {k a}, r.table.get? k = some a → ∃ old, r.table.get? k = some old ∧
      a.target = old.target ∧ a.constraints.Sublist old.constraints ∧
      (old.constraints ≠ [] → a.constraints ≠ []) := fun {_ a} h => ⟨a, h, rfl, .refl _, fun h => h⟩
  obtain ⟨key, -, hr⟩ := ok_of_bind hr
  split at hr
  · cases hr; exact hsame hk
  · next attached hattached =>
    dsimp only at hr
    split at hr
    · cases hr; exact hsame hk
    · split at hr
      · cases hr
        rw [Table.get?_erase] at hk
        split at hk
        · cases hk
        · exact hsame hk
      · next hsome =>
        cases hr
        rw [Table.get?_insert] at hk
        split at hk
        · next heq =>
          subst heq
          cases hk
          refine ⟨attached, hattached, rfl, List.eraseP_sublist, fun _ hnil => hsome ?_⟩
          exact List.isEmpty_iff.2 hnil
        · exact hsame hk

/-- Detaching a constraint keeps a registry valid. -/
theorem Valid.remove (h : r.Valid) {target id : Datum} {found : Bool}
    (hr : r.remove target id = .ok (found, r')) : r'.Valid := by
  intro k a hk
  obtain ⟨old, hold, htarget, hsub, hne⟩ := get?_of_remove hr hk
  obtain ⟨hkey, hold, hpair⟩ := h _ _ hold
  exact ⟨htarget ▸ hkey, hne hold, hpair.sublist hsub⟩

/-- Detaching all constraints of a target keeps a registry valid. -/
theorem Valid.clearAt (h : r.Valid) (key : Key) : (r.clearAt key).Valid := by
  intro k a hk
  rw [Registry.clearAt, Table.get?_erase] at hk
  split at hk
  · cases hk
  · exact h k a hk

end

/-! ## Attaching several constraints -/

/-- Attaches constraints to a target, one after another. -/
def addAll (r : Registry) (target : Identity) (cs : List Constraint) : Except Fault Registry :=
  cs.foldlM (fun r c => r.add target c) r

section
variable {target : Identity}

/-- A constraint that is attached goes to the end of those of its target. -/
theorem constraintsAt_add {r r' : Registry} {c : Constraint} (h : r.add target c = .ok r') :
    r'.constraintsAt target.key = r.constraintsAt target.key ++ [c] := by
  rw [(add_ok h).2, constraintsAt, Table.get?_insert, if_pos rfl]
  rfl

/-- Constraints that are attached, one after another, go to the end of those of their target. -/
theorem constraintsAt_addAll {cs : List Constraint} {r r' : Registry}
    (h : r.addAll target cs = .ok r') :
    r'.constraintsAt target.key = r.constraintsAt target.key ++ cs := by
  induction cs generalizing r with
  | nil => rw [Except.ok.inj h, List.append_nil]
  | cons c cs ih =>
    obtain ⟨r₁, hadd, hrest⟩ := ok_of_bind h
    rw [ih hrest, constraintsAt_add hadd, List.append_assoc, List.singleton_append]

/-- Constraints are attached to a target exactly if each is compatible with those that the target
has and with those before it. -/
theorem addAll_iff {cs : List Constraint} {r : Registry} :
    (∃ r', r.addAll target cs = .ok r') ↔
      (∀ earlier ∈ r.constraintsAt target.key, ∀ c ∈ cs, earlier.Compatible c) ∧
        cs.Pairwise Constraint.Compatible := by
  induction cs generalizing r with
  | nil => exact ⟨fun _ => ⟨fun _ _ _ h => absurd h List.not_mem_nil, .nil⟩, fun _ => ⟨r, rfl⟩⟩
  | cons c cs ih =>
    rw [List.pairwise_cons]
    constructor
    · rintro ⟨r', h⟩
      obtain ⟨r₁, hadd, hrest⟩ := ok_of_bind h
      obtain ⟨hall, hpair⟩ := ih.1 ⟨r', hrest⟩
      rw [constraintsAt_add hadd, List.forall_mem_append] at hall
      exact ⟨fun earlier he => List.forall_mem_cons.2 ⟨(add_ok hadd).1 earlier he,
        hall.1 earlier he⟩, hall.2 c (List.mem_singleton.2 rfl), hpair⟩
    · rintro ⟨hall, hfirst, hpair⟩
      have hadd := add_of_compatible fun earlier he => hall earlier he c (.head _)
      obtain ⟨r', hrest⟩ := ih.2 ⟨by
        rw [constraintsAt_add hadd, List.forall_mem_append, List.forall_mem_singleton]
        exact ⟨fun earlier he => (List.forall_mem_cons.1 (hall earlier he)).2, hfirst⟩, hpair⟩
      exact ⟨r', by rw [addAll, List.foldlM_cons, hadd]; exact hrest⟩

end

/-! ## What a value breaks -/

/-- The constraints of a list that a value breaks, if each of them answers. -/
theorem broken_of_answers {d : Datum} : ∀ {cs : List Constraint},
    (∀ c ∈ cs, ∃ holds, c.satisfies d = .ok holds) →
      broken d cs = .ok ((cs.filter fun c => (c.satisfies d).toOption = some false).map (⟨·, d⟩))
  | [], _ => rfl
  | c :: cs, h => by
    obtain ⟨⟨holds, hholds⟩, hcs⟩ := List.forall_mem_cons.1 h
    rw [broken, hholds, broken_of_answers hcs, List.filter_cons, hholds]
    cases holds <;> rfl

/-- If a value breaks none of a list of constraints, each of them answers that it holds. -/
theorem satisfies_of_broken_nil {d : Datum} : ∀ {cs : List Constraint}, broken d cs = .ok [] →
    ∀ c ∈ cs, c.satisfies d = .ok true
  | [], _ => List.forall_mem_nil _
  | c :: cs, h => by
    obtain ⟨holds, hholds, h⟩ := ok_of_bind h
    obtain ⟨others, hothers, h⟩ := ok_of_bind h
    cases holds with
    | false => cases h
    | true =>
      cases h
      exact List.forall_mem_cons.2 ⟨hholds, satisfies_of_broken_nil hothers⟩

/-- A value that is accepted for a target satisfies every constraint there. -/
theorem satisfies_of_check {r : Registry} {target d : Datum} {k : Key} (hk : target.key = .ok k)
    (h : r.check target d = .ok ()) : ∀ c ∈ r.constraintsAt k, c.satisfies d = .ok true := by
  obtain ⟨violations, hviolations, h⟩ := ok_of_bind h
  rw [Registry.violations, constraintsFor, hk] at hviolations
  split at h
  · next hempty =>
    rw [List.isEmpty_iff.1 hempty] at hviolations
    exact satisfies_of_broken_nil hviolations
  · obtain ⟨_, _, h⟩ := ok_of_bind h
    obtain ⟨_, _, h⟩ := ok_of_bind h
    cases h

/-! ## What every attached constraint satisfies -/

/-- Every attached constraint satisfies `P`. -/
def Forall (P : Constraint → Prop) (r : Registry) : Prop :=
  ∀ k a, r.table.get? k = some a → ∀ c ∈ a.constraints, P c

section
variable {P : Constraint → Prop} {r r' : Registry}

/-- Attaching a constraint with `P` to constraints with `P`. -/
theorem Forall.add (h : r.Forall P) {target : Identity} {c : Constraint} (hc : P c)
    (ha : r.add target c = .ok r') : r'.Forall P := by
  obtain ⟨-, rfl⟩ := add_ok ha
  intro k a hk
  rw [Table.get?_insert] at hk
  split at hk
  · cases hk
    intro c' hc'
    rcases List.mem_append.1 hc' with hc' | hc'
    · cases hold : r.table.get? target.key with
      | none => rw [constraintsAt_of_none hold] at hc'; cases hc'
      | some old => rw [constraintsAt_of_get? hold] at hc'; exact h _ _ hold c' hc'
    · rwa [List.mem_singleton.1 hc']
  · exact h k a hk

/-- Detaching one of constraints with `P`. -/
theorem Forall.remove (h : r.Forall P) {target id : Datum} {found : Bool}
    (hr : r.remove target id = .ok (found, r')) : r'.Forall P := by
  intro k a hk c hc
  obtain ⟨old, hold, -, hsub, -⟩ := get?_of_remove hr hk
  exact h k old hold c (hsub.subset hc)

/-- Detaching all constraints of a target from constraints with `P`. -/
theorem Forall.clearAt (h : r.Forall P) (key : Key) : (r.clearAt key).Forall P := by
  intro k a hk
  rw [Registry.clearAt, Table.get?_erase] at hk
  split at hk
  · cases hk
  · exact h k a hk

end

end Registry

end EquationStudio
