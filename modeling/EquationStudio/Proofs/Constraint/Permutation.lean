import EquationStudio.Proofs.Constraint.Conflict
import EquationStudio.Proofs.Constraint.Registry

/-!
# Constraints in any order

A conflict is looked for in both orders of two constraints, so whether one is found does not depend
on the order (`Constraint.findConflict_comm`). A list of constraints is attached to a target exactly
if its members are compatible with each other and with those that the target has
(`Registry.addAll_iff`). So constraints with distinct identities can be attached in every order or
in none, and what a value breaks is the same after each (`Registry.addAll_perm`).
-/

namespace EquationStudio

namespace Constraint

/-- A constraint that does not answer is asked about an integer larger than every double, or is
stated with a number that has no double. -/
theorem fault_of_satisfies {c : Constraint} {d : Datum} {fault : Fault}
    (h : c.satisfies d = .error fault) : fault = .datum .tooLargeForDouble ∧
      (c.rule.Convertible → ∃ n, d = .int n ∧ (Number.whole n).toDouble? = none) := by
  unfold satisfies at h
  split at h
  · split at h
    · next v hv =>
      refine ⟨Rule.fault_of_admits h, fun hc => ?_⟩
      have hlarge : v.toDouble? = none := by
        by_contra hsome
        obtain ⟨holds, hholds⟩ := Rule.exists_admits hc (Option.isSome_iff_ne_none.2 hsome)
        cases hholds.symm.trans h
      cases v with
      | whole n =>
        refine ⟨n, ?_, hlarge⟩
        unfold Number.ofNumeric? at hv
        split at hv <;> cases hv
        rfl
      | real x => cases hlarge
    · cases h
  · cases h

end Constraint

namespace Registry

/-! ## What a value breaks -/

/-- What a value breaks is not answered if one of the constraints does not answer. -/
theorem broken_of_fault {d : Datum} {cs : List Constraint} {c : Constraint}
    (hc : c ∈ cs) {fault : Fault} (h : c.satisfies d = .error fault) :
    broken d cs = .error (.datum .tooLargeForDouble) := by
  induction cs with
  | nil => cases hc
  | cons c' cs ih =>
    rw [broken]
    cases hfirst : c'.satisfies d with
    | error fault' =>
      rw [(Constraint.fault_of_satisfies hfirst).1]
      rfl
    | ok holds =>
      obtain rfl | hc := List.mem_cons.1 hc
      · cases hfirst.symm.trans h
      · rw [ok_bind, ih hc]
        rfl

/-- A value breaks the same constraints of a list in every order of it, unless it is an integer
larger than every double of which one of them asks the double. -/
theorem broken_perm {d : Datum} {cs cs' : List Constraint} (hperm : cs.Perm cs')
    (hconvertible : ∀ c ∈ cs, c.rule.Convertible) :
    (∃ found found', broken d cs = .ok found ∧ broken d cs' = .ok found' ∧ found.Perm found') ∨
      ∃ n, d = .int n ∧ (Number.whole n).toDouble? = none ∧
        broken d cs = .error (.datum .tooLargeForDouble) ∧
        broken d cs' = .error (.datum .tooLargeForDouble) := by
  by_cases hall : ∀ c ∈ cs, ∃ holds, c.satisfies d = .ok holds
  · have hall' : ∀ c ∈ cs', ∃ holds, c.satisfies d = .ok holds :=
      fun c hc => hall c (hperm.mem_iff.2 hc)
    exact .inl ⟨_, _, broken_of_answers hall, broken_of_answers hall', (hperm.filter _).map _⟩
  · obtain ⟨c, hc, hno⟩ : ∃ c ∈ cs, ¬ ∃ holds, c.satisfies d = .ok holds := by
      simpa only [not_forall, exists_prop] using hall
    cases hanswer : c.satisfies d with
    | ok holds => exact absurd ⟨holds, hanswer⟩ hno
    | error fault =>
      obtain ⟨n, hn, hlarge⟩ := (Constraint.fault_of_satisfies hanswer).2 (hconvertible c hc)
      exact .inr ⟨n, hn, hlarge, broken_of_fault hc hanswer,
        broken_of_fault (hperm.mem_iff.1 hc) hanswer⟩

/-! ## The main statement -/

/-- Constraints with distinct identities are attached to a target of an empty registry exactly if no
two of them are in conflict. -/
theorem addAll_iff_pairwise {target : Identity} {cs : List Constraint}
    (hids : cs.Pairwise fun a b => a.id.equal b.id = false ∧ b.id.equal a.id = false) :
    (∃ r, addAll {} target cs = .ok r) ↔ cs.Pairwise fun a b => a.findConflict b = .ok none := by
  rw [addAll_iff]
  refine (and_iff_right fun _ he => absurd he List.not_mem_nil).trans ?_
  exact List.pairwise_and_iff.trans (and_iff_right (hids.imp And.left))

/-- Constraints with distinct identities, whose numbers have doubles, are all attached to a target
of an empty registry in one order exactly if they are in another, and then a value is judged alike:
it breaks the same constraints, so none or some in both. The only values that are not judged are
integers larger than every double, and they are not in either order. -/
theorem addAll_perm (target : Identity) {cs cs' : List Constraint} (hperm : cs.Perm cs')
    (hids : cs.Pairwise fun a b => a.id.equal b.id = false ∧ b.id.equal a.id = false)
    (hconvertible : ∀ c ∈ cs, c.rule.Convertible) :
    ((∃ r, addAll {} target cs = .ok r) ↔ ∃ r', addAll {} target cs' = .ok r') ∧
    ∀ r r', addAll {} target cs = .ok r → addAll {} target cs' = .ok r' → ∀ value,
      (∃ found found', r.violations target.datum value = .ok found ∧
        r'.violations target.datum value = .ok found' ∧ found.isEmpty = found'.isEmpty ∧
        found.Perm found') ∨
      ∃ n, value = .int n ∧ (Number.whole n).toDouble? = none ∧
        r.violations target.datum value = .error (.datum .tooLargeForDouble) ∧
        r'.violations target.datum value = .error (.datum .tooLargeForDouble) := by
  have hids' : cs'.Pairwise fun a b => a.id.equal b.id = false ∧ b.id.equal a.id = false :=
    (hperm.pairwise_iff fun h => h.symm).1 hids
  have hconflicts : (cs.Pairwise fun a b => a.findConflict b = .ok none) ↔
      cs'.Pairwise fun a b => a.findConflict b = .ok none :=
    hperm.pairwise_iff fun h => Constraint.findConflict_comm.1 h
  refine ⟨?_, fun r r' h h' value => ?_⟩
  · rw [addAll_iff_pairwise hids, addAll_iff_pairwise hids', hconflicts]
  · have hattached : ∀ {ds : List Constraint} {r : Registry}, addAll {} target ds = .ok r →
        r.violations target.datum value = broken value ds := by
      intro ds r hr
      rw [violations, constraintsFor, target.made, ok_bind, constraintsAt_addAll hr]
      rfl
    rw [hattached h, hattached h']
    obtain ⟨found, found', hfound, hfound', hsame⟩ | hlarge :=
      broken_perm (d := value) hperm hconvertible
    · exact .inl ⟨found, found', hfound, hfound', hsame.isEmpty_eq, hsame⟩
    · exact .inr hlarge

/-- A parity, a comparison and a sign, attached in two orders: of the three, seven breaks the same
two. -/
theorem addAll_perm_three :
    let even : Constraint :=
      ⟨.text "e", true, .parity, { parity := some .even }, .parity .even, rfl⟩
    let small : Constraint := ⟨.text "s", true, .comparison .less, { value := .int 7 },
      .comparison .less (.whole 7), rfl⟩
    let positive : Constraint :=
      ⟨.text "p", true, .sign, { sign := some .positive }, .sign .positive, rfl⟩
    let target := Identity.ofText "n1"
    ([even, small, positive].Perm [positive, small, even] ∧
      ([even, small, positive].Pairwise fun a b => a.id.equal b.id = false ∧
      b.id.equal a.id = false) ∧
      ∀ c ∈ [even, small, positive], c.rule.Convertible) ∧
    ∃ r r', addAll {} target [even, small, positive] = .ok r ∧
      addAll {} target [positive, small, even] = .ok r' ∧
      ∃ found found', r.violations target.datum (.int 7) = .ok found ∧
        r'.violations target.datum (.int 7) = .ok found' ∧ found.length = 2 ∧
        found.isEmpty = found'.isEmpty ∧ found.Perm found' := by
  intro even small positive target
  have hperm : [even, small, positive].Perm [positive, small, even] :=
    (List.reverse_perm [even, small, positive]).symm
  have hids : [even, small, positive].Pairwise fun a b =>
      a.id.equal b.id = false ∧ b.id.equal a.id = false := by decide +kernel
  have hconvertible : ∀ c ∈ [even, small, positive], c.rule.Convertible := by decide +kernel
  obtain ⟨hiff, hjudged⟩ := addAll_perm target hperm hids hconvertible
  have hattached : (addAll {} target [even, small, positive]).toOption.isSome = true := by
    decide +kernel
  obtain ⟨r, hr⟩ := Option.isSome_iff_exists.1 hattached
  rw [toOption_eq_some] at hr
  obtain ⟨r', hr'⟩ := hiff.1 ⟨r, hr⟩
  have hbroken : (addAll {} target [even, small, positive]).toOption.map (fun r =>
      (r.violations target.datum (.int 7)).toOption.map List.length) = some (some 2) := by
        decide +kernel
  refine ⟨⟨hperm, hids, hconvertible⟩, r, r', hr, hr', ?_⟩
  obtain ⟨found, found', hfound, hfound', hsame⟩ | ⟨n, hn, hlarge, -⟩ :=
    hjudged r r' hr hr' (.int 7)
  · refine ⟨found, found', hfound, hfound', ?_, hsame⟩
    rw [hr] at hbroken
    simpa [hfound, Except.toOption] using hbroken
  · cases hn
    exact absurd hlarge (by decide +kernel)

end Registry

end EquationStudio
