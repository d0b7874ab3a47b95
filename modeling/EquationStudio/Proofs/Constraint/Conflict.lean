import EquationStudio.Constraint.Conflict
import EquationStudio.Proofs.Constraint.Arithmetic

/-!
# What a conflict tells

A conflict that is found is real: no number meets both rules (`Rule.oneWayConflict_sound`). A rule
that fixes the value is decided against any other, since the value it fixes is the only candidate
(`Number.admits_of_conflictWith`). Conflicts are looked for in one order and then in the other, so
`Constraint.findConflict_decides` needs a rule that fixes the value on one side only, on whichever.
-/

namespace EquationStudio

/-- The number that a datum of a number is. -/
@[simp] theorem Number.ofNumeric?_toDatum (v : Number) : ofNumeric? v.toDatum = some v := by
  cases v <;> rfl

/-- A number meets an equation exactly if it has the value of the constant. -/
theorem Rule.admits_equal {v w : Number} :
    (comparison .equal v).admits w = .ok true ↔ w.scaled = v.scaled := by
  simp [admits, Number.compares]

/-- Whether a value is in conflict with a rule is whether it breaks the rule. -/
theorem Number.admits_of_conflictWith {v : Number} {b : Rule} {found : Option ConflictKind}
    (h : v.conflictWith b = .ok found) : b.admits v = .ok found.isNone := by
  have hasked :
      (do return if ← b.admits v then none else some ConflictKind.equalValueExcluded) = .ok found →
      b.admits v = .ok found.isNone := by
    intro h
    obtain ⟨holds, hholds, h⟩ := ok_of_bind h
    cases h
    cases holds <;> exact hholds
  cases b with
  | comparison relation w =>
    cases relation with
    | notEqual | equal =>
      cases h
      by_cases hvw : v.scaled = w.scaled <;> simp [Rule.admits, compares, hvw]
    | greater | less => exact hasked h
  | range | domain | sign | prime | perfectSquare | parity | fibonacci | divisible => exact hasked h

/-- A value that has a double is told to be in conflict with a rule or not to be. -/
theorem Number.exists_conflictWith {v : Number} {b : Rule} (hv : v.toDouble?.isSome = true)
    (hb : b.Convertible) : ∃ found, v.conflictWith b = .ok found := by
  obtain ⟨holds, hholds⟩ := Rule.exists_admits hb hv
  have hasked : (do return if ← b.admits v then none else some ConflictKind.equalValueExcluded) =
      .ok (if holds then none else some .equalValueExcluded) := by rw [hholds]; rfl
  cases b with
  | comparison relation w =>
    cases relation with
    | notEqual | equal => exact ⟨_, rfl⟩
    | greater | less => exact ⟨_, hasked⟩
  | range | domain | sign | prime | perfectSquare | parity | fibonacci | divisible =>
    exact ⟨_, hasked⟩

namespace Rule

variable {a b : Rule}

/-- Rules that state numbers with doubles are told to be in conflict or not to be. -/
theorem exists_oneWayConflict (ha : a.Convertible) (hb : b.Convertible) :
    ∃ found, a.oneWayConflict b = .ok found := by
  unfold oneWayConflict
  split
  · next v => exact v.exists_conflictWith (ha v (.head _)) hb
  all_goals exact ⟨_, rfl⟩

/-- No number meets two rules that are in conflict. -/
theorem oneWayConflict_sound {kind : ConflictKind} (h : a.oneWayConflict b = .ok (some kind))
    (v : Number) : ¬ (a.admits v = .ok true ∧ b.admits v = .ok true) := by
  rintro ⟨hav, hbv⟩
  unfold oneWayConflict at h
  split at h
  · next w =>
    -- the only number to meet both is the constant, which a rule sees by its value only
    rw [admits_congr (admits_equal.1 hav), Number.admits_of_conflictWith h] at hbv
    cases hbv
  · next low high lowInclusive highInclusive low' high' lowInclusive' highInclusive' =>
    have hwithin : ∀ {low high : Number} {lowInclusive highInclusive : Bool},
        (range low high lowInclusive highInclusive).admits v = .ok true →
          low.scaled ≤ v.scaled ∧ v.scaled ≤ high.scaled := by
      intro low high lowInclusive highInclusive hv
      cases lowInclusive <;> cases highInclusive <;>
        simp only [admits, if_true, Bool.false_eq_true, if_false, Except.ok.injEq, Bool.and_eq_true,
          decide_eq_true_eq] at hv <;> omega
    have := hwithin hav
    have := hwithin hbv
    split at h
    · omega
    · cases h
  · next v w =>
    simp only [admits, Number.compares, Except.ok.injEq, decide_eq_true_eq] at hav hbv
    split at h
    · omega
    · cases h
  · next s s' =>
    simp only [admits, Except.ok.injEq] at hav hbv
    split at h
    · next hopposite =>
      obtain ⟨rfl, rfl⟩ | ⟨rfl, rfl⟩ := hopposite <;>
        simp only [Number.hasSign, decide_eq_true_eq] at hav hbv <;> omega
    · cases h
  · next p p' =>
    simp only [admits, Number.hasParity, Except.ok.injEq] at hav hbv
    split at h
    · cases h
    · next hne =>
      split at hav
      · cases p <;> cases p' <;> simp_all
      · cases hav
  · cases h

/-- Where the first rule fixes the value and no conflict is found, the value meets both rules. -/
theorem admits_of_oneWayConflict {v : Number}
    (h : (comparison .equal v).oneWayConflict b = .ok none) :
    (comparison .equal v).admits v = .ok true ∧ b.admits v = .ok true :=
  ⟨admits_equal.2 rfl, Number.admits_of_conflictWith h⟩

end Rule

namespace Constraint

variable {a b c : Constraint}

/-- The rule of a constraint that asks for equality fixes a value. -/
theorem rule_of_kind_equal (h : c.kind = .comparison .equal) :
    ∃ v, c.rule = .comparison .equal v := by
  have hstated := c.stated
  rw [h, Rule.ofTerms] at hstated
  split at hstated
  · next v _ => exact ⟨v, (Except.ok.inj hstated).symm⟩
  · cases hstated

/-- A number satisfies an active constraint exactly if it meets the rule. -/
theorem satisfies_toDatum (h : c.active = true) (v : Number) :
    c.satisfies v.toDatum = c.rule.admits v := by
  rw [satisfies, if_pos h, Number.ofNumeric?_toDatum]

/-- A datum that satisfies an active constraint is a number that meets the rule. -/
theorem admits_of_satisfies (h : c.active = true) {d : Datum} (hd : c.satisfies d = .ok true) :
    ∃ v, Number.ofNumeric? d = some v ∧ c.rule.admits v = .ok true := by
  rw [satisfies, if_pos h] at hd
  split at hd
  · next v hv => exact ⟨v, hv, hd⟩
  · cases hd

/-- A reason that is found comes from one of the two orders, and where none is found none comes from
either. -/
theorem findConflict_ok (ha : a.active = true) (hb : b.active = true) {found : Option ConflictKind}
    (h : a.findConflict b = .ok found) :
    (∃ kind, found = some kind ∧ a.rule.oneWayConflict b.rule = .ok (some kind)) ∨
      (a.rule.oneWayConflict b.rule = .ok none ∧ b.rule.oneWayConflict a.rule = .ok found) := by
  rw [findConflict, ha, hb, Bool.and_self, if_pos rfl] at h
  obtain ⟨first, hfirst, h⟩ := ok_of_bind h
  cases first with
  | some kind => exact .inl ⟨kind, (Except.ok.inj h).symm, hfirst⟩
  | none => exact .inr ⟨hfirst, h⟩

/-- No conflict of two active constraints is found exactly if none is seen from either. -/
theorem findConflict_eq_none : a.findConflict b = .ok none ↔
    (a.active = true → b.active = true →
      a.rule.oneWayConflict b.rule = .ok none ∧ b.rule.oneWayConflict a.rule = .ok none) := by
  by_cases hactive : (a.active && b.active) = true
  · obtain ⟨ha, hb⟩ := Bool.and_eq_true_iff.1 hactive
    constructor
    · intro h _ _
      obtain ⟨_, hsome, -⟩ | hnone := findConflict_ok ha hb h
      · cases hsome
      · exact hnone
    · intro h
      obtain ⟨hab, hba⟩ := h ha hb
      rw [findConflict, if_pos hactive, hab, ok_bind]
      exact hba
  · rw [findConflict, if_neg hactive]
    exact ⟨fun _ ha hb => absurd (Bool.and_eq_true_iff.2 ⟨ha, hb⟩) hactive, fun _ => rfl⟩

/-- Two constraints are free of conflict in one order exactly if they are in the other. -/
theorem findConflict_comm : a.findConflict b = .ok none ↔ b.findConflict a = .ok none := by
  rw [findConflict_eq_none, findConflict_eq_none]
  exact ⟨fun h hb ha => (h ha hb).symm, fun h ha hb => (h hb ha).symm⟩

/-- Constraints that state numbers with doubles are told to be in conflict or not to be. -/
theorem exists_findConflict (ha : a.active = true) (hb : b.active = true)
    (hac : a.rule.Convertible) (hbc : b.rule.Convertible) :
    ∃ found, a.findConflict b = .ok found := by
  obtain ⟨first, hfirst⟩ := Rule.exists_oneWayConflict hac hbc
  rw [findConflict, ha, hb, Bool.and_self, if_pos rfl, hfirst, ok_bind]
  cases first with
  | some kind => exact ⟨_, rfl⟩
  | none => exact Rule.exists_oneWayConflict hbc hac

/-- No datum satisfies two constraints for which a reason is found. -/
theorem findConflict_sound (ha : a.active = true) (hb : b.active = true) {kind : ConflictKind}
    (h : a.findConflict b = .ok (some kind)) (d : Datum) :
    ¬ (a.satisfies d = .ok true ∧ b.satisfies d = .ok true) := by
  rintro ⟨had, hbd⟩
  obtain ⟨v, hv, hav⟩ := admits_of_satisfies ha had
  obtain ⟨w, hw, hbw⟩ := admits_of_satisfies hb hbd
  cases hv.symm.trans hw
  obtain ⟨_, hkind, hone⟩ | ⟨-, hone⟩ := findConflict_ok ha hb h
  · exact Rule.oneWayConflict_sound hone v ⟨hav, hbw⟩
  · exact Rule.oneWayConflict_sound hone v ⟨hbw, hav⟩

/-- Some number satisfies two constraints for which no reason is found, if one of them fixes the
value. -/
theorem findConflict_complete (ha : a.active = true) (hb : b.active = true)
    (h : a.findConflict b = .ok none)
    (hequal : a.kind = .comparison .equal ∨ b.kind = .comparison .equal) :
    ∃ v : Number, a.satisfies v.toDatum = .ok true ∧ b.satisfies v.toDatum = .ok true := by
  obtain ⟨_, hsome, -⟩ | ⟨hab, hba⟩ := findConflict_ok ha hb h
  · cases hsome
  · simp only [satisfies_toDatum ha, satisfies_toDatum hb]
    rcases hequal with hkind | hkind
    · obtain ⟨v, hv⟩ := rule_of_kind_equal hkind
      rw [hv] at hab ⊢
      exact ⟨v, Rule.admits_of_oneWayConflict hab⟩
    · obtain ⟨v, hv⟩ := rule_of_kind_equal hkind
      rw [hv] at hba ⊢
      exact ⟨v, (Rule.admits_of_oneWayConflict hba).symm⟩

/-- Two active constraints whose numbers have doubles are compared to an answer. Where it names a
reason, no datum satisfies both; where it names none and one of the two asks for equality, some
number satisfies both. -/
theorem findConflict_decides {a b : Constraint} (ha : a.active = true) (hb : b.active = true)
    (hac : a.rule.Convertible) (hbc : b.rule.Convertible) :
    ∃ found, a.findConflict b = .ok found ∧
      (∀ kind, found = some kind →
        ∀ d : Datum, ¬ (a.satisfies d = .ok true ∧ b.satisfies d = .ok true)) ∧
      (a.kind = .comparison .equal ∨ b.kind = .comparison .equal → found = none →
        ∃ v : Number, a.satisfies v.toDatum = .ok true ∧ b.satisfies v.toDatum = .ok true) := by
  obtain ⟨found, hfound⟩ := exists_findConflict ha hb hac hbc
  refine ⟨found, hfound, ?_, ?_⟩
  · rintro kind rfl
    exact findConflict_sound ha hb hfound
  · rintro hequal rfl
    exact findConflict_complete ha hb hfound hequal

/-- Being prime and being nine are in conflict, though only the second of them fixes the value. -/
theorem findConflict_decides_nine :
    let prime : Constraint := ⟨.text "prime", true, .prime, {}, .prime, rfl⟩
    let nine : Constraint :=
      ⟨.text "nine", true, .comparison .equal, { value := .int 9 },
        .comparison .equal (.whole 9), rfl⟩
    prime.findConflict nine = .ok (some .equalValueExcluded) ∧
      ∀ d : Datum, ¬ (prime.satisfies d = .ok true ∧ nine.satisfies d = .ok true) := by
  intro prime nine
  have hkind : prime.findConflict nine = .ok (some .equalValueExcluded) := by decide +kernel
  obtain ⟨found, hfound, hsound, -⟩ := findConflict_decides (a := prime) (b := nine) rfl rfl
    (by decide +kernel) (by decide +kernel)
  exact ⟨hkind, hsound _ (Except.ok.inj (hfound.symm.trans hkind))⟩

end Constraint

end EquationStudio
