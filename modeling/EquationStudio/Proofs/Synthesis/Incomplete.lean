import EquationStudio.Proofs.Synthesis.Accepted

/-!
# Incomplete diagrams as algebra

An expression that lacks something has no algebraic form. Where nothing but a single node stands
behind the sink, the library says so: there is no form, and whoever needs one is refused for want of
completeness. Where the node that lacks an input is an operand, the operation on it fails first, and
its fault is what comes out of the library instead (`Diagram.algebra_of_incomplete`).
-/

namespace EquationStudio

/-- The fault of an operation on an operand that is missing. -/
def Fault.IsOperandFault (fault : Fault) : Prop :=
  fault = .datum .missingOperand ∨ fault = .datum (.noMethod "NoneType" "is_Number")

/-- The refusal of a power with too many digits. -/
def Fault.IsPowerRefusal (fault : Fault) : Prop :=
  ∃ digits, fault = .refusal (.powerTooLarge digits)

/-! ## Operations on missing operands -/

namespace SymbolicAlgebra

variable {A : SymbolicAlgebra} {op : Operator} {left right : A.Operand}

/-- A power of forms is refused for its digits only. -/
theorem isPowerRefusal_of_boundedPower {b e : A.Form} {fault : Fault}
    (h : A.boundedPower b e = .error fault) : fault.IsPowerRefusal := by
  unfold boundedPower at h
  split at h
  · cases h
    exact ⟨_, rfl⟩
  · cases h

/-- An operation fails for a missing operand, or it is a power with too many digits. -/
theorem fault_of_combine {fault : Fault} (h : A.combine op left right = .error fault) :
    fault.IsOperandFault ∨ fault.IsPowerRefusal := by
  cases op with
  | add | subtract | multiply | divide =>
    cases left with
    | none => cases h; exact .inl (.inl rfl)
    | some a =>
      cases right with
      | none => cases h; exact .inl (.inl rfl)
      | some b => cases h
  | power =>
    have hpower : A.powerOfOperands left right = .error fault := h
    unfold powerOfOperands at hpower
    split at hpower
    · obtain hb | ⟨c, -, hb⟩ := error_of_bind hpower
      · exact .inr (isPowerRefusal_of_boundedPower hb)
      · cases hb
    · split at hpower
      · cases hpower; exact .inl (.inr rfl)
      · cases hpower; exact .inl (.inl rfl)
    · cases hpower; exact .inl (.inr rfl)

/-- An operation on a missing operand fails. -/
theorem exists_fault_of_none (h : left = none ∨ right = none) :
    ∃ fault, A.combine op left right = .error fault := by
  cases hcombine : A.combine op left right with
  | error fault => exact ⟨fault, rfl⟩
  | ok c =>
    exfalso
    cases op with
    | power =>
      have hpower : A.powerOfOperands left right = .ok c := hcombine
      unfold powerOfOperands at hpower
      split at hpower
      · obtain h | h := h <;> cases h
      · split at hpower <;> cases hpower
      · cases hpower
    | add | subtract | multiply | divide =>
      obtain rfl | rfl := h
      · cases hcombine
      · cases left <;> cases hcombine

end SymbolicAlgebra

namespace Formula

variable {A : SymbolicAlgebra} {b : A.Bindings}

/-- What is made of a formula in algebra fails for a missing operand, or for a power with too many
digits. -/
theorem fault_of_fold {t : Formula} {fault : Fault} (h : t.fold (A.emitter b) = .error fault) :
    fault.IsOperandFault ∨ fault.IsPowerRefusal := by
  induction t generalizing fault with
  | number | symbol | loose => cases h
  | join op left right ihl ihr =>
    rw [fold] at h
    obtain h | ⟨a, -, h⟩ := error_of_bind h
    · exact ihl h
    · obtain h | ⟨c, -, h⟩ := error_of_bind h
      · exact ihr h
      · exact SymbolicAlgebra.fault_of_combine h

/-- A joined formula with a loose node anywhere in it fails. -/
theorem exists_fault_of_loose {op : Operator} {left right : Formula}
    (h : (join op left right).looseNodes ≠ []) :
    ∃ fault, (join op left right).fold (A.emitter b) = .error fault := by
  -- On the formula: a part with a loose node in it fails, or it is the node itself, and there is no
  -- operand.
  have hpart : ∀ {t : Formula}, t.looseNodes ≠ [] →
      (∀ {op left right}, t = join op left right → ∃ fault, t.fold (A.emitter b) = .error fault) →
      t.fold (A.emitter b) = .ok none ∨ ∃ fault, t.fold (A.emitter b) = .error fault := by
    intro t hloose ih
    cases t with
    | number | symbol => exact absurd rfl hloose
    | loose => exact .inl rfl
    | join op left right => exact .inr (ih rfl)
  generalize ht : join op left right = t at h ⊢
  induction t generalizing op left right with
  | number | symbol | loose => cases ht
  | join op' left' right' ihl ihr =>
    rw [looseNodes, ne_eq, List.append_eq_nil_iff, not_and_or] at h
    rw [fold]
    cases hl : left'.fold (A.emitter b) with
    | error fault => exact ⟨fault, rfl⟩
    | ok a =>
      rw [ok_bind]
      cases hr : right'.fold (A.emitter b) with
      | error fault => exact ⟨fault, rfl⟩
      | ok c =>
        rw [ok_bind]
        refine SymbolicAlgebra.exists_fault_of_none ?_
        obtain h | h := h
        · obtain hnone | ⟨fault, hfault⟩ := hpart h fun he => ihl he.symm h
          · exact .inl (Except.ok.inj (hl.symm.trans hnone))
          · cases hl.symm.trans hfault
        · obtain hnone | ⟨fault, hfault⟩ := hpart h fun he => ihr he.symm h
          · exact .inr (Except.ok.inj (hr.symm.trans hnone))
          · cases hr.symm.trans hfault

end Formula

/-! ## Incomplete diagrams -/

namespace Diagram

/-- Nothing is joined behind a sink: there is no node, or one without two producers. -/
def Unjoined (g : Diagram) (sink : Datum) : Prop :=
  ∀ n root, g.resolveSink sink = .ok (some n) → g.root? n = some root →
    Walk.producers? g root = none

/-- Only binary nodes have two producers. -/
theorem producers?_of_output {g : Diagram} {n : Node} (h : n.content = .output) :
    Walk.producers? g n = none := by
  have hinputs : n.inputs = [n.port .input "in"] := by rw [Node.inputs, Node.kind, h]; rfl
  rw [Walk.producers?, hinputs]

section
variable {g : Diagram} {sink : Datum} {A : SymbolicAlgebra}

/-- Where there is no algebraic form, whoever needs one is refused for want of completeness. -/
theorem refused_of_algebraic (h : ∀ b, g.algebraic A (.ok b) sink = .ok none) :
    g.algebraicText sink A = .ok none ∧ g.simplified sink A = .error (.refusal .incomplete) ∧
      ∀ bindings b, g.checkedBindings A bindings = .ok (.ok b) →
        g.evaluate bindings sink A = .error (.refusal .incomplete) := by
  refine ⟨?_, ?_, fun bindings b hb => ?_⟩
  · rw [algebraicText, h]; rfl
  · rw [simplified, completeAlgebraic, h]; rfl
  · rw [evaluate, hb, ok_bind, completeAlgebraic, h]; rfl

/-- Where the algebraic form is a fault, whoever needs one fails with it. -/
theorem failed_of_algebraic {b : A.Bindings} {fault : Fault}
    (h : g.algebraic A (.ok b) sink = .error fault) :
    (b = [] → g.algebraicText sink A = .error fault ∧ g.simplified sink A = .error fault) ∧
      ∀ bindings, g.checkedBindings A bindings = .ok (.ok b) →
        g.evaluate bindings sink A = .error fault := by
  refine ⟨?_, fun bindings hb => ?_⟩
  · rintro rfl
    exact ⟨by rw [algebraicText, h]; rfl, by rw [simplified, completeAlgebraic, h]; rfl⟩
  · rw [evaluate, hb, ok_bind, completeAlgebraic, h]; rfl

end

/-- What the algebra makes of a diagram whose text is read but is not complete, whatever run of
edits the diagram comes from. If nothing is joined behind the sink, there is no algebraic form, and
simplifying and evaluating are refused as incomplete. If a node is joined there, a loose node is
among the operands below it at some depth, and all three fail: the operation on the operand that is
missing does, unless a power with too many digits is refused before. This is so in every algebra. -/
theorem algebra_of_incomplete {edits : List Edit} {supply : Supply} {sink : Datum} {s : Synthesis}
    (hs : (run edits supply).synthesize sink = .ok s) (hc : s.complete = false)
    (A : SymbolicAlgebra) :
    ((run edits supply).Unjoined sink → (run edits supply).algebraicText sink A = .ok none ∧
      (run edits supply).simplified sink A = .error (.refusal .incomplete) ∧
      ∀ bindings b, (run edits supply).checkedBindings A bindings = .ok (.ok b) →
        (run edits supply).evaluate bindings sink A = .error (.refusal .incomplete)) ∧
    (¬ (run edits supply).Unjoined sink →
      (∃ fault : Fault, (fault.IsOperandFault ∨ fault.IsPowerRefusal) ∧
        (run edits supply).algebraicText sink A = .error fault ∧
        (run edits supply).simplified sink A = .error fault) ∧
      ∀ bindings b, (run edits supply).checkedBindings A bindings = .ok (.ok b) →
        ∃ fault : Fault, (fault.IsOperandFault ∨ fault.IsPowerRefusal) ∧
          (run edits supply).evaluate bindings sink A = .error fault) := by
  have hg := Keyed.run edits supply
  generalize run edits supply = g at *
  obtain ⟨-, hnothing, hnone⟩ | ⟨n, root, t, hn, hroot, -, ht, hcomplete, halgebraic⟩ :=
    hg.algebraic_eq hs A
  · refine ⟨fun _ => refused_of_algebraic hnone, fun hjoined => absurd ?_ hjoined⟩
    exact fun n root hn hroot => absurd hroot (hnothing n root hn)
  have hloose : t.looseNodes ≠ [] := fun hnil => by
    rw [hcomplete.2 hnil] at hc
    cases hc
  have hunjoined : Walk.producers? g root = none → g.Unjoined sink := by
    intro hp n' root' hn' hroot'
    cases hn.symm.trans hn'
    cases hroot.symm.trans hroot'
    exact hp
  have hsingle : t = .loose root → ∀ b, g.algebraic A (.ok b) sink = .ok none := by
    rintro rfl b
    rw [halgebraic, Formula.fold]
    exact congrArg Except.ok (ite_self none)
  cases ht with
  | number | symbol => exact absurd rfl hloose
  | loose _ hp =>
    exact ⟨fun _ => refused_of_algebraic (hsingle rfl),
      fun hjoined => absurd (hunjoined hp) hjoined⟩
  | output ho =>
    exact ⟨fun _ => refused_of_algebraic (hsingle rfl),
      fun hjoined => absurd (hunjoined (producers?_of_output ho)) hjoined⟩
  | @join _ l r op left right ho hp hl hr =>
    have hfault : ∀ b, ∃ fault : Fault, (fault.IsOperandFault ∨ fault.IsPowerRefusal) ∧
        g.algebraic A (.ok b) sink = .error fault := by
      intro b
      obtain ⟨fault, hfold⟩ := Formula.exists_fault_of_loose (b := b) hloose
      exact ⟨fault, Formula.fault_of_fold hfold, by rw [halgebraic, hfold]; rfl⟩
    refine ⟨fun hun => ?_, fun _ => ⟨?_, fun bindings b hb => ?_⟩⟩
    · cases hp.symm.trans (hun n root hn hroot)
    · obtain ⟨fault, hkind, h⟩ := hfault []
      exact ⟨fault, hkind, (failed_of_algebraic h).1 rfl⟩
    · obtain ⟨fault, hkind, h⟩ := hfault b
      exact ⟨fault, hkind, (failed_of_algebraic h).2 bindings hb⟩

/-- One plus a product that nothing feeds. -/
def looseSummand : List Edit := [
  .create (.text "number") .null .null, .setValue (.text "n1") (.int 1),
  .create (.text "add") .null .null, .create (.text "multiply") .null .null,
  .create (.text "output") .null .null,
  .connect (.text "n1") (.text "n2") (.int 0), .connect (.text "n3") (.text "n2") (.int 1),
  .connect (.text "n2") (.text "n4") (.int 0)]

/-- A sum with a loose operand is incomplete, and is joined. -/
theorem algebra_of_incomplete_summand :
    ∃ s, (run looseSummand {}).synthesize .null = .ok s ∧ s.complete = false ∧
      (∃ fault : Fault, (fault.IsOperandFault ∨ fault.IsPowerRefusal) ∧
        (run looseSummand {}).algebraicText .null = .error fault ∧
        (run looseSummand {}).simplified .null = .error fault) ∧
      ∃ fault : Fault, (fault.IsOperandFault ∨ fault.IsPowerRefusal) ∧
        (run looseSummand {}).evaluate (.record []) .null = .error fault := by
  have hread : ((run looseSummand {}).synthesize .null).toOption.map
      Synthesis.complete = some false := by
    decide +kernel
  obtain ⟨s, hs, hc⟩ := Option.map_eq_some_iff.1 hread
  rw [toOption_eq_some] at hs
  have hsome : (((run looseSummand {}).resolveSink .null).toOption.join.bind fun n =>
      ((run looseSummand {}).root? n).bind (Walk.producers? (run looseSummand {}))).isSome =
        true := by
    decide +kernel
  have hjoined : ¬ (run looseSummand {}).Unjoined .null := by
    intro h
    obtain ⟨lr, hlr⟩ := Option.isSome_iff_exists.1 hsome
    obtain ⟨n, hn, hlr⟩ := Option.bind_eq_some_iff.1 hlr
    obtain ⟨root, hroot, hlr⟩ := Option.bind_eq_some_iff.1 hlr
    rw [h n root (toOption_eq_some.1 (Option.join_eq_some_iff.1 hn)) hroot] at hlr
    cases hlr
  obtain ⟨hfault, hevaluate⟩ := (algebra_of_incomplete hs hc Expr.algebra).2 hjoined
  obtain ⟨b, -, hb⟩ := (accepts_nil _).checkedBindings Expr.algebra
  exact ⟨s, hs, hc, hfault, hevaluate (.record []) b hb⟩

/-- What comes out of the library for a sum with a loose operand is no refusal. -/
theorem algebra_of_looseSummand :
    (run looseSummand {}).algebraicText .null = .error (.datum .missingOperand) ∧
      (run looseSummand {}).simplified .null = .error (.datum .missingOperand) ∧
      (run looseSummand {}).evaluate (.record []) .null = .error (.datum .missingOperand) := by
  decide +kernel

end Diagram

end EquationStudio
