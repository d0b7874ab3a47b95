import EquationStudio.Proofs.Diagram.Damaged
import EquationStudio.Proofs.Synthesis.Incomplete
import EquationStudio.Proofs.Synthesis.Laws

/-!
# Why a complete expression has no simplified form

A formula without loose nodes has an algebraic form unless it has a power with too many digits
(`Formula.fold_of_looseNodes_nil`). So a complete diagram has a simplified form, or such a power is
refused, or it divides by zero, or the algebra cannot simplify or write what it has made
(`Diagram.Keyed.fault_of_simplified`).
-/

namespace EquationStudio

/-! ## The algebraic form -/

section
variable {A : SymbolicAlgebra}

/-- An operation on operands that are not missing gives one, or it is a power with too many
digits. -/
theorem SymbolicAlgebra.combine_some (op : Operator) (a c : A.Form) :
    (∃ e, A.combine op (some a) (some c) = .ok (some e)) ∨
      ∃ fault, A.combine op (some a) (some c) = .error fault ∧ fault.IsPowerRefusal := by
  cases op with
  | add | subtract | multiply | divide => exact .inl ⟨_, rfl⟩
  | power =>
    cases hpower : A.boundedPower a c with
    | ok e => exact .inl ⟨e, by rw [combine, powerOfOperands, hpower]; rfl⟩
    | error fault =>
      have hrefused := isPowerRefusal_of_boundedPower hpower
      exact .inr ⟨fault, by rw [combine, powerOfOperands, hpower]; rfl, hrefused⟩

/-- A formula without loose nodes has an algebraic form, or it has a power with too many digits. -/
theorem Formula.fold_of_looseNodes_nil {b : A.Bindings} {t : Formula} (h : t.looseNodes = []) :
    (∃ e, t.fold (A.emitter b) = .ok (some e)) ∨
      ∃ fault, t.fold (A.emitter b) = .error fault ∧ fault.IsPowerRefusal := by
  induction t with
  | number | symbol => exact .inl ⟨_, rfl⟩
  | loose => cases h
  | join op left right ihl ihr =>
    rw [looseNodes, List.append_eq_nil_iff] at h
    rw [fold]
    obtain ⟨a, ha⟩ | ⟨fault, hfault, hpower⟩ := ihl h.1
    · rw [ha, ok_bind]
      obtain ⟨c, hc⟩ | ⟨fault, hfault, hpower⟩ := ihr h.2
      · rw [hc, ok_bind]
        exact A.combine_some op a c
      · exact .inr ⟨fault, by rw [hfault]; rfl, hpower⟩
    · exact .inr ⟨fault, by rw [hfault]; rfl, hpower⟩

end

/-! ## The simplified form -/

namespace Diagram

variable {g : Diagram} {sink : Datum} {s : Synthesis} {A : SymbolicAlgebra}

/-- A complete diagram has an algebraic form, or it has a power with too many digits. -/
theorem Keyed.completeAlgebraic_of_complete (hkeyed : g.Keyed) (hs : g.synthesize sink = .ok s)
    (hcomplete : s.complete = true) (b : A.Bindings) :
    (∃ e, g.completeAlgebraic A (.ok b) sink = .ok e) ∨
      ∃ fault, g.completeAlgebraic A (.ok b) sink = .error fault ∧ fault.IsPowerRefusal := by
  obtain ⟨hincomplete, -⟩ | ⟨_, _, t, -, -, -, -, hloose, halgebraic⟩ := hkeyed.algebraic_eq hs A
  · cases hcomplete.symm.trans hincomplete
  · rw [completeAlgebraic, halgebraic]
    obtain ⟨e, he⟩ | ⟨fault, hfault, hpower⟩ :=
      t.fold_of_looseNodes_nil (b := b) (hloose.1 hcomplete)
    · exact .inl ⟨e, by rw [he, Except.map, if_pos hcomplete]; rfl⟩
    · exact .inr ⟨fault, by rw [hfault]; rfl, hpower⟩

/-- A complete diagram has no simplified form only for too many digits, for a division by zero, or
because the algebra fails. -/
theorem Keyed.fault_of_simplified (hkeyed : g.Keyed) (hs : g.synthesize sink = .ok s)
    (hcomplete : s.complete = true) {fault : Fault} (h : g.simplified sink A = .error fault) :
    fault.IsPowerRefusal ∨ fault = .refusal .dividesByZero ∨
      ∃ d, A.Raises d ∧ fault = .datum d := by
  unfold simplified at h
  obtain h | ⟨e, -, h⟩ := error_of_bind h
  · obtain ⟨e, he⟩ | ⟨fault', hfault, hpower⟩ :=
      hkeyed.completeAlgebraic_of_complete (A := A) hs hcomplete []
    · cases he.symm.trans h
    · cases hfault.symm.trans h
      exact .inl hpower
  obtain h | ⟨e', -, h⟩ := error_of_bind h
  · obtain ⟨d, hd, rfl⟩ := error_of_mapError h
    exact .inr (.inr ⟨d, .inr ⟨e, hd⟩, rfl⟩)
  split at h
  · cases h
    exact .inr (.inl rfl)
  obtain h | ⟨_, -, h⟩ := error_of_bind h
  · obtain ⟨d, hd, rfl⟩ := error_of_mapError h
    exact .inr (.inr ⟨d, .inl ⟨e', hd⟩, rfl⟩)
  · cases h

end Diagram

end EquationStudio
