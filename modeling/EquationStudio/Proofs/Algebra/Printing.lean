import EquationStudio.Algebra.Printing
import EquationStudio.Proofs.Diagram.Damaged

/-!
# Which expressions have no text

Writing an expression fails for nothing but an integer in it with too many digits
(`Expr.fault_of_text`).
-/

namespace EquationStudio

/-- An integer is not written only if it has too many digits. -/
theorem fault_of_writtenInteger {n : Int} {fault : DatumFault}
    (h : writtenInteger n = .error fault) : fault = .tooManyDigits := by
  obtain ⟨-, -, rfl⟩ := error_of_mapError h
  rfl

/-- A rational is not written only if it has too many digits. -/
theorem fault_of_writtenRational {q : Rat} {fault : DatumFault}
    (h : writtenRational q = .error fault) : fault = .tooManyDigits := by
  unfold writtenRational at h
  split at h
  · exact fault_of_writtenInteger h
  · obtain h | ⟨_, -, h⟩ := error_of_bind h
    · exact fault_of_writtenInteger h
    obtain h | ⟨_, -, h⟩ := error_of_bind h
    · exact fault_of_writtenInteger h
    · cases h

namespace Expr

mutual

/-- An expression is not written only for a rational with too many digits. -/
theorem fault_of_textWithin : ∀ {fuel : Nat} {e : Expr} {fault : DatumFault},
    textWithin fuel e = .error fault → fault = .tooManyDigits
  | 0, _, _, h => by cases h
  | fuel + 1, e, fault, h => by
    cases e with
    | number q => exact fault_of_writtenRational h
    | undefined | infinite | imaginary | symbol => cases h
    | power b x =>
      rw [textWithin] at h
      split at h
      · obtain h | ⟨_, -, h⟩ := error_of_bind h
        · exact fault_of_textWithin h
        · cases h
      split at h
      · obtain h | ⟨_, -, h⟩ := error_of_bind h
        · exact fault_of_textWithin h
        · cases h
      split at h
      · obtain h | ⟨_, -, h⟩ := error_of_bind h
        · exact fault_of_operandWithin h
        · cases h
      · obtain h | ⟨_, -, h⟩ := error_of_bind h
        · exact fault_of_operandWithin h
        obtain h | ⟨_, -, h⟩ := error_of_bind h
        · exact fault_of_operandWithin h
        · cases h
    | product fs =>
      rw [textWithin] at h
      obtain h | ⟨_, -, h⟩ := error_of_bind h
      · exact fault_of_operandsWithin h
      obtain h | ⟨below, -, h⟩ := error_of_bind h
      · exact fault_of_operandsWithin h
      split at h <;> cases h
    | sum ts =>
      rw [textWithin] at h
      obtain h | ⟨shown, -, h⟩ := error_of_bind h
      · exact fault_of_termsWithin h
      split at h <;> cases h

/-- An operand is not written only for a rational with too many digits. -/
theorem fault_of_operandWithin : ∀ {fuel : Nat} {level : Binding} {e : Expr} {fault : DatumFault},
    operandWithin fuel level e = .error fault → fault = .tooManyDigits
  | 0, _, _, _, h => by cases h
  | fuel + 1, level, e, fault, h => by
    obtain h | ⟨_, -, h⟩ := error_of_bind h
    · exact fault_of_textWithin h
    · cases h

/-- Operands are not written only for a rational with too many digits. -/
theorem fault_of_operandsWithin :
    ∀ {fuel : Nat} {level : Binding} {es : List Expr} {fault : DatumFault},
    operandsWithin fuel level es = .error fault → fault = .tooManyDigits
  | 0, _, _, _, h => by cases h
  | fuel + 1, _, [], _, h => by cases h
  | fuel + 1, level, e :: es, fault, h => by
    obtain h | ⟨_, -, h⟩ := error_of_bind h
    · exact fault_of_operandWithin h
    obtain h | ⟨_, -, h⟩ := error_of_bind h
    · exact fault_of_operandsWithin h
    · cases h

/-- Terms are not written only for a rational with too many digits. -/
theorem fault_of_termsWithin : ∀ {fuel : Nat} {ts : List Expr} {fault : DatumFault},
    termsWithin fuel ts = .error fault → fault = .tooManyDigits
  | 0, _, _, h => by cases h
  | fuel + 1, [], _, h => by cases h
  | fuel + 1, t :: ts, fault, h => by
    obtain h | ⟨_, -, h⟩ := error_of_bind h
    · exact fault_of_textWithin h
    obtain h | ⟨_, -, h⟩ := error_of_bind h
    · exact fault_of_termsWithin h
    · cases h

end

/-- An expression has no text only for a rational with too many digits. -/
theorem fault_of_text {e : Expr} {fault : DatumFault} (h : e.text = .error fault) :
    fault = .tooManyDigits :=
  fault_of_textWithin h

end Expr

end EquationStudio
