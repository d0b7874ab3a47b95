import EquationStudio.Constraint.Arithmetic

/-!
# Conflicts between constraints

Two active constraints conflict if some simple reason shows that no number meets both. The reasons
are looked for in one order of the two, then in the other.
-/

namespace EquationStudio

/-- Why two constraints can never hold together. -/
inductive ConflictKind where
  | equalNotEqual
  | differentEqualValues
  | equalValueExcluded
  | nonOverlappingRanges
  | emptyInterval
  | oppositeSigns
  | oppositeParity
  deriving DecidableEq

/-- The name of a reason. -/
def ConflictKind.name : ConflictKind → String
  | equalNotEqual => "equal_not_equal_conflict"
  | differentEqualValues => "different_equal_values"
  | equalValueExcluded => "equal_value_excluded"
  | nonOverlappingRanges => "non_overlapping_ranges"
  | emptyInterval => "empty_interval"
  | oppositeSigns => "opposite_signs"
  | oppositeParity => "opposite_parity"

/-- The conflict of a constraint that fixes the value with another rule. -/
def Number.conflictWith (v : Number) (b : Rule) : Except Fault (Option ConflictKind) :=
  match b with
  | .comparison .notEqual w =>
    .ok (if v.scaled = w.scaled then some .equalNotEqual else none)
  | .comparison .equal w =>
    .ok (if v.scaled = w.scaled then none else some .differentEqualValues)
  | _ => return if ← b.admits v then none else some .equalValueExcluded

/-- The conflict of two rules, seen from the first. -/
def Rule.oneWayConflict (a b : Rule) : Except Fault (Option ConflictKind) :=
  match a, b with
  | .comparison .equal v, _ => v.conflictWith b
  | .range low high _ _, .range low' high' _ _ =>
    .ok (if high.scaled < low'.scaled ∨ high'.scaled < low.scaled then some .nonOverlappingRanges
      else none)
  | .comparison .greater v, .comparison .less w =>
    .ok (if w.scaled ≤ v.scaled then some .emptyInterval else none)
  | .sign s, .sign s' =>
    .ok (if (s = .positive ∧ s' = .negative) ∨ (s = .negative ∧ s' = .positive) then
      some .oppositeSigns else none)
  | .parity p, .parity p' => .ok (if p = p' then none else some .oppositeParity)
  | _, _ => .ok none

/-- The reason why two constraints can never hold together, if one is found. -/
def Constraint.findConflict (a b : Constraint) : Except Fault (Option ConflictKind) :=
  if a.active && b.active then do
    match ← a.rule.oneWayConflict b.rule with
    | some kind => return some kind
    | none => b.rule.oneWayConflict a.rule
  else .ok none

end EquationStudio
