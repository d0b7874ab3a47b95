import EquationStudio.Proofs.Constraint.Conflict
import Mathlib.Order.MinMax

/-!
# Ranges without a common number

Two ranges are compared by their bounds alone, whether these are included or not: a conflict is
found if one range ends before the other begins (`Range.Precedes`), and no other is. No number lies
in both ranges in two more cases. One range may end where the other begins, and one of the two
exclude that bound (`Range.Abuts`); or their common part may be an open gap between two neighbouring
doubles (`Range.ShareGap`). There are no further cases (`Constraint.ranges_apart_iff`).
-/

namespace EquationStudio

/-- The numbers between two bounds, each of which may be included. -/
structure Range where
  low : Number
  high : Number
  lowInclusive : Bool
  highInclusive : Bool

namespace Range

/-- The rule that a range states. -/
def rule (r : Range) : Rule := .range r.low r.high r.lowInclusive r.highInclusive

/-- A number lies in a range. -/
def Has (r : Range) (v : Number) : Prop := r.rule.admits v = .ok true

/-- The first range ends before the second begins. -/
def Precedes (r s : Range) : Prop := r.high.scaled < s.low.scaled

/-- The first range ends where the second begins, and one of the two excludes that bound. -/
def Abuts (r s : Range) : Prop :=
  r.high.scaled = s.low.scaled ∧ ¬ (r.highInclusive = true ∧ s.lowInclusive = true)

/-- The range begins at a value that it excludes. -/
def OpensAt (r : Range) (n : Int) : Prop := r.low.scaled = n ∧ r.lowInclusive = false

/-- The range ends at a value that it excludes. -/
def ClosesAt (r : Range) (n : Int) : Prop := r.high.scaled = n ∧ r.highInclusive = false

/-- The common part of two ranges excludes both of its ends, and there is no number between them. -/
structure ShareGap (r s : Range) : Prop where
  lt : max r.low.scaled s.low.scaled < min r.high.scaled s.high.scaled
  opens : r.OpensAt (max r.low.scaled s.low.scaled) ∨ s.OpensAt (max r.low.scaled s.low.scaled)
  closes : r.ClosesAt (min r.high.scaled s.high.scaled) ∨
    s.ClosesAt (min r.high.scaled s.high.scaled)
  empty : ∀ v : Number, ¬ (max r.low.scaled s.low.scaled < v.scaled ∧
    v.scaled < min r.high.scaled s.high.scaled)

variable {r s : Range} {v : Number}

/-- A number lies in a range if it is between the bounds and is not a bound that is excluded. -/
theorem has_iff : r.Has v ↔ (r.low.scaled ≤ v.scaled ∧ v.scaled ≤ r.high.scaled) ∧
    ¬ r.OpensAt v.scaled ∧ ¬ r.ClosesAt v.scaled := by
  obtain ⟨low, high, lowInclusive, highInclusive⟩ := r
  cases lowInclusive <;> cases highInclusive <;>
    simp [Has, rule, Rule.admits, OpensAt, ClosesAt] <;> omega

/-- A range that has a number does not end before it begins, and includes its bounds if they are
one. -/
theorem Has.bounds (h : r.Has v) : r.low.scaled ≤ r.high.scaled ∧
    (r.low.scaled = r.high.scaled → r.lowInclusive = true ∧ r.highInclusive = true) := by
  obtain ⟨⟨hlow, hhigh⟩, hopens, hcloses⟩ := has_iff.1 h
  refine ⟨hlow.trans hhigh, fun hsingle => ⟨?_, ?_⟩⟩
  · by_contra hexcludes
    exact hopens ⟨by omega, Bool.eq_false_iff.2 hexcludes⟩
  · by_contra hexcludes
    exact hcloses ⟨by omega, Bool.eq_false_iff.2 hexcludes⟩

/-- No number lies in two ranges of which one ends before the other begins. -/
theorem Precedes.apart (h : r.Precedes s) : ¬ (r.Has v ∧ s.Has v) := by
  rintro ⟨hr, hs⟩
  have hhigh := (has_iff.1 hr).1.2
  have hlow := (has_iff.1 hs).1.1
  unfold Precedes at h
  omega

/-- No number lies in two ranges that meet in a bound which one of them excludes. -/
theorem Abuts.apart (h : r.Abuts s) : ¬ (r.Has v ∧ s.Has v) := by
  rintro ⟨hr, hs⟩
  obtain ⟨hmeet, hexcludes⟩ := h
  obtain ⟨⟨-, hhigh⟩, -, hcloses⟩ := has_iff.1 hr
  obtain ⟨⟨hlow, -⟩, hopens, -⟩ := has_iff.1 hs
  refine hexcludes ⟨?_, ?_⟩
  · by_contra hopen
    exact hcloses ⟨by omega, Bool.eq_false_iff.2 hopen⟩
  · by_contra hopen
    exact hopens ⟨by omega, Bool.eq_false_iff.2 hopen⟩

/-- No number lies in two ranges that share a gap. -/
theorem ShareGap.apart (h : r.ShareGap s) : ¬ (r.Has v ∧ s.Has v) := by
  rintro ⟨hr, hs⟩
  obtain ⟨⟨hlow, hhigh⟩, hopens, hcloses⟩ := has_iff.1 hr
  obtain ⟨⟨hlow', hhigh'⟩, hopens', hcloses'⟩ := has_iff.1 hs
  have hleft : max r.low.scaled s.low.scaled ≠ v.scaled := by
    intro heq
    obtain hopen | hopen := h.opens
    · exact hopens (heq ▸ hopen)
    · exact hopens' (heq ▸ hopen)
  have hright : min r.high.scaled s.high.scaled ≠ v.scaled := by
    intro heq
    obtain hclose | hclose := h.closes
    · exact hcloses (heq ▸ hclose)
    · exact hcloses' (heq ▸ hclose)
  exact h.empty v ⟨by omega, by omega⟩

/-- The greater of the two beginnings is the value of a bound. -/
theorem exists_low (r s : Range) : ∃ v : Number, v.scaled = max r.low.scaled s.low.scaled := by
  obtain h | h := max_choice r.low.scaled s.low.scaled
  · exact ⟨r.low, h.symm⟩
  · exact ⟨s.low, h.symm⟩

/-- The lesser of the two ends is the value of a bound. -/
theorem exists_high (r s : Range) : ∃ v : Number, v.scaled = min r.high.scaled s.high.scaled := by
  obtain h | h := min_choice r.high.scaled s.high.scaled
  · exact ⟨r.high, h.symm⟩
  · exact ⟨s.high, h.symm⟩

/-- A range that has a number and excludes its beginning, where the other range ends at the latest,
begins where that one ends. -/
theorem OpensAt.abuts {n : Int} (h : r.OpensAt n) (hr : ∃ v, r.Has v)
    (hn : n = min r.high.scaled s.high.scaled) : s.Abuts r := by
  obtain ⟨hlow, hexcludes⟩ := h
  obtain ⟨v, hv⟩ := hr
  obtain ⟨hle, hsingle⟩ := hv.bounds
  have hne : r.low.scaled ≠ r.high.scaled := by
    intro heq
    rw [(hsingle heq).1] at hexcludes
    cases hexcludes
  refine ⟨by omega, fun hincludes => ?_⟩
  rw [hincludes.2] at hexcludes
  cases hexcludes

/-- A range that has a number and excludes its end, where the other range begins at the earliest,
ends where that one begins. -/
theorem ClosesAt.abuts {n : Int} (h : r.ClosesAt n) (hr : ∃ v, r.Has v)
    (hn : n = max r.low.scaled s.low.scaled) : r.Abuts s := by
  obtain ⟨hhigh, hexcludes⟩ := h
  obtain ⟨v, hv⟩ := hr
  obtain ⟨hle, hsingle⟩ := hv.bounds
  have hne : r.low.scaled ≠ r.high.scaled := by
    intro heq
    rw [(hsingle heq).2] at hexcludes
    cases hexcludes
  refine ⟨by omega, fun hincludes => ?_⟩
  rw [hincludes.1] at hexcludes
  cases hexcludes

/-- Two ranges that meet in one value, which is not in both, meet in a bound that one of them
excludes. -/
theorem abuts_of_meet (hr : ∃ v, r.Has v) (hs : ∃ v, s.Has v)
    (hmeet : max r.low.scaled s.low.scaled = min r.high.scaled s.high.scaled)
    (hnone : ∀ v, ¬ (r.Has v ∧ s.Has v)) : r.Abuts s ∨ s.Abuts r := by
  obtain ⟨v, hv⟩ := exists_low r s
  by_contra hneither
  obtain ⟨hrs, hsr⟩ := not_or.1 hneither
  refine hnone v ⟨has_iff.2 ⟨by omega, fun h => ?_, fun h => ?_⟩,
    has_iff.2 ⟨by omega, fun h => ?_, fun h => ?_⟩⟩
  · exact hsr (h.abuts hr (hv.trans hmeet))
  · exact hrs (h.abuts hr hv)
  · exact hrs (h.abuts hs (by rw [hv, hmeet, min_comm]))
  · exact hsr (h.abuts hs (by rw [hv, max_comm]))

/-- Two ranges that overlap, but have no number in common, share a gap. -/
theorem shareGap_of_overlap (hlt : max r.low.scaled s.low.scaled < min r.high.scaled s.high.scaled)
    (hnone : ∀ v, ¬ (r.Has v ∧ s.Has v)) : r.ShareGap s := by
  have hinside : ∀ v : Number, max r.low.scaled s.low.scaled < v.scaled →
      v.scaled < min r.high.scaled s.high.scaled → False := by
    intro v hlow hhigh
    refine hnone v ⟨has_iff.2 ⟨by omega, ?_, ?_⟩, has_iff.2 ⟨by omega, ?_, ?_⟩⟩ <;>
      rintro ⟨heq, -⟩ <;> omega
  refine ⟨hlt, ?_, ?_, fun v hv => hinside v hv.1 hv.2⟩
  · obtain ⟨v, hv⟩ := exists_low r s
    by_contra hneither
    obtain ⟨hr, hs⟩ := not_or.1 hneither
    rw [← hv] at hr hs
    refine hnone v ⟨has_iff.2 ⟨by omega, hr, ?_⟩, has_iff.2 ⟨by omega, hs, ?_⟩⟩ <;>
      rintro ⟨heq, -⟩ <;> omega
  · obtain ⟨v, hv⟩ := exists_high r s
    by_contra hneither
    obtain ⟨hr, hs⟩ := not_or.1 hneither
    rw [← hv] at hr hs
    refine hnone v ⟨has_iff.2 ⟨by omega, ?_, hr⟩, has_iff.2 ⟨by omega, ?_, hs⟩⟩ <;>
      rintro ⟨heq, -⟩ <;> omega

/-- Two ranges that each have a number have none in common exactly if one ends before the other
begins, or where it begins without including that bound, or if they share a gap. -/
theorem apart_iff (hr : ∃ v, r.Has v) (hs : ∃ v, s.Has v) : (∀ v, ¬ (r.Has v ∧ s.Has v)) ↔
    (r.Precedes s ∨ s.Precedes r) ∨ (r.Abuts s ∨ s.Abuts r) ∨ r.ShareGap s := by
  constructor
  · intro hnone
    by_cases hprecedes : r.Precedes s ∨ s.Precedes r
    · exact .inl hprecedes
    · obtain ⟨v, hv⟩ := hr
      obtain ⟨w, hw⟩ := hs
      have hrle := hv.bounds.1
      have hsle := hw.bounds.1
      unfold Precedes at hprecedes
      have hle : max r.low.scaled s.low.scaled ≤ min r.high.scaled s.high.scaled := by omega
      obtain hlt | heq := lt_or_eq_of_le hle
      · exact .inr (.inr (shareGap_of_overlap hlt hnone))
      · exact .inr (.inl (abuts_of_meet ⟨v, hv⟩ ⟨w, hw⟩ heq hnone))
  · rintro ((h | h) | (h | h) | h) v ⟨hv, hv'⟩
    · exact h.apart ⟨hv, hv'⟩
    · exact h.apart ⟨hv', hv⟩
    · exact h.apart ⟨hv, hv'⟩
    · exact h.apart ⟨hv', hv⟩
    · exact h.apart ⟨hv, hv'⟩

instance (r s : Range) : Decidable (r.Precedes s) := inferInstanceAs (Decidable (_ < _))

end Range

namespace Constraint

variable {a b : Constraint} {r s : Range}

/-- A datum satisfies an active constraint of a range if it is a number that lies in it. -/
theorem satisfies_range (ha : a.active = true) (hr : a.rule = r.rule) {d : Datum} :
    a.satisfies d = .ok true ↔ ∃ v, Number.ofNumeric? d = some v ∧ r.Has v := by
  constructor
  · intro h
    obtain ⟨v, hv, hadmits⟩ := admits_of_satisfies ha h
    rw [hr] at hadmits
    exact ⟨v, hv, hadmits⟩
  · rintro ⟨v, hv, hhas⟩
    rw [satisfies, if_pos ha, hv]
    exact hr ▸ hhas

/-- Two active constraints of ranges are found to be in conflict exactly if one range ends before
the other begins. -/
theorem findConflict_range (ha : a.active = true) (hb : b.active = true) (hr : a.rule = r.rule)
    (hs : b.rule = s.rule) : a.findConflict b =
      .ok (if r.Precedes s ∨ s.Precedes r then some .nonOverlappingRanges else none) := by
  have hone : ∀ r s : Range, r.rule.oneWayConflict s.rule =
      .ok (if r.Precedes s ∨ s.Precedes r then some .nonOverlappingRanges else none) :=
        fun _ _ => rfl
  rw [findConflict, ha, hb, Bool.and_self, if_pos rfl, hr, hs, hone, ok_bind]
  by_cases hprecedes : r.Precedes s ∨ s.Precedes r
  · rw [if_pos hprecedes]
    rfl
  · rw [if_neg hprecedes, hone s r, if_neg fun h => hprecedes h.symm]

/-- Two active constraints of ranges, each of which some datum satisfies, are found to be in
conflict exactly if one range ends before the other begins. No datum satisfies both in that case,
and further exactly if one range ends where the other begins and either of them excludes that bound,
or if they share a gap. -/
theorem ranges_apart_iff {a b : Constraint} {r s : Range} (ha : a.active = true)
    (hb : b.active = true) (hr : a.rule = r.rule) (hs : b.rule = s.rule)
    (hsome : ∃ d, a.satisfies d = .ok true) (hsome' : ∃ d, b.satisfies d = .ok true) :
    a.findConflict b =
        .ok (if r.Precedes s ∨ s.Precedes r then some .nonOverlappingRanges else none) ∧
      ((∀ d, ¬ (a.satisfies d = .ok true ∧ b.satisfies d = .ok true)) ↔
        (r.Precedes s ∨ s.Precedes r) ∨ (r.Abuts s ∨ s.Abuts r) ∨ r.ShareGap s) := by
  obtain ⟨d, hd⟩ := hsome
  obtain ⟨v, -, hv⟩ := (satisfies_range ha hr).1 hd
  obtain ⟨d', hd'⟩ := hsome'
  obtain ⟨w, -, hw⟩ := (satisfies_range hb hs).1 hd'
  refine ⟨findConflict_range ha hb hr hs, ?_⟩
  rw [← Range.apart_iff ⟨v, hv⟩ ⟨w, hw⟩]
  constructor
  · rintro hnone v ⟨hv, hv'⟩
    refine hnone v.toDatum ⟨?_, ?_⟩
    · exact (satisfies_range ha hr).2 ⟨v, Number.ofNumeric?_toDatum v, hv⟩
    · exact (satisfies_range hb hs).2 ⟨v, Number.ofNumeric?_toDatum v, hv'⟩
  · rintro hnone d ⟨hd, hd'⟩
    obtain ⟨v, hv, hr⟩ := (satisfies_range ha hr).1 hd
    obtain ⟨w, hw, hs⟩ := (satisfies_range hb hs).1 hd'
    cases hv.symm.trans hw
    exact hnone v ⟨hr, hs⟩

/-- The active constraint of a range. -/
def ofRange (id : Datum) (r : Range) (h : r.low.scaled ≤ r.high.scaled) : Constraint where
  id
  active := true
  kind := .range
  terms :=
    { minimum := r.low.toDatum, maximum := r.high.toDatum, minInclusive := r.lowInclusive,
      maxInclusive := r.highInclusive }
  rule := r.rule
  stated := by
    obtain ⟨low, high, lowInclusive, highInclusive⟩ := r
    cases low <;> cases high <;> exact if_neg (Int.not_lt.2 h)

/-- From zero up to one, without one. -/
def belowOne : Constraint :=
  ofRange (.text "a") ⟨.whole 0, .whole 1, true, false⟩ (by decide +kernel)

/-- From one up to two. -/
def fromOne : Constraint := ofRange (.text "b") ⟨.whole 1, .whole 2, true, true⟩ (by decide +kernel)

/-- Data satisfy each of two ranges that meet in a bound which the first of them excludes, but none
satisfies both. -/
theorem ranges_apart_iff_abutting :
    (∃ d, belowOne.satisfies d = .ok true) ∧ (∃ d, fromOne.satisfies d = .ok true) ∧
      ¬ ∃ d, belowOne.satisfies d = .ok true ∧ fromOne.satisfies d = .ok true := by
  have hbelow : ∃ d, belowOne.satisfies d = .ok true := ⟨.int 0, by decide +kernel⟩
  have hfrom : ∃ d, fromOne.satisfies d = .ok true := ⟨.int 1, by decide +kernel⟩
  obtain ⟨-, hapart⟩ := ranges_apart_iff (a := belowOne) (b := fromOne) rfl rfl rfl rfl hbelow hfrom
  refine ⟨hbelow, hfrom, not_exists.2 (hapart.2 (.inr (.inl (.inl ⟨rfl, ?_⟩))))⟩
  exact fun h => nomatch h.1

/-- Each of the two ranges admits a number and no number lies in both, but no conflict is found. -/
theorem ranges_apart_unnoticed :
    (∃ d, belowOne.satisfies d = .ok true) ∧ (∃ d, fromOne.satisfies d = .ok true) ∧
      (∀ d, ¬ (belowOne.satisfies d = .ok true ∧ fromOne.satisfies d = .ok true)) ∧
      belowOne.findConflict fromOne = .ok none ∧ fromOne.findConflict belowOne = .ok none := by
  have habuts : Range.Abuts ⟨.whole 0, .whole 1, true, false⟩ ⟨.whole 1, .whole 2, true, true⟩ :=
    ⟨rfl, fun hincludes => nomatch hincludes.1⟩
  refine ⟨⟨.int 0, by decide +kernel⟩, ⟨.int 1, by decide +kernel⟩, ?_, by decide +kernel,
    by decide +kernel⟩
  rintro d ⟨hd, hd'⟩
  obtain ⟨v, hv, hr⟩ := (satisfies_range (a := belowOne) rfl rfl).1 hd
  obtain ⟨w, hw, hs⟩ := (satisfies_range (a := fromOne) rfl rfl).1 hd'
  cases hv.symm.trans hw
  exact habuts.apart ⟨hr, hs⟩

end Constraint

end EquationStudio
