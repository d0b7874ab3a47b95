import EquationStudio.Proofs.Constraint.Arithmetic
import EquationStudio.Proofs.Diagram.Keyed
import EquationStudio.Proofs.Numeric.Literal

/-!
# Numbers that are set to their own labels

The number that is accepted for a datum need not be the one that was offered: large integers pass
through a double, and whole doubles below the limit become integers. But once accepted it is settled
(`Number.Settled`): it is exactly a finite double, and it is accepted as it is when it is offered
again, as a datum or as its literal. So two accepted numbers with one literal are the same
(`Number.eq_of_literal`), and a node whose number has just been set is left as it is by setting it
to its own label (`Diagram.Keyed.setValue_label`).
-/

namespace EquationStudio

/-! ## Accepted numbers -/

/-- A number to which nothing happens any more when it is written down and read. -/
structure Number.Settled (v : Number) : Prop where
  /-- It is exactly the finite double that it is converted to. -/
  finite : ∃ x : FiniteDouble, v.toDouble? = some x ∧ x.toRat = v.toRat
  /-- Offered as it is, it is accepted as the same number of the same kind. -/
  again : Number.ofDatum v.toDatum = .ok v
  /-- It can be written as a literal … -/
  written : v.toDatum.literal = .ok v.literal
  /-- … and is read from that. -/
  read : Number.ofDatum (.text v.literal) = .ok v

/-- The double that a whole double is converted to as an integer is that integer. -/
theorem FiniteDouble.toRat_of_toInt? {x : FiniteDouble} {n : Int}
    (h : x.toInt? = some n) : x.toRat = n :=
  Number.toInt?_eq_some_iff (v := .real x) |>.1 h

namespace Number

variable {d e : Datum} {v w : Number}

/-- An accepted number is settled. -/
theorem settled_of_ofDatum (h : ofDatum d = .ok v) : v.Settled := by
  refine ⟨?_, ofDatum_toDatum h, ?_, ofDatum_literal h⟩
  · obtain ⟨x, rfl⟩ := exists_ofFinite h
    obtain ⟨n, hn, -, -, he⟩ | ⟨-, he⟩ := ofFinite_cases x
    · -- As a double the integer may differ from `x` in the sign of zero only.
      refine ⟨⟨decide (n < 0), x.code⟩, ?_, ?_⟩
      · rw [he, toDouble?, FiniteDouble.ofInt?, FiniteDouble.ofInt_toInt? hn, Double.finite?]
      · rw [he, toRat, FiniteDouble.toRat_of_toInt? (FiniteDouble.toInt?_ofInt hn)]
    · exact ⟨x, by rw [he, toDouble?], by rw [he, toRat]⟩
  · obtain ⟨x, rfl⟩ := exists_ofFinite h
    obtain ⟨n, -, hlimit, -, he⟩ | ⟨-, he⟩ := ofFinite_cases x
    · have hdigits : ∀ k, 16 ≤ k → n.natAbs < Nat.pow 10 k := fun k hk =>
        hlimit.trans_le (Nat.pow_le_pow_right (by decide) hk)
      have hwritten : integerText n = .ok (toString n) := if_pos (hdigits writtenDigits (by decide))
      rw [he]
      exact hwritten
    · rw [he]
      rfl

/-- Accepted numbers with one literal are the same, also in kind. -/
theorem eq_of_literal (hv : ofDatum d = .ok v) (hw : ofDatum e = .ok w)
    (h : v.literal = w.literal) : v = w := by
  have hread := ofDatum_literal hv
  rw [h, ofDatum_literal hw] at hread
  exact (Except.ok.inj hread).symm

end Number

/-! ## Nodes -/

section
variable {g g' : Diagram} {id value : Datum} {n : Node}

/-- A node whose number has been set is set to its own label without any effect: the label is read
as the number that the node carries, and this meets the constraints that it met before. -/
theorem Diagram.Keyed.setValue_label (hg : g.Keyed) (h : g.setValue id value = .ok (n, g')) :
    g'.setValue id (.text n.label) = .ok (n, g') := by
  obtain ⟨m, w, v, hm, -, hread, hchecked, rfl, rfl⟩ := setValue_ok h
  obtain ⟨k, hk, hget⟩ := ok_of_bind hm
  obtain ⟨hkey, -, -⟩ := hg.node (Except.ok.inj hget)
  let m' : Node := { m with content := .number v, label := v.literal }
  have hfound : (g.replaceNode m').2.node? id = .ok (some m') := by
    rw [node?, hk, ok_bind, Diagram.replaceNode, Table.get?_insert, if_pos hkey.symm]
    rfl
  have hrequired : (g.replaceNode m').2.requireNode id = .ok m' := by
    rw [requireNode, hfound]
    rfl
  have hsame : (g.replaceNode m').2.replaceNode m' = (m', (g.replaceNode m').2) :=
    congrArg (fun nodes => (m', { g with nodes })) (Table.insert_insert g.nodes m.id.key m' m')
  rw [setValue, hrequired, ok_bind]
  show (do
    let v ← Number.ofDatum (.text v.literal)
    g.constraints.check id v.toDatum
    return (g.replaceNode m').2.replaceNode
      { m' with content := .number v, label := v.literal }) = _
  rw [Number.ofDatum_literal hread, ok_bind, hchecked, ok_bind]
  exact congrArg Except.ok hsame

end

/-- An accepted number is finite, is accepted as itself when it is offered again or read from its
literal, and has its literal for itself. So along any run of edits, when the number of a node has
been set to a datum, setting it to the label that the node has then changes nothing. -/
theorem Number.accepted_again {d : Datum} {v : Number} (h : ofDatum d = .ok v) :
    v.Settled ∧ (∀ e w, ofDatum e = .ok w → w.literal = v.literal → w = v) ∧
      ∀ edits supply id n g', (Diagram.run edits supply).setValue id d = .ok (n, g') →
        n.content = .number v ∧ n.label = v.literal ∧
        g'.setValue id (.text n.label) = .ok (n, g') := by
  refine ⟨settled_of_ofDatum h, fun e w hw => eq_of_literal hw h,
    fun edits supply id n g' hset => ?_⟩
  have hlabel := (Diagram.Keyed.run edits supply).setValue_label hset
  obtain ⟨m, w, v', -, -, hread, -, rfl, -⟩ := Diagram.setValue_ok hset
  cases hread.symm.trans h
  exact ⟨rfl, rfl, hlabel⟩

/-- An integer just above the limit is rounded to a double there, is labelled with an exponent, and
is set to that label again although the node must not be greater. -/
theorem Number.accepted_again_limit :
    let d : Datum := .int (10 ^ 16 + 1)
    let edits : List Edit := [.create (.text "number") .null .null,
      .addConstraint (.text "n1") (.record [("type", .text "less_than"),
      ("value", .int (10 ^ 16 + 1))])]
    ∃ v, ofDatum d = .ok v ∧ v.literal = "1e+16" ∧ v.Settled ∧
      ∃ n g', (Diagram.run edits {}).setValue (.text "n1") d = .ok (n, g') ∧ n.label = "1e+16" ∧
        g'.setValue (.text "n1") (.text "1e+16") = .ok (n, g') := by
  intro d edits
  have hread : (ofDatum d).toOption.any (fun v => v.literal = "1e+16") = true := by decide +kernel
  obtain ⟨v, hv, hliteral⟩ := (Option.any_eq_true _ _).1 hread
  have h : ofDatum d = .ok v := toOption_eq_some.1 hv
  have hliteral : v.literal = "1e+16" := of_decide_eq_true hliteral
  obtain ⟨hsettled, -, hagain⟩ := accepted_again h
  have hset : ((Diagram.run edits {}).setValue (.text "n1") d).toOption.isSome = true := by
    decide +kernel
  obtain ⟨⟨n, g'⟩, hset⟩ := Option.isSome_iff_exists.1 hset
  obtain ⟨-, hlabel, hlabelled⟩ := hagain edits {} (.text "n1") n g' (toOption_eq_some.1 hset)
  rw [hlabel, hliteral] at hlabelled
  exact ⟨v, h, hliteral, hsettled, n, g', toOption_eq_some.1 hset, hlabel.trans hliteral, hlabelled⟩

end EquationStudio
