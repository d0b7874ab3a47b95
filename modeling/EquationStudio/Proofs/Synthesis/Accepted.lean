import EquationStudio.Proofs.Numeric.Literal
import EquationStudio.Proofs.Synthesis.Found

/-!
# From a diagram and values to a form

Before an expression is worked out, the values for its variables are checked against the diagram's
constraints and then read. `Diagram.Accepts` says which mappings of values come through both, and
`SymbolicAlgebra.find?_readBindings` what each name is bound to: the rational that its value is
written as. With these the algebra builds a form of the formula behind the sink (`Formula.Builds`),
and evaluating the diagram asks for the value of that (`Diagram.evaluate_eq`).
-/

namespace EquationStudio

namespace SymbolicAlgebra

variable {A : SymbolicAlgebra} {values : Fields} {b : A.Bindings}

/-- A value that is read is bound, if it is a number, and passed over if it stands for none. -/
theorem readBindings_cons {f : String × Datum} (hb : A.readBindings (f :: values) = .ok b) :
    ∃ b', A.readBindings values = .ok b' ∧ ((∀ v, Number.ofDatum f.2 ≠ .ok v) ∧ b = b' ∨
      ∃ v, Number.ofDatum f.2 = .ok v ∧ b = (f.1, A.rational v.literalValue) :: b') := by
  obtain ⟨name, d⟩ := f
  cases d with
  | null | list | record =>
    obtain ⟨-, -, hb⟩ := ok_of_bind hb
    exact ⟨b, hb, .inl ⟨nofun, rfl⟩⟩
  | bool | int | float | text =>
    obtain ⟨v, hv, hb⟩ := ok_of_bind hb
    obtain ⟨b', hb', hb⟩ := ok_of_bind hb
    cases hb
    exact ⟨b', hb', .inr ⟨v, hv, rfl⟩⟩

/-- Values all of which are numbers are read. -/
theorem exists_readBindings (h : ∀ f ∈ values, ∃ v, Number.ofDatum f.2 = .ok v) :
    ∃ b, A.readBindings values = .ok b := by
  induction values with
  | nil => exact ⟨[], rfl⟩
  | cons f values ih =>
    obtain ⟨⟨v, hv⟩, hrest⟩ := List.forall_mem_cons.1 h
    obtain ⟨b, hb⟩ := ih hrest
    obtain ⟨name, d⟩ := f
    cases d with
    | null | list | record => cases hv
    | bool | int | float | text =>
      refine ⟨(name, A.rational v.literalValue) :: b, ?_⟩
      rw [readBindings]
      · rw [hv, ok_bind, hb, ok_bind]
        rfl
      all_goals nofun

/-- Values that are read bind each name to the decimal that its value is written as. -/
theorem find?_readBindings {name : String} {d : Datum} {v : Number}
    (hb : A.readBindings values = .ok b) (hd : Fields.get? values name = some d)
    (hv : Number.ofDatum d = .ok v) :
    (b.find? (·.1 == name)).map Prod.snd = some (A.rational v.literalValue) := by
  induction values generalizing b with
  | nil => cases hd
  | cons f values ih =>
    obtain ⟨b', hb', hcons⟩ := readBindings_cons hb
    rw [Fields.get?, List.find?_cons] at hd
    by_cases hname : f.1 = name
    · simp only [hname, beq_self_eq_true, Option.map_some] at hd
      cases hd
      obtain ⟨hnone, -⟩ | ⟨v', hv', rfl⟩ := hcons
      · exact absurd hv (hnone v)
      · cases hv.symm.trans hv'
        simp [hname]
    · simp only [beq_eq_false_iff_ne.2 hname] at hd
      obtain ⟨-, rfl⟩ | ⟨v', -, rfl⟩ := hcons
      · exact ih hb' hd
      · rw [List.find?_cons, beq_eq_false_iff_ne.2 hname]
        exact ih hb' hd

end SymbolicAlgebra

namespace Diagram

/-- Values that may be bound: the editor takes each for a number, and each meets the constraints of
every variable of its name. -/
structure Accepts (g : Diagram) (values : Fields) : Prop where
  numbers : ∀ f ∈ values, ∃ v, Number.ofDatum f.2 = .ok v
  constraints : ∀ n ∈ g.nodes.values, ∀ name d v, n.content = .symbol name →
    Fields.get? values name = some d → Number.ofDatum d = .ok v →
      g.constraints.check n.id.datum v.toDatum = .ok ()

/-- No values may always be bound. -/
theorem accepts_nil (g : Diagram) : g.Accepts [] :=
  ⟨fun _ hf => absurd hf List.not_mem_nil, fun _ _ _ _ _ _ hd => absurd hd nofun⟩

namespace Accepts

variable {g : Diagram} {values : Fields}

/-- Values that may be bound break no constraints. -/
theorem checkBindings (h : g.Accepts values) :
    ∀ {ns : List Node}, (∀ n ∈ ns, n ∈ g.nodes.values) → g.checkBindings values ns = .ok ()
  | [], _ => rfl
  | n :: ns, hns => by
    obtain ⟨hn, hns⟩ := List.forall_mem_cons.1 hns
    rw [Diagram.checkBindings]
    cases hcontent : n.content with
    | number | binary | output => exact h.checkBindings hns
    | symbol name =>
      dsimp only
      cases hd : Fields.get? values name with
      | none => exact h.checkBindings hns
      | some d =>
        obtain ⟨f, hf, rfl⟩ := Option.map_eq_some_iff.1 hd
        obtain ⟨v, hv⟩ := h.numbers f (List.mem_of_find?_eq_some hf)
        dsimp only
        rw [hv, ok_bind, h.constraints n hn name _ v hcontent hd hv, ok_bind]
        exact h.checkBindings hns

/-- Values that may be bound are read. -/
theorem checkedBindings (h : g.Accepts values) (A : SymbolicAlgebra) :
    ∃ b, A.readBindings values = .ok b ∧ g.checkedBindings A (.record values) = .ok (.ok b) := by
  obtain ⟨b, hb⟩ := A.exists_readBindings h.numbers
  have hcheck : g.checkBindings values (g.nodesOfKind .symbol) = .ok () :=
    h.checkBindings fun n hn => (List.mem_filter.1 hn).1
  refine ⟨b, hb, ?_⟩
  rw [Diagram.checkedBindings, hcheck, ok_bind, hb]
  rfl

end Accepts

end Diagram

/-! ## What the algebra builds -/

/-- The algebra builds a form of a formula, with values for some variables. -/
def Formula.Builds {A : SymbolicAlgebra} (b : A.Bindings) (t : Formula) (e : A.Form) : Prop :=
  t.fold (A.emitter b) = .ok (some e)

namespace Formula.Builds

variable {A : SymbolicAlgebra} {b : A.Bindings} {op : Operator} {left right t : Formula}
  {e f : A.Form}

/-- Of a formula one form is built at most. -/
theorem unique (h : t.Builds b e) (h' : t.Builds b f) : e = f :=
  Option.some.inj (Except.ok.inj (h.symm.trans h'))

/-- An operation on forms that are built. -/
theorem fold_join (hl : left.Builds b e) (hr : right.Builds b f) :
    (join op left right).fold (A.emitter b) = A.combine op (some e) (some f) := by
  rw [fold, hl, ok_bind, hr, ok_bind]
  rfl

/-- A power of forms that are built, within the bound. -/
theorem power (hl : left.Builds b e) (hr : right.Builds b f)
    (h : A.boundedPower e f = .ok (A.pow e f)) : (join .power left right).Builds b (A.pow e f) := by
  rw [Builds, hl.fold_join hr, SymbolicAlgebra.combine, SymbolicAlgebra.powerOfOperands, h]
  rfl

end Formula.Builds

namespace Formula

/-- What the algebra makes of a literal. -/
theorem builds_number {A : SymbolicAlgebra} {b : A.Bindings} {v : Number} {q : ℚ}
    (h : decimal? v.literal = some q) : (number v).Builds b (A.rational q) := by
  rw [Number.decimal?_literal] at h
  cases h
  rfl

/-- What the algebra makes of a variable that is bound. -/
theorem builds_symbol {A : SymbolicAlgebra} {values : Fields} {b : A.Bindings}
    (hb : A.readBindings values = .ok b) {name : String} {d : Datum} {v : Number} {q : ℚ}
    (hd : Fields.get? values name = some d) (hv : Number.ofDatum d = .ok v)
    (h : decimal? v.literal = some q) : (symbol name).Builds b (A.rational q) := by
  rw [Number.decimal?_literal] at h
  cases h
  rw [Builds, fold, SymbolicAlgebra.emitter]
  dsimp only
  rw [SymbolicAlgebra.find?_readBindings hb hd hv]
  rfl

end Formula

/-- A formula that is read is found. -/
theorem Reads.finds {g : Diagram} {n : Node} {t : Formula} (h : Reads g n t) : Finds g n t := by
  induction h with
  | number h => exact .number h
  | symbol h => exact .symbol h
  | join h hp _ _ ihl ihr => exact .join h hp ihl ihr

namespace Diagram

variable {g : Diagram} {sink : Datum} {s : Synthesis} {t : Formula}

/-- The formula behind a sink, with the nodes in it that lack a producer. -/
def Shows (g : Diagram) (sink : Datum) (t : Formula) : Prop :=
  ∃ n root, g.resolveSink sink = .ok (some n) ∧ g.root? n = some root ∧ Finds g root t

/-- What a diagram expresses is found behind its sink. -/
theorem Expresses.shows (h : g.Expresses sink t) : g.Shows sink t := by
  obtain ⟨n, root, hn, hroot, ht⟩ := h
  exact ⟨n, root, hn, hroot, ht.finds⟩

/-- The algebraic form behind a sink is what the algebra makes of the formula there, if it is
complete. -/
theorem Keyed.algebraic_of_shows (hg : g.Keyed) (hs : g.synthesize sink = .ok s)
    (ht : g.Shows sink t) (A : SymbolicAlgebra) : (s.complete = true ↔ t.looseNodes = []) ∧
      ∀ b, g.algebraic A (.ok b) sink =
        (t.fold (A.emitter b)).map fun a => if s.complete then a else none := by
  obtain ⟨n, root, hn, hroot, hfinds⟩ := ht
  obtain ⟨-, hnothing, -⟩ | ⟨n', root', t', hn', hroot', -, hfinds', hloose, halgebraic⟩ :=
    hg.algebraic_eq hs A
  · exact absurd hroot (hnothing n root hn)
  · cases hn.symm.trans hn'
    cases hroot.symm.trans hroot'
    obtain rfl := hfinds.unique hfinds'
    exact ⟨hloose, halgebraic⟩

/-- Evaluating a complete diagram asks for the value of what the algebra has built. -/
theorem evaluate_eq (hg : g.Keyed) (hs : g.synthesize sink = .ok s) (hc : s.complete = true)
    (ht : g.Expresses sink t) {A : SymbolicAlgebra} {bindings : Datum} {b : A.Bindings}
    (hb : g.checkedBindings A bindings = .ok (.ok b)) : g.evaluate bindings sink A = (do
      match ← t.fold (A.emitter b) with
      | some e => A.value e
      | none => .error (.refusal .incomplete)) := by
  rw [evaluate, hb, ok_bind, completeAlgebraic, (hg.algebraic_of_shows hs ht.shows A).2]
  cases t.fold (A.emitter b) with
  | error => rfl
  | ok a =>
    rw [Except.map, if_pos hc]
    cases a <;> rfl

/-- Bindings that come through the checks are read. -/
theorem readBindings_of_checked {A : SymbolicAlgebra} {bindings : Datum} {b : A.Bindings}
    (h : g.checkedBindings A bindings = .ok (.ok b)) :
    A.readBindings bindings.asFields = .ok b := by
  unfold checkedBindings at h
  split at h
  · obtain ⟨-, -, h⟩ := ok_of_bind h
    exact Except.ok.inj h
  · next hother =>
    have hnone : bindings.asFields = [] := by
      unfold Datum.asFields
      split
      · exact absurd rfl (hother _)
      · rfl
    rw [hnone]
    split at h
    · obtain ⟨-, -, h⟩ := ok_of_bind h
      cases Except.ok.inj h
    · exact Except.ok.inj h

/-- What is evaluated has an algebraic form, of which the value is taken. -/
theorem of_evaluate {A : SymbolicAlgebra} {bindings : Datum} {x : Double}
    (h : g.evaluate bindings sink A = .ok x) : ∃ b e, g.checkedBindings A bindings = .ok b ∧
      g.algebraic A b sink = .ok (some e) ∧ A.value e = .ok x := by
  obtain ⟨b, hb, h⟩ := ok_of_bind h
  obtain ⟨e, he, hx⟩ := ok_of_bind h
  obtain ⟨a, ha, he⟩ := ok_of_bind he
  cases a with
  | none => cases he
  | some e' =>
    cases he
    exact ⟨b, e, hb, ha, hx⟩

end Diagram

end EquationStudio
