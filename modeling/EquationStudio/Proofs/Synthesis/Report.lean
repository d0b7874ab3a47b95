import EquationStudio.Proofs.Constraint.Conflict
import EquationStudio.Proofs.Diagram.Consistent
import EquationStudio.Proofs.Synthesis.Grammar
import EquationStudio.Proofs.Synthesis.Walk
import EquationStudio.Synthesis.Report

/-!
# What a report says of a diagram

A report reads the diagram once more, from the sink that the synthesis chooses, and takes an empty
text to mean that nothing is behind the sink. This is right because no node has an empty text
(`Unfolds.text_ne_empty`) and because both choose the same sink, however many there are
(`Diagram.resolveSink_chosenSink`). `Diagram.report_decides` says what the errors of a report are,
for every diagram at the end of a run of edits: a cycle alone, or else what the synthesis lacks and
the numbers that break their constraints.
-/

namespace EquationStudio

/-! ## Errors -/

/-- The error about a cycle through the node of the given name. -/
def cycleError (name : String) : String := "Equation contains circular references (" ++ name ++ ")"

/-- The error about the node of the given name, which stands for itself. -/
def looseError (name : String) : String := "Node '" ++ name ++ "' has unconnected inputs"

/-- The error about a number node whose value breaks the rules of the given descriptions. -/
def violationError (n : Node) (v : Number) (rules : List String) : String :=
  "Node '" ++ n.ident ++ "' value " ++ v.literal ++ " violates: " ++ String.intercalate ", " rules

/-- What the errors of a report say of the sink of a synthesis. -/
def Synthesis.sinkErrors (s : Synthesis) : List String :=
  if !s.sink.isGiven then ["Add an OUTPUT node to generate equations"]
  else if s.expression = "" then ["The OUTPUT node has no input"]
  else []

/-- A text is told apart from errors about cycles by its first letter. -/
theorem ne_cycleError {error : String} (h : error.toList.head? ≠ some 'E') (name : String) :
    error ≠ cycleError name := by
  rintro rfl
  refine h ?_
  unfold cycleError
  rw [String.append_assoc, String.toList_append, List.head?_append]
  rfl

/-- Errors about cycles name the node. -/
theorem cycleError_inj {name name' : String}
    (h : cycleError name = cycleError name') : name = name' :=
  (String.append_right_inj _).1 ((String.append_left_inj _).1 h)

/-- An error about a loose node is not about a cycle. -/
theorem looseError_ne (name name' : String) : looseError name ≠ cycleError name' := by
  refine ne_cycleError ?_ _
  unfold looseError
  rw [String.append_assoc, String.toList_append, List.head?_append]
  exact nofun

/-- An error about a number is not about a cycle. -/
theorem violationError_ne (n : Node) (v : Number) (rules : List String) (name : String) :
    violationError n v rules ≠ cycleError name := by
  refine ne_cycleError ?_ _
  unfold violationError
  simp only [String.append_assoc]
  rw [String.toList_append, List.head?_append]
  exact nofun

/-- An error about the sink is not about a cycle. -/
theorem Synthesis.sinkErrors_ne (s : Synthesis) {error : String}
    (h : error ∈ s.sinkErrors) (name : String) : error ≠ cycleError name := by
  refine ne_cycleError ?_ _
  unfold sinkErrors at h
  split at h
  · rw [List.mem_singleton.1 h]
    exact nofun
  · split at h
    · rw [List.mem_singleton.1 h]
      exact nofun
    · cases h

/-! ## Numbers and their constraints -/

/-- A number that has a double is described. -/
theorem Number.exists_described {v : Number} (h : v.toDouble?.isSome = true) :
    ∃ s, v.described = .ok s := by
  cases v with
  | whole n => exact ⟨_, if_pos h⟩
  | real x =>
    rw [described]
    cases x.toInt? with
    | none => exact ⟨_, rfl⟩
    | some n => exact ⟨_, rfl⟩

/-- A rule whose numbers have doubles is described. -/
theorem Rule.exists_describe {r : Rule} (h : r.Convertible) : ∃ s, r.describe = .ok s := by
  cases r with
  | comparison relation bound =>
    obtain ⟨s, hs⟩ := Number.exists_described (h bound (.head _))
    cases relation <;> exact ⟨_, by rw [describe, hs]; rfl⟩
  | range low high =>
    obtain ⟨s, hs⟩ := Number.exists_described (h low (.head _))
    obtain ⟨s', hs'⟩ := Number.exists_described (h high (.tail _ (.head _)))
    exact ⟨_, by rw [describe, hs, hs']; rfl⟩
  | divisible divisor =>
    obtain ⟨s, hs⟩ := Number.exists_described (h divisor (.head _))
    exact ⟨_, by rw [describe, hs]; rfl⟩
  | sign s => cases s <;> exact ⟨_, rfl⟩
  | domain | prime | perfectSquare | parity | fibonacci => exact ⟨_, rfl⟩

namespace Registry

/-- The constraints of a list that a number breaks. -/
def breaches (v : Number) (cs : List Constraint) : List Constraint :=
  cs.filter fun c => (c.satisfies v.toDatum).toOption = some false

/-- A constraint whose numbers have doubles is asked without fail about a number that has one. -/
theorem exists_satisfies {v : Number} (hv : v.toDouble?.isSome = true) {c : Constraint}
    (hc : c.rule.Convertible) : ∃ holds, c.satisfies v.toDatum = .ok holds := by
  by_cases hactive : c.active = true
  · rw [Constraint.satisfies_toDatum hactive]
    exact Rule.exists_admits hc hv
  · exact ⟨true, if_neg hactive⟩

/-- What is found to be broken by a number is what the number breaks. -/
theorem broken_eq {v : Number} (hv : v.toDouble?.isSome = true) {cs : List Constraint}
    (h : ∀ c ∈ cs, c.rule.Convertible) :
    broken v.toDatum cs = .ok ((breaches v cs).map fun c => ⟨c, v.toDatum⟩) :=
  broken_of_answers fun c hc => exists_satisfies hv (h c hc)

/-- A number breaks none of the constraints exactly if it meets all that are active. -/
theorem breaches_eq_nil {v : Number} (hv : v.toDouble?.isSome = true) {cs : List Constraint}
    (h : ∀ c ∈ cs, c.rule.Convertible) :
    breaches v cs = [] ↔ ∀ c ∈ cs, c.active = true → c.rule.admits v = .ok true := by
  rw [breaches, List.filter_eq_nil_iff]
  refine forall₂_congr fun c hc => ?_
  rw [decide_eq_true_eq, toOption_eq_some]
  by_cases hactive : c.active = true
  · obtain ⟨holds, hholds⟩ := Rule.exists_admits (h c hc) hv
    rw [Constraint.satisfies_toDatum hactive, hholds]
    cases holds <;> simp [hactive]
  · rw [Constraint.satisfies, if_neg hactive]
    simp [hactive]

/-- Constraints whose numbers have doubles are described without fail. -/
theorem exists_descriptions : ∀ {cs : List Constraint}, (∀ c ∈ cs, c.rule.Convertible) →
    ∃ rules, cs.mapM Constraint.describe = .ok rules
  | [], _ => ⟨[], rfl⟩
  | c :: cs, h => by
    obtain ⟨hc, hcs⟩ := List.forall_mem_cons.1 h
    obtain ⟨rule, hrule⟩ := Rule.exists_describe hc
    obtain ⟨rules, hrules⟩ := exists_descriptions hcs
    exact ⟨rule :: rules, by rw [List.mapM_cons, Constraint.describe, hrule, hrules]; rfl⟩

end Registry

namespace Diagram

/-- The constraints at a node that the number it carries breaks. -/
def breachesAt (g : Diagram) (n : Node) : List Constraint :=
  match n.content with
  | .number v => Registry.breaches v (g.constraints.constraintsAt n.id.key)
  | _ => []

/-- The number nodes that break a constraint, in order of creation. -/
def offenders (g : Diagram) : List Node := (g.nodesOfKind .number).filter fun n =>
  g.breachesAt n ≠ []

/-- Every number in a diagram meets all active constraints of its node. -/
def MeetsConstraints (g : Diagram) : Prop :=
  ∀ n ∈ g.nodes.values, ∀ v, n.content = .number v → ∀ c ∈ g.constraints.constraintsAt n.id.key,
    c.active = true → c.rule.admits v = .ok true

/-- The constraints of a diagram state numbers that have doubles. -/
def ConvertibleConstraints (g : Diagram) : Prop :=
  ∀ a ∈ g.constraints.table.values, ∀ c ∈ a.constraints, c.rule.Convertible

instance (g : Diagram) : Decidable g.ConvertibleConstraints :=
  inferInstanceAs (Decidable (∀ a ∈ g.constraints.table.values, ∀ c ∈ a.constraints,
    c.rule.Convertible))

/-- The error about a node that breaks constraints: it shows the value and describes all that it
breaks. -/
def Offends (g : Diagram) (n : Node) (error : String) : Prop :=
  ∃ v rules, n.content = .number v ∧ (g.breachesAt n).mapM Constraint.describe = .ok rules ∧
    error = violationError n v rules

section
variable {g : Diagram}

/-- What a diagram's constraints state at a target. -/
theorem ConvertibleConstraints.at (h : g.ConvertibleConstraints) (k : Key) :
    ∀ c ∈ g.constraints.constraintsAt k, c.rule.Convertible := by
  intro c hc
  cases ha : g.constraints.table.get? k with
  | none =>
    rw [Registry.constraintsAt_of_none ha] at hc
    cases hc
  | some a =>
    rw [Registry.constraintsAt_of_get? ha] at hc
    exact h a (Table.mem_values.2 ⟨k, ha⟩) c hc

/-- The nodes that break constraints are reported, in order, and no others. -/
theorem numberErrors_eq (hc : g.ConvertibleConstraints) :
    ∀ {ns : List Node}, (∀ n ∈ ns, n.content.Valid) →
    ∃ errors, g.numberErrors ns = .ok errors ∧
      List.Forall₂ g.Offends (ns.filter fun n => g.breachesAt n ≠ []) errors
  | [], _ => ⟨[], rfl, .nil⟩
  | n :: ns, h => by
    obtain ⟨hn, hns⟩ := List.forall_mem_cons.1 h
    obtain ⟨errors, herrors, hall⟩ := numberErrors_eq hc hns
    rw [numberErrors]
    cases hcontent : n.content with
    | number v =>
      rw [hcontent] at hn
      have hat := hc.at n.id.key
      have hbreaches : g.breachesAt n = Registry.breaches v
          (g.constraints.constraintsAt n.id.key) := by
        rw [breachesAt, hcontent]
      have hviolations : g.constraints.violations n.id.datum v.toDatum =
          .ok ((g.breachesAt n).map fun c => ⟨c, v.toDatum⟩) := by
        rw [hbreaches, ← Registry.broken_eq (isSome_toDouble? hn) hat, Registry.violations,
          Registry.constraintsFor, n.id.made]
        rfl
      rw [List.filter_cons]
      simp only [hviolations, ok_bind, List.isEmpty_iff, List.map_eq_nil_iff, herrors]
      by_cases hnone : g.breachesAt n = []
      · rw [if_pos hnone, if_neg (by simpa using hnone)]
        exact ⟨errors, rfl, hall⟩
      · have hconvertible : ∀ c ∈ g.breachesAt n, c.rule.Convertible := fun c hc' =>
          hat c (List.mem_filter.1 (hbreaches ▸ hc')).1
        obtain ⟨rules, hrules⟩ := Registry.exists_descriptions hconvertible
        have hof : Registry.rulesOf ((g.breachesAt n).map fun c => ⟨c, v.toDatum⟩) = .ok rules := by
          rw [Registry.rulesOf, List.mapM_map]
          exact hrules
        rw [if_neg hnone, if_pos (by simpa using hnone), hof]
        exact ⟨violationError n v rules :: errors, rfl,
          .cons ⟨v, rules, hcontent, hrules, rfl⟩ hall⟩
    | symbol | binary | output =>
      have hnone : g.breachesAt n = [] := by rw [breachesAt, hcontent]
      rw [List.filter_cons, if_neg (by simpa using hnone)]
      exact ⟨errors, by simp only [herrors]; rfl, hall⟩

/-- Every error that is listed is about a node. -/
theorem exists_offends {ns : List Node} {errors : List String}
    (h : List.Forall₂ g.Offends ns errors) {error : String} (he : error ∈ errors) :
    ∃ n, g.Offends n error := by
  obtain ⟨n, -, hn⟩ := exists_mem_of_forall₂ h he
  exact ⟨n, hn⟩

/-- No node breaks a constraint exactly if all constraints are met. -/
theorem offenders_eq_nil (hg : g.WellFormed) (hc : g.ConvertibleConstraints) :
    g.offenders = [] ↔ g.MeetsConstraints := by
  simp only [offenders, nodesOfKind, List.filter_eq_nil_iff, List.mem_filter,
    decide_eq_true_eq, ne_eq, not_not, and_imp]
  refine forall₂_congr fun n hn => ?_
  cases hcontent : n.content with
  | number v =>
    have hvalid := (hg.valid (hg.mem_nodes.1 hn)).content
    rw [hcontent] at hvalid
    rw [Node.kind, breachesAt, hcontent]
    refine ⟨fun h w hw => ?_, fun h _ => ?_⟩
    · cases hw
      exact (Registry.breaches_eq_nil (isSome_toDouble? hvalid) (hc.at _)).1 (h rfl)
    · exact (Registry.breaches_eq_nil (isSome_toDouble? hvalid) (hc.at _)).2 (h v rfl)
  | symbol | binary | output =>
    rw [breachesAt, hcontent]
    simp

/-! ## The sink -/

/-- An output node is found by its identity. -/
theorem resolveSink_of_mem (hg : g.WellFormed) {n : Node} (hn : n ∈ g.sinks) :
    g.resolveSink n.id.datum = .ok (some n) := by
  obtain ⟨hn, hkind⟩ := List.mem_filter.1 hn
  have hnode := hg.mem_nodes.1 hn
  have hgiven : n.id.datum.isGiven = true := by rw [(hg.valid hnode).id_eq]; rfl
  rw [resolveSink, if_pos hgiven, node?, n.id.made, ok_bind, hg.get?_id hnode]
  exact if_pos (of_decide_eq_true hkind)

/-- A report and a synthesis choose the same sink. -/
theorem resolveSink_chosenSink (hg : g.WellFormed) (sink : Datum) :
    g.resolveSink (g.chosenSink sink).2 = g.resolveSink sink := by
  unfold chosenSink
  split
  · next first second rest hsinks =>
    split
    · rfl
    · next hgiven =>
      rw [resolveSink_of_mem hg (hsinks ▸ .head _), resolveSink, if_neg hgiven, hsinks]
      rfl
  · rfl

/-- A synthesis depends on the sink that is chosen only. -/
theorem synthesize_chosenSink (hg : g.WellFormed) (sink : Datum) :
    g.synthesize (g.chosenSink sink).2 = g.synthesize sink := by
  rw [synthesize, synthesize, resolveSink_chosenSink hg]

end

end Diagram

/-- The text behind a node is not empty. -/
theorem Unfolds.text_ne_empty {g : Diagram} (hg : g.WellFormed) {n : Node} {t : Formula}
    (h : Unfolds g n t) (hn : g.HasNode n) : t.text ≠ "" := by
  have hvalid := hg.valid hn
  have hcontent := hvalid.content
  cases h with
  | number => exact (Number.isTrimmed_literal _).2
  | symbol hname =>
    rw [hname] at hcontent
    exact (readVariable_text hcontent).2.2
  | join => simp [Formula.text, Operator.joined]
  | loose => exact hvalid.label.2

namespace Diagram

section
variable {g : Diagram}

/-- How the reading of a sink ends: with a cycle, or with a synthesis that is complete exactly if
there is nothing to be said of its sink and no node stands for itself. -/
theorem synthesize_cases (hg : g.Reachable) (hids : g.NamedWires) {sink : Datum}
    (hsink : sink = .null ∨ ∃ n ∈ g.sinks, sink = n.id.datum) :
    (∃ name path, g.synthesize sink = .error (.cycle name path)) ∨
      ∃ s names, g.synthesize sink = .ok s ∧ s.degraded = names.map Datum.text ∧ names.Nodup ∧
        (s.complete = true ↔ s.sinkErrors = [] ∧ names = []) := by
  have hwf := hg.wellFormed
  have hresolved : g.resolveSink sink = .ok none ∨
      ∃ n ∈ g.sinks, g.resolveSink sink = .ok (some n) := by
    obtain rfl | ⟨n, hn, rfl⟩ := hsink
    · cases hsinks : g.sinks with
      | nil => exact .inl (by rw [resolveSink, hsinks]; rfl)
      | cons first rest => exact .inr ⟨first, .head _, by rw [resolveSink, hsinks]; rfl⟩
    · exact .inr ⟨n, hn, resolveSink_of_mem hwf hn⟩
  obtain hnone | ⟨n, hn, hsome⟩ := hresolved
  · refine .inr ⟨⟨"", .null, false, []⟩, [], by rw [synthesize, hnone]; rfl, rfl, .nil, ?_⟩
    exact ⟨nofun, fun h => nomatch h.1⟩
  have hgiven : n.id.datum.isGiven = true := by
    rw [(hwf.valid (hwf.mem_nodes.1 (List.mem_filter.1 hn).1)).id_eq]
    rfl
  obtain ⟨p, -, hempty, hacyclic, hcyclic⟩ := walk_eq_fold hg hids textEmitter hn fun _ _ first _ =>
    answers_textEmitter g first
  by_cases hfed : ∃ first, g.Feeds first p
  · obtain ⟨first, hfeeds⟩ := hfed
    by_cases hcycle : g.CycleBehind first
    · obtain ⟨m, path, hwalk⟩ := hcyclic first hfeeds hcycle
      exact .inl ⟨m, path, by rw [synthesize, hsome, ok_bind]; simp only [hwalk, error_bind]⟩
    · obtain ⟨t, text, ht, hfold, hwalk, hnodup, hmem⟩ := hacyclic first hfeeds hcycle
      rw [Formula.fold_textEmitter, Except.ok.injEq] at hfold
      subst hfold
      have hid : ∀ m ∈ firsts t.looseNodes, m.id = .ofText m.ident := fun m hm =>
        (hwf.valid (hasNode_of_reaches hfeeds.1 ((hmem m).1 hm).1)).id_eq
      refine .inr ⟨⟨t.text, n.id.datum, (firsts t.looseNodes).isEmpty,
        (firsts t.looseNodes).map (·.id.datum)⟩,
        (firsts t.looseNodes).map Node.ident, ?_, ?_, ?_, ?_⟩
      · rw [synthesize, hsome, ok_bind]
        simp only [hwalk, ok_bind]
        rfl
      · rw [List.map_map]
        exact List.map_congr_left fun m hm => by rw [hid m hm]; rfl
      · rw [List.map_congr_left fun m hm => by rw [hid m hm]] at hnodup
        refine List.Nodup.of_map Key.text ?_
        rw [List.map_map]
        exact hnodup
      · have hsink : Synthesis.sinkErrors ⟨t.text, n.id.datum, (firsts t.looseNodes).isEmpty,
            (firsts t.looseNodes).map (·.id.datum)⟩ = [] := by
          rw [Synthesis.sinkErrors, hgiven, if_neg (by simp),
            if_neg (ht.text_ne_empty hwf hfeeds.1)]
        rw [hsink, List.map_eq_nil_iff, List.isEmpty_iff]
        exact ⟨fun h => ⟨rfl, h⟩, And.right⟩
  · refine .inr ⟨⟨"", n.id.datum, false, []⟩, [], ?_, rfl, .nil, ?_⟩
    · rw [synthesize, hsome, ok_bind]
      simp only [hempty fun m hm => hfed ⟨m, hm⟩, ok_bind]
      rfl
    · rw [Synthesis.sinkErrors, hgiven, if_neg (by simp), if_pos rfl]
      simp

/-- The report of a diagram whose reading meets a cycle. -/
theorem report_of_cycle (hg : g.WellFormed) {sink : Datum} {name : String} {path : List String}
    (h : g.synthesize sink = .error (.cycle name path)) :
    ∃ warnings, g.report sink = .ok ⟨[cycleError name], warnings⟩ := by
  refine ⟨(g.chosenSink sink).1, ?_⟩
  simp only [report, synthesize_chosenSink hg, h]
  rfl

/-- The report of a diagram that is read. -/
theorem report_of_synthesis (hg : g.WellFormed) (hc : g.ConvertibleConstraints)
    {sink : Datum} {s : Synthesis} {names : List String} (hs : g.synthesize sink = .ok s)
    (hnames : s.degraded = names.map Datum.text) :
    ∃ warnings violations, List.Forall₂ g.Offends g.offenders violations ∧
      g.report sink = .ok ⟨s.sinkErrors ++ names.map looseError ++ violations, warnings⟩ := by
  have hvalid : ∀ n ∈ g.nodesOfKind .number, n.content.Valid := fun n hn =>
    (hg.valid (hg.mem_nodes.1 (List.mem_filter.1 hn).1)).content
  obtain ⟨violations, hviolations, hall⟩ := numberErrors_eq hc hvalid
  have hlacks : synthesisErrors s = .ok (s.sinkErrors ++ names.map looseError) := by
    have hplain : (names.map Datum.text).mapM (fun id => do
        let name ← id.plain
        return s!"Node '{name}' has unconnected inputs") =
          (.ok (names.map looseError) : Except Fault _) := by
      clear hnames
      induction names with
      | nil => rfl
      | cons name names ih =>
        rw [List.map_cons, List.mapM_cons, ih]
        rfl
    rw [synthesisErrors, hnames, hplain]
    rfl
  refine ⟨(g.chosenSink sink).1 ++ g.divisionWarnings, violations, hall, ?_⟩
  simp only [report, synthesize_chosenSink hg, hs, hlacks, hviolations, ok_bind]
  rfl

/-- What a report says of a diagram that is read from a sink. -/
structure Reports (g : Diagram) (sink : Datum) (r : Report) : Prop where
  /-- It is valid exactly if the synthesis is complete and every number meets its constraints. -/
  valid : r.isValid = true ↔ (∃ s, g.synthesize sink = .ok s ∧ s.complete = true) ∧
    g.MeetsConstraints
  /-- A cycle is reported exactly if the synthesis fails with one, and at the same node … -/
  cycle : ∀ name, cycleError name ∈ r.errors ↔ ∃ path, g.synthesize sink = .error (.cycle name path)
  /-- … which is then the only error, and no other fault occurs. -/
  alone : ∀ fault, g.synthesize sink = .error fault →
    ∃ name path, fault = .cycle name path ∧ r.errors = [cycleError name]
  /-- Without a cycle there are an error for each node that stands for itself and one for each
  number node that breaks a constraint, after what is to be said of the sink. -/
  lacks : ∀ s, g.synthesize sink = .ok s → ∃ names violations : List String,
    s.degraded = names.map Datum.text ∧ names.Nodup ∧
      List.Forall₂ g.Offends g.offenders violations ∧
      r.errors = s.sinkErrors ++ names.map looseError ++ violations
  /-- What is valid has a text. -/
  text : r.isValid = true → ∃ s, g.synthesize sink = .ok s ∧ s.expression ≠ ""

/-- **A report agrees with the synthesis.** A diagram at the end of a run of edits, whose
connections are named and whose constraints state numbers that have doubles, is reported on without
fail, from the first output node or a chosen one; the errors are those of the synthesis and of the
numbers, and nothing else. -/
theorem report_decides (hg : g.Reachable) (hids : g.NamedWires)
    (hc : g.ConvertibleConstraints) {sink : Datum}
    (hsink : sink = .null ∨ ∃ n ∈ g.sinks, sink = n.id.datum) :
    ∃ r, g.report sink = .ok r ∧ g.Reports sink r := by
  have hwf := hg.wellFormed
  obtain ⟨name, path, hcycle⟩ | ⟨s, names, hs, hnames, hnodup, hcomplete⟩ :=
    synthesize_cases hg hids hsink
  · obtain ⟨warnings, hreport⟩ := report_of_cycle hwf hcycle
    refine ⟨_, hreport, ⟨nofun, ?_⟩, fun name' => ?_, ?_, ?_, nofun⟩
    · rintro ⟨⟨s, hs, -⟩, -⟩
      cases hcycle.symm.trans hs
    · rw [List.mem_singleton]
      constructor
      · intro he
        exact ⟨path, cycleError_inj he ▸ hcycle⟩
      · rintro ⟨path', hcycle'⟩
        cases hcycle.symm.trans hcycle'
        rfl
    · intro fault hfault
      cases hcycle.symm.trans hfault
      exact ⟨name, path, rfl, rfl⟩
    · intro s hs
      cases hcycle.symm.trans hs
  · obtain ⟨warnings, violations, hall, hreport⟩ := report_of_synthesis hwf hc hs hnames
    have hvalid : (⟨s.sinkErrors ++ names.map looseError ++ violations,
        warnings⟩ : Report).isValid = true ↔
        (s.sinkErrors = [] ∧ names = []) ∧ g.offenders = [] := by
      have hoffenders : violations = [] ↔ g.offenders = [] := by
        rw [← List.length_eq_zero_iff, ← List.length_eq_zero_iff, hall.length_eq]
      simp only [Report.isValid, List.isEmpty_iff, List.append_eq_nil_iff,
        List.map_eq_nil_iff, hoffenders]
    refine ⟨_, hreport, ?_, fun name => ?_, ?_, ?_, ?_⟩
    · rw [hvalid, ← hcomplete, offenders_eq_nil hwf hc]
      refine and_congr_left fun _ => ⟨fun h => ⟨s, hs, h⟩, ?_⟩
      rintro ⟨s', hs', h⟩
      cases hs.symm.trans hs'
      exact h
    · constructor
      · intro hmem
        rw [List.mem_append, List.mem_append] at hmem
        obtain (hmem | hmem) | hmem := hmem
        · exact absurd rfl (s.sinkErrors_ne hmem name)
        · obtain ⟨name', -, he⟩ := List.mem_map.1 hmem
          exact absurd he (looseError_ne name' name)
        · obtain ⟨n, v, rules, -, -, he⟩ := exists_offends hall hmem
          exact absurd he.symm (violationError_ne n v rules name)
      · rintro ⟨path, hcycle⟩
        cases hs.symm.trans hcycle
    · intro fault hfault
      cases hs.symm.trans hfault
    · intro s' hs'
      cases hs.symm.trans hs'
      exact ⟨names, violations, hnames, hnodup, hall, rfl⟩
    · intro h
      refine ⟨s, hs, fun hempty => ?_⟩
      have hsink := (hvalid.1 h).1.1
      rw [Synthesis.sinkErrors, hempty] at hsink
      split at hsink <;> cases hsink

end

/-- A diagram with a number that breaks its constraint, a loose node, and a loop behind a second
output: the report from the first output lists the loose node and the number, the one from the
second the loop. -/
theorem report_decides_loop :
    let g := run [
      .create (.text "number") .null (.text "a"), .setValue (.text "a") (.int 4),
      .addConstraint (.text "a") (.record [("type", .text "prime")]),
      .create (.text "add") .null (.text "s"), .create (.text "divide") .null (.text "d"),
      .create (.text "output") .null (.text "o"), .create (.text "power") .null (.text "u"),
      .create (.text "power") .null (.text "v"), .create (.text "output") .null (.text "w"),
      .connect (.text "a") (.text "s") (.int 0), .connect (.text "d") (.text "s") (.int 1),
      .connect (.text "s") (.text "o") (.int 0), .connect (.text "u") (.text "v") (.int 0),
      .connect (.text "v") (.text "u") (.int 0), .connect (.text "a") (.text "u") (.int 1),
      .connect (.text "s") (.text "v") (.int 1), .connect (.text "u") (.text "w") (.int 0)] {}
    g.Reachable ∧ g.NamedWires ∧ g.ConvertibleConstraints ∧
      (∃ r, g.report .null = .ok r ∧ g.Reports .null r ∧
        r.errors = [looseError "d", "Node 'a' value 4 violates: must be prime"]) ∧
      ∃ r, g.report (.text "w") = .ok r ∧ g.Reports (.text "w") r ∧
      r.errors = [cycleError "u"] := by
  intro g
  have hg : g.Reachable := ⟨_, _, by simp [Edit.Textual], rfl⟩
  have hids : g.NamedWires := by decide +kernel
  have hc : g.ConvertibleConstraints := by decide +kernel
  have hfirst : (g.report .null).toOption.map Report.errors =
      some [looseError "d", "Node 'a' value 4 violates: must be prime"] := by decide +kernel
  have hsecond : (g.report (.text "w")).toOption.map Report.errors = some [cycleError "u"] := by
    decide +kernel
  obtain ⟨r, hr, hreports⟩ := report_decides hg hids hc (.inl rfl)
  have hsink : Key.text "w" ∈ g.sinks.map (·.id.key) := by decide +kernel
  obtain ⟨n, hn, hkey⟩ := List.mem_map.1 hsink
  have hnamed : Datum.text "w" = n.id.datum := by rw [Identity.eq_ofText hkey]; rfl
  obtain ⟨r', hr', hreports'⟩ := report_decides hg hids hc (.inr ⟨n, hn, hnamed⟩)
  rw [hr] at hfirst
  rw [hr'] at hsecond
  exact ⟨hg, hids, hc, ⟨r, hr, hreports, Option.some.inj hfirst⟩, r', hr', hreports',
    Option.some.inj hsecond⟩

end Diagram

end EquationStudio
