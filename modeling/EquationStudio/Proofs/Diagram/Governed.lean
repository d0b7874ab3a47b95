import EquationStudio.Proofs.Diagram.Owned
import EquationStudio.Proofs.Diagram.Rebuild
import EquationStudio.Proofs.Diagram.Routed
import EquationStudio.Proofs.Synthesis.Report

/-!
# Numbers and the constraints they were set under

Constraints are looked at when a number is set, and a constraint is attached without a look at the
number. So a number may come to break a constraint, but only one that is attached after the number
was set: nothing but setting it changes the number of a node (`Edit.carries_apply`), and what a
constraint asks for never changes, so that taking it away and attaching it again makes no
difference.

`Diagram.Governed` says this of one key along a run of edits, whatever data the identities are, and
`Diagram.run_governed` proves it of every run. What was last set is the number of a node that has
been there ever since (`Diagram.LastSet`): a node that is created under the key of one that was
removed has not been set.
-/

namespace EquationStudio

/-- A number stands under a key of a diagram. -/
def Diagram.Carries (g : Diagram) (k : Key) (v : Number) : Prop :=
  ∃ n, g.nodes.get? k = some n ∧ n.content = .number v

/-- An edit sets the number under a key, and is not refused. -/
inductive Edit.Sets (g : Diagram) (k : Key) (v : Number) : Edit → Prop
  | intro {id value : Datum} {n : Node} {g' : Diagram} (key : id.key = .ok k)
      (accepted : g.setValue id value = .ok (n, g')) (carried : n.content = .number v) :
      Sets g k v (.setValue id value)

/-! ## One edit -/

section
variable {g : Diagram} {k : Key} {v w : Number}

/-- A node that is found stands under the key it is found by. -/
theorem Diagram.Keyed.key_of_node? (hg : g.Keyed) {id : Datum} {n : Node} (hk : id.key = .ok k)
    (hn : g.node? id = .ok (some n)) : n.id.key = k := by
  obtain ⟨k', hk', hget⟩ := ok_of_bind hn
  cases hk.symm.trans hk'
  exact (hg.node (Except.ok.inj hget)).1

/-- The number under a key stays when a node is replaced, unless it is the number of that node. -/
theorem Diagram.Carries.replaceNode (h : g.Carries k w) {n m : Node} (hn : g.Holds n)
    (hid : m.id = n.id) (hm : n.id.key = k → n.content = .number w → m.content = .number w) :
    (g.replaceNode m).2.Carries k w := by
  obtain ⟨n', hn', hw⟩ := h
  rw [Diagram.Carries, Diagram.replaceNode]
  dsimp only
  rw [Table.get?_insert]
  split
  · next hk =>
    rw [hid] at hk
    rw [hk] at hn'
    cases hn.symm.trans hn'
    exact ⟨m, rfl, hm hk.symm hw⟩
  · exact ⟨n', hn', hw⟩

/-- What setting a number does: it is checked against the constraints under the key, they are left,
and the number stands there. -/
theorem Edit.Sets.effect {e : Edit} {s : Diagram × Supply} (h : e.Sets s.1 k v) (hg : s.1.Keyed) :
    (e.apply s).1.Carries k v ∧ (e.apply s).1.constraints = s.1.constraints ∧
      ∀ c ∈ s.1.constraints.constraintsAt k, c.satisfies v.toDatum = .ok true := by
  obtain ⟨hkey, haccepted, hcarried⟩ := h
  obtain ⟨n, w, v', hn, -, -, hchecked, rfl, rfl⟩ := Diagram.setValue_ok haccepted
  cases hcarried
  rw [apply, haccepted]
  refine ⟨⟨{ n with content := .number v, label := v.literal }, ?_, rfl⟩, rfl,
    Registry.satisfies_of_check hkey hchecked⟩
  have hk : n.id.key = k := hg.key_of_node? hkey hn
  exact (Table.get?_insert _ _ _ _).trans (if_pos hk.symm)

/-- Setting a value leaves the number under a key unless it sets that number. -/
theorem Diagram.Keyed.carries_setValue (hg : g.Keyed) (h : g.Carries k w) {id value : Datum}
    (hnot : ∀ v, ¬ (Edit.setValue id value).Sets g k v) :
    (g.after (g.setValue id value)).Carries k w := by
  cases hanswer : g.setValue id value with
  | error _ => exact h
  | ok answer =>
    obtain ⟨m, g'⟩ := answer
    obtain ⟨n, w', v, hn, -, -, -, rfl, rfl⟩ := Diagram.setValue_ok hanswer
    refine h.replaceNode (hg.holds_of_node? hn) rfl fun hk _ => ?_
    obtain ⟨k', hkey, -⟩ := ok_of_bind hn
    obtain rfl : k' = k := (hg.key_of_node? hkey hn).symm.trans hk
    exact absurd (.intro hkey hanswer rfl) (hnot v)

/-- **An edit changes the number of a node by setting it and in no other way.** Whatever else it
does to the diagram, the number under a key is the same after it, unless the edit sets another or
the node is gone. -/
theorem Edit.carries_apply (e : Edit) {s : Diagram × Supply} (hg : s.1.Keyed) (h : s.1.Carries k w)
    (hstands : (e.apply s).1.nodes.get? k ≠ none) :
    ∃ v, (e.apply s).1.Carries k v ∧ (v = w ∨ e.Sets s.1 k v) := by
  by_cases hset : ∃ v, e.Sets s.1 k v
  · obtain ⟨v, hv⟩ := hset
    exact ⟨v, (hv.effect hg).1, .inr hv⟩
  refine ⟨w, ?_, .inl rfl⟩
  obtain ⟨n', hn', hw⟩ := id h
  have hmakes := e.apply_makes s
  generalize hmade : (e.apply s).1 = g' at hstands hmakes ⊢
  cases hmakes with
  | same nodes => exact ⟨n', nodes ▸ hn', hw⟩
  | @create _ _ _ n i new =>
    refine ⟨n', ?_, hw⟩
    rw [Diagram.addNode]
    dsimp only
    rw [Table.get?_insert, if_neg fun hk => ?_, hn']
    rw [hk] at hn'
    cases new.symm.trans hn'
  | setValue =>
    rw [← hmade]
    exact hg.carries_setValue h fun v hv => hset ⟨v, hv⟩
  | setVariable held carried =>
    refine h.replaceNode (hg.holds_of_node? held) rfl fun _ hw => ?_
    cases carried.symm.trans hw
  | setLabel _ held => exact h.replaceNode (hg.holds_of_node? held) rfl fun _ => id
  | move _ held => exact h.replaceNode (hg.holds_of_node? held) rfl fun _ => id
  | @removeNode _ n =>
    rw [(Diagram.dropNode_tables s.1 n).1, Table.get?_erase] at hstands
    refine ⟨n', ?_, hw⟩
    rw [(Diagram.dropNode_tables s.1 n).1, Table.get?_erase]
    split
    · next hk => exact absurd (if_pos hk) hstands
    · exact hn'
  | addConnection | connect | removeConnection => exact ⟨n', hn', hw⟩
  | clear => exact absurd rfl hstands

end

namespace Diagram

/-! ## A run of edits -/

/-- The diagram after the first edits of a run. -/
def moment (edits : List Edit) (supply : Supply) (i : Nat) : Diagram := run (edits.take i) supply

/-- The edit at a place of a run sets the number under a key. -/
def SetsAt (edits : List Edit) (supply : Supply) (k : Key) (i : Nat) (v : Number) : Prop :=
  ∃ e, edits[i]? = some e ∧ e.Sets (moment edits supply i) k v

/-- Of the edits of a run before a moment, the one at the given place is the last that sets the
number under a key, and the node has not been gone since. -/
structure LastSet (edits : List Edit) (supply : Supply) (k : Key) (i j : Nat)
    (v : Number) : Prop where
  set : SetsAt edits supply k i v
  before : i < j
  stands : ∀ m, i < m → m ≤ j → (moment edits supply m).nodes.get? k ≠ none
  last : ∀ m w, i < m → m < j → ¬ SetsAt edits supply k m w

/-- What a report says of the numbers of a diagram: if it does not tell of a cycle alone, it gives,
after what the synthesis lacks, for each node that breaks constraints an error that describes those
that it breaks. -/
def ListsBreaches (g : Diagram) (sink : Datum) (r : Report) : Prop :=
  (∃ name, r.errors = [cycleError name]) ∨
    ∃ s lacks violations, g.synthesize (g.chosenSink sink).2 = .ok s ∧
      synthesisErrors s = .ok lacks ∧
      List.Forall₂ g.Offends g.offenders violations ∧ r.errors = lacks ++ violations

/-- How the constraints at a key govern the number under it, along a run of edits. -/
structure Governed (edits : List Edit) (supply : Supply) (k : Key) : Prop where
  /-- A number that is set stands, and satisfies every active constraint that is attached. -/
  accepted : ∀ i v, SetsAt edits supply k i v → (moment edits supply (i + 1)).Carries k v ∧
    (moment edits supply (i + 1)).constraints.constraintsAt k =
      (moment edits supply i).constraints.constraintsAt k ∧
    ∀ c ∈ (moment edits supply (i + 1)).constraints.constraintsAt k,
      c.active = true → c.rule.admits v = .ok true
  /-- A node that carries a number carries the same one after the next edit, unless that sets
  another. -/
  changes : ∀ i w, (moment edits supply i).Carries k w →
    (moment edits supply (i + 1)).nodes.get? k ≠ none →
    ∃ v, (moment edits supply (i + 1)).Carries k v ∧ (v = w ∨ SetsAt edits supply k i v)
  /-- The number that was set last stands, and what was attached then and is attached now holds of
  it … -/
  holds : ∀ i j v, LastSet edits supply k i j v → (moment edits supply j).Carries k v ∧
    ∀ c ∈ (moment edits supply j).constraints.constraintsAt k,
      c ∈ (moment edits supply i).constraints.constraintsAt k → c.satisfies v.toDatum = .ok true
  /-- … so whatever it breaks was attached after it was set, … -/
  breaks : ∀ i j v n, LastSet edits supply k i j v → (moment edits supply j).nodes.get? k = some n →
    ∀ c ∈ (moment edits supply j).breachesAt n,
      c ∈ (moment edits supply j).constraints.constraintsAt k ∧
        c ∉ (moment edits supply i).constraints.constraintsAt k
  /-- … and a report describes for each number what it breaks, if the constraints state numbers that
  have doubles. -/
  reported : ∀ j sink r, (moment edits supply j).ConvertibleConstraints →
    (moment edits supply j).report sink = .ok r → (moment edits supply j).ListsBreaches sink r
  /-- A copy is itself at the end of a run of edits, and governed like any other. -/
  copied : ∀ j s s' g, (moment edits supply j).copy s = (.ok g, s') → ∃ edits', run edits' s = g

section
variable {edits : List Edit} {supply : Supply} {k : Key} {i j : Nat} {v w : Number}

/-- At every moment of a run the diagram is keyed. -/
theorem keyed_moment (edits : List Edit) (supply : Supply) (i : Nat) :
    (moment edits supply i).Keyed :=
  .run _ _

/-- From one moment to the next an edit is made, unless the run is over. -/
theorem moment_succ (edits : List Edit) (supply : Supply) (i : Nat) :
    edits[i]? = none ∧ moment edits supply (i + 1) = moment edits supply i ∨
      ∃ e s, edits[i]? = some e ∧ s.1 = moment edits supply i ∧
        moment edits supply (i + 1) = (e.apply s).1 := by
  unfold moment run
  rw [List.take_add_one, List.foldl_append]
  cases edits[i]? with
  | none => exact .inl ⟨rfl, rfl⟩
  | some e => exact .inr ⟨e, _, rfl, rfl, rfl⟩

/-- What setting a number does to the diagram of the next moment. -/
theorem SetsAt.effect (h : SetsAt edits supply k i v) : (moment edits supply (i + 1)).Carries k v ∧
    (moment edits supply (i + 1)).constraints = (moment edits supply i).constraints ∧
    ∀ c ∈ (moment edits supply i).constraints.constraintsAt k,
    c.satisfies v.toDatum = .ok true := by
  obtain ⟨e, he, hsets⟩ := h
  obtain ⟨hover, -⟩ | ⟨e', s, he', hs, hnext⟩ := moment_succ edits supply i
  · cases hover.symm.trans he
  cases he.symm.trans he'
  rw [hnext, ← hs]
  rw [← hs] at hsets
  exact hsets.effect (hs ▸ keyed_moment edits supply i)

/-- A number that stands at one moment stands at the next, unless the edit between sets another. -/
theorem Carries.next (h : (moment edits supply i).Carries k w)
    (hstands : (moment edits supply (i + 1)).nodes.get? k ≠ none) :
    ∃ v, (moment edits supply (i + 1)).Carries k v ∧ (v = w ∨ SetsAt edits supply k i v) := by
  obtain ⟨-, hsame⟩ | ⟨e, s, he, hs, hnext⟩ := moment_succ edits supply i
  · exact ⟨w, hsame ▸ h, .inl rfl⟩
  rw [hnext] at hstands ⊢
  obtain ⟨v, hv, hcause⟩ := e.carries_apply (hs ▸ keyed_moment edits supply i) (hs ▸ h) hstands
  exact ⟨v, hv, hcause.imp_right fun hsets => ⟨e, he, hs ▸ hsets⟩⟩

/-- The number that was set last stands. The induction is on the moment from which it is looked
at. -/
theorem LastSet.carries (h : LastSet edits supply k i j v) :
    (moment edits supply j).Carries k v := by
  obtain ⟨hset, hbefore, hstands, hlast⟩ := h
  induction j, hbefore using Nat.le_induction with
  | base => exact hset.effect.1
  | succ j hij ih =>
    have hcarries : (moment edits supply j).Carries k v :=
      ih (fun m him hmj => hstands m him (Nat.le_succ_of_le hmj))
        fun m w him hmj => hlast m w him (Nat.lt_succ_of_lt hmj)
    obtain ⟨w, hw, rfl | hsets⟩ := hcarries.next (hstands (j + 1) (Nat.lt_succ_of_lt hij) le_rfl)
    · exact hw
    · exact absurd hsets (hlast j w hij (Nat.lt_succ_self j))

/-- A report on a diagram whose constraints state numbers that have doubles describes what its
numbers break. -/
theorem Keyed.listsBreaches {g : Diagram} (hg : g.Keyed)
    (hc : g.ConvertibleConstraints) {sink : Datum}
    {r : Report} (h : g.report sink = .ok r) : g.ListsBreaches sink r := by
  have hvalid : ∀ n ∈ g.nodesOfKind .number, n.content.Valid := fun n hn =>
    (hg.node (hg.mem_nodes.1 (List.mem_filter.1 hn).1)).2.2
  obtain ⟨violations, hviolations, hall⟩ := numberErrors_eq hc hvalid
  unfold report at h
  dsimp only at h
  split at h
  · next name path _ =>
    cases h
    exact .inl ⟨name, rfl⟩
  · cases h
  · next s hs =>
    obtain ⟨lacks, hlacks, h⟩ := ok_of_bind h
    rw [hviolations] at h
    cases h
    exact .inr ⟨s, lacks, violations, hs, hlacks, hall, rfl⟩

/-- What a node breaks is attached to it, and is known to fail for its number. -/
theorem mem_breachesAt {g : Diagram} {n : Node} (hn : n.content = .number v) {c : Constraint} :
    c ∈ g.breachesAt n ↔
      c ∈ g.constraints.constraintsAt n.id.key ∧ c.satisfies v.toDatum = .ok false := by
  rw [breachesAt, hn]
  exact List.mem_filter.trans (and_congr_right fun _ => by rw [decide_eq_true_eq, toOption_eq_some])

end

/-- **Only constraints that are attached after a number was set can be broken by it.** Along every
run of edits, and for every key, a number is set only if it satisfies the active constraints there,
it is changed in no other way, and until it is set again it satisfies all that were attached when it
was set, so that a report tells of later ones only. -/
theorem run_governed (edits : List Edit) (supply : Supply) (k : Key) : Governed edits supply k := by
  have hholds : ∀ i j v, LastSet edits supply k i j v →
      ∀ c ∈ (moment edits supply i).constraints.constraintsAt k, c.satisfies v.toDatum = .ok true :=
    fun i j v h => h.set.effect.2.2
  refine ⟨fun i v h => ?_, fun i w => Carries.next, fun i j v h => ?_, fun i j v n h hn c hc => ?_,
    fun j sink r hc => (keyed_moment edits supply j).listsBreaches hc, fun j s s' g h => ?_⟩
  · obtain ⟨hcarries, hconstraints, hsatisfies⟩ := h.effect
    rw [hconstraints]
    refine ⟨hcarries, rfl, fun c hc hactive => ?_⟩
    rw [← Constraint.satisfies_toDatum hactive]
    exact hsatisfies c hc
  · exact ⟨h.carries, fun c _ hc => hholds i j v h c hc⟩
  · obtain ⟨n', hn', hv⟩ := h.carries
    cases hn.symm.trans hn'
    obtain ⟨hattached, hbroken⟩ := (mem_breachesAt hv).1 hc
    rw [((keyed_moment edits supply j).node hn).1] at hattached
    refine ⟨hattached, fun hthen => ?_⟩
    cases hbroken.symm.trans (hholds i j v h c hthen)
  · obtain ⟨edits', -, hrun⟩ := leads_ofRecord h
    exact ⟨edits', congrArg Prod.fst hrun⟩

/-- A number that is labelled and moved once it is set, and cannot be set to five: of the
constraints that it was set under one is taken away and attached again and the other stays, and a
third one that is attached later and that it breaks is the only one reported. -/
theorem run_governed_reattached :
    let constraint (id type key : String) (d : Datum) : Edit :=
      .addConstraint (.text "a") (.record [("id", .text id), ("type", .text type), (key, d)])
    let edits : List Edit := [
      .create (.text "number") .null (.text "a"), constraint "e" "even_odd" "parity" (.text "even"),
      constraint "l" "less_than" "value" (.int 9), .setValue (.text "a") (.int 4),
      .setLabel (.text "a") (.text "four"), .removeConstraint (.text "a") (.text "e"),
      constraint "p" "prime" "active" (.bool true), .move (.text "a") (.list [.int 3, .int 5]),
      constraint "e" "even_odd" "parity" (.text "even"), .setValue (.text "a") (.int 5)]
    LastSet edits {} (.text "a") 3 10 (.whole 4) ∧
      (moment edits {} 10).Carries (.text "a") (.whole 4) ∧
      ((moment edits {} 10).constraints.constraintsAt (.text "a")).map (·.kind.name) =
        ["less_than", "prime", "even_odd"] ∧
      ((moment edits {} 10).report .null).toOption.map Report.errors =
        some ["Add an OUTPUT node to generate equations",
          "Node 'a' value 4 violates: must be prime"] := by
  intro constraint edits
  have hset : SetsAt edits {} (.text "a") 3 (.whole 4) := by
    have haccepted : ((moment edits {} 3).setValue (.text "a") (.int 4)).toOption.isSome =
        true := by
      decide +kernel
    have hfour : Number.ofDatum (.int 4) = .ok (.whole 4) := by decide +kernel
    obtain ⟨⟨n, g'⟩, hanswer⟩ := Option.isSome_iff_exists.1 haccepted
    have hanswer := toOption_eq_some.1 hanswer
    obtain ⟨_, _, v, -, -, hread, -, rfl, -⟩ := setValue_ok hanswer
    cases hfour.symm.trans hread
    exact ⟨_, rfl, .intro rfl hanswer rfl⟩
  have hrefused : ((moment edits {} 9).setValue (.text "a") (.int 5)).toOption.isNone = true := by
    decide +kernel
  have hlast : LastSet edits {} (.text "a") 3 10 (.whole 4) := by
    refine ⟨hset, by decide, ?_, ?_⟩
    · intro m hm hm'
      interval_cases m <;> exact Option.isSome_iff_ne_none.1 (by decide +kernel)
    · rintro m w hm hm' ⟨e, he, hsets⟩
      interval_cases m <;> cases he <;> cases hsets
      next haccepted => rw [haccepted] at hrefused; cases hrefused
  exact ⟨hlast, ((run_governed edits {} (.text "a")).holds 3 10 (.whole 4) hlast).1,
    by decide +kernel, by decide +kernel⟩

end Diagram

end EquationStudio
