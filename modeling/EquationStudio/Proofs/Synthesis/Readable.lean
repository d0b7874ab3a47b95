import EquationStudio.Proofs.Diagram.Keyed
import EquationStudio.Proofs.Synthesis.Grammar

/-!
# A complete text determines the expression

A text that is read off a diagram without degraded nodes is the text of the formula behind the sink
(`Diagram.Keyed.expresses_of_complete`), whatever the identities in the diagram are: they need not
be texts, and two data that make the same key are one identity. With the grammar of expressions this
says that two such texts are equal only if the formulas are (`Diagram.synthesize_readable`).

`Reads` says what is written behind a node by the look-ups of the diagram alone. Where identities
are texts and connections are named it is `Unfolds` without loose nodes (`reads_iff_unfolds`). A
cycle needs no care here: a walk that meets one gives no text.
-/

namespace EquationStudio

/-! ## The formula that is found behind a node -/

/-- A node behind which a formula is found, with both producers of each binary node in it. -/
inductive Reads (g : Diagram) : Node → Formula → Prop
  | number {n : Node} {v : Number} (h : n.content = .number v) : Reads g n (.number v)
  | symbol {n : Node} {name : String} (h : n.content = .symbol name) : Reads g n (.symbol name)
  | join {n l r : Node} {op : Operator} {left right : Formula} (h : n.content = .binary op)
      (hp : Walk.producers? g n = some (l, r)) (hl : Reads g l left) (hr : Reads g r right) :
      Reads g n (.join op left right)

/-- The formula that a diagram expresses when it is read from a sink. -/
def Diagram.Expresses (g : Diagram) (sink : Datum) (t : Formula) : Prop :=
  ∃ n root, g.resolveSink sink = .ok (some n) ∧ g.root? n = some root ∧ Reads g root t

namespace Reads

variable {g : Diagram} {n : Node} {t : Formula}

/-- Behind a node one formula is found at most. -/
theorem unique {t' : Formula} (h : Reads g n t) (h' : Reads g n t') : t = t' := by
  induction h generalizing t' with
  | number h =>
    cases h' with
    | number h' => cases h.symm.trans h'; rfl
    | symbol h' | join h' => cases h.symm.trans h'
  | symbol h =>
    cases h' with
    | symbol h' => cases h.symm.trans h'; rfl
    | number h' | join h' => cases h.symm.trans h'
  | join h hp _ _ ihl ihr =>
    cases h' with
    | number h' | symbol h' => cases h.symm.trans h'
    | join h' hp' hl' hr' =>
      cases h.symm.trans h'
      cases hp.symm.trans hp'
      rw [ihl hl', ihr hr']


end Reads

/-- In a well-formed diagram with named connections, a formula is found behind a node exactly if it
is written there and no node in it is loose. -/
theorem reads_iff_unfolds {g : Diagram} (hg : g.WellFormed) (hids : g.NamedWires)
    {n : Node} {t : Formula} : Reads g n t ↔ Unfolds g n t ∧ t.looseNodes = [] := by
  constructor
  · intro h
    induction h with
    | number h => exact ⟨.number h, rfl⟩
    | symbol h => exact ⟨.symbol h, rfl⟩
    | join h hp _ _ ihl ihr =>
      refine ⟨.join h ((Diagram.producers?_eq_some hg hids).1 hp) ihl.1 ihr.1, ?_⟩
      rw [Formula.looseNodes, ihl.2, ihr.2]
      rfl
  · rintro ⟨h, hloose⟩
    induction h with
    | number h => exact .number h
    | symbol h => exact .symbol h
    | join h hw _ _ ihl ihr =>
      rw [Formula.looseNodes, List.append_eq_nil_iff] at hloose
      exact .join h ((Diagram.producers?_eq_some hg hids).2 hw) (ihl hloose.1) (ihr hloose.2)
    | loose => cases hloose

/-- A sink expresses one formula at most. -/
theorem Diagram.Expresses.unique {g : Diagram} {sink : Datum} {t t' : Formula}
    (h : g.Expresses sink t) (h' : g.Expresses sink t') : t = t' := by
  obtain ⟨n, root, hn, hroot, ht⟩ := h
  obtain ⟨n', root', hn', hroot', ht'⟩ := h'
  cases hn.symm.trans hn'
  cases hroot.symm.trans hroot'
  exact ht.unique ht'

/-! ## Nodes under their own keys -/

/-- A node that stands in a diagram under its own key. -/
def Diagram.Holds (g : Diagram) (n : Node) : Prop := g.nodes.get? n.id.key = some n

namespace Diagram

variable {g : Diagram}

/-- The producers of a node are those of its two inputs. -/
theorem producers?_eq {n : Node} {p q : Port} (h : n.inputs = [p, q]) :
    Walk.producers? g n = (g.producer? p).bind fun l => (g.producer? q).map fun r => (l, r) := by
  simp only [Walk.producers?, h]
  cases g.producer? p <;> cases g.producer? q <;> rfl

/-- A node with producers has two inputs, which they feed. -/
theorem exists_producers {n l r : Node} (h : Walk.producers? g n = some (l, r)) :
    ∃ p q, n.inputs = [p, q] ∧ g.producer? p = some l ∧ g.producer? q = some r := by
  have h' := h
  unfold Walk.producers? at h'
  split at h'
  · next p q hinputs =>
    rw [producers?_eq hinputs] at h
    obtain ⟨l', hl, h⟩ := Option.bind_eq_some_iff.1 h
    obtain ⟨r', hr, h⟩ := Option.map_eq_some_iff.1 h
    cases h
    exact ⟨p, q, hinputs, hl, hr⟩
  · cases h'

namespace Keyed

/-- A producer that is found stands in the diagram. -/
theorem holds_producer (h : g.Keyed) {p : Port} {m : Node}
    (hm : g.producer? p = some m) : g.Holds m := by
  obtain ⟨c, -, hm⟩ := Option.bind_eq_some_iff.1 hm
  obtain ⟨q, -, hm⟩ := Option.bind_eq_some_iff.1 hm
  unfold Holds
  rw [(h.node hm).1, hm]

/-- Both producers that are found stand in the diagram. -/
theorem holds_producers (h : g.Keyed) {n l r : Node} (hp : Walk.producers? g n = some (l, r)) :
    g.Holds l ∧ g.Holds r := by
  obtain ⟨p, q, -, hl, hr⟩ := exists_producers hp
  exact ⟨h.holds_producer hl, h.holds_producer hr⟩

/-- The node that feeds a sink stands in the diagram. -/
theorem holds_root (h : g.Keyed) {sink root : Node}
    (hroot : g.root? sink = some root) : g.Holds root := by
  obtain ⟨p, -, hp⟩ := Option.bind_eq_some_iff.1 hroot
  exact h.holds_producer hp

/-- The formula behind a node of the diagram is plain: what its nodes carry has been accepted. -/
theorem plain (h : g.Keyed) {n : Node} {t : Formula} (hn : g.Holds n)
    (ht : Reads g n t) : t.Plain := by
  induction ht with
  | number hcontent | symbol hcontent =>
    have hvalid := (h.node hn).2.2
    rw [hcontent] at hvalid
    exact hvalid
  | join _ hp _ _ ihl ihr =>
    obtain ⟨hl, hr⟩ := h.holds_producers hp
    exact ⟨ihl hl, ihr hr⟩

end Keyed

end Diagram

/-! ## What a walk remembers -/

namespace Walk

/-- A task about nodes of a diagram, with the producers that are found for them. -/
def Task.Fits (g : Diagram) : Task → Prop
  | .enter n => g.Holds n
  | .join n op left right => g.Holds n ∧ n.content = .binary op ∧
      producers? g n = some (left, right)

variable {α : Type} {g : Diagram} {e : Emitter α}

/-- What is remembered is what the emitter makes of the formulas that are found, as long as no node
has been degraded. -/
structure Faithful (g : Diagram) (e : Emitter α) (s : State α) : Prop where
  tasks : ∀ task ∈ s.stack, task.Fits g
  memo : s.degraded = [] → ∀ k a, s.memo.get? k = some a →
    ∃ m t, g.Holds m ∧ m.id.key = k ∧ Reads g m t ∧ t.fold e = .ok a

namespace Faithful

variable {s s' : State α} {n : Node}

/-- What is remembered of a node is what the emitter makes of the formula behind it. -/
theorem of_get? (h : Faithful g e s) (hd : s.degraded = []) (hn : g.Holds n) {a : α}
    (ha : s.memo.get? n.id.key = some a) : ∃ t, Reads g n t ∧ t.fold e = .ok a := by
  obtain ⟨m, t, hm, hkey, ht, hfold⟩ := h.memo hd _ a ha
  rw [Diagram.Holds, hkey, hn] at hm
  cases hm
  exact ⟨t, ht, hfold⟩

/-- What the emitter makes of the formula behind a node is kept. -/
theorem finish (h : Faithful g e s) (hn : g.Holds n) {a : α}
    (ha : s.degraded = [] → ∃ t, Reads g n t ∧ t.fold e = .ok a) : Faithful g e (s.finish n a) := by
  refine ⟨h.tasks, fun hd k b hb => ?_⟩
  rw [State.finish, Table.get?_insert] at hb
  split at hb
  · next hk =>
    cases hb
    obtain ⟨t, ht, hfold⟩ := ha hd
    exact ⟨n, t, hn, hk.symm, ht, hfold⟩
  · exact h.memo hd k b hb

/-- Nothing is promised once a node has been degraded. -/
theorem degrade (h : Faithful g e s) (n : Node) : Faithful g e (s.degrade e n) :=
  ⟨h.tasks, nofun⟩

/-- Looking at a node. -/
theorem enter (hg : g.Keyed) (h : Faithful g e s) (hn : g.Holds n) (hs : s.enter g e n = .ok s') :
    Faithful g e s' := by
  unfold State.enter at hs
  split at hs
  · cases hs
  · split at hs
    · cases hs; exact h
    · split at hs
      · next hcontent => cases hs; exact h.finish hn fun _ => ⟨_, .number hcontent, rfl⟩
      · next hcontent => cases hs; exact h.finish hn fun _ => ⟨_, .symbol hcontent, rfl⟩
      · next hcontent =>
        split at hs
        · cases hs; exact h.degrade n
        · next hp =>
          cases hs
          obtain ⟨hl, hr⟩ := hg.holds_producers hp
          refine ⟨?_, h.memo⟩
          simp only [List.forall_mem_cons]
          exact ⟨hl, hr, ⟨hn, hcontent, hp⟩, h.tasks⟩
      · cases hs; exact h.degrade n

/-- Joining what was made of both producers. -/
theorem join (hg : g.Keyed) (h : Faithful g e s) {op : Operator} {l r : Node} (hn : g.Holds n)
    (hcontent : n.content = .binary op) (hp : producers? g n = some (l, r))
    (hs : s.join e n op l r = .ok s') : Faithful g e s' := by
  have hpath : Faithful g e { s with path := s.path.tail } := ⟨h.tasks, h.memo⟩
  obtain ⟨hl, hr⟩ := hg.holds_producers hp
  unfold State.join at hs
  dsimp only at hs
  split at hs
  · next a b ha hb =>
    obtain ⟨c, hc, hs⟩ := ok_of_bind hs
    cases hs
    refine hpath.finish hn fun hd => ?_
    obtain ⟨left, hleft, hfold⟩ := h.of_get? hd hl ha
    obtain ⟨right, hright, hfold'⟩ := h.of_get? hd hr hb
    refine ⟨.join op left right, .join hcontent hp hleft hright, ?_⟩
    rw [Formula.fold, hfold, hfold']
    exact hc
  · cases hs; exact hpath

/-- The topmost task is taken from the stack. -/
theorem pop (h : Faithful g e s) {task : Task} {rest : List Task}
    (hstack : s.stack = task :: rest) : task.Fits g ∧ Faithful g e { s with stack := rest } := by
  have htasks := h.tasks
  rw [hstack, List.forall_mem_cons] at htasks
  exact ⟨htasks.1, htasks.2, h.memo⟩

/-- One round. -/
theorem step (hg : g.Keyed) (h : Faithful g e s) (hs : s.step g e = .ok s') : Faithful g e s' := by
  unfold State.step at hs
  split at hs
  · cases hs; exact h
  · next n rest hstack =>
    obtain ⟨hn, hrest⟩ := h.pop hstack
    exact hrest.enter hg hn hs
  · next n op l r rest hstack =>
    obtain ⟨⟨hn, hcontent, hp⟩, hrest⟩ := h.pop hstack
    exact hrest.join hg hn hcontent hp hs

/-- Any number of rounds. -/
theorem run (hg : g.Keyed) {rounds : Nat} (h : Faithful g e s)
    (hs : Walk.run g e rounds s = .ok s') : Faithful g e s' := by
  induction rounds generalizing s with
  | zero => cases hs; exact h
  | succ rounds ih =>
    rw [Walk.run] at hs
    split at hs
    · cases hs; exact h
    · obtain ⟨s₁, hs₁, hs⟩ := ok_of_bind hs
      exact ih (h.step hg hs₁) hs

end Faithful

end Walk

namespace Diagram

/-- The value of a walk that degrades no node is what the emitter makes of the formula that is
found. -/
theorem Keyed.reads_of_walk {g : Diagram} (hg : g.Keyed) {α : Type} {e : Emitter α} {sink : Node}
    {w : Walked α} (hw : g.walk e sink = .ok w) (hd : w.degraded = []) {a : α}
    (ha : w.value = some a) :
    ∃ root t, g.root? sink = some root ∧ g.Holds root ∧ Reads g root t ∧ t.fold e = .ok a := by
  unfold walk at hw
  split at hw
  · cases hw; cases ha
  · next root hroot =>
    obtain ⟨s, hs, hw⟩ := ok_of_bind hw
    cases hw
    have hholds := hg.holds_root hroot
    have hstart : Walk.Faithful g e { stack := [.enter root] } :=
      ⟨List.forall_mem_singleton.2 hholds, fun _ _ _ h => by cases h⟩
    obtain ⟨t, ht, hfold⟩ := (hstart.run hg hs).of_get? (List.reverse_eq_nil_iff.1 hd) hholds ha
    exact ⟨root, t, hroot, hholds, ht, hfold⟩

/-- The text of a complete synthesis is the text of a plain formula, which the sink expresses. -/
theorem Keyed.expresses_of_complete {g : Diagram} (hg : g.Keyed) {sink : Datum} {s : Synthesis}
    (hs : g.synthesize sink = .ok s) (hc : s.complete = true) :
    ∃ t : Formula, g.Expresses sink t ∧ t.Plain ∧ t.text = s.expression := by
  obtain ⟨resolved, hresolved, hs⟩ := ok_of_bind hs
  cases resolved with
  | none => cases hs; cases hc
  | some n =>
    obtain ⟨walked, hwalked, hs⟩ := ok_of_bind hs
    split at hs
    · cases hs; cases hc
    · next text hvalue =>
      cases hs
      obtain ⟨root, t, hroot, hholds, ht, hfold⟩ :=
        hg.reads_of_walk hwalked (List.isEmpty_iff.1 hc) hvalue
      rw [Formula.fold_textEmitter] at hfold
      exact ⟨t, ⟨n, root, hresolved, hroot, ht⟩, hg.plain hholds ht, Except.ok.inj hfold⟩

/-- A sink expresses the plain formula that its complete text is the text of. -/
theorem Keyed.expresses_of_text {g : Diagram} (hg : g.Keyed) (sink : Datum)
    {t : Formula} (ht : t.Plain)
    (h : (g.synthesize sink).toOption.map (fun s => (s.complete, s.expression)) =
    some (true, t.text)) :
    ∃ s, g.synthesize sink = .ok s ∧ s.complete = true ∧ g.Expresses sink t := by
  obtain ⟨s, hs, htext⟩ := Option.map_eq_some_iff.1 h
  rw [toOption_eq_some] at hs
  obtain ⟨hc, htext⟩ := Prod.mk.inj htext
  obtain ⟨u, hu, hplain, htext'⟩ := hg.expresses_of_complete hs hc
  have hparse := Formula.parse_eq_some.2 ⟨ht, htext.symm⟩
  rw [Formula.parse_eq_some.2 ⟨hplain, htext'⟩] at hparse
  rw [← Option.some.inj hparse]
  exact ⟨s, hs, hc, hu⟩

/-- **A complete text determines the expression.** Whatever runs of edits two diagrams come from and
whatever sinks they are read from: if both syntheses are complete, each sink expresses exactly one
formula, which the parser reads from the text; so the texts are equal exactly if the formulas are,
with the same operators in the same shape, the same names and the same numbers. -/
theorem synthesize_readable {edits edits' : List Edit} {supply supply' : Supply}
    {sink sink' : Datum} {s s' : Synthesis} (hs : (run edits supply).synthesize sink = .ok s)
    (hc : s.complete = true) (hs' : (run edits' supply').synthesize sink' = .ok s')
    (hc' : s'.complete = true) :
    ∃ t t' : Formula, (∀ u, (run edits supply).Expresses sink u ↔ u = t) ∧
      (∀ u, (run edits' supply').Expresses sink' u ↔ u = t') ∧
      Formula.parse s.expression = some t ∧ Formula.parse s'.expression = some t' ∧
      (s.expression = s'.expression ↔ t = t') := by
  obtain ⟨t, ht, hplain, htext⟩ := (Keyed.run edits supply).expresses_of_complete hs hc
  obtain ⟨t', ht', hplain', htext'⟩ := (Keyed.run edits' supply').expresses_of_complete hs' hc'
  have hparse : Formula.parse s.expression = some t := Formula.parse_eq_some.2 ⟨hplain, htext⟩
  have hparse' : Formula.parse s'.expression = some t' := Formula.parse_eq_some.2 ⟨hplain', htext'⟩
  refine ⟨t, t', fun u => ⟨fun hu => hu.unique ht, fun hu => hu ▸ ht⟩,
    fun u => ⟨fun hu => hu.unique ht', fun hu => hu ▸ ht'⟩, hparse, hparse', fun he => ?_, ?_⟩
  · rw [he, hparse'] at hparse
    exact (Option.some.inj hparse).symm
  · rintro rfl
    exact htext.symm.trans htext'

/-- Signs in literals, an exponent, a name like an exponent and a large integer next to a double of
the same value, in diagrams under texts and under numbers. -/
theorem synthesize_readable_signs :
    let edits : List Edit := [
      .create (.text "number") .null .null, .setValue (.text "n1") (.int (-3)),
      .create (.text "number") .null .null, .setValue (.text "n2") (.text "1e20"),
      .create (.text "variable") .null .null, .setVariable (.text "n3") (.text "e5"),
      .create (.text "number") .null .null, .setValue (.text "n4") (.text "-0.00000025"),
      .create (.text "subtract") .null .null, .create (.text "power") .null .null,
      .create (.text "multiply") .null .null, .create (.text "output") .null .null,
      .connect (.text "n1") (.text "n5") (.int 0), .connect (.text "n2") (.text "n5") (.int 1),
      .connect (.text "n3") (.text "n6") (.int 0), .connect (.text "n4") (.text "n6") (.int 1),
      .connect (.text "n5") (.text "n7") (.int 0), .connect (.text "n6") (.text "n7") (.int 1),
      .connect (.text "n7") (.text "n8") (.int 0)]
    let edits' : List Edit := [
      .create (.text "output") .null (.int 8), .create (.text "multiply") .null (.int 7),
      .create (.text "power") .null (.int 6), .create (.text "subtract") .null (.int 5),
      .create (.text "variable") .null (.int 3), .setVariable (.int 3) (.text " e5 "),
      .create (.text "number") .null (.int 4), .setValue (.int 4) (.text "-25e-8"),
      .create (.text "number") .null (.int 1), .setValue (.int 1) (.text "-3.0"),
      .create (.text "number") .null (.int 2), .setValue (.int 2) (.int (10 ^ 20)),
      .connect (.int 7) (.int 8) (.int 0), .connect (.int 6) (.int 7) (.int 1),
      .connect (.int 5) (.int 7) (.int 0), .connect (.int 4) (.int 6) (.int 1),
      .connect (.int 3) (.int 6) (.int 0), .connect (.int 2) (.int 5) (.int 1),
      .connect (.int 1) (.int 5) (.int 0)]
    ∃ s s', (run edits {}).synthesize .null = .ok s ∧ s.complete = true ∧
      s.expression = "((-3 - 1e+20) * (e5 ^ -2.5e-07))" ∧
      (run edits' {}).synthesize (.int 8) = .ok s' ∧ s'.complete = true ∧
      s'.expression = "((-3 - 1e+20) * (e5 ^ -2.5e-07))" ∧
      ∃ t, (∀ u, (run edits {}).Expresses .null u ↔ u = t) ∧
        (∀ u, (run edits' {}).Expresses (.int 8) u ↔ u = t) ∧
        Formula.parse s.expression = some t := by
  intro edits edits'
  have hread : ((run edits {}).synthesize .null).toOption.map (fun s =>
    (s.complete, s.expression)) =
      some (true, "((-3 - 1e+20) * (e5 ^ -2.5e-07))") := by decide +kernel
  have hread' : ((run edits' {}).synthesize (.int 8)).toOption.map (fun s =>
    (s.complete, s.expression)) =
      some (true, "((-3 - 1e+20) * (e5 ^ -2.5e-07))") := by decide +kernel
  obtain ⟨s, hs, he⟩ := Option.map_eq_some_iff.1 hread
  obtain ⟨s', hs', he'⟩ := Option.map_eq_some_iff.1 hread'
  obtain ⟨hc, hexpr⟩ := Prod.mk.inj he
  obtain ⟨hc', hexpr'⟩ := Prod.mk.inj he'
  rw [toOption_eq_some] at hs hs'
  obtain ⟨t, t', ht, ht', hparse, -, hiff⟩ := synthesize_readable hs hc hs' hc'
  obtain rfl := hiff.1 (hexpr.trans hexpr'.symm)
  exact ⟨s, s', hs, hc, hexpr, hs', hc', hexpr', t, ht, ht', hparse⟩

end Diagram

end EquationStudio
