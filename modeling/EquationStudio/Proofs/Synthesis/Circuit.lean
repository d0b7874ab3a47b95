import EquationStudio.Proofs.Diagram.Overflow
import EquationStudio.Proofs.Diagram.RoundTrip
import EquationStudio.Proofs.Synthesis.Incomplete
import EquationStudio.Proofs.Synthesis.Occupied
import EquationStudio.Proofs.Synthesis.Outcome
import EquationStudio.Proofs.Synthesis.Simplified

/-!
# What the fault of a cycle describes

Whoever reads a diagram may be told of a cycle: by a path from the node behind the sink, and the
node that is met again. `Diagram.Circuit` says that there is one, and `Diagram.circular_of_fails`
that there always is. The walk keeps the path while the nodes that wait beside it come and go; that
the path is a `Walk.Trail` whenever a node is looked at is shown with the visits of a walk
(`Walk.visit`). Those are for diagrams in which every connection is found. A connection under the
empty text is never found, so the walk is the same without it (`Diagram.exists_named`).

Nothing else in reading a diagram is reported as a cycle (`Straight`): sinks, values for variables,
operators and results are refused for other things.
-/

namespace EquationStudio

/-! ## Circuits -/

namespace Diagram

/-- A path of wired binary nodes, along which each node feeds an input of the one before, and which
leads back to a node on it. No two nodes on the path have the same name. -/
structure Circuit (g : Diagram) (first : Node) (path : List Node) (n : Node) : Prop where
  head : path.head? = some first
  wired : ∀ m ∈ path, ∃ op l r, m.content = .binary op ∧ g.Wired m l r
  linked : path.IsChain g.Edge
  back : ∃ last, path.getLast? = some last ∧ g.Edge last n
  closed : n ∈ path
  simple : (path.map Node.ident).Nodup

/-- The names on a circuit of a diagram, which begins behind a sink, and the name of the node that
closes it. -/
def Circular (g : Diagram) (sink : Datum) (name : String) (names : List String) : Prop :=
  ∃ out p first path n, g.resolveSink sink = .ok (some out) ∧ out.inputs = [p] ∧ g.Feeds first p ∧
    g.Circuit first path n ∧ name = n.ident ∧ names = path.map Node.ident

/-- Some way of reading a diagram from a sink ends with a fault, in some algebra. -/
inductive Fails (g : Diagram) (sink : Datum) (fault : Fault) : Prop
  | synthesize (h : g.synthesize sink = .error fault)
  | algebraic {A : SymbolicAlgebra} {b : A.Bindings} (h : g.algebraic A (.ok b) sink = .error fault)
  | algebraicText {A : SymbolicAlgebra} (h : g.algebraicText sink A = .error fault)
  | simplified {A : SymbolicAlgebra} (h : g.simplified sink A = .error fault)
  | evaluate {A : SymbolicAlgebra} {bindings : Datum}
      (h : g.evaluate bindings sink A = .error fault)

end Diagram

namespace Walk

variable {g : Diagram} {first n : Node} {path : List Node}

/-- Along a path each node is at the end of an edge from the one before. -/
theorem Trail.isChain (h : Trail g first path) : path.reverse.IsChain g.Edge := by
  rw [List.isChain_reverse]
  induction path with
  | nil => exact .nil
  | cons m path ih =>
    obtain ⟨-, hunder, hpath⟩ := h
    cases path with
    | nil => exact .singleton m
    | cons k path => exact .cons_cons hunder (ih hpath)

/-- A path begins with the first node. -/
theorem Trail.getLast? (h : Trail g first path) (hne : path ≠ []) : path.getLast? = some first := by
  induction path with
  | nil => exact absurd rfl hne
  | cons m path ih =>
    obtain ⟨-, hunder, hpath⟩ := h
    cases path with
    | nil => rw [show m = first from hunder]; rfl
    | cons k path => rw [List.getLast?_cons_cons, ih hpath (List.cons_ne_nil _ _)]

/-- No node is on a path twice. -/
theorem Trail.nodup (h : Trail g first path) : path.Nodup := by
  induction path with
  | nil => exact .nil
  | cons m path ih => exact List.nodup_cons.2 ⟨h.1, ih h.2.2⟩

/-- A path that is met again is a circuit. -/
theorem Trail.circuit (hfirst : g.HasNode first) (h : Trail g first path)
    (hunder : Under g first path n) (hn : n ∈ path) : g.Circuit first path.reverse n where
  head := by rw [List.head?_reverse, h.getLast? (List.ne_nil_of_mem hn)]
  wired m hm := by
    obtain ⟨k, ⟨op, l, r, hop, hw, -⟩, -⟩ :=
      Relation.TransGen.head'_iff.1 (h.transGen hunder (List.mem_reverse.1 hm))
    exact ⟨op, l, r, hop, hw⟩
  linked := h.isChain
  back := by
    cases path with
    | nil => cases hn
    | cons m path => exact ⟨m, by rw [List.getLast?_reverse]; rfl, hunder⟩
  closed := List.mem_reverse.2 hn
  simple := by
    refine (List.nodup_reverse.2 h.nodup).map_on fun m hm k hk he => ?_
    exact Diagram.WellFormed.node_unique (h.hasNode hfirst m (List.mem_reverse.1 hm))
      (h.hasNode hfirst k (List.mem_reverse.1 hk)) he

/-- A loop that a walk meets is reported by a circuit. -/
theorem Loop.exists_circuit (hg : g.WellFormed) (hfirst : g.HasNode first) {name : String}
    {names : List String} (h : Loop g first (.cycle name names)) :
    ∃ path n, g.Circuit first path n ∧ name = n.ident ∧ names = path.map Node.ident := by
  obtain ⟨path, n, htrail, hunder, hn, hfault⟩ := h
  have hpath : ∀ m ∈ path, g.Holds m := fun m hm => hg.get?_id (htrail.hasNode hfirst m hm)
  rw [cycleFault_eq hg.texts hpath (hg.get?_id (hunder.hasNode hfirst))] at hfault
  obtain ⟨rfl, rfl⟩ := Fault.cycle.inj hfault
  exact ⟨path.reverse, n, htrail.circuit hfirst hunder hn, rfl, rfl⟩

end Walk

/-! ## Connections that are not found -/

namespace Diagram

variable {g g' : Diagram}

/-- Edges are made of connections, so they are there where more connections are. -/
theorem Feeds.mono (hnodes : g'.nodes = g.nodes) (hwires : ∀ c, g'.HasWire c → g.HasWire c)
    {m : Node} {p : Port} (h : g'.Feeds m p) : g.Feeds m p := by
  obtain ⟨hm, c, hc, hrest⟩ := h
  exact ⟨by rwa [HasNode, ← hnodes], c, hwires c hc, hrest⟩

/-- A node is wired where more connections are. -/
theorem Wired.mono (hnodes : g'.nodes = g.nodes)
    (hwires : ∀ c, g'.HasWire c → g.HasWire c) {n l r : Node}
    (h : g'.Wired n l r) : g.Wired n l r := by
  obtain ⟨p, q, hn, hl, hr⟩ := h
  exact ⟨p, q, hn, hl.mono hnodes hwires, hr.mono hnodes hwires⟩

/-- A circuit is one where more connections are. -/
theorem Circuit.mono (hnodes : g'.nodes = g.nodes)
    (hwires : ∀ c, g'.HasWire c → g.HasWire c) {first n : Node}
    {path : List Node} (h : g'.Circuit first path n) : g.Circuit first path n := by
  have hedge : ∀ {m k}, g'.Edge m k → g.Edge m k := by
    rintro m k ⟨op, l, r, hop, hw, hk⟩
    exact ⟨op, l, r, hop, hw.mono hnodes hwires, hk⟩
  refine ⟨h.head, fun m hm => ?_, h.linked.imp fun _ _ => hedge, ?_, h.closed, h.simple⟩
  · obtain ⟨op, l, r, hop, hw⟩ := h.wired m hm
    exact ⟨op, l, r, hop, hw.mono hnodes hwires⟩
  · obtain ⟨last, hlast, he⟩ := h.back
    exact ⟨last, hlast, hedge he⟩

/-- Without the connection under the empty text, a diagram has the same producers, and all its
connections are found. -/
theorem WellFormed.exists_named (h : g.WellFormed) : ∃ g' : Diagram, g'.WellFormed ∧ g'.NamedWires ∧
    g'.nodes = g.nodes ∧ (∀ c, g'.HasWire c → g.HasWire c) ∧
    ∀ p, g.producer? p = g'.producer? p := by
  have hnamed : ∀ {g' : Diagram}, g'.WellFormed →
      (∀ c, g'.HasWire c → c.id ≠ .ofText "") → g'.NamedWires :=
    fun h' hne c hc =>
      (h'.isTruthy_id (h'.mem_connections.1 hc)).2 (hne c (h'.mem_connections.1 hc))
  cases hempty : g.connections.get? (.text "") with
  | none =>
    refine ⟨g, h, hnamed h fun c hc he => ?_, rfl, fun _ hc => hc, fun _ => rfl⟩
    rw [HasWire, he] at hc
    cases hempty.symm.trans hc
  | some c =>
    have hid : c.id = .ofText "" := Identity.eq_ofText (h.wire hempty).1.symm
    have hself : ∀ c', g.connections.get? c.id.key = some c' → c' = c := by
      rw [hid]
      exact fun c' hc' => Option.some.inj (hc'.symm.trans hempty)
    have h' := h.dropConnection hself
    refine ⟨g.dropConnection c, h', hnamed h' fun c' hc' he => ?_, rfl,
      fun c' hc' => (hasWire_dropConnection.1 hc').2, fun p => ?_⟩
    · exact (hasWire_dropConnection.1 hc').1 (by rw [he, hid])
    · have hfeeding : g.feeding? (.text p.id) = (g.dropConnection c).feeding? (.text p.id) := by
        ext c'
        rw [h.feeding?_iff, h'.feeding?_iff, h.leadsTo_iff, h'.leadsTo_iff,
          hasWire_dropConnection, hid]
        refine and_congr_left fun hne => and_congr_left fun _ =>
          (and_iff_right fun he => hne ?_).symm
        exact Identity.eq_ofText he
      rw [producer?, producer?, hfeeding]
      rfl

end Diagram

/-! ## What is not reported as a cycle -/

/-- A fault that reports a cycle. -/
def Fault.isCycle : Fault → Bool
  | .cycle .. => true
  | _ => false

/-- A request is not refused for a cycle. -/
def Straight {α : Type} (x : Except Fault α) : Prop :=
  ∀ fault, x = .error fault → fault.isCycle = false

/-- A refusal of the schema reports no cycle. -/
theorem Fault.isCycle_of_isSchema {fault : Fault} (h : fault.isSchema = true) :
    fault.isCycle = false := by
  cases fault <;> first | rfl | cases h

namespace Straight

variable {α β : Type} {x : Except Fault α} {f : α → Except Fault β} {fault : Fault}

/-- A request that is carried out. -/
theorem ok (a : α) : Straight (.ok a : Except Fault α) := nofun

/-- A request that is refused for something else. -/
theorem error (h : fault.isCycle = false) : Straight (.error fault : Except Fault α) := by
  rintro _ ⟨⟩
  exact h

/-- One request after another. -/
theorem bind (hx : Straight x) (hf : ∀ a, x = .ok a → Straight (f a)) : Straight (x >>= f) :=
  forall_error_of_bind hx hf

/-- A request that refuses by the rules of the schema, or for the double of an integer that has
none. -/
theorem of_refuses {P : Prop} (h : RefusesUnless P x) : Straight x := by
  intro fault hfault
  by_cases hP : P
  · cases (h.large hP).symm.trans hfault
    rfl
  · exact Fault.isCycle_of_isSchema (h.refusal hP fault hfault)

/-- A request of the algebra. -/
theorem of_datum {y : Except DatumFault α} : Straight (y.mapError .datum) := by
  intro fault h
  obtain ⟨_, -, rfl⟩ := error_of_mapError h
  rfl

/-- A request that is refused for a cycle. -/
theorem absurd {name : String} {names : List String} (hx : Straight x)
    (h : x = .error (.cycle name names)) : False :=
  Bool.false_ne_true (hx _ h).symm

end Straight

section
variable {d : Datum}

/-- Making a key of a datum. -/
theorem Datum.straight_key : Straight d.key := by
  cases d with
  | list | record => exact .error rfl
  | null | bool | int | float | text => exact .ok _

/-- Quoting a datum. -/
theorem Datum.straight_plain : Straight d.plain := by
  cases d with
  | text s => exact .ok s
  | null | bool | int | float | list | record =>
    intro fault h
    rw [Datum.fault_of_display h]
    rfl

/-- Reading a number. -/
theorem Number.straight_ofDatum : Straight (Number.ofDatum d) := fun _ h =>
  Fault.isCycle_of_isSchema (Number.isSchema_of_ofDatum h)

end

namespace SymbolicAlgebra

variable (A : SymbolicAlgebra)

/-- Operations on operands. -/
theorem straight_combine (op : Operator) (left right : A.Operand) :
    Straight (A.combine op left right) := by
  intro fault h
  obtain (rfl | rfl) | ⟨digits, rfl⟩ := fault_of_combine h
  all_goals rfl

/-- The value of a form. -/
theorem straight_value (e : A.Form) : Straight (A.value e) := by
  unfold value
  split
  · split
    · exact .error rfl
    split
    · exact .bind .of_datum fun _ _ => .error rfl
    split
    · exact .ok _
    · exact .error rfl
  · exact .error rfl

/-- Reading the values of a mapping. -/
theorem straight_readBindings (values : Fields) : Straight (A.readBindings values) := by
  induction values with
  | nil => exact .ok _
  | cons field rest hrest =>
    obtain ⟨name, d⟩ := field
    cases d with
    | null | list | record => exact .bind .of_datum fun _ _ => hrest
    | bool | int | float | text =>
      exact .bind Number.straight_ofDatum fun _ _ => .bind hrest fun _ _ => .ok _

end SymbolicAlgebra

namespace Diagram

variable {g : Diagram} {sink : Datum} {name : String} {names : List String}

/-- Looking for a name in something that is no mapping. -/
theorem straight_isNamed {d : Datum} : Straight (isNamed name d) := by
  cases d with
  | list | text => exact .ok _
  | null | bool | int | float | record => exact .error rfl

/-- Looking for the sink. -/
theorem straight_resolveSink : Straight (g.resolveSink sink) := by
  unfold resolveSink
  split
  · refine .bind (.bind Datum.straight_key fun _ _ => .ok _) fun found _ => ?_
    split
    · split
      · exact .ok _
      · exact .bind Datum.straight_plain fun _ _ => .error rfl
    · exact .bind Datum.straight_plain fun _ _ => .error rfl
  · exact .ok _

/-- Checking the values of a mapping. -/
theorem WellFormed.straight_checkBindings (h : g.WellFormed) (values : Fields) :
    ∀ {ns : List Node}, (∀ n ∈ ns, g.HasNode n) → Straight (g.checkBindings values ns)
  | [], _ => .ok _
  | n :: ns, hns => by
    obtain ⟨hn, hns⟩ := List.forall_mem_cons.1 hns
    have hrest := h.straight_checkBindings values hns
    rw [checkBindings]
    cases n.content with
    | number | binary | output => exact hrest
    | symbol name =>
      dsimp only
      cases Fields.get? values name with
      | none => exact hrest
      | some d =>
        refine .bind Number.straight_ofDatum fun v _ => .bind ?_ fun _ _ => hrest
        rw [(h.valid hn).id_eq]
        exact .of_refuses (g.constraints.refuses_check n.ident v.toDatum)

/-- Looking for variables in something that is no mapping. -/
theorem straight_checkNoBindings (d : Datum) : Straight (g.checkNoBindings d) := by
  rw [checkNoBindings, List.forM_eq_forM]
  induction g.nodesOfKind .symbol with
  | nil => exact .ok _
  | cons n ns ih =>
    rw [List.forM_cons]
    refine .bind ?_ fun _ _ => ih
    split
    · refine .bind straight_isNamed fun named _ => ?_
      split
      · exact .error rfl
      · exact .ok _
    · exact .ok _

/-- Checking the values for variables, and reading them later. -/
theorem WellFormed.straight_checkedBindings (h : g.WellFormed) (A : SymbolicAlgebra) (d : Datum) :
    Straight (g.checkedBindings A d) ∧ ∀ b, g.checkedBindings A d = .ok b → Straight b := by
  unfold checkedBindings
  split
  · next values =>
    have hchecked : Straight (g.checkBindings values (g.nodesOfKind .symbol)) :=
      h.straight_checkBindings values fun n hn => h.mem_nodes.1 (List.mem_filter.1 hn).1
    refine ⟨.bind hchecked fun _ _ => .ok _, fun b hb => ?_⟩
    obtain ⟨_, -, hb⟩ := ok_of_bind hb
    cases hb
    exact A.straight_readBindings values
  · split
    · refine ⟨.bind (straight_checkNoBindings d) fun _ _ => .ok _, fun b hb => ?_⟩
      obtain ⟨_, -, hb⟩ := ok_of_bind hb
      cases hb
      exact .error rfl
    · refine ⟨.ok _, fun b hb => ?_⟩
      cases hb
      exact .ok _

/-! ## Walks -/

/-- A walk that ends with a cycle went along one, for an emitter that refuses nothing for a
cycle. -/
theorem WellFormed.circuit_of_walk (h : g.WellFormed) {α : Type} {e : Emitter α}
    (he : ∀ op a b, Straight (e.binary op a b)) {out : Node} (hout : out ∈ g.sinks)
    (hwalk : g.walk e out = .error (.cycle name names)) :
      ∃ p first path n, out.inputs = [p] ∧ g.Feeds first p ∧
      g.Circuit first path n ∧ name = n.ident ∧ names = path.map Node.ident := by
  obtain ⟨g', h', hids, hnodes, hwires, hproducers⟩ := h.exists_named
  have hout' : out ∈ g'.sinks := by rwa [sinks, nodesOfKind, hnodes]
  rw [walk_congr hnodes.symm hproducers, walk] at hwalk
  obtain ⟨p, hp, hroot⟩ := root?_of_mem_sinks hout'
  cases hfirst : g'.root? out with
  | none =>
    rw [hfirst] at hwalk
    cases hwalk
  | some first =>
    have hfeeds := (producer?_eq_some h' hids).1 (hroot.symm.trans hfirst)
    rw [hfirst] at hwalk
    dsimp only at hwalk
    cases Walk.visit_first (e := e) h' hids hfeeds.1 hfeeds.content_ne with
    | done s' run stack path sound unfolds fold memo grows met cost =>
      obtain ⟨m, hm⟩ := Walk.budget_le (Nat.le_of_add_right_le cost)
      rw [hm, run, Walk.run_done stack] at hwalk
      cases hwalk
    | failed run cause fold cost =>
      obtain ⟨m, hm⟩ := Walk.budget_le cost
      rw [hm, run] at hwalk
      cases hwalk
      obtain hloop | ⟨n, op, l, r, left, right, a, b, -, -, -, -, -, -, -, hrefused⟩ := cause
      · obtain ⟨path, n, hcircuit, hname, hnames⟩ := hloop.exists_circuit h' hfeeds.1
        exact ⟨p, first, path, n, hp, hfeeds.mono hnodes hwires,
          hcircuit.mono hnodes hwires, hname, hnames⟩
      · exact ((he op a b).absurd hrefused).elim

/-- The sink that is found is an output node of the diagram. -/
theorem WellFormed.mem_sinks (h : g.WellFormed) {out : Node}
    (hsink : g.resolveSink sink = .ok (some out)) :
    out ∈ g.sinks := by
  unfold resolveSink at hsink
  split at hsink
  · obtain ⟨found, hfound, hsink⟩ := ok_of_bind hsink
    split at hsink
    · split at hsink
      · next hkind =>
        cases hsink
        exact List.mem_filter.2 ⟨h.mem_nodes.2 (h.hasNode_of_node? hfound), decide_eq_true hkind⟩
      · obtain ⟨_, -, hsink⟩ := ok_of_bind hsink
        cases hsink
    · obtain ⟨_, -, hsink⟩ := ok_of_bind hsink
      cases hsink
  · exact List.mem_of_head? (Except.ok.inj hsink)

/-- A cycle that is met on the way to a text is a circuit. -/
theorem WellFormed.circular_of_synthesize (h : g.WellFormed)
    (hcycle : g.synthesize sink = .error (.cycle name names)) : g.Circular sink name names := by
  obtain hsink | ⟨found, hsink, hcycle⟩ := error_of_bind hcycle
  · exact (straight_resolveSink.absurd hsink).elim
  cases found with
  | none => cases hcycle
  | some out =>
    obtain hwalk | ⟨walked, -, hcycle⟩ := error_of_bind hcycle
    · obtain ⟨p, first, path, n, hcircuit⟩ :=
        h.circuit_of_walk (e := textEmitter) (fun _ _ _ => .ok _) (h.mem_sinks hsink) hwalk
      exact ⟨out, p, first, path, n, hsink, hcircuit⟩
    · split at hcycle <;> cases hcycle

/-- A cycle that is met on the way to an algebraic form is a circuit. -/
theorem WellFormed.circular_of_algebraic (h : g.WellFormed) {A : SymbolicAlgebra}
    {b : Except Fault A.Bindings} (hb : Straight b)
    (hcycle : g.algebraic A b sink = .error (.cycle name names)) : g.Circular sink name names := by
  obtain hsink | ⟨found, hsink, hcycle⟩ := error_of_bind hcycle
  · exact (straight_resolveSink.absurd hsink).elim
  cases found with
  | none => cases hcycle
  | some out =>
    obtain hbindings | ⟨bs, -, hcycle⟩ := error_of_bind hcycle
    · exact (hb.absurd hbindings).elim
    obtain hwalk | ⟨walked, -, hcycle⟩ := error_of_bind hcycle
    · obtain ⟨p, first, path, n, hcircuit⟩ :=
        h.circuit_of_walk (e := A.emitter bs) A.straight_combine (h.mem_sinks hsink) hwalk
      exact ⟨out, p, first, path, n, hsink, hcircuit⟩
    · split at hcycle <;> cases hcycle

/-- So is one that is met on the way to a complete algebraic form. -/
theorem WellFormed.circular_of_completeAlgebraic (h : g.WellFormed) {A : SymbolicAlgebra}
    {b : Except Fault A.Bindings} (hb : Straight b)
    (hcycle : g.completeAlgebraic A b sink = .error (.cycle name names)) :
    g.Circular sink name names := by
  obtain hcycle | ⟨found, -, hcycle⟩ := error_of_bind hcycle
  · exact h.circular_of_algebraic hb hcycle
  · cases found <;> cases hcycle

/-- Whenever reading a diagram at the end of a run of edits ends with a cycle, the path goes along
one: from the node behind the sink, along wired binary nodes that differ, each feeding the one
before, and back to a node on it. -/
theorem circular_of_fails (hg : g.Reachable) (hcycle : g.Fails sink (.cycle name names)) :
    g.Circular sink name names := by
  have h := hg.wellFormed
  cases hcycle with
  | synthesize hcycle => exact h.circular_of_synthesize hcycle
  | algebraic hcycle => exact h.circular_of_algebraic (.ok _) hcycle
  | algebraicText hcycle =>
    obtain hcycle | ⟨found, -, hcycle⟩ := error_of_bind hcycle
    · exact h.circular_of_algebraic (.ok _) hcycle
    cases found with
    | none => cases hcycle
    | some e =>
      obtain hcycle | ⟨text, -, hcycle⟩ := error_of_bind hcycle
      · exact (Straight.of_datum.absurd hcycle).elim
      · cases hcycle
  | simplified hcycle =>
    obtain hcycle | ⟨e, -, hcycle⟩ := error_of_bind hcycle
    · exact h.circular_of_completeAlgebraic (.ok _) hcycle
    obtain hcycle | ⟨e', -, hcycle⟩ := error_of_bind hcycle
    · exact (Straight.of_datum.absurd hcycle).elim
    split at hcycle
    · cases hcycle
    · obtain hcycle | ⟨text, -, hcycle⟩ := error_of_bind hcycle
      · exact (Straight.of_datum.absurd hcycle).elim
      · cases hcycle
  | @evaluate A bindings hcycle =>
    obtain ⟨hchecked, hread⟩ := h.straight_checkedBindings A bindings
    obtain hcycle | ⟨b, hb, hcycle⟩ := error_of_bind hcycle
    · exact (hchecked.absurd hcycle).elim
    obtain hcycle | ⟨e, -, hcycle⟩ := error_of_bind hcycle
    · exact h.circular_of_completeAlgebraic (hread b hb) hcycle
    · exact ((A.straight_value e).absurd hcycle).elim

/-- A loop of two nodes, found on the right of a sum after all on its left is done, while an input
of a node beside it is fed under the empty text. -/
theorem circular_of_fails_right :
    let g := run [
      .create (.text "number") .null (.text "a"), .create (.text "add") .null (.text "s"),
      .create (.text "add") .null (.text "t"), .create (.text "divide") .null (.text "d"),
      .create (.text "multiply") .null (.text "u"), .create (.text "subtract") .null (.text "v"),
      .create (.text "output") .null (.text "o"), .connect (.text "a") (.text "s") (.int 0),
      .connect (.text "a") (.text "s") (.int 1),
      .addConnection (.text "s-out") (.text "d-in1") (.text ""),
      .connect (.text "a") (.text "d") (.int 1), .connect (.text "d") (.text "t") (.int 0),
      .connect (.text "u") (.text "t") (.int 1), .connect (.text "s") (.text "u") (.int 0),
      .connect (.text "v") (.text "u") (.int 1), .connect (.text "d") (.text "v") (.int 0),
      .connect (.text "u") (.text "v") (.int 1), .connect (.text "t") (.text "o") (.int 0)] {}
    g.Reachable ∧ g.synthesize .null = .error (.cycle "u" ["t", "u", "v"]) ∧
    g.Circular .null "u" ["t", "u", "v"] := by
  intro g
  have hg : g.Reachable := ⟨_, _, by simp [Edit.Textual], rfl⟩
  have hfault : (g.synthesize .null).casesOn some (fun _ => none) =
      some (Fault.cycle "u" ["t", "u", "v"]) := by
    decide +kernel
  have hcycle : g.synthesize .null = .error (.cycle "u" ["t", "u", "v"]) := by
    cases hread : g.synthesize .null with
    | error fault =>
      rw [hread] at hfault
      exact congrArg Except.error (Option.some.inj hfault)
    | ok s =>
      rw [hread] at hfault
      cases hfault
  exact ⟨hg, hcycle, circular_of_fails hg (.synthesize hcycle)⟩

end Diagram

end EquationStudio
