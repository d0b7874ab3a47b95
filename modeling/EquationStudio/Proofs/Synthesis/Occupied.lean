import EquationStudio.Proofs.Diagram.Damaged
import EquationStudio.Proofs.Synthesis.Walk
import EquationStudio.Synthesis.Report

/-!
# Inputs that are occupied

Whether an input port is taken is asked in two places. A new connection is refused if the port is
listed as fed; the synthesis looks the feeding connection up by its identity, and an identity that
counts as false, the empty text, is not looked for. `Diagram.Occupancy` is what both say of a port
in terms of the connections that lead to it. They agree exactly if no connection under the empty
text does.
-/

namespace EquationStudio.Diagram

variable {g : Diagram} {n m : Node} {p out : Port} {c : Connection}

/-- A connection of the diagram leads to a port. -/
def LeadsTo (g : Diagram) (c : Connection) (p : Port) : Prop :=
  c ∈ g.connections.values ∧ c.target = p.id

/-- Some connection leads to a port. -/
def Occupied (g : Diagram) (p : Port) : Prop := ∃ c, g.LeadsTo c p

/-- No connection leads to a port but perhaps one under the empty text. -/
def SeemsFree (g : Diagram) (p : Port) : Prop := ∀ c, g.LeadsTo c p → c.id = .ofText ""

/-- A new connection between two ports is refused because the second one is occupied. -/
def RefusesAsOccupied (g : Diagram) (out p : Port) (id : Datum) : Prop :=
  g.addConnection (.text out.id) (.text p.id) id = .error (.wiring (.occupied p.id))

/-- What is known of an input port of a node. -/
structure Occupancy (g : Diagram) (n : Node) (p : Port) : Prop where
  /-- One connection at most leads to the port. -/
  single : ∀ {c c'}, g.LeadsTo c p → g.LeadsTo c' p → c = c'
  /-- It is the one that is found to feed the port, unless it goes by the empty text. -/
  found : ∀ c, g.incoming? (.text p.id) = .ok (some c) ↔ g.LeadsTo c p ∧ c.id ≠ .ofText ""
  missed : g.incoming? (.text p.id) = .ok none ↔ g.SeemsFree p
  /-- The synthesis finds a node behind the port exactly if that connection is found: … -/
  producer : g.producer? p = none ↔ g.SeemsFree p
  /-- … an output node has nothing to read … -/
  sink : n ∈ g.sinks → (g.root? n = none ↔ g.SeemsFree p)
  /-- … and a binary node is degraded for an input that seems free. -/
  degraded : ∀ op, n.content = .binary op →
    (Walk.producers? g n = none ↔ ∃ q ∈ n.inputs, g.SeemsFree q)
  /-- A connection from another node is refused, whatever its identity, if one leads to the port
  … -/
  refused : ∀ m ∈ g.nodes.values, m ≠ n → ∀ out ∈ m.outputs, ∀ id, g.RefusesAsOccupied out p id ↔
    g.Occupied p
  /-- … and otherwise made, under a number if it is given no identity. -/
  accepted : ∀ m ∈ g.nodes.values, m ≠ n → ∀ out ∈ m.outputs, ¬ g.Occupied p →
    ∃ c g', g.addConnection (.text out.id) (.text p.id) .null = .ok (c, g') ∧ g'.LeadsTo c p
  /-- The synthesis and new connections agree about the port exactly if no connection under the
  empty text leads there. -/
  agree : ∀ m ∈ g.nodes.values, m ≠ n → ∀ out ∈ m.outputs, ∀ id,
    (g.producer? p = none ↔ ¬ g.RefusesAsOccupied out p id) ↔ ∀ c, g.LeadsTo c p → c.id ≠ .ofText ""

/-! ## Connections that are found -/

/-- An identity of a connection counts as true unless it is the empty text. -/
theorem WellFormed.isTruthy_id (h : g.WellFormed) (hc : g.HasWire c) :
    c.id.datum.isTruthy = true ↔ c.id ≠ .ofText "" := by
  obtain ⟨-, ⟨s, hs⟩, -⟩ := h.wire hc
  rw [hs]
  have hinj : Identity.ofText s = Identity.ofText "" ↔ s = "" :=
    ⟨fun he => Datum.text.inj (congrArg Identity.datum he), fun he => by rw [he]⟩
  rw [ne_eq, hinj]
  exact bne_iff_ne

/-- A connection leads to a port exactly if the port is listed as fed by it. -/
theorem WellFormed.leadsTo_iff (h : g.WellFormed) :
    g.LeadsTo c p ↔ g.HasWire c ∧ c.target = p.id := by
  rw [LeadsTo, h.mem_connections]

/-- A port is listed as fed exactly if it is occupied. -/
theorem WellFormed.contains_feeds (h : g.WellFormed) :
    g.feeds.contains (.text p.id) = true ↔ g.Occupied p := by
  rw [Table.contains_eq_isSome, Option.isSome_iff_exists]
  constructor
  · rintro ⟨i, hi⟩
    obtain ⟨c, hc, htarget, -⟩ := h.feed.1 hi
    exact ⟨c, h.leadsTo_iff.2 ⟨hc, (Key.text.inj htarget).symm⟩⟩
  · rintro ⟨c, hc⟩
    obtain ⟨hc, htarget⟩ := h.leadsTo_iff.1 hc
    exact ⟨c.id, h.feed.2 ⟨c, hc, by rw [htarget], rfl⟩⟩

/-- The connection that is found to feed a port is the one that leads there, unless it goes by the
empty text. -/
theorem WellFormed.feeding?_iff (h : g.WellFormed) :
    g.feeding? (.text p.id) = some c ↔ g.LeadsTo c p ∧ c.id ≠ .ofText "" := by
  rw [h.leadsTo_iff]
  simp only [feeding?, Option.bind_eq_bind, Option.bind_eq_some_iff]
  constructor
  · rintro ⟨i, hi, hc⟩
    obtain ⟨c', hc', htarget, rfl⟩ := h.feed.1 hi
    split at hc
    · next htruthy =>
      obtain rfl := Option.some.inj (hc'.symm.trans hc)
      exact ⟨⟨hc', (Key.text.inj htarget).symm⟩, (h.isTruthy_id hc').1 htruthy⟩
    · cases hc
  · rintro ⟨⟨hc, htarget⟩, hne⟩
    refine ⟨c.id, h.feed.2 ⟨c, hc, by rw [htarget], rfl⟩, ?_⟩
    rw [if_pos ((h.isTruthy_id hc).2 hne)]
    exact hc

/-- No connection is found for a port exactly if it seems free. -/
theorem WellFormed.feeding?_eq_none (h : g.WellFormed) :
    g.feeding? (.text p.id) = none ↔ g.SeemsFree p := by
  rw [Option.eq_none_iff_forall_ne_some]
  refine forall_congr' fun c => ?_
  rw [ne_eq, h.feeding?_iff, not_and, not_not]

/-- A node is found behind a port exactly if a connection is: its source belongs to a node. -/
theorem WellFormed.producer?_eq_none (h : g.WellFormed) : g.producer? p = none ↔ g.SeemsFree p := by
  rw [← h.feeding?_eq_none]
  simp only [producer?, Option.bind_eq_bind, Option.bind_eq_none_iff]
  constructor
  · intro hnone
    by_contra hsome
    obtain ⟨c, hc⟩ := Option.ne_none_iff_exists'.1 hsome
    obtain ⟨n, -, hn, -, -, ⟨out, hout, hsource⟩, -⟩ :=
      h.exists_nodes (h.leadsTo_iff.1 (h.feeding?_iff.1 hc).1).1
    have howner := (owner?_eq_some h).2 ⟨hn, out, Node.mem_ports.2 (.inr hout), hsource⟩
    cases (hnone c hc).symm.trans howner
  · intro hnone c hc
    cases hnone.symm.trans hc

/-- A binary node has no two producers exactly if one of its inputs seems free. -/
theorem WellFormed.producers?_iff (h : g.WellFormed) {op : Operator}
    (hop : n.content = .binary op) :
    Walk.producers? g n = none ↔ ∃ q ∈ n.inputs, g.SeemsFree q := by
  obtain ⟨p, q, hinputs⟩ := exists_inputs hop
  simp only [Walk.producers?, hinputs, List.mem_cons, List.not_mem_nil, or_false,
    exists_eq_or_imp, exists_eq_left, ← h.producer?_eq_none]
  cases g.producer? p <;> cases g.producer? q <;> simp

/-! ## Connections that are refused -/

/-- The check of a new connection between nodes that differ depends on the target alone. -/
theorem WellFormed.checkWire_eq (h : g.WellFormed) (hn : g.HasNode n)
    (hm : g.HasNode m) (hne : m ≠ n) (hp : p ∈ n.inputs) (hout : out ∈ m.outputs) :
    g.checkWire (.text out.id) (.text p.id) =
      if g.feeds.contains (.text p.id) then .error (.wiring (.occupied p.id))
      else .ok (out, p) := by
  have hp' := Node.mem_ports.2 (.inl hp)
  have hout' := Node.mem_ports.2 (.inr hout)
  have hport : ∀ {q : Port} {k : Node}, g.HasNode k → q ∈ k.ports →
      g.port? (.text q.id) = .ok (some q) := by
    intro q k hk hq
    rw [port?, Datum.key, ok_bind, h.get?_port hk hq]
    rfl
  have hapart : ¬ out.owner.datum.equal p.owner.datum = true := by
    refine mt Identity.key_eq_of_equal fun he => hne ?_
    rw [Node.owner_of_mem_ports hout', Node.owner_of_mem_ports hp', (h.valid hm).key_eq,
      (h.valid hn).key_eq] at he
    exact WellFormed.node_unique hm hn (Key.text.inj he)
  rw [checkWire, hport hm hout', ok_bind, hport hn hp', ok_bind]
  dsimp only
  rw [if_neg (not_not.2 ((Node.side_eq_output hout').2 hout)),
    if_neg (not_not.2 ((Node.side_eq_input hp').2 hp)),
    if_neg hapart]
  rfl

/-- No identity is refused as an occupied port. -/
theorem connectionId_ne_occupied (g : Diagram) (id : Datum) (port : String) :
    g.connectionId id ≠ .error (.wiring (.occupied port)) := by
  have hkey : id.key ≠ .error (.wiring (.occupied port)) := by cases id <;> nofun
  have hplain : id.plain ≠ .error (.wiring (.occupied port)) := by
    cases id with
    | text s => nofun
    | _ => exact fun h => absurd (Datum.fault_of_display h) nofun
  intro hrefused
  unfold connectionId at hrefused
  split at hrefused
  · obtain hrefused | ⟨i, -, hrefused⟩ := error_of_bind hrefused
    · unfold Identity.ofDatum at hrefused
      split at hrefused
      · cases hrefused
      · next hfault =>
        cases hrefused
        exact hkey hfault
    · split at hrefused
      · obtain hrefused | ⟨s, -, hrefused⟩ := error_of_bind hrefused
        · exact hplain hrefused
        · cases hrefused
      · cases hrefused
  · cases hrefused

/-- A connection from another node is refused as occupying an occupied port exactly if a connection
leads there. -/
theorem WellFormed.refusesAsOccupied_iff (h : g.WellFormed) (hn : g.HasNode n)
    (hm : g.HasNode m) (hne : m ≠ n) (hp : p ∈ n.inputs) (hout : out ∈ m.outputs) (id : Datum) :
    g.RefusesAsOccupied out p id ↔ g.Occupied p := by
  rw [RefusesAsOccupied, addConnection, h.checkWire_eq hn hm hne hp hout, ← h.contains_feeds]
  split
  · next hfed => exact iff_of_true rfl hfed
  · next hfree =>
    refine iff_of_false (fun hrefused => ?_) hfree
    rw [ok_bind] at hrefused
    obtain hrefused | ⟨_, -, hrefused⟩ := error_of_bind hrefused
    · exact connectionId_ne_occupied g id p.id hrefused
    · cases hrefused

/-- A connection from another node to a port that is not occupied is made under a number. -/
theorem WellFormed.addConnection_null (h : g.WellFormed) (hn : g.HasNode n)
    (hm : g.HasNode m) (hne : m ≠ n) (hp : p ∈ n.inputs) (hout : out ∈ m.outputs)
    (hfree : ¬ g.Occupied p) :
    ∃ c g', g.addConnection (.text out.id) (.text p.id) .null = .ok (c, g') ∧ g'.LeadsTo c p := by
  rw [← h.contains_feeds] at hfree
  let c : Connection := ⟨g.freshConnectionId.1, out.id, p.id⟩
  refine ⟨c, { g with nextConnection := g.freshConnectionId.2 }.addWire c, ?_,
    Table.mem_values.2 ⟨c.id.key, ?_⟩, rfl⟩
  · rw [addConnection, h.checkWire_eq hn hm hne hp hout, if_neg hfree]
    rfl
  · rw [Diagram.addWire, Table.get?_insert, if_pos rfl]

/-! ## Both views -/

/-- What is known of each input port of each node of a diagram at the end of a run of edits,
whatever texts its connections go by. -/
theorem occupancy (hg : g.Reachable) (hn : n ∈ g.nodes.values)
    (hp : p ∈ n.inputs) : g.Occupancy n p := by
  have h := hg.wellFormed
  have hn' := h.mem_nodes.1 hn
  have hincoming : g.incoming? (.text p.id) = .ok (g.feeding? (.text p.id)) := rfl
  have hrefused : ∀ m ∈ g.nodes.values, m ≠ n → ∀ out ∈ m.outputs, ∀ id,
      g.RefusesAsOccupied out p id ↔ g.Occupied p := fun m hm hne out hout id =>
    h.refusesAsOccupied_iff hn' (h.mem_nodes.1 hm) hne hp hout id
  refine ⟨fun {c c'} hc hc' => ?_, fun c => ?_, ?_, h.producer?_eq_none, fun hsink => ?_,
    fun op => h.producers?_iff, hrefused, fun m hm hne out hout hfree => ?_,
    fun m hm hne out hout id => ?_⟩
  · rw [h.leadsTo_iff] at hc hc'
    exact h.wire_unique hc.1 hc'.1 (hc.2.trans hc'.2.symm)
  · rw [hincoming, Except.ok.injEq, h.feeding?_iff]
  · rw [hincoming, Except.ok.injEq, h.feeding?_eq_none]
  · obtain ⟨q, hq, hroot⟩ := root?_of_mem_sinks hsink
    rw [hq, List.mem_singleton] at hp
    rw [hroot, ← hp, h.producer?_eq_none]
  · exact h.addConnection_null hn' (h.mem_nodes.1 hm) hne hp hout hfree
  · rw [hrefused m hm hne out hout id, h.producer?_eq_none]
    constructor
    · intro hagree c hc hid
      have hfree : g.SeemsFree p := fun c' hc' => by
        rw [h.leadsTo_iff] at hc hc'
        rwa [h.wire_unique hc'.1 hc.1 (hc'.2.trans hc.2.symm)]
      exact hagree.1 hfree ⟨c, hc⟩
    · intro hnamed
      exact ⟨fun hfree ⟨c, hc⟩ => hnamed c hc (hfree c hc), fun hfree c hc => absurd ⟨c, hc⟩ hfree⟩

/-- A sum with one summand under the empty text: nothing is found to feed that input, and it takes
no other connection. -/
theorem occupancy_summands :
    let g := run [
      .create (.text "number") .null .null, .create (.text "add") .null .null,
      .create (.text "output") .null .null,
      .addConnection (.text "n1-out") (.text "n2-in1") (.text ""),
      .addConnection (.text "n1-out") (.text "n2-in2") (.text "right"),
      .connect (.text "n2") (.text "n3") (.int 0)] {}
    g.Reachable ∧ g.connections.values.map Connection.target = ["n2-in1", "n2-in2", "n3-in"] ∧
      (g.nodes.values.flatMap fun n => n.inputs.map fun p => (g.producer? p).map Node.ident) =
        [none, some "n1", some "n2"] ∧
      ∀ n ∈ g.nodes.values, ∀ p ∈ n.inputs, g.Occupancy n p := by
  intro g
  have hg : g.Reachable := ⟨_, _, by simp [Edit.Textual], rfl⟩
  exact ⟨hg, by decide +kernel, by decide +kernel, fun n hn p hp => occupancy hg hn hp⟩

/-- A number on an output under the empty text: the synthesis and the report take the output for
unconnected, and yet nothing can be connected to it. -/
theorem occupied_unnamed :
    let g := run [
      .create (.text "number") .null .null, .create (.text "output") .null .null,
      .addConnection (.text "n1-out") (.text "n2-in") (.text "")] {}
    g.Reachable ∧ (∃ n ∈ g.nodes.values, ∃ p ∈ n.inputs, g.Occupied p ∧
        g.incoming? (.text p.id) = .ok none ∧
        g.producer? p = none ∧
        ∃ m ∈ g.nodes.values, m.ident ≠ n.ident ∧
        ∃ out ∈ m.outputs, g.RefusesAsOccupied out p .null) ∧
      (g.report .null).map Report.errors = .ok ["The OUTPUT node has no input"] := by
  intro g
  have hg : g.Reachable := ⟨_, _, by simp [Edit.Textual], rfl⟩
  have h := hg.wellFormed
  refine ⟨hg, ?_, by decide +kernel⟩
  obtain ⟨n, hn, p, hp, hoccupied, hempty, m, hm, hne, houtputs⟩ :
      ∃ n ∈ g.nodes.values, ∃ p ∈ n.inputs,
      (∃ c ∈ g.connections.values, c.target = p.id) ∧
      (∀ c ∈ g.connections.values, c.target = p.id → c.id.key = .text "") ∧
      ∃ m ∈ g.nodes.values, m.ident ≠ n.ident ∧ m.outputs.length ≠ 0 := by decide +kernel
  obtain ⟨out, hout⟩ := List.exists_mem_of_length_pos (Nat.pos_of_ne_zero houtputs)
  have hfree : g.SeemsFree p := fun c hc => Identity.eq_ofText (hempty c hc.1 hc.2)
  refine ⟨n, hn, p, hp, hoccupied, congrArg Except.ok (h.feeding?_eq_none.2 hfree),
    h.producer?_eq_none.2 hfree, m, hm, hne, out, hout, ?_⟩
  exact (h.refusesAsOccupied_iff (h.mem_nodes.1 hn) (h.mem_nodes.1 hm) (fun he =>
    hne (he ▸ rfl)) hp hout
    .null).2 hoccupied

end EquationStudio.Diagram
