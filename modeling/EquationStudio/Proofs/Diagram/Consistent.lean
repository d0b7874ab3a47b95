import EquationStudio.Proofs.Diagram.WellFormed

/-!
# What the tables of a diagram say of each other

`Diagram.Consistent` is what a reader of a diagram's tables may rely on: which ports there are and
whose they are, what a connection joins, what feeds a port, what a constraint is attached to, and
what nodes carry. `Diagram.run_consistent` proves it for the diagrams after all runs of edits,
carried out or refused.
-/

namespace EquationStudio

/-- The sides and the names of the ports that a kind prescribes, in order. -/
def NodeKind.layout : NodeKind → List (Side × String)
  | .number | .symbol => [(.output, "out")]
  | .binary _ => [(.input, "in1"), (.input, "in2"), (.output, "out")]
  | .output => [(.input, "in")]

namespace Diagram

/-- What the tables of a diagram say of each other. -/
structure Consistent (g : Diagram) : Prop where
  /-- A node stands under its identity, which is a text. -/
  identities : ∀ k n, g.nodes.get? k = some n → k = n.id.key ∧ n.id = .ofText n.ident
  /-- The ports that are listed are those of the nodes … -/
  ports : ∀ k p, g.ports.get? k = some p ↔ ∃ n ∈ g.nodes.values, p ∈ n.ports ∧ k = .text p.id
  /-- … as their kinds prescribe them, owned by the nodes … -/
  layout : ∀ n ∈ g.nodes.values,
    n.ports = n.kind.layout.map fun (side, name) => ⟨n.ident ++ "-" ++ name, n.id, side⟩
  /-- … and no two of them have one identity. -/
  owner : ∀ n ∈ g.nodes.values, ∀ m ∈ g.nodes.values, ∀ p ∈ n.ports, ∀ q ∈ m.ports,
    p.id = q.id → n = m ∧ p = q
  /-- A connection goes from an output of one node to an input of another. -/
  wires : ∀ c ∈ g.connections.values, ∃ n ∈ g.nodes.values, ∃ m ∈ g.nodes.values,
    n.ident ≠ m.ident ∧
    (∃ out ∈ n.outputs, out.id = c.source) ∧ ∃ into ∈ m.inputs, into.id = c.target
  /-- No two connections go to one input. -/
  single : ∀ c ∈ g.connections.values, ∀ c' ∈ g.connections.values, c.target = c'.target → c = c'
  /-- A port is fed by the connection to it, and by no other. -/
  feeds : ∀ k i, g.feeds.get? k = some i ↔ ∃ c ∈ g.connections.values, k = .text c.target ∧ i = c.id
  /-- The target of a constraint is a node that carries a number or a variable. -/
  targets : ∀ k a, g.constraints.table.get? k = some a →
    ∃ n ∈ g.nodes.values, k = n.id.key ∧ a.target = n.id ∧ (n.kind = .number ∨ n.kind = .symbol)
  /-- A number is finite, and the editor takes it as it is. -/
  numbers : ∀ n ∈ g.nodes.values, ∀ v, n.content = .number v →
    v.toDouble?.isSome = true ∧ Number.ofDatum v.toDatum = .ok v
  /-- A variable has a name, of letters and digits, that is not too long. -/
  names : ∀ n ∈ g.nodes.values, ∀ name, n.content = .symbol name →
    isVariableName name.toList = true ∧ name.length ≤ variableLimit
  /-- No label is blank. -/
  labels : ∀ n ∈ g.nodes.values, isBlankText n.label = false

/-- The ports of a node are those that its kind prescribes. -/
theorem ports_eq_layout (n : Node) :
    n.ports = n.kind.layout.map fun (side, name) => ⟨n.ident ++ "-" ++ name, n.id, side⟩ := by
  simp only [Node.ports, Node.inputs, Node.outputs]
  cases n.kind <;> rfl

/-- A double that the editor takes for a number is finite. -/
theorem finite_of_ofDouble {x : Double} {v : Number} (h : Number.ofDouble x = .ok v) :
    ∃ y, x = .finite y := by
  cases x with
  | finite y => exact ⟨y, rfl⟩
  | _ => cases h

/-- A number that the editor takes is finite. -/
theorem isSome_toDouble? {v : Number} (h : Number.ofDatum v.toDatum = .ok v) :
    v.toDouble?.isSome = true := by
  cases v with
  | real x => rfl
  | whole n =>
    rw [Number.toDatum, Number.ofDatum] at h
    obtain ⟨y, hy⟩ := finite_of_ofDouble h
    rw [Number.toDouble?, FiniteDouble.ofInt?, hy]
    rfl

/-- The tables of a well-formed diagram are consistent. -/
theorem WellFormed.consistent {g : Diagram} (h : g.WellFormed) : g.Consistent where
  identities k n hn := by
    obtain ⟨rfl, hvalid⟩ := h.node hn
    exact ⟨hvalid.key_eq.symm, hvalid.id_eq⟩
  ports k p := by
    rw [h.port]
    constructor
    · rintro ⟨hk, n, hn, hp⟩
      exact ⟨n, h.mem_nodes.2 hn, hp, hk⟩
    · rintro ⟨n, hn, hp, hk⟩
      exact ⟨hk, n, h.mem_nodes.1 hn, hp⟩
  layout n _ := ports_eq_layout n
  owner n hn m hm p hp q hq he := port_unique (h.mem_nodes.1 hn) (h.mem_nodes.1 hm) hp hq he
  wires c hc := by
    obtain ⟨n, m, hn, hm, hrest⟩ := h.exists_nodes (h.mem_connections.1 hc)
    exact ⟨n, h.mem_nodes.2 hn, m, h.mem_nodes.2 hm, hrest⟩
  single c hc c' hc' he := h.wire_unique (h.mem_connections.1 hc) (h.mem_connections.1 hc') he
  feeds k i := by
    rw [h.feed]
    constructor
    · rintro ⟨c, hc, hk, rfl⟩
      exact ⟨c, h.mem_connections.2 hc, hk, rfl⟩
    · rintro ⟨c, hc, hk, rfl⟩
      exact ⟨c, h.mem_connections.1 hc, hk, rfl⟩
  targets k a ha := by
    obtain ⟨n, hn, hkind⟩ := h.target ha
    obtain ⟨rfl, hvalid⟩ := h.node hn
    obtain ⟨htarget, -⟩ := h.compatible _ _ ha
    refine ⟨n, h.mem_nodes.2 hn, hvalid.key_eq.symm, ?_, hkind⟩
    rw [Identity.eq_ofText htarget, hvalid.id_eq]
  numbers n hn v hv := by
    have hcontent := (h.valid (h.mem_nodes.1 hn)).content
    rw [hv] at hcontent
    exact ⟨isSome_toDouble? hcontent, hcontent⟩
  names n hn name hname := by
    have hcontent := (h.valid (h.mem_nodes.1 hn)).content
    rw [hname] at hcontent
    exact isVariableName_of_readVariable hcontent
  labels n hn := (h.valid (h.mem_nodes.1 hn)).label.not_blank

/-- After every run of edits that give texts as identities, the tables of the diagram are
consistent, whether the edits were carried out or refused. -/
theorem run_consistent (edits : List Edit) (supply : Supply) (h : ∀ e ∈ edits, e.Textual) :
    (run edits supply).Consistent :=
  WellFormed.consistent (Reachable.wellFormed ⟨edits, supply, h, rfl⟩)

/-- A run in which the identity of a node is that of another's port, an input is asked for twice,
and a wired node is removed. -/
theorem run_consistent_sum :
    let edits : List Edit := [
      .create (.text "add") .null (.text "s"), .create (.text "number") .null (.text "s-in1"),
      .create (.text "variable") .null .null, .create (.text "output") .null (.text "s"),
      .create (.text "output") .null (.text "t"), .setValue (.text "s-in1") (.text " 1e3 "),
      .connect (.text "s-in1") (.text "s") (.int 0), .connect (.text "n1") (.text "s") (.int 0),
      .connect (.text "n1") (.text "s") (.int 1), .connect (.text "s") (.text "t") (.int 0),
      .removeNode (.text "n1")]
    (∀ e ∈ edits, e.Textual) ∧ (run edits {}).Consistent ∧
      (run edits {}).nodes.values.map Node.ident = ["s", "s-in1", "t"] ∧
      (run edits {}).connections.values.map Connection.target = ["s-in1", "t-in"] := by
  intro edits
  have hedits : ∀ e ∈ edits, e.Textual := by simp [edits, Edit.Textual]
  exact ⟨hedits, run_consistent edits {} hedits, by decide +kernel, by decide +kernel⟩

end Diagram

end EquationStudio
