import EquationStudio.Proofs.Diagram.WellFormed
import EquationStudio.Synthesis.Walk
import Mathlib.Logic.Relation

/-!
# The formula behind a node

What a diagram means can be said without a walk: a node with both inputs fed is its operator between
what feeds them, and a binary node with a loose input stands for itself. `Unfolds` relates a node to
the tree that this gives, `Formula.fold` is what an emitter makes of the tree, and
`Formula.looseNodes` lists the nodes in it that stand for themselves, from left to right.

A node has at most one formula (`Unfolds.unique`), and none if a cycle is reached from it
(`Unfolds.not_cycleBehind`). `Diagram.producer?_eq_some` ties the look-ups of the model to the
connections.
-/

namespace EquationStudio

/-! ## What feeds a port -/

namespace Diagram

variable {g : Diagram}

/-- A node of whose outputs a connection leads to a port. -/
def Feeds (g : Diagram) (m : Node) (p : Port) : Prop :=
  g.HasNode m ∧ ∃ c, g.HasWire c ∧ c.target = p.id ∧ ∃ out ∈ m.outputs, out.id = c.source

/-- A binary node whose two inputs are fed, with the nodes that feed them. -/
def Wired (g : Diagram) (n l r : Node) : Prop :=
  ∃ p q, n.inputs = [p, q] ∧ g.Feeds l p ∧ g.Feeds r q

/-- A binary node with an input that nothing feeds. -/
def Loose (g : Diagram) (n : Node) : Prop :=
  (∃ op, n.content = .binary op) ∧ ∃ p ∈ n.inputs, ∀ m, ¬ g.Feeds m p

/-- A binary node whose two inputs are fed, and one of the nodes that feed them. -/
def Edge (g : Diagram) (n m : Node) : Prop :=
  ∃ op l r, n.content = .binary op ∧ g.Wired n l r ∧ (m = l ∨ m = r)

/-- A node that is reached from another along edges. -/
abbrev Reaches (g : Diagram) : Node → Node → Prop := Relation.ReflTransGen g.Edge

/-- A cycle of edges is reached from a node. -/
def CycleBehind (g : Diagram) (n : Node) : Prop :=
  ∃ m, g.Reaches n m ∧ Relation.TransGen g.Edge m m

/-- Connections whose identities count as given: texts that are not empty. -/
def NamedWires (g : Diagram) : Prop := ∀ c ∈ g.connections.values, c.id.datum.isTruthy = true

instance (g : Diagram) : Decidable g.NamedWires :=
  inferInstanceAs (Decidable (∀ c ∈ g.connections.values, c.id.datum.isTruthy = true))

/-- A port is fed by one node at most. -/
theorem Feeds.unique (h : g.WellFormed) {l m : Node} {p : Port} (hl : g.Feeds l p)
    (hm : g.Feeds m p) : l = m := by
  obtain ⟨hl, c, hc, ht, out, hout, hs⟩ := hl
  obtain ⟨hm, c', hc', ht', out', hout', hs'⟩ := hm
  obtain rfl := h.wire_unique hc hc' (ht.trans ht'.symm)
  exact (WellFormed.port_unique hl hm (Node.mem_ports.2 (.inr hout)) (Node.mem_ports.2 (.inr hout'))
    (hs.trans hs'.symm)).1

/-- A node that feeds a port carries something. -/
theorem Feeds.content_ne {m : Node} {p : Port} (hm : g.Feeds m p) : m.content ≠ .output := by
  obtain ⟨-, c, -, -, out, hout, -⟩ := hm
  obtain ⟨name, hname, -⟩ := Node.mem_outputs.1 hout
  intro hcontent
  rw [Node.kind, hcontent] at hname
  cases hname

/-- A node is wired in one way at most. -/
theorem Wired.unique (h : g.WellFormed) {n l r l' r' : Node} (hw : g.Wired n l r)
    (hw' : g.Wired n l' r') : l = l' ∧ r = r' := by
  obtain ⟨p, q, hn, hl, hr⟩ := hw
  obtain ⟨p', q', hn', hl', hr'⟩ := hw'
  rw [hn] at hn'
  cases hn'
  exact ⟨hl.unique h hl', hr.unique h hr'⟩

/-- A node is not both wired and loose. -/
theorem Wired.not_loose {n l r : Node} (hw : g.Wired n l r) : ¬ g.Loose n := by
  rintro ⟨-, p', hp', hnone⟩
  obtain ⟨p, q, hn, hl, hr⟩ := hw
  rw [hn, List.mem_cons, List.mem_singleton] at hp'
  rcases hp' with rfl | rfl
  · exact hnone l hl
  · exact hnone r hr

/-- The nodes that feed a wired binary node are reached along edges. -/
theorem Wired.edge {n l r : Node} {op : Operator} (hop : n.content = .binary op)
    (hw : g.Wired n l r) : g.Edge n l ∧ g.Edge n r :=
  ⟨⟨op, l, r, hop, hw, .inl rfl⟩, ⟨op, l, r, hop, hw, .inr rfl⟩⟩

/-- The node at the end of an edge is a node of the diagram. -/
theorem Edge.hasNode {n m : Node} (he : g.Edge n m) : g.HasNode m := by
  obtain ⟨op, l, r, -, ⟨p, q, -, hl, hr⟩, rfl | rfl⟩ := he
  · exact hl.1
  · exact hr.1

/-- A node that is reached is a node of the diagram. -/
theorem hasNode_of_reaches {n m : Node} (hn : g.HasNode n) (h : g.Reaches n m) : g.HasNode m := by
  rcases Relation.ReflTransGen.cases_tail h with rfl | ⟨_, -, he⟩
  · exact hn
  · exact he.hasNode

/-- The node at the end of an edge carries something. -/
theorem Edge.content_ne {n m : Node} (he : g.Edge n m) : m.content ≠ .output := by
  obtain ⟨op, l, r, -, ⟨p, q, -, hl, hr⟩, rfl | rfl⟩ := he
  · exact hl.content_ne
  · exact hr.content_ne

/-! ## Look-ups of producers -/

/-- The connection that is found to feed a port is the one that leads there. -/
theorem feeding?_eq_some (h : g.WellFormed) (hids : g.NamedWires) {id : String} {c : Connection} :
    g.feeding? (.text id) = some c ↔ g.HasWire c ∧ c.target = id := by
  simp only [feeding?, Option.bind_eq_bind, Option.bind_eq_some_iff]
  constructor
  · rintro ⟨i, hi, hc⟩
    obtain ⟨c', hc', ht, rfl⟩ := h.feed.1 hi
    split at hc
    · obtain rfl := Option.some.inj (hc'.symm.trans hc)
      exact ⟨hc', (Key.text.inj ht).symm⟩
    · cases hc
  · rintro ⟨hc, rfl⟩
    refine ⟨c.id, h.feed.2 ⟨c, hc, rfl, rfl⟩, ?_⟩
    rw [if_pos (hids c (h.mem_connections.2 hc))]
    exact hc

/-- The node that a port is listed for is the one that has it. -/
theorem owner?_eq_some (h : g.WellFormed) {id : String} {m : Node} :
    g.owner? (.text id) = some m ↔ g.HasNode m ∧ ∃ p ∈ m.ports, p.id = id := by
  simp only [owner?, Option.bind_eq_bind, Option.bind_eq_some_iff]
  constructor
  · rintro ⟨p, hp, hm⟩
    obtain ⟨hk, n, hn, hpn⟩ := h.port.1 hp
    rw [Node.owner_of_mem_ports hpn, h.get?_id hn] at hm
    cases hm
    exact ⟨hn, p, hpn, (Key.text.inj hk).symm⟩
  · rintro ⟨hm, p, hp, rfl⟩
    refine ⟨p, h.get?_port hm hp, ?_⟩
    rw [Node.owner_of_mem_ports hp, h.get?_id hm]

/-- The producer that is found for a port is the node that feeds it. -/
theorem producer?_eq_some (h : g.WellFormed) (hids : g.NamedWires) {p : Port} {m : Node} :
    g.producer? p = some m ↔ g.Feeds m p := by
  simp only [producer?, Option.bind_eq_bind, Option.bind_eq_some_iff, feeding?_eq_some h hids,
    owner?_eq_some h]
  constructor
  · rintro ⟨c, ⟨hc, ht⟩, hm, out, hout, hs⟩
    obtain ⟨n, -, hn, -, -, ⟨out', hout', hs'⟩, -⟩ := h.exists_nodes hc
    obtain ⟨rfl, rfl⟩ := WellFormed.port_unique hm hn hout (Node.mem_ports.2 (.inr hout'))
      (hs.trans hs'.symm)
    exact ⟨hm, c, hc, ht, out, hout', hs⟩
  · rintro ⟨hm, c, hc, ht, out, hout, hs⟩
    exact ⟨c, ⟨hc, ht⟩, hm, out, Node.mem_ports.2 (.inr hout), hs⟩

/-- No producer is found for a port that no node feeds. -/
theorem producer?_eq_none (h : g.WellFormed) (hids : g.NamedWires) {p : Port} :
    g.producer? p = none ↔ ∀ m, ¬ g.Feeds m p := by
  simp only [Option.eq_none_iff_forall_ne_some, ne_eq, producer?_eq_some h hids]

/-- A binary node has two inputs. -/
theorem exists_inputs {n : Node} {op : Operator} (hop : n.content = .binary op) :
    ∃ p q, n.inputs = [p, q] := by
  rw [Node.inputs, Node.kind, hop]
  exact ⟨_, _, rfl⟩

/-- The producers that are found for a node are those that wire it. -/
theorem producers?_eq_some (h : g.WellFormed) (hids : g.NamedWires) {n l r : Node} :
    Walk.producers? g n = some (l, r) ↔ g.Wired n l r := by
  unfold Walk.producers?
  constructor
  · intro hf
    split at hf
    · next p q hn =>
      obtain ⟨l', hl, hf⟩ := Option.bind_eq_some_iff.1 hf
      obtain ⟨r', hr, hf⟩ := Option.bind_eq_some_iff.1 hf
      cases hf
      exact ⟨p, q, hn, (producer?_eq_some h hids).1 hl, (producer?_eq_some h hids).1 hr⟩
    · cases hf
  · rintro ⟨p, q, hn, hl, hr⟩
    rw [hn]
    simp only [(producer?_eq_some h hids).2 hl, (producer?_eq_some h hids).2 hr,
      Option.bind_eq_bind, Option.bind_some]
    rfl

/-- No producers are found for a binary node exactly if it is loose. -/
theorem producers?_eq_none (h : g.WellFormed) (hids : g.NamedWires) {n : Node} {op : Operator}
    (hop : n.content = .binary op) : Walk.producers? g n = none ↔ g.Loose n := by
  constructor
  · intro hnone
    obtain ⟨p, q, hn⟩ := exists_inputs hop
    refine ⟨⟨op, hop⟩, ?_⟩
    by_contra hall
    simp only [hn, List.mem_cons, List.not_mem_nil, or_false, exists_eq_or_imp, exists_eq_left,
      not_or, not_forall, not_not] at hall
    obtain ⟨⟨l, hl⟩, r, hr⟩ := hall
    rw [(producers?_eq_some h hids).2 ⟨p, q, hn, hl, hr⟩] at hnone
    cases hnone
  · intro hloose
    by_contra hsome
    obtain ⟨⟨l, r⟩, hlr⟩ := Option.ne_none_iff_exists'.1 hsome
    exact ((producers?_eq_some h hids).1 hlr).not_loose hloose

end Diagram

/-! ## Formulas -/

/-- The tree of an expression. A binary node with a loose input stands for itself. -/
inductive Formula where
  | number (v : Number)
  | symbol (name : String)
  | join (op : Operator) (left right : Formula)
  | loose (n : Node)

namespace Formula

variable {α : Type}

/-- What an emitter makes of a formula. -/
def fold (e : Emitter α) : Formula → Except Fault α
  | number v => .ok (e.number v)
  | symbol name => .ok (e.symbol name)
  | join op left right => do
    let a ← left.fold e
    let b ← right.fold e
    e.binary op a b
  | loose n => .ok (e.degraded n)

/-- The nodes in a formula that stand for themselves, from left to right. -/
def looseNodes : Formula → List Node
  | number _ | symbol _ => []
  | join _ left right => left.looseNodes ++ right.looseNodes
  | loose n => [n]

/-- How many parts a formula has. -/
def size : Formula → Nat
  | join _ left right => left.size + right.size + 1
  | number _ | symbol _ | loose _ => 1

end Formula

/-- A node behind which a formula is written, read off backwards from the node. -/
inductive Unfolds (g : Diagram) : Node → Formula → Prop
  | number {n : Node} {v : Number} (h : n.content = .number v) : Unfolds g n (.number v)
  | symbol {n : Node} {name : String} (h : n.content = .symbol name) : Unfolds g n (.symbol name)
  | join {n l r : Node} {op : Operator} {left right : Formula} (h : n.content = .binary op)
      (hw : g.Wired n l r) (hl : Unfolds g l left) (hr : Unfolds g r right) :
      Unfolds g n (.join op left right)
  | loose {n : Node} (h : g.Loose n) : Unfolds g n (.loose n)

namespace Unfolds

variable {g : Diagram} {n : Node} {t : Formula}

/-- A node has one formula at most. -/
theorem unique (hg : g.WellFormed) {t' : Formula} (h : Unfolds g n t) (h' : Unfolds g n t') :
    t = t' := by
  induction h generalizing t' with
  | number h =>
    cases h' with
    | number h' => cases h.symm.trans h'; rfl
    | symbol h' | join h' => cases h.symm.trans h'
    | loose h' =>
      obtain ⟨⟨op, hop⟩, -⟩ := h'
      cases h.symm.trans hop
  | symbol h =>
    cases h' with
    | symbol h' => cases h.symm.trans h'; rfl
    | number h' | join h' => cases h.symm.trans h'
    | loose h' =>
      obtain ⟨⟨op, hop⟩, -⟩ := h'
      cases h.symm.trans hop
  | join h hw _ _ ihl ihr =>
    cases h' with
    | number h' | symbol h' => cases h.symm.trans h'
    | join h' hw' hl' hr' =>
      cases h.symm.trans h'
      obtain ⟨rfl, rfl⟩ := hw.unique hg hw'
      rw [ihl hl', ihr hr']
    | loose h' => exact absurd h' hw.not_loose
  | loose h =>
    cases h' with
    | number h' | symbol h' =>
      obtain ⟨⟨op, hop⟩, -⟩ := h
      cases h'.symm.trans hop
    | join h' hw' => exact absurd h hw'.not_loose
    | loose => rfl

/-- The formula of a wired node joins those of its producers. -/
theorem exists_join (hg : g.WellFormed) (h : Unfolds g n t) {op : Operator} {l r : Node}
    (hop : n.content = .binary op) (hw : g.Wired n l r) :
    ∃ left right, t = .join op left right ∧ Unfolds g l left ∧ Unfolds g r right := by
  cases h with
  | number h | symbol h => cases h.symm.trans hop
  | loose h => exact absurd h hw.not_loose
  | join h hw' hl hr =>
    obtain ⟨rfl, rfl⟩ := hw.unique hg hw'
    cases h.symm.trans hop
    exact ⟨_, _, rfl, hl, hr⟩

/-- The formula of a node at the end of an edge is smaller. -/
theorem edge (hg : g.WellFormed) (h : Unfolds g n t) {m : Node} (he : g.Edge n m) :
    ∃ t', Unfolds g m t' ∧ t'.size < t.size := by
  obtain ⟨op, l, r, hop, hw, hm⟩ := he
  obtain ⟨left, right, rfl, hl, hr⟩ := h.exists_join hg hop hw
  rcases hm with rfl | rfl
  · exact ⟨left, hl, by rw [Formula.size]; omega⟩
  · exact ⟨right, hr, by rw [Formula.size]; omega⟩

/-- The formula of a node that is reached in one or more edges is smaller. -/
theorem transGen (hg : g.WellFormed) (h : Unfolds g n t) {m : Node}
    (he : Relation.TransGen g.Edge n m) : ∃ t', Unfolds g m t' ∧ t'.size < t.size := by
  induction he with
  | single he => exact h.edge hg he
  | tail _ he ih =>
    obtain ⟨t₁, h₁, hlt₁⟩ := ih
    obtain ⟨t₂, h₂, hlt₂⟩ := h₁.edge hg he
    exact ⟨t₂, h₂, Nat.lt_trans hlt₂ hlt₁⟩

/-- A node that is reached from one with a formula has a formula. -/
theorem reaches (hg : g.WellFormed) (h : Unfolds g n t) {m : Node} (he : g.Reaches n m) :
    ∃ t', Unfolds g m t' := by
  rcases Relation.reflTransGen_iff_eq_or_transGen.1 he with rfl | he
  · exact ⟨t, h⟩
  · obtain ⟨t', h', -⟩ := h.transGen hg he
    exact ⟨t', h'⟩

/-- No cycle is reached from a node with a formula: around a cycle formulas would shrink. -/
theorem not_cycleBehind (hg : g.WellFormed) (h : Unfolds g n t) : ¬ g.CycleBehind n := by
  rintro ⟨m, hreach, hcycle⟩
  obtain ⟨t₁, h₁⟩ := h.reaches hg hreach
  obtain ⟨t₂, h₂, hlt⟩ := h₁.transGen hg hcycle
  rw [h₁.unique hg h₂] at hlt
  exact Nat.lt_irrefl _ hlt

/-- The nodes that stand for themselves in a formula are the loose ones that are reached. -/
theorem mem_looseNodes (hg : g.WellFormed) (h : Unfolds g n t) {m : Node} :
    m ∈ t.looseNodes ↔ g.Reaches n m ∧ g.Loose m := by
  induction h with
  | number h | symbol h =>
    refine ⟨nofun, fun ⟨hreach, hloose⟩ => ?_⟩
    rcases Relation.ReflTransGen.cases_head hreach with rfl | ⟨_, ⟨op, _, _, hop, -⟩, -⟩
    · obtain ⟨⟨op, hop⟩, -⟩ := hloose
      cases h.symm.trans hop
    · cases h.symm.trans hop
  | loose h =>
    rw [Formula.looseNodes, List.mem_singleton]
    constructor
    · rintro rfl
      exact ⟨.refl, h⟩
    · rintro ⟨hreach, -⟩
      rcases Relation.ReflTransGen.cases_head hreach with rfl | ⟨_, ⟨_, _, _, -, hw, -⟩, -⟩
      · rfl
      · exact absurd h hw.not_loose
  | join h hw _ _ ihl ihr =>
    rw [Formula.looseNodes, List.mem_append, ihl, ihr]
    obtain ⟨hedge, hedge'⟩ := hw.edge h
    constructor
    · rintro (⟨hreach, hloose⟩ | ⟨hreach, hloose⟩)
      · exact ⟨.head hedge hreach, hloose⟩
      · exact ⟨.head hedge' hreach, hloose⟩
    · rintro ⟨hreach, hloose⟩
      rcases Relation.ReflTransGen.cases_head hreach with rfl | ⟨_, ⟨_, _, _, -, hw', hm⟩, hreach⟩
      · exact absurd hloose hw.not_loose
      · obtain ⟨rfl, rfl⟩ := hw.unique hg hw'
        rcases hm with rfl | rfl
        · exact .inl ⟨hreach, hloose⟩
        · exact .inr ⟨hreach, hloose⟩

end Unfolds

/-! ## First occurrences -/

/-- Adds a node to those that have been met, unless it is one of them. -/
def meet (seen : List Node) (n : Node) : List Node :=
  if seen.any (·.id.key = n.id.key) then seen else seen ++ [n]

/-- The nodes of a list where they first occur. -/
def firsts (ns : List Node) : List Node := ns.foldl meet []

/-- Whether a node has been met is told by its key. -/
theorem meet_of_mem {seen : List Node} {n : Node} (h : n ∈ seen) : meet seen n = seen := by
  rw [meet, if_pos (List.any_eq_true.2 ⟨n, h, by simp⟩)]

/-- Nodes that have been met are not added again. -/
theorem foldl_meet_of_subset : ∀ {ns seen : List Node}, ns ⊆ seen → ns.foldl meet seen = seen
  | [], _, _ => rfl
  | n :: ns, seen, h => by
    rw [List.foldl_cons, meet_of_mem (h (.head _))]
    exact foldl_meet_of_subset fun m hm => h (.tail _ hm)

/-- The keys of nodes that have been met stay distinct when one more is met. -/
theorem nodup_meet {seen : List Node} (h : (seen.map (·.id.key)).Nodup) (n : Node) :
    ((meet seen n).map (·.id.key)).Nodup := by
  unfold meet
  split
  · exact h
  · next hnew =>
    rw [List.map_append, List.nodup_append]
    refine ⟨h, by simp, ?_⟩
    rintro k hk k' hk' rfl
    obtain ⟨m, hm, rfl⟩ := List.mem_map.1 hk
    exact hnew (List.any_eq_true.2 ⟨m, hm, by simpa using hk'⟩)

/-- The keys of nodes that have been met are distinct. -/
theorem nodup_foldl_meet (ns : List Node) {seen : List Node} (h : (seen.map (·.id.key)).Nodup) :
    ((ns.foldl meet seen).map (·.id.key)).Nodup := by
  induction ns generalizing seen with
  | nil => exact h
  | cons n ns ih => exact ih (nodup_meet h n)

/-- Every node that occurs in a list occurs first somewhere, if nodes are told by their keys. -/
theorem mem_foldl_meet {ns seen : List Node}
    (hinj : ∀ n ∈ seen ++ ns, ∀ m ∈ seen ++ ns, n.id.key = m.id.key → n = m) {n : Node} :
    n ∈ ns.foldl meet seen ↔ n ∈ seen ∨ n ∈ ns := by
  induction ns generalizing seen with
  | nil => simp
  | cons m ns ih =>
    have hmeet : ∀ {k}, k ∈ meet seen m ↔ k ∈ seen ∨ k = m := by
      intro k
      unfold meet
      split
      · next hseen =>
        obtain ⟨m', hm', hkey⟩ := List.any_eq_true.1 hseen
        obtain rfl := hinj m' (by simp [hm']) m (by simp) (by simpa using hkey)
        exact ⟨.inl, fun h => h.elim (fun h => h) fun h => h ▸ hm'⟩
      · simp
    rw [List.foldl_cons, ih, hmeet, List.mem_cons, or_assoc]
    intro n hn m' hm' hkey
    rw [List.mem_append, hmeet, or_assoc, ← List.mem_cons, ← List.mem_append] at hn hm'
    exact hinj n hn m' hm' hkey

end EquationStudio
