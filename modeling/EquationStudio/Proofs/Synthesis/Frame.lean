import EquationStudio.Proofs.Diagram.Routed
import EquationStudio.Proofs.Synthesis.Mirror

/-!
# Edits that a reading does not notice

An expression is read from a sink backwards, so it depends on the nodes behind the sink alone
(`Diagram.Behind`): the producer of the sink's input and, behind a node both of whose inputs are
fed, the producers of both. `Edit.Spares` says which edits leave all of them alone. They may create
and move anything, cut and wire elsewhere, and remove nodes that are not in use, even such as feed
one input of a node behind the sink whose other input is free.

What such an edit leaves of what is read is collected in `Diagram.Spared`, and from it comes a
relation between the nodes behind the sink before and after along which both diagrams are read alike
(`Diagram.Spared.mirror`). `Diagram.synthesize_spared` carries this along runs: the whole synthesis
is the same, the degraded nodes and the fault of a cycle included.
-/

namespace EquationStudio

/-! ## What is read -/

namespace Diagram

/-- The nodes behind a sink: the producer of its input, and both producers of a node behind it whose
two inputs are fed. -/
inductive Behind (g : Diagram) (sink : Datum) : Node → Prop
  | root {out n : Node} (hsink : g.resolveSink sink = .ok (some out))
      (hroot : g.root? out = some n) :
      Behind g sink n
  | left {n l r : Node} (hn : Behind g sink n)
      (hp : Walk.producers? g n = some (l, r)) : Behind g sink l
  | right {n l r : Node} (hn : Behind g sink n)
      (hp : Walk.producers? g n = some (l, r)) : Behind g sink r

/-- The nodes behind a sink, and the sink itself. -/
def InUse (g : Diagram) (sink : Datum) (n : Node) : Prop :=
  g.Behind sink n ∨ g.resolveSink sink = .ok (some n)

/-- A binary node one of whose inputs, or both, are not fed. -/
def UnderWired (g : Diagram) (n : Node) : Prop :=
  (∃ op, n.content = .binary op) ∧ Walk.producers? g n = none

end Diagram

/-- The edits that leave alone what is read from a sink. -/
def Edit.Spares (g : Diagram) (sink : Datum) : Edit → Prop
  | create .. | move .. | addConstraint .. | attach .. | removeConstraint .. => True
  | removeNode id | setValue id _ | setVariable id _ =>
    ∀ n, g.node? id = .ok (some n) → ¬ g.InUse sink n
  | setLabel id _ => ∀ n, g.node? id = .ok (some n) → ¬ (g.Behind sink n ∧ g.UnderWired n)
  | addConnection _ target _ => ∀ n, g.nodeForPort? target = .ok (some n) → ¬ g.Behind sink n
  | connect _ target _ => ∀ n, g.node? target = .ok (some n) → ¬ g.Behind sink n
  | removeConnection id => ∀ k c n, id.key = .ok k → g.connections.get? k = some c →
      g.owner? (.text c.target) = some n → ¬ g.InUse sink n
  | clear => False

/-- Edits one after another each of which leaves alone what is read from a sink when it is made. -/
def Edit.AllSpare (sink : Datum) : List Edit → Diagram × Supply → Prop
  | [], _ => True
  | e :: edits, s => e.Spares s.1 sink ∧ AllSpare sink edits (e.apply s)

/-! ## Inputs and producers -/

/-- Nodes that agree in identity and kind have the same inputs. -/
theorem Node.inputs_congr {n m : Node} (hid : n.id = m.id) (hident : n.ident = m.ident)
    (hkind : n.kind = m.kind) : n.inputs = m.inputs := by
  have hport : n.port = m.port := by
    funext side name
    simp only [port, hid, hident]
  simp only [inputs, hkind, hport]

namespace Diagram

variable {g g' : Diagram} {sink : Datum}

/-- A node with producers is binary. -/
theorem binary_of_producers {n l r : Node} (h : Walk.producers? g n = some (l, r)) :
    ∃ op, n.content = .binary op := by
  obtain ⟨p, q, hinputs, -, -⟩ := exists_producers h
  rw [Node.inputs, Node.kind] at hinputs
  cases hc : n.content with
  | binary op => exact ⟨op, rfl⟩
  | number | symbol | output =>
    rw [hc] at hinputs
    cases hinputs

/-- An output node has one input. -/
theorem exists_input_of_output {n : Node} (h : n.kind = .output) : ∃ p, n.inputs = [p] :=
  ⟨n.port .input "in", by rw [Node.inputs, h]; rfl⟩

/-- A sink that is asked for is the node found by its identity, an output node. -/
theorem resolveSink_eq_ok (hgiven : sink.isGiven = true) {out : Node} :
    g.resolveSink sink = .ok (some out) ↔ g.node? sink = .ok (some out) ∧ out.kind = .output := by
  rw [resolveSink, if_pos hgiven]
  constructor
  · intro h
    obtain ⟨found, hfound, h⟩ := ok_of_bind h
    split at h
    · split at h
      · next hkind => cases h; exact ⟨hfound, hkind⟩
      · obtain ⟨_, _, h⟩ := ok_of_bind h
        cases h
    · obtain ⟨_, _, h⟩ := ok_of_bind h
      cases h
  · rintro ⟨hfound, hkind⟩
    rw [hfound, ok_bind]
    dsimp only
    rw [if_pos hkind]
    rfl

/-- The nodes behind a sink stand in the diagram. -/
theorem Behind.holds (hg : g.Keyed) {n : Node} (h : g.Behind sink n) : g.Holds n := by
  induction h with
  | root _ hroot => exact hg.holds_root hroot
  | left _ hp => exact (hg.holds_producers hp).1
  | right _ hp => exact (hg.holds_producers hp).2

/-- The nodes in use stand in the diagram. -/
theorem InUse.holds (hg : g.Keyed) (hgiven : sink.isGiven = true) {n : Node} (h : g.InUse sink n) :
    g.Holds n := by
  rcases h with h | h
  · exact h.holds hg
  · exact hg.holds_of_node? ((resolveSink_eq_ok hgiven).1 h).1

namespace Routed

/-- A port without a producer is not fed. -/
theorem feeding?_eq_none (h : g.Routed) {p : Port} (hp : g.producer? p = none) :
    g.feeding? (.text p.id) = none := by
  refine Option.eq_none_iff_forall_ne_some.2 fun c hc => ?_
  obtain ⟨q, hq, -⟩ := h.source (h.get?_of_feeding? hc).1
  obtain ⟨hid, n, hn, hqn⟩ := h.port.1 hq
  have howner : g.owner? (.text c.source) = some n := hid ▸ h.owner?_port hn hqn
  have hproducer : g.producer? p = g.owner? (.text c.source) := by rw [producer?, hc]; rfl
  rw [hproducer, howner] at hp
  cases hp

/-- A producer is no output node: the connection leaves one of its outputs. -/
theorem producer_carries (h : g.Routed) {p : Port} {l : Node} (hl : g.producer? p = some l) :
    l.content ≠ .output := by
  obtain ⟨c, hc, hl⟩ := Option.bind_eq_some_iff.1 hl
  obtain ⟨hn, q, hq, hk, hport⟩ := h.owner?_eq_some hl
  obtain ⟨q', hq', hside⟩ := h.source (h.get?_of_feeding? hc).1
  cases hq'.symm.trans hport
  intro hcontent
  have hkind : l.kind = .output := by rw [Node.kind, hcontent]; rfl
  have hout := (Node.side_eq_output hq).1 hside
  rw [Node.outputs, hkind] at hout
  cases hout

/-- The nodes behind a sink carry something. -/
theorem carries (h : g.Routed) {n : Node} (hn : g.Behind sink n) : n.content ≠ .output := by
  cases hn with
  | root _ hroot =>
    obtain ⟨p, -, hp⟩ := Option.bind_eq_some_iff.1 hroot
    exact h.producer_carries hp
  | left _ hp =>
    obtain ⟨_, _, -, hl, -⟩ := exists_producers hp
    exact h.producer_carries hl
  | right _ hp =>
    obtain ⟨_, _, -, -, hr⟩ := exists_producers hp
    exact h.producer_carries hr

end Routed

/-! ## What is left alone -/

/-- What an edit leaves of what is read from a sink. -/
structure Spared (g g' : Diagram) (sink : Datum) : Prop where
  /-- A node in use stays, with what it carries; where its label is read, that stays too. -/
  twin : ∀ {n}, g.InUse sink n → ∃ n', g'.nodes.get? n.id.key = some n' ∧ n'.id = n.id ∧
    n'.ident = n.ident ∧ n'.content = n.content ∧
    (g.Behind sink n → g.UnderWired n → n'.label = n.label)
  /-- An input of a node in use is fed as before, or no longer fed from a node that is not behind
  the sink. -/
  feeding : ∀ {n p}, g.InUse sink n → p ∈ n.inputs →
    g'.feeding? (.text p.id) = g.feeding? (.text p.id) ∨
    g'.feeding? (.text p.id) = none ∧ ∀ l, g.producer? p = some l → ¬ g.Behind sink l
  /-- The ports of the nodes behind the sink are listed as before. -/
  port : ∀ {k n}, g.Behind sink n → g.owner? k = some n → g'.ports.get? k = g.ports.get? k

namespace Spared

/-- A node behind the sink and what it has become. -/
def Twins (g g' : Diagram) (sink : Datum) (n n' : Node) : Prop :=
  g.Behind sink n ∧ g'.nodes.get? n.id.key = some n'

variable {n n' : Node}

/-- A producer behind the sink still feeds an input of a node in use. -/
theorem producer (h : g.Spared g' sink) (hg : g.Routed) (hn : g.InUse sink n) {p : Port}
    (hp : p ∈ n.inputs) {l : Node} (hl : g.producer? p = some l) (hbehind : g.Behind sink l) :
    ∃ l', g'.producer? p = some l' ∧ Twins g g' sink l l' := by
  obtain ⟨c, hc, howner⟩ := Option.bind_eq_some_iff.1 hl
  obtain ⟨q, hq, hnode⟩ := Option.bind_eq_some_iff.1 howner
  obtain ⟨l', hl', -⟩ := h.twin (.inl hbehind)
  have hfed : g'.feeding? (.text p.id) = some c := by
    rcases h.feeding hn hp with hsame | ⟨-, hfar⟩
    · rw [hsame, hc]
    · exact absurd hbehind (hfar l hl)
  have hport : g'.ports.get? (.text c.source) = some q := by rw [h.port hbehind howner, hq]
  refine ⟨l', ?_, hbehind, hl'⟩
  rw [producer?, hfed]
  show g'.owner? (.text c.source) = some l'
  rw [owner?, hport]
  show g'.nodes.get? q.owner.key = some l'
  rw [← (hg.node hnode).1, hl']

/-- An input of a node in use that had no producer has none. -/
theorem free (h : g.Spared g' sink) (hg : g.Routed) (hn : g.InUse sink n) {p : Port}
    (hp : p ∈ n.inputs) (hnone : g.producer? p = none) : g'.producer? p = none := by
  have hfed : g'.feeding? (.text p.id) = none := by
    rcases h.feeding hn hp with hsame | ⟨hnone, -⟩
    · rw [hsame, hg.feeding?_eq_none hnone]
    · exact hnone
  rw [producer?, hfed]
  rfl

/-- What a node behind the sink has become is what is found under its key. -/
theorem of_twins (h : g.Spared g' sink) (ht : Twins g g' sink n n') :
    n'.id = n.id ∧ n'.ident = n.ident ∧
    n'.content = n.content ∧ n'.inputs = n.inputs ∧ (g.UnderWired n → n'.label = n.label) := by
  obtain ⟨m, hm, hid, hident, hcontent, hlabel⟩ := h.twin (.inl ht.1)
  cases ht.2.symm.trans hm
  refine ⟨hid, hident, hcontent, Node.inputs_congr hid hident ?_, hlabel ht.1⟩
  rw [Node.kind, Node.kind, hcontent]

/-- Along the nodes behind the sink both diagrams are read alike. -/
theorem mirror (h : g.Spared g' sink) (hg : g.Routed) : Walk.Mirror g g' (Twins g g' sink) where
  id ht := (h.of_twins ht).1
  ident ht := (h.of_twins ht).2.1
  content ht := (h.of_twins ht).2.2.1
  carries ht := hg.carries ht.1
  wired {n n' l r} ht hp := by
    obtain ⟨p, q, hinputs, hl, hr⟩ := exists_producers hp
    have hinputs' := (h.of_twins ht).2.2.2.1.trans hinputs
    obtain ⟨l', hl', htl⟩ := h.producer hg (.inl ht.1) (by simp [hinputs]) hl (.left ht.1 hp)
    obtain ⟨r', hr', htr⟩ := h.producer hg (.inl ht.1) (by simp [hinputs]) hr (.right ht.1 hp)
    exact ⟨l', r', by rw [producers?_eq hinputs', hl', hr']; rfl, htl, htr⟩
  loose {n n' op} ht hop hp := by
    obtain ⟨p, q, hinputs⟩ := exists_inputs hop
    have hinputs' := (h.of_twins ht).2.2.2.1.trans hinputs
    refine ⟨?_, (h.of_twins ht).2.2.2.2 ⟨⟨op, hop⟩, hp⟩⟩
    rw [producers?_eq hinputs'] at *
    rw [producers?_eq hinputs] at hp
    cases hl : g.producer? p with
    | none => rw [h.free hg (.inl ht.1) (by simp [hinputs]) hl]; rfl
    | some l =>
      rw [hl] at hp
      have hr : g.producer? q = none := Option.map_eq_none_iff.1 hp
      rw [h.free hg (.inl ht.1) (by simp [hinputs]) hr]
      cases g'.producer? p <;> rfl

/-- The sink is found again, fed by what the producer of its input has become. -/
theorem resolve (h : g.Spared g' sink) (hg : g.Routed)
    (hgiven : sink.isGiven = true) {out root : Node}
    (hsink : g.resolveSink sink = .ok (some out)) (hroot : g.root? out = some root) :
    ∃ out' root', g'.resolveSink sink = .ok (some out') ∧ g'.root? out' = some root' ∧
      out'.id = out.id ∧
      Twins g g' sink root root' := by
  obtain ⟨hfound, hkind⟩ := (resolveSink_eq_ok hgiven).1 hsink
  obtain ⟨k, hk, hget⟩ := ok_of_bind hfound
  have hheld : g.nodes.get? k = some out := Except.ok.inj hget
  obtain ⟨out', hout', hid, hident, hcontent, -⟩ := h.twin (.inr hsink)
  have hkind' : out'.kind = out.kind := by rw [Node.kind, Node.kind, hcontent]
  have hfound' : g'.node? sink = .ok (some out') := by
    rw [node?, hk, ok_bind, ← (hg.node hheld).1, hout']
    rfl
  obtain ⟨p, hp⟩ := exists_input_of_output hkind
  have hp' : out'.inputs = [p] := (Node.inputs_congr hid hident hkind').trans hp
  have hfeeds : g.producer? p = some root := by
    rw [root?, hp] at hroot
    exact hroot
  obtain ⟨root', hroot', htwins⟩ :=
    h.producer hg (.inr hsink) (by simp [hp]) hfeeds (.root hsink hroot)
  refine ⟨out', root', (resolveSink_eq_ok hgiven).2 ⟨hfound', hkind'.trans hkind⟩, ?_, hid, htwins⟩
  rw [root?, hp']
  exact hroot'

/-- A node behind the sink is still behind it. -/
theorem behind (h : g.Spared g' sink) (hg : g.Routed) (hgiven : sink.isGiven = true)
    (hn : g.Behind sink n) : ∃ n', Twins g g' sink n n' ∧ g'.Behind sink n' := by
  induction hn with
  | root hsink hroot =>
    obtain ⟨out', root', hsink', hroot', -, htwins⟩ := h.resolve hg hgiven hsink hroot
    exact ⟨root', htwins, .root hsink' hroot'⟩
  | left _ hp ih =>
    obtain ⟨n', htwins, hn'⟩ := ih
    obtain ⟨l', r', hp', hl, -⟩ := (h.mirror hg).wired htwins hp
    exact ⟨l', hl, .left hn' hp'⟩
  | right _ hp ih =>
    obtain ⟨n', htwins, hn'⟩ := ih
    obtain ⟨l', r', hp', -, hr⟩ := (h.mirror hg).wired htwins hp
    exact ⟨r', hr, .right hn' hp'⟩

/-- No other node comes behind the sink. -/
theorem of_behind (h : g.Spared g' sink) (hg : g.Routed)
    (hgiven : sink.isGiven = true) {out root : Node}
    (hsink : g.resolveSink sink = .ok (some out)) (hroot : g.root? out = some root)
    (hn' : g'.Behind sink n') : ∃ n, Twins g g' sink n n' := by
  -- A node that has producers afterwards had them before, else it stood for itself and would still
  -- do so.
  have hwired : ∀ {n n' l' r'}, Twins g g' sink n n' → Walk.producers? g' n' = some (l', r') →
      ∃ l r, Twins g g' sink l l' ∧ Twins g g' sink r r' := by
    intro n n' l' r' htwins hp'
    obtain ⟨op, hop⟩ := binary_of_producers hp'
    have hop : n.content = .binary op := ((h.mirror hg).content htwins).symm.trans hop
    cases hp : Walk.producers? g n with
    | none => cases ((h.mirror hg).loose htwins hop hp).1.symm.trans hp'
    | some lr =>
      obtain ⟨l, r⟩ := lr
      obtain ⟨l'', r'', hp'', hl, hr⟩ := (h.mirror hg).wired htwins hp
      cases hp'.symm.trans hp''
      exact ⟨l, r, hl, hr⟩
  induction hn' with
  | root hsink' hroot' =>
    obtain ⟨out', root', hfound, hfeeds, -, htwins⟩ := h.resolve hg hgiven hsink hroot
    cases hsink'.symm.trans hfound
    cases hroot'.symm.trans hfeeds
    exact ⟨root, htwins⟩
  | left _ hp' ih =>
    obtain ⟨n, htwins⟩ := ih
    obtain ⟨l, r, hl, -⟩ := hwired htwins hp'
    exact ⟨l, hl⟩
  | right _ hp' ih =>
    obtain ⟨n, htwins⟩ := ih
    obtain ⟨l, r, -, hr⟩ := hwired htwins hp'
    exact ⟨r, hr⟩

end Spared

/-! ## Edits that spare -/

section
variable (hg : g.Routed) (hgiven : sink.isGiven = true)
include hg hgiven

/-- Nothing has changed in the tables that are read. -/
theorem Spared.same (nodes : g'.nodes = g.nodes) (ports : g'.ports = g.ports)
    (connections : g'.connections = g.connections) (feeds : g'.feeds = g.feeds) :
    g.Spared g' sink where
  twin {n} hn := ⟨n, nodes ▸ hn.holds hg.toKeyed hgiven, rfl, rfl, rfl, fun _ _ => rfl⟩
  feeding _ _ := .inl (by rw [feeding?, feeding?, feeds, connections])
  port _ _ := by rw [ports]

/-- A node is added. -/
theorem spared_addNode {n : Node} (i : Nat) (hnew : g.nodes.get? n.id.key = none)
    (hname : ∀ m, g.Holds m → m.ident ≠ n.ident) :
    g.Spared ({ g with nextNode := i }.addNode n) sink where
  twin {m} hm := ⟨m, (Routed.holds_addNode hnew).2 (.inr (hm.holds hg.toKeyed hgiven)), rfl, rfl,
    rfl, fun _ _ => rfl⟩
  feeding _ _ := .inl rfl
  port {k m} _ hk := by
    obtain ⟨-, p, -, -, hp⟩ := hg.owner?_eq_some hk
    rw [hp]
    exact (hg.get?_ports_addNode hname).2 (.inl hp)

/-- A node is replaced by one of the same identity, which carries the same if it is in use. -/
theorem spared_replaceNode {n n' : Node} (hn : g.Holds n) (hid : n'.id = n.id)
    (hident : n'.ident = n.ident) (hcontent : g.InUse sink n → n'.content = n.content)
    (hlabel : g.Behind sink n → g.UnderWired n → n'.label = n.label) :
    g.Spared (g.replaceNode n').2 sink where
  twin {m} hm := by
    have hheld := hm.holds hg.toKeyed hgiven
    rw [replaceNode]
    dsimp only
    rw [Table.get?_insert, hid]
    split
    · next hk =>
      obtain rfl : m = n := by
        rw [Holds, hk, hn] at hheld
        exact (Option.some.inj hheld).symm
      exact ⟨n', rfl, hid, hident, hcontent hm, hlabel⟩
    · exact ⟨m, hheld, rfl, rfl, rfl, fun _ _ => rfl⟩
  feeding _ _ := .inl rfl
  port _ _ := rfl

/-- A connection is added whose target is no input of a node in use. -/
theorem spared_addWire {c : Connection} (j : Nat) (hnew : g.connections.get? c.id.key = none)
    (hfar : ∀ {n p}, g.InUse sink n → p ∈ n.inputs → p.id ≠ c.target) :
    g.Spared ({ g with nextConnection := j }.addWire c) sink where
  twin {n} hn := ⟨n, hn.holds hg.toKeyed hgiven, rfl, rfl, rfl, fun _ _ => rfl⟩
  feeding {n p} hn hp := by
    refine .inl ?_
    have hne : Key.text p.id ≠ .text c.target := fun he => hfar hn hp (Key.text.inj he)
    rw [feeding?, feeding?, addWire]
    dsimp only
    rw [Table.get?_insert, if_neg hne]
    cases hi : g.feeds.get? (.text p.id) with
    | none => rfl
    | some i =>
      obtain ⟨-, d, hd, -⟩ := hg.feed hi
      have hapart : i.key ≠ c.id.key := fun he => by
        rw [he, hnew] at hd
        cases hd
      simp only [bind, Option.bind, Table.get?_insert, if_neg hapart]
  port _ _ := rfl

/-- A connection is taken away whose target is no input of a node in use. -/
theorem spared_dropConnection {c : Connection} (hc : g.connections.get? c.id.key = some c)
    (hfar : ∀ {n p}, g.InUse sink n → p ∈ n.inputs → p.id ≠ c.target) :
    g.Spared (g.dropConnection c) sink where
  twin {n} hn := ⟨n, hn.holds hg.toKeyed hgiven, rfl, rfl, rfl, fun _ _ => rfl⟩
  feeding {n p} hn hp := by
    refine .inl ?_
    rw [hg.feeding?_dropConnection fun c' hc' => Option.some.inj (hc'.symm.trans hc)]
    cases hd : g.feeding? (.text p.id) with
    | none => rfl
    | some d =>
      obtain ⟨hheld, hk⟩ := hg.get?_of_feeding? hd
      refine Option.filter_some_pos (decide_eq_true fun he => hfar hn hp ?_)
      rw [he, hc] at hheld
      cases hheld
      exact Key.text.inj hk
  port _ _ := rfl

/-- A node that is not in use is removed, with its ports and the connections at them. -/
theorem spared_dropNode (hapart : g.NamesApart) {m : Node} (hm : g.Holds m)
    (hfar : ¬ g.InUse sink m) : g.Spared (g.dropNode m) sink := by
  obtain ⟨-, hnodes, hports, hfeeding⟩ := hg.dropNode hapart hm
  -- No port of the node reads like one of a node in use.
  have hname : ∀ {n p}, g.InUse sink n → p ∈ n.ports → p.id ∉ m.ports.map Port.id := by
    intro n p hn hp hmem
    obtain ⟨q, hq, he⟩ := List.mem_map.1 hmem
    have hnm :=
      hapart.eq hg.toKeyed (hn.holds hg.toKeyed hgiven) hm (Node.ident_eq_of_port_id hp hq he.symm)
    exact hfar (hnm ▸ hn)
  refine ⟨fun {n} hn => ?_, fun {n p} hn hp => ?_, fun {k n} hn hk => ?_⟩
  · have hheld := hn.holds hg.toKeyed hgiven
    refine ⟨n, ?_, rfl, rfl, rfl, fun _ _ => rfl⟩
    rw [hnodes, Table.get?_erase, if_neg fun he => hfar ?_, hheld]
    rw [Holds, he, hm] at hheld
    exact Option.some.inj hheld ▸ hn
  · cases hc : g.feeding? (.text p.id) with
    | none =>
      exact .inl (Option.eq_none_iff_forall_ne_some.2 fun c hc' =>
        Option.some_ne_none c ((hfeeding.1 hc').1.symm.trans hc))
    | some c =>
      have htarget : c.target = p.id := (Key.text.inj (hg.get?_of_feeding? hc).2).symm
      have hsafe : c.target ∉ m.ports.map Port.id := htarget ▸ hname hn (List.mem_append_left _ hp)
      by_cases hsource : c.source ∈ m.ports.map Port.id
      · refine .inr ⟨Option.eq_none_iff_forall_ne_some.2 fun d hd => ?_, fun l hl hbehind => ?_⟩
        · obtain ⟨hd, hs, -⟩ := hfeeding.1 hd
          cases hc.symm.trans hd
          exact hs hsource
        · obtain ⟨q, hq, he⟩ := List.mem_map.1 hsource
          have howner := hg.owner?_port hm hq
          obtain ⟨d, hd, hl⟩ := Option.bind_eq_some_iff.1 hl
          cases hc.symm.trans hd
          rw [he] at howner
          cases hl.symm.trans howner
          exact hfar (.inl hbehind)
      · exact .inl (hfeeding.2 ⟨hc, hsource, hsafe⟩)
  · obtain ⟨-, p, hp, rfl, hlisted⟩ := hg.owner?_eq_some hk
    rw [hlisted]
    refine hports.2 ⟨hlisted, fun q hq he => hname (.inl hn) hp ?_⟩
    rw [Key.text.inj he]
    exact List.mem_map_of_mem hq

end

/-- The ports that are checked for a connection are those found by the two data. -/
theorem port?_of_checkWire {source target : Datum} {out into : Port}
    (h : g.checkWire source target = .ok (out, into)) : g.port? target = .ok (some into) := by
  obtain ⟨found, -, h⟩ := ok_of_bind h
  obtain ⟨fed, hfed, h⟩ := ok_of_bind h
  rw [hfed]
  split at h
  · obtain ⟨_, _, h⟩ := ok_of_bind h
    cases h
  · obtain ⟨_, _, h⟩ := ok_of_bind h
    cases h
  · split at h
    · cases h
    split at h
    · cases h
    split at h
    · cases h
    split at h
    · cases h
    cases h
    rfl

/-- A free input of a node that is not behind the sink is no input of a node in use, where the sink
is fed. -/
theorem far_of_free (hg : g.Routed) (hapart : g.NamesApart) (hgiven : sink.isGiven = true)
    (hfed : ∀ out, g.resolveSink sink = .ok (some out) → g.root? out ≠ none)
    {m : Node} {into : Port} (hm : g.Holds m) (hinto : into ∈ m.ports) (hfar : ¬ g.Behind sink m)
    (hfree : g.feeds.get? (.text into.id) = none) {n : Node} {p : Port} (hn : g.InUse sink n)
    (hp : p ∈ n.inputs) : p.id ≠ into.id := by
  intro he
  obtain rfl := hapart.eq hg.toKeyed (hn.holds hg.toKeyed hgiven) hm
    (Node.ident_eq_of_port_id (List.mem_append_left _ hp) hinto he)
  have hsink := hn.resolve_left hfar
  obtain ⟨p', hp'⟩ := exists_input_of_output ((resolveSink_eq_ok hgiven).1 hsink).2
  rw [hp', List.mem_singleton] at hp
  refine hfed n hsink ?_
  rw [root?, hp', ← hp]
  show g.producer? p = none
  rw [producer?, feeding?, he, hfree]
  rfl

end Diagram

/-- What an edit that spares a sink makes of a diagram in which the sink is fed. -/
theorem Edit.Makes.spared {g g' : Diagram} {e : Edit} {sink : Datum}
    (hmakes : e.Makes g g') (hg : g.Routed) (hg' : g'.Keyed) (hapart : g.NamesApart)
    (hapart' : g'.NamesApart) (hgiven : sink.isGiven = true)
    (hfed : ∀ out, g.resolveSink sink = .ok (some out) → g.root? out ≠ none)
    (hspares : e.Spares g sink) : g.Spared g' sink := by
  cases hmakes with
  | same nodes ports connections feeds => exact .same hg hgiven nodes ports connections feeds
  | @create _ _ _ n i new _ =>
    refine Diagram.spared_addNode hg hgiven i new fun m hm he => ?_
    have hmn := hapart'.eq hg' ((Diagram.Routed.holds_addNode new).2 (.inr hm))
      ((Diagram.Routed.holds_addNode new).2 (.inl rfl)) he
    rw [hmn, Diagram.Holds] at hm
    cases new.symm.trans hm
  | setValue held | setVariable held =>
    have hfar := hspares _ held
    exact Diagram.spared_replaceNode hg hgiven (hg.holds_of_node? held) rfl rfl (fun h =>
      absurd h hfar)
      fun h _ => absurd (.inl h) hfar
  | setLabel s held =>
    exact Diagram.spared_replaceNode hg hgiven (hg.holds_of_node? held) rfl rfl (fun _ => rfl)
      fun h hloose => absurd ⟨h, hloose⟩ (hspares _ held)
  | move p held =>
    exact Diagram.spared_replaceNode hg hgiven (hg.holds_of_node? held) rfl rfl (fun _ =>
      rfl) fun _ _ => rfl
  | removeNode held =>
    exact Diagram.spared_dropNode hg hgiven hapart (hg.holds_of_node? held) (hspares _ held)
  | @addConnection source target id out into c j wire leaves leads new =>
    obtain ⟨-, -, -, -, -, hfree⟩ := Diagram.checkWire_ok wire
    obtain ⟨k, hk, hport⟩ := ok_of_bind (Diagram.port?_of_checkWire wire)
    have hlisted : g.ports.get? k = some into := Except.ok.inj hport
    obtain ⟨rfl, m, hm, hinto⟩ := hg.port.1 hlisted
    have howner : g.nodeForPort? target = .ok (some m) := by
      rw [Diagram.nodeForPort?, hk, ok_bind, hg.owner?_port hm hinto]
      rfl
    refine Diagram.spared_addWire hg hgiven j new fun hn hp => ?_
    rw [leads]
    exact Diagram.far_of_free hg hapart hgiven hfed hm hinto (hspares m howner) hfree hn hp
  | @connect source target index n out into out' into' c j held input wire leaves leads new =>
    obtain ⟨-, -, -, -, -, hfree⟩ := Diagram.checkWire_ok wire
    have hn := hg.holds_of_node? held
    have hinto : into ∈ n.ports := List.mem_append_left _ input
    have hlisted : g.ports.get? (.text into.id) = some into' :=
      Except.ok.inj (Diagram.port?_of_checkWire wire)
    cases (hg.get?_port hn hinto).symm.trans hlisted
    refine Diagram.spared_addWire hg hgiven j new fun hn' hp => ?_
    rw [leads]
    exact Diagram.far_of_free hg hapart hgiven hfed hn hinto (hspares n held) hfree hn' hp
  | @removeConnection id k c key held =>
    obtain rfl := hg.connection held
    refine Diagram.spared_dropConnection hg hgiven held fun {n p} hn hp he => ?_
    have howner := hg.owner?_port (hn.holds hg.toKeyed hgiven) (List.mem_append_left _ hp)
    rw [he] at howner
    exact hspares _ c n key held howner hn
  | clear => exact absurd hspares id

namespace Diagram

/-- The same is read from a sink before and after, from the same nodes. -/
structure SameReading (g g' : Diagram) (sink : Datum) : Prop where
  synthesis : g'.synthesize sink = g.synthesize sink
  behind : ∀ k, (∃ n, g'.Behind sink n ∧ n.id.key = k) ↔ ∃ n, g.Behind sink n ∧ n.id.key = k

/-- Where an edit has left what is read, the same is read. -/
theorem Spared.sameReading {g g' : Diagram} {sink : Datum} (h : g.Spared g' sink) (hg : g.Routed)
    (hg' : g'.Keyed) (hgiven : sink.isGiven = true) {out root : Node}
    (hsink : g.resolveSink sink = .ok (some out)) (hroot : g.root? out = some root) :
    g.SameReading g' sink := by
  obtain ⟨out', root', hsink', hroot', hid, htwins⟩ := h.resolve hg hgiven hsink hroot
  refine ⟨synthesize_mirror hg.toKeyed hg' (h.mirror hg) hsink hsink' hid hroot hroot' htwins,
    fun k => ?_⟩
  constructor
  · rintro ⟨n', hn', rfl⟩
    obtain ⟨n, htwins⟩ := h.of_behind hg hgiven hsink hroot hn'
    exact ⟨n, htwins.1, by rw [(h.of_twins htwins).1]⟩
  · rintro ⟨n, hn, rfl⟩
    obtain ⟨n', htwins, hn'⟩ := h.behind hg hgiven hn
    exact ⟨n', hn', by rw [(h.of_twins htwins).1]⟩

/-- In a diagram that any run of edits has made, an explicit sink with a fed input reads the same
after any edits each of which spares it, from the same nodes: the same text, the same degraded nodes
or the same fault. No two nodes may at any time have identities that read the same in words, and no
connection may be given an identity that differs from itself. -/
theorem synthesize_spared (past edits : List Edit) (supply : Supply)
    {sink : Datum} {out root : Node} (hself : ∀ e ∈ past ++ edits, e.Selfsame)
    (hapart : ∀ es, es <+: past ++ edits → (run es supply).NamesApart)
    (hgiven : sink.isGiven = true) (hsink : (run past supply).resolveSink sink = .ok (some out))
    (hroot : (run past supply).root? out = some root)
    (hspare : Edit.AllSpare sink edits (past.foldl Edit.apply ({}, supply))) :
    (run past supply).SameReading (run (past ++ edits) supply) sink := by
  induction edits generalizing past out root with
  | nil => rw [List.append_nil]; exact ⟨rfl, fun _ => .rfl⟩
  | cons e edits ih =>
    obtain ⟨hspares, hrest⟩ := hspare
    have hnext : past ++ e :: edits = (past ++ [e]) ++ edits := by rw [List.append_assoc]; rfl
    have hbefore : ∀ es, es <+: past → (run es supply).NamesApart :=
      fun es h => hapart es (h.trans (List.prefix_append _ _))
    have hafter : ∀ es, es <+: past ++ [e] → (run es supply).NamesApart :=
      fun es h => hapart es (hnext ▸ h.trans (List.prefix_append _ _))
    have hselfAfter : ∀ e' ∈ past ++ [e], e'.Selfsame := fun e' he' =>
      hself e' (hnext ▸ List.mem_append_left _ he')
    have hrouted :=
      Routed.run past supply (fun e' he' => hself e' (List.mem_append_left _ he')) hbefore
    have hrouted' := Routed.run (past ++ [e]) supply hselfAfter hafter
    have happly : run (past ++ [e]) supply = (e.apply (past.foldl Edit.apply ({}, supply))).1 := by
      rw [run, List.foldl_append]
      rfl
    have hfed : ∀ out', (run past supply).resolveSink sink = .ok (some out') →
        (run past supply).root? out' ≠ none := by
      intro out' hout'
      cases hsink.symm.trans hout'
      rw [hroot]
      nofun
    have hmakes : e.Makes (run past supply) (run (past ++ [e]) supply) := happly ▸ e.apply_makes _
    have hspared := hmakes.spared hrouted hrouted'.toKeyed (hbefore past (List.prefix_refl _))
      (hafter _ (List.prefix_refl _)) hgiven hfed hspares
    obtain ⟨out', root', hsink', hroot', -, -⟩ := hspared.resolve hrouted hgiven hsink hroot
    have hone := hspared.sameReading hrouted hrouted'.toKeyed hgiven hsink hroot
    have hmany :=
      ih (past ++ [e]) (hnext ▸ hself) (hnext ▸ hapart) hsink' hroot' (by rwa [List.foldl_append])
    rw [hnext]
    exact ⟨hmany.synthesis.trans hone.synthesis, fun k => (hmany.behind k).trans (hone.behind k)⟩

/-- The nodes behind a sink are among those of given names, if the producer of its input is, and the
producers of the nodes with these names are. -/
theorem Behind.ident_mem {g : Diagram} {sink : Datum} (hg : g.Keyed) {names : List String}
    (hroot : ∀ out ∈ (g.resolveSink sink).toOption.join, ∀ n ∈ g.root? out, n.ident ∈ names)
    (hclosed : ∀ n ∈ g.nodes.values, n.ident ∈ names → ∀ lr ∈ Walk.producers? g n,
      lr.1.ident ∈ names ∧ lr.2.ident ∈ names) {n : Node}
      (h : g.Behind sink n) : n.ident ∈ names := by
  induction h with
  | root hsink hn => exact hroot _ (by rw [hsink]; rfl) _ hn
  | left hn hp ih => exact (hclosed _ (hg.mem_nodes.2 (hn.holds hg)) ih _ hp).1
  | right hn hp ih => exact (hclosed _ (hg.mem_nodes.2 (hn.holds hg)) ih _ hp).2

/-- Behind the output there are a sum and a product with one free input. The number that feeds the
other input of the product is removed, the sum is labelled anew, and a new variable feeds a power
elsewhere. -/
theorem synthesize_spared_halfWired :
    let past : List Edit := [
      .create (.text "number") .null (.text "a"), .create (.text "variable") .null (.text "b"),
      .create (.text "add") .null (.text "s"), .create (.text "number") .null (.text "x"),
      .create (.text "multiply") .null (.text "h"), .create (.text "divide") .null (.text "d"),
      .create (.text "output") .null (.text "o"), .create (.text "power") .null (.text "t"),
      .connect (.text "a") (.text "s") (.int 0), .connect (.text "b") (.text "s") (.int 1),
      .connect (.text "x") (.text "h") (.int 0), .connect (.text "s") (.text "d") (.int 0),
      .connect (.text "h") (.text "d") (.int 1), .connect (.text "d") (.text "o") (.int 0)]
    let edits : List Edit := [.removeNode (.text "x"), .setLabel (.text "s") (.text "sum"),
      .create (.text "variable") .null .null, .connect (.text "n1") (.text "t") (.int 0)]
    (∀ e ∈ past ++ edits, e.Selfsame) ∧ (∀ es, es <+: past ++ edits → (run es {}).NamesApart) ∧
      ((run past {}).synthesize (.text "o")).toOption.map (fun s =>
        (s.expression, s.degraded.length)) =
        some ("((0 + x) / ×)", 1) ∧
      ∃ out root, (run past {}).resolveSink (.text "o") = .ok (some out) ∧
        (run past {}).root? out = some root ∧
        Edit.AllSpare (.text "o") edits (past.foldl Edit.apply ({}, {})) ∧
        (run past {}).SameReading (run (past ++ edits) {}) (.text "o") := by
  intro past edits
  have htexts : ∀ e ∈ past ++ edits, e.Textual := by simp [past, edits, Edit.Textual]
  have hself : ∀ e ∈ past ++ edits, e.Selfsame := fun e he => (htexts e he).selfsame
  have hapart : ∀ es, es <+: past ++ edits → (run es {}).NamesApart :=
    namesApart_of_textual htexts {}
  have hnames : ∀ es ∈ [past, past ++ edits.take 3], ∀ n, (run es {}).Behind (.text "o") n →
      n.ident ∈ ["a", "b", "s", "h", "d"] := by
    intro es hes n hn
    refine hn.ident_mem (Keyed.run es {}) ?_ ?_
    all_goals
      clear hn
      revert es
      decide +kernel
  have hident : ∀ {found : Except Fault (Option Node)} {n : Node} {name : String},
      found = .ok (some n) →
      found.toOption.join.map Node.ident = some name → n.ident = name := by
    rintro _ n name rfl h
    exact Option.some.inj h
  have hfed : ((run past {}).resolveSink (.text "o")).toOption.join.any
      (fun out => ((run past {}).root? out).isSome) = true := by decide +kernel
  obtain ⟨out, hout, hroot⟩ := (Option.any_eq_true _ _).1 hfed
  obtain ⟨root, hroot⟩ := Option.isSome_iff_exists.1 hroot
  have hsink : (run past {}).resolveSink (.text "o") = .ok (some out) :=
    toOption_eq_some.1 (Option.join_eq_some_iff.1 hout)
  have hspare : Edit.AllSpare (.text "o") edits (past.foldl Edit.apply ({}, {})) := by
    refine ⟨fun n hn => ?_, fun n hn => ?_, trivial, fun n hn hbehind => ?_, trivial⟩
    · have hx : n.ident = "x" := hident hn (by decide +kernel)
      rintro (hbehind | hsink)
      · have hmem := hnames past (.head _) n hbehind
        simp [hx] at hmem
      · have ho : n.ident = "o" := hident hsink (by decide +kernel)
        simp [hx] at ho
    · rintro ⟨-, -, hnone⟩
      have hwired : (((run (past ++ edits.take 1) {}).node? (.text "s")).toOption.join.any fun n =>
        (Walk.producers? (run (past ++ edits.take 1) {}) n).isSome) = true := by decide +kernel
      have hn' : (run (past ++ edits.take 1) {}).node? (.text "s") = .ok (some n) := hn
      have hnone' : Walk.producers? (run (past ++ edits.take 1) {}) n = none := hnone
      rw [hn'] at hwired
      simp [Except.toOption, hnone'] at hwired
    · have ht : n.ident = "t" := hident hn (by decide +kernel)
      have hmem := hnames (past ++ edits.take 3) (by simp) n hbehind
      simp [ht] at hmem
  exact ⟨hself, hapart, by decide +kernel, out, root, hsink, hroot, hspare,
    synthesize_spared past edits {} hself hapart rfl hsink hroot hspare⟩

/-- Two nodes that read the same share their ports: the sink is fed by a node under the number
seven, and a new variable under the text of its digit takes over the port from which the connection
leaves. -/
theorem synthesize_alike :
    let past : List Edit := [.create (.text "number") .null (.int 7),
      .create (.text "output") .null (.text "o"), .connect (.int 7) (.text "o") (.int 0)]
    let edits : List Edit := [.create (.text "variable") .null (.text "7")]
    (∃ out root, (run past {}).resolveSink (.text "o") = .ok (some out) ∧
        (run past {}).root? out = some root) ∧
      Edit.AllSpare (.text "o") edits (past.foldl Edit.apply ({}, {})) ∧
      ((run past {}).synthesize (.text "o")).toOption.map (·.expression) = some "0" ∧
      ((run (past ++ edits) {}).synthesize (.text "o")).toOption.map (·.expression) = some "x" ∧
      ¬ (run past {}).SameReading (run (past ++ edits) {}) (.text "o") := by
  intro past edits
  have hbefore : ((run past {}).synthesize (.text "o")).toOption.map (·.expression) = some "0" := by
    decide +kernel
  have hafter : ((run (past ++ edits) {}).synthesize (.text "o")).toOption.map
      (·.expression) = some "x" := by
    decide +kernel
  refine ⟨?_, ⟨trivial, trivial⟩, hbefore, hafter, fun h => ?_⟩
  · have hfed : ((run past {}).resolveSink (.text "o")).toOption.join.any
        (fun out => ((run past {}).root? out).isSome) = true := by decide +kernel
    obtain ⟨out, hout, hroot⟩ := (Option.any_eq_true _ _).1 hfed
    obtain ⟨root, hroot⟩ := Option.isSome_iff_exists.1 hroot
    exact ⟨out, root, toOption_eq_some.1 (Option.join_eq_some_iff.1 hout), hroot⟩
  · rw [h.synthesis, hbefore] at hafter
    exact absurd (Option.some.inj hafter) (by decide)

/-- A connection under the undefined double feeds its input even when it is gone: the next
connection under that identity, which leads to a second output, is found at the first summand, and
the sum is complete. -/
theorem synthesize_undefined :
    let past : List Edit :=
      [.create (.text "number") .null (.text "a"), .create (.text "add") .null (.text "s"),
      .create (.text "output") .null (.text "o"), .create (.text "output") .null (.text "q"),
      .addConnection (.text "a-out") (.text "s-in1") (.float .nan),
        .connect (.text "a") (.text "s") (.int 1),
      .connect (.text "s") (.text "o") (.int 0), .removeConnection (.float .nan)]
    let edits : List Edit := [.addConnection (.text "a-out") (.text "q-in") (.float .nan)]
    Edit.AllSpare (.text "o") edits (past.foldl Edit.apply ({}, {})) ∧
      ((run past {}).synthesize (.text "o")).toOption.map (·.expression) = some "+" ∧
      ((run (past ++ edits) {}).synthesize (.text "o")).toOption.map
      (·.expression) = some "(0 + 0)" := by
  intro past edits
  refine ⟨⟨fun n hn hbehind => ?_, trivial⟩, by decide +kernel, by decide +kernel⟩
  have hnames : n.ident ∈ ["s"] := by
    refine hbehind.ident_mem (Keyed.run past {}) ?_ ?_
    all_goals
      clear hn hbehind
      decide +kernel
  have hident : (((run past {}).nodeForPort? (.text "q-in")).toOption.join.map Node.ident) =
      some "q" := by
    decide +kernel
  have hq : n.ident = "q" := by
    rw [show (run past {}).nodeForPort? (.text "q-in") = .ok (some n) from hn] at hident
    exact Option.some.inj hident
  rw [hq] at hnames
  exact absurd hnames (by decide)

end Diagram

end EquationStudio
