import EquationStudio.Proofs.Diagram.Numbered

/-!
# The ports of a diagram that is read

A record may give any data as identities, and the ports of a node are named by what its identity
reads like. So two nodes may share ports, and then each of these is found with the node that came
last. `Diagram.Listed` is what remains true: a port that is found belongs to a node, and every port
of a node has the name of one that is found. Every edit keeps this, but for the removal of a node
that shares its ports with another (`Diagram.Listed.apply`), and no diagram is rebuilt by removals;
so it holds of every diagram that is read.

Each port is found with its own node exactly if no two nodes share ports
(`Diagram.Listed.ownsPorts_iff`), and then this outlasts the removal of any node. Nodes that read
differently share none, and nodes whose identities are texts read differently.
-/

namespace EquationStudio

namespace Diagram

/-- Each port of a node is found under its identity, and the node is found for it. -/
def OwnsPorts (g : Diagram) : Prop := ∀ n, g.Holds n → ∀ p ∈ n.ports,
  g.port? (.text p.id) = .ok (some p) ∧ g.nodeForPort? (.text p.id) = .ok (some n)

/-- No two nodes have ports with one identity. -/
def PortsApart (g : Diagram) : Prop := ∀ n m, g.Holds n → g.Holds m → ∀ p ∈ n.ports, ∀ q ∈ m.ports,
  p.id = q.id → n = m

/-- No two nodes have identities that read the same. -/
def IdsApart (g : Diagram) : Prop := ∀ n m, g.Holds n → g.Holds m →
  n.id.datum.plain = m.id.datum.plain → n = m

/-- A keyed diagram in which ports are found under their own identities and belong to nodes, every
port of a node has an identity under which one is found, and every node reads like its identity. -/
structure Listed (g : Diagram) : Prop extends g.Keyed where
  port : ∀ {k p}, g.ports.get? k = some p → k = .text p.id ∧ ∃ n, g.Holds n ∧ p ∈ n.ports
  listed : ∀ {n p}, g.Holds n → p ∈ n.ports → ∃ q, g.ports.get? (.text p.id) = some q
  named : ∀ {n}, g.Holds n → n.id.datum.plain = .ok n.ident

variable {g g' : Diagram} {n m : Node}

/-! ## Tables of ports -/

/-- What is found once ports are listed, one after another: the last of them with the identity, or
what was found before. -/
theorem get?_foldl_insert_port (k : Key) : ∀ (qs : List Port) (t : Table Port),
    (qs.foldl (fun t q => t.insert (.text q.id) q) t).get? k =
      (qs.reverse.find? fun q => k = .text q.id).or (t.get? k)
  | [], _ => rfl
  | q :: qs, t => by
    rw [List.foldl_cons, get?_foldl_insert_port k qs, List.reverse_cons,
      List.find?_append, Option.or_assoc, Table.get?_insert, List.find?_singleton]
    congr 1
    by_cases hk : k = .text q.id <;> simp [hk]

/-- What is found once the ports of a node are listed. -/
theorem get?_withPorts_cases {ports : Table Port} {k : Key} {p : Port}
    (h : (withPorts ports n).get? k = some p) :
    p ∈ n.ports ∧ k = .text p.id ∨ ports.get? k = some p := by
  rw [withPorts, get?_foldl_insert_port, Option.or_eq_some_iff] at h
  obtain h | ⟨-, h⟩ := h
  · exact .inl ⟨List.mem_reverse.1 (List.mem_of_find?_eq_some h), by simpa using List.find?_some h⟩
  · exact .inr h

/-- Something is found once the ports of a node are listed. -/
theorem exists_get?_withPorts {ports : Table Port} {k : Key}
    (h : (∃ p ∈ n.ports, k = .text p.id) ∨ ∃ q, ports.get? k = some q) :
    ∃ q, (withPorts ports n).get? k = some q := by
  rw [← Option.isSome_iff_exists, withPorts, get?_foldl_insert_port,
    Option.isSome_or, Bool.or_eq_true, List.find?_isSome, Option.isSome_iff_exists]
  refine h.imp_left fun ⟨p, hp, hk⟩ => ⟨p, List.mem_reverse.2 hp, decide_eq_true hk⟩

/-! ## Nodes that are taken away -/

/-- The tables of nodes and ports once a node is taken away. -/
theorem dropNode_tables (g : Diagram) (n : Node) : (g.dropNode n).nodes = g.nodes.erase n.id.key ∧
    (g.dropNode n).ports = (n.ports.map Port.id).foldl (fun t id =>
    t.erase (.text id)) g.ports := by
  obtain ⟨hnodes, hports, -, -⟩ := foldl_dropConnection_tables (g.connections.values.filter fun c =>
    (n.ports.map Port.id).contains c.source || (n.ports.map Port.id).contains c.target) g
  unfold dropNode
  dsimp only
  rw [hnodes, hports]
  exact ⟨rfl, rfl⟩

/-- The nodes once one is taken away. -/
theorem holds_dropNode (hn : g.Holds n) : (g.dropNode n).Holds m ↔ g.Holds m ∧ m ≠ n := by
  rw [Holds, (dropNode_tables g n).1, Table.get?_erase]
  split
  · next hk =>
    refine ⟨fun hm => absurd hm.symm (Option.some_ne_none m), ?_⟩
    rintro ⟨hm, hne⟩
    rw [Holds, hk, hn] at hm
    exact absurd (Option.some.inj hm).symm hne
  · next hk =>
    refine ⟨fun hm => ⟨hm, ?_⟩, And.left⟩
    rintro rfl
    exact hk rfl

/-- A node is removed by its identity. -/
theorem removeNode_of_holds (hn : g.Holds n) : g.removeNode n.id.datum = .ok (g.dropNode n) := by
  have hfound : g.node? n.id.datum = .ok (some n) := by
    rw [node?, n.id.made]
    exact congrArg Except.ok hn
  rw [removeNode, hfound]
  rfl

/-- Nodes that share no ports still share none when one of them is taken away. -/
theorem PortsApart.dropNode (h : g.PortsApart) (hn : g.Holds n) : (g.dropNode n).PortsApart :=
  fun a b ha hb => h a b ((holds_dropNode hn).1 ha).1 ((holds_dropNode hn).1 hb).1

namespace Listed

/-! ## Owners -/

/-- Each port is found with its own node exactly if no two nodes share ports. -/
theorem ownsPorts_iff (h : g.Listed) : g.OwnsPorts ↔ g.PortsApart := by
  constructor
  · intro howns n m hn hm p hp q hq hid
    have hfound := (howns m hm q hq).2
    rw [← hid, (howns n hn p hp).2] at hfound
    exact Option.some.inj (Except.ok.inj hfound)
  · intro hapart n hn p hp
    obtain ⟨q, hq⟩ := h.listed hn hp
    obtain ⟨hid, m, hm, hqm⟩ := h.port hq
    obtain rfl := hapart n m hn hm p hp q hqm (Key.text.inj hid)
    obtain rfl := Node.port_eq_of_id hp hqm (Key.text.inj hid)
    refine ⟨congrArg Except.ok hq, congrArg Except.ok ?_⟩
    rw [owner?, hq]
    exact (congrArg (fun i : Identity => g.nodes.get? i.key) (Node.owner_of_mem_ports hp)).trans hn

/-- Nodes that share a port read the same. -/
theorem portsApart (h : g.Listed) (hapart : g.IdsApart) : g.PortsApart := by
  intro n m hn hm p hp q hq hid
  refine hapart n m hn hm ?_
  rw [h.named hn, h.named hm, Node.ident_eq_of_port_id hp hq hid]

/-- Nodes that are told apart by their names have identities that read differently. -/
theorem idsApart (h : g.Listed) (hapart : g.NamesApart) : g.IdsApart := by
  intro n m hn hm hplain
  rw [h.named hn, h.named hm] at hplain
  exact hapart.eq h.toKeyed hn hm (Except.ok.inj hplain)

/-! ## What keeps ports listed -/

/-- Nothing is listed in the empty diagram. -/
theorem empty (i j : Nat) : Listed { nextNode := i, nextConnection := j } where
  toKeyed := .empty i j
  port h := by cases h
  listed h := by cases h
  named h := by cases h

/-- Only the tables of nodes and ports matter, as long as connections stand under their own keys. -/
theorem congr (h : g.Listed) (hkeyed : g'.Keyed) (nodes : g'.nodes = g.nodes)
    (ports : g'.ports = g.ports) : g'.Listed := by
  have holds : ∀ n, g'.Holds n ↔ g.Holds n := fun n => by rw [Holds, Holds, nodes]
  refine ⟨hkeyed, ?_, ?_, ?_⟩
  · simp only [ports, holds]
    exact h.port
  · simp only [ports, holds]
    exact h.listed
  · simp only [holds]
    exact h.named

/-- A node is added under a new key. Its ports are found from then on, also those that it shares. -/
theorem addNode (h : g.Listed) (hkeyed : (g.addNode n).Keyed) (hnew : g.nodes.get? n.id.key = none)
    (hnamed : n.id.datum.plain = .ok n.ident) : (g.addNode n).Listed := by
  refine ⟨hkeyed, fun {k p} hp => ?_, fun {m p} hm hp => ?_, fun {m} hm => ?_⟩
  · obtain ⟨hmem, rfl⟩ | hp := get?_withPorts_cases hp
    · exact ⟨rfl, n, (Routed.holds_addNode hnew).2 (.inl rfl), hmem⟩
    · obtain ⟨hk, m, hm, hpm⟩ := h.port hp
      exact ⟨hk, m, (Routed.holds_addNode hnew).2 (.inr hm), hpm⟩
  · refine exists_get?_withPorts ?_
    obtain rfl | hm := (Routed.holds_addNode hnew).1 hm
    · exact .inl ⟨p, hp, rfl⟩
    · exact .inr (h.listed hm hp)
  · obtain rfl | hm := (Routed.holds_addNode hnew).1 hm
    · exact hnamed
    · exact h.named hm

/-- A node is replaced by one of the same identity and kind. -/
theorem replaceNode (h : g.Listed) (hkeyed : (g.replaceNode m).2.Keyed) (hn : g.Holds n)
    (hid : m.id = n.id) (hident : m.ident = n.ident) (hkind : m.kind = n.kind) :
    (g.replaceNode m).2.Listed := by
  have hports : m.ports = n.ports := Node.ports_congr hid hident hkind
  have hholds : ∀ a, (g.replaceNode m).2.Holds a ↔ a = m ∨ g.Holds a ∧ a.id.key ≠ n.id.key :=
    fun a => hid ▸ Routed.holds_replaceNode
  refine ⟨hkeyed, fun {k p} hp => ?_, fun {a p} ha hp => ?_, fun {a} ha => ?_⟩
  · obtain ⟨hk, a, ha, hpa⟩ := h.port hp
    by_cases he : a.id.key = n.id.key
    · have han : a = n := by
        rw [Holds, he, hn] at ha
        exact (Option.some.inj ha).symm
      exact ⟨hk, m, (hholds m).2 (.inl rfl), by rwa [hports, ← han]⟩
    · exact ⟨hk, a, (hholds a).2 (.inr ⟨ha, he⟩), hpa⟩
  · obtain rfl | ⟨ha, -⟩ := (hholds a).1 ha
    · exact h.listed hn (hports ▸ hp)
    · exact h.listed ha hp
  · obtain rfl | ⟨ha, -⟩ := (hholds a).1 ha
    · rw [hid, hident]
      exact h.named hn
    · exact h.named ha

/-- A node is taken away that shares its ports with no other. -/
theorem dropNode (h : g.Listed) (hapart : g.PortsApart) (hn : g.Holds n) :
    (g.dropNode n).Listed := by
  refine ⟨h.toKeyed.dropNode n, fun {k p} hp => ?_, fun {m p} hm hp => ?_, fun {m} hm => ?_⟩
  · rw [(dropNode_tables g n).2, get?_withoutPorts] at hp
    obtain ⟨hp, hfar⟩ := hp
    obtain ⟨rfl, m, hm, hpm⟩ := h.port hp
    refine ⟨rfl, m, (holds_dropNode hn).2 ⟨hm, ?_⟩, hpm⟩
    rintro rfl
    exact hfar p hpm rfl
  · obtain ⟨hm, hne⟩ := (holds_dropNode hn).1 hm
    obtain ⟨q, hq⟩ := h.listed hm hp
    refine ⟨q, ?_⟩
    rw [(dropNode_tables g n).2, get?_withoutPorts]
    exact ⟨hq, fun r hr hid => hne (hapart m n hm hn p hp r hr (Key.text.inj hid))⟩
  · exact h.named ((holds_dropNode hn).1 hm).1

/-- An edit keeps ports listed, as long as no node is removed that may share its ports. -/
theorem apply (e : Edit) {s : Diagram × Supply} (h : s.1.Listed)
    (hremoves : ∀ id, e = .removeNode id → s.1.PortsApart) : (e.apply s).1.Listed := by
  have hkeyed := h.toKeyed.apply e
  have hmakes := e.apply_makes s
  generalize (e.apply s).1 = g' at hkeyed hmakes
  cases hmakes with
  | same nodes ports => exact h.congr hkeyed nodes ports
  | @create _ _ _ n i new named =>
    have hnumbered : Listed { s.1 with nextNode := i } := h.congr (h.toKeyed.congr rfl rfl) rfl rfl
    exact hnumbered.addNode hkeyed new named
  | setValue held carried | setVariable held carried =>
    refine h.replaceNode hkeyed (h.holds_of_node? held) rfl rfl ?_
    rw [Node.kind, Node.kind, carried]
    rfl
  | setLabel t held => exact h.replaceNode hkeyed (h.holds_of_node? held) rfl rfl rfl
  | move p held => exact h.replaceNode hkeyed (h.holds_of_node? held) rfl rfl rfl
  | removeNode held => exact h.dropNode (hremoves _ rfl) (h.holds_of_node? held)
  | addConnection | connect => exact h.congr hkeyed rfl rfl
  | removeConnection => exact h.congr hkeyed rfl rfl
  | clear => exact empty _ _

/-- The ports of a diagram that is read are listed. -/
theorem ofRecord {supply supply' : Supply} {data : Datum}
    (h : Diagram.ofRecord supply data = (.ok g, supply')) : g.Listed := by
  refine (leads_ofRecord h).keeps (fun {e s} he hs => hs.apply e fun id hid => ?_) (empty 1 1)
  subst hid
  cases he

end Listed

/-! ## Identities that are texts -/

/-- The record of a node gives a text for its identity, or nothing. -/
def GivesText (raw : Datum) : Prop := ∀ fields, raw = .record fields →
  Fields.get fields "id" = .null ∨ ∃ s, Fields.get fields "id" = .text s

/-- What such a record asks for is a text. -/
theorem GivesText.asks {raw : Datum} (h : GivesText raw) {k : Key}
    (hasks : nodeSeries.asks raw = some k) : ∃ s, k = .text s := by
  cases raw with
  | record fields =>
    have hasked : askedFor? Datum.isTruthy (Fields.get fields "id") = some k := hasks
    obtain hnull | ⟨s, htext⟩ := h fields rfl
    · rw [hnull] at hasked
      cases hasked
    · rw [htext, askedFor?] at hasked
      split at hasked
      · cases hasked
        exact ⟨s, rfl⟩
      · cases hasked
  | null | bool | int | float | text | list => cases hasks

section
variable {supply supply' : Supply} {data : Datum}

/-- The nodes of a diagram that is read stand under keys that the record asks for, or under
candidates. -/
theorem mem_keys_ofRecord (h : ofRecord supply data = (.ok g, supply')) {k : Key}
    (hk : k ∈ g.nodes.keys) : (∃ raw ∈ itemsAt data "nodes", nodeSeries.asks raw = some k) ∨
    ∃ j, k = candidate "n" j := by
  unfold ofRecord at h
  split at h
  · cases h
  · next g₂ raws hparts =>
    have hleaves := restoreConstraints_leaves (congrArg Prod.fst h)
    obtain ⟨g₁, hg₁, hg₂⟩ := restoreParts_ok hparts
    obtain ⟨⟨hnodes, -⟩, -⟩ := (Series.adding_wires g₁).mem_keys ⟨rfl, rfl⟩ hg₂
    obtain ⟨-, hkeys⟩ := Series.adding_nodes.mem_keys ⟨.empty 1 1, rfl, rfl, rfl⟩ hg₁
    rw [hleaves] at hk
    have hk : k ∈ g₁.nodes.keys := hnodes ▸ hk
    exact (hkeys k hk).resolve_left (by exact nofun)

/-- Nodes whose records give texts for their identities, or nothing, read differently. -/
theorem idsApart_of_texts (h : ofRecord supply data = (.ok g, supply'))
    (htexts : ∀ raw ∈ itemsAt data "nodes", GivesText raw) : g.IdsApart := by
  have htext : ∀ n, g.Holds n → ∃ s, n.id.datum = .text s ∧ n.id.key = .text s := by
    intro n hn
    have hmem : n.id.key ∈ g.nodes.keys := by
      rw [Table.mem_keys_iff, Table.contains_eq_isSome, hn]
      rfl
    have hkey : ∃ s, n.id.key = .text s := by
      obtain ⟨raw, hraw, hasks⟩ | ⟨j, hj⟩ := mem_keys_ofRecord h hmem
      · exact (htexts raw hraw).asks hasks
      · exact ⟨_, hj⟩
    obtain ⟨s, hs⟩ := hkey
    exact ⟨s, Datum.eq_text_of_key (hs ▸ n.id.made), hs⟩
  intro n m hn hm hplain
  obtain ⟨s, hs, hkey⟩ := htext n hn
  obtain ⟨t, ht, hkey'⟩ := htext m hm
  rw [hs, ht] at hplain
  obtain rfl : s = t := Except.ok.inj hplain
  rw [Holds, hkey] at hn
  rw [Holds, hkey', hn] at hm
  exact Option.some.inj hm

/-! ## Diagrams that are read -/

/-- A diagram that is read: each port is found with its own node exactly if no two nodes share
ports. Then a node that is removed takes nothing from the others. No two nodes share ports if their
identities read differently, as they do if all that the record gives for them are texts. -/
theorem ofRecord_ownsPorts (h : ofRecord supply data = (.ok g, supply')) :
    (g.OwnsPorts ↔ g.PortsApart) ∧
      (g.PortsApart → ∀ n, g.Holds n → ∃ g', g.removeNode n.id.datum = .ok g' ∧ g'.OwnsPorts ∧
        ∀ m, g'.Holds m ↔ g.Holds m ∧ m ≠ n) ∧
      (g.IdsApart → g.PortsApart) ∧
      ((∀ raw ∈ itemsAt data "nodes", GivesText raw) → g.IdsApart) := by
  have hlisted := Listed.ofRecord h
  refine ⟨hlisted.ownsPorts_iff, fun hapart n hn => ?_, hlisted.portsApart, idsApart_of_texts h⟩
  refine ⟨g.dropNode n, removeNode_of_holds hn, ?_, fun m => holds_dropNode hn⟩
  exact (hlisted.dropNode hapart hn).ownsPorts_iff.2 (hapart.dropNode hn)

end

/-- A number under the number seven and one under a text that begins like it: each has its own port,
and keeps it when the other is removed. -/
theorem ofRecord_ownsPorts_numbers :
    let number : Datum → Datum := fun id => .record [("type", .text "number"), ("id", id)]
    let data : Datum := .record [("nodes", .list [number (.int 7), number (.text "7.5")])]
    ∃ g supply', ofRecord {} data = (.ok g, supply') ∧
      g.nodes.keys = [.whole 7, .text "7.5"] ∧ g.IdsApart ∧
      g.OwnsPorts ∧ ∀ n, g.Holds n → ∃ g', g.removeNode n.id.datum = .ok g' ∧ g'.OwnsPorts ∧
        ∀ m, g'.Holds m ↔ g.Holds m ∧ m ≠ n := by
  intro number data
  have hread : (ofRecord {} data).1.toOption.any (fun g =>
      g.nodes.keys = [.whole 7, .text "7.5"] ∧ g.NamesApart) = true := by decide +kernel
  obtain ⟨g, hg, hread⟩ := (Option.any_eq_true _ _).1 hread
  obtain ⟨hkeys, hnames⟩ := of_decide_eq_true hread
  have h : ofRecord {} data = (.ok g, (ofRecord {} data).2) := Prod.ext (toOption_eq_some.1 hg) rfl
  obtain ⟨howns, hremoved, hports, -⟩ := ofRecord_ownsPorts h
  have hapart := (Listed.ofRecord h).idsApart hnames
  exact ⟨g, _, h, hkeys, hapart, howns.2 (hports hapart), hremoved (hports hapart)⟩

/-- A number under the number seven and one under the text of its digit share their port, which is
found with the second; when that one is removed, the port of the first is not found any more. -/
theorem ofRecord_alike :
    let number : Datum → Datum := fun id => .record [("type", .text "number"), ("id", id)]
    let data : Datum := .record [("nodes", .list [number (.int 7), number (.text "7")])]
    ∃ g, (ofRecord {} data).1 = .ok g ∧ ¬ g.OwnsPorts ∧ ∃ g', g.removeNode (.text "7") = .ok g' ∧
      ∃ n, g'.Holds n ∧ n.id.key = .whole 7 ∧ ∃ p ∈ n.ports, g'.port? (.text p.id) = .ok none := by
  intro number data
  have hread : (ofRecord {} data).1.toOption.any (fun g =>
      (g.nodes.get? (.whole 7)).any (fun n => n.id.key = .whole 7 ∧
        n.ports.any fun p => (g.owner? (.text p.id)).any fun m => m.id.key ≠ .whole 7) ∧
      (g.removeNode (.text "7")).toOption.any fun g' => (g'.nodes.get? (.whole 7)).any fun n =>
        n.id.key = .whole 7 ∧ n.ports.any fun p => (g'.ports.get? (.text p.id)).isNone) = true := by
    decide +kernel
  obtain ⟨g, hg, hread⟩ := (Option.any_eq_true _ _).1 hread
  obtain ⟨hshared, hremoved⟩ := of_decide_eq_true hread
  refine ⟨g, toOption_eq_some.1 hg, fun howns => ?_, ?_⟩
  · obtain ⟨n, hn, hshared⟩ := (Option.any_eq_true _ _).1 hshared
    obtain ⟨hkey, hshared⟩ := of_decide_eq_true hshared
    obtain ⟨p, hp, hshared⟩ := List.any_eq_true.1 hshared
    have hfound : g.owner? (.text p.id) = some n :=
      Except.ok.inj (howns n (by rw [Holds, hkey, hn]) p hp).2
    rw [hfound] at hshared
    exact absurd hkey (by simpa using hshared)
  · obtain ⟨g', hg', hremoved⟩ := (Option.any_eq_true _ _).1 hremoved
    obtain ⟨n, hn, hremoved⟩ := (Option.any_eq_true _ _).1 hremoved
    obtain ⟨hkey, hlost⟩ := of_decide_eq_true hremoved
    obtain ⟨p, hp, hlost⟩ := List.any_eq_true.1 hlost
    exact ⟨g', toOption_eq_some.1 hg', n, by rw [Holds, hkey, hn], hkey, p, hp,
      congrArg Except.ok (Option.isNone_iff_eq_none.1 hlost)⟩

end Diagram

end EquationStudio
