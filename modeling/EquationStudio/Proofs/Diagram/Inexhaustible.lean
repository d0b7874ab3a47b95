import EquationStudio.Proofs.Diagram.Removal

/-!
# Identities never run out

The numbers for identities that are not given only go up, and they know nothing of the identities
that are. A `Diagram.Search` tries one candidate after another for as long as they are taken,
without a bound, and counts them; it is there only if it ends. `freshId` is given one more candidate
than there are entries, and comes to the same end (`Diagram.search_freshId`). So in every diagram
that can be met, also in those that are read from records, as these are at the end of runs too
(`Diagram.leads_ofRecord`), nodes and connections without a given identity get one that nothing has,
and are refused for other reasons only (`Diagram.run_inexhaustible`).
-/

namespace EquationStudio.Diagram

/-! ## Searches -/

/-- The search for an identity: the candidates from a number on are tried, one after another, until
one is not taken. So many are tried, and the last of them has the number that is found. -/
inductive Search (letter : String) (taken : Key → Bool) : (k tries found : Nat) → Prop
  | free {k : Nat} (free : taken (.text (letter ++ toString k)) = false) : Search letter taken k 1 k
  | skip {k tries j : Nat} (held : taken (.text (letter ++ toString k)) = true)
      (rest : Search letter taken (k + 1) tries j) : Search letter taken k (tries + 1) j

namespace Search

variable {letter : String} {taken : Key → Bool} {k tries j : Nat}

/-- The candidate that is found is not taken. -/
theorem not_taken (h : Search letter taken k tries j) :
    taken (.text (letter ++ toString j)) = false := by
  induction h with
  | free free => exact free
  | skip held rest ih => exact ih

/-- Each number from the first one to the one that is found is tried once. -/
theorem add_tries (h : Search letter taken k tries j) : k + tries = j + 1 := by
  induction h with
  | free => rfl
  | skip held rest ih => omega

/-- A search has one end only. -/
theorem unique (h : Search letter taken k tries j) {tries' j' : Nat}
    (h' : Search letter taken k tries' j') : tries' = tries ∧ j' = j := by
  induction h generalizing tries' j' with
  | free free =>
    cases h' with
    | free => exact ⟨rfl, rfl⟩
    | skip held rest => exact absurd held (Bool.eq_false_iff.1 free)
  | skip held rest ih =>
    cases h' with
    | free free => exact absurd held (Bool.eq_false_iff.1 free)
    | skip held' rest' =>
      obtain ⟨rfl, rfl⟩ := ih rest'
      exact ⟨rfl, rfl⟩

end Search

/-- If the identity that is found is not taken, the search comes to the same one, among as many
candidates as the fuel allows and one. -/
theorem search_freshId {letter : String} {taken : Key → Bool} : ∀ {fuel k : Nat},
    taken (freshId letter taken fuel k).1.key = false → ∃ tries j, Search letter taken k tries j ∧
      tries ≤ fuel + 1 ∧ freshId letter taken fuel k = (.ofText (letter ++ toString j), j + 1)
  | 0, k, h => ⟨1, k, .free h, Nat.le_refl 1, rfl⟩
  | fuel + 1, k, h => by
    rw [freshId] at h ⊢
    by_cases hk : taken (.text (letter ++ toString k)) = true
    · simp only [hk, if_true] at h ⊢
      obtain ⟨tries, j, hsearch, hle, he⟩ := search_freshId h
      exact ⟨tries + 1, j, .skip hk hsearch, Nat.succ_le_succ hle, he⟩
    · simp only [hk, Bool.false_eq_true, if_false]
      exact ⟨1, k, .free (Bool.eq_false_iff.2 hk), Nat.le_add_left 1 _, rfl⟩

/-! ## What is found in a table -/

/-- What the search for an identity in a table, from a number on, comes to. -/
structure Discovers {α : Type} (letter : String) (t : Table α) (id : α → Identity)
    (k tries j : Nat) : Prop where
  /-- It ends here, … -/
  search : Search letter t.contains k tries j
  /-- … and nowhere else, … -/
  unique : ∀ tries' j', Search letter t.contains k tries' j' → tries' = tries ∧ j' = j
  /-- … among one more candidate than there are values, … -/
  bounded : tries ≤ t.values.length + 1
  /-- … with an identity that none of them has. -/
  new : ∀ a ∈ t.values, (id a).key ≠ .text (letter ++ toString j)

/-- A search among entries that stand under their own keys finds the identity that a new one
gets. -/
theorem discovers_freshId {α : Type} {t : Table α} {id : α → Identity}
    (hkeys : ∀ {k a}, t.get? k = some a → (id a).key = k) (letter : String) (k : Nat) :
    ∃ tries j, Discovers letter t id k tries j ∧
      freshId letter t.contains t.size k = (.ofText (letter ++ toString j), j + 1) := by
  obtain ⟨tries, j, hsearch, hle, he⟩ :=
    search_freshId (Table.contains_eq_false.2 (get?_freshId t letter k))
  refine ⟨tries, j, ⟨hsearch, fun _ _ => hsearch.unique, t.length_values ▸ hle,
    fun a ha hkey => ?_⟩, he⟩
  obtain ⟨k', hk'⟩ := Table.mem_values.1 ha
  have hnew : t.get? (.text (letter ++ toString j)) = none :=
    Table.contains_eq_false.1 hsearch.not_taken
  rw [← hkey, hkeys hk', hk'] at hnew
  cases hnew

/-! ## Nodes and connections without a given identity -/

/-- An output and an input that can be wired: they are found by the data, they belong to different
nodes, and nothing feeds the input. -/
structure Wirable (g : Diagram) (source target : Datum) (out into : Port) : Prop where
  source : g.port? source = .ok (some out)
  target : g.port? target = .ok (some into)
  output : out.side = .output
  input : into.side = .input
  apart : ¬ out.owner.datum.equal into.owner.datum = true
  free : g.Free into

section
variable {g : Diagram} {source target kind position : Datum} {out into : Port}
  {k : NodeKind} {p : Position}

/-- Ports that can be wired pass every check. -/
theorem Wirable.checkWire (h : g.Wirable source target out into) :
    g.checkWire source target = .ok (out, into) := by
  have hfree : g.feeds.contains (.text into.id) = false := Table.contains_eq_false.2 h.free
  simp only [Diagram.checkWire, h.source, h.target, ok_bind, h.output, h.input, hfree]
  simp [h.apart, pure, Except.pure]

/-- A node of a kind and at a position that are read is created under the identity that is found. -/
theorem create_null (hkind : NodeKind.ofDatum kind = .ok k)
    (hposition : Position.ofDatum position = .ok p) {j : Nat}
    (hfresh : g.freshNodeId = (.ofText ("n" ++ toString j), j + 1)) :
    g.create kind position .null = (.ok (.new ("n" ++ toString j) k p),
      { g with nextNode := j + 1 }.addNode (.new ("n" ++ toString j) k p)) := by
  have hmade : (do Node.make (← NodeKind.ofDatum kind) (.ofText ("n" ++ toString j)) position) =
      .ok (.new ("n" ++ toString j) k p) := by
    rw [hkind, ok_bind, Node.make, hposition]
    rfl
  have hasked : g.requestedId .null = .ok none := rfl
  rw [create, hasked]
  dsimp only
  rw [hfresh]
  dsimp only
  rw [createAs, hmade]

/-- Ports that can be wired are wired under the identity that is found. -/
theorem Wirable.addConnection_null (h : g.Wirable source target out into) {j : Nat}
    (hfresh : g.freshConnectionId = (.ofText ("c" ++ toString j), j + 1)) :
    g.addConnection source target .null = .ok (⟨.ofText ("c" ++ toString j), out.id, into.id⟩,
      { g with nextConnection := j + 1 }.addWire ⟨.ofText ("c" ++ toString j), out.id,
      into.id⟩) := by
  have hid : g.connectionId .null = .ok (.ofText ("c" ++ toString j),
      { g with nextConnection := j + 1 }) := by
    rw [connectionId, hfresh]
    rfl
  rw [addConnection, h.checkWire, ok_bind, hid]
  rfl

end

/-- What there always is for nodes and connections without a given identity. -/
structure Inexhaustible (g : Diagram) : Prop where
  /-- An identity for a new node is found, and a node of a valid kind at a valid position is created
  under it, behind the others. As many numbers are used up as candidates are tried. -/
  node : ∃ tries j, Discovers "n" g.nodes Node.id g.nextNode tries j ∧
    ∀ kind position k p, NodeKind.ofDatum kind = .ok k → Position.ofDatum position = .ok p →
      ∃ n g', g.create kind position .null = (.ok n, g') ∧ n = .new ("n" ++ toString j) k p ∧
        g'.nodes.values = g.nodes.values ++ [n] ∧ g'.nextNode = g.nextNode + tries
  /-- An identity for a new connection is found, and two ports that can be wired are wired under
  it. -/
  connection : ∃ tries j, Discovers "c" g.connections Connection.id g.nextConnection tries j ∧
    ∀ source target out into, g.Wirable source target out into →
      ∃ c g', g.addConnection source target .null = .ok (c, g') ∧
        c = ⟨.ofText ("c" ++ toString j), out.id, into.id⟩ ∧
        g'.connections.values = g.connections.values ++ [c] ∧
        g'.nextConnection = g.nextConnection + tries

/-- After every run of edits, carried out or refused, whatever identities they gave to nodes and
connections, took away and gave again: the searches for the identities of a new node and of a new
connection end, among one more candidate than there are nodes and connections, and find an identity
that nothing has. So a node of a valid kind at a valid position, and a connection between two ports
that can be wired, are never refused if no identity is given. -/
theorem run_inexhaustible (edits : List Edit) (supply : Supply) :
    (run edits supply).Inexhaustible := by
  have hkeyed : (run edits supply).Keyed := .run edits supply
  generalize run edits supply = g at hkeyed
  constructor
  · obtain ⟨tries, j, hfound, hfresh⟩ :=
      discovers_freshId (t := g.nodes) (fun hn => (hkeyed.node hn).1) "n" g.nextNode
    refine ⟨tries, j, hfound, fun kind position k p hkind hposition => ?_⟩
    refine ⟨_, _, create_null hkind hposition hfresh, rfl, ?_, hfound.search.add_tries.symm⟩
    exact Table.values_insert (Table.contains_eq_false.1 hfound.search.not_taken) _
  · obtain ⟨tries, j, hfound, hfresh⟩ :=
      discovers_freshId (t := g.connections) hkeyed.connection "c" g.nextConnection
    refine ⟨tries, j, hfound, fun source target out into hwire => ?_⟩
    refine ⟨_, _, hwire.addConnection_null hfresh, rfl, ?_, hfound.search.add_tries.symm⟩
    exact Table.values_insert (Table.contains_eq_false.1 hfound.search.not_taken) _

/-- A number under the first number is removed, and three nodes stand under the next ones; of two
connections under the first numbers one was removed and made again. All of them are in the way of
the searches. -/
theorem run_inexhaustible_crowded :
    let g := run [
      .create (.text "number") .null .null, .create (.text "number") .null (.text "n2"),
      .create (.text "add") .null (.text "n3"), .create (.text "output") .null (.text "n4"),
      .removeNode (.text "n1"),
      .addConnection (.text "n2-out") (.text "n3-in1") (.text "c2"), .removeConnection (.text "c2"),
      .addConnection (.text "n2-out") (.text "n3-in2") (.text "c1"),
      .addConnection (.text "n2-out") (.text "n3-in1") (.text "c2")] {}
    Discovers "n" g.nodes Node.id 2 (g.nodes.size + 1) 5 ∧
      (g.create (.text "number") .null .null).1 = .ok (.new "n5" .number {}) ∧
      Discovers "c" g.connections Connection.id 1 (g.connections.size + 1) 3 ∧
      ∃ out into, g.Wirable (.text "n3-out") (.text "n4-in") out into ∧
        ∃ g', g.addConnection (.text "n3-out") (.text "n4-in") .null =
        .ok (⟨.ofText "c3", out.id, into.id⟩, g') := by
  intro g
  have hkind : NodeKind.ofDatum (.text "number") = .ok .number :=
    toOption_eq_some.1 (by decide +kernel)
  have hports : (g.ports.get? (.text "n3-out")).map (fun p => (p.id, p.side, p.owner.key)) =
        some ("n3-out", .output, .text "n3") ∧
      (g.ports.get? (.text "n4-in")).map (fun p => (p.id, p.side, p.owner.key)) =
        some ("n4-in", .input, .text "n4") := by decide +kernel
  obtain ⟨⟨out, hout, hfields⟩, into, hinto, hfields'⟩ :=
    hports.imp Option.map_eq_some_iff.1 Option.map_eq_some_iff.1
  simp only [Prod.mk.injEq] at hfields hfields'
  obtain ⟨hid, hside, howner⟩ := hfields
  obtain ⟨hid', hside', howner'⟩ := hfields'
  have hfree : g.Free into := by
    rw [Free, hid']
    exact Table.contains_eq_false.1 (by decide +kernel)
  have hapart : out.owner.key ≠ into.owner.key := by rw [howner, howner']; decide
  have hwire : g.Wirable (.text "n3-out") (.text "n4-in") out into :=
    ⟨congrArg Except.ok hout, congrArg Except.ok hinto, hside, hside',
      mt Identity.key_eq_of_equal hapart, hfree⟩
  have h : g.Inexhaustible := run_inexhaustible _ {}
  obtain ⟨tries, j, hnode, hcreate⟩ := h.node
  obtain ⟨tries', j', hconnection, hadd⟩ := h.connection
  obtain ⟨n, g', hn, rfl, -, hnext⟩ := hcreate _ .null _ _ hkind rfl
  obtain ⟨c, g'', hc, rfl, -, hnext'⟩ := hadd _ _ _ _ hwire
  have hnumbers : g.nextNode = 2 ∧ g.nodes.size = 3 ∧
      (g.create (.text "number") .null .null).2.nextNode = 6 ∧
      g.nextConnection = 1 ∧ g.connections.size = 2 ∧
      (g.after (g.addConnection (.text "n3-out") (.text "n4-in") .null)).nextConnection = 4 := by
        decide +kernel
  obtain ⟨hfirst, hsize, hlast, hfirst', hsize', hlast'⟩ := hnumbers
  have htries := hnode.search.add_tries
  have htries' := hconnection.search.add_tries
  rw [hn] at hlast
  rw [hc] at hlast'
  simp only [after] at hlast hlast'
  obtain rfl : j = 5 := by omega
  obtain rfl : j' = 3 := by omega
  obtain rfl : tries = g.nodes.size + 1 := by omega
  obtain rfl : tries' = g.connections.size + 1 := by omega
  rw [hfirst] at hnode
  rw [hfirst'] at hconnection
  exact ⟨hnode, congrArg Prod.fst hn, hconnection, out, into, hwire, g'', hc⟩

end EquationStudio.Diagram
