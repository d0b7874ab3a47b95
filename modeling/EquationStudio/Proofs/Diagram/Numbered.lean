import EquationStudio.Proofs.Diagram.Keyed
import EquationStudio.Proofs.Diagram.Omission
import EquationStudio.Proofs.Diagram.Rebuild
import EquationStudio.Proofs.Diagram.Routed
import EquationStudio.Proofs.Diagram.Taken

/-!
# Numbered identities in a record

The items of a record are rebuilt in order. One that asks for no identity is numbered: it gets the
first of the candidates `n1`, `n2`, … that no item before it has. Items that come later are not
looked at, so one of them may ask for a candidate that is gone by then (`Diagram.Overtaken`).

When that happens can be told from the record alone: the candidate with the number `e` is gone as
soon as `e` items stand before that ask for no identity or for one of the first `e` candidates. The
invariant behind it (`Diagram.Numbered`) is that the candidates below the next number are exactly
those of the items without an identity and of the items that ask for one of them. It is kept by
every item (`Diagram.Numbered.adds`), for nodes as for connections (`Diagram.Series`), and
`Diagram.ofRecord_numbered` says what it means for records.
-/

namespace EquationStudio

/-! ## Keys -/

/-- The keys of a table, in order. -/
def Table.keys {α : Type} (t : Table α) : List Key := t.toList.map Prod.fst

namespace Table

variable {α : Type} {t : Table α} {k : Key}

/-- The keys of a table are those under which it has an entry. -/
theorem mem_keys_iff : k ∈ t.keys ↔ t.contains k = true := by
  rw [keys, toList, List.map_reverse, List.mem_reverse]
  exact mem_keys

/-- A key under which nothing is found is not among them. -/
theorem not_mem_keys_iff : k ∉ t.keys ↔ t.get? k = none := by
  rw [mem_keys_iff, ← contains_eq_false, Bool.not_eq_true]

/-- A new key goes to the end. -/
theorem keys_insert (h : t.get? k = none) (v : α) : (t.insert k v).keys = t.keys ++ [k] := by
  rw [keys, toList_insert h, List.map_append]
  rfl

/-- A key that is there keeps its place. -/
theorem keys_replace (h : t.contains k = true) (v : α) : (t.insert k v).keys = t.keys := by
  rw [keys, keys, toList, toList, entries_insert_of_contains h, List.map_reverse, List.map_reverse,
    map_fst_replaced]

end Table

/-- Whether a datum counts as true can be told from its key. -/
theorem Datum.isTruthy_of_key {d : Datum} {k : Key} (h : d.key = .ok k) :
    d.isTruthy = true ↔ k ≠ .null ∧ k ≠ .text "" ∧ k ≠ .whole 0 := by
  cases d with
  | null => cases h; simp [isTruthy]
  | bool b => cases h; cases b <;> simp [isTruthy]
  | int n => cases h; simp [isTruthy]
  | text s => cases h; simp [isTruthy]
  | float x =>
    cases h
    cases x with
    | nan | infinite => simp [isTruthy, Key.ofDouble, Double.equal]
    | finite y =>
      have hzero : FiniteDouble.zero.steps = 0 := rfl
      have hwhole : Key.ofDouble (.finite y) = .whole 0 ↔ y.steps = 0 := by
        have hint : y.toInt? = some 0 ↔ y.steps = 0 := by
          rw [FiniteDouble.toInt?_eq_some, Int.zero_mul]
        rw [← hint, Key.ofDouble]
        cases y.toInt? <;> simp
      have hnumber : Key.ofDouble (.finite y) ≠ .null ∧ Key.ofDouble (.finite y) ≠ .text "" := by
        rw [Key.ofDouble]
        cases y.toInt? <;> simp
      simp [isTruthy, Double.equal, hzero, hwhole, hnumber]
  | list | record => cases h

namespace Diagram

/-! ## What items ask for -/

/-- The key of what is given for an identity, if it counts as one. -/
def askedFor? (counts : Datum → Bool) (id : Datum) : Option Key :=
  if counts id then id.key.toOption else none

/-- The key under which the record of an item asks to be kept. -/
def askedKey? (counts : Datum → Bool) : Datum → Option Key
  | .record fields => askedFor? counts (Fields.get fields "id")
  | _ => none

/-- An identity that items without one may get. -/
def candidate (letter : String) (e : Nat) : Key := .text (letter ++ toString e)

/-- Whether an item takes one of the first candidates from the others: it asks for one of them, or
for no identity. -/
def rivals (letter : String) (e : Nat) : Option Key → Bool
  | none => true
  | some k => (List.range e).any fun i => k = candidate letter (i + 1)

/-- No identity is asked for twice. -/
def Apart (asked : List (Option Key)) : Prop := ∀ k, asked.count (some k) ≤ 1

/-- An item asks for a candidate, and so many items before it take from its like that it is gone. -/
def Overtaken (letter : String) (asked : List (Option Key)) : Prop :=
  ∃ before e, before ++ [some (candidate letter e)] <+: asked ∧ 1 ≤ e ∧
    e ≤ before.countP (rivals letter e)

/-- The items stand under these keys, in order: each under the one that it asks for, or under a
candidate. The candidates below the next number are gone, each to an item that asks for it or for
none. -/
structure Numbered (letter : String) (asked : List (Option Key)) (keys : List Key)
    (next : Nat) : Prop where
  stands : List.Forall₂ (fun a k => a = some k ∨ a = none ∧ ∃ j, 1 ≤ j ∧ j < next ∧
    k = candidate letter j)
    asked keys
  nodup : keys.Nodup
  gone : ∀ j, 1 ≤ j → j < next → candidate letter j ∈ keys
  count : asked.countP (rivals letter (next - 1)) + 1 = next
  clear : ¬ Overtaken letter asked

/-- What one more item adds to the keys: the one that it asks for, or the first candidate from the
next number on that is not there. -/
inductive Adds (letter : String) (keys : List Key) (next : Nat) : Option Key → List Key → Nat → Prop
  | asked {k : Key} (new : k ∉ keys) : Adds letter keys next (some k) (keys ++ [k]) next
  | numbered {j : Nat} (first : next ≤ j)
      (skipped : ∀ i, next ≤ i → i < j → candidate letter i ∈ keys)
      (new : candidate letter j ∉ keys) :
        Adds letter keys next none (keys ++ [candidate letter j]) (j + 1)

section
variable {letter : String} {asked more : List (Option Key)} {keys keys' : List Key}
  {next next' : Nat}

/-- Candidates with different numbers differ. -/
theorem candidate_eq_iff {i j : Nat} : candidate letter i = candidate letter j ↔ i = j :=
  ⟨fun h => append_toString_inj (Key.text.inj h), fun h => h ▸ rfl⟩

/-- A key that one more item leaves was there, or it is the one that the item asks for, or a
candidate. -/
theorem Adds.mem_keys {a : Option Key} (h : Adds letter keys next a keys' next') {k : Key}
    (hk : k ∈ keys') : k ∈ keys ∨ a = some k ∨ ∃ j, k = candidate letter j := by
  cases h with
  | asked new =>
    obtain hk | hk := List.mem_append.1 hk
    · exact .inl hk
    · exact .inr (.inl (congrArg some (List.mem_singleton.1 hk).symm))
  | @numbered j =>
    obtain hk | hk := List.mem_append.1 hk
    · exact .inl hk
    · exact .inr (.inr ⟨j, List.mem_singleton.1 hk⟩)

/-- An item asks for one of the first candidates if it asks for the last of them, or for one
before. -/
theorem rivals_succ (e : Nat) (a : Option Key) :
    rivals letter (e + 1) a = (rivals letter e a || a == some (candidate letter (e + 1))) := by
  cases a with
  | none => rfl
  | some k => simp [rivals, List.range_succ, Bool.beq_eq_decide_eq]

/-- Those that ask for the last of the first candidates are not among the rivals before. -/
theorem countP_rivals_succ (letter : String) (e : Nat) : ∀ asked : List (Option Key),
    asked.countP (rivals letter (e + 1)) =
      asked.countP (rivals letter e) + asked.count (some (candidate letter (e + 1)))
  | [] => rfl
  | a :: asked => by
    have hapart : rivals letter e (some (candidate letter (e + 1))) = false := by
      simp only [rivals, List.any_eq_false, List.mem_range, decide_eq_true_eq, candidate_eq_iff]
      omega
    rw [List.countP_cons, List.countP_cons, List.count_cons,
      countP_rivals_succ letter e asked, rivals_succ]
    by_cases hlast : a = some (candidate letter (e + 1))
    · subst hlast
      simp only [hapart, beq_self_eq_true, Bool.or_true, if_true, Bool.false_eq_true, if_false]
      omega
    · simp only [beq_eq_false_iff_ne.2 hlast, Bool.or_false, Bool.false_eq_true, if_false]
      omega

/-- Identities that differ where there are any. -/
theorem apart_of_nodup (h : asked.reduceOption.Nodup) : Apart asked := by
  intro k
  have hcount : (asked.filterMap id).count k ≤ 1 := List.nodup_iff_count_le_one.1 h k
  rwa [List.count_filterMap] at hcount

/-- What is not asked for twice in a list is not in what it begins with. -/
theorem Apart.mono (h : Apart more) (hbegins : asked <+: more) : Apart asked := fun k =>
  Nat.le_trans (hbegins.sublist.count_le (some k)) (h k)

/-- Each further candidate makes at most one more rival. -/
theorem Apart.countP_rivals_le (h : Apart asked) (letter : String) (e : Nat) : ∀ d,
    asked.countP (rivals letter (e + d)) ≤ asked.countP (rivals letter e) + d
  | 0 => Nat.le_refl _
  | d + 1 => by
    have hlast := h (candidate letter (e + d + 1))
    have hbefore := h.countP_rivals_le letter e d
    rw [← Nat.add_assoc, countP_rivals_succ]
    omega

/-- A record that begins with one in which an item is overtaken. -/
theorem Overtaken.mono (h : Overtaken letter asked) (hbegins : asked <+: more) :
    Overtaken letter more := by
  obtain ⟨before, e, hbefore, he⟩ := h
  exact ⟨before, e, hbefore.trans hbegins, he⟩

/-! ## One more item -/

namespace Numbered

/-- What is asked for stands among the keys. -/
theorem mem_keys (h : Numbered letter asked keys next) {k : Key}
    (hk : some k ∈ asked) : k ∈ keys := by
  obtain ⟨k', hk', hstands⟩ := exists_mem_of_forall₂ h.stands.flip hk
  obtain he | ⟨he, -⟩ := hstands
  · cases he
    exact hk'
  · cases he

/-- A key is asked for, or it is a candidate below the next number. -/
theorem mem_asked (h : Numbered letter asked keys next) {k : Key} (hk : k ∈ keys) :
    some k ∈ asked ∨ ∃ j, 1 ≤ j ∧ j < next ∧ k = candidate letter j := by
  obtain ⟨a, ha, hstands⟩ := exists_mem_of_forall₂ h.stands hk
  obtain rfl | ⟨-, hnumber⟩ := hstands
  · exact .inl ha
  · exact .inr hnumber

/-- The candidate before which no number is given is not gone while it is not among the keys. -/
theorem le_of_not_mem (h : Numbered letter asked keys next) {e : Nat} (he : 1 ≤ e)
    (hnew : candidate letter e ∉ keys) : next ≤ e :=
  Nat.le_of_not_lt fun hlt => hnew (h.gone e he hlt)

/-- An item that asks for a key that is not there is not overtaken. -/
theorem add_asked (h : Numbered letter asked keys next) {k : Key} (hnew : k ∉ keys)
    (hapart : Apart asked) : Numbered letter (asked ++ [some k]) (keys ++ [k]) next where
  stands := List.rel_append h.stands (.cons (.inl rfl) .nil)
  nodup := by
    rw [List.nodup_append_comm]
    exact List.nodup_cons.2 ⟨hnew, h.nodup⟩
  gone j hj hlt := List.mem_append_left _ (h.gone j hj hlt)
  count := by
    have hno : rivals letter (next - 1) (some k) = false := by
      simp only [rivals, List.any_eq_false, List.mem_range, decide_eq_true_eq]
      rintro i hi rfl
      exact hnew (h.gone (i + 1) (Nat.le_add_left 1 i) (by omega))
    rw [List.countP_append, List.countP_singleton, hno]
    exact h.count
  clear := by
    rintro ⟨before, e, hbefore, he, hcount⟩
    rw [List.prefix_concat_iff] at hbefore
    obtain hbefore | hbefore := hbefore
    · -- The item itself: the candidates below the next number have their rivals, and beyond it
      -- there is at most one for each candidate but its own.
      obtain ⟨rfl, hlast⟩ := List.append_inj' hbefore rfl
      obtain rfl : candidate letter e = k := Option.some.inj (List.cons.inj hlast).1
      have hle := h.le_of_not_mem he hnew
      have hnone : before.count (some (candidate letter e)) = 0 :=
        List.count_eq_zero.2 fun hmem => hnew (h.mem_keys hmem)
      have hrivals := hapart.countP_rivals_le letter (next - 1) (e - next)
      have hsplit := countP_rivals_succ letter (e - 1) before
      have hpositive := h.count
      rw [show next - 1 + (e - next) = e - 1 by omega] at hrivals
      rw [show e - 1 + 1 = e by omega, hnone] at hsplit
      omega
    · exact h.clear ⟨before, e, hbefore, he, hcount⟩

/-- Each candidate that is skipped has been asked for, and so it has one rival more. -/
theorem countP_rivals_skipped (h : Numbered letter asked keys next) (hapart : Apart asked) :
    ∀ d, (∀ i, next ≤ i → i < next + d → candidate letter i ∈ keys) →
      asked.countP (rivals letter (next - 1 + d)) = next - 1 + d
  | 0, _ => Nat.eq_sub_of_add_eq h.count
  | d + 1, hskipped => by
    have hpositive := h.count
    have hbefore := h.countP_rivals_skipped hapart d fun i hi hlt => hskipped i hi (by omega)
    have hmem : some (candidate letter (next + d)) ∈ asked := by
      obtain hmem | ⟨j, -, hlt, he⟩ :=
        h.mem_asked (hskipped (next + d) (Nat.le_add_right _ _) (by omega))
      · exact hmem
      · rw [candidate_eq_iff] at he
        omega
    have hone : asked.count (some (candidate letter (next + d))) = 1 :=
      Nat.le_antisymm (hapart _) (List.count_pos_iff.2 hmem)
    rw [← Nat.add_assoc, countP_rivals_succ, hbefore,
      show next - 1 + d + 1 = next + d by omega, hone]
    omega

/-- An item without an identity is numbered. -/
theorem add_numbered (h : Numbered letter asked keys next) {j : Nat} (hfirst : next ≤ j)
    (hskipped : ∀ i, next ≤ i → i < j → candidate letter i ∈ keys)
    (hnew : candidate letter j ∉ keys) (hapart : Apart asked) : Numbered letter (asked ++ [none])
    (keys ++ [candidate letter j]) (j + 1) where
  stands := by
    have hpositive := h.count
    refine List.rel_append (h.stands.imp fun a k hak => ?_)
      (.cons (.inr ⟨rfl, j, by omega, Nat.lt_succ_self j, rfl⟩) .nil)
    exact hak.imp_right fun ⟨ha, i, hi, hlt, he⟩ => ⟨ha, i, hi, by omega, he⟩
  nodup := by
    rw [List.nodup_append_comm]
    exact List.nodup_cons.2 ⟨hnew, h.nodup⟩
  gone i hi hlt := by
    rw [List.mem_append, List.mem_singleton, candidate_eq_iff]
    rcases Nat.lt_or_ge i next with hbelow | hge
    · exact .inl (h.gone i hi hbelow)
    · rcases Nat.lt_or_eq_of_le (Nat.le_of_lt_succ hlt) with hlt | rfl
      · exact .inl (hskipped i hge hlt)
      · exact .inr rfl
  count := by
    have hpositive := h.count
    have hskips := h.countP_rivals_skipped hapart (j - next) fun i hi hlt =>
      hskipped i hi (by omega)
    have hnone : asked.count (some (candidate letter j)) = 0 :=
      List.count_eq_zero.2 fun hmem => hnew (h.mem_keys hmem)
    have hsplit := countP_rivals_succ letter (j - 1) asked
    rw [show next - 1 + (j - next) = j - 1 by omega] at hskips
    rw [show j - 1 + 1 = j by omega, hnone, hskips] at hsplit
    rw [Nat.add_sub_cancel, List.countP_append, hsplit, List.countP_singleton]
    simp only [rivals, if_true]
    omega
  clear := by
    rintro ⟨before, e, hbefore, he, hcount⟩
    rw [List.prefix_concat_iff] at hbefore
    obtain hbefore | hbefore := hbefore
    · cases (List.cons.inj (List.append_inj' hbefore rfl).2).1
    · exact h.clear ⟨before, e, hbefore, he, hcount⟩

/-- One more item that is rebuilt. -/
theorem adds (h : Numbered letter asked keys next) (hapart : Apart asked) {a : Option Key}
    (ha : Adds letter keys next a keys' next') : Numbered letter (asked ++ [a]) keys' next' := by
  cases ha with
  | asked new => exact h.add_asked new hapart
  | numbered first skipped new => exact h.add_numbered first skipped new hapart

/-- An item whose identity is in use, though it is asked for once, is overtaken. -/
theorem overtaken (h : Numbered letter asked keys next) {k : Key} (hk : k ∈ keys)
    (hapart : Apart (asked ++ [some k])) : Overtaken letter (asked ++ [some k]) := by
  obtain hmem | ⟨j, hj, hlt, rfl⟩ := h.mem_asked hk
  · have htwice := hapart k
    have honce : 0 < asked.count (some k) := List.count_pos_iff.2 hmem
    rw [List.count_append, List.count_singleton_self] at htwice
    omega
  · refine ⟨asked, j, List.prefix_rfl, hj, ?_⟩
    have hrivals := (hapart.mono (List.prefix_append _ _)).countP_rivals_le letter j (next - 1 - j)
    have hcount := h.count
    rw [show j + (next - 1 - j) = next - 1 by omega] at hrivals
    omega

/-- Before the first item. -/
theorem empty : Numbered letter [] [] 1 where
  stands := .nil
  nodup := .nil
  gone j hj hlt := by omega
  count := rfl
  clear := by
    rintro ⟨before, e, hbefore, -⟩
    simp at hbefore

end Numbered

/-! ## One item of a record -/

/-- An identity that counts is asked for by its key. -/
theorem askedFor?_of_ofDatum {counts : Datum → Bool} {id : Datum} {i : Identity}
    (hcounts : counts id = true) (hi : Identity.ofDatum id = .ok i) :
    askedFor? counts id = some i.key := by
  have hkey := i.made
  rw [Identity.datum_of_ofDatum hi] at hkey
  rw [askedFor?, if_pos hcounts, hkey]
  rfl

/-- An item that is numbered adds the first candidate that the table does not have. -/
theorem adds_freshId {α : Type} (t : Table α) (letter : String) (k : Nat) :
    Adds letter t.keys k none (t.keys ++ [(freshId letter t.contains t.size k).1.key])
      (freshId letter t.contains t.size k).2 := by
  have hnew := get?_freshId t letter k
  obtain ⟨j, hj, he, hskipped⟩ := freshId_eq letter t.contains t.size k
  rw [he] at hnew ⊢
  exact .numbered hj (fun i hi hlt => Table.mem_keys_iff.2 (hskipped i hi hlt))
    (Table.not_mem_keys_iff.2 hnew)

variable {g g' : Diagram} {kind position id value name label source target raw : Datum} {n m : Node}

/-- An identity that is granted to a node is the one that is asked for, and none is granted exactly
if what is given does not count as true. -/
theorem askedFor?_of_requestedId {asked : Option Identity} (h : g.requestedId id = .ok asked) :
    askedFor? Datum.isTruthy id = asked.map Identity.key := by
  unfold requestedId at h
  split at h
  · next hnull =>
    cases h
    cases id with
    | null => rfl
    | bool | int | float | text | list | record => cases hnull
  · obtain ⟨i, hi, h⟩ := ok_of_bind h
    split at h
    · obtain ⟨_, _, h⟩ := ok_of_bind h
      cases h
    · split at h
      · next hcounts => cases h; exact askedFor?_of_ofDatum hcounts hi
      · next hcounts => cases h; rw [askedFor?, if_neg hcounts]; rfl

/-- A node that is created stands behind the others, and connections are left. -/
theorem adds_create (h : (g.create kind position id).1 = .ok n) :
    Adds "n" g.nodes.keys g.nextNode (askedFor? Datum.isTruthy id)
        (g.create kind position id).2.nodes.keys (g.create kind position id).2.nextNode ∧
      (g.create kind position id).2.connections = g.connections ∧
      (g.create kind position id).2.nextConnection = g.nextConnection := by
  have hat : ∀ {g : Diagram} {i : Identity}, (g.createAs kind position i).1 = .ok n →
      n.id = i ∧ (g.createAs kind position i).2 = g.addNode n := by
    intro g i h
    unfold createAs at h ⊢
    split at h
    · cases h
    · next n' hmade =>
      cases h
      obtain ⟨k, -, hmade⟩ := ok_of_bind hmade
      exact ⟨(Node.make_ok hmade).1, rfl⟩
  unfold create at h ⊢
  split at h
  · cases h
  · next i hi =>
    obtain ⟨rfl, hmade⟩ := hat h
    have hnew := Edit.requestedId_new hi
    rw [hmade, askedFor?_of_requestedId hi, addNode, Table.keys_insert hnew]
    exact ⟨.asked (Table.not_mem_keys_iff.2 hnew), rfl, rfl⟩
  · next hnone =>
    dsimp only at h ⊢
    obtain ⟨hid, hmade⟩ := hat h
    have hnew : g.nodes.get? n.id.key = none := hid ▸ get?_freshId g.nodes "n" g.nextNode
    rw [hmade, askedFor?_of_requestedId hnone, addNode, Table.keys_insert hnew, hid]
    exact ⟨adds_freshId g.nodes "n" g.nextNode, rfl, rfl⟩

/-- A diagram that differs from another in what nodes carry only. -/
structure Relabels (g g' : Diagram) : Prop where
  others : g' = { g with nodes := g'.nodes }
  keys : g'.nodes.keys = g.nodes.keys

/-- Nothing is changed. -/
theorem Relabels.refl (g : Diagram) : g.Relabels g := ⟨rfl, rfl⟩

/-- One change after another. -/
theorem Relabels.trans {g₁ g₂ g₃ : Diagram} (h : g₁.Relabels g₂)
    (h' : g₂.Relabels g₃) : g₁.Relabels g₃ := by
  refine ⟨?_, h'.keys.trans h.keys⟩
  rw [h'.others, h.others]

/-- A node that is found is replaced under its own key. -/
theorem Keyed.relabels (hg : g.Keyed) (hn : g.node? id = .ok (some n)) (hid : m.id = n.id) :
    g.Relabels (g.replaceNode m).2 := by
  have hheld : g.nodes.get? m.id.key = some n := hid ▸ hg.holds_of_node? hn
  refine ⟨rfl, Table.keys_replace ?_ m⟩
  rw [Table.contains_eq_isSome, hheld]
  rfl

/-- Setting a value changes what a node carries. -/
theorem Keyed.relabels_setValue (hg : g.Keyed)
    (h : g.setValue id value = .ok (m, g')) : g.Relabels g' := by
  obtain ⟨n, w, v, hn, -, -, -, rfl, rfl⟩ := setValue_ok h
  exact hg.relabels hn rfl

/-- So does setting the name of a variable … -/
theorem Keyed.relabels_setVariable (hg : g.Keyed) (h : g.setVariable id name = .ok (m, g')) :
    g.Relabels g' := by
  obtain ⟨n, hn, h⟩ := ok_of_bind h
  split at h
  · obtain ⟨_, -, h⟩ := ok_of_bind h
    cases h
    exact hg.relabels (requireNode_ok hn) rfl
  · cases h

/-- … and setting a label. -/
theorem Keyed.relabels_setLabel (hg : g.Keyed)
    (h : g.setLabel id label = .ok (m, g')) : g.Relabels g' := by
  obtain ⟨n, hn, h⟩ := ok_of_bind h
  split at h
  · split at h
    · cases h
    · cases h
      exact hg.relabels (requireNode_ok hn) rfl
  · cases h

/-- A node that is rebuilt stands behind the others, and connections are left. -/
theorem adds_restoreNode (hg : g.Keyed) (h : g.restoreNode raw = .ok g') :
    Adds "n" g.nodes.keys g.nextNode (askedKey? Datum.isTruthy raw) g'.nodes.keys g'.nextNode ∧
      g'.connections = g.connections ∧ g'.nextConnection = g.nextConnection := by
  obtain ⟨kind, hkind, h⟩ := ok_of_bind h
  obtain ⟨fields, rfl⟩ := Datum.eq_record_of_field hkind
  obtain ⟨position, -, h⟩ := ok_of_bind h
  obtain ⟨id, hid, h⟩ := ok_of_bind h
  obtain rfl : Fields.get fields "id" = id := Except.ok.inj hid
  obtain ⟨n, hn, h⟩ := ok_of_bind h
  obtain ⟨g₁, hvalue, h⟩ := ok_of_bind h
  obtain ⟨g₂, hvariable, h⟩ := ok_of_bind h
  have hmade := hg.create kind position (Fields.get fields "id")
  have h₁ := hmade.leads (leads_restoreValue hvalue {})
  have h₂ := h₁.leads (leads_restoreVariable hvariable {})
  have hvalue : (g.create kind position (Fields.get fields "id")).2.Relabels g₁ := by
    unfold restoreValue at hvalue
    split at hvalue
    · obtain ⟨_, -, hvalue⟩ := ok_of_bind hvalue
      split at hvalue
      · obtain ⟨_, hset, hvalue⟩ := ok_of_bind hvalue
        cases hvalue
        exact hmade.relabels_setValue hset
      · cases hvalue; exact .refl _
    · cases hvalue; exact .refl _
  have hvariable : g₁.Relabels g₂ := by
    unfold restoreVariable at hvariable
    split at hvariable
    · obtain ⟨_, -, hvariable⟩ := ok_of_bind hvariable
      split at hvariable
      · obtain ⟨_, hset, hvariable⟩ := ok_of_bind hvariable
        cases hvariable
        exact h₁.relabels_setVariable hset
      · cases hvariable; exact .refl _
    · cases hvariable; exact .refl _
  have hlabel : g₂.Relabels g' := by
    obtain ⟨_, -, h⟩ := ok_of_bind h
    split at h
    · obtain ⟨_, hset, h⟩ := ok_of_bind h
      cases h
      exact h₂.relabels_setLabel hset
    · cases h; exact .refl _
  obtain ⟨hothers, hkeys⟩ := (hvalue.trans hvariable).trans hlabel
  rw [hkeys, hothers]
  exact adds_create hn

/-- A connection that is rebuilt stands behind the others, and nodes are left. -/
theorem adds_restoreConnection (h : g.restoreConnection raw = .ok g') :
    Adds "c" g.connections.keys g.nextConnection (askedKey? Datum.isGiven raw) g'.connections.keys
        g'.nextConnection ∧ g'.nodes = g.nodes ∧ g'.nextNode = g.nextNode := by
  obtain ⟨source, hsource, h⟩ := ok_of_bind h
  obtain ⟨fields, rfl⟩ := Datum.eq_record_of_field hsource
  obtain ⟨target, -, h⟩ := ok_of_bind h
  obtain ⟨id, hid, h⟩ := ok_of_bind h
  obtain rfl : Fields.get fields "id" = id := Except.ok.inj hid
  obtain ⟨⟨c, g₁⟩, hadded, h⟩ := ok_of_bind h
  cases h
  obtain ⟨⟨out, into⟩, -, hadded⟩ := ok_of_bind hadded
  obtain ⟨⟨i, g₂⟩, hid, hadded⟩ := ok_of_bind hadded
  cases hadded
  obtain ⟨hothers, hnew⟩ := Edit.connectionId_new hid
  have hkeys : (g₂.addWire ⟨i, out.id, into.id⟩).connections.keys =
      g.connections.keys ++ [i.key] := by
    rw [addWire, hothers]
    exact Table.keys_insert hnew _
  refine ⟨?_, by rw [hothers]; rfl, by rw [hothers]; rfl⟩
  rw [hkeys]
  unfold connectionId at hid
  split at hid
  · next hgiven =>
    obtain ⟨i', hi', hid⟩ := ok_of_bind hid
    split at hid
    · obtain ⟨_, _, hid⟩ := ok_of_bind hid
      cases hid
    · cases hid
      rw [askedKey?, askedFor?_of_ofDatum hgiven hi']
      exact .asked (Table.not_mem_keys_iff.2 hnew)
  · next hnull =>
    cases hid
    rw [askedKey?, askedFor?, if_neg hnull]
    exact adds_freshId g.connections "c" g.nextConnection

end

/-! ## Series of items -/

/-- Items of a record that are rebuilt one after another: the letter of their numbers, what they ask
for, where they stand, the next number, and how one of them is rebuilt. -/
structure Series where
  letter : String
  asks : Datum → Option Key
  keys : Diagram → List Key
  next : Diagram → Nat
  restore : Diagram → Datum → Except Fault Diagram

/-- The nodes of a record. -/
def nodeSeries : Series where
  letter := "n"
  asks := askedKey? Datum.isTruthy
  keys g := g.nodes.keys
  next := nextNode
  restore := restoreNode

/-- The connections of a record. -/
def wireSeries : Series where
  letter := "c"
  asks := askedKey? Datum.isGiven
  keys g := g.connections.keys
  next := nextConnection
  restore := restoreConnection

namespace Series

/-- What the items of a record ask for, in order. -/
def asked (s : Series) (raws : List Datum) : List (Option Key) := raws.map s.asks

/-- These items, and no others, stand in a diagram. -/
def Stands (s : Series) (raws : List Datum) (g : Diagram) : Prop :=
  Numbered s.letter (s.asked raws) (s.keys g) (s.next g)

/-- What rebuilding one item of a series comes to in diagrams with `P`: it adds the item, or it is
refused, and for an identity in use only if that identity is asked for. -/
structure Adding (s : Series) (P : Diagram → Prop) : Prop where
  kept : ∀ {g g' : Diagram} {raw : Datum}, P g → s.restore g raw = .ok g' → P g'
  adds : ∀ {g g' : Diagram} {raw : Datum}, P g → s.restore g raw = .ok g' →
    Adds s.letter (s.keys g) (s.next g) (s.asks raw) (s.keys g') (s.next g')
  taken : ∀ {g : Diagram} {done : List Datum} {raw : Datum} {fault : Fault}, P g → s.Stands done g →
    s.restore g raw = .error fault → fault.isTaken = true → ∃ k ∈ s.keys g, s.asks raw = some k

variable {s : Series} {P : Diagram → Prop}

/-- The items of a series are rebuilt one after another behind those that are done: all of them
stand in the end, or one is refused, and for an identity in use only if it is overtaken. -/
theorem Adding.foldlM (hs : s.Adding P) :
    ∀ (raws : List Datum) {done : List Datum} {g : Diagram}, P g →
    s.Stands done g →
    Apart (s.asked (done ++ raws)) →
    (∀ g', raws.foldlM s.restore g = .ok g' → P g' ∧ s.Stands (done ++ raws) g') ∧
      ∀ fault, raws.foldlM s.restore g = .error fault → fault.isTaken = true →
        Overtaken s.letter (s.asked (done ++ raws))
  | [], done, g, hg, hdone, _ => by
    rw [List.append_nil]
    refine ⟨fun g' h => ?_, nofun⟩
    cases h
    exact ⟨hg, hdone⟩
  | raw :: raws, done, g, hg, hdone, hapart => by
    have hasked : s.asked (done ++ [raw]) = s.asked done ++ [s.asks raw] := List.map_append
    have hsplit : done ++ raw :: raws = done ++ [raw] ++ raws := by simp
    have hbegins : s.asked (done ++ [raw]) <+: s.asked (done ++ raw :: raws) := by
      rw [hsplit]
      exact (List.prefix_append _ _).map s.asks
    rw [List.foldlM_cons]
    cases hrestored : s.restore g raw with
    | ok g₁ =>
      have hstands : s.Stands (done ++ [raw]) g₁ := by
        rw [Stands, hasked]
        refine hdone.adds (hapart.mono (List.IsPrefix.trans ?_ hbegins)) (hs.adds hg hrestored)
        exact hasked ▸ List.prefix_append _ _
      rw [hsplit] at hapart ⊢
      exact hs.foldlM raws (hs.kept hg hrestored) hstands hapart
    | error fault =>
      refine ⟨nofun, fun fault' h htaken => ?_⟩
      cases h
      obtain ⟨k, hk, hasks⟩ := hs.taken hg hdone hrestored htaken
      have hapart := hapart.mono hbegins
      rw [hasked, hasks] at hapart hbegins
      exact (hdone.overtaken hk hapart).mono hbegins

/-- Items of a series are rebuilt under keys that they ask for, or under candidates. -/
theorem Adding.mem_keys (hs : s.Adding P) : ∀ {raws : List Datum} {g g' : Diagram}, P g →
    raws.foldlM s.restore g = .ok g' → P g' ∧ ∀ k ∈ s.keys g',
      k ∈ s.keys g ∨ (∃ raw ∈ raws, s.asks raw = some k) ∨ ∃ j, k = candidate s.letter j
  | [], g, g', hg, h => by
    cases h
    exact ⟨hg, fun k hk => .inl hk⟩
  | raw :: raws, g, g', hg, h => by
    rw [List.foldlM_cons] at h
    obtain ⟨g₁, h₁, h⟩ := ok_of_bind h
    obtain ⟨hg', hkeys⟩ := hs.mem_keys (hs.kept hg h₁) h
    refine ⟨hg', fun k hk => ?_⟩
    obtain hk | ⟨raw', hmem, hasks⟩ | hnumber := hkeys k hk
    · exact ((hs.adds hg h₁).mem_keys hk).imp_right (.imp_left fun hasks => ⟨raw, .head _, hasks⟩)
    · exact .inr (.inl ⟨raw', .tail _ hmem, hasks⟩)
    · exact .inr (.inr hnumber)

/-- A key under which a node is asked for is that of a datum that counts as true. -/
theorem counts_of_asks {raw : Datum} {k : Key} (h : nodeSeries.asks raw = some k) :
    k ≠ .null ∧ k ≠ .text "" ∧ k ≠ .whole 0 := by
  cases raw with
  | record fields =>
    have hasked : askedFor? Datum.isTruthy (Fields.get fields "id") = some k := h
    unfold askedFor? at hasked
    split at hasked
    · next hcounts => exact (Datum.isTruthy_of_key (toOption_eq_some.1 hasked)).1 hcounts
    · cases hasked
  | null | bool | int | float | text | list => cases h

/-- Nodes are added one after another, before there are connections and constraints. -/
theorem adding_nodes : nodeSeries.Adding fun g =>
    g.Keyed ∧ g.constraints = {} ∧ g.connections = .empty ∧ g.nextConnection = 1 where
  kept := by
    rintro g g' raw ⟨hkeyed, hfree, hempty, hone⟩ h
    obtain ⟨-, hconnections, hnext⟩ := adds_restoreNode hkeyed h
    exact ⟨hkeyed.leads (leads_restoreNode h {}), (constraints_restoreNode h).trans hfree,
      hconnections.trans hempty, hnext.trans hone⟩
  adds hg h := (adds_restoreNode hg.1 h).1
  taken := by
    rintro g done raw fault ⟨-, hfree, -⟩ hdone h htaken
    obtain ⟨fields, rfl, -, i, hi, hcontains⟩ := taken_of_restoreNode hfree h htaken
    have hmem : i.key ∈ nodeSeries.keys g := Table.mem_keys_iff.2 hcontains
    -- An identity that counts as false is never in use: no node stands under its key.
    have hcounts : i.key ≠ .null ∧ i.key ≠ .text "" ∧ i.key ≠ .whole 0 := by
      obtain hasked | ⟨j, -, -, he⟩ := hdone.mem_asked hmem
      · obtain ⟨raw, -, hraw⟩ := List.mem_map.1 hasked
        exact counts_of_asks hraw
      · rw [he]
        refine ⟨nofun, fun h => ?_, nofun⟩
        simpa [nodeSeries] using congrArg String.toList (Key.text.inj h)
    refine ⟨i.key, hmem, askedFor?_of_ofDatum ?_ hi⟩
    have hkey := i.made
    rw [Identity.datum_of_ofDatum hi] at hkey
    exact (Datum.isTruthy_of_key hkey).2 hcounts

/-- Connections are added one after another, and nodes are left. -/
theorem adding_wires (g₁ : Diagram) :
    wireSeries.Adding fun g => g.nodes = g₁.nodes ∧ g.nextNode = g₁.nextNode where
  kept := by
    rintro g g' raw ⟨hnodes, hnext⟩ h
    obtain ⟨-, hnodes', hnext'⟩ := adds_restoreConnection h
    exact ⟨hnodes'.trans hnodes, hnext'.trans hnext⟩
  adds _ h := (adds_restoreConnection h).1
  taken := by
    rintro g done raw fault - - h htaken
    obtain ⟨fields, rfl, hgiven, i, hi, hcontains⟩ := taken_of_restoreConnection h htaken
    exact ⟨i.key, Table.mem_keys_iff.2 hcontains, askedFor?_of_ofDatum hgiven hi⟩

/-- Before the first connection. -/
theorem stands_nil {g : Diagram} (hempty : g.connections = .empty) (hone : g.nextConnection = 1) :
    wireSeries.Stands [] g := by
  show Numbered "c" [] g.connections.keys g.nextConnection
  rw [hempty, hone]
  exact .empty

end Series

/-! ## Records -/

/-- The items that a record lists in a field. -/
def itemsAt (data : Datum) (key : String) : List Datum :=
  ((data.fieldOr key (.list [])) >>= Datum.members).toOption.getD []

/-- The items of a field that has members. -/
theorem itemsAt_eq {data d : Datum} {key : String} {items : List Datum}
    (hfield : data.fieldOr key (.list []) = .ok d) (hitems : d.members = .ok items) :
    itemsAt data key = items := by
  rw [itemsAt, hfield, ok_bind, hitems]
  rfl

/-- The nodes and connections of a record are rebuilt from its items. -/
theorem restoreParts_ok {data : Datum} {g : Diagram} {raws : List Datum}
    (h : restoreParts data = .ok (g, raws)) :
    ∃ g₁, (itemsAt data "nodes").foldlM restoreNode {} = .ok g₁ ∧
      (itemsAt data "connections").foldlM restoreConnection g₁ = .ok g := by
  obtain ⟨d, hd, h⟩ := ok_of_bind h
  obtain ⟨nodes, hitems, h⟩ := ok_of_bind h
  obtain ⟨g₁, hg₁, h⟩ := ok_of_bind h
  obtain ⟨d', hd', h⟩ := ok_of_bind h
  obtain ⟨wires, hitems', h⟩ := ok_of_bind h
  obtain ⟨g₂, hg₂, h⟩ := ok_of_bind h
  obtain ⟨_, -, h⟩ := ok_of_bind h
  obtain ⟨_, -, h⟩ := ok_of_bind h
  cases h
  rw [itemsAt_eq hd hitems, itemsAt_eq hd' hitems']
  exact ⟨g₁, hg₁, hg₂⟩

/-- Rebuilding constraints leaves nodes and connections. -/
theorem restoreConstraints_leaves : ∀ {raws : List Datum} {g g' : Diagram} {supply : Supply},
    (g.restoreConstraints supply raws).1 = .ok g' → g' = { g with constraints := g'.constraints }
  | [], _, _, _, h => by cases h; rfl
  | raw :: raws, g, g', supply, h => by
    unfold restoreConstraints at h
    split at h
    · cases h
    · split at h
      · cases h
      · next c g₁ supply₁ hadded =>
        have hfirst : g₁ = { g with constraints := g₁.constraints } := by
          have hadded := congrArg Prod.fst hadded
          unfold addConstraint at hadded
          split at hadded
          · cases hadded
          · split at hadded
            · obtain ⟨_, -, hadded⟩ := ok_of_bind hadded
              obtain ⟨_, -, hadded⟩ := ok_of_bind hadded
              obtain ⟨_, -, hadded⟩ := ok_of_bind hadded
              obtain ⟨_, -, hadded⟩ := ok_of_bind hadded
              cases hadded
              rfl
            · cases hadded
        have hrest := restoreConstraints_leaves h
        rw [hfirst] at hrest
        exact hrest

section
variable {data : Datum} (hnodes : Apart (nodeSeries.asked (itemsAt data "nodes")))
  (hwires : Apart (wireSeries.asked (itemsAt data "connections")))
include hnodes hwires

/-- The nodes and connections of a record in which no identity is asked for twice: one is refused
for an identity in use only if an item is overtaken, and if none is refused, all of them stand. -/
theorem restoreParts_numbered :
    (∀ fault, restoreParts data = .error fault → fault.isTaken = true →
      Overtaken "n" (nodeSeries.asked (itemsAt data "nodes")) ∨
        Overtaken "c" (wireSeries.asked (itemsAt data "connections"))) ∧
    ∀ g raws, restoreParts data = .ok (g, raws) →
      nodeSeries.Stands (itemsAt data "nodes") g ∧
      wireSeries.Stands (itemsAt data "connections") g := by
  have hempty : ({} : Diagram).Keyed ∧ ({} : Diagram).constraints = {} ∧
      ({} : Diagram).connections = .empty ∧ ({} : Diagram).nextConnection = 1 :=
        ⟨.empty 1 1, rfl, rfl, rfl⟩
  have hnone : nodeSeries.Stands [] {} := .empty
  refine ⟨fun fault h htaken => ?_, fun g raws h => ?_⟩
  · obtain h | ⟨d, hd, h⟩ := error_of_bind h
    · exact absurd htaken (Datum.spares_fieldOr.not_taken h)
    obtain h | ⟨nodes, hitems, h⟩ := error_of_bind h
    · exact absurd htaken (Datum.spares_members.not_taken h)
    rw [itemsAt_eq hd hitems] at hnodes ⊢
    obtain ⟨hok, herror⟩ := Series.adding_nodes.foldlM nodes hempty hnone hnodes
    obtain h | ⟨g₁, hg₁, h⟩ := error_of_bind h
    · exact .inl (herror fault h htaken)
    obtain ⟨⟨-, -, hbare, hone⟩, -⟩ := hok g₁ hg₁
    obtain h | ⟨d', hd', h⟩ := error_of_bind h
    · exact absurd htaken (Datum.spares_fieldOr.not_taken h)
    obtain h | ⟨wires, hitems', h⟩ := error_of_bind h
    · exact absurd htaken (Datum.spares_members.not_taken h)
    rw [itemsAt_eq hd' hitems'] at hwires ⊢
    obtain ⟨-, herror⟩ := (Series.adding_wires g₁).foldlM wires ⟨rfl, rfl⟩
      (Series.stands_nil hbare hone) hwires
    obtain h | ⟨g₂, -, h⟩ := error_of_bind h
    · exact .inr (herror fault h htaken)
    obtain h | ⟨_, -, h⟩ := error_of_bind h
    · exact absurd htaken (Datum.spares_fieldOr.not_taken h)
    obtain h | ⟨_, -, h⟩ := error_of_bind h
    · exact absurd htaken (Datum.spares_members.not_taken h)
    · cases h
  · obtain ⟨g₁, hg₁, hg₂⟩ := restoreParts_ok h
    obtain ⟨hok, -⟩ := Series.adding_nodes.foldlM _ hempty hnone hnodes
    obtain ⟨⟨-, -, hbare, hone⟩, hstands⟩ := hok g₁ hg₁
    obtain ⟨hok', -⟩ := (Series.adding_wires g₁).foldlM _ ⟨rfl, rfl⟩
      (Series.stands_nil hbare hone) hwires
    obtain ⟨⟨hnodes₂, hnext₂⟩, hstands'⟩ := hok' _ hg₂
    refine ⟨?_, hstands'⟩
    show Numbered "n" (nodeSeries.asked (itemsAt data "nodes")) g.nodes.keys g.nextNode
    rw [hnodes₂, hnext₂]
    exact hstands

/-- A record in which no identity is asked for twice, for nodes as for connections. If it is refused
for an identity in use, an item is overtaken; and if it is rebuilt, none is: the items stand in
order, each under the identity that it asks for or under one that no other item has or asks for. -/
theorem ofRecord_numbered (supply : Supply) :
    (∀ fault, (ofRecord supply data).1 = .error fault → fault.isTaken = true →
      Overtaken "n" (nodeSeries.asked (itemsAt data "nodes")) ∨
        Overtaken "c" (wireSeries.asked (itemsAt data "connections"))) ∧
    ∀ g, (ofRecord supply data).1 = .ok g →
      nodeSeries.Stands (itemsAt data "nodes") g ∧
      wireSeries.Stands (itemsAt data "connections") g := by
  obtain ⟨hrefused, hrebuilt⟩ := restoreParts_numbered hnodes hwires
  unfold ofRecord
  split
  · next fault hfault =>
    refine ⟨fun fault' h htaken => ?_, nofun⟩
    cases h
    exact hrefused _ hfault htaken
  · next g₂ raws hparts =>
    refine ⟨fun fault h htaken => absurd htaken (spares_restoreConstraints.not_taken h),
      fun g h => ?_⟩
    rw [restoreConstraints_leaves h]
    exact hrebuilt g₂ raws hparts

end

/-- Two numbers around one under the second candidate: they get the first candidate and the
third. -/
theorem ofRecord_numbered_around :
    let number : Fields := [("type", .text "number")]
    let data : Datum := .record [("nodes", .list [.record number,
      .record (("id", .text "n2") :: number), .record number])]
    Apart (nodeSeries.asked (itemsAt data "nodes")) ∧
      Apart (wireSeries.asked (itemsAt data "connections")) ∧
      ∃ g, (ofRecord {} data).1 = .ok g ∧ g.nodes.keys = [.text "n1", .text "n2", .text "n3"] ∧
        nodeSeries.Stands (itemsAt data "nodes") g ∧
        wireSeries.Stands (itemsAt data "connections") g := by
  intro number data
  have hnodes : nodeSeries.asked (itemsAt data "nodes") = [none, some (.text "n2"), none] := by
    decide +kernel
  have hwires : wireSeries.asked (itemsAt data "connections") = [] := by decide +kernel
  have hapart : Apart (nodeSeries.asked (itemsAt data "nodes")) :=
    hnodes ▸ apart_of_nodup (by decide)
  have hapart' : Apart (wireSeries.asked (itemsAt data "connections")) :=
    hwires ▸ apart_of_nodup .nil
  have hkeys : (ofRecord {} data).1.toOption.map (·.nodes.keys) = some [.text "n1",
      .text "n2", .text "n3"] := by
    decide +kernel
  obtain ⟨g, hg, hkeys⟩ := Option.map_eq_some_iff.1 hkeys
  have hg := toOption_eq_some.1 hg
  exact ⟨hapart, hapart', g, hg, hkeys, (ofRecord_numbered hapart hapart' {}).2 g hg⟩

/-- A number before one under the first candidate: the second is refused, though its identity is
asked for once. -/
theorem ofRecord_overtaken :
    let number : Fields := [("type", .text "number")]
    let data : Datum :=
      .record [("nodes", .list [.record number, .record (("id", .text "n1") :: number)])]
    Apart (nodeSeries.asked (itemsAt data "nodes")) ∧
      Apart (wireSeries.asked (itemsAt data "connections")) ∧
      (ofRecord {} data).1 = .error (.schema (.nodeIdTaken "n1")) := by
  intro number data
  have hnodes : nodeSeries.asked (itemsAt data "nodes") = [none, some (.text "n1")] := by
    decide +kernel
  have hwires : wireSeries.asked (itemsAt data "connections") = [] := by decide +kernel
  have hfault : (match (ofRecord {} data).1 with
      | .error fault => some fault
      | .ok _ => none) = some (.schema (.nodeIdTaken "n1")) := by decide +kernel
  refine ⟨hnodes ▸ apart_of_nodup (by decide), hwires ▸ apart_of_nodup .nil, ?_⟩
  split at hfault
  · next h => rw [h, Option.some.inj hfault]
  · cases hfault

end Diagram

end EquationStudio
