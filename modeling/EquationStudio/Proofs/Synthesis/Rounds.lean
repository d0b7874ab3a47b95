import EquationStudio.Proofs.Synthesis.Found
import Mathlib.Data.Set.Card

/-!
# How long a walk takes

A walk goes round and round until its stack is empty or a round fails. `Walk.Course` is this loop,
round by round, with what each round asks the emitter: a round asks it about one node at most
(`Walk.State.query?`, `Walk.State.step_congr`). Every walk comes to its end, through cycles too,
after one round and three more for each binary node behind the sink, and asks about no node twice
(`Diagram.walk_ends`).

The rounds are bounded by the tasks on the stack and three for each node that is neither done nor
waiting (`Walk.Round.tasks_lt`): a wired node puts three tasks on the stack, but only once, since it
waits from then on, and is done afterwards.
-/

namespace EquationStudio

namespace Walk

/-! ## What the emitter is asked -/

/-- What an emitter is asked to make something of. -/
inductive Query (α : Type) where
  | number (n : Node) (v : Number)
  | symbol (n : Node) (name : String)
  | binary (n : Node) (op : Operator) (left right : α)
  | degraded (n : Node)

/-- The node that a query is about. -/
def Query.node {α : Type} : Query α → Node
  | number n _ | symbol n _ | binary n _ _ _ | degraded n => n

/-- The answer of an emitter to a query. -/
def answer {α : Type} (e : Emitter α) : Query α → Except Fault α
  | .number _ v => .ok (e.number v)
  | .symbol _ name => .ok (e.symbol name)
  | .binary _ op left right => e.binary op left right
  | .degraded n => .ok (e.degraded n)

variable {α : Type} {g : Diagram} {e : Emitter α}

/-- What the emitter is asked when a node is looked at first, if anything: nothing of a wired binary
node. -/
def firstQuery? (g : Diagram) (n : Node) : Option (Query α) :=
  match n.content with
  | .number v => some (.number n v)
  | .symbol name => some (.symbol n name)
  | .binary _ => if (producers? g n).isNone then some (.degraded n) else none
  | .output => some (.degraded n)

/-- What the emitter is asked in the next round, if anything. -/
def State.query? (g : Diagram) (s : State α) : Option (Query α) :=
  match s.stack with
  | [] => none
  | .enter n :: _ =>
    if s.path.any (·.id.key = n.id.key) || s.memo.contains n.id.key then none else firstQuery? g n
  | .join n op left right :: _ => do
    let a ← s.memo.get? left.id.key
    let b ← s.memo.get? right.id.key
    return .binary n op a b

/-- The course of the loop from a state: what is asked in each of its rounds, and how it ends. -/
inductive Course (g : Diagram) (e : Emitter α) : State α → List (Option (Query α)) →
    Except Fault (State α) → Prop
  | done {s : State α} (stack : s.stack = []) : Course g e s [] (.ok s)
  | failed {s : State α} {fault : Fault} (more : s.stack ≠ []) (step : s.step g e = .error fault) :
      Course g e s [s.query? g] (.error fault)
  | round {s s' : State α} {asked : List (Option (Query α))} {end_ : Except Fault (State α)}
      (more : s.stack ≠ [])
      (step : s.step g e = .ok s') (rest : Course g e s' asked end_) :
        Course g e s (s.query? g :: asked) end_

/-- The keys of the nodes that the emitter is asked about, in order. -/
def askedKeys (asked : List (Option (Query α))) : List Key :=
  (asked.filterMap id).map (·.node.id.key)

/-- A node that is looked at first is the one that the emitter is asked about. -/
theorem node_of_firstQuery? {n : Node} {q : Query α}
    (h : firstQuery? g n = some q) : q.node = n := by
  unfold firstQuery? at h
  split at h
  · cases h; rfl
  · cases h; rfl
  · split at h <;> cases h
    rfl
  · cases h; rfl

section
variable {s s' : State α} {n : Node} {rest : List Task}

/-- What the emitter is asked when a node is on top of the stack that is new. -/
theorem State.query?_enter (stack : s.stack = .enter n :: rest)
    (free : s.path.any (·.id.key = n.id.key) = false)
    (new : s.memo.contains n.id.key = false) : s.query? g = firstQuery? g n := by
  rw [query?, stack]
  dsimp only
  rw [free, new]
  rfl

/-- What the emitter is asked when the producers of the node on top of the stack are done. -/
theorem State.query?_join {op : Operator} {left right : Node} {a b : α}
    (stack : s.stack = .join n op left right :: rest) (ha : s.memo.get? left.id.key = some a)
    (hb : s.memo.get? right.id.key = some b) : s.query? g = some (.binary n op a b) := by
  rw [query?, stack]
  dsimp only
  rw [ha, hb]
  rfl

/-- Looking at a new node depends on the emitter by the answer to the query about it. -/
theorem State.enter_congr {e' : Emitter α} (free : s.path.any (·.id.key = n.id.key) = false)
    (new : s.memo.contains n.id.key = false)
    (h : ∀ q : Query α, firstQuery? g n = some q → answer e q = answer e' q) :
    s.enter g e n = s.enter g e' n := by
  unfold firstQuery? at h
  have free' := Bool.eq_false_iff.1 free
  have new' := Bool.eq_false_iff.1 new
  rw [enter, enter, if_neg free', if_neg new', if_neg free', if_neg new']
  cases hcontent : n.content with
  | number v =>
    rw [hcontent] at h
    have he : e.number v = e'.number v := Except.ok.inj (h _ rfl)
    dsimp only
    rw [he]
  | symbol name =>
    rw [hcontent] at h
    have he : e.symbol name = e'.symbol name := Except.ok.inj (h _ rfl)
    dsimp only
    rw [he]
  | output =>
    rw [hcontent] at h
    have he : e.degraded n = e'.degraded n := Except.ok.inj (h _ rfl)
    dsimp only [degrade]
    rw [he]
  | binary op =>
    rw [hcontent] at h
    dsimp only at h ⊢
    cases hp : producers? g n with
    | some lr => rfl
    | none =>
      rw [hp] at h
      have he : e.degraded n = e'.degraded n := Except.ok.inj (h _ rfl)
      dsimp only [degrade]
      rw [he]

/-- A round depends on the emitter by the answer to its query alone. -/
theorem State.step_congr {e' : Emitter α}
    (h : ∀ q, s.query? g = some q → answer e q = answer e' q) :
    s.step g e = s.step g e' := by
  match hstack : s.stack with
  | [] =>
    rw [step, step, hstack]
  | .enter n :: rest =>
    rw [step, step, hstack]
    dsimp only
    by_cases free : s.path.any (·.id.key = n.id.key) = true
    · rw [enter, enter, if_pos free, if_pos free]
    by_cases new : s.memo.contains n.id.key = true
    · rw [enter, enter, if_neg free, if_pos new, if_neg free, if_pos new]
    rw [Bool.not_eq_true] at free new
    rw [query?_enter hstack free new] at h
    exact enter_congr free new h
  | .join n op left right :: rest =>
    rw [step, step, hstack]
    dsimp only [join]
    cases ha : s.memo.get? left.id.key with
    | none => rfl
    | some a =>
      cases hb : s.memo.get? right.id.key with
      | none => rfl
      | some b =>
        have he : e.binary op a b = e'.binary op a b := h _ (query?_join hstack ha hb)
        dsimp only
        rw [he]

end

/-! ## No node twice -/

/-- No node waits twice, and none that waits is done. -/
structure Clear (s : State α) : Prop where
  nodup : (s.path.map (·.id.key)).Nodup
  undone : ∀ n ∈ s.path, s.memo.contains n.id.key = false

/-- Nothing waits when a walk begins. -/
theorem clear_start (first : Node) : Clear ({ stack := [.enter first] } : State α) :=
  ⟨.nil, List.forall_mem_nil _⟩

section
variable {s s' : State α}

/-- A round leaves such a state. -/
theorem Clear.next (hc : Clear s) (h : Founded g e s) (hr : Round g e s s') : Clear s' := by
  obtain ⟨nodup, undone⟩ := id hc
  cases hr with
  | known => exact ⟨nodup, undone⟩
  | @leaf n rest t a stack free new finds leaf fold =>
    refine ⟨nodup, fun m hm => Bool.eq_false_iff.2 fun hdone => ?_⟩
    obtain hkey | hdone := contains_insert.1 hdone
    · exact Bool.eq_false_iff.1 free (List.any_eq_true.2 ⟨m, hm, decide_eq_true hkey⟩)
    · exact Bool.eq_false_iff.1 (undone m hm) hdone
  | @wired n l r op rest stack free new content producers =>
    refine ⟨List.nodup_cons.2 ⟨fun hmem => ?_, nodup⟩, List.forall_mem_cons.2 ⟨new, undone⟩⟩
    obtain ⟨m, hm, hkey⟩ := List.mem_map.1 hmem
    exact Bool.eq_false_iff.1 free (List.any_eq_true.2 ⟨m, hm, decide_eq_true hkey⟩)
  | @joined n l r op rest left right a b c stack finds fold fold' ha hb join =>
    have hpath : n :: waiting rest = s.path := by
      have := h.path
      rwa [stack] at this
    rw [← hpath] at nodup undone ⊢
    obtain ⟨hn, nodup⟩ := List.nodup_cons.1 nodup
    refine ⟨nodup, fun m hm => Bool.eq_false_iff.2 fun hdone => ?_⟩
    obtain hkey | hdone := contains_insert.1 hdone
    · exact hn (List.mem_map.2 ⟨m, hm, hkey⟩)
    · exact Bool.eq_false_iff.1 (undone m (.tail _ hm)) hdone

/-- The emitter is asked about a node only while that is not done. -/
theorem Clear.query_new (hc : Clear s) (h : Founded g e s) {q : Query α}
    (hq : s.query? g = some q) : s.memo.contains q.node.id.key = false := by
  unfold State.query? at hq
  split at hq
  · cases hq
  · next n rest stack =>
    split at hq
    · cases hq
    · next hfree =>
      have hnew : s.memo.contains n.id.key = false :=
        (Bool.or_eq_false_iff.1 (Bool.eq_false_iff.2 hfree)).2
      rwa [node_of_firstQuery? hq]
  · next n op left right rest stack =>
    obtain ⟨a, -, hq⟩ := Option.bind_eq_some_iff.1 hq
    obtain ⟨b, -, hq⟩ := Option.bind_eq_some_iff.1 hq
    cases hq
    have hpath := h.path
    rw [stack] at hpath
    exact hc.undone n (hpath ▸ .head _)

/-- A round makes the node done that the emitter is asked about, and no other. -/
theorem Round.contains_iff (hr : Round g e s s') (k : Key) :
    s'.memo.contains k = true ↔ (∃ q, s.query? g = some q ∧ k = q.node.id.key) ∨
    s.memo.contains k = true := by
  have hnone : s.query? g = none → s'.memo = s.memo →
      (s'.memo.contains k = true ↔ (∃ q, s.query? g = some q ∧ k = q.node.id.key) ∨
      s.memo.contains k = true) := by
    intro hq hmemo
    rw [hq, hmemo]
    simp
  have hsome : ∀ {q : Query α} {a : α}, s.query? g = some q →
      s'.memo = s.memo.insert q.node.id.key a →
      (s'.memo.contains k = true ↔ (∃ q, s.query? g = some q ∧ k = q.node.id.key) ∨
      s.memo.contains k = true) := by
    intro q a hq hmemo
    rw [hq, hmemo, contains_insert]
    simp
  cases hr with
  | @known n rest stack free there =>
    refine hnone ?_ rfl
    rw [State.query?, stack]
    dsimp only
    rw [if_pos (Bool.or_eq_true_iff.2 (.inr there))]
  | @leaf n rest t a stack free new finds leaf fold =>
    have hquery := State.query?_enter (g := g) stack free new
    cases finds with
    | number h | symbol h | output h => exact hsome (hquery.trans (by rw [firstQuery?, h])) rfl
    | loose h hp =>
      exact hsome (hquery.trans (by rw [firstQuery?, h]; dsimp only; rw [hp]; rfl)) rfl
    | join => cases leaf
  | @wired n l r op rest stack free new content producers =>
    refine hnone ((State.query?_enter stack free new).trans ?_) rfl
    rw [firstQuery?, content]
    dsimp only
    rw [producers]
    rfl
  | joined stack finds fold fold' ha hb join => exact hsome (State.query?_join stack ha hb) rfl

end

/-! ## The whole course -/

/-- What holds of the nodes on the stack and is handed on to producers holds of those on the stack
after a round. -/
theorem Round.forall_tasks {s s' : State α} {reached : Node → Prop} (hr : Round g e s s')
    (hreached : ∀ n l r, reached n → producers? g n = some (l, r) → reached l ∧ reached r)
    (hs : ∀ task ∈ s.stack, reached task.node) : ∀ task ∈ s'.stack, reached task.node := by
  cases hr with
  | known stack | leaf stack | joined stack =>
    rw [stack, List.forall_mem_cons] at hs
    exact hs.2
  | wired stack free new content producers =>
    rw [stack, List.forall_mem_cons] at hs
    obtain ⟨hl, hr⟩ := hreached _ _ _ hs.1 producers
    simp only [List.forall_mem_cons]
    exact ⟨hl, hr, hs.1, hs.2⟩

section
variable {s : State α} {asked : List (Option (Query α))} {last : Except Fault (State α)}

/-- The keys of the nodes that are asked about from a round on: the one of the round, if there is
one, and those after it. -/
theorem mem_askedKeys_cons {q? : Option (Query α)} {k : Key} :
    k ∈ askedKeys (q? :: asked) ↔ (∃ q, q? = some q ∧ k = q.node.id.key) ∨ k ∈ askedKeys asked := by
  cases q? <;> simp [askedKeys]

/-- In the course of a walk the emitter is asked about no node twice, and about none that is
done. -/
theorem Course.once (hg : g.Keyed) (h : Founded g e s) (hc : Clear s)
    (course : Course g e s asked last) :
    (askedKeys asked).Nodup ∧ ∀ k ∈ askedKeys asked, s.memo.contains k = false := by
  induction course with
  | done => exact ⟨.nil, List.forall_mem_nil _⟩
  | @failed s fault more step =>
    refine ⟨?_, fun k hk => ?_⟩
    · cases s.query? g with
      | none => exact .nil
      | some q => exact List.nodup_singleton _
    · obtain ⟨q, hq, rfl⟩ | hk := mem_askedKeys_cons.1 hk
      · exact hc.query_new h hq
      · cases hk
  | @round s s' asked last more step rest ih =>
    have hround := h.round hg more step
    obtain ⟨hnodup, hnew⟩ := ih (h.next hg hround) (hc.next h hround)
    -- What the round makes done is not asked about later.
    have hlater : ∀ k ∈ askedKeys asked, (∀ q, s.query? g = some q → k ≠ q.node.id.key) ∧
        s.memo.contains k = false := by
      intro k hk
      have hundone := (not_congr (hround.contains_iff k)).1 (Bool.eq_false_iff.1 (hnew k hk))
      obtain ⟨hother, hbefore⟩ := not_or.1 hundone
      exact ⟨fun q hq he => hother ⟨q, hq, he⟩, Bool.eq_false_iff.2 hbefore⟩
    refine ⟨?_, fun k hk => ?_⟩
    · cases hq : s.query? g with
      | none => exact hnodup
      | some q => exact List.nodup_cons.2 ⟨fun hmem => (hlater _ hmem).1 q hq rfl, hnodup⟩
    · obtain ⟨q, hq, rfl⟩ | hk := mem_askedKeys_cons.1 hk
      · exact hc.query_new h hq
      · exact (hlater k hk).2

/-- A course is no longer than the tasks on the stack and three rounds for each node of a list that
is neither done nor waiting, where all that is reached from the tasks and is binary is on the
list. -/
theorem Course.length_le (hg : g.Keyed) {nodes : List Node} {reached : Node → Prop}
    (hreached : ∀ n l r, reached n → producers? g n = some (l, r) → reached l ∧ reached r)
    (hnodes : ∀ n op, reached n → n.content = .binary op → n ∈ nodes) (h : Founded g e s)
    (hs : ∀ task ∈ s.stack, reached task.node) (course : Course g e s asked last) :
    asked.length ≤ s.stack.length + 3 * pending nodes s.memo s.path := by
  induction course with
  | done => exact Nat.zero_le _
  | @failed s fault more step =>
    have hpos := List.length_pos_iff.2 more
    rw [List.length_singleton]
    omega
  | @round s s' asked last more step rest ih =>
    have hround := h.round hg more step
    have hlt := hround.tasks_lt h fun n op hn => hnodes n op (hs _ hn)
    have hle := ih (h.next hg hround) (hround.forall_tasks hreached hs)
    rw [List.length_cons]
    omega

/-- Every walk has a course, and enough rounds run through it. -/
theorem exists_course (hg : g.Keyed) (h : Founded g e s) {rounds : Nat}
    (hcost : cost g s ≤ rounds) : ∃ asked, Course g e s asked (run g e rounds s) := by
  induction rounds generalizing s with
  | zero => exact ⟨[], .done (List.length_eq_zero_iff.1 (by unfold cost at hcost; omega))⟩
  | succ rounds ih =>
    rw [run]
    split
    · next hempty => exact ⟨[], .done (List.isEmpty_iff.1 hempty)⟩
    · next hmore =>
      have more : s.stack ≠ [] := fun hnil => hmore (List.isEmpty_iff.2 hnil)
      cases hstep : s.step g e with
      | error fault => exact ⟨_, .failed more hstep⟩
      | ok s' =>
        have hround := h.round hg more hstep
        obtain ⟨asked, course⟩ := ih (h.next hg hround) (by have := hround.cost_lt h; omega)
        exact ⟨_, .round more hstep course⟩

end

end Walk

/-! ## Walks behind sinks -/

namespace Diagram

variable {g : Diagram}

/-- An input of one node is fed by another, as the look-ups find it. -/
def Draws (g : Diagram) (n m : Node) : Prop := ∃ p ∈ n.inputs, g.producer? p = some m

/-- The binary nodes that are reached from a sink, from inputs to what feeds them. -/
def binariesBehind (g : Diagram) (sink : Node) : Set Node :=
  { n | Relation.ReflTransGen g.Draws sink n ∧ ∃ op, n.content = .binary op }

/-- How a walk ends that begins at the first node behind a sink. -/
structure WalkEnds {α : Type} (g : Diagram) (e : Emitter α) (sink first : Node) : Prop where
  /-- It comes to an end, and its answer is read off the last state. -/
  ends : ∃ asked last, Walk.Course g e { stack := [.enter first] } asked last ∧
    g.walk e sink = last.map fun s => ⟨s.memo.get? first.id.key, s.degraded.reverse⟩
  /-- It takes one round, and three more at most for each binary node behind the sink. -/
  rounds : ∀ asked last, Walk.Course g e { stack := [.enter first] } asked last →
    asked.length ≤ 1 + 3 * (g.binariesBehind sink).ncard
  /-- The emitter is asked about no node twice. -/
  once : ∀ asked last, Walk.Course g e { stack := [.enter first] } asked last →
    (Walk.askedKeys asked).Nodup
  /-- A round asks the emitter its query and nothing else. -/
  only : ∀ (s : Walk.State α) (e' : Emitter α), (∀ q, s.query? g = some q →
    Walk.answer e q = Walk.answer e' q) →
    s.step g e = s.step g e'

/-- The producers that are found for a node feed its inputs. -/
theorem draws_of_producers {n l r : Node} (h : Walk.producers? g n = some (l, r)) :
    g.Draws n l ∧ g.Draws n r := by
  obtain ⟨p, q, hinputs, hl, hr⟩ := exists_producers h
  rw [Draws, Draws, hinputs]
  exact ⟨⟨p, .head _, hl⟩, ⟨q, .tail _ (.head _), hr⟩⟩

/-- The first node behind a sink feeds an input of it. -/
theorem draws_root {sink first : Node} (h : g.root? sink = some first) : g.Draws sink first := by
  obtain ⟨p, hp, hproducer⟩ := Option.bind_eq_some_iff.1 h
  exact ⟨p, List.mem_of_head? hp, hproducer⟩

/-- There are finitely many nodes behind a sink: all but the sink stand in the diagram. -/
theorem Keyed.finite_binariesBehind (hg : g.Keyed) (sink : Node) :
    (g.binariesBehind sink).Finite := by
  refine ((List.finite_toSet g.nodes.values).insert sink).subset ?_
  rintro n ⟨hreached, -⟩
  obtain rfl | ⟨m, -, p, -, hproducer⟩ := Relation.ReflTransGen.cases_tail hreached
  · exact Set.mem_insert _ _
  · exact Set.mem_insert_of_mem _ (Table.mem_values.2 ⟨_, hg.holds_producer hproducer⟩)

/-- Every walk behind a sink ends, in every diagram at the end of a run of edits, whatever
identities it has and whether or not there are cycles behind the sink: after one round and three for
each binary node there, at most, and without asking the emitter about a node twice. -/
theorem walk_ends {α : Type} (edits : List Edit) (supply : Supply) (e : Emitter α) (sink : Node) :
    (run edits supply).root? sink = none ∧ (run edits supply).walk e sink = .ok ⟨none, []⟩ ∨
      ∃ first, (run edits supply).root? sink = some first ∧
      (run edits supply).WalkEnds e sink first := by
  have hg := Keyed.run edits supply
  generalize run edits supply = g at *
  cases hroot : g.root? sink with
  | none => exact .inl ⟨rfl, by rw [walk, hroot]⟩
  | some first =>
    have hstart := founded_start e (hg.holds_root hroot)
    refine .inr ⟨first, rfl, ?_, fun asked last course => ?_, fun asked last course => ?_,
      fun s e' => Walk.State.step_congr⟩
    · obtain ⟨asked, course⟩ := Walk.exists_course hg hstart (cost_start first)
      refine ⟨asked, _, course, ?_⟩
      rw [walk, hroot]
      dsimp only
      cases Walk.run g e (Walk.budget g) { stack := [.enter first] } <;> rfl
    · let nodes := (hg.finite_binariesBehind sink).toFinset.toList
      have hlength : nodes.length = (g.binariesBehind sink).ncard := by
        rw [Set.ncard_eq_toFinset_card _ (hg.finite_binariesBehind sink), Finset.length_toList]
      have hreached : ∀ n l r, Relation.ReflTransGen g.Draws sink n →
          Walk.producers? g n = some (l, r) →
          Relation.ReflTransGen g.Draws sink l ∧ Relation.ReflTransGen g.Draws sink r :=
            fun n l r hn hp =>
        ⟨.tail hn (draws_of_producers hp).1, .tail hn (draws_of_producers hp).2⟩
      have hlisted : ∀ n op, Relation.ReflTransGen g.Draws sink n →
          n.content = .binary op → n ∈ nodes :=
        fun n op hn hop => by simpa [nodes] using ⟨hn, op, hop⟩
      have hle := course.length_le hg hreached hlisted hstart
        (List.forall_mem_singleton.2 (.single (draws_root hroot)))
      have hpending : Walk.pending nodes (.empty : Table α) [] ≤ nodes.length :=
        List.countP_le_length
      dsimp only [List.length_singleton] at hle
      omega
    · exact (course.once hg hstart (Walk.clear_start first)).1

end Diagram

end EquationStudio
