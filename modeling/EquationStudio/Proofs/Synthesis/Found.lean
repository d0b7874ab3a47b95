import EquationStudio.Proofs.Synthesis.Readable
import EquationStudio.Proofs.Synthesis.Walk
import EquationStudio.Synthesis.Algebra

/-!
# One reading for every emitter

Where the text behind a sink can be read, the formula that it shows is what every emitter is given,
whatever the identities in the diagram are (`Diagram.Keyed.walk_emitter`): the walk makes of the
diagram what the emitter makes of the formula, or it fails with the fault of the emitter. `Finds`
says which formula is found behind a node by the look-ups of the diagram; a node whose inputs are
not both fed stands for itself.

What a round of a walk does is said once (`Walk.Round`), and a walk with another emitter does the
same until that emitter refuses (`Walk.Round.follow`). The formulas of the tasks on the stack carry
the fault through the rounds: taking a task from the stack and putting others in its place never
changes which fault comes first (`Walk.follow_run`).
-/

namespace EquationStudio

/-! ## The formula that is found -/

/-- The formula that is found behind a node. A node whose place is taken by its label stands for
itself. -/
inductive Finds (g : Diagram) : Node → Formula → Prop
  | number {n : Node} {v : Number} (h : n.content = .number v) : Finds g n (.number v)
  | symbol {n : Node} {name : String} (h : n.content = .symbol name) : Finds g n (.symbol name)
  | join {n l r : Node} {op : Operator} {left right : Formula} (h : n.content = .binary op)
      (hp : Walk.producers? g n = some (l, r)) (hl : Finds g l left) (hr : Finds g r right) :
      Finds g n (.join op left right)
  | loose {n : Node} {op : Operator} (h : n.content = .binary op)
      (hp : Walk.producers? g n = none) :
      Finds g n (.loose n)
  | output {n : Node} (h : n.content = .output) : Finds g n (.loose n)

/-- A formula without parts. -/
def Formula.IsLeaf : Formula → Prop
  | .number _ | .symbol _ | .loose _ => True
  | .join .. => False

namespace Finds

variable {g : Diagram} {n : Node} {t : Formula}

/-- Behind a node one formula is found at most. -/
theorem unique {t' : Formula} (h : Finds g n t) (h' : Finds g n t') : t = t' := by
  induction h generalizing t' with
  | number h =>
    cases h' with
    | number h' => cases h.symm.trans h'; rfl
    | symbol h' | join h' | loose h' | output h' => cases h.symm.trans h'
  | symbol h =>
    cases h' with
    | symbol h' => cases h.symm.trans h'; rfl
    | number h' | join h' | loose h' | output h' => cases h.symm.trans h'
  | join h hp _ _ ihl ihr =>
    cases h' with
    | join h' hp' hl' hr' =>
      cases h.symm.trans h'
      cases hp.symm.trans hp'
      rw [ihl hl', ihr hr']
    | loose _ hp' => cases hp.symm.trans hp'
    | number h' | symbol h' | output h' => cases h.symm.trans h'
  | loose h hp =>
    cases h' with
    | join _ hp' => cases hp.symm.trans hp'
    | loose | output => rfl
    | number h' | symbol h' => cases h.symm.trans h'
  | output h =>
    cases h' with
    | loose | output => rfl
    | number h' | symbol h' | join h' => cases h.symm.trans h'

/-- A formula without loose nodes that is found is read. -/
theorem reads (h : Finds g n t) (hloose : t.looseNodes = []) : Reads g n t := by
  induction h with
  | number h => exact .number h
  | symbol h => exact .symbol h
  | join h hp _ _ ihl ihr =>
    rw [Formula.looseNodes, List.append_eq_nil_iff] at hloose
    exact .join h hp (ihl hloose.1) (ihr hloose.2)
  | loose | output => cases hloose

end Finds

namespace Walk

/-! ## Rounds -/

/-- The node that a task is about. -/
def Task.node : Task → Node
  | .enter n => n
  | .join n _ _ _ => n

/-- The nodes that wait on the stack for their producers. -/
def waiting : List Task → List Node
  | [] => []
  | .enter _ :: rest => waiting rest
  | .join n _ _ _ :: rest => n :: waiting rest

/-- Before a node is joined its producers are known: they are among the keys known already, or tasks
in front of it are about them. -/
def Supplied : (Key → Prop) → List Task → Prop
  | _, [] => True
  | known, .enter n :: rest => Supplied (fun k => known k ∨ k = n.id.key) rest
  | known, .join n _ l r :: rest =>
    known l.id.key ∧ known r.id.key ∧ Supplied (fun k => known k ∨ k = n.id.key) rest

/-- Knowing more keys does no harm. -/
theorem Supplied.mono {tasks : List Task} {known known' : Key → Prop} (hk : ∀ k, known k → known' k)
    (h : Supplied known tasks) : Supplied known' tasks := by
  induction tasks generalizing known known' with
  | nil => trivial
  | cons task tasks ih =>
    have hk' : ∀ k' k, known k ∨ k = k' → known' k ∨ k = k' := fun k' k => Or.imp_left (hk k)
    cases task with
    | enter n => exact ih (hk' n.id.key) h
    | join n op l r => exact ⟨hk _ h.1, hk _ h.2.1, ih (hk' n.id.key) h.2.2⟩

section
variable {α β : Type} {g : Diagram} {e : Emitter α} {e' : Emitter β}

/-- A state in the course of a walk: its tasks have their places in the diagram, the nodes that wait
are the path, and what is remembered is what the emitter makes of formulas. -/
structure Founded (g : Diagram) (e : Emitter α) (s : State α) : Prop where
  tasks : ∀ task ∈ s.stack, task.Fits g
  supplied : Supplied (fun k => s.memo.contains k = true) s.stack
  path : waiting s.stack = s.path
  memo : ∀ k a, s.memo.get? k = some a →
    ∃ m t, g.Holds m ∧ m.id.key = k ∧ Finds g m t ∧ t.fold e = .ok a ∧ t.looseNodes ⊆ s.degraded

/-- What a round does. -/
inductive Round (g : Diagram) (e : Emitter α) (s : State α) : State α → Prop
  /-- A node that is remembered is passed over. -/
  | known {n : Node} {rest : List Task} (stack : s.stack = .enter n :: rest)
      (free : s.path.any (·.id.key = n.id.key) = false) (there : s.memo.contains n.id.key = true) :
      Round g e s { s with stack := rest }
  /-- A node without parts is done at once. -/
  | leaf {n : Node} {rest : List Task} {t : Formula} {a : α} (stack : s.stack = .enter n :: rest)
      (free : s.path.any (·.id.key = n.id.key) = false) (new : s.memo.contains n.id.key = false)
      (finds : Finds g n t) (leaf : t.IsLeaf) (fold : t.fold e = .ok a) :
      Round g e s ⟨rest, s.memo.insert n.id.key a, s.path, t.looseNodes ++ s.degraded⟩
  /-- A node with parts waits for its producers. -/
  | wired {n l r : Node} {op : Operator} {rest : List Task} (stack : s.stack = .enter n :: rest)
      (free : s.path.any (·.id.key = n.id.key) = false) (new : s.memo.contains n.id.key = false)
      (content : n.content = .binary op) (producers : producers? g n = some (l, r)) :
      Round g e s ⟨.enter l :: .enter r :: .join n op l r :: rest, s.memo, n :: s.path, s.degraded⟩
  /-- What was made of both producers is joined. -/
  | joined {n l r : Node} {op : Operator} {rest : List Task} {left right : Formula} {a b c : α}
      (stack : s.stack = .join n op l r :: rest) (finds : Finds g n (.join op left right))
      (fold : left.fold e = .ok a) (fold' : right.fold e = .ok b)
        (left : s.memo.get? l.id.key = some a)
      (right : s.memo.get? r.id.key = some b) (join : e.binary op a b = .ok c) :
      Round g e s ⟨rest, s.memo.insert n.id.key c, s.path.tail, s.degraded⟩

/-- A leaf is worked out by every emitter. -/
theorem exists_fold_of_isLeaf {t : Formula} (h : t.IsLeaf) (e : Emitter α) :
    ∃ a, t.fold e = .ok a := by
  cases t with
  | number | symbol | loose => exact ⟨_, rfl⟩
  | join => cases h

/-- What is made of a leaf when it is looked at. -/
theorem enter_leaf {s : State α} {n : Node} {t : Formula} {a : α}
    (free : s.path.any (·.id.key = n.id.key) = false) (new : s.memo.contains n.id.key = false)
    (finds : Finds g n t) (leaf : t.IsLeaf) (fold : t.fold e = .ok a) :
    State.enter g e s n = .ok ⟨s.stack, s.memo.insert n.id.key a, s.path,
    t.looseNodes ++ s.degraded⟩ := by
  unfold State.enter
  rw [if_neg (Bool.eq_false_iff.1 free), if_neg (Bool.eq_false_iff.1 new)]
  cases finds with
  | number h | symbol h | output h => rw [h]; cases fold; rfl
  | loose h hp => rw [h]; dsimp only; rw [hp]; cases fold; rfl
  | join => cases leaf

namespace Founded

variable {s s' : State α}

/-- A node that is remembered has a formula, and what is remembered is what the emitter makes of
it. -/
theorem of_get? (h : Founded g e s) {n : Node} (hn : g.Holds n) {a : α}
    (ha : s.memo.get? n.id.key = some a) :
    ∃ t, Finds g n t ∧ t.fold e = .ok a ∧ t.looseNodes ⊆ s.degraded := by
  obtain ⟨m, t, hm, hkey, ht, hfold, hsub⟩ := h.memo _ a ha
  rw [Diagram.Holds, hkey, hn] at hm
  cases hm
  exact ⟨t, ht, hfold, hsub⟩

/-- A formula that is found behind a node that is remembered is what the emitter made something
of. -/
theorem value (h : Founded g e s) {n : Node} (hn : g.Holds n) {t : Formula} (ht : Finds g n t)
    (there : s.memo.contains n.id.key = true) :
    ∃ a, t.fold e = .ok a ∧ s.memo.get? n.id.key = some a ∧ t.looseNodes ⊆ s.degraded := by
  rw [Table.contains_eq_isSome, Option.isSome_iff_exists] at there
  obtain ⟨a, ha⟩ := there
  obtain ⟨t', ht', hfold, hsub⟩ := h.of_get? hn ha
  obtain rfl := ht.unique ht'
  exact ⟨a, hfold, ha, hsub⟩

/-- A node that is joined has its producers in memory. -/
theorem of_join (hg : g.Keyed) (h : Founded g e s) {n l r : Node} {op : Operator} {rest : List Task}
    (stack : s.stack = .join n op l r :: rest) :
    ∃ left right a b, Finds g l left ∧ Finds g r right ∧ Finds g n (.join op left right) ∧
      left.fold e = .ok a ∧ right.fold e = .ok b ∧ s.memo.get? l.id.key = some a ∧
      s.memo.get? r.id.key = some b ∧ (Formula.join op left right).looseNodes ⊆ s.degraded := by
  have hfits : Task.Fits g (.join n op l r) := h.tasks _ (by rw [stack]; exact .head _)
  obtain ⟨-, content, producers⟩ := hfits
  obtain ⟨hl, hr⟩ := hg.holds_producers producers
  obtain ⟨hkl, hkr, -⟩ : Supplied (fun k => s.memo.contains k = true) (.join n op l r :: rest) :=
    stack ▸ h.supplied
  rw [Table.contains_eq_isSome, Option.isSome_iff_exists] at hkl hkr
  obtain ⟨a, ha⟩ := hkl
  obtain ⟨b, hb⟩ := hkr
  obtain ⟨left, hleft, hfold, hsub⟩ := h.of_get? hl ha
  obtain ⟨right, hright, hfold', hsub'⟩ := h.of_get? hr hb
  exact ⟨left, right, a, b, hleft, hright, .join content producers hleft hright,
    hfold, hfold', ha, hb, List.append_subset.2 ⟨hsub, hsub'⟩⟩

/-- A step that succeeds with tasks left is a round. -/
theorem round (hg : g.Keyed) (h : Founded g e s) (hstack : s.stack ≠ [])
    (hs : s.step g e = .ok s') : Round g e s s' := by
  unfold State.step at hs
  split at hs
  · next hnil => exact absurd hnil hstack
  · next n rest stack =>
    by_cases free : s.path.any (·.id.key = n.id.key) = true
    · rw [State.enter, if_pos free] at hs
      cases hs
    rw [Bool.not_eq_true] at free
    by_cases new : s.memo.contains n.id.key = true
    · rw [State.enter, if_neg (Bool.eq_false_iff.1 free), if_pos new] at hs
      cases hs
      exact .known stack free new
    rw [Bool.not_eq_true] at new
    have hleaf : ∀ {t : Formula} {a : α}, Finds g n t → t.IsLeaf →
        t.fold e = .ok a → Round g e s s' := by
      intro t a finds leaf fold
      rw [enter_leaf (s := { s with stack := rest }) free new finds leaf fold] at hs
      cases hs
      exact .leaf stack free new finds leaf fold
    cases content : n.content with
    | number v => exact hleaf (.number content) trivial rfl
    | symbol name => exact hleaf (.symbol content) trivial rfl
    | output => exact hleaf (.output content) trivial rfl
    | binary op =>
      cases producers : producers? g n with
      | none => exact hleaf (.loose content producers) trivial rfl
      | some lr =>
        simp only [State.enter, if_neg (Bool.eq_false_iff.1 free),
          if_neg (Bool.eq_false_iff.1 new), content, producers] at hs
        cases hs
        exact .wired stack free new content producers
  · next n op l r rest stack =>
    obtain ⟨left, right, a, b, -, -, finds, fold, fold', ha, hb, -⟩ := h.of_join hg stack
    simp only [State.join, ha, hb] at hs
    obtain ⟨c, hc, hs⟩ := ok_of_bind hs
    cases hs
    exact .joined stack finds fold fold' ha hb hc

/-- Remembering what the emitter makes of one more node. -/
theorem insert (h : Founded g e s) {n : Node} {t : Formula} {a : α} (hn : g.Holds n)
    (finds : Finds g n t) (fold : t.fold e = .ok a) {degraded : List Node}
    (hsub : s.degraded ⊆ degraded) (hloose : t.looseNodes ⊆ degraded) {k : Key} {b : α}
    (hk : (s.memo.insert n.id.key a).get? k = some b) :
    ∃ m t, g.Holds m ∧ m.id.key = k ∧ Finds g m t ∧ t.fold e = .ok b ∧ t.looseNodes ⊆ degraded := by
  rw [Table.get?_insert] at hk
  split at hk
  · next heq =>
    cases hk
    exact ⟨n, t, hn, heq.symm, finds, fold, hloose⟩
  · obtain ⟨m, u, hm, hkey, hu, hfold, hu'⟩ := h.memo k b hk
    exact ⟨m, u, hm, hkey, hu, hfold, fun x hx => hsub (hu' hx)⟩

/-- A round leaves such a state. -/
theorem next (hg : g.Keyed) (h : Founded g e s) (hr : Round g e s s') : Founded g e s' := by
  obtain ⟨tasks, supplied, path, memo⟩ := id h
  cases hr with
  | @known n rest stack free there =>
    rw [stack, List.forall_mem_cons] at tasks
    rw [stack] at supplied path
    exact ⟨tasks.2, supplied.mono fun k hk => hk.elim id fun he => he ▸ there, path, memo⟩
  | @leaf n rest t a stack free new finds leaf fold =>
    rw [stack, List.forall_mem_cons] at tasks
    rw [stack] at supplied path
    refine ⟨tasks.2, supplied.mono fun k hk => contains_insert.2 hk.symm, path, fun k b hk => ?_⟩
    exact h.insert tasks.1 finds fold (List.subset_append_right _ _)
      (List.subset_append_left _ _) hk
  | @wired n l r op rest stack free new content producers =>
    rw [stack, List.forall_mem_cons] at tasks
    rw [stack] at supplied path
    obtain ⟨hl, hr⟩ := hg.holds_producers producers
    refine ⟨?_, ⟨.inl (.inr rfl), .inr rfl, supplied.mono fun k hk => ?_⟩,
      congrArg (n :: ·) path, memo⟩
    · simp only [List.forall_mem_cons]
      exact ⟨hl, hr, ⟨tasks.1, content, producers⟩, tasks.2⟩
    · exact hk.elim (fun hk => .inl (.inl (.inl hk))) .inr
  | @joined n l r op rest left right a b c stack finds fold fold' ha hb join =>
    rw [stack, List.forall_mem_cons] at tasks
    rw [stack] at supplied path
    obtain ⟨-, -, supplied⟩ := supplied
    obtain ⟨left', right', -, -, -, -, finds', -, -, -, -, hsub⟩ := h.of_join hg stack
    cases finds.unique finds'
    refine ⟨tasks.2, supplied.mono fun k hk => contains_insert.2 hk.symm, ?_, fun k v hk => ?_⟩
    · exact congrArg List.tail path
    · refine h.insert tasks.1.1 finds ?_ (List.Subset.refl _) hsub hk
      rw [Formula.fold, fold, fold']
      exact join

end Founded

/-! ## How many rounds there are -/

section
variable {s s' : State α}

/-- A round leaves fewer tasks on the stack, if three are counted for each node of a list that is
neither done nor waiting, and the list has the binary nodes that are to be looked at. -/
theorem Round.tasks_lt {nodes : List Node} (h : Founded g e s) (hr : Round g e s s')
    (hnodes : ∀ n op, .enter n ∈ s.stack → n.content = .binary op → n ∈ nodes) :
    s'.stack.length + 3 * pending nodes s'.memo s'.path < s.stack.length +
    3 * pending nodes s.memo s.path := by
  cases hr with
  | @known n rest stack free there =>
    rw [stack, List.length_cons]
    exact Nat.add_lt_add_right (Nat.lt_succ_self _) _
  | @leaf n rest t a stack free new finds leaf fold =>
    have hless := pending_mono nodes s.path (grows_insert (Table.contains_eq_false.1 new) a)
    rw [stack, List.length_cons]
    dsimp only
    omega
  | @wired n l r op rest stack free new content producers =>
    have hn : n ∈ nodes := hnodes n op (by rw [stack]; exact .head _) content
    have hpending : isPending s.memo s.path n = true := by
      rw [isPending, new, free]
      rfl
    have hless := pending_cons_lt hn hpending
    rw [stack]
    simp only [List.length_cons]
    omega
  | @joined n l r op rest left right a b c stack finds fold fold' ha hb join =>
    have hpath : n :: waiting rest = s.path := by
      have := h.path
      rwa [stack] at this
    have hless := pending_finish nodes s.path.tail s.memo n c
    rw [← hpath, List.tail_cons] at hless
    rw [stack, List.length_cons, ← hpath, List.tail_cons]
    dsimp only
    omega

/-- A bound on the rounds that are left: the tasks on the stack, and three for each node that is
neither done nor waiting. -/
def cost (g : Diagram) (s : State α) : Nat :=
  s.stack.length + 3 * pending g.nodes.values s.memo s.path

/-- A round leaves fewer. -/
theorem Round.cost_lt (h : Founded g e s) (hr : Round g e s s') : cost g s' < cost g s :=
  hr.tasks_lt h fun _ _ hn _ => Table.mem_values.2 ⟨_, h.tasks _ hn⟩

/-- Enough rounds empty the stack, unless the walk breaks off. -/
theorem Founded.run (hg : g.Keyed) {rounds : Nat} (h : Founded g e s) (hc : cost g s ≤ rounds)
    (hs : Walk.run g e rounds s = .ok s') : s'.stack = [] ∧ Founded g e s' := by
  induction rounds generalizing s with
  | zero =>
    cases hs
    exact ⟨List.length_eq_zero_iff.1 (by unfold cost at hc; omega), h⟩
  | succ rounds ih =>
    rw [Walk.run] at hs
    split at hs
    · next hempty =>
      cases hs
      exact ⟨List.isEmpty_iff.1 hempty, h⟩
    · next hmore =>
      obtain ⟨s₁, hs₁, hs⟩ := ok_of_bind hs
      have hround := h.round hg (fun hnil => hmore (List.isEmpty_iff.2 hnil)) hs₁
      have hlt := hround.cost_lt h
      exact ih (h.next hg hround) (by omega) hs

end

/-! ## Two walks side by side -/

/-- Two walks have done the same so far, and remember something of the same nodes. -/
structure Alike (s : State α) (s' : State β) : Prop where
  stack : s'.stack = s.stack
  path : s'.path = s.path
  degraded : s'.degraded = s.degraded
  memo : ∀ k, s'.memo.contains k = s.memo.contains k

/-- Both remember one node more. -/
theorem Alike.insert {s : State α} {s' : State β} (h : Alike s s') (key : Key) (a : α)
    (b : β) (k : Key) : (s'.memo.insert key b).contains k = (s.memo.insert key a).contains k := by
  rw [Bool.eq_iff_iff, contains_insert, contains_insert, h.memo]

/-- A walk with another emitter does the same round, unless its emitter refuses to join. -/
theorem Round.follow (hg : g.Keyed) {s₁ s₁' : State α} {s₂ : State β} (hr : Round g e s₁ s₁')
    (h₂ : Founded g e' s₂) (ha : Alike s₁ s₂) :
    (∃ s₂', s₂.step g e' = .ok s₂' ∧ Alike s₁' s₂') ∨
      ∃ n op l r rest t fault, s₁.stack = .join n op l r :: rest ∧ Finds g n t ∧
        t.fold e' = .error fault ∧ s₂.step g e' = .error fault := by
  cases hr with
  | @known n rest stack free there =>
    have there' := (ha.memo _).trans there
    rw [← ha.stack] at stack
    rw [← ha.path] at free
    refine .inl ⟨{ s₂ with stack := rest }, ?_, rfl, ha.path, ha.degraded, ha.memo⟩
    simp only [State.step, stack, State.enter, free, there']
    rfl
  | @leaf n rest t a stack free new finds leaf fold =>
    obtain ⟨b, hb⟩ := exists_fold_of_isLeaf leaf e'
    have new' := (ha.memo _).trans new
    rw [← ha.stack] at stack
    rw [← ha.path] at free
    refine .inl ⟨⟨rest, s₂.memo.insert n.id.key b, s₂.path, t.looseNodes ++ s₂.degraded⟩, ?_,
      rfl, ha.path, congrArg (t.looseNodes ++ ·) ha.degraded, ha.insert _ a b⟩
    simp only [State.step, stack]
    exact enter_leaf (s := { s₂ with stack := rest }) free new' finds leaf hb
  | @wired n l r op rest stack free new content producers =>
    have new' := (ha.memo _).trans new
    rw [← ha.stack] at stack
    rw [← ha.path] at free
    refine .inl ⟨⟨.enter l :: .enter r :: .join n op l r :: rest, s₂.memo, n :: s₂.path,
      s₂.degraded⟩, ?_, rfl, congrArg (n :: ·) ha.path, ha.degraded, ha.memo⟩
    simp only [State.step, stack, State.enter, free, new', content, producers]
    rfl
  | @joined n l r op rest left right a b c stack finds fold fold' hl hr join =>
    have stack₂ := ha.stack.trans stack
    obtain ⟨left', right', a', b', -, -, finds', hfold, hfold', hl', hr', -⟩ := h₂.of_join hg stack₂
    have hstep : s₂.step g e' = e'.binary op a' b' >>= fun c' =>
        .ok ⟨rest, s₂.memo.insert n.id.key c', s₂.path.tail, s₂.degraded⟩ := by
      simp only [State.step, stack₂, State.join, hl', hr']
      rfl
    cases hjoin : e'.binary op a' b' with
    | ok c' =>
      rw [hjoin, ok_bind] at hstep
      exact .inl ⟨_, hstep, rfl, congrArg List.tail ha.path, ha.degraded, ha.insert _ c c'⟩
    | error fault =>
      rw [hjoin, error_bind] at hstep
      refine .inr ⟨n, op, l, r, rest, _, fault, stack, finds', ?_, hstep⟩
      rw [Formula.fold, hfold, hfold', ok_bind, ok_bind, hjoin]

end

end Walk

/-! ## The first fault -/

namespace Formula

variable {β : Type} {e : Emitter β}

/-- The fault with which an emitter fails on a formula, if it does. -/
def fault? (e : Emitter β) (t : Formula) : Option Fault :=
  match t.fold e with
  | .ok _ => none
  | .error fault => some fault

/-- The first fault among those of several formulas. -/
def firstFault (e : Emitter β) : List Formula → Option Fault
  | [] => none
  | t :: ts => (t.fault? e).or (firstFault e ts)

/-- An emitter that makes something of a formula does not fail. -/
theorem fault?_of_ok {t : Formula} {b : β} (h : t.fold e = .ok b) : t.fault? e = none := by
  rw [fault?, h]

/-- The fault of a formula is the one with which the emitter fails. -/
theorem fault?_of_error {t : Formula} {fault : Fault} (h : t.fold e = .error fault) :
    t.fault? e = some fault := by
  rw [fault?, h]

/-- The parts of a joined formula in front of it do not change which fault comes first. -/
theorem firstFault_parts (op : Operator) (left right : Formula) (ts : List Formula) :
    firstFault e (left :: right :: join op left right :: ts) =
    firstFault e (join op left right :: ts) := by
  simp only [firstFault]
  cases hl : left.fold e with
  | error fault =>
    have hj : (join op left right).fold e = .error fault := by rw [fold, hl, error_bind]
    rw [fault?_of_error hl, fault?_of_error hj]
    rfl
  | ok a =>
    cases hr : right.fold e with
    | error fault =>
      have hj : (join op left right).fold e = .error fault :=
        by rw [fold, hl, hr, ok_bind, error_bind]
      rw [fault?_of_ok hl, fault?_of_error hr, fault?_of_error hj]
      rfl
    | ok b =>
      rw [fault?_of_ok hl, fault?_of_ok hr]
      rfl

end Formula

namespace Walk

variable {α β : Type} {g : Diagram} {e : Emitter α} {e' : Emitter β}

/-- The formulas that are found behind the nodes of tasks. -/
abbrev Behind (g : Diagram) : List Task → List Formula → Prop :=
  List.Forall₂ fun task t => Finds g task.node t

/-- When a walk has emptied its stack, there was a formula behind the node of every task, and the
nodes that have been degraded meanwhile stand for themselves in these formulas. -/
theorem exists_behind (hg : g.Keyed) {rounds : Nat} {s final : State α} (h : Founded g e s)
    (hrun : run g e rounds s = .ok final) (hdone : final.stack = []) :
    ∃ ts, Behind g s.stack ts ∧ ∀ m ∈ final.degraded, m ∈ s.degraded ∨
    ∃ t ∈ ts, m ∈ t.looseNodes := by
  have hempty : ∀ {s : State α}, s.stack = [] →
      ∃ ts, Behind g s.stack ts ∧ ∀ m ∈ s.degraded, m ∈ s.degraded ∨ ∃ t ∈ ts, m ∈ t.looseNodes :=
    fun hs => ⟨[], hs ▸ .nil, fun _ hm => .inl hm⟩
  -- On the rounds, from the last one: what a task needs is found by the rounds that follow.
  induction rounds generalizing s with
  | zero => cases hrun; exact hempty hdone
  | succ rounds ih =>
    rw [run] at hrun
    split at hrun
    · next hnil => cases hrun; exact hempty hdone
    · next hmore =>
      obtain ⟨s₁, hs₁, hrun⟩ := ok_of_bind hrun
      have hround := h.round hg (fun hnil => hmore (List.isEmpty_iff.2 hnil)) hs₁
      obtain ⟨ts, hts, hdegraded⟩ := ih (h.next hg hround) hrun
      cases hround with
      | @known n rest stack free there =>
        have hn : g.Holds n := h.tasks (.enter n) (by rw [stack]; exact .head _)
        rw [Table.contains_eq_isSome, Option.isSome_iff_exists] at there
        obtain ⟨a, ha⟩ := there
        obtain ⟨t, ht, -, -⟩ := h.of_get? hn ha
        refine ⟨t :: ts, by rw [stack]; exact .cons ht hts,
          fun m hm => (hdegraded m hm).imp_right ?_⟩
        rintro ⟨t', ht', hm'⟩
        exact ⟨t', .tail _ ht', hm'⟩
      | @leaf n rest t a stack free new finds leaf fold =>
        refine ⟨t :: ts, by rw [stack]; exact .cons finds hts, fun m hm => ?_⟩
        obtain hm | ⟨t', ht', hm'⟩ := hdegraded m hm
        · exact (List.mem_append.1 hm).symm.imp_right fun hm => ⟨t, .head _, hm⟩
        · exact .inr ⟨t', .tail _ ht', hm'⟩
      | @wired n l r op rest stack free new content producers =>
        cases hts with
        | cons hl hts =>
        cases hts with
        | cons hr hts =>
        cases hts with
        | @cons _ t _ ts hn hts =>
        obtain rfl := Finds.unique hn (.join content producers hl hr)
        refine ⟨_ :: ts, by rw [stack]; exact .cons hn hts,
          fun m hm => (hdegraded m hm).imp_right ?_⟩
        rintro ⟨t', ht', hm'⟩
        simp only [List.mem_cons] at ht'
        obtain rfl | rfl | rfl | ht' := ht'
        · exact ⟨_, .head _, List.mem_append_left _ hm'⟩
        · exact ⟨_, .head _, List.mem_append_right _ hm'⟩
        · exact ⟨_, .head _, hm'⟩
        · exact ⟨t', .tail _ ht', hm'⟩
      | @joined n l r op rest left right a b c stack finds =>
        refine ⟨_ :: ts, by rw [stack]; exact .cons finds hts,
          fun m hm => (hdegraded m hm).imp_right ?_⟩
        rintro ⟨t', ht', hm'⟩
        exact ⟨t', .tail _ ht', hm'⟩

/-- A round forgets nothing, and a task that it takes is done or is left again. -/
theorem Round.remembers {s s' : State α} (hr : Round g e s s') :
    (∀ k, s.memo.contains k = true → s'.memo.contains k = true) ∧
      ∀ task ∈ s.stack, s'.memo.contains task.node.id.key = true ∨
      ∃ task' ∈ s'.stack, task'.node = task.node := by
  cases hr with
  | @known n rest stack free there =>
    refine ⟨fun _ h => h, ?_⟩
    rw [stack, List.forall_mem_cons]
    exact ⟨.inl there, fun task htask => .inr ⟨task, htask, rfl⟩⟩
  | @leaf n rest t a stack free new finds leaf fold =>
    refine ⟨fun _ h => contains_insert.2 (.inr h), ?_⟩
    rw [stack, List.forall_mem_cons]
    exact ⟨.inl (contains_insert.2 (.inl rfl)), fun task htask => .inr ⟨task, htask, rfl⟩⟩
  | @wired n l r op rest stack free new content producers =>
    refine ⟨fun _ h => h, ?_⟩
    rw [stack, List.forall_mem_cons]
    exact ⟨.inr ⟨.join n op l r, by simp, rfl⟩, fun task htask => .inr ⟨task, by simp [htask], rfl⟩⟩
  | @joined n l r op rest left right a b c stack finds fold fold' hl hr join =>
    refine ⟨fun _ h => contains_insert.2 (.inr h), ?_⟩
    rw [stack, List.forall_mem_cons]
    exact ⟨.inl (contains_insert.2 (.inl rfl)), fun task htask => .inr ⟨task, htask, rfl⟩⟩

/-- When a walk has emptied its stack, the nodes of all tasks are remembered. -/
theorem contains_of_run (hg : g.Keyed) {rounds : Nat} {s final : State α} (h : Founded g e s)
    (hrun : run g e rounds s = .ok final) (hdone : final.stack = []) :
    (∀ k, s.memo.contains k = true → final.memo.contains k = true) ∧
      ∀ task ∈ s.stack, final.memo.contains task.node.id.key = true := by
  induction rounds generalizing s with
  | zero => cases hrun; exact ⟨fun _ h => h, by simp [hdone]⟩
  | succ rounds ih =>
    rw [run] at hrun
    split at hrun
    · next hnil => cases hrun; exact ⟨fun _ h => h, by simp [hdone]⟩
    · next hmore =>
      obtain ⟨s₁, hs₁, hrun⟩ := ok_of_bind hrun
      have hround := h.round hg (fun hnil => hmore (List.isEmpty_iff.2 hnil)) hs₁
      obtain ⟨hkept, htasks⟩ := ih (h.next hg hround) hrun
      obtain ⟨hkept₁, htasks₁⟩ := hround.remembers
      refine ⟨fun k hk => hkept k (hkept₁ k hk), fun task htask => ?_⟩
      obtain hk | ⟨task', htask', hnode⟩ := htasks₁ task htask
      · exact hkept _ hk
      · exact hnode ▸ htasks task' htask'

/-- A round changes the formulas behind the tasks, but not the first fault among them. -/
theorem Round.behind {s s' : State α} (h : Founded g e s) (hr : Round g e s s') {ts : List Formula}
    (hts : Behind g s.stack ts) :
    ∃ ts', Behind g s'.stack ts' ∧ Formula.firstFault e ts' = Formula.firstFault e ts := by
  -- What the emitter has made of a formula is no fault.
  have hpassed : ∀ {t : Formula} {a : α} (ts : List Formula), t.fold e = .ok a →
      Formula.firstFault e ts = Formula.firstFault e (t :: ts) := fun ts hfold => by
    rw [Formula.firstFault, Formula.fault?_of_ok hfold]
    rfl
  cases hr with
  | @known n rest stack free there =>
    have hn : g.Holds n := h.tasks (.enter n) (by rw [stack]; exact .head _)
    rw [Table.contains_eq_isSome, Option.isSome_iff_exists] at there
    obtain ⟨a, ha⟩ := there
    obtain ⟨t, ht, hfold, -⟩ := h.of_get? hn ha
    rw [stack] at hts
    cases hts with
    | cons ht' hts =>
    obtain rfl := ht.unique ht'
    exact ⟨_, hts, hpassed _ hfold⟩
  | @leaf n rest t a stack free new finds leaf fold =>
    rw [stack] at hts
    cases hts with
    | cons ht hts =>
    obtain rfl := finds.unique ht
    exact ⟨_, hts, hpassed _ fold⟩
  | @wired n l r op rest stack free new content producers =>
    rw [stack] at hts
    cases hts with
    | cons ht hts =>
    cases ht with
    | number hc | symbol hc | output hc => cases content.symm.trans hc
    | loose _ hp => cases producers.symm.trans hp
    | join hc hp hl hr =>
      cases content.symm.trans hc
      cases producers.symm.trans hp
      exact ⟨_, .cons hl (.cons hr (.cons (.join content producers hl hr) hts)),
        Formula.firstFault_parts _ _ _ _⟩
  | @joined n l r op rest left right a b c stack finds fold fold' hl hr join =>
    rw [stack] at hts
    cases hts with
    | cons ht hts =>
    obtain rfl := finds.unique ht
    refine ⟨_, hts, hpassed _ (a := c) ?_⟩
    rw [Formula.fold, fold, fold']
    exact join

/-- A walk with another emitter, beside one that empties its stack, fails with the first fault of
the formulas behind the tasks, or else empties its stack too. -/
theorem follow_run (hg : g.Keyed) {rounds : Nat} {s₁ final : State α} {s₂ : State β}
    (h₁ : Founded g e s₁) (h₂ : Founded g e' s₂) (ha : Alike s₁ s₂)
    (hrun : run g e rounds s₁ = .ok final) (hdone : final.stack = []) {ts : List Formula}
    (hts : Behind g s₁.stack ts) : match Formula.firstFault e' ts with
    | some fault => run g e' rounds s₂ = .error fault
    | none => ∃ final', run g e' rounds s₂ = .ok final' ∧ Alike final final' ∧
        Founded g e' final' := by
  induction rounds generalizing s₁ s₂ ts with
  | zero =>
    cases hrun
    rw [hdone] at hts
    cases hts
    exact ⟨s₂, rfl, ha, h₂⟩
  | succ rounds ih =>
    rw [run] at hrun
    split at hrun
    · next hnil =>
      cases hrun
      rw [hdone] at hts
      cases hts
      exact ⟨s₂, by rw [run, ha.stack, if_pos hnil], ha, h₂⟩
    · next hmore =>
      obtain ⟨s₁', hs₁, hrun⟩ := ok_of_bind hrun
      have hround := h₁.round hg (fun hnil => hmore (List.isEmpty_iff.2 hnil)) hs₁
      have hmore₂ : ¬ s₂.stack.isEmpty = true := ha.stack ▸ hmore
      obtain ⟨s₂', hs₂, ha'⟩ | ⟨n, op, l, r, rest, t, fault, stack, finds, hfold, hs₂⟩ :=
        hround.follow hg h₂ ha
      · have hround₂ := h₂.round hg (fun hnil => hmore₂ (List.isEmpty_iff.2 hnil)) hs₂
        have hrun₂ : run g e' (rounds + 1) s₂ = run g e' rounds s₂' := by
          rw [run, if_neg hmore₂, hs₂, ok_bind]
        obtain ⟨ts', hts', hsame⟩ := hround₂.behind h₂ (ha.stack ▸ hts)
        rw [hrun₂, ← hsame]
        exact ih (h₁.next hg hround) (h₂.next hg hround₂) ha' hrun (ha'.stack ▸ hts')
      · rw [stack] at hts
        cases hts with
        | @cons _ t' _ ts ht hts =>
        obtain rfl := finds.unique ht
        rw [Formula.firstFault, Formula.fault?_of_error hfold]
        simp only [Option.some_or]
        rw [run, if_neg hmore₂, hs₂, error_bind]

end Walk

namespace Diagram

variable {g : Diagram}

/-- Before the first round there is one task, about the node behind the sink. -/
theorem founded_start {α : Type} (e : Emitter α) {root : Node} (hroot : g.Holds root) :
    Walk.Founded g e { stack := [.enter root] } :=
  ⟨List.forall_mem_singleton.2 hroot, trivial, rfl, fun _ _ h => by cases h⟩

/-- The rounds of a whole walk are enough. -/
theorem cost_start {α : Type} (root : Node) :
    Walk.cost g ({ stack := [.enter root] } : Walk.State α) ≤ Walk.budget g := by
  have hle : Walk.pending g.nodes.values (.empty : Table α) [] ≤ g.nodes.size := by
    refine List.countP_le_length.trans ?_
    rw [Table.values, Table.toList, List.length_map, List.length_reverse, Table.size]
  have hcost : Walk.cost g ({ stack := [.enter root] } : Walk.State α) =
    1 + 3 * Walk.pending g.nodes.values (.empty : Table α) [] := rfl
  rw [hcost, Walk.budget]
  omega

/-- Where the text behind a sink can be read, it is the text of a formula, or there is nothing
behind the sink. Every emitter is given that formula: its walk makes of the diagram what the emitter
makes of the formula, or fails as the emitter does. -/
theorem Keyed.walk_emitter (hg : g.Keyed) {sink : Node} {w : Walked String}
    (hw : g.walk textEmitter sink = .ok w) :
    g.root? sink = none ∧ w = ⟨none, []⟩ ∨
      ∃ root t, g.root? sink = some root ∧ g.Holds root ∧ Finds g root t ∧ w.value = some t.text ∧
        (w.degraded = [] ↔ t.looseNodes = []) ∧ ∀ {α : Type} (e : Emitter α),
          g.walk e sink = (t.fold e).map fun a => ⟨some a, w.degraded⟩ := by
  unfold walk at hw ⊢
  split at hw
  · next hroot => cases hw; exact .inl ⟨hroot, rfl⟩
  · next root hroot =>
    obtain ⟨final, hfinal, hw⟩ := ok_of_bind hw
    cases hw
    have hholds := hg.holds_root hroot
    have hstart := founded_start textEmitter hholds
    obtain ⟨hdone, hfounded⟩ := hstart.run hg (cost_start root) hfinal
    obtain ⟨ts, hts, hdegraded⟩ := Walk.exists_behind hg hstart hfinal hdone
    cases hts with
    | @cons _ t _ ts ht hts =>
    cases hts
    have hcontains := (Walk.contains_of_run hg hstart hfinal hdone).2 _ (.head _)
    obtain ⟨text, htext, hmemo, hsub⟩ := hfounded.value hholds ht hcontains
    rw [Formula.fold_textEmitter] at htext
    cases htext
    refine .inr ⟨root, t, hroot, hholds, ht, hmemo, ?_, fun e => ?_⟩
    · rw [List.reverse_eq_nil_iff]
      constructor
      · intro hnil
        exact List.subset_nil.1 (hnil ▸ hsub)
      · intro hnil
        refine List.eq_nil_iff_forall_not_mem.2 fun m hm => ?_
        obtain hm | ⟨t', ht', hm'⟩ := hdegraded m hm
        · cases hm
        · rw [List.mem_singleton.1 ht', hnil] at hm'
          cases hm'
    · have hfollow :=
        Walk.follow_run hg hstart (founded_start e hholds) ⟨rfl, rfl, rfl, fun _ => rfl⟩ hfinal
        hdone (.cons ht .nil)
      cases hfold : t.fold e with
      | error fault =>
        rw [Formula.firstFault, Formula.fault?_of_error hfold] at hfollow
        simp only [Option.some_or] at hfollow
        simp only [hfollow]
        rfl
      | ok a =>
        rw [Formula.firstFault, Formula.fault?_of_ok hfold] at hfollow
        simp only [Option.none_or, Formula.firstFault] at hfollow
        obtain ⟨final', hfinal', halike, hfounded'⟩ := hfollow
        obtain ⟨a', hfold', hmemo', -⟩ :=
          hfounded'.value hholds ht ((halike.memo _).trans hcontains)
        cases hfold.symm.trans hfold'
        simp only [hfinal', ok_bind, hmemo', halike.degraded]
        rfl

/-- What the algebraic reading of a sink gives where its text can be read: nothing if nothing is
behind the sink, and else what the algebra makes of the formula behind it, if that is complete. -/
theorem Keyed.algebraic_eq (hg : g.Keyed) {sink : Datum} {s : Synthesis}
    (hs : g.synthesize sink = .ok s) (A : SymbolicAlgebra) :
    (s.complete = false ∧ (∀ n root, g.resolveSink sink = .ok (some n) → g.root? n ≠ some root) ∧
      ∀ b, g.algebraic A (.ok b) sink = .ok none) ∨
    ∃ n root t, g.resolveSink sink = .ok (some n) ∧ g.root? n = some root ∧ g.Holds root ∧
      Finds g root t ∧ (s.complete = true ↔ t.looseNodes = []) ∧ ∀ b, g.algebraic A (.ok b) sink =
        (t.fold (A.emitter b)).map fun a => if s.complete then a else none := by
  obtain ⟨resolved, hresolved, hs⟩ := ok_of_bind hs
  cases resolved with
  | none =>
    cases hs
    refine .inl ⟨rfl, fun n root hn => ?_, fun b => ?_⟩
    · cases hresolved.symm.trans hn
    · rw [algebraic, hresolved]
      rfl
  | some n =>
    obtain ⟨walked, hwalked, hs⟩ := ok_of_bind hs
    obtain ⟨hroot, rfl⟩ | ⟨root, t, hroot, hholds, ht, hvalue, hdegraded, hwalk⟩ :=
      hg.walk_emitter hwalked
    · cases hs
      refine .inl ⟨rfl, fun n' root hn => ?_, fun b => ?_⟩
      · cases hresolved.symm.trans hn
        rw [hroot]
        nofun
      · rw [algebraic, hresolved, ok_bind]
        dsimp only
        rw [ok_bind, walk, hroot]
        rfl
    · rw [hvalue] at hs
      cases hs
      refine .inr ⟨n, root, t, hresolved, hroot, hholds, ht,
        List.isEmpty_iff.trans hdegraded, fun b => ?_⟩
      rw [algebraic, hresolved, ok_bind]
      dsimp only
      rw [ok_bind, hwalk]
      cases t.fold (A.emitter b) with
      | error fault => rfl
      | ok a =>
        simp only [Except.map, ok_bind]
        cases a with
        | some e => rfl
        | none => exact congrArg Except.ok (ite_self none).symm

end Diagram

end EquationStudio
