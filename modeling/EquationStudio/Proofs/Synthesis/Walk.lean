import EquationStudio.Proofs.Synthesis.Formula
import EquationStudio.Synthesis.Algebra

/-!
# The walk and the formula

The walk keeps a stack, remembers what it has made of nodes, and breaks off where it meets a node
again. What it does from the moment when a node is on top of the stack until the node is done is a
*visit*, and `Walk.visit` says how a visit ends: either the node has a formula and what is
remembered of it is what the emitter makes of the formula, or the walk breaks off, for a cycle
(`Walk.Loop`) or for an operator that the emitter refuses (`Walk.Refused`). The induction is on the
number of nodes that are neither done nor on the path to the node; it also bounds the rounds.

`Diagram.walk_eq_fold` is what this means for the whole walk: without a cycle it is the fold of the
formula, with one it is a fault, and without a producer there is no value.
-/

namespace EquationStudio

namespace Walk

/-! ## The path to a node -/

section
variable {g : Diagram} {first : Node}

/-- A node that is looked at next: the first one, or a producer of the innermost node of the
path. -/
def Under (g : Diagram) (first : Node) : List Node → Node → Prop
  | [], n => n = first
  | m :: _, n => g.Edge m n

/-- A path from the first node along edges, the innermost node first. No node is on it twice. -/
def Trail (g : Diagram) (first : Node) : List Node → Prop
  | [] => True
  | n :: path => n ∉ path ∧ Under g first path n ∧ Trail g first path

/-- From every node of a path the next one is reached. -/
theorem Trail.transGen {path : List Node} (h : Trail g first path) {n : Node}
    (hn : Under g first path n) {m : Node} (hm : m ∈ path) : Relation.TransGen g.Edge m n := by
  induction path generalizing n with
  | nil => cases hm
  | cons p path ih =>
    obtain ⟨-, hp, hpath⟩ := h
    rcases List.mem_cons.1 hm with rfl | hm
    · exact .single hn
    · exact .tail (ih hpath hp hm) hn

/-- The next node of a path is reached from the first one. -/
theorem Trail.reaches {path : List Node} (h : Trail g first path) {n : Node}
    (hn : Under g first path n) : g.Reaches first n := by
  induction path generalizing n with
  | nil => rw [show n = first from hn]
  | cons p path ih =>
    obtain ⟨-, hp, hpath⟩ := h
    exact .tail (ih hpath hp) hn

/-- The next node of a path is a node of the diagram. -/
theorem Under.hasNode (hfirst : g.HasNode first) {path : List Node} {n : Node}
    (hn : Under g first path n) : g.HasNode n := by
  cases path with
  | nil => rw [show n = first from hn]; exact hfirst
  | cons p path => exact Diagram.Edge.hasNode hn

/-- The next node of a path carries something. -/
theorem Under.content_ne (hfirst : first.content ≠ .output) {path : List Node} {n : Node}
    (hn : Under g first path n) : n.content ≠ .output := by
  cases path with
  | nil => rw [show n = first from hn]; exact hfirst
  | cons p path => exact Diagram.Edge.content_ne hn

/-- The nodes of a path are nodes of the diagram. -/
theorem Trail.hasNode (hfirst : g.HasNode first) {path : List Node} (h : Trail g first path) :
    ∀ m ∈ path, g.HasNode m := by
  induction path with
  | nil => exact List.forall_mem_nil _
  | cons p path ih =>
    obtain ⟨-, hp, hpath⟩ := h
    exact List.forall_mem_cons.2 ⟨hp.hasNode hfirst, ih hpath⟩

/-- Nodes of a well-formed diagram are told by their keys. -/
theorem eq_of_key (hg : g.WellFormed) {n m : Node} (hn : g.HasNode n) (hm : g.HasNode m)
    (h : n.id.key = m.id.key) : n = m := by
  rw [(hg.valid hn).key_eq, (hg.valid hm).key_eq] at h
  exact Diagram.WellFormed.node_unique hn hm (Key.text.inj h)

/-- A node is on a path exactly if one with its key is. -/
theorem Trail.any_key (hg : g.WellFormed) (hfirst : g.HasNode first) {path : List Node}
    (h : Trail g first path) {n : Node} (hn : g.HasNode n) :
    path.any (·.id.key = n.id.key) = true ↔ n ∈ path := by
  rw [List.any_eq_true]
  constructor
  · rintro ⟨m, hm, hkey⟩
    rwa [← eq_of_key hg (h.hasNode hfirst m hm) hn (of_decide_eq_true hkey)]
  · exact fun hm => ⟨n, hm, by simp⟩

end

/-! ## What is left to do -/

section
variable {α : Type}

/-- Whether a node is neither done nor on the path. -/
def isPending (memo : Table α) (path : List Node) (n : Node) : Bool :=
  !memo.contains n.id.key && !path.any (·.id.key = n.id.key)

/-- A node that is neither done nor on the path, in terms of keys. -/
theorem isPending_iff {memo : Table α} {path : List Node} {n : Node} :
    isPending memo path n = true ↔
      ¬ memo.contains n.id.key = true ∧ ∀ m ∈ path, m.id.key ≠ n.id.key := by
  simp [isPending]

/-- How many nodes of a list are neither done nor on the path. -/
def pending (nodes : List Node) (memo : Table α) (path : List Node) : Nat :=
  nodes.countP (isPending memo path)

/-- Everything that a table remembers is remembered by another. -/
def Grows (memo memo' : Table α) : Prop := ∀ k a, memo.get? k = some a → memo'.get? k = some a

/-- A table that remembers more has more entries. -/
theorem Grows.contains {memo memo' : Table α} (h : Grows memo memo') {k : Key}
    (hk : memo.contains k = true) : memo'.contains k = true := by
  rw [Table.contains_eq_isSome, Option.isSome_iff_exists] at *
  obtain ⟨a, ha⟩ := hk
  exact ⟨a, h k a ha⟩

/-- A table remembers more when something new is kept. -/
theorem grows_insert {memo : Table α} {k : Key} (hk : memo.get? k = none) (a : α) :
    Grows memo (memo.insert k a) := by
  intro k' b hb
  rw [Table.get?_insert, if_neg, hb]
  rintro rfl
  cases hk.symm.trans hb

/-- What is kept in a table is in it. -/
theorem contains_insert {memo : Table α} {k k' : Key} {a : α} :
    (memo.insert k a).contains k' = true ↔ k' = k ∨ memo.contains k' = true := by
  simp only [Table.contains_eq_isSome, Table.get?_insert]
  by_cases hk : k' = k <;> simp [hk]

variable {memo memo' : Table α}

/-- Less is left to do when more is remembered. -/
theorem pending_mono (nodes path : List Node) (h : Grows memo memo') :
    pending nodes memo' path ≤ pending nodes memo path := by
  refine List.countP_mono_left fun n _ hn => ?_
  rw [isPending_iff] at hn ⊢
  exact ⟨fun hc => hn.1 (h.contains hc), hn.2⟩

/-- One node less is left to do when one is put on the path. -/
theorem pending_cons_lt {nodes path : List Node} {n : Node} (hmem : n ∈ nodes)
    (hn : isPending memo path n = true) :
    pending nodes memo (n :: path) < pending nodes memo path := by
  obtain ⟨before, after, rfl⟩ := List.append_of_mem hmem
  have hle : ∀ ms : List Node, ms.countP (isPending memo (n :: path)) ≤
      ms.countP (isPending memo path) := by
    refine fun ms => List.countP_mono_left fun m _ hm => ?_
    rw [isPending_iff, List.forall_mem_cons] at hm
    exact isPending_iff.2 ⟨hm.1, hm.2.2⟩
  have hself : ¬ isPending memo (n :: path) n = true := fun h =>
    (isPending_iff.1 h).2 n (.head _) rfl
  have hbefore := hle before
  have hafter := hle after
  rw [pending, pending, List.countP_append, List.countP_append, List.countP_cons_of_neg hself,
    List.countP_cons_of_pos hn]
  omega

/-- Nothing more is left to do when the innermost node of the path is done. -/
theorem pending_finish (nodes path : List Node) (memo : Table α) (n : Node) (a : α) :
    pending nodes (memo.insert n.id.key a) path ≤ pending nodes memo (n :: path) := by
  refine List.countP_mono_left fun m _ hm => ?_
  rw [isPending_iff, contains_insert, not_or] at hm
  exact isPending_iff.2 ⟨hm.1.2, List.forall_mem_cons.2 ⟨fun h => hm.1.1 h.symm, hm.2⟩⟩

end

/-! ## Visits -/

section
variable {α : Type} {g : Diagram} {e : Emitter α} {first : Node} {nodes : List Node}

/-- What is remembered is what the emitter makes of formulas, and the nodes that stand for
themselves in them have been met. -/
structure Sound (g : Diagram) (e : Emitter α) (s : State α) : Prop where
  memo : ∀ k a, s.memo.get? k = some a → ∃ m t, g.HasNode m ∧ k = m.id.key ∧ Unfolds g m t ∧
    t.fold e = .ok a ∧ t.looseNodes ⊆ s.degraded
  degraded : ∀ m ∈ s.degraded, s.memo.contains m.id.key = true

/-- The fault of a cycle: the path to a node that is on it. -/
def Loop (g : Diagram) (first : Node) (fault : Fault) : Prop :=
  ∃ path m, Trail g first path ∧ Under g first path m ∧ m ∈ path ∧ fault = cycleFault path m

/-- The fault of an operator that the emitter refuses between what it makes of two formulas. -/
def Refused (g : Diagram) (e : Emitter α) (first : Node) (fault : Fault) : Prop :=
  ∃ n op l r left right a b, g.Reaches first n ∧ n.content = .binary op ∧ g.Wired n l r ∧
    Unfolds g l left ∧ Unfolds g r right ∧ left.fold e = .ok a ∧ right.fold e = .ok b ∧
    e.binary op a b = .error fault

/-- How the visit of a node ends, with a bound on its rounds. -/
inductive Visit (g : Diagram) (e : Emitter α) (first : Node) (nodes : List Node) (s : State α)
    (n : Node) (rest : List Task) : Prop
  | done {k : Nat} (s' : State α) {t : Formula} {a : α}
      (run : ∀ m, run g e (k + m) s = run g e m s') (stack : s'.stack = rest)
      (path : s'.path = s.path) (sound : Sound g e s') (unfolds : Unfolds g n t)
      (fold : t.fold e = .ok a) (memo : s'.memo.get? n.id.key = some a)
      (grows : Grows s.memo s'.memo)
      (met : s'.degraded.reverse = t.looseNodes.foldl meet s.degraded.reverse)
      (cost : k + 3 * pending nodes s'.memo s.path ≤ 1 + 3 * pending nodes s.memo s.path)
  | failed {k : Nat} {fault : Fault} (run : ∀ m, run g e (k + m) s = .error fault)
      (cause : Loop g first fault ∨ Refused g e first fault)
      (fold : ∀ t, Unfolds g n t → t.fold e = .error fault)
      (cost : k ≤ 1 + 3 * pending nodes s.memo s.path)

/-! ### One round -/

/-- A round looks at the node on top of the stack. -/
theorem run_enter {s : State α} {n : Node} {rest : List Task} (h : s.stack = .enter n :: rest)
    (m : Nat) : run g e (1 + m) s = State.enter g e { s with stack := rest } n >>= run g e m := by
  rw [Nat.add_comm, run, State.step, h]
  rfl

/-- A round joins what was made of the producers of the node on top of the stack. -/
theorem run_join {s : State α} {n l r : Node} {op : Operator} {rest : List Task}
    (h : s.stack = .join n op l r :: rest) (m : Nat) :
    run g e (1 + m) s = State.join e { s with stack := rest } n op l r >>= run g e m := by
  rw [Nat.add_comm, run, State.step, h]
  rfl

/-- Keeping what the emitter makes of a new node's formula is sound. -/
theorem Sound.insert {s s' : State α} (h : Sound g e s) {n : Node} {t : Formula} {a : α}
    (hn : g.HasNode n) (ht : Unfolds g n t) (ha : t.fold e = .ok a)
    (hmemo : s'.memo = s.memo.insert n.id.key a) (hsub : s.degraded ⊆ s'.degraded)
    (hloose : t.looseNodes ⊆ s'.degraded) (hmet : ∀ m ∈ s'.degraded, m = n ∨ m ∈ s.degraded) :
    Sound g e s' := by
  refine ⟨fun k b hk => ?_, fun m hm => ?_⟩
  · rw [hmemo, Table.get?_insert] at hk
    split at hk
    · next heq =>
      cases hk
      exact ⟨n, t, hn, heq, ht, ha, hloose⟩
    · obtain ⟨m, u, hm, hkey, hu, hfold, hsubset⟩ := h.memo k b hk
      exact ⟨m, u, hm, hkey, hu, hfold, fun x hx => hsub (hsubset hx)⟩
  · rw [hmemo, contains_insert]
    rcases hmet m hm with rfl | hm
    · exact .inl rfl
    · exact .inr (h.degraded m hm)

/-- What is remembered of a node is what the emitter makes of its formula. -/
theorem Sound.of_get? (hg : g.WellFormed) {s : State α} (h : Sound g e s) {n : Node} {a : α}
    (hn : g.HasNode n) (ha : s.memo.get? n.id.key = some a) :
    ∃ t, Unfolds g n t ∧ t.fold e = .ok a ∧ t.looseNodes ⊆ s.degraded := by
  obtain ⟨m, t, hm, hkey, ht, hfold, hsub⟩ := h.memo _ a ha
  obtain rfl := eq_of_key hg hn hm hkey
  exact ⟨t, ht, hfold, hsub⟩

/-! ### Kinds of visits -/

section
variable {s : State α} {n : Node} {rest : List Task}

/-- A node that is done is passed over. -/
theorem visit_known (hg : g.WellFormed) (hs : s.stack = .enter n :: rest) (hsound : Sound g e s)
    (htrail : Trail g first s.path) (hfirst : g.HasNode first) (hn : g.HasNode n)
    (hpath : n ∉ s.path) {a : α} (ha : s.memo.get? n.id.key = some a) :
    Visit g e first nodes s n rest := by
  obtain ⟨t, ht, hfold, hloose⟩ := hsound.of_get? hg hn ha
  have hrun : ∀ m, run g e (1 + m) s = run g e m { s with stack := rest } := by
    intro m
    have hpath' : ¬ s.path.any (·.id.key = n.id.key) = true := by rwa [htrail.any_key hg hfirst hn]
    have hknown : s.memo.contains n.id.key = true := by rw [Table.contains_eq_isSome, ha]; rfl
    rw [run_enter hs, State.enter, if_neg hpath', if_pos hknown]
    rfl
  refine .done _ hrun rfl rfl ⟨hsound.memo, hsound.degraded⟩ ht hfold ha (fun _ _ h =>
    h) ?_ (Nat.le_refl _)
  exact (foldl_meet_of_subset fun m hm => List.mem_reverse.2 (hloose hm)).symm

/-- A node that is met again on the path to it closes a cycle. -/
theorem visit_cycle (hg : g.WellFormed) (hs : s.stack = .enter n :: rest)
    (htrail : Trail g first s.path) (hfirst : g.HasNode first) (hunder : Under g first s.path n)
    (hpath : n ∈ s.path) : Visit g e first nodes s n rest := by
  have hpath' : s.path.any (·.id.key = n.id.key) = true := by
    rwa [htrail.any_key hg hfirst (hunder.hasNode hfirst)]
  have hrun : ∀ m, run g e (1 + m) s = .error (cycleFault s.path n) := by
    intro m
    rw [run_enter hs, State.enter, if_pos hpath']
    rfl
  refine .failed hrun (.inl ⟨s.path, n, htrail, hunder, hpath, rfl⟩) (fun t ht => ?_) (by omega)
  exact absurd ⟨n, .refl, htrail.transGen hunder hpath⟩ (ht.not_cycleBehind hg)

/-- A node that can be worked out at once, and stands for itself or for nothing in its formula, is
done in one round. -/
theorem visit_leaf (hs : s.stack = .enter n :: rest) (hsound : Sound g e s) (hn : g.HasNode n)
    (hnew : s.memo.get? n.id.key = none) {t : Formula} {a : α} (ht : Unfolds g n t)
    (ha : t.fold e = .ok a) (hloose : t.looseNodes = [] ∨ t.looseNodes = [n])
    (henter : State.enter g e { s with stack := rest } n =
      .ok ⟨rest, s.memo.insert n.id.key a, s.path, t.looseNodes ++ s.degraded⟩) :
    Visit g e first nodes s n rest := by
  have hgrows := grows_insert hnew a
  have hless := pending_mono nodes s.path hgrows
  have hself : ∀ m ∈ t.looseNodes, m = n := by
    rcases hloose with h | h <;> simp [h]
  refine .done ⟨rest, s.memo.insert n.id.key a, s.path, t.looseNodes ++ s.degraded⟩
    (fun m => by rw [run_enter hs, henter]; rfl) rfl rfl ?_ ht ha (by simp) hgrows ?_ (by
      show 1 + 3 * pending nodes (s.memo.insert n.id.key a) s.path ≤ _
      omega)
  · refine hsound.insert hn ht ha rfl (List.subset_append_right _ _)
      (List.subset_append_left _ _) ?_
    intro m hm
    exact (List.mem_append.1 hm).imp (hself m) fun h => h
  · rcases hloose with h | h
    · rw [h]; rfl
    · have hunmet : ¬ s.degraded.reverse.any (·.id.key = n.id.key) = true := by
        intro hany
        obtain ⟨m, hm, hkey⟩ := List.any_eq_true.1 hany
        have := hsound.degraded m (List.mem_reverse.1 hm)
        rw [of_decide_eq_true hkey, Table.contains_eq_isSome, hnew] at this
        cases this
      simp only [h, List.foldl_cons, List.foldl_nil, List.singleton_append, List.reverse_cons, meet,
        if_neg hunmet]

/-- A wired binary node whose producers are done is done in one more round, unless the emitter
refuses to join what it made of them. -/
theorem visit_joined (hg : g.WellFormed) {l r : Node} {op : Operator} (hn : g.HasNode n)
    (hreach : g.Reaches first n) (hnew : s.memo.get? n.id.key = none) (hop : n.content = .binary op)
    (hw : g.Wired n l r) {k : Nat} {s' : State α} (hrun : ∀ m, run g e (k + m) s = run g e m s')
    (hstack : s'.stack = .join n op l r :: rest) (hpath : s'.path = n :: s.path)
    (hsound : Sound g e s') (hgrows : Grows s.memo s'.memo) {left right : Formula} {a b : α}
    (hl : Unfolds g l left) (hr : Unfolds g r right) (hla : left.fold e = .ok a)
    (hrb : right.fold e = .ok b) (ha : s'.memo.get? l.id.key = some a)
    (hb : s'.memo.get? r.id.key = some b)
    (hmet : s'.degraded.reverse = (Formula.join op left right).looseNodes.foldl meet
    s.degraded.reverse)
    (hcost : k + 1 + 3 * pending nodes s'.memo (n :: s.path) ≤
    1 + 3 * pending nodes s.memo s.path) : Visit g e first nodes s n rest := by
  have hfold : (Formula.join op left right).fold e = e.binary op a b := by
    rw [Formula.fold, hla, hrb, ok_bind, ok_bind]
  have hrun' : ∀ m, run g e (k + 1 + m) s =
      (do run g e m (State.finish { s' with stack := rest, path := s.path } n
      (← e.binary op a b))) := by
    intro m
    rw [Nat.add_assoc, hrun, run_join hstack, State.join]
    simp only [hpath, List.tail_cons, ha, hb]
    cases e.binary op a b <;> rfl
  have ht := Unfolds.join hop hw hl hr
  cases hc : e.binary op a b with
  | error fault =>
    refine .failed (fun m => by rw [hrun', hc]; rfl) (.inr ?_) (fun t ht' => ?_) (by omega)
    · exact ⟨n, op, l, r, left, right, a, b, hreach, hop, hw, hl, hr, hla, hrb, hc⟩
    · rw [← ht.unique hg ht', hfold, hc]
  | ok c =>
    have hfinish := pending_finish nodes s.path s'.memo n c
    -- The loose nodes on both sides have been met, whichever side they were met on first.
    obtain ⟨left', hl', -, hlsub⟩ := hsound.of_get? hg (hw.edge hop).1.hasNode ha
    obtain ⟨right', hr', -, hrsub⟩ := hsound.of_get? hg (hw.edge hop).2.hasNode hb
    obtain rfl := hl.unique hg hl'
    obtain rfl := hr.unique hg hr'
    refine .done (State.finish { s' with stack := rest, path := s.path } n c)
      (fun m => by rw [hrun', hc]; rfl) rfl rfl ?_ ht (hfold.trans hc) ?_ ?_ hmet ?_
    · refine hsound.insert hn ht (hfold.trans hc) rfl (fun _ h => h) ?_ fun _ h => .inr h
      exact List.append_subset.2 ⟨hlsub, hrsub⟩
    · show (s'.memo.insert n.id.key c).get? n.id.key = some c
      rw [Table.get?_insert, if_pos rfl]
    · intro key v hv
      show (s'.memo.insert n.id.key c).get? key = some v
      rw [Table.get?_insert, if_neg, hgrows key v hv]
      rintro rfl
      cases hnew.symm.trans hv
    · show k + 1 + 3 * pending nodes (s'.memo.insert n.id.key c) s.path ≤ _
      omega

/-- A wired binary node is done once its producers are done and joined. -/
theorem visit_wired (hg : g.WellFormed) {l r : Node} {op : Operator}
    (hs : s.stack = .enter n :: rest) (hn : g.HasNode n) (hreach : g.Reaches first n)
    (hnew : s.memo.get? n.id.key = none) (hop : n.content = .binary op) (hw : g.Wired n l r)
    (henter : State.enter g e { s with stack := rest } n = .ok { s with
      path := n :: s.path, stack := .enter l :: .enter r :: .join n op l r :: rest })
    (hless : pending nodes s.memo (n :: s.path) < pending nodes s.memo s.path)
    (hleft : Visit g e first nodes
      { s with path := n :: s.path, stack := .enter l :: .enter r :: .join n op l r :: rest } l
      (.enter r :: .join n op l r :: rest))
    (hright : ∀ s' : State α, s'.stack = .enter r :: .join n op l r :: rest →
      s'.path = n :: s.path → Sound g e s' → Grows s.memo s'.memo →
      Visit g e first nodes s' r (.join n op l r :: rest)) :
    Visit g e first nodes s n rest := by
  cases hleft with
  | @failed k fault run cause fold cost =>
    refine .failed (k := 1 + k) (fun m => ?_) cause (fun t ht => ?_) ?_
    · rw [Nat.add_assoc, run_enter hs, henter]
      exact run m
    · obtain ⟨left, right, rfl, hl, -⟩ := ht.exists_join hg hop hw
      rw [Formula.fold, fold _ hl, error_bind]
    · dsimp only at cost
      omega
  | @done k₁ s₁ left a run₁ stack₁ path₁ sound₁ hl fold₁ memo₁ grows₁ met₁ cost₁ =>
    dsimp only at path₁ grows₁ met₁ cost₁
    have hrun₁ : ∀ m, run g e (1 + k₁ + m) s = run g e m s₁ := by
      intro m
      rw [Nat.add_assoc, run_enter hs, henter]
      exact run₁ m
    cases hright s₁ stack₁ path₁ sound₁ grows₁ with
    | @failed k fault run cause fold cost =>
      rw [path₁] at cost
      refine .failed (k := 1 + k₁ + k) (fun m => ?_) cause (fun t ht => ?_) (by omega)
      · rw [Nat.add_assoc, hrun₁, run m]
      · obtain ⟨left', right, rfl, hl', hr⟩ := ht.exists_join hg hop hw
        obtain rfl := hl.unique hg hl'
        rw [Formula.fold, fold₁, ok_bind, fold _ hr, error_bind]
    | @done k₂ s₂ right b run₂ stack₂ path₂ sound₂ hr fold₂ memo₂ grows₂ met₂ cost₂ =>
      rw [path₁] at cost₂
      refine visit_joined (k := 1 + k₁ + k₂) hg hn hreach hnew hop hw (fun m => ?_) stack₂
        (path₂.trans path₁) sound₂ (fun key v h => grows₂ _ _ (grows₁ _ _ h)) hl hr fold₁ fold₂
        (grows₂ _ _ memo₁) memo₂ ?_ (by omega)
      · rw [Nat.add_assoc, hrun₁, run₂]
      · rw [met₂, met₁, Formula.looseNodes, List.foldl_append]

/-- How the visit of a node ends, in a sound state with a path to the node. -/
theorem visit (hg : g.WellFormed) (hids : g.NamedWires) (hfirst : g.HasNode first)
    (hcontent : first.content ≠ .output)
    (hnodes : ∀ m op l r, g.Reaches first m → m.content = .binary op → g.Wired m l r → m ∈ nodes)
    (fuel : Nat) {s : State α} {n : Node} {rest : List Task} (hs : s.stack = .enter n :: rest)
    (hsound : Sound g e s) (htrail : Trail g first s.path) (hunder : Under g first s.path n)
    (hfuel : pending nodes s.memo s.path < fuel) : Visit g e first nodes s n rest := by
  -- On a bound for the nodes that are still to be worked out: one fewer with each step down a path.
  induction fuel generalizing s n rest with
  | zero => exact absurd hfuel (Nat.not_lt_zero _)
  | succ fuel ih =>
    have hn := hunder.hasNode hfirst
    have hreach := htrail.reaches hunder
    by_cases hpath : n ∈ s.path
    · exact visit_cycle hg hs htrail hfirst hunder hpath
    cases hmemo : s.memo.get? n.id.key with
    | some a => exact visit_known hg hs hsound htrail hfirst hn hpath hmemo
    | none =>
      have hany : ¬ s.path.any (·.id.key = n.id.key) = true := by rwa [htrail.any_key hg hfirst hn]
      have hnew : ¬ s.memo.contains n.id.key = true := by simp [Table.contains_eq_isSome, hmemo]
      cases hc : n.content with
      | number v =>
        refine visit_leaf hs hsound hn hmemo (.number hc) rfl (.inl rfl) ?_
        rw [State.enter, if_neg hany, if_neg hnew, hc]
        rfl
      | symbol name =>
        refine visit_leaf hs hsound hn hmemo (.symbol hc) rfl (.inl rfl) ?_
        rw [State.enter, if_neg hany, if_neg hnew, hc]
        rfl
      | output => exact absurd hc (hunder.content_ne hcontent)
      | binary op =>
        cases hp : producers? g n with
        | none =>
          have hloose := (Diagram.producers?_eq_none hg hids hc).1 hp
          refine visit_leaf hs hsound hn hmemo (.loose hloose) rfl (.inr rfl) ?_
          simp only [State.enter, if_neg hany, if_neg hnew, hc, hp]
          rfl
        | some lr =>
          obtain ⟨l, r⟩ := lr
          have hw := (Diagram.producers?_eq_some hg hids).1 hp
          obtain ⟨hedge, hedge'⟩ := hw.edge hc
          have hpending : isPending s.memo s.path n = true :=
            isPending_iff.2 ⟨hnew, fun m hm hkey => hany (List.any_eq_true.2 ⟨m, hm, by simpa⟩)⟩
          have hless := pending_cons_lt (hnodes n op l r hreach hc hw) hpending
          have htrail' : Trail g first (n :: s.path) := ⟨hpath, hunder, htrail⟩
          refine visit_wired hg hs hn hreach hmemo hc hw ?_ hless ?_
            fun s' hs' hpath' hsound' hgrows => ?_
          · simp only [State.enter, if_neg hany, if_neg hnew, hc, hp]
          · exact ih rfl ⟨hsound.memo, hsound.degraded⟩ htrail' hedge (by dsimp only; omega)
          -- What the left side has worked out is not to be worked out again on the right.
          · have hmono := pending_mono nodes (n :: s.path) hgrows
            exact ih hs' hsound' (hpath' ▸ htrail') (hpath' ▸ hedge') (by rw [hpath']; omega)

end

/-! ## Faults -/

/-- A loop on the path is a cycle that is reached from the first node. -/
theorem Loop.cycleBehind {fault : Fault} (h : Loop g first fault) : g.CycleBehind first := by
  obtain ⟨path, m, htrail, hunder, hm, -⟩ := h
  exact ⟨m, htrail.reaches hunder, htrail.transGen hunder hm⟩

/-- The names of nodes whose identities are texts can be strung together. -/
theorem cycleNames_ok : ∀ {ns : List Node} (i : Nat), (∀ n ∈ ns, n.id = .ofText n.ident) →
    cycleNames i ns = .ok (ns.map Node.ident)
  | [], _, _ => rfl
  | n :: ns, i, h => by
    obtain ⟨hn, hns⟩ := List.forall_mem_cons.1 h
    rw [cycleNames, hn]
    simp only [Identity.ofText, cycleNames_ok (i + 1) hns, ok_bind]
    rfl

/-- A loop in a well-formed diagram is reported by the names of the nodes on it. -/
theorem Loop.eq_cycle (hg : g.WellFormed) (hfirst : g.HasNode first) {fault : Fault}
    (h : Loop g first fault) : ∃ n path, fault = .cycle n path := by
  obtain ⟨path, m, htrail, hunder, -, rfl⟩ := h
  refine ⟨m.ident, path.reverse.map Node.ident, ?_⟩
  rw [cycleFault, cycleNames_ok]
  intro n hn
  rcases List.mem_append.1 hn with hn | hn
  · exact (hg.valid (htrail.hasNode hfirst n (List.mem_reverse.1 hn))).id_eq
  · rw [List.mem_singleton.1 hn]
    exact (hg.valid (hunder.hasNode hfirst)).id_eq

/-! ## Whole walks -/

/-- Nothing is remembered before the first round. -/
theorem sound_start : Sound g e { stack := [.enter first] } := by
  refine ⟨fun k a h => ?_, fun m hm => ?_⟩
  · cases h
  · cases hm

/-- There is nothing to do when the stack is empty. -/
theorem run_done {s : State α} (h : s.stack = []) : ∀ m, run g e m s = .ok s
  | 0 => rfl
  | m + 1 => by rw [run, h]; rfl

/-- How the visit of the first node ends. -/
theorem visit_first (hg : g.WellFormed) (hids : g.NamedWires) (hfirst : g.HasNode first)
    (hcontent : first.content ≠ .output) :
    Visit g e first g.nodes.values { stack := [.enter first] } first [] := by
  refine visit hg hids hfirst hcontent (fun m op l r hreach hop hw => ?_) _ rfl sound_start
    (show Trail g first [] from trivial) rfl (Nat.lt_succ_self _)
  exact hg.mem_nodes.2 (Diagram.hasNode_of_reaches hfirst hreach)

/-- The rounds of a whole walk are enough for the visit of the first node. -/
theorem budget_le {k : Nat} (h : k ≤ 1 + 3 * pending g.nodes.values (.empty : Table α) []) :
    ∃ m, budget g = k + m := by
  have hle : pending g.nodes.values (.empty : Table α) [] ≤ g.nodes.size := by
    refine List.countP_le_length.trans ?_
    rw [Table.values, Table.toList, List.length_map, List.length_reverse, Table.size]
  exact ⟨budget g - k, by rw [budget]; omega⟩

end

end Walk

/-! ## The walk behind a sink -/

/-- The emitter joins what it makes of the formulas behind the inputs of the nodes that are
reached. -/
def Emitter.Answers {α : Type} (e : Emitter α) (g : Diagram) (first : Node) : Prop :=
  ∀ n op l r left right a b, g.Reaches first n → n.content = .binary op → g.Wired n l r →
    Unfolds g l left → Unfolds g r right → left.fold e = .ok a → right.fold e = .ok b →
      ∃ c, e.binary op a b = .ok c

/-- An emitter that answers makes something of a formula. -/
theorem Unfolds.exists_fold {α : Type} {e : Emitter α} {g : Diagram} {first n : Node} {t : Formula}
    (h : Unfolds g n t) (he : e.Answers g first) (hreach : g.Reaches first n) :
    ∃ a, t.fold e = .ok a := by
  induction h with
  | number | symbol | loose => exact ⟨_, rfl⟩
  | @join n l r op left right h hw hl hr ihl ihr =>
    obtain ⟨hedge, hedge'⟩ := hw.edge h
    obtain ⟨a, ha⟩ := ihl (.tail hreach hedge)
    obtain ⟨b, hb⟩ := ihr (.tail hreach hedge')
    obtain ⟨c, hc⟩ := he _ op l r left right a b hreach h hw hl hr ha hb
    exact ⟨c, by rw [Formula.fold, ha, hb, ok_bind, ok_bind, hc]⟩

/-- An emitter that answers refuses nothing. -/
theorem Emitter.Answers.not_refused {α : Type} {e : Emitter α} {g : Diagram} {first : Node}
    (he : e.Answers g first) {fault : Fault} : ¬ Walk.Refused g e first fault := by
  rintro ⟨n, op, l, r, left, right, a, b, hreach, hop, hw, hl, hr, ha, hb, hc⟩
  obtain ⟨c, hc'⟩ := he n op l r left right a b hreach hop hw hl hr ha hb
  cases hc.symm.trans hc'

/-- Texts are joined without fail. -/
theorem answers_textEmitter (g : Diagram) (first : Node) : textEmitter.Answers g first :=
  fun _ _ _ _ _ _ _ _ _ _ _ _ _ _ _ => ⟨_, rfl⟩

namespace Diagram

section
variable {α : Type} {g : Diagram} {e : Emitter α} {sink first : Node}

/-- A node behind which there is no cycle has a formula. -/
theorem exists_unfolds (hg : g.WellFormed) (hids : g.NamedWires) (hfirst : g.HasNode first)
    (hcontent : first.content ≠ .output) (hcycle : ¬ g.CycleBehind first) :
    ∃ t, Unfolds g first t := by
  cases Walk.visit_first (e := textEmitter) hg hids hfirst hcontent with
  | done _ _ _ _ _ unfolds => exact ⟨_, unfolds⟩
  | failed _ cause =>
    rcases cause with h | h
    · exact absurd h.cycleBehind hcycle
    · exact absurd h (answers_textEmitter g first).not_refused

/-- The walk to a node with a formula gives what the emitter makes of it, or the fault of the
emitter if there is one, and the nodes that stand for themselves. -/
theorem walk_of_unfolds (hg : g.WellFormed) (hids : g.NamedWires) (hfirst : g.HasNode first)
    (hcontent : first.content ≠ .output) (hroot : g.root? sink = some first) {t : Formula}
    (ht : Unfolds g first t) :
    g.walk e sink = (t.fold e).map fun a => ⟨some a, firsts t.looseNodes⟩ := by
  rw [walk, hroot]
  cases Walk.visit_first (e := e) hg hids hfirst hcontent with
  | done s' run stack path sound unfolds fold memo grows met cost =>
    obtain ⟨m, hm⟩ := Walk.budget_le (Nat.le_of_add_right_le cost)
    obtain rfl := ht.unique hg unfolds
    simp only [hm, run, Walk.run_done stack, ok_bind, fold, memo, met]
    rfl
  | failed run cause fold cost =>
    obtain ⟨m, hm⟩ := Walk.budget_le cost
    simp only [hm, run, error_bind, fold t ht]
    rfl

/-- The walk into a cycle fails: for a loop that it meets, or for an operator that the emitter
refuses. -/
theorem walk_of_cycleBehind (hg : g.WellFormed) (hids : g.NamedWires) (hfirst : g.HasNode first)
    (hcontent : first.content ≠ .output) (hroot : g.root? sink = some first)
    (hcycle : g.CycleBehind first) :
    ∃ fault, g.walk e sink = .error fault ∧
      (Walk.Loop g first fault ∨ Walk.Refused g e first fault) := by
  rw [walk, hroot]
  cases Walk.visit_first (e := e) hg hids hfirst hcontent with
  | done _ _ _ _ _ unfolds => exact absurd hcycle (unfolds.not_cycleBehind hg)
  | failed run cause fold cost =>
    obtain ⟨m, hm⟩ := Walk.budget_le cost
    exact ⟨_, by simp only [hm, run, error_bind], cause⟩

/-- An output node has one input, behind which its expression is read. -/
theorem root?_of_mem_sinks (h : sink ∈ g.sinks) :
    ∃ p, sink.inputs = [p] ∧ g.root? sink = g.producer? p := by
  have hkind : sink.kind = .output := of_decide_eq_true (List.mem_filter.1 h).2
  have hinputs : sink.inputs = [sink.port .input "in"] := by rw [Node.inputs, hkind]; rfl
  exact ⟨_, hinputs, by rw [root?, hinputs]; rfl⟩

/-- What the walk behind a port gives. -/
structure WalksAs (g : Diagram) (e : Emitter α) (sink : Node) (p : Port) : Prop where
  /-- If nothing feeds the port, there is no value. -/
  empty : (∀ m, ¬ g.Feeds m p) → g.walk e sink = .ok ⟨none, []⟩
  /-- Without a cycle, there are the value of the formula and the loose nodes in it, where they
  first occur: all that are reached, each once. -/
  acyclic : ∀ first, g.Feeds first p → ¬ g.CycleBehind first → ∃ t a, Unfolds g first t ∧
    t.fold e = .ok a ∧ g.walk e sink = .ok ⟨some a, firsts t.looseNodes⟩ ∧
    ((firsts t.looseNodes).map (·.id.key)).Nodup ∧
    ∀ m, m ∈ firsts t.looseNodes ↔ g.Reaches first m ∧ g.Loose m
  /-- With a cycle, there is its fault. -/
  cyclic : ∀ first, g.Feeds first p → g.CycleBehind first →
    ∃ n path, g.walk e sink = .error (.cycle n path)

end

/-- The walk behind the input of an output node is the plain recursive reading of the diagram,
whatever nodes are shared, for an emitter that joins what it makes of the formulas that are
reached. -/
theorem walk_eq_fold {α : Type} {g : Diagram} (hg : g.Reachable) (hids : g.NamedWires)
    (e : Emitter α) {sink : Node} (hsink : sink ∈ g.sinks)
    (he : ∀ p ∈ sink.inputs, ∀ first, g.Feeds first p → e.Answers g first) :
    ∃ p, sink.inputs = [p] ∧ g.WalksAs e sink p := by
  have hwf := hg.wellFormed
  obtain ⟨p, hp, hroot⟩ := root?_of_mem_sinks hsink
  have hfeeds : ∀ {first}, g.Feeds first p → g.root? sink = some first := fun h =>
    hroot.trans ((producer?_eq_some hwf hids).2 h)
  refine ⟨p, hp, fun hnone => ?_, fun first hf hcycle => ?_, fun first hf hcycle => ?_⟩
  · rw [walk, hroot, (producer?_eq_none hwf hids).2 hnone]
  · obtain ⟨t, ht⟩ := exists_unfolds hwf hids hf.1 hf.content_ne hcycle
    obtain ⟨a, ha⟩ := ht.exists_fold (he p (hp ▸ .head _) first hf) .refl
    refine ⟨t, a, ht, ha, ?_, nodup_foldl_meet _ .nil, fun m => ?_⟩
    · rw [walk_of_unfolds hwf hids hf.1 hf.content_ne (hfeeds hf) ht, ha]
      rfl
    · rw [firsts, mem_foldl_meet, ← ht.mem_looseNodes hwf]
      · simp
      · intro n hn m hm hkey
        rw [List.nil_append, ht.mem_looseNodes hwf] at hn hm
        exact Walk.eq_of_key hwf (hasNode_of_reaches hf.1 hn.1) (hasNode_of_reaches hf.1 hm.1) hkey
  · obtain ⟨fault, hfault, hloop | hrefused⟩ :=
      walk_of_cycleBehind (e := e) hwf hids hf.1 hf.content_ne (hfeeds hf) hcycle
    · obtain ⟨n, path, rfl⟩ := hloop.eq_cycle hwf hf.1
      exact ⟨n, path, hfault⟩
    · exact absurd hrefused (he p (hp ▸ .head _) first hf).not_refused

/-- A node that feeds both inputs of another, a loose node, and, behind a second output, a loop. -/
theorem walk_eq_fold_shared :
    let g := run [
      .create (.text "number") .null (.text "a"), .create (.text "add") .null (.text "s"),
      .create (.text "divide") .null (.text "d"), .create (.text "multiply") .null (.text "m"),
      .create (.text "output") .null (.text "o"), .create (.text "power") .null (.text "u"),
      .create (.text "power") .null (.text "v"), .create (.text "output") .null (.text "w"),
      .connect (.text "a") (.text "s") (.int 0), .connect (.text "a") (.text "s") (.int 1),
      .connect (.text "s") (.text "m") (.int 0), .connect (.text "d") (.text "m") (.int 1),
      .connect (.text "m") (.text "o") (.int 0), .connect (.text "u") (.text "v") (.int 0),
      .connect (.text "v") (.text "u") (.int 0), .connect (.text "a") (.text "u") (.int 1),
      .connect (.text "s") (.text "v") (.int 1), .connect (.text "u") (.text "w") (.int 0)] {}
    g.Reachable ∧ g.NamedWires ∧ g.sinks.map Node.ident = ["o", "w"] ∧
      (g.sinks.map fun sink => (g.walk textEmitter sink).toOption.map Walked.value) =
        [some (some "((0 + 0) * ÷)"), none] ∧
      ∀ sink ∈ g.sinks, ∃ p, sink.inputs = [p] ∧ g.WalksAs textEmitter sink p := by
  intro g
  have hg : g.Reachable := ⟨_, _, by simp [Edit.Textual], rfl⟩
  have hids : g.NamedWires := by decide +kernel
  exact ⟨hg, hids, by decide +kernel, by decide +kernel, fun sink hsink =>
    walk_eq_fold hg hids textEmitter hsink fun _ _ first _ => answers_textEmitter g first⟩

end Diagram

end EquationStudio
