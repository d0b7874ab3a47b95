import EquationStudio.Proofs.Synthesis.Found

/-!
# Walks that see the same

Two diagrams may differ in much and still be read alike. `Walk.Mirror` is a relation between nodes
of the one and nodes of the other that is kept from a node to its producers: related nodes have one
identity and carry the same, and where one of them stands for itself the labels agree. Two walks
that start at related nodes do the same round by round (`Walk.Mirror.step`, `Walk.Mirror.run`), and
meet the same faults.

The diagrams may have different numbers of nodes, hence different budgets of rounds. A walk that has
had its budget is over or has failed, so more rounds change nothing (`Diagram.Keyed.run_budget`),
and both walks may be given the sum of the two budgets. `Diagram.synthesize_mirror` is what is left
for the reading of a sink.
-/

namespace EquationStudio

/-- What an emitter makes of a node that stands for itself depends on the node's label alone. -/
def Emitter.ReadsLabels {α : Type} (e : Emitter α) : Prop :=
  ∀ n n' : Node, n'.label = n.label → e.degraded n' = e.degraded n

/-- In a text a node that stands for itself is its label. -/
theorem readsLabels_textEmitter : textEmitter.ReadsLabels := fun _ _ h => h

/-- Lists that are related member by member agree in what related members agree in. -/
theorem map_eq_of_forall₂ {α β : Type} {R : α → α → Prop} {f : α → β} {as as' : List α}
    (h : List.Forall₂ R as as') (hf : ∀ a a', R a a' → f a' = f a) : as'.map f = as.map f := by
  induction h with
  | nil => rfl
  | cons ha _ ih => rw [List.map_cons, List.map_cons, hf _ _ ha, ih]

namespace Walk

/-! ## Related nodes -/

/-- A relation between the nodes of two diagrams along which they are read alike. -/
structure Mirror (g g' : Diagram) (R : Node → Node → Prop) : Prop where
  id : ∀ {n n'}, R n n' → n'.id = n.id
  ident : ∀ {n n'}, R n n' → n'.ident = n.ident
  content : ∀ {n n'}, R n n' → n'.content = n.content
  /-- No related node is a sink. -/
  carries : ∀ {n n'}, R n n' → n.content ≠ .output
  /-- The producers of related nodes are related. -/
  wired : ∀ {n n' l r}, R n n' → producers? g n = some (l, r) →
    ∃ l' r', producers? g' n' = some (l', r') ∧ R l l' ∧ R r r'
  /-- A node that stands for itself does so under the same label. -/
  loose : ∀ {n n' op}, R n n' → n.content = .binary op → producers? g n = none →
    producers? g' n' = none ∧ n'.label = n.label

/-- Tasks about related nodes. -/
inductive Task.Mirrored (R : Node → Node → Prop) : Task → Task → Prop
  | enter {n n' : Node} (hn : R n n') : Mirrored R (.enter n) (.enter n')
  | join {n n' l l' r r' : Node} {op : Operator} (hn : R n n') (hl : R l l') (hr : R r r') :
      Mirrored R (.join n op l r) (.join n' op l' r')

section
variable {α : Type}

/-- States of two walks that have done the same so far. -/
structure Mirrored (R : Node → Node → Prop) (s s' : State α) : Prop where
  stack : List.Forall₂ (Task.Mirrored R) s.stack s'.stack
  memo : s'.memo = s.memo
  path : List.Forall₂ R s.path s'.path
  degraded : List.Forall₂ R s.degraded s'.degraded

/-- Outcomes of two walks that have done the same: both go on, or both fail with one fault. -/
inductive Outcomes (R : Node → Node → Prop) : Except Fault (State α) → Except Fault (State α) → Prop
  | ok {s s' : State α} (h : Mirrored R s s') : Outcomes R (.ok s) (.ok s')
  | error (fault : Fault) : Outcomes R (.error fault) (.error fault)

end

/-! ## The names of a cycle -/

/-- Only identities go into the names of a cycle. -/
theorem cycleNames_congr : ∀ {ns ns' : List Node} (i : Nat), ns'.map Node.id = ns.map Node.id →
    cycleNames i ns' = cycleNames i ns
  | [], [], _, _ => rfl
  | [], _ :: _, _, h => by cases h
  | _ :: _, [], _, h => by cases h
  | n :: ns, n' :: ns', i, h => by
    obtain ⟨hn, hns⟩ := List.cons.inj h
    rw [cycleNames, cycleNames, hn, cycleNames_congr (i + 1) hns]

namespace Mirror

variable {α : Type} {g g' : Diagram} {R : Node → Node → Prop} {e : Emitter α}
  {s s' : State α} {n n' : Node}

/-- The fault of meeting a node again is the same on both sides. -/
theorem cycleFault_eq (hm : Mirror g g' R) {path path' : List Node}
    (hpath : List.Forall₂ R path path') (hn : R n n') :
    cycleFault path' n' = cycleFault path n := by
  have hids : (path'.reverse ++ [n']).map Node.id = (path.reverse ++ [n]).map Node.id := by
    simp only [List.map_append, List.map_reverse, List.map_cons,
      map_eq_of_forall₂ hpath fun _ _ => hm.id, hm.id hn]
  have hidents : path'.reverse.map Node.ident = path.reverse.map Node.ident := by
    rw [List.map_reverse, List.map_reverse, map_eq_of_forall₂ hpath fun _ _ => hm.ident]
  rw [cycleFault, cycleFault, cycleNames_congr 0 hids, hidents, hm.ident hn]

/-- A node is on the one path exactly if the related one is on the other. -/
theorem any_path (hm : Mirror g g' R) {path path' : List Node} (hpath : List.Forall₂ R path path')
    (hn : R n n') : path'.any (·.id.key = n'.id.key) = path.any (·.id.key = n.id.key) := by
  have hids := map_eq_of_forall₂ hpath fun _ _ => hm.id
  have hany : ∀ ns : List Node, ns.any (·.id.key = n.id.key) = (ns.map Node.id).any
      (·.key = n.id.key) :=
    fun ns => by rw [List.any_map]; rfl
  rw [hm.id hn, hany, hany, hids]

/-! ## Rounds -/

/-- What is made of related nodes is kept under one key. -/
theorem finish (hm : Mirror g g' R) (hs : Mirrored R s s') (hn : R n n') (a : α) :
    Mirrored R (s.finish n a) (s'.finish n' a) :=
  ⟨hs.stack, by rw [State.finish, State.finish, hs.memo, hm.id hn], hs.path, hs.degraded⟩

/-- Looking at related nodes. -/
theorem enter (hm : Mirror g g' R) (he : e.ReadsLabels) (hs : Mirrored R s s') (hn : R n n') :
    Outcomes R (s.enter g e n) (s'.enter g' e n') := by
  have hmemo := hs.memo
  unfold State.enter
  rw [hm.any_path hs.path hn, hm.cycleFault_eq hs.path hn, hm.content hn, hmemo, hm.id hn]
  split
  · exact .error _
  split
  · exact .ok hs
  split
  · exact .ok (hm.finish hs hn _)
  · exact .ok (hm.finish hs hn _)
  · next op hop =>
    cases hp : producers? g n with
    | none =>
      obtain ⟨hp', hlabel⟩ := hm.loose hn hop hp
      have hfinish := hm.finish hs hn (e.degraded n)
      rw [hp']
      refine .ok ⟨hfinish.stack, ?_, hs.path, .cons hn hs.degraded⟩
      rw [State.degrade, State.degrade, he n n' hlabel]
      exact hfinish.memo
    | some lr =>
      obtain ⟨l, r⟩ := lr
      obtain ⟨l', r', hp', hl, hr⟩ := hm.wired hn hp
      rw [hp']
      exact .ok ⟨.cons (.enter hl) (.cons (.enter hr) (.cons (.join hn hl hr) hs.stack)), rfl,
        .cons hn hs.path, hs.degraded⟩
  · next hout => exact absurd hout (hm.carries hn)

/-- Joining what was made of related producers. -/
theorem join (hm : Mirror g g' R) (hs : Mirrored R s s') {l l' r r' : Node}
    (op : Operator) (hn : R n n') (hl : R l l') (hr : R r r') : Outcomes R (s.join e n op l r)
    (s'.join e n' op l' r') := by
  have htail : Mirrored R { s with path := s.path.tail } { s' with path := s'.path.tail } := by
    have hpath := List.forall₂_drop 1 hs.path
    rw [List.drop_one, List.drop_one] at hpath
    exact ⟨hs.stack, hs.memo, hpath, hs.degraded⟩
  unfold State.join
  have hleft : s'.memo.get? l'.id.key = s.memo.get? l.id.key := by rw [hs.memo, hm.id hl]
  have hright : s'.memo.get? r'.id.key = s.memo.get? r.id.key := by rw [hs.memo, hm.id hr]
  dsimp only
  rw [hleft, hright]
  split
  · next a b _ _ =>
    cases e.binary op a b with
    | error fault => exact .error fault
    | ok c => exact .ok (hm.finish htail hn c)
  · exact .ok htail

/-- One round does the same on both sides. -/
theorem step (hm : Mirror g g' R) (he : e.ReadsLabels) (hs : Mirrored R s s') :
    Outcomes R (s.step g e) (s'.step g' e) := by
  have hstack := hs.stack
  unfold State.step
  generalize hst : s.stack = stack at hstack ⊢
  generalize hst' : s'.stack = stack' at hstack ⊢
  cases hstack with
  | nil => exact .ok hs
  | cons htask hrest =>
    have hpop : Mirrored R { s with stack := _ } { s' with stack := _ } :=
      ⟨hrest, hs.memo, hs.path, hs.degraded⟩
    cases htask with
    | enter hn => exact hm.enter he hpop hn
    | join hn hl hr => exact hm.join hpop _ hn hl hr

/-- Any number of rounds does the same on both sides. -/
theorem run (hm : Mirror g g' R) (he : e.ReadsLabels) (rounds : Nat) (hs : Mirrored R s s') :
    Outcomes R (Walk.run g e rounds s) (Walk.run g' e rounds s') := by
  induction rounds generalizing s s' with
  | zero => exact .ok hs
  | succ rounds ih =>
    have hempty : s'.stack.isEmpty = s.stack.isEmpty := by
      have hstack := hs.stack
      generalize s.stack = stack at hstack ⊢
      generalize s'.stack = stack' at hstack ⊢
      cases hstack <;> rfl
    rw [Walk.run, Walk.run, hempty]
    split
    · exact .ok hs
    · have hstep := hm.step he hs
      generalize s.step g e = next at hstep ⊢
      generalize s'.step g' e = next' at hstep ⊢
      cases hstep with
      | error fault => exact .error fault
      | ok h => exact ih h

end Mirror

/-- Rounds may be counted in two parts. -/
theorem run_add {α : Type} (g : Diagram) (e : Emitter α) (rounds more : Nat) (s : State α) :
    run g e (rounds + more) s = run g e rounds s >>= run g e more := by
  induction rounds generalizing s with
  | zero => rw [Nat.zero_add]; rfl
  | succ rounds ih =>
    rw [Nat.succ_add, run, run]
    split
    · next hempty => rw [ok_bind, run_done (List.isEmpty_iff.1 hempty)]
    · rw [bind_assoc]
      exact bind_congr fun s' => ih s'

end Walk

namespace Diagram

variable {g g' : Diagram}

/-- A walk that has had its budget of rounds does nothing more. -/
theorem Keyed.run_budget {α : Type} (hg : g.Keyed) (e : Emitter α) {root : Node}
    (hroot : g.Holds root) (more : Nat) : Walk.run g e (Walk.budget g + more)
      { stack := [.enter root] } = Walk.run g e (Walk.budget g) { stack := [.enter root] } := by
  rw [Walk.run_add]
  cases hrun : Walk.run g e (Walk.budget g) { stack := [.enter root] } with
  | error fault => rfl
  | ok s => exact Walk.run_done ((founded_start e hroot).run hg (cost_start root) hrun).1 more

/-- Walks behind sinks that are fed by related nodes give the same, the identities of degraded nodes
included, or fail with the same fault. -/
theorem walk_mirror {α : Type} {R : Node → Node → Prop} {e : Emitter α}
    {sink sink' root root' : Node} (hg : g.Keyed) (hg' : g'.Keyed) (hm : Walk.Mirror g g' R)
    (he : e.ReadsLabels) (hroot : g.root? sink = some root) (hroot' : g'.root? sink' = some root')
    (h : R root root') : (g'.walk e sink').map (fun w => (w.value, w.degraded.map Node.id)) =
      (g.walk e sink).map fun w => (w.value, w.degraded.map Node.id) := by
  have hstart : Walk.Mirrored R ({ stack := [.enter root] } : Walk.State α)
      { stack := [.enter root'] } :=
    ⟨.cons (.enter h) .nil, rfl, .nil, .nil⟩
  have hrun := hm.run he (Walk.budget g + Walk.budget g') hstart
  rw [hg.run_budget e (hg.holds_root hroot), Nat.add_comm (Walk.budget g),
    hg'.run_budget e (hg'.holds_root hroot')] at hrun
  rw [walk, walk, hroot, hroot']
  dsimp only
  generalize Walk.run g e (Walk.budget g) { stack := [.enter root] } = final at hrun ⊢
  generalize Walk.run g' e (Walk.budget g') { stack := [.enter root'] } = final' at hrun ⊢
  cases hrun with
  | error fault => rfl
  | @ok s s' hs =>
    have hdegraded := map_eq_of_forall₂ hs.degraded fun _ _ => hm.id
    simp only [ok_bind, Except.map, pure, Except.pure, hs.memo, hm.id h,
      List.map_reverse, hdegraded]

/-- A sink is read alike from two diagrams in which it is fed by related nodes. -/
theorem synthesize_mirror {R : Node → Node → Prop} {sink : Datum}
    {out out' root root' : Node} (hg : g.Keyed) (hg' : g'.Keyed) (hm : Walk.Mirror g g' R)
    (hsink : g.resolveSink sink = .ok (some out))
    (hsink' : g'.resolveSink sink = .ok (some out')) (hid : out'.id = out.id)
    (hroot : g.root? out = some root) (hroot' : g'.root? out' = some root') (h : R root root') :
    g'.synthesize sink = g.synthesize sink := by
  have hwalk := walk_mirror hg hg' hm readsLabels_textEmitter hroot hroot' h
  rw [synthesize, synthesize, hsink, hsink']
  simp only [ok_bind, hid]
  cases hw : g.walk textEmitter out with
  | error fault =>
    cases hw' : g'.walk textEmitter out' with
    | error fault' =>
      rw [hw, hw'] at hwalk
      cases hwalk
      rfl
    | ok w' => rw [hw, hw'] at hwalk; cases hwalk
  | ok w =>
    cases hw' : g'.walk textEmitter out' with
    | error fault' => rw [hw, hw'] at hwalk; cases hwalk
    | ok w' =>
      rw [hw, hw'] at hwalk
      obtain ⟨hvalue, hdegraded⟩ := Prod.mk.inj (Except.ok.inj hwalk)
      have hids : w'.degraded.map (·.id.datum) = w.degraded.map (·.id.datum) := by
        have := congrArg (List.map Identity.datum) hdegraded
        rwa [List.map_map, List.map_map] at this
      have hempty : w'.degraded.isEmpty = w.degraded.isEmpty := by
        have := congrArg List.isEmpty hdegraded
        rwa [List.isEmpty_map, List.isEmpty_map] at this
      simp only [ok_bind, hvalue, hids, hempty]

end Diagram

end EquationStudio
