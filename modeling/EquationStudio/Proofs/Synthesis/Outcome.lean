import EquationStudio.Proofs.Synthesis.Found
import EquationStudio.Proofs.Text.Encodable

/-!
# What reading the text of a diagram comes to

Once the sink is found, the text of a diagram fails for a cycle only, whatever it lacks
(`Diagram.cycle_of_synthesize`), so without a chosen sink that is all that can be at fault
(`Diagram.fault_of_synthesize`). Where it is read, it is made of what the nodes carry and of signs,
so it can be encoded if the labels can (`Diagram.isEncodable_expression`), and what it lacks are
nodes of the diagram (`Diagram.degraded_of_synthesize`).
-/

namespace EquationStudio

/-! ## Faults -/

/-- A fault that reports a cycle of nodes of a diagram. -/
def Fault.ReportsCycle (fault : Fault) (g : Diagram) : Prop :=
  ∃ (n : Node) (path : List Node), g.Holds n ∧ (∀ m ∈ path, g.Holds m) ∧
    fault = Walk.cycleFault path n

/-- The nodes of a diagram stand under texts. -/
def Diagram.Texts (g : Diagram) : Prop := ∀ n, g.Holds n → n.id = .ofText n.ident

/-- The nodes of a well-formed diagram stand under texts. -/
theorem Diagram.WellFormed.texts {g : Diagram} (h : g.WellFormed) : g.Texts :=
  fun _ hn => (h.node hn).2.id_eq

namespace Walk

variable {g : Diagram} {s : State String} {fault : Fault}

/-- A path with a node that is met again is reported as a cycle, where identities are texts. -/
theorem cycleFault_eq (hg : g.Texts) {path : List Node} (hpath : ∀ n ∈ path, g.Holds n) {n : Node}
    (hn : g.Holds n) : cycleFault path n = .cycle n.ident (path.reverse.map Node.ident) := by
  rw [cycleFault, cycleNames_ok]
  intro m hm
  obtain hm | hm := List.mem_append.1 hm
  · exact hg m (hpath m (List.mem_reverse.1 hm))
  · rw [List.mem_singleton.1 hm]
    exact hg n hn

/-- Names are not strung together for an identity that is no text only. -/
theorem fault_of_cycleNames : ∀ {ns : List Node} {i : Nat} {fault : Fault},
    cycleNames i ns = .error fault → ∃ j kind, fault = .datum (.notText j kind)
  | [], _, _, h => by cases h
  | n :: ns, i, fault, h => by
    rw [cycleNames] at h
    split at h
    · obtain h | ⟨_, -, h⟩ := error_of_bind h
      · exact fault_of_cycleNames h
      · cases h
    · cases h
      exact ⟨_, _, rfl⟩

/-- A path with a node that is met again is reported as a cycle, or an identity on it is no text. -/
theorem cycleFault_cases (path : List Node) (n : Node) :
    cycleFault path n = .cycle n.ident (path.reverse.map Node.ident) ∨
      ∃ i kind, cycleFault path n = .datum (.notText i kind) := by
  unfold cycleFault
  split
  · exact .inl rfl
  · next hfault => exact .inr (fault_of_cycleNames hfault)

/-- The nodes that wait stand in the diagram. -/
theorem Founded.holds_path (h : Founded g textEmitter s) : ∀ n ∈ s.path, g.Holds n := by
  have hwaiting : ∀ {tasks : List Task}, (∀ task ∈ tasks, task.Fits g) →
      ∀ n ∈ waiting tasks, g.Holds n := by
    intro tasks
    induction tasks with
    | nil => exact fun _ n hn => absurd hn List.not_mem_nil
    | cons task tasks ih =>
      intro hfits n hn
      obtain ⟨htask, htasks⟩ := List.forall_mem_cons.1 hfits
      cases task with
      | enter m => exact ih htasks n hn
      | join m op l r =>
        obtain rfl | hn := List.mem_cons.1 hn
        · exact htask.1
        · exact ih htasks n hn
  rw [← h.path]
  exact hwaiting h.tasks

/-- A step fails for a cycle only: texts are joined whatever they are. -/
theorem cycle_of_step (h : Founded g textEmitter s) (hs : s.step g textEmitter = .error fault) :
    fault.ReportsCycle g := by
  unfold State.step at hs
  split at hs
  · cases hs
  · next n rest stack =>
    have hn : g.Holds n := h.tasks (.enter n) (by rw [stack]; exact .head _)
    unfold State.enter at hs
    split at hs
    · cases hs
      exact ⟨n, s.path, hn, h.holds_path, rfl⟩
    · split at hs
      · cases hs
      · split at hs
        · cases hs
        · cases hs
        · split at hs <;> cases hs
        · cases hs
  · next n op l r rest stack =>
    unfold State.join at hs
    dsimp only at hs
    split at hs <;> cases hs

/-- Rounds fail for a cycle only. -/
theorem cycle_of_run (hkeyed : g.Keyed) : ∀ {rounds : Nat} {s : State String},
    Founded g textEmitter s → run g textEmitter rounds s = .error fault → fault.ReportsCycle g
  | 0, _, _, h => by cases h
  | rounds + 1, s, hs, h => by
    unfold run at h
    split at h
    · cases h
    · next hmore =>
      obtain h | ⟨s', hstep, h⟩ := error_of_bind h
      · exact cycle_of_step hs h
      · have hround := hs.round hkeyed (fun hnil => hmore (by rw [hnil]; rfl)) hstep
        exact cycle_of_run hkeyed (hs.next hkeyed hround) h

end Walk

/-- The nodes that stand for themselves in what is found behind a node of a diagram are nodes of
it. -/
theorem Finds.holds_looseNodes {g : Diagram} (hkeyed : g.Keyed) {n : Node}
    (hn : g.Holds n) {t : Formula} (ht : Finds g n t) : ∀ m ∈ t.looseNodes, g.Holds m := by
  induction ht with
  | number | symbol => exact fun m hm => absurd hm List.not_mem_nil
  | join _ hp _ _ ihl ihr =>
    obtain ⟨hl, hr⟩ := hkeyed.holds_producers hp
    exact List.forall_mem_append.2 ⟨ihl hl, ihr hr⟩
  | loose | output => exact List.forall_mem_singleton.2 hn

namespace Diagram

variable {g : Diagram}

/-- The text behind a sink is not read for a cycle only. -/
theorem cycle_of_walk (hkeyed : g.Keyed) {sink : Node} {fault : Fault}
    (h : g.walk textEmitter sink = .error fault) :
    fault.ReportsCycle g := by
  unfold walk at h
  split at h
  · cases h
  · next root hroot =>
    obtain h | ⟨final, -, h⟩ := error_of_bind h
    · exact Walk.cycle_of_run hkeyed (founded_start textEmitter (hkeyed.holds_root hroot)) h
    · cases h

/-- The text of a diagram is not read for the sink or for a cycle only. -/
theorem cycle_of_synthesize (hkeyed : g.Keyed) {sink : Datum} {fault : Fault}
    (h : g.synthesize sink = .error fault) :
    g.resolveSink sink = .error fault ∨ fault.ReportsCycle g := by
  obtain h | ⟨resolved, -, h⟩ := error_of_bind h
  · exact .inl h
  · split at h
    · cases h
    · obtain h | ⟨walked, -, h⟩ := error_of_bind h
      · exact .inr (cycle_of_walk hkeyed h)
      · split at h <;> cases h

/-- Without a chosen sink, the text of a diagram whose identities are texts is not read for a cycle
only. -/
theorem fault_of_synthesize (hg : g.WellFormed) (hkeyed : g.Keyed) {fault : Fault}
    (h : g.synthesize .null = .error fault) : ∃ name names, fault = .cycle name names := by
  obtain hsink | ⟨n, path, hn, hpath, rfl⟩ := cycle_of_synthesize hkeyed h
  · cases hsink
  · exact ⟨_, _, Walk.cycleFault_eq hg.texts hpath hn⟩

/-- The nodes that stand for themselves in the text behind a sink are nodes of the diagram. -/
theorem holds_degraded (hkeyed : g.Keyed) {sink : Node} {w : Walked String}
    (h : g.walk textEmitter sink = .ok w) : ∀ n ∈ w.degraded, g.Holds n := by
  unfold walk at h
  split at h
  · cases h
    exact fun n hn => absurd hn List.not_mem_nil
  · next root hroot =>
    obtain ⟨final, hfinal, h⟩ := ok_of_bind h
    cases h
    have hholds := hkeyed.holds_root hroot
    have hstart := founded_start textEmitter hholds
    obtain ⟨hdone, -⟩ := hstart.run hkeyed (cost_start root) hfinal
    obtain ⟨ts, hts, hdegraded⟩ := Walk.exists_behind hkeyed hstart hfinal hdone
    intro n hn
    obtain hn | ⟨t, ht, hn⟩ := hdegraded n (List.mem_reverse.1 hn)
    · cases hn
    · obtain ⟨task, htask, hfinds⟩ := exists_mem_of_forall₂ hts ht
      rw [List.mem_singleton.1 htask] at hfinds
      exact Finds.holds_looseNodes hkeyed hholds hfinds n hn

/-- What the text of a diagram lacks is told by the identities of nodes of the diagram. -/
theorem degraded_of_synthesize (hkeyed : g.Keyed) {sink : Datum} {s : Synthesis}
    (h : g.synthesize sink = .ok s) :
    ∃ ns : List Node, s.degraded = ns.map (·.id.datum) ∧ ∀ n ∈ ns, g.Holds n := by
  have hnone : ∀ n ∈ ([] : List Node), g.Holds n := List.forall_mem_nil _
  obtain ⟨resolved, -, h⟩ := ok_of_bind h
  split at h
  · cases h
    exact ⟨[], rfl, hnone⟩
  · obtain ⟨walked, hwalk, h⟩ := ok_of_bind h
    split at h
    · cases h
      exact ⟨[], rfl, hnone⟩
    · cases h
      exact ⟨walked.degraded, rfl, holds_degraded hkeyed hwalk⟩

end Diagram

/-! ## Texts -/

/-- A binary expression can be encoded if its parts can. -/
theorem Operator.isEncodable_joined (op : Operator) {left right : String}
    (hl : isEncodable left = true) (hr : isEncodable right = true) :
    isEncodable (op.joined left right) = true := by
  have hsigns : ∀ s ∈ ["(", " ", ")"], isEncodable s = true := by decide +kernel
  have hsymbol : isEncodable op.symbol = true := by cases op <;> decide +kernel
  simp only [joined, isEncodable_append, hl, hr, hsymbol, hsigns "(" (by decide),
    hsigns " " (by decide), hsigns ")" (by decide), and_self]

namespace Diagram

variable {g : Diagram}

/-- The record of a diagram that can be written has nodes that can be. -/
theorem writable_of_holds (h : g.toRecord.Writable) {n : Node} (hn : g.Holds n) :
    n.toRecord.Writable := by
  have hnodes := Datum.writable_list.1 (Datum.writable_record.1 h _ (.head _)).2
  exact hnodes _ (List.mem_map_of_mem (Table.mem_values.2 ⟨_, hn⟩))

/-- The labels of a diagram that can be written can be encoded. -/
theorem isEncodable_label (h : g.toRecord.Writable) {n : Node} (hn : g.Holds n) :
    isEncodable n.label = true :=
  (Datum.writable_record.1 (writable_of_holds h hn) _ (.tail _ (.tail _ (.head _)))).2

/-- The text of a formula behind a node can be encoded if the labels of the diagram can. -/
theorem isEncodable_text (hkeyed : g.Keyed) (hlabels : ∀ m, g.Holds m → isEncodable m.label = true)
    {n : Node} (hn : g.Holds n) {t : Formula} (ht : Finds g n t) : isEncodable t.text = true := by
  induction ht with
  | @number n v => exact v.numeralChars_literal.isEncodable
  | @symbol n name hcontent =>
    have hvalid := (hkeyed.node hn).2.2
    rw [hcontent] at hvalid
    exact isEncodable_of_isVariableName (isVariableName_of_readVariable hvalid).1
  | join hcontent hp _ _ ihl ihr =>
    obtain ⟨hl, hr⟩ := hkeyed.holds_producers hp
    exact Operator.isEncodable_joined _ (ihl hl) (ihr hr)
  | loose | output => exact hlabels _ hn

/-- The text that is read of a diagram can be encoded if its labels can. -/
theorem isEncodable_expression (hkeyed : g.Keyed)
    (hlabels : ∀ m, g.Holds m → isEncodable m.label = true)
    {sink : Datum} {s : Synthesis} (hs : g.synthesize sink = .ok s) :
    isEncodable s.expression = true := by
  obtain ⟨resolved, -, hs⟩ := ok_of_bind hs
  cases resolved with
  | none => cases hs; rfl
  | some n =>
    obtain ⟨walked, hwalked, hs⟩ := ok_of_bind hs
    obtain ⟨-, rfl⟩ | ⟨root, t, -, hholds, ht, hvalue, -⟩ := hkeyed.walk_emitter hwalked
    · cases hs; rfl
    · rw [hvalue] at hs
      cases hs
      exact isEncodable_text hkeyed hlabels hholds ht

end Diagram

end EquationStudio
