import EquationStudio.Proofs.Algebra.Printing
import EquationStudio.Proofs.Diagram.Rebuild
import EquationStudio.Proofs.Service.Explained
import EquationStudio.Proofs.Synthesis.Outcome
import EquationStudio.Proofs.Synthesis.Simplified

/-!
# Answers about submitted diagrams

An orderly submission is answered: with its expression if its diagram can be rebuilt and read, and
with an explanation of the fault if not (`Service.handle_orderly`). The rebuilding explains its
faults (`Submission.Orderly.accounts_ofRecord`), the reading meets no fault but a wrong sink or a
cycle (`Diagram.Answerable.accounts_synthesize`), and if a complete expression has no simplified
form, the fault lies in a value, so that the form is left out (`Submission.exists_describe`). Only
texts can be told as identities, so an identity of another kind must not be one that has to be
(`Submission.Untold`). Submissions that are not orderly may be met with a failure
(`Service.handle_disorderly`).
-/

namespace EquationStudio

/-! ## Reading -/

/-- A reading of which an answer can tell: what is degraded are texts, and all texts can be
encoded. -/
structure Synthesis.Sendable (s : Synthesis) : Prop where
  expression : isEncodable s.expression = true
  degraded : ∃ names, Submission.texts? s.degraded = some names ∧
    ∀ name ∈ names, isEncodable name = true

namespace Submission

/-- Texts can be told. -/
theorem exists_texts? {ds : List Datum} (h : ∀ d ∈ ds, ∃ s, d = .text s) :
    ∃ names, texts? ds = some names := by
  induction ds with
  | nil => exact ⟨[], rfl⟩
  | cons d ds ih =>
    obtain ⟨⟨s, rfl⟩, hds⟩ := List.forall_mem_cons.1 h
    obtain ⟨names, hnames⟩ := ih hds
    exact ⟨s :: names, by rw [texts?, hnames]; rfl⟩

/-- What is told as texts are texts. -/
theorem mem_of_texts? {ds : List Datum} {names : List String} (h : texts? ds = some names) :
    ∀ name ∈ names, .text name ∈ ds := by
  induction ds generalizing names with
  | nil =>
    cases h
    exact List.forall_mem_nil _
  | cons d ds ih =>
    cases d with
    | text s =>
      obtain ⟨rest, hrest, rfl⟩ := Option.map_eq_some_iff.1 h
      exact List.forall_mem_cons.2 ⟨.head _, fun name hname => .tail _ (ih hrest name hname)⟩
    | null | bool | int | float | list | record => cases h

/-- An identity that is no text would have to be told: of a node with loose inputs, or in a
cycle. -/
def Untold : Except Fault Synthesis → Prop
  | .ok s => texts? s.degraded = none
  | .error (.datum (.notText ..)) => True
  | .error _ => False

end Submission

namespace Diagram

open Submission

variable {g : Diagram} {sink : Datum} {T : Prop}

/-- A cycle of nodes that can be spoken of is explained, unless there is an identity in it that is
no text. -/
theorem Spoken.explained_cycle (h : g.Spoken T) {fault : Fault} (hcycle : fault.ReportsCycle g)
    (htold : T ∨ ¬ Untold (.error fault)) : fault.Explained := by
  obtain ⟨n, path, hn, hpath, rfl⟩ := hcycle
  have hfault : Walk.cycleFault path n = .cycle n.ident (path.reverse.map Node.ident) := by
    obtain hT | htold := htold
    · exact Walk.cycleFault_eq (fun m hm => (h.node hm).text hT) hpath hn
    · obtain hfault | ⟨i, kind, hfault⟩ := Walk.cycleFault_cases path n
      · exact hfault
      · exact absurd (hfault ▸ trivial) htold
  have hnode : isEncodable n.ident = true := (h.node hn).ident
  have hnames : ∀ name ∈ path.reverse.map Node.ident ++ [n.ident], isEncodable name = true := by
    refine List.forall_mem_append.2 ⟨fun name hname => ?_, List.forall_mem_singleton.2 hnode⟩
    obtain ⟨m, hm, rfl⟩ := List.mem_map.1 hname
    exact (h.node (hpath m (List.mem_reverse.1 hm))).ident
  have hchain : isEncodable (if (path.reverse.map Node.ident).isEmpty then n.ident
      else String.intercalate " -> " (path.reverse.map Node.ident ++ [n.ident])) = true := by
    split
    · exact hnode
    · exact isEncodable_intercalate (by decide +kernel) hnames
  have hclosed : isEncodable ("Graph contains a cycle closed at node '" ++
      n.ident ++ "' (") = true :=
    isEncodable_around (by decide +kernel) (by decide +kernel) hnode
  rw [hfault]
  exact .around rfl rfl (isEncodable_append.2 ⟨hclosed, by decide +kernel⟩) hchain

/-- The sink is found, or it is said that the node is no output. -/
theorem accounts_resolveSink (g : Diagram) (hkey : sink.IsKey) (hwords : sink.Sendable) :
    Accounts (fun _ => True) (g.resolveSink sink) := by
  have hrefused : Accounts (fun _ => True) (do
      (.error (.schema (.notOutput (← sink.plain))) : Except Fault (Option Node))) :=
    sink.accounts_plain.bind fun s _ hs =>
      .explained (.around rfl rfl (by decide +kernel) (hs hwords))
  unfold resolveSink
  split
  · obtain ⟨found, hfound⟩ := g.exists_node? hkey
    rw [hfound, ok_bind]
    split
    · split
      · exact .ok trivial
      · exact hrefused
    · exact hrefused
  · exact .ok trivial

/-- A diagram that can be spoken of is read, and an answer can tell what is read, or the fault is
explained, unless an identity that is no text would have to be told. -/
theorem Answerable.accounts_synthesize (h : g.Answerable T) (hkeyed : g.Keyed) (hsink : sink.IsKey)
    (hwords : sink.Sendable) (htold : T ∨ ¬ Untold (g.synthesize sink)) :
    Accounts Synthesis.Sendable (g.synthesize sink) := by
  refine .of_forall (fun s hs => ⟨?_, ?_⟩) fun fault hfault => ?_
  · exact isEncodable_expression hkeyed (fun m hm => (h.spoken.node hm).label) hs
  · rw [hs] at htold
    obtain ⟨ns, hdegraded, hholds⟩ := degraded_of_synthesize hkeyed hs
    have htexts : ∃ names, texts? s.degraded = some names := by
      obtain hT | htold := htold
      · refine exists_texts? fun d hd => ?_
        rw [hdegraded] at hd
        obtain ⟨n, hn, rfl⟩ := List.mem_map.1 hd
        exact ⟨n.ident, by rw [(h.spoken.node (hholds n hn)).text hT]; rfl⟩
      · exact Option.ne_none_iff_exists'.1 htold
    obtain ⟨names, hnames⟩ := htexts
    refine ⟨names, hnames, fun name hname => ?_⟩
    have hmem := mem_of_texts? hnames name hname
    rw [hdegraded] at hmem
    obtain ⟨n, hn, hid⟩ := List.mem_map.1 hmem
    exact (h.spoken.node (hholds n hn)).id name hid
  · rw [hfault] at htold
    obtain hfault | hcycle := cycle_of_synthesize hkeyed hfault
    · exact (g.accounts_resolveSink hsink hwords).of_error hfault
    · exact h.spoken.explained_cycle hcycle htold

end Diagram

/-! ## Answers -/

/-- An algebra that refuses forms for their values only. -/
def SymbolicAlgebra.RaisesOfValue (A : SymbolicAlgebra) : Prop :=
  ∀ fault, A.Raises fault → (Fault.datum fault).isOfValue = true

/-- Expressions are refused for nothing but an integer in them with too many digits. -/
theorem Expr.raisesOfValue : algebra.RaisesOfValue := by
  rintro fault (⟨e, he⟩ | ⟨e, he⟩)
  · rw [fault_of_text he]
    rfl
  · cases he

/-- The lists of objects in the body of a request. -/
theorem Request.objects_ok {fields : Fields} {key : String} {d : Datum}
    (h : objects fields key = .ok d) :
    ∃ items, d = .list items ∧ ∀ raw ∈ items, ∃ fields, raw = .record fields := by
  unfold objects at h
  split at h
  · cases h
    exact ⟨[], rfl, List.forall_mem_nil _⟩
  · next items _ =>
    split at h
    · next hall =>
      cases h
      refine ⟨items, rfl, fun raw hraw => ?_⟩
      have hrecord := List.all_eq_true.1 hall raw hraw
      cases raw with
      | record fields => exact ⟨fields, rfl⟩
      | null | bool | int | float | text | list => cases hrecord
    · cases h
  · cases h

namespace Submission

variable {p : Submission}

/-- A submission that is read off a request has the shape that the schema asks for. -/
theorem shaped_of_submission {r : Request} (h : r.submission = .ok p) : p.Shaped := by
  obtain ⟨fields, -, h⟩ := ok_of_bind h
  obtain ⟨nodes, hnodes, h⟩ := ok_of_bind h
  obtain ⟨connections, hconnections, h⟩ := ok_of_bind h
  obtain ⟨constraints, hconstraints, h⟩ := ok_of_bind h
  have hlists := And.intro (Request.objects_ok hnodes)
    (And.intro (Request.objects_ok hconnections) (Request.objects_ok hconstraints))
  split at h
  · cases h
    exact ⟨hlists.1, hlists.2.1, hlists.2.2, .inl rfl⟩
  · cases h
    exact ⟨hlists.1, hlists.2.1, hlists.2.2, .inr ⟨_, rfl⟩⟩
  · cases h

/-- What is read of a keyed diagram is told in the answer. A complete expression whose simplified
form is a fault is told without it. -/
theorem exists_describe {A : SymbolicAlgebra} (hA : A.RaisesOfValue) {g : Diagram}
    (hkeyed : g.Keyed) {s : Synthesis} (hs : g.synthesize p.sink = .ok s) (hsend : s.Sendable) :
    ∃ body, p.describe g s A = .ok body := by
  obtain ⟨names, hnames, hwords⟩ := hsend.degraded
  have hall : (s.expression :: names).all isEncodable = true :=
    List.all_eq_true.2 (List.forall_mem_cons.2 ⟨hsend.expression, hwords⟩)
  unfold describe
  rw [hnames]
  simp only [hall, if_true]
  split
  · exact ⟨_, rfl⟩
  · next hcomplete =>
    rw [Bool.not_eq_true, Bool.not_eq_false'] at hcomplete
    split
    · exact ⟨_, rfl⟩
    · next fault hfault =>
      have hvalue : fault.isOfValue = true := by
        obtain ⟨_, rfl⟩ | rfl | ⟨d, hd, rfl⟩ := hkeyed.fault_of_simplified hs hcomplete hfault
        · rfl
        · rfl
        · exact hA d hd
      rw [if_pos hvalue]
      exact ⟨_, rfl⟩

/-- The diagram of a submission is rebuilt, and its expression read. -/
def read (p : Submission) (supply : Supply) : Except Fault Synthesis := do
  (← (Diagram.ofRecord supply p.toRecord).1).synthesize p.sink

/-- An orderly submission is answered if it can be read, and its fault is explained if not. -/
theorem Orderly.answer {A : SymbolicAlgebra} (hA : A.RaisesOfValue) (hshape : p.Shaped)
    (h : p.Orderly) {supply : Supply} (htold : p.Named ∨ ¬ Untold (p.read supply)) :
    (∃ reading body, p.read supply = .ok reading ∧ (p.answer supply A).1 = .ok body) ∨
      ∃ fault detail, p.read supply = .error fault ∧ Response.ofFault fault = .bad detail ∧
        (p.answer supply A).1 = .bad detail := by
  have hrebuilt := h.accounts_ofRecord hshape supply
  unfold Submission.answer
  rw [read] at htold ⊢
  split
  · next fault supply' hfault =>
    rw [hfault] at hrebuilt ⊢
    obtain ⟨detail, hdetail⟩ := hrebuilt.of_error rfl
    exact .inr ⟨fault, detail, rfl, hdetail, hdetail⟩
  · next g supply' hg =>
    have hkeyed := Diagram.Keyed.ofRecord hg
    have hsink : p.sink.IsKey := by obtain hsink | ⟨_,
      hsink⟩ := hshape.sink <;> exact hsink ▸ ⟨_, rfl⟩
    rw [hg] at hrebuilt htold ⊢
    have hread := (hrebuilt.of_ok rfl).accounts_synthesize hkeyed hsink h.sink htold
    dsimp only
    rw [ok_bind]
    split
    · next fault hfault =>
      obtain ⟨detail, hdetail⟩ := hread.of_error hfault
      exact .inr ⟨fault, detail, hfault, hdetail, hdetail⟩
    · next reading hreading =>
      obtain ⟨body, hbody⟩ := exists_describe hA hkeyed hreading (hread.of_ok hreading)
      exact .inl ⟨reading, body, hreading, hbody⟩

end Submission

/-! ## Submissions in and out of order -/

namespace Submission

/-- A submission of lists, without a chosen sink. -/
def posted (nodes connections constraints : List Datum) : Submission :=
  ⟨.list nodes, .list connections, .list constraints, .null⟩

/-- The request by which a submission is posted. -/
def request (p : Submission) : Request where
  method := "POST"
  path := "/api/graph/synthesize"
  body :=
    some (.record [("nodes", p.nodes), ("connections", p.connections),
      ("constraints", p.constraints),
    ("sink_id", p.sink)])

/-- A number above one that is shown, under an identity that is no text. -/
def shownNumber : Submission := posted
  [.record [("type", .text "number"), ("id", .int 7), ("value", .int 2),
    ("position", .list [.int 40, .int 30])], .record [("type", .text "output")]]
  [.record [("source", .text "7-out"), ("target", .text "n1-in")]]
  [.record [("target", .int 7), ("type", .text "greater_than"), ("value", .int 1)]]

/-- The number is in order. -/
theorem orderly_shownNumber : shownNumber.Orderly := by
  have hdoubles : ∀ n ∈ [40, 30, 1], (FiniteDouble.ofInt? n).isSome = true := by decide +kernel
  have hplace : (Datum.list [.int 40, .int 30]).IsPosition := fun _ =>
    List.forall_mem_cons.2 ⟨hdoubles 40 (by decide),
      List.forall_mem_singleton.2 (hdoubles 30 (by decide))⟩
  have hid : (Datum.int 7).Sendable := nofun
  refine ⟨fun fields h => ?_, fun fields h => ?_, fun fields h => ?_, Datum.sendable_null⟩
  · obtain h | h := List.mem_pair.1 h <;> cases h
    · exact ⟨⟨_, rfl⟩, hid, Datum.sendable_null, hplace⟩
    · exact ⟨⟨_, rfl⟩, Datum.sendable_null, Datum.sendable_null, trivial⟩
  · cases List.mem_singleton.1 h
    have hout : (Datum.text "7-out").Sendable := Datum.sendable_text.2 (by decide +kernel)
    have hin : (Datum.text "n1-in").Sendable := Datum.sendable_text.2 (by decide +kernel)
    refine ⟨List.forall_mem_cons.2 ⟨⟨_, rfl⟩, ?_⟩, List.forall_mem_cons.2 ⟨hout, ?_⟩⟩
    · exact List.forall_mem_cons.2 ⟨⟨_, rfl⟩, List.forall_mem_singleton.2 ⟨_, rfl⟩⟩
    · exact List.forall_mem_cons.2 ⟨hin, List.forall_mem_singleton.2 Datum.sendable_null⟩
  · cases List.mem_singleton.1 h
    refine ⟨⟨_, rfl⟩, hid, Datum.sendable_null, List.forall_mem_cons.2 ⟨hdoubles 1 (by decide), ?_⟩⟩
    exact List.forall_mem_cons.2 ⟨trivial,
      List.forall_mem_cons.2 ⟨trivial, List.forall_mem_singleton.2 trivial⟩⟩

/-- The number is read, and nothing has to be told of it but its expression. -/
theorem not_untold_shownNumber : ¬ Untold (shownNumber.read {}) := by
  have htold : (shownNumber.read {}).map (texts? ·.degraded) = .ok (some []) := by decide +kernel
  cases hread : shownNumber.read {} with
  | error fault =>
    rw [hread] at htold
    cases htold
  | ok reading =>
    rw [hread] at htold
    intro (huntold : texts? reading.degraded = none)
    rw [Except.map, huntold] at htold
    cases htold

/-- A node of a kind that there is not. -/
def strangeNode : Submission := posted [.record [("type", .text "sine")]] [] []

/-- The node is in order. -/
theorem orderly_strangeNode : strangeNode.Orderly := by
  refine ⟨fun fields h => ?_, fun _ h => (List.not_mem_nil h).elim,
    fun _ h => (List.not_mem_nil h).elim, Datum.sendable_null⟩
  cases List.mem_singleton.1 h
  exact ⟨⟨_, rfl⟩, Datum.sendable_null, Datum.sendable_null, trivial⟩

/-- Submissions of the shape that the schema asks for, each out of order in one respect: identities,
coordinates and ends of other kinds, integers without doubles, and a label that cannot be
encoded. -/
def disorderly : List Submission :=
  let node (id : Datum) (more : Fields) : Datum :=
    .record ([("type", .text "add"), ("id", id)] ++ more)
  let number (more : Fields) : Datum :=
    .record ([("type", .text "number"), ("id", .text "a")] ++ more)
  let shown : Datum := .record [("type", .text "output"), ("id", .text "z")]
  let wire (source target : String) : Datum :=
    .record [("source", .text source), ("target", .text target)]
  [ -- an identity that is no key
    posted [node (.list []) []] [] [],
    -- an identity that is no text and has to be told, of a node with loose inputs
    posted [node (.int 1) [], shown] [wire "1-out" "z-in"] [],
    -- identities that are no texts and have to be told, in a cycle
    posted [node (.int 1) [], node (.int 2) [], shown]
      [wire "1-out" "z-in", wire "2-out" "1-in1", wire "2-out" "1-in2", wire "1-out" "2-in1",
        wire "1-out" "2-in2"] [],
    -- an identity that differs from itself and has to be told, of a node wired to itself
    posted [node (.float .nan) [], shown]
      [wire "nan-out" "z-in", wire "nan-out" "nan-in1", wire "nan-out" "nan-in2"] [],
    -- coordinates that are no numbers, and one that has no double
    posted [number [("position", .int 5)]] [] [],
    posted [number [("position", .record [("x", .null)])]] [] [],
    posted [number [("position", .record [("x", .int (10 ^ 400))])]] [] [],
    -- an end that is no key
    posted [number []] [.record [("source", .list []), ("target", .null)]] [],
    -- a target that is no key, and a value without a double that is compared
    posted [number []] [] [.record [("target", .list []), ("type", .text "prime")]],
    posted [number []] []
      [.record [("target", .text "a"), ("type", .text "domain"), ("domain", .text "ℝ")],
        .record [("target", .text "a"), ("type", .text "equal_to"), ("value", .int (10 ^ 400))]],
    -- half a pair of code units in a label that is told
    posted [node (.text "a") [("label", .text (String.singleton (loneUnit 0xd800)))], shown]
      [wire "a-out" "z-in"] []]

end Submission

/-! ## Requests -/

namespace Service

open Submission

/-- A request to read the expression of an orderly diagram is answered if the diagram can be read,
and if not it is refused with an explanation of the fault, whatever is wrong with the diagram. The
identities of its nodes are texts, or at least none that is not has to be told. The algebra refuses
forms for their values only. -/
theorem handle_orderly (s : Service) {A : SymbolicAlgebra} (hA : A.RaisesOfValue) {r : Request}
    (hmethod : r.method = "POST") (hpath : r.segments = ["api", "graph", "synthesize"])
    {p : Submission} (hbody : r.submission = .ok p) (h : p.Orderly)
    (htold : p.Named ∨ ¬ Untold (p.read s.supply)) :
    (∃ reading body, p.read s.supply = .ok reading ∧ (s.handle r A).1 = .ok body) ∨
      ∃ fault detail, p.read s.supply = .error fault ∧ Response.ofFault fault = .bad detail ∧
        (s.handle r A).1 = .bad detail := by
  have hcall : r.call = .ok (.synthesize p) := by
    rw [Request.call, hpath]
    simp only [hmethod, if_true, hbody]
    rfl
  have hanswer : (s.handle r A).1 = (p.answer s.supply A).1 := by
    rw [handle, hcall]
    rfl
  rw [hanswer]
  exact h.answer hA (shaped_of_submission hbody) htold

/-- The number is answered about, and the kind of the node is refused. -/
theorem handle_orderly_shown :
    (∃ reading body, shownNumber.read {} = .ok reading ∧
      (handle {} shownNumber.request).1 = .ok body) ∧
      ∃ fault detail, strangeNode.read {} = .error fault ∧ Response.ofFault fault = .bad detail ∧
        (handle {} strangeNode.request).1 = .bad detail := by
  have hread : (shownNumber.read {}).isOk = true ∧ (strangeNode.read {}).isOk = false := by
    decide +kernel
  constructor
  · obtain h | ⟨fault, _, hfault, -⟩ :=
      handle_orderly {} Expr.raisesOfValue (r := shownNumber.request) rfl (by decide +kernel) rfl
      orderly_shownNumber (.inr not_untold_shownNumber)
    · exact h
    · rw [show shownNumber.read {} = .error fault from hfault] at hread
      cases hread.1
  · have hnamed : strangeNode.Named := fun _ h => by cases List.mem_singleton.1 h; exact .inl rfl
    obtain ⟨reading, _, hreading, -⟩ | h :=
      handle_orderly {} Expr.raisesOfValue (r := strangeNode.request) rfl (by decide +kernel) rfl
      orderly_strangeNode (.inl hnamed)
    · rw [show strangeNode.read {} = .ok reading from hreading] at hread
      cases hread.2
    · exact h

/-- None of these submissions is refused for its shape, and all of them are met with a failure. -/
theorem handle_disorderly :
    disorderly.map (·.request.submission.isOk) = List.replicate 11 true ∧
      disorderly.map (fun p => (handle {} p.request).1.status) = List.replicate 11 500 := by
  decide +kernel

end Service

end EquationStudio
