import EquationStudio.Proofs.Diagram.Damaged
import EquationStudio.Proofs.Diagram.Keyed
import EquationStudio.Proofs.Diagram.Record
import EquationStudio.Proofs.Text.Encodable
import EquationStudio.Service.Basic

/-!
# Faults that an answer explains

The service explains a fault in its answer if the fault lies in a value and the words for it can be
sent (`Fault.Explained`); of any other fault it tells nothing but that it could not go on. What a
function of the editor comes to is said once, by what it answers and by the fact that its faults are
explained (`Accounts`).
-/

namespace EquationStudio

/-- A text between two others can be encoded if all of them can. -/
theorem isEncodable_around {before after s : String} (hbefore : isEncodable before = true)
    (hafter : isEncodable after = true) (h : isEncodable s = true) :
    isEncodable (before ++ s ++ after) = true :=
  isEncodable_append.2 ⟨isEncodable_append.2 ⟨hbefore, h⟩, hafter⟩

/-! ## Explained faults -/

/-- A fault that the service explains in its answer. -/
def Fault.Explained (fault : Fault) : Prop := ∃ detail, Response.ofFault fault = .bad detail

namespace Fault

/-- A fault that lies in a value is explained if the words for it can be encoded. -/
theorem Explained.of_value {fault : Fault} (hvalue : fault.isOfValue = true)
    (hwords : isEncodable fault.message = true) : fault.Explained := by
  refine ⟨fault.message, ?_⟩
  unfold Response.ofFault
  split
  · cases hvalue
  · rw [hvalue, hwords]
    rfl

/-- A fault that lies in a value and names one thing is explained if what is named can be
encoded. -/
theorem Explained.around {fault : Fault} {before after s : String} (hvalue : fault.isOfValue = true)
    (hmessage : fault.message = before ++ s ++ after)
    (hfixed : isEncodable (before ++ after) = true)
    (h : isEncodable s = true) : fault.Explained := by
  obtain ⟨hbefore, hafter⟩ := isEncodable_append.1 hfixed
  exact .of_value hvalue (hmessage ▸ isEncodable_around hbefore hafter h)

/-- A key that is missing is explained. -/
theorem explained_missingKey (key : String) : (datum (.missingKey key)).Explained := ⟨_, rfl⟩

/-- An integer with too many digits is explained. -/
theorem explained_tooManyDigits : (datum .tooManyDigits).Explained :=
  .of_value rfl (by decide +kernel)

end Fault

/-- What answers something with `P`, or fails with a fault that is explained. -/
inductive Accounts {α : Type} (P : α → Prop) : Except Fault α → Prop
  | ok {a : α} (h : P a) : Accounts P (.ok a)
  | explained {fault : Fault} (h : fault.Explained) : Accounts P (.error fault)

namespace Accounts

variable {α β : Type} {P : α → Prop} {Q : β → Prop} {x : Except Fault α} {f : α → Except Fault β}

/-- What is answered has the property. -/
theorem of_ok (h : Accounts P x) {a : α} (ha : x = .ok a) : P a := by
  subst ha
  cases h
  assumption

/-- What is at fault is explained. -/
theorem of_error (h : Accounts P x) {fault : Fault}
    (hfault : x = .error fault) : fault.Explained := by
  subst hfault
  cases h
  assumption

/-- What is answered and what is at fault, each by itself. -/
theorem of_forall (hok : ∀ a, x = .ok a → P a)
    (herror : ∀ fault, x = .error fault → fault.Explained) :
    Accounts P x := by
  cases x with
  | ok a => exact .ok (hok a rfl)
  | error fault => exact .explained (herror fault rfl)

/-- More about what is answered. -/
theorem imp (h : Accounts P x) {P' : α → Prop} (hP : ∀ a, x = .ok a → P a → P' a) : Accounts P' x :=
  of_forall (fun a ha => hP a ha (h.of_ok ha)) fun _ => h.of_error

/-- One after another. -/
theorem bind (hx : Accounts P x) (hf : ∀ a, x = .ok a → P a → Accounts Q (f a)) :
    Accounts Q (x >>= f) := by
  cases hx with
  | ok h => exact hf _ rfl h
  | explained h => exact .explained h

/-- Steps one after another, each of which keeps what all of them need. -/
theorem foldlM {γ : Type} {step : α → γ → Except Fault α} : ∀ {bs : List γ} {a : α},
    (∀ b ∈ bs, ∀ a, P a → Accounts P (step a b)) → P a → Accounts P (bs.foldlM step a)
  | [], _, _, h => .ok h
  | b :: bs, a, hstep, h => by
    rw [List.foldlM_cons]
    exact (hstep b (.head _) a h).bind fun a' _ h' =>
      foldlM (fun b' hb' => hstep b' (.tail _ hb')) h'

end Accounts

/-! ## Data -/

namespace Datum

/-- A datum that can be a key of a table. -/
def IsKey (d : Datum) : Prop := ∃ k, d.key = .ok k

/-- What is displayed can be encoded. -/
theorem accounts_display (d : Datum) : Accounts (fun s => isEncodable s = true) d.display :=
  .of_forall (fun _ => isEncodable_display) fun _ h =>
    fault_of_display h ▸ Fault.explained_tooManyDigits

/-- What stands in a sentence can be encoded, if this is so of a text. -/
theorem accounts_plain (d : Datum) :
    Accounts (fun s => d.Sendable → isEncodable s = true) d.plain := by
  refine .of_forall (fun s hs hd => hd.plain hs) fun fault h => ?_
  unfold Datum.plain at h
  split at h
  · cases h
  · exact d.accounts_display.of_error h

/-- A datum that can be a key is an identity. -/
theorem IsKey.ofDatum {d : Datum} (h : d.IsKey) :
    ∃ i : Identity, Identity.ofDatum d = .ok i ∧ i.datum = d := by
  obtain ⟨k, hk⟩ := h
  have hof : Identity.ofDatum d = .ok ⟨d, k, hk⟩ := by
    unfold Identity.ofDatum
    split
    · next k' hk' => cases hk.symm.trans hk'; rfl
    · next fault hfault => cases hk.symm.trans hfault
  exact ⟨_, hof, rfl⟩

/-- A datum that gives a coordinate, or a text, which may spell none. -/
def IsCoordinate : Datum → Prop
  | bool _ | float _ | text _ => True
  | int n => (int n).Ranged
  | null | list _ | record _ => False

/-- A datum that gives a position, or that does not for the number of coordinates or for a text. -/
def IsPosition : Datum → Prop
  | null | text _ => True
  | record fields => ∀ key ∈ ["x", "y"], ((Fields.get? fields key).getD (.int 0)).IsCoordinate
  | list items => items.length = 2 → ∀ d ∈ items, d.IsCoordinate
  | bool _ | int _ | float _ => False

/-- An integer that has a double is converted. -/
theorem exists_toDouble {d : Datum} {n : Int} (hd : d = int n) (h : d.Ranged) :
    ∃ x, d.toDouble = .ok x := by
  unfold toDouble
  -- what an integer is converted to is not looked into
  obtain ⟨convert, hconvert⟩ : ∃ convert, Double.ofInt = convert := ⟨_, rfl⟩
  rw [hconvert]
  subst hd
  rw [Ranged, FiniteDouble.ofInt?, hconvert] at h
  dsimp only
  cases hx : convert n with
  | finite x => exact ⟨_, rfl⟩
  | infinite | nan => rw [hx] at h; cases h

/-- A coordinate is converted, or it is a text that spells no number. -/
theorem IsCoordinate.accounts {d : Datum} (h : d.IsCoordinate) :
    Accounts (fun _ => True) d.toDouble := by
  refine .of_forall (fun _ _ => trivial) fun fault hfault => ?_
  cases d with
  | null | list | record => cases h
  | bool | float => cases hfault
  | int n =>
    obtain ⟨x, hx⟩ := exists_toDouble rfl h
    cases hx.symm.trans hfault
  | text s =>
    unfold toDouble at hfault
    dsimp only at hfault
    split at hfault <;> cases hfault
    exact .of_value rfl (isEncodable_append.2 ⟨by decide +kernel, isEncodable_quoted s⟩)

end Datum

namespace Position

/-- Two coordinates give a position, or one is a text that spells no number. -/
theorem accounts_ofPair {x y : Datum} (hx : x.IsCoordinate) (hy : y.IsCoordinate) :
    Accounts (fun _ => True) (ofPair x y) :=
  hx.accounts.bind fun _ _ _ => hy.accounts.bind fun _ _ _ => .ok trivial

/-- Members give a position if there are two and each gives a coordinate. -/
theorem accounts_ofMembers {items : List Datum}
    (h : items.length = 2 → ∀ d ∈ items, d.IsCoordinate) :
    Accounts (fun _ => True) (ofMembers items) := by
  unfold ofMembers
  split
  · next x y => exact accounts_ofPair (h rfl x (by simp)) (h rfl y (by simp))
  · split
    · exact .explained (.around rfl rfl (by decide +kernel) (numeralChars_nat _).isEncodable)
    · exact .explained (.of_value rfl (by decide +kernel))

/-- What gives a position does so, or the number of coordinates or a text is at fault. -/
theorem accounts_ofDatum {d : Datum} (h : d.IsPosition) : Accounts (fun _ => True) (ofDatum d) := by
  cases d with
  | null => exact .ok trivial
  | record fields => exact accounts_ofPair (h "x" (by simp)) (h "y" (by simp))
  | list items => exact accounts_ofMembers h
  | text s =>
    refine accounts_ofMembers fun _ d hd => ?_
    obtain ⟨c, -, rfl⟩ := List.mem_map.1 hd
    trivial
  | bool | int | float => cases h

end Position

/-- A datum names a kind of node, or it is quoted as it is displayed. -/
theorem NodeKind.accounts_ofDatum (d : Datum) : Accounts (fun _ => True) (NodeKind.ofDatum d) := by
  refine d.accounts_plain.bind fun named _ _ => ?_
  split
  · exact .ok trivial
  · refine d.accounts_display.bind fun shown _ hshown => .explained (.of_value rfl ?_)
    exact isEncodable_append.2 ⟨by decide +kernel, hshown⟩

/-- A datum is taken for a number, or it is refused. -/
theorem Number.accounts_ofDatum (d : Datum) : Accounts (fun _ => True) (Number.ofDatum d) := by
  have hrefused : Accounts (fun _ : Number => True) (.error (.schema .notNumber)) :=
    .explained (.of_value rfl (by decide +kernel))
  have hdouble : ∀ x : Double, Accounts (fun _ => True) (Number.ofDouble x) := by
    intro x
    cases x with
    | finite => exact .ok trivial
    | infinite | nan => exact hrefused
  cases d with
  | int n => exact hdouble _
  | float x => exact hdouble x
  | text s =>
    unfold Number.ofDatum
    dsimp only
    split
    · exact hdouble _
    · exact hrefused
  | null | bool | list | record => exact hrefused

/-- A datum spells the name of a variable, which can be encoded, or it is refused. -/
theorem accounts_readVariable (d : Datum) :
    Accounts (fun s => isEncodable s = true) (readVariable d) := by
  unfold readVariable
  split
  · dsimp only
    split
    · exact .explained (.of_value rfl (by decide +kernel))
    split
    · exact .explained (.of_value rfl (by decide +kernel))
    split
    · next hname => exact .ok (isEncodable_of_isVariableName hname)
    · exact .explained (.of_value rfl (by decide +kernel))
  · exact .explained (.of_value rfl (by decide +kernel))

/-- The names of kinds can be encoded. -/
theorem NodeKind.isEncodable_name (kind : NodeKind) : isEncodable kind.name = true := by
  match kind with
  | number | symbol | output | binary .add | binary .subtract | binary .multiply | binary .divide
  | binary .power => decide +kernel

/-- The labels of new nodes can be encoded. -/
theorem NodeKind.isEncodable_label (kind : NodeKind) : isEncodable kind.label = true := by
  match kind with
  | number | symbol | output | binary .add | binary .subtract | binary .multiply | binary .divide
  | binary .power => decide +kernel

/-! ## Nodes -/

/-- A node that can be spoken of: its identity, if that is a text, the words for it and its label
can be encoded. If `T` holds, its identity is a text. -/
structure Node.Spoken (T : Prop) (n : Node) : Prop where
  id : n.id.datum.Sendable
  ident : isEncodable n.ident = true
  label : isEncodable n.label = true
  text : T → n.id = .ofText n.ident

variable {T : Prop}

/-- An identity is a key. -/
theorem Identity.isKey (i : Identity) : i.datum.IsKey := ⟨i.key, i.made⟩

/-- The ports of a node that can be spoken of have identities that can be encoded. -/
theorem Node.Spoken.port {n : Node} (h : n.Spoken T) {p : Port} (hp : p ∈ n.ports) :
    isEncodable p.id = true := by
  have hnames : ∀ names ∈ portNames, ∀ name ∈ names, isEncodable name = true := by decide +kernel
  obtain ⟨name, hname, hid⟩ := Node.exists_name hp
  rw [hid, isEncodable_append, isEncodable_append]
  exact ⟨⟨h.ident, by decide +kernel⟩, hnames _ n.kind.names_mem name hname⟩

namespace Diagram

/-- A node is looked up under a key. -/
theorem exists_node? (g : Diagram) {d : Datum} (hd : d.IsKey) : ∃ found, g.node? d = .ok found := by
  obtain ⟨k, hk⟩ := hd
  exact ⟨g.nodes.get? k, by rw [node?, hk]; rfl⟩

/-- A diagram whose nodes and ports can be spoken of. If `T` holds, the nodes stand under texts. -/
structure Spoken (T : Prop) (g : Diagram) : Prop where
  node : ∀ {k n}, g.nodes.get? k = some n → n.Spoken T
  port : ∀ {k p}, g.ports.get? k = some p → isEncodable p.id = true

namespace Spoken

variable {g g' : Diagram}

/-- There is nothing in the empty diagram. -/
theorem empty : Spoken T {} where
  node h := by cases h
  port h := by cases h

/-- Connections, numbers used up and constraints do not matter. -/
theorem congr (h : g.Spoken T) (hnodes : g'.nodes = g.nodes)
    (hports : g'.ports = g.ports) : g'.Spoken T :=
  ⟨fun hn => h.node (hnodes ▸ hn), fun hp => h.port (hports ▸ hp)⟩

/-- A node is added. -/
theorem addNode (h : g.Spoken T) {n : Node} (hn : n.Spoken T) : (g.addNode n).Spoken T := by
  refine ⟨fun {k m} hm => ?_, fun {k p} hp => ?_⟩
  · rw [Diagram.addNode, Table.get?_insert] at hm
    split at hm
    · cases hm
      exact hn
    · exact h.node hm
  · have hlisted : ∀ {ps : List Port} {t : Table Port}, (∀ q ∈ ps, isEncodable q.id = true) →
        (∀ {k q}, t.get? k = some q → isEncodable q.id = true) →
        ∀ {k q}, (ps.foldl (fun t p => t.insert (.text p.id) p) t).get? k = some q →
        isEncodable q.id = true := by
      intro ps
      induction ps with
      | nil => exact fun _ ht => ht
      | cons q ps ih =>
        intro t hps ht
        refine ih (fun q' hq' => hps q' (.tail _ hq')) fun {k q'} hq' => ?_
        rw [Table.get?_insert] at hq'
        split at hq'
        · cases hq'
          exact hps q (.head _)
        · exact ht hq'
    exact hlisted (fun q hq => hn.port hq) h.port hp

/-- A node is replaced. -/
theorem replaceNode (h : g.Spoken T) {n : Node} (hn : n.Spoken T) :
    (g.replaceNode n).2.Spoken T := by
  refine ⟨fun {k m} hm => ?_, h.port⟩
  rw [Diagram.replaceNode, Table.get?_insert] at hm
  split at hm
  · cases hm
    exact hn
  · exact h.node hm

/-- A node that is found stands under a text. -/
theorem of_node? (h : g.Spoken T) {id : Datum} {n : Node}
    (hn : g.node? id = .ok (some n)) : n.Spoken T := by
  obtain ⟨k, -, hk⟩ := ok_of_bind hn
  exact h.node (Except.ok.inj hk)

/-- A node is there, or it is said which one is not. -/
theorem accounts_requireNode (h : g.Spoken T) {id : Datum} (hid : id.IsKey) (hwords : id.Sendable) :
    Accounts (Node.Spoken T) (g.requireNode id) := by
  refine .imp (P := fun _ => True) ?_ fun n hn _ => h.of_node? (requireNode_ok hn)
  obtain ⟨found, hfound⟩ := g.exists_node? hid
  rw [requireNode, hfound, ok_bind]
  split
  · exact .ok trivial
  · exact id.accounts_plain.bind fun words _ hplain =>
      .explained (.around rfl rfl (by decide +kernel) (hplain hwords))

/-- A node is created under an identity that, if it is a text, can be encoded. -/
theorem accounts_createAs (h : g.Spoken T) (kind : Datum) {position : Datum}
    (hposition : position.IsPosition) {i : Identity} (hwords : i.datum.Sendable)
    (htext : T → ∃ s, i = .ofText s) :
    Accounts (Node.Spoken T) (g.createAs kind position i).1 ∧
    (g.createAs kind position i).2.Spoken T := by
  have hmake : Accounts (Node.Spoken T) (do Node.make (← NodeKind.ofDatum kind) i position) := by
    refine (NodeKind.accounts_ofDatum kind).bind fun k _ _ => ?_
    refine i.datum.accounts_plain.bind fun ident hident hplain => ?_
    refine (Position.accounts_ofDatum hposition).bind fun p _ _ => .ok ?_
    refine ⟨hwords, hplain hwords, k.isEncodable_label, fun hT => ?_⟩
    obtain ⟨s, rfl⟩ := htext hT
    cases hident
    rfl
  unfold createAs
  split
  · next fault hfault => exact ⟨.explained (hmake.of_error hfault), h⟩
  · next n hn => exact ⟨.ok (hmake.of_ok hn), h.addNode (hmake.of_ok hn)⟩

/-- An identity that is asked for is given out, or it is said that it is taken. -/
theorem accounts_requestedId (g : Diagram) {id : Datum} (hid : id.IsKey) (hwords : id.Sendable) :
    Accounts (fun asked => ∀ i, asked = some i → Identity.ofDatum id = .ok i ∧ id.isGiven = true)
      (g.requestedId id) := by
  unfold requestedId
  split
  · exact .ok nofun
  · next hgiven =>
    obtain ⟨i, hi, -⟩ := hid.ofDatum
    rw [hi, ok_bind]
    split
    · exact id.accounts_plain.bind fun s _ hs =>
        .explained (.around rfl rfl (by decide +kernel) (hs hwords))
    · refine .ok fun j hj => ?_
      split at hj <;> cases hj
      exact ⟨rfl, by rwa [Bool.not_eq_true, Bool.not_eq_false'] at hgiven⟩

/-- A node is created under a given identity or a fresh one. -/
theorem accounts_create (h : g.Spoken T) (kind : Datum) {position id : Datum}
    (hposition : position.IsPosition) (hid : id.IsKey) (hwords : id.Sendable)
    (htext : T → id = .null ∨ ∃ s, id = .text s) :
    Accounts (Node.Spoken T) (g.create kind position id).1 ∧
    (g.create kind position id).2.Spoken T := by
  have hasked := accounts_requestedId g hid hwords
  unfold create
  split
  · next fault hrefused => exact ⟨.explained (hasked.of_error hrefused), h⟩
  · next i hi =>
    obtain ⟨hof, hgiven⟩ := hasked.of_ok hi i rfl
    refine accounts_createAs h kind hposition (Identity.datum_of_ofDatum hof ▸ hwords) fun hT => ?_
    obtain rfl | ⟨s, rfl⟩ := htext hT
    · cases hgiven
    · cases hof
      exact ⟨s, rfl⟩
  · obtain ⟨j, hj, -⟩ := freshId_new g.nodes "n" g.nextNode
    have hnumber : isEncodable ("n" ++ toString j) = true :=
      isEncodable_append.2 ⟨by decide +kernel, (numeralChars_nat j).isEncodable⟩
    have hnumbered : ∀ k, ({ g with nextNode := k } : Diagram).Spoken T := fun _ => h.congr rfl rfl
    dsimp only
    rw [freshNodeId, hj]
    exact accounts_createAs (hnumbered _) kind hposition (Datum.sendable_text.2 hnumber) fun _ =>
      ⟨_, rfl⟩

/-- The value of a node is set where nothing is constrained, or it is refused. -/
theorem accounts_setValue (h : g.Spoken T) (hbare : g.constraints = {}) {n : Node}
    (hn : n.Spoken T) (value : Datum) :
    Accounts (fun set => set.2.Spoken T) (g.setValue n.id.datum value) := by
  refine (h.accounts_requireNode n.id.isKey hn.id).bind fun m _ hm => ?_
  split
  · refine (Number.accounts_ofDatum value).bind fun v _ _ => ?_
    have hcheck : g.constraints.check n.id.datum v.toDatum = .ok () := by
      rw [hbare, Registry.check, Registry.violations, Registry.constraintsFor, n.id.made]
      rfl
    rw [hcheck, ok_bind]
    exact .ok (h.replaceNode ⟨hm.id, hm.ident, v.numeralChars_literal.isEncodable, hm.text⟩)
  · exact .explained (.around rfl rfl (by decide +kernel) (NodeKind.isEncodable_name _))

/-- The name of a variable is set, or it is refused. -/
theorem accounts_setVariable (h : g.Spoken T) {n : Node} (hn : n.Spoken T) (name : Datum) :
    Accounts (fun set => set.2.Spoken T) (g.setVariable n.id.datum name) := by
  refine (h.accounts_requireNode n.id.isKey hn.id).bind fun m _ hm => ?_
  split
  · refine (accounts_readVariable name).bind fun s _ hs => ?_
    exact .ok (h.replaceNode ⟨hm.id, hm.ident, hs, hm.text⟩)
  · exact .explained (.around rfl rfl (by decide +kernel) (NodeKind.isEncodable_name _))

/-- A label that can be encoded is set, or it is refused. -/
theorem accounts_setLabel (h : g.Spoken T) {n : Node} (hn : n.Spoken T) {label : Datum}
    (hlabel : label.Sendable) :
    Accounts (fun set => set.2.Spoken T) (g.setLabel n.id.datum label) := by
  have hempty : (Fault.schema .labelEmpty).Explained := .of_value rfl (by decide +kernel)
  refine (h.accounts_requireNode n.id.isKey hn.id).bind fun m _ hm => ?_
  split
  · next s =>
    split
    · exact .explained hempty
    · exact .ok (h.replaceNode ⟨hm.id, hm.ident, isEncodable_trimBlank (hlabel s rfl), hm.text⟩)
  · exact .explained hempty

/-- The value of a rebuilt node is set where nothing is constrained, or it is refused. -/
theorem accounts_restoreValue (h : g.Spoken T) (hbare : g.constraints = {})
    {n : Node} (hn : n.Spoken T) (fields : Fields) : Accounts (Spoken T)
    (g.restoreValue n (.record fields)) := by
  unfold restoreValue
  split
  · rw [Datum.fieldOr, ok_bind]
    split
    · exact (h.accounts_setValue hbare hn _).bind fun _ _ hset => .ok hset
    · exact .ok h
  · exact .ok h

/-- The name of a rebuilt variable is set, or it is refused. -/
theorem accounts_restoreVariable (h : g.Spoken T) {n : Node} (hn : n.Spoken T) (fields : Fields) :
    Accounts (Spoken T) (g.restoreVariable n (.record fields)) := by
  unfold restoreVariable
  split
  · rw [Datum.fieldOr, ok_bind]
    split
    · exact (h.accounts_setVariable hn _).bind fun _ _ hset => .ok hset
    · exact .ok h
  · exact .ok h

/-- The label of a rebuilt node is set, or it is refused. -/
theorem accounts_restoreLabel (h : g.Spoken T) {n : Node} (hn : n.Spoken T) {fields : Fields}
    (hlabel : (Fields.get fields "label").Sendable) : Accounts (Spoken T)
    (g.restoreLabel n (.record fields)) := by
  rw [restoreLabel, Datum.fieldOr, ok_bind]
  split
  · exact (h.accounts_setLabel hn hlabel).bind fun _ _ hset => .ok hset
  · exact .ok h

end Spoken

end Diagram

namespace Submission

/-- The fields of a submitted node about which the service can answer: its identity is no list or
record, if it is a text it can be encoded, as the label can be, and its position is one or has the
form of one. -/
structure OrderlyNode (fields : Fields) : Prop where
  id : (Fields.get fields "id").IsKey
  words : (Fields.get fields "id").Sendable
  label : (Fields.get fields "label").Sendable
  position : (Fields.get fields "position").IsPosition

/-- The fields of a submitted connection about which the service can answer: neither its ends nor
its identity are lists or records, and what they are can be encoded. -/
structure OrderlyConnection (fields : Fields) : Prop where
  keys : ∀ key ∈ ["source", "target", "id"], (Fields.get fields key).IsKey
  words : ∀ key ∈ ["source", "target", "id"], (Fields.get fields key).Sendable

/-- The fields of a submitted constraint about which the service can answer: its target is no list
or record, the target and its identity can be encoded, and its integers have doubles. -/
structure OrderlyConstraint (fields : Fields) : Prop where
  target : (Fields.get fields "target").IsKey
  words : (Fields.get fields "target").Sendable
  id : (Fields.get fields "id").Sendable
  numbers : ∀ key ∈ ["value", "min", "max", "divisor"], (Fields.get fields key).Ranged

end Submission

namespace Diagram.Spoken

open Submission

variable {g g' : Diagram} {fields : Fields}

/-- What has been looked up in a record is what is found there. -/
theorem field_eq {key : String} {d : Datum} (h : (Datum.record fields).field key = .ok d) :
    d = Fields.get fields key := by
  unfold Datum.field at h
  dsimp only at h
  split at h
  · next hfound => cases h; rw [Fields.get, hfound]; rfl
  · cases h

/-- A field is found, or it is said that it is missing. -/
theorem accounts_field (fields : Fields) (key : String) :
    Accounts (fun d => d = Fields.get fields key) ((Datum.record fields).field key) := by
  refine .of_forall (fun _ => field_eq) fun fault h => ?_
  unfold Datum.field at h
  dsimp only at h
  split at h <;> cases h
  exact Fault.explained_missingKey _

/-- A node is rebuilt where nothing is constrained, or the fault is explained. -/
theorem accounts_restoreNode (h : g.Spoken T) (hbare : g.constraints = {})
    (hraw : OrderlyNode fields) (htext : T → Fields.get fields "id" = .null ∨
    ∃ s, Fields.get fields "id" = .text s) :
    Accounts (Spoken T) (g.restoreNode (.record fields)) := by
  refine (accounts_field fields "type").bind fun kind _ _ => ?_
  rw [Datum.fieldOr, ok_bind, Datum.fieldOr, ok_bind]
  obtain ⟨hmade, hspoken⟩ := h.accounts_create kind hraw.position hraw.id hraw.words htext
  have hbare' :=
    (constraints_create g kind (Fields.get fields "position") (Fields.get fields "id")).trans hbare
  refine hmade.bind fun n _ hn => ?_
  refine (hspoken.accounts_restoreValue hbare' hn fields).bind fun g₁ _ h₁ => ?_
  refine (h₁.accounts_restoreVariable hn fields).bind fun g₂ _ h₂ => ?_
  exact h₂.accounts_restoreLabel hn hraw.label

/-! ## Connections -/

/-- A port is looked up under a key. Where one is found, its identity can be encoded. -/
theorem exists_port? (h : g.Spoken T) {d : Datum} (hd : d.IsKey) :
    ∃ found, g.port? d = .ok found ∧ ∀ p, found = some p → isEncodable p.id = true := by
  obtain ⟨k, hk⟩ := hd
  exact ⟨g.ports.get? k, by rw [port?, hk]; rfl, fun p hp => h.port hp⟩

/-- Two ports are wired, or it is said why not. -/
theorem accounts_checkWire (h : g.Spoken T) {source target : Datum}
    (hsource : source.IsKey ∧ source.Sendable) (htarget : target.IsKey ∧ target.Sendable) :
    Accounts (fun _ => True) (g.checkWire source target) := by
  obtain ⟨found, hfound, hout⟩ := h.exists_port? hsource.1
  obtain ⟨fed, hfed, hinto⟩ := h.exists_port? htarget.1
  rw [checkWire, hfound, ok_bind, hfed, ok_bind]
  split
  · exact source.accounts_plain.bind fun s _ hs =>
      .explained (.around rfl rfl (by decide +kernel) (hs hsource.2))
  · exact target.accounts_plain.bind fun s _ hs =>
      .explained (.around rfl rfl (by decide +kernel) (hs htarget.2))
  · next out into =>
    split
    · exact .explained (.around rfl rfl (by decide +kernel) (hout out rfl))
    split
    · exact .explained (.around rfl rfl (by decide +kernel) (hinto into rfl))
    split
    · exact .explained (.of_value rfl (by decide +kernel))
    split
    · exact .explained (.around rfl rfl (by decide +kernel) (hinto into rfl))
    · exact .ok trivial

/-- An identity is found for a connection, or it is said that it is taken. -/
theorem accounts_connectionId (g : Diagram) {id : Datum} (hid : id.IsKey ∧ id.Sendable) :
    Accounts (fun found => found.2.nodes = g.nodes ∧ found.2.ports = g.ports)
    (g.connectionId id) := by
  refine .imp (P := fun _ => True) ?_ fun found hfound _ => ?_
  · unfold connectionId
    split
    · obtain ⟨i, hi, -⟩ := hid.1.ofDatum
      rw [hi, ok_bind]
      split
      · exact id.accounts_plain.bind fun s _ hs =>
          .explained (.around rfl rfl (by decide +kernel) (hs hid.2))
      · exact .ok trivial
    · exact .ok trivial
  · rw [connectionId_numbered hfound]
    exact ⟨rfl, rfl⟩

/-- A connection is rebuilt, or the fault is explained. -/
theorem accounts_restoreConnection (h : g.Spoken T) (hraw : OrderlyConnection fields) :
    Accounts (Spoken T) (g.restoreConnection (.record fields)) := by
  have hpart : ∀ key ∈ ["source", "target", "id"],
      (Fields.get fields key).IsKey ∧ (Fields.get fields key).Sendable :=
    fun key hkey => ⟨hraw.keys key hkey, hraw.words key hkey⟩
  refine (accounts_field fields "source").bind fun source _ hsource => ?_
  refine (accounts_field fields "target").bind fun target _ htarget => ?_
  subst hsource htarget
  rw [Datum.fieldOr, ok_bind]
  refine Accounts.bind (P := fun added => added.2.Spoken T) ?_ fun _ _ hadded => .ok hadded
  refine (h.accounts_checkWire (hpart _ (by simp)) (hpart _ (by simp))).bind fun ports _ _ => ?_
  refine (accounts_connectionId g (hpart "id" (by simp))).bind fun found _ hsame => ?_
  exact .ok (h.congr hsame.1 hsame.2)

end Diagram.Spoken

/-! ## Constraints -/

/-- A datum that is no member of a closed set is quoted as it is displayed. -/
theorem Datum.isEncodable_memberOf {α : Type} {set : String} {all : List α}
    {name : α → String} {d : Datum} {cause : DatumFault} (hset : isEncodable set = true)
    (h : d.memberOf set all name = .error cause) :
    isEncodable cause.message = true := by
  unfold memberOf at h
  dsimp only at h
  split at h
  · cases h
  · split at h
    · next shown hshown =>
      cases h
      exact isEncodable_append.2 ⟨isEncodable_append.2 ⟨isEncodable_display hshown,
        by decide +kernel⟩, hset⟩
    · cases h
      decide +kernel

namespace Constraint

/-- What is at fault in the terms of a record can be encoded. -/
theorem isEncodable_readTerms {fields : Fields} {cause : DatumFault}
    (h : readTerms fields = .error cause) : isEncodable cause.message = true := by
  have hoptional : ∀ {α : Type} {key set : String} {all : List α} {name : α → String},
      isEncodable set = true → optionalMember fields key set all name = .error cause →
        isEncodable cause.message = true := by
    intro α key set all name hset h
    unfold optionalMember at h
    dsimp only at h
    split at h
    · cases hmember : (Fields.get fields key).memberOf set all name with
      | ok a => rw [hmember] at h; cases h
      | error cause' =>
        rw [hmember] at h
        cases h
        exact Datum.isEncodable_memberOf hset hmember
    · cases h
  obtain h | ⟨_, -, h⟩ := error_of_bind h
  · exact Datum.isEncodable_memberOf (by decide +kernel) h
  obtain h | ⟨_, -, h⟩ := error_of_bind h
  · exact hoptional (by decide +kernel) h
  obtain h | ⟨_, -, h⟩ := error_of_bind h
  · exact hoptional (by decide +kernel) h
  obtain h | ⟨_, -, h⟩ := error_of_bind h
  · exact hoptional (by decide +kernel) h
  · cases h

/-- What is said of terms that state no rule can be encoded. -/
theorem isEncodable_ruleOfTerms {terms : Terms} {kind : ConstraintKind} {cause : SchemaFault}
    (h : Rule.ofTerms terms kind = .error cause) : isEncodable cause.message = true := by
  cases kind with
  | comparison relation =>
    unfold Rule.ofTerms at h
    dsimp only at h
    split at h <;> cases h
    cases relation <;> decide +kernel
  | range =>
    have hrange : Rule.ofRange terms = .error cause := h
    unfold Rule.ofRange at hrange
    split at hrange
    · split at hrange <;> cases hrange
      decide +kernel
    · cases hrange
      decide +kernel
  | divisible =>
    unfold Rule.ofTerms at h
    dsimp only at h
    split at h
    · split at h <;> cases h
      decide +kernel
    · cases h
      decide +kernel
  | domain | sign | parity =>
    unfold Rule.ofTerms at h
    dsimp only at h
    split at h <;> cases h
    decide +kernel
  | prime | perfectSquare | fibonacci => cases h

/-- A constraint is read off an orderly record, or the fault is explained. -/
theorem accounts_ofRecord {fields : Fields} (h : Submission.OrderlyConstraint fields)
    (supply : Supply) :
    Accounts (fun c => c.rule.Convertible ∧ c.id.Sendable)
    (ofRecord supply (.record fields)).1 := by
  have hdrawn : (drawId supply).1.Sendable := Datum.sendable_text.2 (supply.isEncodable_draw 8)
  refine .of_forall (fun c hc => ⟨convertible_of_fields hc h.numbers, ?_⟩) fun fault hfault => ?_
  · unfold ofRecord at hc
    dsimp only at hc
    split at hc
    · cases hc
    · dsimp only at hc
      unfold ofTerms at hc
      split at hc <;> cases hc
      dsimp only
      split
      · exact h.id
      · exact hdrawn
  · unfold ofRecord at hfault
    dsimp only at hfault
    split at hfault
    · next cause hcause =>
      cases hfault
      exact .of_value rfl (isEncodable_append.2 ⟨by decide +kernel, isEncodable_readTerms hcause⟩)
    · dsimp only at hfault
      unfold ofTerms at hfault
      split at hfault <;> cases hfault
      exact .of_value rfl (isEncodable_ruleOfTerms ‹_›)

end Constraint

/-- A constraint is attached to a target, or the fault is explained. -/
theorem Registry.accounts_add {r : Registry} {c : Constraint} {target : Identity}
    (hr : r.Forall fun c => c.rule.Convertible) (hc : c.rule.Convertible) (hid : c.id.Sendable)
    (htarget : target.datum.Sendable) :
    Accounts (fun r' => r'.Forall fun c => c.rule.Convertible) (r.add target c) := by
  have hkinds : ∀ kind : ConflictKind, isEncodable kind.name = true := by
    intro kind
    cases kind <;> decide +kernel
  refine .imp (P := fun _ => True) ?_ fun r' hadded _ => hr.add hc hadded
  simp only [add]
  split
  · exact c.id.accounts_plain.bind fun s _ hs =>
      .explained (.around rfl rfl (by decide +kernel) (hs hid))
  · have hothers : ∀ other ∈ r.constraintsAt target.key, other.rule.Convertible := by
      intro other hother
      cases hat : r.table.get? target.key with
      | none => rw [constraintsAt_of_none hat] at hother; cases hother
      | some a => rw [constraintsAt_of_get? hat] at hother; exact hr _ a hat other hother
    obtain ⟨kinds, hcompared⟩ := exists_conflictsWith hc hothers
    rw [hcompared, ok_bind]
    split
    · exact .ok trivial
    · refine target.datum.accounts_plain.bind fun s _ hs => .explained (.of_value rfl ?_)
      refine isEncodable_append.2 ⟨isEncodable_around (by decide +kernel)
        (by decide +kernel) (hs htarget), ?_⟩
      refine isEncodable_intercalate isEncodable_comma fun s hs => ?_
      obtain ⟨kind, -, rfl⟩ := List.mem_map.1 hs
      exact hkinds kind

namespace Diagram

open Submission

/-- A diagram that can be spoken of and whose constraints can be compared. -/
structure Answerable (T : Prop) (g : Diagram) : Prop where
  spoken : g.Spoken T
  convertible : g.constraints.Forall fun c => c.rule.Convertible

variable {g : Diagram} {fields : Fields}

/-- A node takes constraints, or it is said that it does not. -/
theorem Spoken.accounts_requireConstrainable (h : g.Spoken T) {id : Datum} (hid : id.IsKey)
    (hwords : id.Sendable) : Accounts (fun _ => True) (g.requireConstrainable id) := by
  refine (h.accounts_requireNode hid hwords).bind fun n _ _ => ?_
  split
  · exact .ok trivial
  · exact .ok trivial
  · exact .explained (.around rfl rfl (by decide +kernel) n.kind.isEncodable_name)

/-- A constraint is read and attached, or the fault is explained. -/
theorem Answerable.accounts_addConstraint (h : g.Answerable T) (hraw : OrderlyConstraint fields)
    (supply : Supply) : Accounts (fun added => added.2.Answerable T)
      (g.addConstraint supply (Fields.get fields "target") (.record fields)).1 := by
  have hnode := h.spoken.accounts_requireConstrainable hraw.target hraw.words
  unfold addConstraint
  split
  · next fault hfault => exact .explained (hnode.of_error hfault)
  · dsimp only
    refine (Constraint.accounts_ofRecord hraw supply).bind fun c _ hc => ?_
    refine hnode.bind fun _ _ _ => ?_
    obtain ⟨i, hi, hdatum⟩ := hraw.target.ofDatum
    rw [hi, ok_bind]
    refine (Registry.accounts_add h.convertible hc.1 hc.2 (hdatum ▸ hraw.words)).bind fun r _ hr =>
      ?_
    exact .ok ⟨h.spoken.congr rfl rfl, hr⟩

/-- Constraints are rebuilt, or the fault is explained. -/
theorem Answerable.accounts_restoreConstraints :
    ∀ {raws : List Datum} {g : Diagram} {supply : Supply},
    g.Answerable T → (∀ raw ∈ raws, ∃ fields, raw = .record fields ∧ OrderlyConstraint fields) →
      Accounts (Answerable T) (g.restoreConstraints supply raws).1
  | [], _, _, h, _ => .ok h
  | raw :: raws, g, supply, h, hraws => by
    obtain ⟨fields, rfl, hraw⟩ := hraws raw (.head _)
    unfold restoreConstraints
    split
    · next fault hfault =>
        exact .explained ((Spoken.accounts_field fields "target").of_error hfault)
    · next target htarget =>
      obtain rfl := Spoken.field_eq htarget
      have hadd := h.accounts_addConstraint hraw supply
      split
      · next fault supply' hfault => exact .explained (hadd.of_error (congrArg Prod.fst hfault))
      · next c g' supply' hadded =>
        exact (hadd.of_ok (congrArg Prod.fst hadded)).accounts_restoreConstraints
          fun raw' hmem => hraws raw' (.tail _ hmem)

end Diagram

/-! ## Submissions -/

namespace Submission

/-- The parts of a submission as the schema of its body has them: lists of objects, and a text or
nothing as the sink. -/
structure Shaped (p : Submission) : Prop where
  nodes : ∃ items, p.nodes = .list items ∧ ∀ raw ∈ items, ∃ fields, raw = .record fields
  connections : ∃ items, p.connections = .list items ∧ ∀ raw ∈ items, ∃ fields, raw = .record fields
  constraints : ∃ items, p.constraints = .list items ∧ ∀ raw ∈ items, ∃ fields, raw = .record fields
  sink : p.sink = .null ∨ ∃ s, p.sink = .text s

/-- A submission about which the service can answer: its nodes, connections and constraints are
such, and the identity of the sink can be encoded. -/
structure Orderly (p : Submission) : Prop where
  nodes : ∀ fields, .record fields ∈ p.nodes.items → OrderlyNode fields
  connections : ∀ fields, .record fields ∈ p.connections.items → OrderlyConnection fields
  constraints : ∀ fields, .record fields ∈ p.constraints.items → OrderlyConstraint fields
  sink : p.sink.Sendable

/-- How the parts of a submission are rebuilt. -/
theorem restoreParts_toRecord {p : Submission} {nodes connections constraints : List Datum}
    (hnodes : p.nodes = .list nodes) (hconnections : p.connections = .list connections)
    (hconstraints : p.constraints = .list constraints) : Diagram.restoreParts p.toRecord =
      (do let g ← nodes.foldlM Diagram.restoreNode {}
          return (← connections.foldlM Diagram.restoreConnection g, constraints)) := by
  rw [toRecord, hnodes, hconnections, hconstraints]
  rfl

/-- The identities that a submission gives its nodes are texts. -/
def Named (p : Submission) : Prop :=
  ∀ fields, .record fields ∈ p.nodes.items → Fields.get fields "id" = .null ∨
    ∃ s, Fields.get fields "id" = .text s

/-- The diagram of an orderly submission is rebuilt, or the fault is explained. -/
theorem Orderly.accounts_ofRecord {p : Submission} (hshape : p.Shaped) (h : p.Orderly)
    (supply : Supply) :
    Accounts (Diagram.Answerable p.Named) (Diagram.ofRecord supply p.toRecord).1 := by
  obtain ⟨nodes, hnodes, hnodeRecords⟩ := hshape.nodes
  obtain ⟨connections, hconnections, hwireRecords⟩ := hshape.connections
  obtain ⟨constraints, hconstraints, hruleRecords⟩ := hshape.constraints
  let Bare (g : Diagram) : Prop := g.Spoken p.Named ∧ g.constraints = {}
  have hparts : Accounts (fun parts => Bare parts.1 ∧
      parts.2 = constraints) (Diagram.restoreParts p.toRecord) := by
    rw [restoreParts_toRecord hnodes hconnections hconstraints]
    refine Accounts.bind (P := Bare) (.foldlM (fun raw hraw g hg => ?_) ⟨.empty, rfl⟩) fun g _ hg =>
      Accounts.bind (P := Bare) (.foldlM (fun raw hraw g hg => ?_) hg) fun g _ hg => .ok ⟨hg, rfl⟩
    · obtain ⟨fields, rfl⟩ := hnodeRecords raw hraw
      have hmem : .record fields ∈ p.nodes.items := hnodes ▸ hraw
      refine (hg.1.accounts_restoreNode hg.2 (h.nodes fields hmem) fun hnamed =>
        hnamed fields hmem).imp ?_
      exact fun g' hg' hspoken => ⟨hspoken, (Diagram.constraints_restoreNode hg').trans hg.2⟩
    · obtain ⟨fields, rfl⟩ := hwireRecords raw hraw
      refine (hg.1.accounts_restoreConnection (h.connections fields (hconnections ▸ hraw))).imp ?_
      exact fun g' hg' hspoken => ⟨hspoken, (Diagram.constraints_restoreConnection hg').trans hg.2⟩
  unfold Diagram.ofRecord
  split
  · next fault hfault => exact .explained (hparts.of_error hfault)
  · next g constraints' hrestored =>
    obtain ⟨⟨hspoken, hbare⟩, rfl⟩ := hparts.of_ok hrestored
    have hnone : g.constraints.Forall fun c => c.rule.Convertible := by
      intro k a ha
      rw [hbare] at ha
      cases ha
    refine Diagram.Answerable.accounts_restoreConstraints ⟨hspoken, hnone⟩ fun raw hraw => ?_
    obtain ⟨fields, rfl⟩ := hruleRecords raw hraw
    exact ⟨fields, rfl, h.constraints fields (hconstraints ▸ hraw)⟩

end Submission

end EquationStudio
