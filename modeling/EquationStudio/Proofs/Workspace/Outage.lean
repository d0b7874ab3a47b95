import EquationStudio.Proofs.Archive.Refused
import EquationStudio.Proofs.Diagram.Omission
import EquationStudio.Proofs.Workspace.Save

/-!
# Storage that is not always available

A history of a workspace tells of edits and of calls on its storage, any of which may meet a storage
that is not available: something comes in the way of reading the file or of writing it, or there is
no file to be had at its place. What such a call comes to is said once
(`StorageCall.perform_of_refusal`): it answers that there is nothing, tells the user so once, and
leaves the workspace and the storage as they are but for two things. The workspace takes over the
name under which something was to be saved before it asks the storage, and a file whose writing is
stopped keeps no more than the beginning of the new document (`Storage.Left`). So a history stays as
it is when its failing calls are left out, unless one of them was to save under another name or was
stopped while it wrote (`Workspace.history_spared`), and then it need not
(`Workspace.history_renames`, `Workspace.history_forgets`).

What a turn of a history draws from the supply of identifiers belongs to that turn: it goes when the
turn is left out. What it makes known is collected with its answer.
-/

namespace EquationStudio

/-! ## Refusals -/

/-- Why the storage is not available to a request, if it is not. -/
def Storage.refusal? {α : Type} (s : Storage) (supply : Supply)
    (f : Archive → Supply → Archive.Outcome α × Supply) : Option String :=
  match s with
  | .none => Option.none
  | .broken reason => some reason
  | .archive a =>
    match (f a supply).1.answer with
    | .error (.unavailable reason) => some reason
    | _ => Option.none

/-- What is left of a storage that refused a request: the storage as it was, or an archive with no
more in its file than the beginning of a document, because its writing was stopped. -/
inductive Storage.Left (obstacle : Option Obstacle) : Storage → Storage → Prop
  | kept (s : Storage) : Left obstacle s s
  | cut {a : Archive} {db : Database} {bytes : Nat} {fault : Fault} (opened : a.place.Open)
      (stopped : obstacle = some (.writing bytes fault)) :
      Left obstacle (.archive a) (.archive (a.cutOff db bytes))

namespace Archive

/-- What a change leaves that is refused because the archive is not available. -/
theorem Request.left_of_unavailable {s : Archive × Supply} {r : Request}
    {obstacle : Option Obstacle} {reason : String}
    (h : r.fault? s obstacle = some (.unavailable reason)) :
    Storage.Left obstacle (.archive s.1) (.archive (r.applyUnder obstacle s).1) := by
  obtain same | ⟨hopen, db, content, -, hdraft, left⟩ := kept_or_drafted s r obstacle h
  · rw [same]
    exact .kept _
  · obtain ⟨torn, -, hcause, -⟩ | ⟨bytes, hstopped, rfl⟩ := torn_or_stopped hdraft
    · cases hcause
    · rw [left]
      exact .cut hopen hstopped

/-- What a record that is not saved because the archive is not available leaves. -/
theorem save_of_unavailable {a : Archive} {supply : Supply} {now : Moment} {d : Datum}
    {obstacle : Option Obstacle} {reason : String}
    (h : (a.save supply now d obstacle).1.answer = .error (.unavailable reason)) :
    Storage.Left obstacle (.archive a) (.archive (a.save supply now d obstacle).1.archive) := by
  have hfault : (Request.save now d).fault? (a, supply) obstacle = some (.unavailable reason) := by
    simp only [Request.fault?, Outcome.fault?, h]
  exact Request.left_of_unavailable hfault

/-- What a record that is not removed because the archive is not available leaves. -/
theorem remove_of_unavailable {a : Archive} {id : Datum} {obstacle : Option Obstacle}
    {reason : String} (h : (a.remove id obstacle).answer = .error (.unavailable reason)) :
    Storage.Left obstacle (.archive a) (.archive (a.remove id obstacle).archive) := by
  have hfault : (Request.remove id).fault? (a, {}) obstacle = some (.unavailable reason) := by
    simp only [Request.fault?, Outcome.fault?, h]
  exact Request.left_of_unavailable hfault

/-- A request that only asks leaves the archive as it is. -/
theorem left_ask {α : Type} (a : Archive) (f : Database → Except Fault α)
    (obstacle : Option Obstacle) :
    Storage.Left obstacle (.archive a) (.archive (a.ask f obstacle).archive) := by
  rw [ask_archive]
  exact .kept _

end Archive

namespace Workspace

/-- What the user is told when the storage did not do something. -/
def refusalNotice (action : String) : Notice :=
  ⟨s!"Could not {action}. Storage is unavailable.", .error⟩

section
variable {w : Workspace} {obstacle : Option Obstacle} {reason : String}

/-- A request that the storage refuses has no answer. The user is told so once, and nothing else
changes than the supply and what the request left of the storage. -/
theorem request_of_refusal {α : Type} (action : String)
    {f : Archive → Supply → Archive.Outcome α × Supply}
    (h : w.storage.refusal? w.supply f = some reason)
    (hleft : ∀ {a : Archive}, (f a w.supply).1.answer = .error (.unavailable reason) →
      Storage.Left obstacle (.archive a) (.archive (f a w.supply).1.archive)) :
    ∃ storage supply events,
      w.request action f = (.ok none, { w with storage, supply, events }) ∧
      w.storage.Left obstacle storage ∧
      { w with events }.notices = w.notices ++ [refusalNotice action] := by
  obtain ⟨_ | reason' | a, diagram, current, name, supply, events⟩ := w
  · cases h
  · obtain rfl : reason' = reason := Option.some.inj h
    refine ⟨.broken reason', supply, _, rfl, .kept _, ?_⟩
    exact (notices_notify _ _ _).trans (congrArg (· ++ _) (notices_warn _ _))
  · have hanswer : (f a supply).1.answer = .error (.unavailable reason) := by
      simp only [Storage.refusal?] at h
      split at h
      · next hanswer => rw [hanswer, Option.some.inj h]
      · cases h
    unfold request
    dsimp only
    rw [hanswer]
    refine ⟨.archive (f a supply).1.archive, (f a supply).2, _, rfl, hleft hanswer, ?_⟩
    refine (notices_notify _ _ _).trans (congrArg (· ++ _) ((notices_warn _ _).trans ?_))
    exact notices_record _ _

/-- A request that draws no identifier and that the storage refuses answers `other`. -/
theorem inquire_of_refusal {α : Type} (action : String) (other : α)
    {f : Archive → Archive.Outcome α}
    (h : w.storage.refusal? w.supply (fun a supply => (f a, supply)) = some reason)
    (hleft : ∀ {a : Archive}, (f a).answer = .error (.unavailable reason) →
      Storage.Left obstacle (.archive a) (.archive (f a).archive)) :
    ∃ storage supply events,
      w.inquire action other f = (.ok other, { w with storage, supply, events }) ∧
      w.storage.Left obstacle storage ∧
      { w with events }.notices = w.notices ++ [refusalNotice action] := by
  obtain ⟨storage, supply, events, hrequest, hstorage, htold⟩ := request_of_refusal action h hleft
  refine ⟨storage, supply, events, ?_, hstorage, htold⟩
  rw [inquire, hrequest]
  rfl

/-- To find the expression under which a diagram is saved makes known no more than entries in the
journal. -/
theorem savedExpression_ok {expression : String} {w' : Workspace}
    (h : w.savedExpression = .ok (expression, w')) : ∃ events, w' = { w with events } ∧
    w'.notices = w.notices := by
  unfold savedExpression at h
  dsimp only at h
  split at h
  · cases h
    exact ⟨_, rfl, notices_record _ _⟩
  · cases h
    exact ⟨_, rfl, (notices_warn _ _).trans (notices_record _ _)⟩
  · cases h

end

/-! ## Calls on the storage -/

/-- What may be asked of a workspace that its storage has to do with. -/
inductive StorageCall where
  | save (now : Moment) (name constraints : Datum)
  | reopen (id : Datum)
  | listing
  | discard (id : Datum)
  | constraintsOf (id : Datum)

namespace StorageCall

/-- What a call that meets an obstacle or none answers, and the workspace that it leaves. -/
def perform (w : Workspace) (obstacle : Option Obstacle) :
    StorageCall → Except Fault Datum × Workspace
  | save now name constraints => w.save now name constraints obstacle
  | reopen id => w.reopen id obstacle
  | listing =>
    let (answer, w) := w.listing obstacle
    (answer.map .list, w)
  | discard id =>
    let (answer, w) := w.discard id obstacle
    (answer.map .bool, w)
  | constraintsOf id =>
    let (answer, w) := w.constraintsOf id obstacle
    (answer.map .list, w)

/-- What a call asks the storage to do, in words. -/
def action : StorageCall → String
  | save .. => "save the equation"
  | reopen _ => "load the equation"
  | listing => "list saved equations"
  | discard _ => "delete the equation"
  | constraintsOf _ => "read constraints"

/-- The answer to a call that there is nothing. -/
def nothing : StorageCall → Datum
  | save .. | reopen _ => .null
  | listing | constraintsOf _ => .list []
  | discard _ => .bool false

/-- The name that a workspace takes over from a call before the storage is asked: the one under
which it is to be saved. -/
def name (w : Workspace) : StorageCall → Datum
  | save _ name _ => w.nameFor name
  | reopen _ | listing | discard _ | constraintsOf _ => w.name

/-- Why the storage is not available to a call, if the call asks it and it is not. -/
def refusal? (w : Workspace) (obstacle : Option Obstacle) : StorageCall → Option String
  | save now name constraints =>
    match { w with name := w.nameFor name }.savedExpression with
    | .error _ => none
    | .ok (expression, ready) => ready.storage.refusal? ready.supply fun a supply =>
        a.save supply now (ready.toRecord expression (ready.constraintsFor constraints)) obstacle
  | reopen id => w.storage.refusal? w.supply fun a supply => (a.load id obstacle, supply)
  | listing => w.storage.refusal? w.supply fun a supply => (a.list obstacle, supply)
  | discard id => w.storage.refusal? w.supply fun a supply => (a.remove id obstacle, supply)
  | constraintsOf id =>
    let id := if id.isTruthy then id else w.current
    if id.isGiven then
      w.storage.refusal? w.supply fun a supply => (a.constraintsOf id obstacle, supply)
    else none

section
variable {w : Workspace} {obstacle : Option Obstacle} {reason : String}

/-- What saving comes to when the storage refuses it. -/
theorem save_of_refusal {now : Moment} {name constraints : Datum}
    (h : (save now name constraints).refusal? w obstacle = some reason) :
    ∃ storage supply events, w.save now name constraints obstacle =
        (.ok .null, { w with name := w.nameFor name, storage, supply, events }) ∧
      w.storage.Left obstacle storage ∧
      { w with events }.notices = w.notices ++ [refusalNotice "save the equation"] := by
  rw [refusal?] at h
  split at h
  · cases h
  · next expression w₁ hexpression =>
    obtain ⟨events, rfl, htold⟩ := savedExpression_ok hexpression
    obtain ⟨storage, supply, events', hrequest, hstorage, htold'⟩ :=
      request_of_refusal "save the equation" h
        fun {a} hanswer => Archive.save_of_unavailable hanswer
    refine ⟨storage, supply, events', ?_, hstorage, htold'.trans (congrArg (· ++ _) htold)⟩
    unfold Workspace.save
    split
    · next hnone =>
      dsimp only at h
      rw [hnone] at h
      cases h
    · dsimp only
      rw [named_eq, hexpression]
      dsimp only
      dsimp only at hrequest
      rw [constraintsFor] at hrequest
      rw [hrequest]

/-- A call that the storage refuses answers that there is nothing, and the user is told so once.
Nothing else changes than the name, the supply and what is left of the storage. -/
theorem perform_of_refusal {c : StorageCall} (h : c.refusal? w obstacle = some reason) :
    ∃ storage supply events, c.perform w obstacle =
        (.ok c.nothing, { w with name := c.name w, storage, supply, events }) ∧
      w.storage.Left obstacle storage ∧
      { w with events }.notices = w.notices ++ [refusalNotice c.action] := by
  cases c with
  | save now name constraints => exact save_of_refusal h
  | reopen id =>
    obtain ⟨storage, supply, events, hrequest, hstorage, htold⟩ :=
      request_of_refusal "load the equation" h fun _ => Archive.left_ask _ _ obstacle
    refine ⟨storage, supply, events, ?_, hstorage, htold⟩
    rw [perform, Workspace.reopen, hrequest]
    rfl
  | listing =>
    obtain ⟨storage, supply, events, hinquire, hstorage, htold⟩ :=
      inquire_of_refusal "list saved equations" [] h fun _ => Archive.left_ask _ _ obstacle
    refine ⟨storage, supply, events, ?_, hstorage, htold⟩
    rw [perform, Workspace.listing, hinquire]
    rfl
  | discard id =>
    obtain ⟨storage, supply, events, hinquire, hstorage, htold⟩ :=
      inquire_of_refusal "delete the equation" false h Archive.remove_of_unavailable
    refine ⟨storage, supply, events, ?_, hstorage, htold⟩
    rw [perform, Workspace.discard, hinquire]
    rfl
  | constraintsOf id =>
    rw [refusal?] at h
    rw [perform, Workspace.constraintsOf]
    generalize (if id.isTruthy then id else w.current) = asked at h ⊢
    by_cases hgiven : asked.isGiven = true
    · rw [if_pos hgiven] at h ⊢
      obtain ⟨storage, supply, events, hinquire, hstorage, htold⟩ :=
        inquire_of_refusal "read constraints" [] h fun _ => Archive.left_ask _ _ obstacle
      refine ⟨storage, supply, events, ?_, hstorage, htold⟩
      rw [hinquire]
      rfl
    · rw [if_neg hgiven] at h
      cases h

end

end StorageCall

/-! ## Histories -/

/-- What may be done with a workspace. -/
inductive Deed where
  | edit (e : Edit)
  | renew
  | call (c : StorageCall)

/-- What a workspace answers. -/
inductive Reply where
  | edited (r : Edit.Reply)
  | renewed
  | called (d : Datum)

/-- What a deed that meets an obstacle or none answers, and the workspace that it leaves. -/
def Deed.perform (w : Workspace) (obstacle : Option Obstacle) :
    Deed → Except Fault Reply × Workspace
  | edit e =>
    let (diagram, supply) := e.apply (w.diagram, w.supply)
    ((e.reply (w.diagram, w.supply)).map .edited, { w with diagram, supply })
  | renew => (.ok .renewed, w.renew)
  | call c =>
    let (answer, w) := c.perform w obstacle
    (answer.map .called, w)

/-- A deed that is asked for, with what it may draw and the obstacle that it meets, if there is
one. -/
structure Turn where
  deed : Deed
  supply : Supply := {}
  obstacle : Option Obstacle := none

namespace Turn

/-- The workspace as a turn meets it. -/
def meets (t : Turn) (w : Workspace) : Workspace := { w with supply := t.supply, events := [] }

/-- What a turn answers. -/
def answer (t : Turn) (w : Workspace) : Except Fault Reply :=
  (t.deed.perform (t.meets w) t.obstacle).1

/-- What a turn makes known. -/
def events (t : Turn) (w : Workspace) : List Event :=
  (t.deed.perform (t.meets w) t.obstacle).2.events

/-- The workspace that a turn leaves. -/
def leaves (t : Turn) (w : Workspace) : Workspace :=
  let (_, done) := t.deed.perform (t.meets w) t.obstacle
  { done with supply := w.supply, events := w.events }

/-- Whether a turn is a call that the storage refuses. -/
def fails (t : Turn) (w : Workspace) : Bool :=
  match t.deed with
  | .call c => (c.refusal? (t.meets w) t.obstacle).isSome
  | .edit _ | .renew => false

/-- The writing of a file is stopped during a turn. -/
def Stops (t : Turn) (w : Workspace) : Prop :=
  (∃ bytes fault, t.obstacle = some (.writing bytes fault)) ∧
    ∃ a : Archive, w.storage = .archive a ∧ a.place.Open

/-- A turn is to save the diagram under another name. -/
def Renames (t : Turn) (w : Workspace) : Prop := ∃ c, t.deed = .call c ∧ c.name w ≠ w.name

/-- Whether a turn is to save the diagram under a given name. -/
def isNamed (t : Turn) : Bool :=
  match t.deed with
  | .call (.save _ name _) => name.isTruthy
  | _ => false

/-- Whether something stops the writing that a turn may have to do. -/
def isStopped (t : Turn) : Bool :=
  match t.obstacle with
  | some (.writing ..) => true
  | _ => false

/-- A turn whose writing nothing stops does not stop it. -/
theorem not_stops_of_isStopped {t : Turn} (h : t.isStopped = false) (w : Workspace) :
    ¬ t.Stops w := by
  rintro ⟨⟨bytes, fault, hobstacle⟩, -⟩
  rw [isStopped, hobstacle] at h
  cases h

/-- A turn without a given name keeps the name. -/
theorem not_renames_of_isNamed {t : Turn} (h : t.isNamed = false)
    (w : Workspace) : ¬ t.Renames w := by
  rintro ⟨c, hcall, hother⟩
  cases c with
  | save now name constraints =>
    rw [isNamed, hcall] at h
    exact hother (if_neg (Bool.not_eq_true _ ▸ h))
  | reopen | listing | discard | constraintsOf => exact hother rfl

end Turn

/-- A turn of a history, with the workspace that it met, what it answered and what it made known. -/
structure Episode where
  before : Workspace
  turn : Turn
  answer : Except Fault Reply
  events : List Event

namespace Episode

/-- Whether a turn was none that the storage refused. -/
def isServed (x : Episode) : Bool := !x.turn.fails x.before

/-- The turns that the storage did not refuse. -/
def kept (xs : List Episode) : List Turn := (xs.filter isServed).map turn

/-- A turn of which nothing remains but a name and a file that was cut off, if its writing was
stopped: a call that answers that there is nothing, of which the user is told once. -/
structure Idle (x : Episode) (c : StorageCall) : Prop where
  called : x.turn.deed = .call c
  answer : x.answer = .ok (.called c.nothing)
  told : { x.before with events := x.events }.notices = [refusalNotice c.action]
  left : ∃ storage, x.turn.leaves x.before = { x.before with name := c.name x.before, storage } ∧
    x.before.storage.Left x.turn.obstacle storage

end Episode

/-- The history of turns from a workspace on, and the workspace at its end. -/
def history (w : Workspace) : List Turn → List Episode × Workspace
  | [] => ([], w)
  | t :: ts => (⟨w, t, t.answer w, t.events w⟩ :: (history (t.leaves w) ts).1,
      (history (t.leaves w) ts).2)

section
variable {w : Workspace} {t : Turn}

/-- What remains of a turn that the storage refuses. -/
theorem idle_of_fails (h : t.fails w = true) :
    ∃ c, Episode.Idle ⟨w, t, t.answer w, t.events w⟩ c := by
  obtain ⟨deed, supply, obstacle⟩ := t
  cases deed with
  | edit e => cases h
  | renew => cases h
  | call c =>
    obtain ⟨reason, hreason⟩ := Option.isSome_iff_exists.1 h
    obtain ⟨storage, supply', events, hperform, hstorage, htold⟩ :=
      StorageCall.perform_of_refusal hreason
    refine ⟨c, rfl, ?_, ?_, storage, ?_, hstorage⟩
    · rw [Turn.answer, Deed.perform, hperform]
      rfl
    · rw [Turn.events, Deed.perform, hperform]
      exact htold
    · rw [Turn.leaves, Deed.perform, hperform]
      have hname : c.name (Turn.meets ⟨.call c, supply, obstacle⟩ w) = c.name w := by
        cases c <;> rfl
      rw [hname]
      rfl

/-- What remains, in a history from any workspace on, of the turns that the storage refused. -/
theorem idle_of_mem_history (ts : List Turn) :
    ∀ x ∈ (w.history ts).1, x.isServed = false → ∃ c, x.Idle c := by
  induction ts generalizing w with
  | nil => exact fun x hx => absurd hx List.not_mem_nil
  | cons t ts ih =>
    refine List.forall_mem_cons.2 ⟨fun hrefused => idle_of_fails ?_, ih⟩
    rwa [Episode.isServed, Bool.not_eq_false'] at hrefused

/-- Without the turns that the storage refused, none of which was to save under another name or was
stopped while it wrote, a history is told in the same way. -/
theorem history_kept (ts : List Turn)
    (hspared : ∀ x ∈ (w.history ts).1, x.isServed = false →
      ¬ x.turn.Renames x.before ∧ ¬ x.turn.Stops x.before) :
    w.history (Episode.kept (w.history ts).1) =
      ((w.history ts).1.filter Episode.isServed, (w.history ts).2) := by
  induction ts generalizing w with
  | nil => rfl
  | cons t ts ih =>
    obtain ⟨hfirst, hrest⟩ := List.forall_mem_cons.1 hspared
    have htail := ih hrest
    rw [Episode.kept] at htail
    rw [history, Episode.kept]
    cases hfails : t.fails w with
    | false =>
      have hserved : Episode.isServed ⟨w, t, t.answer w, t.events w⟩ = true := by
        rw [Episode.isServed, hfails]
        rfl
      rw [List.filter_cons_of_pos hserved, List.map_cons, history, htail]
    | true =>
      have hrefused : Episode.isServed ⟨w, t, t.answer w, t.events w⟩ = false := by
        rw [Episode.isServed, hfails]
        rfl
      obtain ⟨hnamed, hunstopped⟩ := hfirst hrefused
      obtain ⟨c, hidle⟩ := idle_of_fails hfails
      have hname : c.name w = w.name :=
        by_contra fun hother => hnamed ⟨c, hidle.called, hother⟩
      have hsame : t.leaves w = w := by
        obtain ⟨storage, hleaves, hstorage⟩ := hidle.left
        dsimp only at hleaves hstorage hunstopped
        rw [hleaves, hname]
        cases hbefore : w.storage with
        | none | broken =>
          rw [hbefore] at hstorage
          cases hstorage
          rw [← hbefore]
        | archive a =>
          rw [hbefore] at hstorage
          cases hstorage with
          | kept => rw [← hbefore]
          | cut opened stopped => exact absurd ⟨⟨_, _, stopped⟩, a, hbefore, opened⟩ hunstopped
      rw [List.filter_cons_of_neg (Bool.not_eq_true _ ▸ hrefused)]
      rw [hsame] at htail ⊢
      exact htail

end

/-! ## Outages -/

/-- Whatever the storage refuses in a history of a workspace, the call answers that there is
nothing, the user is told so once, and the workspace and the storage are left as they are but for
the name under which something was to be saved and a file whose writing was stopped. So the history
stays as it is when these calls are left out, as long as none of them was to save under another name
or was stopped while it wrote. -/
theorem history_spared (w : Workspace) (ts : List Turn) :
    (∀ x ∈ (w.history ts).1, x.isServed = false → ∃ c, x.Idle c) ∧
    ((∀ x ∈ (w.history ts).1, x.isServed = false →
        ¬ x.turn.Renames x.before ∧ ¬ x.turn.Stops x.before) →
      w.history (Episode.kept (w.history ts).1) =
        ((w.history ts).1.filter Episode.isServed, (w.history ts).2)) :=
  ⟨idle_of_mem_history ts, history_kept ts⟩

/-- A diagram is saved. Then the file cannot be written, nor read, and the diagram is saved again,
opened, listed, deleted and asked for its constraints. -/
theorem history_spared_outage :
    let w : Workspace := { storage := .archive { path := "equations.json" } }
    let now : Moment := ⟨"2024-05-01 12:00:00", .finite .zero⟩
    let id : Datum := .text "000000010000"
    let locked : Option Obstacle := some (.opening (.unavailable "permission denied"))
    let unread : Option Obstacle := some (.reading (.unavailable "input/output error"))
    let ts : List Turn := [
      { deed := .edit (.create (.text "number") .null .null) },
      { deed := .call (.save now (.text "Area") .null) },
      { deed := .call (.save now .null .null), obstacle := locked },
      { deed := .call (.reopen id), obstacle := unread },
      { deed := .call .listing, obstacle := unread },
      { deed := .call (.discard id), obstacle := locked },
      { deed := .call (.constraintsOf .null), obstacle := unread },
      { deed := .call (.discard id) }]
    (∀ x ∈ (w.history ts).1, x.isServed = false →
      ¬ x.turn.Renames x.before ∧ ¬ x.turn.Stops x.before) ∧
      (∀ x ∈ (w.history ts).1, x.isServed = false → ∃ c, x.Idle c) ∧
      w.history (Episode.kept (w.history ts).1) =
        ((w.history ts).1.filter Episode.isServed, (w.history ts).2) ∧
      (w.history ts).1.map Episode.isServed =
        [true, true, false, false, false, false, false, true] := by
  intro w now id locked unread ts
  have hplain : ∀ x ∈ (w.history ts).1, x.isServed = false →
      x.turn.isNamed = false ∧ x.turn.isStopped = false := by
    decide +kernel
  have hspared : ∀ x ∈ (w.history ts).1, x.isServed = false →
      ¬ x.turn.Renames x.before ∧ ¬ x.turn.Stops x.before := by
    intro x hx hrefused
    obtain ⟨hunnamed, hunstopped⟩ := hplain x hx hrefused
    exact ⟨Turn.not_renames_of_isNamed hunnamed x.before,
      Turn.not_stops_of_isStopped hunstopped x.before⟩
  exact ⟨hspared, (history_spared w ts).1, (history_spared w ts).2 hspared, by decide +kernel⟩

/-- A diagram that could not be saved under a name carries that name all the same, also when it is
saved again without one. If nobody had tried, it would be untitled. -/
theorem history_renames :
    let w : Workspace := { storage := .archive { path := "equations.json" } }
    let now : Moment := ⟨"2024-05-01 12:00:00", .finite .zero⟩
    let ts : List Turn := [
      { deed := .call (.save now (.text "Area") .null)
        obstacle := some (.opening (.unavailable "permission denied")) },
      { deed := .call (.save now .null .null) }]
    (w.history ts).1.map Episode.isServed = [false, true] ∧
      (w.history ts).2.name.equal (.text "Area") = true ∧
      (w.history (Episode.kept (w.history ts).1)).2.name.equal (.text untitled) = true ∧
      w.history (Episode.kept (w.history ts).1) ≠
        ((w.history ts).1.filter Episode.isServed, (w.history ts).2) := by
  intro w now ts
  have hleft : (w.history ts).2.name.equal (.text "Area") = true := by decide +kernel
  have hkept : (w.history (Episode.kept (w.history ts).1)).2.name.equal
      (.text untitled) = true := by
    decide +kernel
  refine ⟨by decide +kernel, hleft, hkept, fun he => ?_⟩
  rw [he] at hkept
  exact absurd hkept (by decide +kernel)

/-- When a diagram is saved again and the writing is stopped at once, nothing is saved any more. -/
theorem history_forgets :
    let w : Workspace := { storage := .archive { path := "equations.json" } }
    let now : Moment := ⟨"2024-05-01 12:00:00", .finite .zero⟩
    let ts : List Turn := [
      { deed := .call (.save now .null .null) },
      { deed := .call (.save now .null .null)
        obstacle := some (.writing 0 (.unavailable "no space left on device")) }]
    (w.history ts).1.map Episode.isServed = [true, false] ∧
      (w.history ts).2.listing.1.toOption.map List.length = some 0 ∧
      (w.history (Episode.kept (w.history ts).1)).2.listing.1.toOption.map List.length =
        some 1 := by
  decide +kernel

end Workspace

end EquationStudio
