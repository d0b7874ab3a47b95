import EquationStudio.Proofs.Diagram.Atomic

/-!
# Histories without their refused edits

A history tells what diagram each edit of a run met and what it answered. Edits are carried out
write by write, so a refused one could leave something behind that a later one shows, in a table or
in the numbers of automatic identities. `Edit.apply_of_error` says that no more is left behind than
a number, and only by the creation of a node whose identity is to be numbered. So a history stays as
it is when its refused edits are left out, unless one of them is such a creation, and after one of
those the next node without a given identity gets another one (`Diagram.history_omits`).

What an edit draws from the supply of identifiers belongs to that edit: it goes when the edit is
left out.
-/

namespace EquationStudio

namespace Edit

/-! ## Answers -/

/-- What an edit answers when it is carried out. -/
inductive Reply where
  | node (n : Node)
  | connection (c : Connection)
  | constraint (c : Constraint)
  | found (removed : Bool)
  | done

/-- What an edit answers. -/
def reply (s : Diagram × Supply) : Edit → Except Fault Reply
  | create kind position id => (s.1.create kind position id).1.map .node
  | setValue id value => (s.1.setValue id value).map (.node ·.1)
  | setVariable id name => (s.1.setVariable id name).map (.node ·.1)
  | setLabel id label => (s.1.setLabel id label).map (.node ·.1)
  | move id position => (s.1.move id position).map (.node ·.1)
  | addConstraint id record => (s.1.addConstraint s.2 id record).1.map (.constraint ·.1)
  | attach id c => (s.1.attach id c).map (.constraint ·.1)
  | removeConstraint id constraint => (s.1.removeConstraint id constraint).map (.found ·.1)
  | removeNode id => (s.1.removeNode id).map fun _ => .done
  | addConnection source target id => (s.1.addConnection source target id).map (.connection ·.1)
  | connect source target index => (s.1.connect source target index).map (.connection ·.1)
  | removeConnection id => (s.1.removeConnection id).map fun _ => .done
  | clear => .ok .done

/-- An edit answers something exactly if it is carried out. -/
theorem map_reply (s : Diagram × Supply) (e : Edit) :
    (e.reply s).map (fun _ => ()) = e.outcome s := by
  have hmap : ∀ {β γ : Type} (x : Except Fault β) (f : β → γ),
      (x.map f).map (fun _ => ()) = x.map fun _ => () := by
    intro β γ x f
    cases x <;> rfl
  cases e with
  | clear => rfl
  | create | setValue | setVariable | setLabel | move | addConstraint | attach | removeConstraint
  | removeNode | addConnection | connect | removeConnection => exact hmap _ _

end Edit

/-! ## Histories -/

/-- An edit that is asked for, with what it may draw. -/
structure Turn where
  edit : Edit
  supply : Supply := {}

/-- What a turn answers. -/
def Turn.reply (t : Turn) (g : Diagram) : Except Fault Edit.Reply := t.edit.reply (g, t.supply)

/-- The diagram that a turn leaves, with all that has been written. -/
def Turn.leaves (t : Turn) (g : Diagram) : Diagram := (t.edit.script (g, t.supply)).2.1

/-- A turn of a history, with the diagram that it met and what it answered. -/
structure Episode where
  before : Diagram
  turn : Turn
  reply : Except Fault Edit.Reply

namespace Episode

/-- Whether a turn was carried out. -/
def isDone (x : Episode) : Bool := x.reply.isOk

/-- Whether a turn used up a number for the identity of a node, carried out or refused. -/
def usesNumber (x : Episode) : Bool := x.turn.edit.usesNumber x.before

/-- The turns that were carried out. -/
def kept (xs : List Episode) : List Turn := (xs.filter isDone).map turn

end Episode

namespace Diagram

/-- The history of turns from a diagram on, and the diagram at its end. -/
def history (g : Diagram) : List Turn → List Episode × Diagram
  | [] => ([], g)
  | t :: ts => (⟨g, t, t.reply g⟩ :: (history (t.leaves g) ts).1, (history (t.leaves g) ts).2)

section
variable {g : Diagram} {t : Turn}

/-- A turn leaves what its edit makes of the diagram. -/
theorem Keyed.leaves_eq (h : g.Keyed) (t : Turn) : t.leaves g = (t.edit.apply (g, t.supply)).1 := by
  rw [Turn.leaves, Edit.script_eq h]

/-- A refused turn leaves the diagram as it is, but for a number that is used up. -/
theorem Keyed.leaves_of_refused (h : g.Keyed) (hrefused : (t.reply g).isOk = false) :
    t.leaves g = if t.edit.usesNumber g then { g with nextNode := g.freshNodeId.2 } else g := by
  rw [h.leaves_eq]
  cases hreply : t.reply g with
  | ok _ => rw [hreply] at hrefused; cases hrefused
  | error fault =>
    have houtcome : t.edit.outcome (g, t.supply) = .error fault := by
      rw [← Edit.map_reply]
      exact congrArg (Except.map fun _ => ()) hreply
    exact Edit.apply_of_error houtcome

/-- The turns of a history meet keyed diagrams. -/
theorem Keyed.history (h : g.Keyed) (ts : List Turn) : ∀ x ∈ (g.history ts).1, x.before.Keyed ∧
    x.reply = x.turn.reply x.before := by
  induction ts generalizing g with
  | nil => exact fun x hx => absurd hx List.not_mem_nil
  | cons t ts ih =>
    have hnext : (t.leaves g).Keyed := h.leaves_eq t ▸ h.apply t.edit
    exact List.forall_mem_cons.2 ⟨⟨h, rfl⟩, ih hnext⟩

/-- Without its refused turns, none of which uses up a number, a history from a keyed diagram on is
told in the same way. -/
theorem Keyed.history_kept (h : g.Keyed) (ts : List Turn)
    (hnumbers : ∀ x ∈ (g.history ts).1, x.isDone = false → x.usesNumber = false) :
    g.history (Episode.kept (g.history ts).1) =
      ((g.history ts).1.filter Episode.isDone, (g.history ts).2) := by
  induction ts generalizing g with
  | nil => rfl
  | cons t ts ih =>
    obtain ⟨hfirst, hrest⟩ := List.forall_mem_cons.1 hnumbers
    have hnext : (t.leaves g).Keyed := h.leaves_eq t ▸ h.apply t.edit
    have htail := ih hnext hrest
    rw [Diagram.history]
    cases hdone : (t.reply g).isOk with
    | true =>
      have hd : Episode.isDone ⟨g, t, t.reply g⟩ = true := hdone
      rw [Episode.kept, List.filter_cons_of_pos hd, List.map_cons, Diagram.history]
      rw [Episode.kept] at htail
      rw [htail]
    | false =>
      have hd : ¬ Episode.isDone ⟨g, t, t.reply g⟩ = true := by rw [Episode.isDone, hdone]; nofun
      have hsame : t.leaves g = g := by
        rw [h.leaves_of_refused hdone, if_neg]
        rw [show t.edit.usesNumber g = false from hfirst hdone]
        nofun
      rw [Episode.kept, List.filter_cons_of_neg hd]
      rw [hsame] at htail ⊢
      exact htail

end

/-! ## Numbers used up -/

/-- Once a number is used up, another identity is found. -/
theorem freshNodeId_ne (g : Diagram) :
    ({ g with nextNode := g.freshNodeId.2 } : Diagram).freshNodeId.1 ≠ g.freshNodeId.1 := by
  obtain ⟨j, -, hj, -⟩ := freshId_eq "n" g.nodes.contains g.nodes.size g.nextNode
  obtain ⟨k, hk, hk', -⟩ := freshId_eq "n" g.nodes.contains g.nodes.size (j + 1)
  intro he
  simp only [freshNodeId, hj, hk'] at he
  have hjk : k = j := append_toString_inj (Key.text.inj (congrArg Identity.key he))
  omega

/-- A node without a given identity is created under the one that is found. -/
theorem id_of_create {g : Diagram} {kind position : Datum} {n : Node}
    (h : (g.create kind position .null).1 = .ok n) : n.id = g.freshNodeId.1 := by
  have hasked : g.requestedId .null = .ok none := rfl
  simp only [create, hasked, createAs] at h
  split at h
  · cases h
  · next m hm =>
    cases h
    obtain ⟨k, -, hm⟩ := ok_of_bind hm
    exact (Node.make_ok hm).1

/-! ## Runs -/

/-- A history stays as it is when its refused edits are left out: the turns that are left meet the
same diagrams and answer the same, and the diagram at the end is the same, as long as no refused
edit is the creation of a node whose identity is to be numbered. Such a creation leaves all tables
as they are, but the next node without a given identity gets another one than it would have. -/
theorem history_omits (ts : List Turn) :
    ((∀ x ∈ (history {} ts).1, x.isDone = false → x.usesNumber = false) →
      history {} (Episode.kept (history {} ts).1) =
        ((history {} ts).1.filter Episode.isDone, (history {} ts).2)) ∧
    ∀ x ∈ (history {} ts).1, x.isDone = false → x.usesNumber = true →
      (x.turn.leaves x.before).SameTables x.before ∧
        ∀ kind position n m, ((x.turn.leaves x.before).create kind position .null).1 = .ok n →
          (x.before.create kind position .null).1 = .ok m → n.id ≠ m.id := by
  have hkeyed : ({} : Diagram).Keyed := .empty 1 1
  refine ⟨hkeyed.history_kept ts, fun x hx hrefused huses => ?_⟩
  obtain ⟨hbefore, hreply⟩ := hkeyed.history ts x hx
  rw [Episode.isDone, hreply] at hrefused
  rw [Episode.usesNumber] at huses
  rw [hbefore.leaves_of_refused hrefused, if_pos huses]
  refine ⟨.nextNode _ _, fun kind position n m hn hm => ?_⟩
  rw [id_of_create hn, id_of_create hm]
  exact freshNodeId_ne _

/-- A run in which a node is refused for its identity, a value for its node, and a connection for
its target, each between edits that number identities; and one in which a node of an unknown kind is
refused. -/
theorem history_omits_taken :
    let ts : List Turn := [
      { edit := .create (.text "number") .null (.text "n1") },
      { edit := .create (.text "output") .null (.text "n1") },
      { edit := .create (.text "output") .null .null }, { edit := .setValue (.text "n2") (.int 3) },
      { edit := .connect (.text "n1") (.text "n2") (.int 0) },
      { edit := .connect (.text "n1") (.text "n2") (.int 0) },
      { edit := .attach (.text "n2") ⟨.text "prime", true, .prime, {}, .prime, rfl⟩ },
      { edit := .create (.text "add") .null .null },
      { edit := .connect (.text "n1") (.text "n3") (.int 1) }]
    let us : List Turn := [{ edit := .create (.text "sin") .null .null }]
    (∀ x ∈ (history {} ts).1, x.isDone = false → x.usesNumber = false) ∧
      history {} (Episode.kept (history {} ts).1) =
        ((history {} ts).1.filter Episode.isDone, (history {} ts).2) ∧
      (history {} ts).1.map Episode.isDone = [true, false, true, false, true, false,
      false, true, true] ∧
      (history {} ts).2.connections.values.map (·.id.key) = [.text "c1", .text "c2"] ∧
      ∀ x ∈ (history {} us).1, x.isDone = false ∧ x.usesNumber = true ∧
        (x.turn.leaves x.before).SameTables x.before := by
  intro ts us
  have hnumbers : ∀ x ∈ (history {} ts).1, x.isDone = false → x.usesNumber = false := by
    decide +kernel
  have hrefused : ∀ x ∈ (history {} us).1, x.isDone = false ∧ x.usesNumber = true := by
    decide +kernel
  refine ⟨hnumbers, (history_omits ts).1 hnumbers, by decide +kernel,
    by decide +kernel, fun x hx => ?_⟩
  obtain ⟨hdone, huses⟩ := hrefused x hx
  exact ⟨hdone, huses, ((history_omits us).2 x hx hdone huses).1⟩

/-- A node of an unknown kind is refused, and the number one node is given the number two. -/
theorem history_numbers :
    let ts : List Turn := [
      { edit := .create (.text "sin") .null .null },
      { edit := .create (.text "number") .null .null }]
    (history {} ts).1.map Episode.isDone = [false, true] ∧
      (history {} ts).2.nodes.values.map Node.ident = ["n2"] ∧
      (history {} (Episode.kept (history {} ts).1)).2.nodes.values.map Node.ident = ["n1"] ∧
      history {} (Episode.kept (history {} ts).1) ≠
        ((history {} ts).1.filter Episode.isDone, (history {} ts).2) := by
  intro ts
  have hshown : (history {} ts).2.nodes.values.map Node.ident = ["n2"] := by decide +kernel
  have hkept : (history {} (Episode.kept (history {} ts).1)).2.nodes.values.map
      Node.ident = ["n1"] := by
    decide +kernel
  refine ⟨by decide +kernel, hshown, hkept, fun he => ?_⟩
  rw [he, hshown] at hkept
  exact absurd hkept (by decide)

end Diagram

end EquationStudio
