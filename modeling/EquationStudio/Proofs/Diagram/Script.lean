import EquationStudio.Proofs.Diagram.Step

/-!
# Edits, write by write

The library answers an edit with a new diagram or with a fault, so it cannot show what a fault in
the middle of an edit would leave behind. A `Script` can: it is a sequence of reads and of single
writes, and a fault ends it with all that has been written by then. `Edit.script` carries out every
edit in this way, one table entry or one field of a node at a time, and an entry that is deleted
must be there.
-/

namespace EquationStudio

/-- Reads and single writes one after another. A fault ends them and leaves what has been
written. -/
abbrev Script (β : Type) := ExceptT Fault (StateM (Diagram × Supply)) β

namespace Script

variable {α β γ : Type}

/-- A read of the diagram, which may be refused. -/
def ask (f : Diagram → Except Fault β) : Script β := fun s => (f s.1, s)

/-- A single write. -/
def write (f : Diagram → Diagram) : Script Unit := fun s => (.ok (), (f s.1, s.2))

/-- A read that draws from the supply of identifiers. -/
def draw (f : Supply → Except Fault β × Supply) : Script β := fun s => ((f s.2).1, (s.1, (f s.2).2))

/-- Deletes the entry of a table under a key; one that is not there is missed. -/
def delete (table : Diagram → Table α) (put : Diagram → Table α → Diagram) (id : Identity) :
    Script Unit := do
  ask fun g =>
    if (table g).contains id.key then .ok ()
    else do .error (.datum (.missingKey (← id.datum.display)))
  write fun g => put g ((table g).erase id.key)

variable {s : Diagram × Supply}

/-- A read is followed by what depends on its answer, or refused. -/
@[simp] theorem ask_bind (f : Diagram → Except Fault β) (k : β → Script γ) :
    (ask f >>= k) s = match f s.1 with
      | .ok b => k b s
      | .error fault => (.error fault, s) := by
  change ExceptT.bindCont k (f s.1) s = _
  cases f s.1 <;> rfl

/-- A write is followed by what depends on the diagram that it leaves. -/
@[simp] theorem write_bind (f : Diagram → Diagram) (k : Unit → Script γ) :
    (write f >>= k) s = k () (f s.1, s.2) := rfl

/-- What is drawn is followed by what depends on it, or refused. -/
@[simp] theorem draw_bind (f : Supply → Except Fault β × Supply) (k : β → Script γ) :
    (draw f >>= k) s = match f s.2 with
      | (.ok b, supply) => k b (s.1, supply)
      | (.error fault, supply) => (.error fault, (s.1, supply)) := by
  change ExceptT.bindCont k (f s.2).1 (s.1, (f s.2).2) = _
  rcases f s.2 with ⟨_ | _, _⟩ <;> rfl

/-- What follows a script that ends without a fault. -/
theorem bind_of_ok {m : Script β} {k : β → Script γ} {b : β} {s' : Diagram × Supply}
    (h : m s = (.ok b, s')) : (m >>= k) s = k b s' := by
  change ExceptT.bindCont k (m s).1 (m s).2 = _
  rw [h]
  rfl

/-- A write alone. -/
@[simp] theorem write_apply (f : Diagram → Diagram) : write f s = (.ok (), (f s.1, s.2)) := rfl

/-- An entry that is there is deleted. -/
theorem delete_apply {table : Diagram → Table α} {put : Diagram → Table α → Diagram} {id : Identity}
    (h : (table s.1).get? id.key ≠ none) :
    delete table put id s = (.ok (), (put s.1 ((table s.1).erase id.key), s.2)) := by
  have hc : (table s.1).contains id.key = true := by
    rw [Table.contains_eq_isSome, Option.isSome_iff_ne_none]
    exact h
  rw [delete, ask_bind, if_pos hc]
  rfl

/-- Writes for the members of a list, one after another. -/
theorem forM_write (f : β → Diagram → Diagram) : ∀ (bs : List β) (s : Diagram × Supply),
    (forM bs fun b => write (f b)) s = (.ok (), (bs.foldl (fun g b => f b g) s.1, s.2))
  | [], _ => rfl
  | b :: bs, s => by
    rw [List.forM_cons, write_bind, forM_write f bs]
    rfl

/-! ## The edits -/

/-- Creates a node under an identity: the node is entered, then each of its ports. -/
def createAs (kind position : Datum) (id : Identity) : Script Unit := do
  let n ← ask fun _ => do Node.make (← NodeKind.ofDatum kind) id position
  write fun g => { g with nodes := g.nodes.insert n.id.key n }
  forM n.ports fun p => write fun g => { g with ports := g.ports.insert (.text p.id) p }

/-- Creates a node. A number is used up before the node is made. -/
def create (kind position id : Datum) : Script Unit := do
  match ← ask (·.requestedId id) with
  | some id => createAs kind position id
  | none =>
    let id ← ask fun g => .ok g.freshNodeId.1
    write fun g => { g with nextNode := g.freshNodeId.2 }
    createAs kind position id

/-- Writes to a node. -/
def writeNode (n : Node) : Script Unit := write fun g => (g.replaceNode n).2

/-- Sets the value of a number node, then its label. -/
def setValue (id value : Datum) : Script Unit := do
  let n ← ask (·.requireNode id)
  match n.content with
  | .number _ =>
    let v ← ask fun _ => Number.ofDatum value
    ask (·.constraints.check id v.toDatum)
    writeNode { n with content := .number v }
    let label ← ask fun _ => v.toDatum.literal
    writeNode { n with content := .number v, label }
  | _ => throw (.schema (.carriesNoValue n.kind.name))

/-- Sets the name of a variable node, then its label. -/
def setVariable (id name : Datum) : Script Unit := do
  let n ← ask (·.requireNode id)
  match n.content with
  | .symbol _ =>
    let name ← ask fun _ => readVariable name
    writeNode { n with content := .symbol name }
    writeNode { n with content := .symbol name, label := name }
  | _ => throw (.schema (.carriesNoSymbol n.kind.name))

/-- Sets the label of a node. -/
def setLabel (id label : Datum) : Script Unit := do
  let n ← ask (·.requireNode id)
  match label with
  | .text s =>
    if isBlankText s then throw (.schema .labelEmpty)
    else writeNode { n with label := trimBlank s }
  | _ => throw (.schema .labelEmpty)

/-- Moves a node. -/
def move (id position : Datum) : Script Unit := do
  let n ← ask (·.requireNode id)
  let position ← ask fun _ => Position.ofDatum position
  writeNode { n with position }

end Script

/-- What is asked before a constraint is attached. -/
def Registry.accept (r : Registry) (target : Identity) (c : Constraint) : Except Fault Unit := do
  let existing := r.constraintsAt target.key
  if existing.any (·.id.equal c.id) then
    .error (.schema (.constraintIdTaken (← c.id.plain)))
  else
    let kinds ← conflictsWith c existing
    if kinds.isEmpty then return ()
    else .error (.conflict (← target.datum.plain) (kinds.map ConflictKind.name))

/-- A target is kept, without constraints if it is new. -/
def Registry.keep (r : Registry) (target : Identity) : Registry :=
  if r.table.contains target.key then r else ⟨r.table.insert target.key ⟨target, []⟩⟩

/-- A constraint goes to the end of those of a target that is kept. -/
def Registry.append (r : Registry) (key : Key) (c : Constraint) : Registry :=
  match r.table.get? key with
  | some a => ⟨r.table.insert key ⟨a.target, a.constraints ++ [c]⟩⟩
  | none => r

namespace Script

/-- Attaches a constraint: its target is kept, then the constraint is entered. -/
def attach (id : Datum) (c : Constraint) : Script Unit := do
  ask (·.requireConstrainable id)
  let target ← ask fun _ => Identity.ofDatum id
  ask (·.constraints.accept target c)
  write fun g => { g with constraints := g.constraints.keep target }
  write fun g => { g with constraints := g.constraints.append target.key c }

/-- Attaches a constraint that is given as a record. -/
def addConstraint (id record : Datum) : Script Unit := do
  ask (·.requireConstrainable id)
  match record with
  | .record _ => attach id (← draw (Constraint.ofRecord · record))
  | _ => throw (.schema .notConstraint)

/-- Detaches a constraint, then deletes a target that is left without any. -/
def removeConstraint (id constraint : Datum) : Script Unit := do
  let target ← ask fun _ => Identity.ofDatum id
  match ← ask fun g => .ok (g.constraints.table.get? target.key) with
  | none => pure ()
  | some attached =>
    let kept := attached.constraints.eraseP (·.id.equal constraint)
    if kept.length = attached.constraints.length then pure ()
    else
      write fun g => { g with
        constraints := ⟨g.constraints.table.insert target.key ⟨attached.target, kept⟩⟩ }
      if kept.isEmpty then
        delete (·.constraints.table) (fun g table => { g with constraints := ⟨table⟩ }) target

/-- Deletes a connection, then what the port at its target is fed by. -/
def dropConnection (c : Connection) : Script Unit := do
  delete (·.connections) (fun g connections => { g with connections }) c.id
  if ← ask fun g => .ok ((g.feeds.get? (.text c.target)).any (·.datum.equal c.id.datum)) then
    delete (·.feeds) (fun g feeds => { g with feeds }) (.ofText c.target)

/-- Removes a connection, if there is one with the given identity. -/
def removeConnection (id : Datum) : Script Unit := do
  let key ← ask fun _ => id.key
  match ← ask fun g => .ok (g.connections.get? key) with
  | some c => dropConnection c
  | none => pure ()

end Script

/-- The connections at the ports of a node. -/
def Diagram.touching (g : Diagram) (n : Node) : List Connection :=
  let ids := n.ports.map Port.id
  g.connections.values.filter fun c => ids.contains c.source || ids.contains c.target

namespace Script

/-- Removes a node that was found by a datum: the connections at its ports one after another, its
ports, its constraints, and the node itself. -/
def dropNode (id : Datum) (n : Node) : Script Unit := do
  forM (← ask fun g => .ok (g.touching n)) dropConnection
  forM (n.ports.map Port.id) fun id => write fun g => { g with ports := g.ports.erase (.text id) }
  let constraints ← ask (·.constraints.clear id)
  write fun g => { g with constraints }
  delete (·.nodes) (fun g nodes => { g with nodes }) (← ask fun _ => Identity.ofDatum id)

/-- Removes a node, if there is one with the given identity. -/
def removeNode (id : Datum) : Script Unit := do
  match ← ask (·.node? id) with
  | some n => dropNode id n
  | none => pure ()

/-- Adds a connection, then what the port at its target is fed by. A number is used up before. -/
def addConnection (source target id : Datum) : Script Unit := do
  let (out, into) ← ask (·.checkWire source target)
  let (id, numbered) ← ask (·.connectionId id)
  write fun g => { g with nextConnection := numbered.nextConnection }
  let c : Connection := ⟨id, out.id, into.id⟩
  write fun g => { g with connections := g.connections.insert c.id.key c }
  write fun g => { g with feeds := g.feeds.insert (.text c.target) c.id }

/-- Wires the output of one node to an input of another. -/
def connect (source target index : Datum) : Script Unit := do
  let start ← ask (·.requireNode source)
  let into ← ask (·.requireNode target)
  match start.outputs with
  | [] => ask fun _ => do .error (.wiring (.noOutput (← source.plain)))
  | out :: _ =>
    let port ← ask fun _ => Diagram.inputAt into target index
    addConnection (.text out.id) (.text port.id) .null

/-- Removes everything, one table after another. -/
def clear : Script Unit := do
  write fun g => { g with nodes := .empty }
  write fun g => { g with connections := .empty }
  write fun g => { g with ports := .empty }
  write fun g => { g with feeds := .empty }
  write fun g => { g with constraints := {} }

end Script

namespace Edit

/-- The script of an edit. -/
def script : Edit → Script Unit
  | create kind position id => Script.create kind position id
  | setValue id value => Script.setValue id value
  | setVariable id name => Script.setVariable id name
  | setLabel id label => Script.setLabel id label
  | move id position => Script.move id position
  | addConstraint id record => Script.addConstraint id record
  | attach id c => Script.attach id c
  | removeConstraint id constraint => Script.removeConstraint id constraint
  | removeNode id => Script.removeNode id
  | addConnection source target id => Script.addConnection source target id
  | connect source target index => Script.connect source target index
  | removeConnection id => Script.removeConnection id
  | clear => Script.clear

/-- Whether the library carries an edit out, and the fault with which it refuses it. -/
def outcome (s : Diagram × Supply) : Edit → Except Fault Unit
  | create kind position id => (s.1.create kind position id).1.map fun _ => ()
  | setValue id value => (s.1.setValue id value).map fun _ => ()
  | setVariable id name => (s.1.setVariable id name).map fun _ => ()
  | setLabel id label => (s.1.setLabel id label).map fun _ => ()
  | move id position => (s.1.move id position).map fun _ => ()
  | addConstraint id record => (s.1.addConstraint s.2 id record).1.map fun _ => ()
  | attach id c => (s.1.attach id c).map fun _ => ()
  | removeConstraint id constraint => (s.1.removeConstraint id constraint).map fun _ => ()
  | removeNode id => (s.1.removeNode id).map fun _ => ()
  | addConnection source target id => (s.1.addConnection source target id).map fun _ => ()
  | connect source target index => (s.1.connect source target index).map fun _ => ()
  | removeConnection id => (s.1.removeConnection id).map fun _ => ()
  | clear => .ok ()

end Edit

end EquationStudio
