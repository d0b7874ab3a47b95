import EquationStudio.Proofs.Constraint.Conflict
import EquationStudio.Proofs.Constraint.Record
import EquationStudio.Proofs.Constraint.Registry
import EquationStudio.Proofs.Fields
import EquationStudio.Workspace

/-!
# Why a diagram cannot be rebuilt

A record from outside may hold data of any kind at any place. Most faults in rebuilding a diagram
tell that the record is damaged (`Fault.isDamage`). Two kinds do not. What should be the record of
the diagram may be no mapping at all, and then it is not even searched for nodes. And a coordinate,
or a number that a constraint is stated with, may be an integer larger than every double. So every
other fault tells of damage, and every fault does if the integers of the record have doubles
(`Diagram.fault_of_ofRecord`).

What one function of the editor may refuse is said once, by the fault and by what must have been in
the data for it (`Fault.Tells`).
-/

namespace EquationStudio

/-! ## Data whose integers have doubles -/

namespace Datum

mutual

/-- Each integer in a datum has a double. -/
def Ranged : Datum → Prop
  | int n => (FiniteDouble.ofInt? n).isSome = true
  | list items => RangedItems items
  | record fields => RangedFields fields
  | null | bool _ | float _ | text _ => True

/-- Each integer in the members has a double. -/
def RangedItems : List Datum → Prop
  | [] => True
  | x :: xs => x.Ranged ∧ RangedItems xs

/-- Each integer in the values of the fields has a double. -/
def RangedFields : List (String × Datum) → Prop
  | [] => True
  | (_, x) :: fs => x.Ranged ∧ RangedFields fs

end

/-- The integers in a list are those in its members. -/
theorem ranged_list {items : List Datum} : (list items).Ranged ↔ ∀ x ∈ items, x.Ranged := by
  rw [Ranged]
  induction items with
  | nil => simp [RangedItems]
  | cons x xs ih => simp [RangedItems, ih]

/-- The integers in a record are those in the values of its fields. -/
theorem ranged_record {fields : Fields} : (record fields).Ranged ↔ ∀ f ∈ fields, f.2.Ranged := by
  rw [Ranged]
  induction fields with
  | nil => simp [RangedFields]
  | cons f fs ih => simp [RangedFields, ih]

/-- What a field is taken for has doubles, if the record does and what it defaults to. -/
theorem Ranged.getD {fields : Fields} (h : (record fields).Ranged) (key : String) {other : Datum}
    (hother : other.Ranged) : ((Fields.get? fields key).getD other).Ranged := by
  cases hfound : Fields.get? fields key with
  | none => exact hother
  | some d => exact ranged_record.1 h _ (Fields.mem_of_get? hfound)

/-- The members that a datum goes through have doubles if it does. -/
theorem Ranged.members {d : Datum} (h : d.Ranged) {items : List Datum}
    (hitems : d.members = .ok items) : ∀ x ∈ items, x.Ranged := by
  cases d with
  | list xs => cases hitems; exact ranged_list.1 h
  | text s =>
    cases hitems
    rintro x hx
    obtain ⟨c, -, rfl⟩ := List.mem_map.1 hx
    trivial
  | record fields =>
    cases hitems
    rintro x hx
    obtain ⟨f, -, rfl⟩ := List.mem_map.1 hx
    trivial
  | null | bool | int | float => cases hitems

end Datum

/-! ## What a fault tells -/

/-- A fault tells of damage or of an integer without a double, and of none of those where `R` says
that each has one. -/
def Fault.Tells (R : Prop) (fault : Fault) : Prop :=
  fault.isDamage = true ∨ fault = .datum .tooLargeForDouble ∧ ¬R

/-- What is told of a part is told of the whole. -/
theorem Fault.Tells.mono {R R' : Prop} {fault : Fault} (h : fault.Tells R)
    (hR : R' → R) : fault.Tells R' :=
  h.imp_right fun ⟨hlarge, hnot⟩ => ⟨hlarge, fun h' => hnot (hR h')⟩

variable {R : Prop} {fault : Fault} {d id kind name label position record target source : Datum}
  {g g' : Diagram} {n : Node}

/-- An integer is not written only if it has too many digits. -/
theorem fault_of_integerText {n : Int} (h : integerText n = .error fault) :
    fault = .datum .tooManyDigits := by
  unfold integerText at h
  split at h
  · cases h
  · exact (Except.error.inj h).symm

namespace Datum

mutual

/-- A datum is not displayed only for an integer with too many digits. -/
theorem fault_of_display : ∀ {d : Datum}, d.display = .error fault → fault = .datum .tooManyDigits
  | null | bool _ | float _ | text _ => nofun
  | int n => by
    rw [display]
    exact fault_of_integerText
  | list items => by
    rw [display]
    intro h
    obtain h | ⟨_, -, h⟩ := error_of_bind h
    · exact fault_of_displayItems h
    · cases h
  | record fields => by
    rw [display]
    intro h
    obtain h | ⟨_, -, h⟩ := error_of_bind h
    · exact fault_of_displayFields h
    · cases h

/-- Members are not displayed only for an integer with too many digits. -/
theorem fault_of_displayItems : ∀ {items : List Datum}, displayItems items = .error fault →
    fault = .datum .tooManyDigits
  | [] => nofun
  | x :: xs => by
    rw [displayItems]
    intro h
    obtain h | ⟨_, -, h⟩ := error_of_bind h
    · exact fault_of_display h
    · obtain h | ⟨_, -, h⟩ := error_of_bind h
      · exact fault_of_displayItems h
      · cases h

/-- Fields are not displayed only for an integer with too many digits. -/
theorem fault_of_displayFields : ∀ {fields : Fields}, displayFields fields = .error fault →
    fault = .datum .tooManyDigits
  | [] => nofun
  | (key, x) :: fs => by
    rw [displayFields]
    intro h
    obtain h | ⟨_, -, h⟩ := error_of_bind h
    · exact fault_of_display h
    · obtain h | ⟨_, -, h⟩ := error_of_bind h
      · exact fault_of_displayFields h
      · cases h

end

/-- A datum that is not put into words tells of damage. -/
theorem fault_of_plain (h : d.plain = .error fault) : fault.isDamage = true := by
  unfold plain at h
  split at h
  · cases h
  · rw [fault_of_display h]; rfl

/-- A datum that is no key tells of damage. -/
theorem fault_of_key (h : d.key = .error fault) : fault.isDamage = true := by
  cases d with
  | list | record => cases h; rfl
  | null | bool | int | float | text => cases h

/-- A datum without members tells of damage. -/
theorem fault_of_members (h : d.members = .error fault) : fault.isDamage = true := by
  cases d with
  | null | bool | int | float => cases h; rfl
  | text | list | record => cases h

/-- A field that must be there and is not tells of damage. -/
theorem fault_of_field {key : String} (h : d.field key = .error fault) : fault.isDamage = true := by
  unfold field at h
  split at h
  · split at h <;> cases h
    rfl
  · cases h; rfl

/-- What has a field that must be there is a record. -/
theorem eq_record_of_field {key : String} {x : Datum} (h : d.field key = .ok x) :
    ∃ fields, d = .record fields := by
  cases d with
  | record fields => exact ⟨fields, rfl⟩
  | null | bool | int | float | text | list => cases h

/-- A datum that gives no coordinate. -/
theorem fault_of_toDouble (h : d.toDouble = .error fault) : fault.Tells d.Ranged := by
  unfold toDouble at h
  -- what an integer is converted to is not looked into
  obtain ⟨convert, hconvert⟩ : ∃ convert, Double.ofInt = convert := ⟨_, rfl⟩
  rw [hconvert] at h
  cases d with
  | int n =>
    dsimp only at h
    cases hx : convert n with
    | finite x => rw [hx] at h; cases h
    | infinite | nan =>
      rw [hx] at h
      refine .inr ⟨(Except.error.inj h).symm, ?_⟩
      rw [Ranged, FiniteDouble.ofInt?, hconvert, hx]
      exact Bool.false_ne_true
  | text s =>
    dsimp only at h
    obtain hnone | ⟨x, hx⟩ := Option.eq_none_or_eq_some (readDouble s)
    · rw [hnone] at h
      cases h
      exact .inl rfl
    · rw [hx] at h
      cases h
  | null | list | record => cases h; exact .inl rfl
  | bool | float => cases h

end Datum

/-- A datum that makes no identity tells of damage. -/
theorem Identity.fault_of_ofDatum (h : Identity.ofDatum d = .error fault) :
    fault.isDamage = true := by
  unfold Identity.ofDatum at h
  split at h
  · cases h
  · next hkey => cases h; exact Datum.fault_of_key hkey

/-! ## Nodes -/

namespace Position

/-- Two data of which one gives no coordinate. -/
theorem fault_of_ofPair {x y : Datum} (h : ofPair x y = .error fault) :
    fault.Tells (x.Ranged ∧ y.Ranged) := by
  obtain h | ⟨_, -, h⟩ := error_of_bind h
  · exact (Datum.fault_of_toDouble h).mono And.left
  · obtain h | ⟨_, -, h⟩ := error_of_bind h
    · exact (Datum.fault_of_toDouble h).mono And.right
    · cases h

/-- Members that give no position. -/
theorem fault_of_ofMembers {items : List Datum} (h : ofMembers items = .error fault) :
    fault.Tells (∀ x ∈ items, x.Ranged) := by
  unfold ofMembers at h
  split at h
  · exact (fault_of_ofPair h).mono fun hall => ⟨hall _ (by simp), hall _ (by simp)⟩
  · split at h <;> cases h <;> exact .inl rfl

/-- A datum that gives no position. -/
theorem fault_of_ofDatum (h : ofDatum d = .error fault) : fault.Tells d.Ranged := by
  cases d with
  | null => cases h
  | record fields =>
    have hzero : (Datum.int 0).Ranged := by unfold Datum.Ranged; decide +kernel
    exact (fault_of_ofPair h).mono fun hranged => ⟨hranged.getD "x" hzero, hranged.getD "y" hzero⟩
  | list items => exact (fault_of_ofMembers h).mono Datum.ranged_list.1
  | text s => exact (fault_of_ofMembers h).mono fun hranged => Datum.Ranged.members hranged rfl
  | bool | int | float => cases h; exact .inl rfl

end Position

/-- A datum that names no kind of node tells of damage. -/
theorem NodeKind.fault_of_ofDatum (h : NodeKind.ofDatum d = .error fault) :
    fault.isDamage = true := by
  obtain h | ⟨_, -, h⟩ := error_of_bind h
  · exact Datum.fault_of_plain h
  · split at h
    · cases h
    · obtain h | ⟨_, -, h⟩ := error_of_bind h
      · rw [Datum.fault_of_display h]; rfl
      · cases h; rfl

/-- A datum that is taken for no number tells of damage. -/
theorem Number.fault_of_ofDatum (h : Number.ofDatum d = .error fault) : fault.isDamage = true := by
  have hdouble : ∀ {x : Double}, Number.ofDouble x = .error fault → fault.isDamage = true := by
    intro x h
    cases x with
    | finite => cases h
    | infinite | nan => cases h; rfl
  cases d with
  | int | float => exact hdouble h
  | text s =>
    unfold Number.ofDatum at h
    dsimp only at h
    split at h
    · exact hdouble h
    · cases h; rfl
  | null | bool | list | record => cases h; rfl

/-- A datum that spells no name of a variable tells of damage. -/
theorem fault_of_readVariable (h : readVariable d = .error fault) : fault.isDamage = true := by
  unfold readVariable at h
  split at h
  · dsimp only at h
    split at h
    · cases h; rfl
    · split at h
      · cases h; rfl
      · split at h <;> cases h
        rfl
  · cases h; rfl

namespace Diagram

/-- A node that cannot be created. -/
theorem fault_of_create (h : (g.create kind position id).1 = .error fault) :
    fault.Tells position.Ranged := by
  have hat : ∀ {g : Diagram} {id : Identity}, (g.createAs kind position id).1 = .error fault →
      fault.Tells position.Ranged := by
    intro g id h
    unfold createAs at h
    split at h
    · next hmade =>
      cases h
      obtain h | ⟨k, -, h⟩ := error_of_bind hmade
      · exact .inl (NodeKind.fault_of_ofDatum h)
      · obtain h | ⟨ident, -, h⟩ := error_of_bind h
        · exact .inl (Datum.fault_of_plain h)
        · obtain h | ⟨p, -, h⟩ := error_of_bind h
          · exact Position.fault_of_ofDatum h
          · cases h
    · cases h
  unfold create at h
  split at h
  · next hid =>
    cases h
    unfold requestedId at hid
    split at hid
    · cases hid
    · obtain h | ⟨_, -, h⟩ := error_of_bind hid
      · exact .inl (Identity.fault_of_ofDatum h)
      · split at h
        · obtain h | ⟨_, -, h⟩ := error_of_bind h
          · exact .inl (Datum.fault_of_plain h)
          · cases h; exact .inl rfl
        · cases h
  · exact hat h
  · exact hat h

/-- Creating a node leaves the constraints. -/
theorem constraints_create (g : Diagram) (kind position id : Datum) :
    (g.create kind position id).2.constraints = g.constraints := by
  have hat : ∀ (g : Diagram) (id : Identity),
      (g.createAs kind position id).2.constraints = g.constraints := by
    intro g id
    unfold createAs
    split <;> rfl
  unfold create
  split
  · rfl
  · exact hat _ _
  · exact hat _ _

/-- A node that is not there tells of damage. -/
theorem fault_of_requireNode (h : g.requireNode id = .error fault) : fault.isDamage = true := by
  obtain h | ⟨found, -, h⟩ := error_of_bind h
  · obtain h | ⟨_, -, h⟩ := error_of_bind h
    · exact Datum.fault_of_key h
    · cases h
  · split at h
    · cases h
    · obtain h | ⟨_, -, h⟩ := error_of_bind h
      · exact Datum.fault_of_plain h
      · cases h; rfl

/-- A value that is refused where nothing is constrained tells of damage. -/
theorem fault_of_setValue (hg : g.constraints = {}) {value : Datum}
    (h : g.setValue id value = .error fault) : fault.isDamage = true := by
  obtain h | ⟨n, -, h⟩ := error_of_bind h
  · exact fault_of_requireNode h
  split at h
  · obtain h | ⟨v, -, h⟩ := error_of_bind h
    · exact Number.fault_of_ofDatum h
    obtain h | ⟨_, -, h⟩ := error_of_bind h
    · rw [hg] at h
      -- no constraint is looked at, so all that can be at fault is the identity of the node
      obtain h | ⟨violations, hviolations, h⟩ := error_of_bind h
      · obtain h | ⟨_, hfor, h⟩ := error_of_bind h
        · obtain h | ⟨_, -, h⟩ := error_of_bind h
          · exact Datum.fault_of_key h
          · cases h
        · obtain ⟨key, -, hfor⟩ := ok_of_bind hfor
          cases hfor
          cases h
      · obtain ⟨_, hfor, hviolations⟩ := ok_of_bind hviolations
        obtain ⟨key, -, hfor⟩ := ok_of_bind hfor
        cases hfor
        cases hviolations
        cases h
    · cases h
  · cases h; rfl

/-- A name that is refused tells of damage. -/
theorem fault_of_setVariable (h : g.setVariable id name = .error fault) :
    fault.isDamage = true := by
  obtain h | ⟨n, -, h⟩ := error_of_bind h
  · exact fault_of_requireNode h
  split at h
  · obtain h | ⟨_, -, h⟩ := error_of_bind h
    · exact fault_of_readVariable h
    · cases h
  · cases h; rfl

/-- A label that is refused tells of damage. -/
theorem fault_of_setLabel (h : g.setLabel id label = .error fault) : fault.isDamage = true := by
  obtain h | ⟨n, -, h⟩ := error_of_bind h
  · exact fault_of_requireNode h
  split at h
  · split at h <;> cases h
    rfl
  · cases h; rfl

/-- A value that a record gives and the rebuilt node refuses tells of damage. -/
theorem fault_of_restoreValue (hg : g.constraints = {}) {fields : Fields}
    (h : g.restoreValue n (.record fields) = .error fault) : fault.isDamage = true := by
  unfold restoreValue at h
  split at h
  · obtain h | ⟨value, -, h⟩ := error_of_bind h
    · cases h
    split at h
    · obtain h | ⟨_, -, h⟩ := error_of_bind h
      · exact fault_of_setValue hg h
      · cases h
    · cases h
  · cases h

/-- A name that a record gives and the rebuilt node refuses tells of damage. -/
theorem fault_of_restoreVariable {fields : Fields}
    (h : g.restoreVariable n (.record fields) = .error fault) :
    fault.isDamage = true := by
  unfold restoreVariable at h
  split at h
  · obtain h | ⟨value, -, h⟩ := error_of_bind h
    · cases h
    split at h
    · obtain h | ⟨_, -, h⟩ := error_of_bind h
      · exact fault_of_setVariable h
      · cases h
    · cases h
  · cases h

/-- A label that a record gives and the rebuilt node refuses tells of damage. -/
theorem fault_of_restoreLabel {fields : Fields}
    (h : g.restoreLabel n (.record fields) = .error fault) :
    fault.isDamage = true := by
  obtain h | ⟨value, -, h⟩ := error_of_bind h
  · cases h
  split at h
  · obtain h | ⟨_, -, h⟩ := error_of_bind h
    · exact fault_of_setLabel h
    · cases h
  · cases h

/-- A node that cannot be rebuilt where nothing is constrained. -/
theorem fault_of_restoreNode (hg : g.constraints = {}) {raw : Datum}
    (h : g.restoreNode raw = .error fault) : fault.Tells raw.Ranged := by
  obtain h | ⟨kind, hkind, h⟩ := error_of_bind h
  · exact .inl (Datum.fault_of_field h)
  obtain ⟨fields, rfl⟩ := Datum.eq_record_of_field hkind
  obtain h | ⟨position, hposition, h⟩ := error_of_bind h
  · cases h
  obtain rfl : (Fields.get? fields "position").getD .null = position := Except.ok.inj hposition
  obtain h | ⟨id, -, h⟩ := error_of_bind h
  · cases h
  have hmade := (constraints_create g kind ((Fields.get? fields "position").getD .null) id).trans hg
  obtain h | ⟨n, -, h⟩ := error_of_bind h
  · exact (fault_of_create h).mono fun hranged => hranged.getD "position" trivial
  obtain h | ⟨g₁, -, h⟩ := error_of_bind h
  · exact .inl (fault_of_restoreValue hmade h)
  obtain h | ⟨g₂, -, h⟩ := error_of_bind h
  · exact .inl (fault_of_restoreVariable h)
  · exact .inl (fault_of_restoreLabel h)

/-- Setting a value leaves the constraints. -/
theorem constraints_setValue {value : Datum} (h : g.setValue id value = .ok (n, g')) :
    g'.constraints = g.constraints := by
  obtain ⟨n, -, h⟩ := ok_of_bind h
  split at h
  · obtain ⟨v, -, h⟩ := ok_of_bind h
    obtain ⟨_, -, h⟩ := ok_of_bind h
    cases h
    rfl
  · cases h

/-- Setting the name of a variable leaves the constraints. -/
theorem constraints_setVariable (h : g.setVariable id name = .ok (n, g')) :
    g'.constraints = g.constraints := by
  obtain ⟨n, -, h⟩ := ok_of_bind h
  split at h
  · obtain ⟨_, -, h⟩ := ok_of_bind h
    cases h
    rfl
  · cases h

/-- Setting a label leaves the constraints. -/
theorem constraints_setLabel (h : g.setLabel id label = .ok (n, g')) :
    g'.constraints = g.constraints := by
  obtain ⟨n, -, h⟩ := ok_of_bind h
  split at h
  · split at h <;> cases h
    rfl
  · cases h

/-- Rebuilding a node leaves the constraints. -/
theorem constraints_restoreNode {raw : Datum} (h : g.restoreNode raw = .ok g') :
    g'.constraints = g.constraints := by
  obtain ⟨kind, -, h⟩ := ok_of_bind h
  obtain ⟨position, -, h⟩ := ok_of_bind h
  obtain ⟨id, -, h⟩ := ok_of_bind h
  obtain ⟨n, -, h⟩ := ok_of_bind h
  obtain ⟨g₁, hvalue, h⟩ := ok_of_bind h
  obtain ⟨g₂, hvariable, h⟩ := ok_of_bind h
  have h₁ : g₁.constraints = (g.create kind position id).2.constraints := by
    unfold restoreValue at hvalue
    split at hvalue
    · obtain ⟨_, -, hvalue⟩ := ok_of_bind hvalue
      split at hvalue
      · obtain ⟨_, hset, hvalue⟩ := ok_of_bind hvalue
        cases hvalue
        exact constraints_setValue hset
      · cases hvalue; rfl
    · cases hvalue; rfl
  have h₂ : g₂.constraints = g₁.constraints := by
    unfold restoreVariable at hvariable
    split at hvariable
    · obtain ⟨_, -, hvariable⟩ := ok_of_bind hvariable
      split at hvariable
      · obtain ⟨_, hset, hvariable⟩ := ok_of_bind hvariable
        cases hvariable
        exact constraints_setVariable hset
      · cases hvariable; rfl
    · cases hvariable; rfl
  have h₃ : g'.constraints = g₂.constraints := by
    obtain ⟨_, -, h⟩ := ok_of_bind h
    split at h
    · obtain ⟨_, hset, h⟩ := ok_of_bind h
      cases h
      exact constraints_setLabel hset
    · cases h; rfl
  rw [h₃, h₂, h₁, constraints_create]

/-! ## Connections -/

/-- A connection that is refused tells of damage. -/
theorem fault_of_addConnection (h : g.addConnection source target id = .error fault) :
    fault.isDamage = true := by
  have hport : ∀ {d : Datum}, g.port? d = .error fault → fault.isDamage = true := by
    intro d h
    obtain h | ⟨_, -, h⟩ := error_of_bind h
    · exact Datum.fault_of_key h
    · cases h
  obtain h | ⟨⟨out, into⟩, -, h⟩ := error_of_bind h
  · obtain h | ⟨found, -, h⟩ := error_of_bind h
    · exact hport h
    obtain h | ⟨fed, -, h⟩ := error_of_bind h
    · exact hport h
    split at h
    · obtain h | ⟨_, -, h⟩ := error_of_bind h
      · exact Datum.fault_of_plain h
      · cases h; rfl
    · obtain h | ⟨_, -, h⟩ := error_of_bind h
      · exact Datum.fault_of_plain h
      · cases h; rfl
    · split at h
      · cases h; rfl
      split at h
      · cases h; rfl
      split at h
      · cases h; rfl
      split at h
      · cases h; rfl
      · cases h
  · obtain h | ⟨_, -, h⟩ := error_of_bind h
    · unfold connectionId at h
      split at h
      · obtain h | ⟨_, -, h⟩ := error_of_bind h
        · exact Identity.fault_of_ofDatum h
        split at h
        · obtain h | ⟨_, -, h⟩ := error_of_bind h
          · exact Datum.fault_of_plain h
          · cases h; rfl
        · cases h
      · cases h
    · cases h

/-- A connection that cannot be rebuilt tells of damage. -/
theorem fault_of_restoreConnection {raw : Datum} (h : g.restoreConnection raw = .error fault) :
    fault.isDamage = true := by
  obtain h | ⟨source, hsource, h⟩ := error_of_bind h
  · exact Datum.fault_of_field h
  obtain ⟨fields, rfl⟩ := Datum.eq_record_of_field hsource
  obtain h | ⟨target, -, h⟩ := error_of_bind h
  · exact Datum.fault_of_field h
  obtain h | ⟨id, -, h⟩ := error_of_bind h
  · cases h
  obtain h | ⟨_, -, h⟩ := error_of_bind h
  · exact fault_of_addConnection h
  · cases h

/-- Rebuilding a connection leaves the constraints. -/
theorem constraints_restoreConnection {raw : Datum} (h : g.restoreConnection raw = .ok g') :
    g'.constraints = g.constraints := by
  obtain ⟨source, -, h⟩ := ok_of_bind h
  obtain ⟨target, -, h⟩ := ok_of_bind h
  obtain ⟨id, -, h⟩ := ok_of_bind h
  obtain ⟨⟨c, g₁⟩, hadded, h⟩ := ok_of_bind h
  cases h
  obtain ⟨_, -, hadded⟩ := ok_of_bind hadded
  obtain ⟨⟨i, g₂⟩, hid, hadded⟩ := ok_of_bind hadded
  cases hadded
  unfold connectionId at hid
  split at hid
  · obtain ⟨_, -, hid⟩ := ok_of_bind hid
    split at hid
    · obtain ⟨_, -, hid⟩ := ok_of_bind hid
      cases hid
    · cases hid; rfl
  · cases hid; rfl

end Diagram

/-! ## Constraints -/

/-- A number that is given by a datum has a double if the integers of the datum do. -/
theorem Number.isSome_toDouble?_of_ofNumeric? {v : Number} (h : Number.ofNumeric? d = some v)
    (hd : d.Ranged) : v.toDouble?.isSome = true := by
  unfold Number.ofNumeric? at h
  split at h
  · cases h
    rwa [Datum.Ranged] at hd
  · cases h; rfl
  · cases h

namespace Rule

/-- The numbers of a rule have doubles if the integers of its terms do. -/
theorem convertible_of_ofTerms {terms : Terms} {kind : ConstraintKind} {r : Rule}
    (h : Rule.ofTerms terms kind = .ok r) (hvalue : terms.value.Ranged)
    (hminimum : terms.minimum.Ranged) (hmaximum : terms.maximum.Ranged)
    (hdivisor : terms.divisor.Ranged) : r.Convertible := by
  unfold ofTerms at h
  split at h
  · split at h
    · next v hv =>
      cases h
      simpa [Convertible, numbers] using Number.isSome_toDouble?_of_ofNumeric? hv hvalue
    · cases h
  · unfold ofRange at h
    split at h
    · next low high hlow hhigh =>
      split at h
      · cases h
      · cases h
        have hlow := Number.isSome_toDouble?_of_ofNumeric? hlow hminimum
        have hhigh := Number.isSome_toDouble?_of_ofNumeric? hhigh hmaximum
        simpa [Convertible, numbers] using ⟨hlow, hhigh⟩
    · cases h
  · split at h <;> cases h
    nofun
  · split at h <;> cases h
    nofun
  · cases h; nofun
  · cases h; nofun
  · split at h <;> cases h
    nofun
  · cases h; nofun
  · split at h
    · next v hv =>
      split at h
      · cases h
      · cases h
        simpa [Convertible, numbers] using Number.isSome_toDouble?_of_ofNumeric? hv hdivisor
    · cases h

/-- Two rules that are not compared need a double that there is not. -/
theorem fault_of_oneWayConflict {a b : Rule} (h : a.oneWayConflict b = .error fault) :
    fault = .datum .tooLargeForDouble := by
  unfold oneWayConflict at h
  split at h
  · unfold Number.conflictWith at h
    split at h
    · cases h
    · cases h
    · obtain h | ⟨_, -, h⟩ := error_of_bind h
      · exact fault_of_admits h
      · cases h
  all_goals cases h

end Rule

/-- Two constraints whose numbers have doubles are compared. -/
theorem Constraint.compared {a b : Constraint} (ha : a.rule.Convertible) (hb : b.rule.Convertible) :
    ∃ found, a.findConflict b = .ok found := by
  by_cases hactive : (a.active && b.active) = true
  · obtain ⟨hactive, hactive'⟩ := Bool.and_eq_true_iff.1 hactive
    exact exists_findConflict hactive hactive' ha hb
  · exact ⟨none, if_neg hactive⟩

/-- Two constraints that are not compared need a double that there is not. -/
theorem Constraint.fault_of_findConflict {a b : Constraint} (h : a.findConflict b = .error fault) :
    fault.Tells (a.rule.Convertible ∧ b.rule.Convertible) := by
  refine .inr ⟨?_, fun ⟨ha, hb⟩ => ?_⟩
  · unfold findConflict at h
    split at h
    · obtain h | ⟨found, -, h⟩ := error_of_bind h
      · exact Rule.fault_of_oneWayConflict h
      · split at h
        · cases h
        · exact Rule.fault_of_oneWayConflict h
    · cases h
  · obtain ⟨found, hfound⟩ := compared ha hb
    cases hfound.symm.trans h

/-- A record that states no constraint tells of damage. -/
theorem Constraint.fault_of_ofRecord {supply : Supply}
    (h : (Constraint.ofRecord supply d).1 = .error fault) :
    fault.isDamage = true := by
  unfold ofRecord at h
  split at h
  · split at h
    · cases h; rfl
    · dsimp only at h
      unfold ofTerms at h
      split at h <;> cases h
      rfl
  · cases h; rfl

/-- The numbers of a constraint have doubles if the integers of the fields that state them do. -/
theorem Constraint.convertible_of_fields {supply : Supply} {fields : Fields} {c : Constraint}
    (h : (Constraint.ofRecord supply (.record fields)).1 = .ok c)
    (hnumbers : ∀ key ∈ ["value", "min", "max", "divisor"], (Fields.get fields key).Ranged) :
    c.rule.Convertible := by
  unfold ofRecord at h
  dsimp only at h
  split at h
  · cases h
  · next kind terms hterms =>
    obtain ⟨_, -, hterms⟩ := ok_of_bind hterms
    obtain ⟨_, -, hterms⟩ := ok_of_bind hterms
    obtain ⟨_, -, hterms⟩ := ok_of_bind hterms
    obtain ⟨_, -, hterms⟩ := ok_of_bind hterms
    cases hterms
    dsimp only at h
    unfold ofTerms at h
    split at h
    · next hrule =>
      cases h
      exact Rule.convertible_of_ofTerms hrule (hnumbers _ (by simp)) (hnumbers _ (by simp))
        (hnumbers _ (by simp))
        (hnumbers _ (by simp))
    · cases h

/-- The numbers of a constraint have doubles if the integers of its record do. -/
theorem Constraint.convertible_of_ofRecord {supply : Supply} {c : Constraint}
    (h : (Constraint.ofRecord supply d).1 = .ok c) (hd : d.Ranged) : c.rule.Convertible := by
  cases d with
  | record fields => exact convertible_of_fields h fun key _ => hd.getD key trivial
  | null | bool | int | float | text | list => cases h

namespace Registry

variable {r : Registry} {c : Constraint}

/-- A constraint is compared with others if the numbers of all of them have doubles. -/
theorem exists_conflictsWith (hc : c.rule.Convertible) : ∀ {others : List Constraint},
    (∀ other ∈ others, other.rule.Convertible) → ∃ kinds, conflictsWith c others = .ok kinds
  | [], _ => ⟨[], rfl⟩
  | other :: rest, hothers => by
    obtain ⟨found, hfound⟩ := Constraint.compared (hothers other (.head _)) hc
    obtain ⟨kinds, hkinds⟩ := exists_conflictsWith hc fun other' hmem =>
      hothers other' (.tail _ hmem)
    exact ⟨_, by rw [conflictsWith, hfound, ok_bind, hkinds]; rfl⟩

/-- Constraints that are not compared with a list of others need a double that there is not. -/
theorem fault_of_conflictsWith (hc : R → c.rule.Convertible) : ∀ {others : List Constraint},
    (R → ∀ other ∈ others, other.rule.Convertible) → conflictsWith c others = .error fault →
      fault.Tells R
  | [], _, h => by cases h
  | other :: rest, hothers, h => by
    obtain h | ⟨found, -, h⟩ := error_of_bind h
    · exact (Constraint.fault_of_findConflict h).mono fun hR => ⟨hothers hR other (.head _), hc hR⟩
    obtain h | ⟨_, -, h⟩ := error_of_bind h
    · exact fault_of_conflictsWith hc (fun hR other' hmem => hothers hR other' (.tail _ hmem)) h
    · cases h

/-- A constraint that is not attached. -/
theorem fault_of_add (hr : R → r.Forall fun c => c.rule.Convertible) (hc : R → c.rule.Convertible)
    {target : Identity} (h : r.add target c = .error fault) : fault.Tells R := by
  simp only [add] at h
  split at h
  · obtain h | ⟨_, -, h⟩ := error_of_bind h
    · exact .inl (Datum.fault_of_plain h)
    · cases h; exact .inl rfl
  obtain h | ⟨kinds, -, h⟩ := error_of_bind h
  · refine fault_of_conflictsWith hc (fun hR other hother => ?_) h
    cases hat : r.table.get? target.key with
    | none => rw [constraintsAt_of_none hat] at hother; cases hother
    | some a => rw [constraintsAt_of_get? hat] at hother; exact hr hR _ a hat other hother
  split at h
  · cases h
  obtain h | ⟨_, -, h⟩ := error_of_bind h
  · exact .inl (Datum.fault_of_plain h)
  · cases h; exact .inl rfl

end Registry

namespace Diagram

variable {supply : Supply}

/-- A node that takes no constraints tells of damage. -/
theorem fault_of_requireConstrainable (h : g.requireConstrainable id = .error fault) :
    fault.isDamage = true := by
  obtain h | ⟨n, -, h⟩ := error_of_bind h
  · exact fault_of_requireNode h
  · split at h
    · cases h
    · cases h
    · cases h; rfl

/-- A constraint that is not attached to a node. -/
theorem fault_of_addConstraint (hg : R → g.constraints.Forall fun c => c.rule.Convertible)
    (hrecord : R → record.Ranged) (h : (g.addConstraint supply id record).1 = .error fault) :
    fault.Tells R := by
  unfold addConstraint at h
  split at h
  · next hfound => cases h; exact .inl (fault_of_requireConstrainable hfound)
  split at h
  · obtain h | ⟨c, hc, h⟩ := error_of_bind h
    · exact .inl (Constraint.fault_of_ofRecord h)
    obtain h | ⟨_, -, h⟩ := error_of_bind h
    · exact .inl (fault_of_requireConstrainable h)
    obtain h | ⟨_, -, h⟩ := error_of_bind h
    · exact .inl (Identity.fault_of_ofDatum h)
    obtain h | ⟨_, -, h⟩ := error_of_bind h
    · exact Registry.fault_of_add hg (fun hR =>
        Constraint.convertible_of_ofRecord hc (hrecord hR)) h
    · cases h
  · cases h; exact .inl rfl

/-- The numbers of all constraints have doubles after one is attached from a record whose integers
do. -/
theorem convertible_addConstraint {c : Constraint}
    (hg : g.constraints.Forall fun c => c.rule.Convertible)
    (hrecord : record.Ranged) (h : (g.addConstraint supply id record).1 = .ok (c, g')) :
    g'.constraints.Forall fun c => c.rule.Convertible := by
  unfold addConstraint at h
  split at h
  · cases h
  split at h
  · obtain ⟨c, hc, h⟩ := ok_of_bind h
    obtain ⟨_, -, h⟩ := ok_of_bind h
    obtain ⟨_, -, h⟩ := ok_of_bind h
    obtain ⟨r, hr, h⟩ := ok_of_bind h
    cases h
    exact hg.add (Constraint.convertible_of_ofRecord hc hrecord) hr
  · cases h

/-- Constraints that cannot be rebuilt. -/
theorem fault_of_restoreConstraints : ∀ {raws : List Datum} {g : Diagram} {supply : Supply},
    (R → g.constraints.Forall fun c => c.rule.Convertible) → (R → ∀ raw ∈ raws, raw.Ranged) →
    (g.restoreConstraints supply raws).1 = .error fault → fault.Tells R
  | [], _, _, _, _, h => by cases h
  | raw :: raws, g, supply, hg, hraws, h => by
    unfold restoreConstraints at h
    split at h
    · next hfield => cases h; exact .inl (Datum.fault_of_field hfield)
    next target _ =>
    have hraw : R → raw.Ranged := fun hR => hraws hR raw (.head _)
    split at h
    · next hadded =>
      cases h
      exact fault_of_addConstraint hg hraw (congrArg Prod.fst hadded)
    · next c g₁ supply₁ hadded =>
      exact fault_of_restoreConstraints
        (fun hR => convertible_addConstraint (hg hR) (hraw hR) (congrArg Prod.fst hadded))
        (fun hR raw' hmem => hraws hR raw' (.tail _ hmem)) h

/-! ## Diagrams -/

section
variable {β : Type} {P : Diagram → Prop} {Q : β → Prop} {f : Diagram → β → Except Fault Diagram}

/-- What each step keeps is kept by steps one after another. -/
theorem keeps_foldlM (hkeeps : ∀ {g g' b}, P g → f g b = .ok g' → P g') :
    ∀ {bs : List β} {g g' : Diagram}, P g → bs.foldlM f g = .ok g' → P g'
  | [], _, _, hg, h => by cases h; exact hg
  | b :: bs, g, g', hg, h => by
    rw [List.foldlM_cons] at h
    obtain ⟨g₁, h₁, h⟩ := ok_of_bind h
    exact keeps_foldlM hkeeps (hkeeps hg h₁) h

/-- Steps one after another come to a fault only where one of them does, with what all of them
keep. -/
theorem fault_of_foldlM (hkeeps : ∀ {g g' b}, P g → f g b = .ok g' → P g')
    (hf : ∀ {g b fault}, P g → f g b = .error fault → fault.Tells (Q b)) :
    ∀ {bs : List β} {g : Diagram}, P g → bs.foldlM f g = .error fault → fault.Tells (∀ b ∈ bs, Q b)
  | [], _, _, h => by cases h
  | b :: bs, g, hg, h => by
    rw [List.foldlM_cons] at h
    obtain h | ⟨g₁, h₁, h⟩ := error_of_bind h
    · exact (hf hg h).mono fun hall => hall b (.head _)
    · refine (fault_of_foldlM hkeeps hf (hkeeps hg h₁) h).mono fun hall b' hmem => ?_
      exact hall b' (.tail _ hmem)

end

/-- What is no mapping has no diagram, and is asked for a method that it lacks. -/
theorem ofRecord_of_not_record (hd : ∀ fields, d ≠ .record fields) (supply : Supply) :
    ofRecord supply d = (.error (.datum (.noMethod d.kindName "get")), supply) := by
  cases d with
  | record fields => exact absurd rfl (hd fields)
  | null | bool | int | float | text | list => rfl

/-- A mapping of which no diagram can be rebuilt is damaged, or it holds an integer larger than
every double. -/
theorem fault_of_ofRecord {fields : Fields}
    (h : (ofRecord supply (.record fields)).1 = .error fault) :
    fault.Tells (Datum.record fields).Ranged := by
  have hpart : ∀ (key : String) {items : List Datum},
      ((Fields.get? fields key).getD (.list [])).members = .ok items →
        (Datum.record fields).Ranged → ∀ x ∈ items, x.Ranged := fun key _ hitems hranged =>
    Datum.Ranged.members (hranged.getD key (Datum.ranged_list.2 (List.forall_mem_nil _))) hitems
  have hnode : ∀ {g g' : Diagram} {raw : Datum}, g.constraints = {} → g.restoreNode raw = .ok g' →
      g'.constraints = {} := fun hg h => (constraints_restoreNode h).trans hg
  have hconnection : ∀ {g g' : Diagram} {raw : Datum}, g.constraints = {} →
      g.restoreConnection raw = .ok g' → g'.constraints = {} :=
    fun hg h => (constraints_restoreConnection h).trans hg
  unfold ofRecord at h
  split at h
  · next hparts =>
    cases h
    obtain h | ⟨_, hnodes, h⟩ := error_of_bind hparts
    · cases h
    cases hnodes
    obtain h | ⟨nodes, hnodes, h⟩ := error_of_bind h
    · exact .inl (Datum.fault_of_members h)
    obtain h | ⟨g₁, hg₁, h⟩ := error_of_bind h
    · exact (fault_of_foldlM (Q := Datum.Ranged) hnode (fun hg h =>
        fault_of_restoreNode hg h) rfl h).mono
        (hpart _ hnodes)
    obtain h | ⟨_, hconnections, h⟩ := error_of_bind h
    · cases h
    cases hconnections
    obtain h | ⟨connections, -, h⟩ := error_of_bind h
    · exact .inl (Datum.fault_of_members h)
    obtain h | ⟨g₂, -, h⟩ := error_of_bind h
    · refine (fault_of_foldlM (Q := fun _ => True) hconnection (fun _ h =>
        ?_) (keeps_foldlM hnode rfl hg₁)
        h).mono fun _ _ _ => trivial
      exact .inl (fault_of_restoreConnection h)
    obtain h | ⟨_, hconstraints, h⟩ := error_of_bind h
    · cases h
    cases hconstraints
    obtain h | ⟨_, -, h⟩ := error_of_bind h
    · exact .inl (Datum.fault_of_members h)
    · cases h
  · next g₂ constraints hparts =>
    obtain ⟨_, hnodes, hparts⟩ := ok_of_bind hparts
    obtain ⟨nodes, -, hparts⟩ := ok_of_bind hparts
    obtain ⟨g₁, hg₁, hparts⟩ := ok_of_bind hparts
    obtain ⟨_, hconnections, hparts⟩ := ok_of_bind hparts
    obtain ⟨connections, -, hparts⟩ := ok_of_bind hparts
    obtain ⟨g₂, hg₂, hparts⟩ := ok_of_bind hparts
    obtain ⟨_, hconstraints, hparts⟩ := ok_of_bind hparts
    obtain ⟨constraints, hitems, hparts⟩ := ok_of_bind hparts
    cases hparts
    cases hconstraints
    have hbare : g₂.constraints = {} := keeps_foldlM hconnection (keeps_foldlM hnode rfl hg₁) hg₂
    refine fault_of_restoreConstraints (fun _ => ?_) (hpart _ hitems) h
    rw [hbare]
    intro k a ha
    cases ha

end Diagram

end EquationStudio
