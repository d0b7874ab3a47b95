import EquationStudio.Diagram.Record
import EquationStudio.Proofs.Diagram.Keyed

/-!
# Reading a diagram is a run of edits

A diagram is rebuilt from a record by edits, so what holds after every run of edits holds of the
diagrams that are read as well (`Diagram.leads_ofRecord`), whatever data the record gives as
identities. None of these edits takes anything away (`Edit.Rebuilds`).
-/

namespace EquationStudio

/-- An edit by which a diagram is rebuilt. -/
def Edit.Rebuilds : Edit → Prop
  | .create .. | .setValue .. | .setVariable .. | .setLabel .. | .addConnection ..
  | .addConstraint .. => True
  | _ => False

namespace Diagram

/-- Some edits by which a diagram is rebuilt, one after another, lead from one state to another. -/
def Leads (s s' : Diagram × Supply) : Prop :=
  ∃ edits : List Edit, (∀ e ∈ edits, e.Rebuilds) ∧ edits.foldl Edit.apply s = s'

namespace Leads

variable {s s' s'' : Diagram × Supply}

/-- No edit leads nowhere else. -/
theorem refl (s : Diagram × Supply) : Leads s s := ⟨[], List.forall_mem_nil _, rfl⟩

/-- Edits after edits. -/
theorem trans (h : Leads s s') (h' : Leads s' s'') : Leads s s'' := by
  obtain ⟨edits, hedits, rfl⟩ := h
  obtain ⟨edits', hedits', rfl⟩ := h'
  exact ⟨edits ++ edits', List.forall_mem_append.2 ⟨hedits, hedits'⟩, List.foldl_append⟩

/-- One edit. -/
theorem of_apply {e : Edit} (he : e.Rebuilds) (h : e.apply s = s') : Leads s s' :=
  ⟨[e], List.forall_mem_singleton.2 he, h⟩

/-- What every edit of the kind keeps. -/
theorem keeps {P : Diagram → Prop} (hP : ∀ {e : Edit} {s : Diagram × Supply}, e.Rebuilds →
    P s.1 → P (e.apply s).1)
    (h : Leads s s') (hs : P s.1) : P s'.1 := by
  obtain ⟨edits, hedits, rfl⟩ := h
  induction edits generalizing s with
  | nil => exact hs
  | cons e edits ih =>
    obtain ⟨he, hedits⟩ := List.forall_mem_cons.1 hedits
    exact ih (hP he hs) hedits

/-- Steps one after another. -/
theorem of_foldlM {β : Type} {f : Diagram → β → Except Fault Diagram} {supply : Supply}
    (hf : ∀ {g g' b}, f g b = .ok g' → Leads (g, supply) (g', supply)) :
    ∀ {bs : List β} {g g' : Diagram}, bs.foldlM f g = .ok g' → Leads (g, supply) (g', supply)
  | [], _, _, h => by cases h; exact refl _
  | b :: bs, g, g', h => by
    rw [List.foldlM_cons] at h
    obtain ⟨g₁, h₁, h⟩ := ok_of_bind h
    exact (hf h₁).trans (of_foldlM hf h)

end Leads

variable {g g' : Diagram} {raw : Datum}

/-- Setting the value of a rebuilt node is an edit, if there is one. -/
theorem leads_restoreValue {n : Node} (h : g.restoreValue n raw = .ok g') (supply : Supply) :
    Leads (g, supply) (g', supply) := by
  unfold restoreValue at h
  split at h
  · obtain ⟨value, -, h⟩ := ok_of_bind h
    split at h
    · obtain ⟨⟨m, g₁⟩, hset, h⟩ := ok_of_bind h
      cases h
      exact .of_apply (e := .setValue n.id.datum value) trivial (by simp [Edit.apply, after, hset])
    · cases h; exact .refl _
  · cases h; exact .refl _

/-- Setting the variable of a rebuilt node is an edit, if there is one. -/
theorem leads_restoreVariable {n : Node} (h : g.restoreVariable n raw = .ok g') (supply : Supply) :
    Leads (g, supply) (g', supply) := by
  unfold restoreVariable at h
  split at h
  · obtain ⟨name, -, h⟩ := ok_of_bind h
    split at h
    · obtain ⟨⟨m, g₁⟩, hset, h⟩ := ok_of_bind h
      cases h
      exact .of_apply (e := .setVariable n.id.datum name) trivial
        (by simp [Edit.apply, after, hset])
    · cases h; exact .refl _
  · cases h; exact .refl _

/-- Setting the label of a rebuilt node is an edit, if there is one. -/
theorem leads_restoreLabel {n : Node} (h : g.restoreLabel n raw = .ok g') (supply : Supply) :
    Leads (g, supply) (g', supply) := by
  obtain ⟨label, -, h⟩ := ok_of_bind h
  split at h
  · obtain ⟨⟨m, g₁⟩, hset, h⟩ := ok_of_bind h
    cases h
    exact .of_apply (e := .setLabel n.id.datum label) trivial (by simp [Edit.apply, after, hset])
  · cases h; exact .refl _

/-- Rebuilding a node is a run of edits. -/
theorem leads_restoreNode (h : g.restoreNode raw = .ok g') (supply : Supply) :
    Leads (g, supply) (g', supply) := by
  obtain ⟨kind, -, h⟩ := ok_of_bind h
  obtain ⟨position, -, h⟩ := ok_of_bind h
  obtain ⟨id, -, h⟩ := ok_of_bind h
  obtain ⟨n, -, h⟩ := ok_of_bind h
  obtain ⟨g₁, hvalue, h⟩ := ok_of_bind h
  obtain ⟨g₂, hvariable, h⟩ := ok_of_bind h
  have hcreate : Leads (g, supply) ((g.create kind position id).2, supply) :=
    .of_apply (e := .create kind position id) trivial rfl
  exact hcreate.trans ((leads_restoreValue hvalue supply).trans
    ((leads_restoreVariable hvariable supply).trans (leads_restoreLabel h supply)))

/-- Rebuilding a connection is an edit. -/
theorem leads_restoreConnection (h : g.restoreConnection raw = .ok g') (supply : Supply) :
    Leads (g, supply) (g', supply) := by
  obtain ⟨source, -, h⟩ := ok_of_bind h
  obtain ⟨target, -, h⟩ := ok_of_bind h
  obtain ⟨id, -, h⟩ := ok_of_bind h
  obtain ⟨⟨c, g₁⟩, hadded, h⟩ := ok_of_bind h
  cases h
  exact .of_apply (e := .addConnection source target id) trivial
    (by simp [Edit.apply, after, hadded])

/-- Rebuilding constraints is a run of edits. -/
theorem leads_restoreConstraints : ∀ {raws : List Datum} {g g' : Diagram} {supply supply' : Supply},
    g.restoreConstraints supply raws = (.ok g', supply') → Leads (g, supply) (g', supply')
  | [], _, _, _, _, h => by cases h; exact .refl _
  | raw :: raws, g, g', supply, supply', h => by
    unfold restoreConstraints at h
    split at h
    · cases h
    · next target _ =>
      split at h
      · cases h
      · next c g₁ supply₁ hadded =>
        refine Leads.trans (.of_apply (e := .addConstraint target raw) trivial ?_)
          (leads_restoreConstraints h)
        simp [Edit.apply, after, hadded]

/-- A diagram that is read is at the end of a run of edits. -/
theorem leads_ofRecord {supply supply' : Supply} {data : Datum}
    (h : ofRecord supply data = (.ok g, supply')) : Leads ({}, supply) (g, supply') := by
  unfold ofRecord at h
  split at h
  · cases h
  · next g₂ raws hparts =>
    obtain ⟨nodes, -, hparts⟩ := ok_of_bind hparts
    obtain ⟨nodes, -, hparts⟩ := ok_of_bind hparts
    obtain ⟨g₁, hnodes, hparts⟩ := ok_of_bind hparts
    obtain ⟨connections, -, hparts⟩ := ok_of_bind hparts
    obtain ⟨connections, -, hparts⟩ := ok_of_bind hparts
    obtain ⟨g₃, hconnections, hparts⟩ := ok_of_bind hparts
    obtain ⟨constraints, -, hparts⟩ := ok_of_bind hparts
    obtain ⟨constraints, -, hparts⟩ := ok_of_bind hparts
    cases hparts
    exact (Leads.of_foldlM (fun h => leads_restoreNode h supply) hnodes).trans
      ((Leads.of_foldlM (fun h => leads_restoreConnection h supply) hconnections).trans
        (leads_restoreConstraints h))

/-- What edits lead to is keyed. -/
theorem Keyed.leads {s s' : Diagram × Supply} (h : s.1.Keyed) (hleads : Leads s s') : s'.1.Keyed :=
  hleads.keeps (fun {e _} _ hs => hs.apply e) h

/-- A diagram that is read is keyed. -/
theorem Keyed.ofRecord {supply supply' : Supply} {data : Datum}
    (h : Diagram.ofRecord supply data = (.ok g, supply')) : g.Keyed :=
  leads (s := ({}, supply)) (empty 1 1) (leads_ofRecord h)

end Diagram

end EquationStudio
