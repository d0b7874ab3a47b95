import EquationStudio.Diagram.Edit
import EquationStudio.Proofs.Basic
import EquationStudio.Proofs.Table

/-!
# The ports of nodes

A port's identity is its node's, a hyphen and a name without one, so two ports with one identity
belong to nodes of one identity (`Node.ident_eq_of_port_id`) and, of one node, are the same
(`Node.port_eq_of_id`). The ports of a node can therefore be listed beside those of others without
loss (`Diagram.get?_withPorts`) and taken off the list again without touching them
(`Diagram.get?_withoutPorts`).
-/

namespace EquationStudio

/-! ## Names of ports -/

/-- The names of ports that the kinds of nodes have. -/
def portNames : List (List String) := [["out"], ["in1", "in2", "out"], ["in"]]

namespace NodeKind

/-- Each kind has one of the lists of names. -/
theorem names_mem (kind : NodeKind) : kind.inputs ++ kind.outputs ∈ portNames := by
  cases kind <;> simp [inputs, outputs, portNames]

/-- The names of a kind's ports are distinct. -/
theorem nodup_names (kind : NodeKind) : (kind.inputs ++ kind.outputs).Nodup :=
  (by decide +kernel : ∀ names ∈ portNames, names.Nodup) _ kind.names_mem

/-- No name of a port has a hyphen. -/
theorem hyphen_not_mem {kind : NodeKind} {name : String} (h : name ∈ kind.inputs ++ kind.outputs) :
    '-' ∉ name.toList :=
  (by decide +kernel : ∀ names ∈ portNames, ∀ name ∈ names, '-' ∉ name.toList) _ kind.names_mem
    name h

end NodeKind

namespace Node

variable {n m : Node} {p q : Port}

/-- The input ports of a node are those with the names that its kind gives. -/
theorem mem_inputs : p ∈ n.inputs ↔ ∃ name ∈ n.kind.inputs, n.port .input name = p := List.mem_map

/-- The output ports of a node are those with the names that its kind gives. -/
theorem mem_outputs : p ∈ n.outputs ↔ ∃ name ∈ n.kind.outputs, n.port .output name = p :=
  List.mem_map

/-- The ports of a node are its inputs and its outputs. -/
theorem mem_ports : p ∈ n.ports ↔ p ∈ n.inputs ∨ p ∈ n.outputs := List.mem_append

/-- Each port of a node has one of the names that its kind gives. -/
theorem exists_name (h : p ∈ n.ports) :
    ∃ name ∈ n.kind.inputs ++ n.kind.outputs, p.id = n.ident ++ "-" ++ name := by
  rcases mem_ports.1 h with h | h
  · obtain ⟨name, hname, rfl⟩ := mem_inputs.1 h
    exact ⟨name, List.mem_append_left _ hname, rfl⟩
  · obtain ⟨name, hname, rfl⟩ := mem_outputs.1 h
    exact ⟨name, List.mem_append_right _ hname, rfl⟩

/-- A node owns its ports. -/
theorem owner_of_mem_ports (h : p ∈ n.ports) : p.owner = n.id := by
  rcases mem_ports.1 h with h | h
  · obtain ⟨name, -, rfl⟩ := mem_inputs.1 h
    rfl
  · obtain ⟨name, -, rfl⟩ := mem_outputs.1 h
    rfl

/-- Ports with one identity belong to nodes with one identity in words. -/
theorem ident_eq_of_port_id (hp : p ∈ n.ports) (hq : q ∈ m.ports) (h : p.id = q.id) :
    n.ident = m.ident := by
  obtain ⟨s, hs, hps⟩ := exists_name hp
  obtain ⟨t, ht, hqt⟩ := exists_name hq
  rw [hps, hqt] at h
  exact (append_hyphen_inj (NodeKind.hyphen_not_mem hs) (NodeKind.hyphen_not_mem ht) h).1

/-- The identities of a node's ports, in order. -/
theorem map_id_ports (n : Node) :
    n.ports.map Port.id = (n.kind.inputs ++ n.kind.outputs).map (n.ident ++ "-" ++ ·) := by
  simp [ports, inputs, outputs, port, Function.comp_def]

/-- The identities of a node's ports are distinct. -/
theorem nodup_ports (n : Node) : (n.ports.map Port.id).Nodup := by
  rw [map_id_ports]
  refine n.kind.nodup_names.map fun s t h => ?_
  exact String.append_right_inj (n.ident ++ "-") |>.1 h

/-- Ports of one node with one identity are the same. -/
theorem port_eq_of_id (hp : p ∈ n.ports) (hq : q ∈ n.ports) (h : p.id = q.id) : p = q :=
  List.inj_on_of_nodup_map n.nodup_ports hp hq h

/-- A port of a node lies on the side of its inputs exactly if it is one of them. -/
theorem side_eq_input (hp : p ∈ n.ports) : p.side = .input ↔ p ∈ n.inputs := by
  rcases mem_ports.1 hp with h | h
  · obtain ⟨name, -, rfl⟩ := mem_inputs.1 h
    exact ⟨fun _ => h, fun _ => rfl⟩
  · obtain ⟨name, -, rfl⟩ := mem_outputs.1 h
    refine ⟨nofun, fun h' => ?_⟩
    obtain ⟨name', -, h'⟩ := mem_inputs.1 h'
    exact absurd (congrArg Port.side h') nofun

/-- A port of a node lies on the side of its outputs exactly if it is one of them. -/
theorem side_eq_output (hp : p ∈ n.ports) : p.side = .output ↔ p ∈ n.outputs := by
  rcases mem_ports.1 hp with h | h
  · obtain ⟨name, -, rfl⟩ := mem_inputs.1 h
    refine ⟨nofun, fun h' => ?_⟩
    obtain ⟨name', -, h'⟩ := mem_outputs.1 h'
    exact absurd (congrArg Port.side h') nofun
  · obtain ⟨name, -, rfl⟩ := mem_outputs.1 h
    exact ⟨fun _ => h, fun _ => rfl⟩

/-- Nodes that agree in identity and kind have the same ports. -/
theorem ports_congr (hid : n.id = m.id) (hident : n.ident = m.ident) (hkind : n.kind = m.kind) :
    n.ports = m.ports := by
  have hport : n.port = m.port := by
    funext side name
    simp only [port, hid, hident]
  simp only [ports, inputs, outputs, hkind, hport]

end Node

/-! ## Tables of ports -/

namespace Diagram

variable {ports : Table Port} {n : Node} {k : Key} {p : Port}

/-- A table in which the ports of a node are listed, none of whose identities was taken. -/
theorem get?_withPorts (hnew : ∀ q ∈ n.ports, ports.get? (.text q.id) = none) :
    (withPorts ports n).get? k = some p ↔
      ports.get? k = some p ∨ p ∈ n.ports ∧ k = .text p.id := by
  have hfold : withPorts ports n =
      (n.ports.map fun q => (Key.text q.id, q)).foldl (fun t e => t.insert e.1 e.2) ports := by
    rw [List.foldl_map]; rfl
  have hkeys : ((n.ports.map fun q => (Key.text q.id, q)).map Prod.fst).Nodup := by
    have := n.nodup_ports.map (f := Key.text) fun _ _ h => Key.text.inj h
    simpa [Function.comp_def] using this
  rw [hfold, Table.get?_foldl_insert hkeys (by simpa using hnew)]
  simp only [List.mem_map, Prod.mk.injEq]
  constructor
  · rintro (h | ⟨q, hq, rfl, rfl⟩)
    · exact .inl h
    · exact .inr ⟨hq, rfl⟩
  · rintro (h | ⟨hp, rfl⟩)
    · exact .inl h
    · exact .inr ⟨p, hp, rfl, rfl⟩

/-- A table from which the ports of a node are taken. -/
theorem get?_withoutPorts :
    ((n.ports.map Port.id).foldl (fun t id => t.erase (.text id)) ports).get? k = some p ↔
      ports.get? k = some p ∧ ∀ q ∈ n.ports, k ≠ .text q.id := by
  have hfold : (n.ports.map Port.id).foldl (fun t id => t.erase (.text id)) ports =
      (n.ports.map fun q => Key.text q.id).foldl Table.erase ports := by
    rw [List.foldl_map, List.foldl_map]
  rw [hfold, Table.get?_foldl_erase]
  by_cases hk : k ∈ n.ports.map fun q => Key.text q.id
  · obtain ⟨q, hq, rfl⟩ := List.mem_map.1 hk
    rw [if_pos hk]
    exact ⟨nofun, fun h => absurd rfl (h.2 q hq)⟩
  · rw [if_neg hk]
    exact ⟨fun h => ⟨h, fun q hq he => hk (List.mem_map.2 ⟨q, hq, he.symm⟩)⟩, And.left⟩

end Diagram

end EquationStudio
