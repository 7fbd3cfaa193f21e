import MatrixRuntime.KernelReconcile
import MatrixRuntime.TopologicalOrder

/-! The graph of the definitions, as the reconciler walks it: the order has no node twice. -/

namespace MatrixRuntime.DefinitionGraph

open DependencyGraph TopologicalOrder KernelState KernelReconcile

variable (defs : Definitions)

theorem requiresOf_keys : (requiresOf defs).map (·.1) = defs.keys := by
  simp only [requiresOf, List.map_map]
  rfl

theorem providesOf_keys : (providesOf defs).map (·.1) = defs.keys := by
  simp only [providesOf, List.map_map]
  rfl

/-- The graph of the definitions. -/
abbrev graphOf (defs : Definitions) : Edges := graphEdges (requiresOf defs) (providesOf defs)

/-- Every definition is a consumer, so none is added for what it provides. -/
theorem graphOf_eq : graphOf defs = defs.entries.map fun e =>
    (e.1, (sorted (e.2.requires.flatMap fun r => referenced r (providesOf defs))).dedup) := by
  have none : (providesOf defs).filter (fun p => decide (p.1 ∉ defs.keys)) = [] := by
    rw [List.filter_eq_nil_iff]
    intro p there
    have key : p.1 ∈ (providesOf defs).map (·.1) := List.mem_map_of_mem there
    rw [providesOf_keys] at key
    simp [key]
  have keys : ((requiresOf defs).map fun p => (p.1,
      (sorted (p.2.flatMap fun r => referenced r (providesOf defs))).dedup)).map (·.1) =
      defs.keys := by
    rw [List.map_map]
    exact requiresOf_keys defs
  rw [graphOf, graphEdges, keys, none, List.map_nil, List.append_nil]
  simp only [requiresOf, List.map_map]
  rfl

theorem graphOf_keys : (graphOf defs).map (·.1) = defs.keys := by
  rw [graphOf_eq, List.map_map]
  rfl

theorem graphOf_keyed : Keyed (graphOf defs) := by
  rw [Keyed, graphOf_keys]
  exact defs.nodupKeys

theorem activationOrder_nodup : (activationOrder defs (graphOf defs)).Nodup := by
  have names : (sorted defs.keys).Nodup := (sorted_perm defs.keys).nodup_iff.mpr defs.nodupKeys
  unfold activationOrder
  cases found : topoOrder (graphOf defs) with
  | none => simpa using names
  | some order =>
    have placed : order.Nodup :=
      (topoOrder_perm (graphOf_keyed defs) found).nodup_iff.mpr (List.nodup_dedup _)
    dsimp only
    split
    · exact names
    · exact placed

end MatrixRuntime.DefinitionGraph
