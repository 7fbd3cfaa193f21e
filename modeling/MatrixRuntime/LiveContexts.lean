import MatrixRuntime.OwnedPublications
import MatrixRuntime.SoleContexts

/-! One live context for a logical id. Contexts are created where the reconciler last saw none
live; with one operation at a time that is still so when it creates them. -/

namespace MatrixRuntime.LiveContexts

open KernelContexts KernelResources KernelPublications KernelState InterleavedMachine
open KernelOperations SequentialRuns KernelSequence OwnedPublications SoleContexts

/-- The states a context has between operations. -/
def settled : Fsm → Bool
  | .waiting | .active | .cleanupPending | .disposed | .failed => true
  | _ => false

/-- The publication belongs to an instance that is active, or failed while it was, and is
recorded for it. -/
structure Backed (contexts : ContextTable) (resources : ResourceTable) (l : String)
    (i : InstanceId) (k : ResourceKind) : Prop where
  owner : ∃ rec, contexts.byInstance i = some rec ∧ rec.logical = l ∧
    (rec.state = .active ∨ rec.state = .failed)
  record : ∃ h r, resources.records h = some r ∧ r.ownerContext = i ∧ r.kind = k

structure OrderlyTables (contexts : ContextTable) (resources : ResourceTable)
    (publications : Publications) (composition : Composition) : Prop where
  current : ∀ inst rec, contexts.byInstance inst = some rec → rec.state.live = true →
    contexts.currentByLogical rec.logical = some inst
  shows : ∀ l i k, shown publications l i k → Backed contexts resources l i k
  owners : ∀ h r, resources.records h = some r → r.state = .active →
    contexts.stateOf r.ownerContext ≠ some .disposed
  settled : ∀ inst rec, contexts.byInstance inst = some rec → settled rec.state = true
  keyed : ∀ l manifest, composition.definitions.lookup l = some manifest → manifest.id = l
  enrolled : ∀ l p, composition.plugins l = some p →
    p.instanceId < contexts.nextInstance ∧ contexts.currentByLogical l ≠ none

/-- At most one activation of a logical id is live, it is the current one, only active and failed
ones show anything, and disposed ones own nothing. -/
abbrev Orderly (s : KState) : Prop :=
  OrderlyTables s.contexts s.resources s.publications s.composition

/-- A live activation has the plugin entry of its logical id. -/
def EnteredAt (s : KState) (l : String) : Prop :=
  ∀ cur, s.contexts.current l = some cur → cur.state.live = true →
    ∃ p, s.composition.plugins l = some p ∧ p.instanceId = cur.instanceId

/-- What holds between the functions of the lifecycle. -/
structure Tidy (s : KState) : Prop where
  orderly : Orderly s
  entered : ∀ l, EnteredAt s l

variable {depth : Nat} {m₀ : KState}

theorem tidy_boot (epoch : Nat) : Tidy (timeless (KState.boot epoch)) where
  orderly := by
    refine ⟨fun _ _ found => ?_, fun _ _ k there => ?_, fun _ _ found => ?_, fun _ _ found => ?_,
      fun _ _ found => ?_, fun _ _ found => ?_⟩
    · cases found
    · cases k with
      | cap name =>
        obtain ⟨e, found, -⟩ := there
        cases found
      | sub topic => cases there
      | _ => exact there.elim
    · cases found
    · cases found
    · cases found
    · cases found
  entered _ _ found := by cases found

end MatrixRuntime.LiveContexts
