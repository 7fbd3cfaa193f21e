import MatrixRuntime.KernelTickets
import MatrixRuntime.TextScan

/-! The resource table: who owns which handle, and which handles were released.
The live timer and task threads behind a handle are not modelled; joining one
changes no table. -/

namespace MatrixRuntime.KernelResources

open KernelContexts KernelTickets TextScan Function

inductive ResourceKind where
  | cap (name : String)
  | sub (topic : String)
  | timer (label : String) (intervalMs : Nat)
  | task (label : String)
  | failAcquire (label : String)
  | failRelease (label : String)
  deriving DecidableEq, Repr

def ResourceKind.label : ResourceKind → String
  | cap name => name
  | sub topic => topic
  | timer label _ => label
  | task label => label
  | failAcquire label => label
  | failRelease label => label

inductive ResourceState where
  | active
  | released
  deriving DecidableEq, Repr

structure ResourceRecord where
  handle : ResourceHandle
  kind : ResourceKind
  ownerContext : ContextId
  ownerInstance : InstanceId
  ownerLogical : String
  generation : Nat
  state : ResourceState
  seq : Nat
  deriving DecidableEq, Repr

inductive AcquireError where
  | invalidName (name : String)
  | failInjected (label : String)
  deriving DecidableEq, Repr

def AcquireError.text : AcquireError → String
  | invalidName name => s!"invalid resource name: {name}"
  | failInjected label => s!"injected acquire failure: {label}"

inductive ReleaseError where
  | unknownHandle (handle : ResourceHandle)
  | alreadyReleased (handle : ResourceHandle)
  | cleanupFailed (handle : ResourceHandle) (reason : String)
  deriving DecidableEq, Repr

/-- The name check shared by every kind that carries one. -/
def validateName (name : String) : Except AcquireError Unit :=
  if isBlank name then .error (.invalidName name) else .ok ()

def validateKind : ResourceKind → Except AcquireError Unit
  | .cap name => validateName name
  | .sub topic => validateName topic
  | .timer label intervalMs => do
    validateName label
    if intervalMs = 0 ∨ 60000 < intervalMs then
      .error (.invalidName s!"interval_ms out of range: {intervalMs}")
    else .ok ()
  | .task label => validateName label
  | .failAcquire label => .error (.failInjected label)
  | .failRelease label => validateName label

/-- Who a resource is registered for. -/
structure Owner where
  context : ContextId
  instanceId : InstanceId
  logical : String
  generation : Nat

structure ReleaseClaim where
  handle : ResourceHandle
  kind : ResourceKind
  ownerContext : ContextId
  deriving DecidableEq, Repr

/-- Every record is listed under its owner and under no other context. -/
structure ResourceTable where
  nextHandle : ResourceHandle
  nextSeq : Nat
  records : ResourceHandle → Option ResourceRecord
  byOwner : ContextId → List ResourceHandle
  totalReleases : Nat
  doubleReleaseAttempts : Nat
  issued : ∀ h r, records h = some r → r.handle = h ∧ h < nextHandle
  listed : ∀ c h, h ∈ byOwner c → h < nextHandle
  owned : ∀ h r c, records h = some r → (h ∈ byOwner c ↔ r.ownerContext = c)

namespace ResourceTable

def new : ResourceTable where
  nextHandle := 1
  nextSeq := 1
  records _ := none
  byOwner _ := []
  totalReleases := 0
  doubleReleaseAttempts := 0
  issued _ _ h := nomatch h
  listed _ _ h := nomatch h
  owned _ _ _ h := nomatch h

def registered (t : ResourceTable) (o : Owner) (kind : ResourceKind) : ResourceRecord :=
  ⟨t.nextHandle, kind, o.context, o.instanceId, o.logical, o.generation, .active, t.nextSeq⟩

/-- The critical section of `register`: ownership is recorded before any effect. -/
def insert (t : ResourceTable) (o : Owner) (kind : ResourceKind) :
    ResourceHandle × ResourceTable :=
  (t.nextHandle,
    { t with
      nextHandle := t.nextHandle + 1
      nextSeq := t.nextSeq + 1
      records := update t.records t.nextHandle (t.registered o kind)
      byOwner := update t.byOwner o.context (t.byOwner o.context ++ [t.nextHandle])
      issued := by
        intro h r hr
        by_cases hh : h = t.nextHandle
        · subst hh
          rw [update_self] at hr
          cases hr
          exact ⟨rfl, Nat.lt_succ_self _⟩
        · rw [update_of_ne hh] at hr
          exact ⟨(t.issued h r hr).1, Nat.lt_succ_of_lt (t.issued h r hr).2⟩
      listed := by
        intro c h hh
        by_cases hc : c = o.context
        · subst hc
          rw [update_self, List.mem_append, List.mem_singleton] at hh
          rcases hh with hh | rfl
          · exact Nat.lt_succ_of_lt (t.listed _ h hh)
          · exact Nat.lt_succ_self _
        · rw [update_of_ne hc] at hh
          exact Nat.lt_succ_of_lt (t.listed c h hh)
      owned := by
        intro h r c hr
        by_cases hh : h = t.nextHandle
        · subst hh
          rw [update_self] at hr
          cases hr
          by_cases hc : c = o.context
          · subst hc
            simp [registered]
          · have hnot : t.nextHandle ∉ t.byOwner c :=
              fun hmem => Nat.lt_irrefl _ (t.listed c _ hmem)
            simp [update_of_ne hc, hnot, registered, Ne.symm hc]
        · rw [update_of_ne hh] at hr
          rw [← t.owned h r c hr]
          by_cases hc : c = o.context
          · subst hc
            simp [hh]
          · rw [update_of_ne hc] })

/-- Drop a record that was registered but never published. -/
def discard (t : ResourceTable) (handle : ResourceHandle) (owner : ContextId) : ResourceTable :=
  { t with
    records := update t.records handle none
    byOwner := update t.byOwner owner
      ((t.byOwner owner).filter fun h => decide (h ≠ handle))
    issued := by
      intro h r hr
      by_cases hh : h = handle
      · subst hh
        simp at hr
      · rw [update_of_ne hh] at hr
        exact t.issued h r hr
    listed := by
      intro c h hh
      by_cases hc : c = owner
      · subst hc
        rw [update_self] at hh
        exact t.listed c h (List.mem_of_mem_filter hh)
      · rw [update_of_ne hc] at hh
        exact t.listed c h hh
    owned := by
      intro h r c hr
      by_cases hh : h = handle
      · subst hh
        simp at hr
      · rw [update_of_ne hh] at hr
        rw [← t.owned h r c hr]
        by_cases hc : c = owner
        · subst hc
          simp [hh]
        · rw [update_of_ne hc] }

def rollbackRegister (t : ResourceTable) (handle : ResourceHandle) : ResourceTable :=
  match t.records handle with
  | some rec => if rec.state = .active then t.discard handle rec.ownerContext else t
  | none => t

/-- The first look of `begin_release`, which refuses what it cannot release. -/
def inspectRelease (t : ResourceTable) (handle : ResourceHandle) :
    Except ReleaseError Unit × ResourceTable :=
  match t.records handle with
  | none => (.error (.unknownHandle handle), t)
  | some rec =>
    if rec.state = .released then
      (.error (.alreadyReleased handle),
        { t with doubleReleaseAttempts := t.doubleReleaseAttempts + 1 })
    else
      match rec.kind with
      | .failRelease label =>
        (.error (.cleanupFailed handle s!"resource '{label}' refused release"), t)
      | _ => (.ok (), t)

/-- The record of `handle` marked released. -/
def retire (t : ResourceTable) (handle : ResourceHandle) : ResourceTable :=
  { t with
    records := update t.records handle
      ((t.records handle).map fun rec => { rec with state := .released })
    totalReleases := t.totalReleases + 1
    issued := by
      intro h r hr
      by_cases hh : h = handle
      · subst hh
        rw [update_self, Option.map_eq_some_iff] at hr
        obtain ⟨r', hr', rfl⟩ := hr
        exact t.issued h r' hr'
      · rw [update_of_ne hh] at hr
        exact t.issued h r hr
    owned := by
      intro h r c hr
      by_cases hh : h = handle
      · subst hh
        rw [update_self, Option.map_eq_some_iff] at hr
        obtain ⟨r', hr', rfl⟩ := hr
        exact t.owned h r' c hr'
      · rw [update_of_ne hh] at hr
        exact t.owned h r c hr }

/-- The second look of `begin_release`: revalidate under the lock and mark. -/
def claimRelease (t : ResourceTable) (handle : ResourceHandle) :
    Except ReleaseError ReleaseClaim × ResourceTable :=
  match t.records handle with
  | none => (.error (.unknownHandle handle), t)
  | some rec =>
    if rec.state = .released then
      (.error (.alreadyReleased handle),
        { t with doubleReleaseAttempts := t.doubleReleaseAttempts + 1 })
    else (.ok ⟨handle, rec.kind, rec.ownerContext⟩, t.retire handle)

def activeFor (t : ResourceTable) (owner : ContextId) : Nat :=
  ((t.byOwner owner).filter fun h =>
    (t.records h).any fun r => decide (r.state = .active)).length

end ResourceTable

end MatrixRuntime.KernelResources
