import MatrixRuntime.KernelState
import MatrixRuntime.InterleavedProgram

/-! The atomic actions of the kernel: one for each critical section the modelled
functions enter. Reads and writes of a table are grouped by the lock they take;
an action on one table leaves every other table alone. -/

namespace MatrixRuntime.KernelActions

open KernelContexts KernelTickets KernelResources KernelPublications DependencyGraph KernelState
open JsonValue InterleavedProgram

/-- Which caller writes `CleanupPending`: a dispose that saw live work, a dispose or a
finalization that failed to release, or the refresh of the recorded cause. -/
inductive CleanupWriter where
  | parked
  | failed
  | refreshed
  deriving DecidableEq, Repr

/-- Which caller takes a ticket out: a close, a settlement, or a raw rollback. -/
inductive Remover where
  | close
  | settle
  | rollback
  deriving DecidableEq, Repr

inductive ContextAct : Type → Type where
  | epoch : ContextAct Nat
  | create (logical : String) (state : Fsm) (cause : Option String) : ContextAct ContextRecord
  | get (inst : InstanceId) : ContextAct (Option ContextRecord)
  | current (logical : String) : ContextAct (Option ContextRecord)
  | currentAll : ContextAct (String → Option ContextRecord)
  | requireActive (inst : InstanceId) : ContextAct (Except ContextError ContextRecord)
  | claimDispose (inst : InstanceId) : ContextAct (Except ContextError DisposeClaim)
  | markDisposed (inst : InstanceId) : ContextAct Unit
  | markCleanupPending (writer : CleanupWriter) (inst : InstanceId) (cause : String) :
      ContextAct Unit
  | markFailed (inst : InstanceId) (cause : String) : ContextAct Unit
  | markActive (inst : InstanceId) : ContextAct Bool
  | markWaiting (inst : InstanceId) (cause : String) : ContextAct Bool

def ContextAct.run {β : Type} : ContextAct β → ContextTable → β × ContextTable
  | epoch, t => (t.epoch, t)
  | create logical state cause, t => t.createIn logical state cause
  | get inst, t => (t.byInstance inst, t)
  | current logical, t => (t.current logical, t)
  | currentAll, t => (t.current, t)
  | requireActive inst, t => (t.requireActive inst, t)
  | claimDispose inst, t => t.claimDispose inst
  | markDisposed inst, t => ((), t.markDisposed inst)
  | markCleanupPending _ inst cause, t => ((), t.markCleanupPending inst cause)
  | markFailed inst cause, t => ((), t.markFailed inst cause)
  | markActive inst, t => t.markActive inst
  | markWaiting inst cause, t => t.markWaiting inst cause

inductive TicketAct : Type → Type where
  | get (id : TicketId) : TicketAct (Option TicketRecord)
  | openChildrenOf (parent : TicketId) : TicketAct (List TicketRecord)
  | pendingFor (inst : InstanceId) : TicketAct (List TicketRecord)
  | pendingCount (inst : InstanceId) : TicketAct Nat
  | inflightCount : TicketAct Nat
  | alloc (admission : CallsTable.Admission) : TicketAct TicketId
  | setDepMeta (id : TicketId) (dep : DepChild) : TicketAct Bool
  | revokeDescendants (parent : TicketId) (reason : String) : TicketAct (List TicketRecord)
  | revokeChildrenOfConsumer (consumer : InstanceId) (reason : String) :
      TicketAct (List TicketRecord)
  | revokeGrantChildren (consumer cap : String) (keepRev : Option Nat) (reason : String) :
      TicketAct (List TicketRecord)
  | markCommittedIfAdmitted (id : TicketId) : TicketAct Bool
  | expireTicket (id : TicketId) : TicketAct Bool
  | setState (id : TicketId) (state : TicketState) : TicketAct Bool
  | setDrainUntil (id : TicketId) (instant : Nat) : TicketAct Bool
  | cancel (id : TicketId) (reason : String) : TicketAct Bool
  | expireOverdue (now : Nat) : TicketAct (List TicketId)
  | remove (remover : Remover) (id : TicketId) : TicketAct (Option TicketRecord)
  | pushEffect (ticket : TicketId) (logical : String) (inst : InstanceId) (generation : Nat)
      (kind : String) (payload : Json) : TicketAct CommittedEffect
  | tryClaimCleanup (inst : InstanceId) : TicketAct Bool
  | releaseCleanupClaim (inst : InstanceId) : TicketAct Unit

def TicketAct.run {β : Type} : TicketAct β → CallsTable → β × CallsTable
  | get id, c => (c.get id, c)
  | openChildrenOf parent, c => (c.openChildrenOf parent, c)
  | pendingFor inst, c => (c.pendingFor inst, c)
  | pendingCount inst, c => (c.pendingCount inst, c)
  | inflightCount, c => (c.inflightCount, c)
  | alloc admission, c => c.alloc admission
  | setDepMeta id dep, c => c.setDepMeta id dep
  | revokeDescendants parent reason, c => c.revokeDescendants parent reason
  | revokeChildrenOfConsumer consumer reason, c => c.revokeChildrenOfConsumer consumer reason
  | revokeGrantChildren consumer cap keepRev reason, c =>
    c.revokeGrantChildren consumer cap keepRev reason
  | markCommittedIfAdmitted id, c => c.markCommittedIfAdmitted id
  | expireTicket id, c => c.expireTicket id
  | setState id state, c => c.setState id state
  | setDrainUntil id instant, c => c.setDrainUntil id instant
  | cancel id reason, c => c.cancel id reason
  | expireOverdue now, c => c.expireOverdue now
  | remove _ id, c => c.remove id
  | pushEffect ticket logical inst generation kind payload, c =>
    c.pushEffect ticket logical inst generation kind payload
  | tryClaimCleanup inst, c => c.tryClaimCleanup inst
  | releaseCleanupClaim inst, c => ((), c.releaseCleanupClaim inst)

inductive ResourceAct : Type → Type where
  | handlesFor (owner : ContextId) : ResourceAct (List ResourceHandle)
  | activeFor (owner : ContextId) : ResourceAct Nat
  | record (handle : ResourceHandle) : ResourceAct (Option ResourceRecord)
  | insert (owner : Owner) (kind : ResourceKind) : ResourceAct ResourceHandle
  | discard (handle : ResourceHandle) (owner : ContextId) : ResourceAct Unit
  | rollbackRegister (handle : ResourceHandle) : ResourceAct Unit
  | inspectRelease (handle : ResourceHandle) : ResourceAct (Except ReleaseError Unit)
  | claimRelease (handle : ResourceHandle) : ResourceAct (Except ReleaseError ReleaseClaim)

def ResourceAct.run {β : Type} : ResourceAct β → ResourceTable → β × ResourceTable
  | handlesFor owner, t => (t.byOwner owner, t)
  | activeFor owner, t => (t.activeFor owner, t)
  | record handle, t => (t.records handle, t)
  | insert owner kind, t => t.insert owner kind
  | discard handle owner, t => ((), t.discard handle owner)
  | rollbackRegister handle, t => ((), t.rollbackRegister handle)
  | inspectRelease handle, t => t.inspectRelease handle
  | claimRelease handle, t => t.claimRelease handle

inductive PublishAct : Type → Type where
  | resolveRef (cap : String) : PublishAct (Option InstanceRef)
  | provideInstance (cap : String) (ref : InstanceRef) : PublishAct Unit
  | revokeCapIfOwned (cap : String) (inst : InstanceId) : PublishAct Unit
  | subscribeInstance (logical : String) (inst : InstanceId) (topic : String) : PublishAct Unit
  | unsubscribeTopicIfOwned (inst : InstanceId) (topic : String) : PublishAct Unit

def PublishAct.run {β : Type} : PublishAct β → Publications → β × Publications
  | resolveRef cap, p => (p.resolveRef cap, p)
  | provideInstance cap ref, p => ((), p.provideInstance cap ref)
  | revokeCapIfOwned cap inst, p => ((), p.revokeCapIfOwned cap inst)
  | subscribeInstance logical inst topic, p => ((), p.subscribeInstance logical inst topic)
  | unsubscribeTopicIfOwned inst topic, p => ((), p.unsubscribeTopicIfOwned inst topic)

inductive ComposeAct : Type → Type where
  | definitions : ComposeAct Definitions
  | putDefinition (manifest : StoredManifest) : ComposeAct Unit
  | removeDefinition (logical : String) : ComposeAct Unit
  | plugin (logical : String) : ComposeAct (Option Plugin)
  | putPlugin (logical : String) (entry : Plugin) : ComposeAct Unit
  | markPlugin (logical : String) (inst : InstanceId) (state : Fsm) : ComposeAct Unit
  | syncWaiting (logical reason : String) : ComposeAct Bool
  | setWaiting (logical reason : String) : ComposeAct Unit
  | promotePlugin (logical : String) (inst : InstanceId) (bindings : List Binding)
      (resources : List ResourceHandle) : ComposeAct Bool
  | pushResource (logical : String) (inst : InstanceId) (generation : Nat)
      (handle : ResourceHandle) : ComposeAct Unit
  | dropResource (logical : String) (handle : ResourceHandle) : ComposeAct Unit
  | faultPlugin (logical : String) (now : Nat) : ComposeAct Bool
  | failPlugin (logical : String) : ComposeAct Unit
  | setJsonState (logical : String) (json : Json) : ComposeAct Unit
  | remoteKeys : ComposeAct (List String)
  | remote (logical : String) : ComposeAct (Option RemoteProvider)
  | putRemote (logical : String) (reg : RemoteProvider) : ComposeAct Unit
  | removeRemote (logical : String) : ComposeAct Bool
  | binding (id : String) : ComposeAct (Option DepBinding)
  | retainBindings (keep : DepBinding → Bool) : ComposeAct Unit
  | issueBindings (defs : Definitions) (cur : ContextRecord) (bindings : List Binding) :
      ComposeAct Unit

def ComposeAct.run {β : Type} : ComposeAct β → Composition → β × Composition
  | definitions, c => (c.definitions, c)
  | putDefinition manifest, c =>
    ((), { c with definitions := c.definitions.insert manifest.id manifest })
  | removeDefinition logical, c => ((), { c with definitions := c.definitions.erase logical })
  | plugin logical, c => (c.plugins logical, c)
  | putPlugin logical entry, c => ((), c.put logical entry)
  | markPlugin logical inst state, c => ((), c.mark logical inst state)
  | syncWaiting logical reason, c => c.syncWaiting logical reason
  | setWaiting logical reason, c => ((), c.adjust logical (Composition.waitingEntry reason))
  | promotePlugin logical inst bindings resources, c =>
    c.promote logical inst bindings resources
  | pushResource logical inst generation handle, c =>
    ((), c.pushResource logical inst generation handle)
  | dropResource logical handle, c => ((), c.dropResource logical handle)
  | faultPlugin logical now, c => c.fault logical now
  | failPlugin logical, c => ((), c.adjust logical fun p => { p with state := .failed })
  | setJsonState logical json, c => ((), c.adjust logical fun p => { p with jsonState := json })
  | remoteKeys, c => (c.remotes.keys, c)
  | remote logical, c => (c.remotes.lookup logical, c)
  | putRemote logical reg, c => ((), { c with remotes := c.remotes.insert logical reg })
  | removeRemote logical, c =>
    ((c.remotes.lookup logical).isSome, { c with remotes := c.remotes.erase logical })
  | binding id, c => (c.bindings id, c)
  | retainBindings keep, c => ((), c.retain keep)
  | issueBindings defs cur bindings, c => ((), c.issueAll defs cur bindings)

inductive GrantAct : Type → Type where
  | nextRevision : GrantAct Nat
  | grant (consumer cap : String) : GrantAct (Option Nat)
  | put (consumer cap : String) (rev : Nat) : GrantAct Unit
  | remove (consumer cap : String) : GrantAct Unit

/-- What a call tells its caller before it goes on: the opener was handed this ticket. -/
inductive Note where
  | opened (ticket : TicketId)
  deriving DecidableEq, Repr

inductive KAct : Type → Type 1 where
  | ctx {β : Type} (a : ContextAct β) : KAct β
  | calls {β : Type} (a : TicketAct β) : KAct β
  | res {β : Type} (a : ResourceAct β) : KAct β
  | pub {β : Type} (a : PublishAct β) : KAct β
  | comp {β : Type} (a : ComposeAct β) : KAct β
  | grant {β : Type} (a : GrantAct β) : KAct β
  | reserve (session : String) (limits : OutboundLimits) : KAct (Except String Unit)
  | release (session : String) : KAct Unit
  | lockAdmit : KAct Unit
  | unlockAdmit : KAct Unit
  | awaitSettled (inst : InstanceId) (instant : Nat) : KAct Bool
  | now : KAct Nat
  | spawn : KAct Bool
  | dryRun : KAct Bool
  | journal (entry : JournalEntry) : KAct Unit
  | emit (event : LifecycleEvent) : KAct Unit
  | note (n : Note) : KAct Unit

def GrantAct.run {β : Type} : GrantAct β → KState → β × KState
  | nextRevision, s => (s.grantSeq, { s with grantSeq := s.grantSeq + 1 })
  | grant consumer cap, s => (s.grants (consumer, cap), s)
  | put consumer cap rev, s =>
    ((), { s with grants := Function.update s.grants (consumer, cap) (some rev) })
  | remove consumer cap, s =>
    ((), { s with grants := Function.update s.grants (consumer, cap) none })

/-- The effect of an action, if it is enabled: the admission lock must be free, and a wait for
an instance ends when its last ticket goes or its instant arrives. -/
def KAct.sem {β : Type} : KAct β → KState → Option (β × KState)
  | ctx a, s => some ((a.run s.contexts).1, { s with contexts := (a.run s.contexts).2 })
  | calls a, s => some ((a.run s.calls).1, { s with calls := (a.run s.calls).2 })
  | res a, s => some ((a.run s.resources).1, { s with resources := (a.run s.resources).2 })
  | pub a, s =>
    some ((a.run s.publications).1, { s with publications := (a.run s.publications).2 })
  | comp a, s =>
    some ((a.run s.composition).1, { s with composition := (a.run s.composition).2 })
  | grant a, s => some (a.run s)
  | reserve session limits, s =>
    let (reply, usage) := s.usage.reserve session limits s.calls.inflightCount
    some (reply, { s with usage := usage })
  | release session, s => some ((), { s with usage := s.usage.release session })
  | lockAdmit, s => if s.admitHeld then none else some ((), { s with admitHeld := true })
  | unlockAdmit, s => some ((), { s with admitHeld := false })
  | awaitSettled inst instant, s =>
    if s.calls.pendingCount inst = 0 then some (true, s)
    else if instant ≤ s.clock then some (false, s)
    else none
  | now, s => some (s.clock, s)
  | spawn, s => some (s.spawnOk, s)
  | dryRun, s => some (s.dryRun, s)
  | journal entry, s => some ((), { s with journal := s.journal ++ [entry] })
  | emit event, s => some ((), { s with outbox := s.outbox ++ [event] })
  | note _, s => some ((), s)

/-- The five tables that the lifecycle and call functions share. -/
structure SameTables (s s' : KState) : Prop where
  contexts : s'.contexts = s.contexts
  calls : s'.calls = s.calls
  resources : s'.resources = s.resources
  publications : s'.publications = s.publications
  composition : s'.composition = s.composition

/-- The action belongs to one of the five tables. -/
def KAct.onTable {β : Type} : KAct β → Bool
  | ctx _ | calls _ | res _ | pub _ | comp _ => true
  | _ => false

theorem KAct.sem_sameTables {β : Type} {a : KAct β} {s s' : KState} {b : β}
    (h : a.sem s = some (b, s')) (off : a.onTable = false) : SameTables s s' := by
  cases a with
  | ctx | calls | res | pub | comp => cases off
  | grant a =>
    cases a <;>
    · cases h
      exact ⟨rfl, rfl, rfl, rfl, rfl⟩
  | lockAdmit =>
    simp only [KAct.sem] at h
    split_ifs at h
    cases h
    exact ⟨rfl, rfl, rfl, rfl, rfl⟩
  | awaitSettled inst instant =>
    simp only [KAct.sem] at h
    split_ifs at h <;>
    · cases h
      exact ⟨rfl, rfl, rfl, rfl, rfl⟩
  | _ =>
    cases h
    exact ⟨rfl, rfl, rfl, rfl, rfl⟩

/-- Time passes, or the system becomes unable or able again to start threads. -/
inductive KEnv where
  | tick (ms : Nat)
  | spawn (ok : Bool)
  deriving DecidableEq, Repr

def KEnv.apply : KEnv → KState → KState
  | tick ms, s => { s with clock := s.clock + ms }
  | spawn ok, s => { s with spawnOk := ok }

abbrev KProg (α : Type) := Prog KAct α

def ctx {β : Type} (a : ContextAct β) : KProg β := perform (.ctx a)

def calls {β : Type} (a : TicketAct β) : KProg β := perform (.calls a)

def res {β : Type} (a : ResourceAct β) : KProg β := perform (.res a)

def pub {β : Type} (a : PublishAct β) : KProg β := perform (.pub a)

def comp {β : Type} (a : ComposeAct β) : KProg β := perform (.comp a)

def journal (fiber : String) (kind : JournalKind) (subject : Nat) (reason : String) :
    KProg Unit :=
  perform (.journal ⟨fiber, kind, subject, reason⟩)

end MatrixRuntime.KernelActions
