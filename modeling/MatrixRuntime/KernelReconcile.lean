import MatrixRuntime.KernelActions

/-! Lifecycle: releasing and acquiring an activation's resources, disposal,
finalization and the reconciler. Finalization reconciles, and reconciliation
disposes; the reconciler to run after a finalization settles is a parameter here
and the knot is tied by a bound on the nesting. A reconciler nested deeper than
the bound never returns, so every step taken under a bound is one the kernel can
take. -/

namespace MatrixRuntime.KernelReconcile

open KernelContexts KernelTickets KernelResources DependencyGraph KernelState JsonValue
open InterleavedProgram KernelActions

/-! ### Resources of an activation -/

/-- The thread behind a timer or a task; without one the record is taken back. -/
def startThread (handle : ResourceHandle) (owner : Owner) (what : String) :
    KProg (Except AcquireError ResourceHandle) := do
  let started ← perform .spawn
  if started then pure (.ok handle)
  else do
    res (.discard handle owner.context)
    pure (.error (.failInjected s!"{what} spawn failed"))

def register (owner : Owner) (kind : ResourceKind) :
    KProg (Except AcquireError ResourceHandle) :=
  match validateKind kind with
  | .error e => pure (.error e)
  | .ok () => do
    let handle ← res (.insert owner kind)
    match kind with
    | .timer _ _ => startThread handle owner "timer"
    | .task _ => startThread handle owner "task"
    | _ => pure (.ok handle)

def beginRelease (handle : ResourceHandle) : KProg (Except ReleaseError ReleaseClaim) := do
  match ← res (.inspectRelease handle) with
  | .error e => pure (.error e)
  | .ok () => res (.claimRelease handle)

def revokePublication (inst : InstanceId) : ResourceKind → KProg Unit
  | .cap name => pub (.revokeCapIfOwned name inst)
  | .sub topic => pub (.unsubscribeTopicIfOwned inst topic)
  | _ => pure ()

/-- One handle of `release_context_resources`; the failure, if there is one. -/
def releaseOwned (rec : ContextRecord) (handle : ResourceHandle) : KProg (List String) := do
  match ← res (.record handle) with
  | none => pure []
  | some rr =>
    if rr.state ≠ .active ∨ rr.ownerContext ≠ rec.context then pure []
    else do
      match ← beginRelease handle with
      | .ok claim => do
        revokePublication rec.instanceId claim.kind
        pure []
      | .error (.cleanupFailed _ reason) => pure [reason]
      | .error _ => pure []

def releaseHandles (rec : ContextRecord) : List ResourceHandle → KProg (List String)
  | [] => pure []
  | h :: hs => do
    let failure ← releaseOwned rec h
    let rest ← releaseHandles rec hs
    pure (failure ++ rest)

def releaseContextResources (rec : ContextRecord) : KProg (List String) := do
  let handles ← res (.handlesFor rec.context)
  releaseHandles rec handles.reverse

def rollbackAcquired (inst : InstanceId) (acquired : List ResourceHandle) : KProg Unit :=
  forEach acquired.reverse fun h => do
    match ← beginRelease h with
    | .ok claim => revokePublication inst claim.kind
    | .error _ => pure ()

/-- Register and publish the items of a definition in order; a refusal takes back those
acquired so far. -/
def acquireItems (cur : ContextRecord) (manifest : StoredManifest) (kind : String → ResourceKind)
    (publish : String → KProg Unit) :
    List String → List ResourceHandle → KProg (Except String (List ResourceHandle))
  | [], acquired => pure (.ok acquired)
  | item :: items, acquired => do
    let owner : Owner := ⟨cur.context, cur.instanceId, manifest.id, cur.generation⟩
    match ← register owner (kind item) with
    | .ok h => do
      publish item
      acquireItems cur manifest kind publish items (acquired ++ [h])
    | .error e => do
      rollbackAcquired cur.instanceId acquired
      pure (.error e.text)

def acquireDefinitionResources (cur : ContextRecord) (manifest : StoredManifest) :
    KProg (Except String (List ResourceHandle)) := do
  let caps ← acquireItems cur manifest .cap
    (fun c => pub (.provideInstance c cur.reference)) manifest.caps []
  match caps with
  | .error e => pure (.error e)
  | .ok acquired =>
    acquireItems cur manifest .sub
      (fun t => pub (.subscribeInstance manifest.id cur.instanceId t)) manifest.subs acquired

/-! ### Resolution -/

abbrev States := String → Option ContextRecord

/-- The synthetic `Active` record of a registered remote provider. -/
def remoteState (logical : String) : KProg (Option ContextRecord) := do
  match ← comp (.remote logical) with
  | none => pure none
  | some reg => do
    let defs ← comp .definitions
    if (defs.lookup logical).isNone then pure none
    else do
      let epoch ← ctx .epoch
      pure (some ⟨2 ^ 64 - 1, reg.instanceId, reg.logical, reg.generation, epoch, .active, none⟩)

def mergeRemotes : List String → States → KProg States
  | [], states => pure states
  | l :: ls, states => do
    match ← remoteState l with
    | some rec => mergeRemotes ls (Function.update states l (some rec))
    | none => mergeRemotes ls states

def currentAllMerged : KProg States := do
  let states ← ctx .currentAll
  let regs ← comp .remoteKeys
  mergeRemotes regs states

/-- What a provider that is not `Active` is reported as. -/
def describeState (rec : ContextRecord) : String :=
  match rec.cause with
  | some c => s!"{rec.state.asStr} ({c})"
  | none => rec.state.asStr

/-- Bind a requirement to the provider it settled on, which must be `Active`. -/
def bindTo (states : States) (req : Requirement) (provider : String) :
    Except ResolveError Binding :=
  match states provider with
  | none => .error (.providerNotActive req.interface provider "unknown")
  | some rec =>
    if rec.state.canonical ≠ .active then
      .error (.providerNotActive req.interface provider (describeState rec))
    else .ok ⟨req.interface, provider, rec.instanceId, rec.generation⟩

def resolveRequirement (defs : Definitions) (states : States) (req : Requirement) :
    Except ResolveError Binding :=
  match req.provider with
  | some want =>
    match defs.lookup want with
    | none => .error (.unknownProvider req.interface want)
    | some pdef =>
      if pdef.caps.any fun c => capSatisfies c req then bindTo states req want
      else
        let caps := ", ".intercalate pdef.caps
        .error (.versionMismatch req.interface want s!"{want} provides [{caps}]")
  | none =>
    match providerCandidates req (providesOf defs) with
    | [] => .error (.missing req.interface)
    | [provider] => bindTo states req provider
    | cands => .error (.ambiguous req.interface (sorted cands))

def resolveAll (defs : Definitions) (states : States) :
    List Requirement → Except ResolveError (List Binding)
  | [] => .ok []
  | req :: reqs =>
    match resolveRequirement defs states req with
    | .error e => .error e
    | .ok b =>
      match resolveAll defs states reqs with
      | .error e => .error e
      | .ok bs => .ok (b :: bs)

/-- `resolve_for` outside a cycle, which is the only way the kernel calls it. -/
def resolveFor (logical : String) (defs : Definitions) (states : States) :
    Except ResolveError (List Binding) :=
  match defs.lookup logical with
  | none => .error (.missing logical)
  | some manifest => resolveAll defs states manifest.requires

/-- The binding still points at the current, live activation of its provider. -/
def boundLive (states : States) (b : Binding) : Bool :=
  (states b.providerLogical).any fun rec =>
    decide (rec.state.canonical = .active ∧ rec.instanceId = b.providerInstance ∧
      rec.generation = b.providerGeneration)

def bindingsStale (logical : String) (states : States) : KProg Bool := do
  let p ← comp (.plugin logical)
  pure (p.any fun p => !p.bindings.all (boundLive states))

/-! ### Activation and withdrawal -/

def initialJsonState (reducer : String) (initState : Json) : Json :=
  if reducer = "counter" then .obj [("state", .num 0)]
  else if reducer = "clock" then .obj [("count", .num 0)]
  else initState

/-- The plugin entry of a fresh activation. -/
def newEntry (manifest : StoredManifest) (cur : ContextRecord) (state : Fsm)
    (bindings : List Binding) (waitCause : Option String) (jsonState : Json)
    (resources : List ResourceHandle) : Plugin where
  id := manifest.id
  state := state
  generation := cur.generation
  bindings := bindings
  calls := manifest.calls
  execution := manifest.execution
  waitCause := waitCause
  reducer := manifest.reducer
  jsonState := jsonState
  panicCount := 0
  restartTimes := []
  instanceId := cur.instanceId
  resources := resources

def waitingPlugin (manifest : StoredManifest) (cur : ContextRecord) (reason : String) : Plugin :=
  newEntry manifest cur .waiting [] (some reason)
    (initialJsonState manifest.reducer manifest.initState) []

def createWaitingInstance (manifest : StoredManifest) (reason : String) :
    KProg ContextRecord := do
  let cur ← ctx (.create manifest.id .waiting (some reason))
  comp (.putPlugin manifest.id (waitingPlugin manifest cur reason))
  journal manifest.id .pluginWaiting cur.instanceId reason
  pure cur

/-- The branch of `ensure_waiting` for an instance that is already waiting. -/
def renewWaiting (logical : String) (manifest : StoredManifest) (cur : ContextRecord)
    (reason : String) : KProg Bool :=
  if cur.cause = some reason then do
    let changed ← comp (.syncWaiting logical reason)
    if changed then do
      comp (.putPlugin logical (waitingPlugin manifest cur reason))
      pure true
    else pure false
  else do
    let _ ← ctx (.markWaiting cur.instanceId reason)
    comp (.setWaiting logical reason)
    journal logical .pluginWaiting cur.instanceId reason
    pure true

def ensureWaiting (logical : String) (defs : Definitions) (reason : String) : KProg Bool :=
  match defs.lookup logical with
  | none => pure false
  | some manifest => do
    match ← ctx (.current logical) with
    | none => do
      let _ ← createWaitingInstance manifest reason
      pure true
    | some cur =>
      match cur.state.canonical with
      | .waiting | .preparing | .registered => renewWaiting logical manifest cur reason
      | .disposed => do
        let _ ← createWaitingInstance manifest reason
        pure true
      | _ => pure false

def emitActivated (logical : String) (cur : ContextRecord) : KProg Unit := do
  let defs ← comp .definitions
  match defs.lookup logical with
  | none => pure ()
  | some manifest =>
    match manifest.execution with
    | .external entrypoint args timeoutMs =>
      perform (.emit (.activated logical cur.instanceId cur.generation entrypoint args timeoutMs))
    | .inProcess => pure ()

def issueDepBindings (logical : String) (cur : ContextRecord) (bindings : List Binding) :
    KProg Unit := do
  match ← ctx (.get cur.instanceId) with
  | none => pure ()
  | some rec =>
    if rec.logical ≠ logical ∨ rec.generation ≠ cur.generation then pure ()
    else do
      let defs ← comp .definitions
      comp (.issueBindings defs rec bindings)

/-- What both activation paths do once the instance is `Active`. -/
def announceActive (logical : String) (cur : ContextRecord) (bindings : List Binding) :
    KProg Unit := do
  journal logical .pluginActive cur.instanceId ""
  emitActivated logical cur
  issueDepBindings logical cur bindings

def promoteWaiting (logical : String) (manifest : StoredManifest) : KProg Bool := do
  match ← ctx (.current logical) with
  | none => pure false
  | some cur =>
    if cur.state.canonical ≠ .waiting ∧ cur.state.canonical ≠ .preparing ∧
        cur.state.canonical ≠ .registered then pure false
    else do
      let fresh ← currentAllMerged
      let defs ← comp .definitions
      match resolveFor logical defs fresh with
      | .error e => do
        let _ ← ensureWaiting logical defs e.text
        pure false
      | .ok bindings => do
        match ← acquireDefinitionResources cur manifest with
        | .error e => do
          let _ ← ensureWaiting logical defs s!"acquire failed: {e}"
          pure false
        | .ok acquired => do
          let committed ← comp (.promotePlugin logical cur.instanceId bindings acquired)
          if committed then do
            let active ← ctx (.markActive cur.instanceId)
            if active then do
              announceActive logical cur bindings
              pure true
            else pure false
          else do
            rollbackAcquired cur.instanceId acquired
            pure false

/-! ### Disposal and finalization -/

inductive DisposeOutcome where
  | disposed
  | alreadyDisposed
  | cleanupPending (reason : String)
  deriving DecidableEq, Repr

/-- The prefix of the cause recorded for in-flight work. -/
def inflightCausePrefix : String := "in-flight calls pending: "

/-- The cause that cites the tickets still naming the instance. -/
def inflightCause (pending : List TicketRecord) : String :=
  inflightCausePrefix ++ toString (pending.map (·.id))

def pruneDepBindings (inst : InstanceId) : KProg Unit := do
  let remote ← comp .remoteKeys
  comp (.retainBindings fun b => decide (b.consumerInstance ≠ inst ∧
    (b.providerLogical ∈ remote ∨ b.providerInstance ≠ inst)))

/-- Revoke what the handle published, without touching the ownership record. -/
def unpublish (rec : ContextRecord) (handle : ResourceHandle) : KProg Unit := do
  match ← res (.record handle) with
  | none => pure ()
  | some rr =>
    if rr.ownerContext ≠ rec.context then pure ()
    else revokePublication rec.instanceId rr.kind

def journalRevoked (reason : String) (revoked : List TicketRecord) : KProg Unit :=
  forEach revoked fun t => journal t.logical .callCancelled t.id reason

def revokeTicketDescendants (parent : TicketId) (reason : String) : KProg Unit := do
  let revoked ← calls (.revokeDescendants parent reason)
  journalRevoked reason revoked

/-- The withdraw policy of one pending ticket: cancel it, or give it until its own budget. -/
def withdrawTicket (rec : ContextRecord) (now : Nat) (t : TicketRecord) (drainUntil : Option Nat) :
    KProg (Option Nat) :=
  match t.policy.onWithdraw with
  | .cancel => do
    let marked ← calls (.cancel t.id "withdraw")
    if marked then journal rec.logical .callCancelled t.id "withdraw" else pure ()
    pure drainUntil
  | .drain => do
    let instant := now + t.policy.drainMs
    let _ ← calls (.setDrainUntil t.id instant)
    journal rec.logical .callDraining t.id ""
    pure (some ((drainUntil.map (max · instant)).getD instant))

def withdrawTickets (rec : ContextRecord) (now : Nat) :
    List TicketRecord → Option Nat → KProg (Option Nat)
  | [], drainUntil => pure drainUntil
  | t :: ts, drainUntil => do
    let drainUntil ← withdrawTicket rec now t drainUntil
    withdrawTickets rec now ts drainUntil

/-- The bounded drain. -/
def awaitDrain (inst : InstanceId) : Option Nat → KProg Unit
  | none => pure ()
  | some instant => do
    let now ← perform .now
    if now < instant then do
      let _ ← perform (.awaitSettled inst instant)
      pure ()
    else pure ()

/-- Everything a dispose does to live work between its claim and its verdict. -/
def quiesce (rec : ContextRecord) : KProg Unit := do
  comp (.markPlugin rec.logical rec.instanceId .quiescing)
  pruneDepBindings rec.instanceId
  perform (.emit (.withdrawn rec.logical rec.instanceId rec.generation))
  let handles ← res (.handlesFor rec.context)
  forEach handles (unpublish rec)
  let now ← perform .now
  let pending ← calls (.pendingFor rec.instanceId)
  let drainUntil ← withdrawTickets rec now pending none
  awaitDrain rec.instanceId drainUntil
  let orphans ← calls (.revokeChildrenOfConsumer rec.instanceId "consumer-withdraw")
  journalRevoked "consumer-withdraw" orphans
  let late ← perform .now
  let expired ← calls (.expireOverdue late)
  forEach expired fun id => do
    journal rec.logical .callExpired id "drain-exceeded"
    revokeTicketDescendants id "parent-expired"

/-- Rewrites the cause of a `CleanupPending` context with the tickets it waits for. -/
def refreshCleanupCause (inst : InstanceId) : KProg Unit := do
  match ← ctx (.get inst) with
  | none => pure ()
  | some rec =>
    if rec.state.canonical ≠ .cleanupPending then pure ()
    else if rec.cause.any fun c => inflightCausePrefix.toList.isPrefixOf c.toList then do
      let pending ← calls (.pendingFor inst)
      ctx (.markCleanupPending .refreshed inst (inflightCause pending))
    else pure ()

/-- Finalize an owner with no more live work, and reconcile if that settled it. -/
def maybeFinalize (again : KProg Unit) (inst : InstanceId) : KProg Unit := do
  match ← ctx (.get inst) with
  | none => pure ()
  | some rec =>
    if rec.state.canonical ≠ .cleanupPending then pure ()
    else do
      let live ← calls (.pendingCount inst)
      if 0 < live then refreshCleanupCause inst
      else do
        let claimed ← calls (.tryClaimCleanup inst)
        if claimed then do
          let failures ← releaseContextResources rec
          if failures.isEmpty then do
            ctx (.markDisposed inst)
            comp (.markPlugin rec.logical inst .disposed)
            journal rec.logical .pluginUnloaded inst "cleanup-settled"
            calls (.releaseCleanupClaim inst)
            again
          else do
            ctx (.markCleanupPending .failed inst ("; ".intercalate failures))
            calls (.releaseCleanupClaim inst)
        else pure ()

/-- What a parked dispose reports: it may have been finalized in between. -/
def parkOutcome (inst : InstanceId) (reason : String) : KProg DisposeOutcome := do
  match ← ctx (.get inst) with
  | some cur =>
    if cur.state.canonical = .disposed then pure .disposed
    else do
      let last ← ctx (.get inst)
      pure (.cleanupPending ((last.bind (·.cause)).getD reason))
  | none => do
    let last ← ctx (.get inst)
    pure (.cleanupPending ((last.bind (·.cause)).getD reason))

/-- The verdict of a dispose that saw live work: park, and recheck for a close that landed
in between. -/
def park (again : KProg Unit) (rec : ContextRecord) : KProg DisposeOutcome := do
  let inst := rec.instanceId
  let pending ← calls (.pendingFor inst)
  let reason := inflightCause pending
  ctx (.markCleanupPending .parked inst reason)
  comp (.markPlugin rec.logical inst .cleanupPending)
  journal rec.logical .pluginCleanupPending inst reason
  let live ← calls (.pendingCount inst)
  if live = 0 then maybeFinalize again inst else pure ()
  parkOutcome inst reason

/-- The verdict of a dispose with no live work left. -/
def settleDispose (rec : ContextRecord) : KProg DisposeOutcome := do
  let inst := rec.instanceId
  let failures ← releaseContextResources rec
  if failures.isEmpty then do
    ctx (.markDisposed inst)
    comp (.markPlugin rec.logical inst .disposed)
    journal rec.logical .pluginUnloaded inst ""
    pure .disposed
  else do
    let reason := "; ".intercalate failures
    ctx (.markCleanupPending .failed inst reason)
    comp (.markPlugin rec.logical inst .cleanupPending)
    journal rec.logical .pluginCleanupPending inst reason
    pure (.cleanupPending reason)

def disposeInstanceInner (again : KProg Unit) (inst : InstanceId) : KProg DisposeOutcome := do
  match ← ctx (.get inst) with
  | none => pure .alreadyDisposed
  | some rec =>
    match rec.state.canonical with
    | .disposed | .failed => pure .alreadyDisposed
    | .cleanupPending => pure (.cleanupPending (rec.cause.getD "cleanup pending"))
    | _ => do
      match ← ctx (.claimDispose inst) with
      | .ok (.fresh rec) => do
        quiesce rec
        let live ← calls (.pendingCount inst)
        if 0 < live then park again rec else settleDispose rec
      | .ok (.inFlight _) => pure (.cleanupPending "dispose in progress")
      | .error _ => pure .alreadyDisposed

/-! ### The reconciler -/

def withdrawToWaiting (again : KProg Unit) (logical : String) (defs : Definitions)
    (reason : String) : KProg Bool :=
  match defs.lookup logical with
  | none => pure false
  | some manifest => do
    match ← ctx (.current logical) with
    | none => do
      let _ ← createWaitingInstance manifest reason
      pure true
    | some cur =>
      match cur.state.canonical with
      | .active | .preparing | .registered => do
        let _ ← disposeInstanceInner again cur.instanceId
        let _ ← createWaitingInstance manifest reason
        pure true
      | .waiting => ensureWaiting logical defs reason
      | .disposed => do
        let _ ← createWaitingInstance manifest reason
        pure true
      | _ => pure false

def createActive (again : KProg Unit) (manifest : StoredManifest) (bindings : List Binding)
    (jsonState : Json) : KProg Bool := do
  let cur ← ctx (.create manifest.id .active none)
  match ← acquireDefinitionResources cur manifest with
  | .ok acquired => do
    comp (.putPlugin manifest.id (newEntry manifest cur .active bindings none jsonState acquired))
    announceActive manifest.id cur bindings
    pure true
  | .error e => do
    let _ ← disposeInstanceInner again cur.instanceId
    let defs ← comp .definitions
    let _ ← ensureWaiting manifest.id defs s!"acquire failed: {e}"
    pure false

/-- Whether a reducer's stored state carries over to the next generation. -/
def carriesOver (reducer : String) (json : Json) : Bool :=
  (reducer = "counter" && (json.get "state").isSome) ||
    (reducer = "clock" && (json.get "count").isSome)

def preservedJsonState (logical : String) (manifest : StoredManifest) : KProg Json := do
  let fresh := initialJsonState manifest.reducer manifest.initState
  match ← comp (.plugin logical) with
  | some p => pure (if carriesOver manifest.reducer p.jsonState then p.jsonState else fresh)
  | none => pure fresh

def dropRemote (reason logical : String) : KProg Unit := do
  let _ ← comp (.removeRemote logical)
  comp (.retainBindings fun b => decide (b.providerLogical ≠ logical))
  journal logical .remoteUnregistered 0 reason

def canonicalState (rec : Option ContextRecord) : Option Fsm :=
  rec.map fun r => r.state.canonical

/-- An active member leaves, a waiting one refreshes its reason, a disposed one waits anew. -/
def parkMember (again : KProg Unit) (defs : Definitions) (reason m : String) : KProg Bool := do
  let cur ← ctx (.current m)
  match canonicalState cur with
  | some .active | some .preparing | some .registered | none | some .disposed =>
    withdrawToWaiting again m defs reason
  | some .waiting => ensureWaiting m defs reason
  | _ => pure false

/-- The members of a cycle wait with its path as the reason. -/
def parkCycle (again : KProg Unit) (defs : Definitions) (reason : String) :
    List String → Bool → KProg Bool
  | [], changed => pure changed
  | m :: ms, changed =>
    if (defs.lookup m).isNone then parkCycle again defs reason ms changed
    else do
      let moved ← parkMember again defs reason m
      parkCycle again defs reason ms (changed || moved)

def staleReason : String := "stale-binding: provider replaced; rebinding"

/-- Withdraw a definition that no longer resolves or is bound to a replaced provider. -/
def withdrawStale (again : KProg Unit) (defs : Definitions) (states : States) (l : String) :
    KProg Bool := do
  let stale ← bindingsStale l states
  match resolveFor l defs states with
  | .error e => withdrawToWaiting again l defs e.text
  | .ok _ => if stale then withdrawToWaiting again l defs staleReason else pure false

/-- Consumers before providers, over what is active in the snapshot. -/
def withdrawPass (again : KProg Unit) (defs : Definitions) (states : States) :
    List String → Bool → KProg Bool
  | [], withdrew => pure withdrew
  | l :: ls, withdrew =>
    if (defs.lookup l).isSome ∧ canonicalState (states l) = some .active then do
      let moved ← withdrawStale again defs states l
      withdrawPass again defs states ls (withdrew || moved)
    else withdrawPass again defs states ls withdrew

/-- The activation of one definition; whether something changed. -/
def activate (again : KProg Unit) (defs : Definitions) (states : States) (l : String)
    (manifest : StoredManifest) : KProg Bool :=
  match canonicalState (states l) with
  | some .active => do
    let stale ← bindingsStale l states
    if stale then withdrawToWaiting again l defs staleReason else pure false
  | some .failed | some .cleanupPending | some .quiescing => pure false
  | curState =>
    match resolveFor l defs states with
    | .error e => ensureWaiting l defs e.text
    | .ok bindings =>
      if curState = some .waiting ∨ curState = some .preparing ∨ curState = some .registered then
        promoteWaiting l manifest
      else do
        let json ← preservedJsonState l manifest
        createActive again manifest bindings json

/-- Providers before consumers, up to the first change. -/
def activationPass (again : KProg Unit) (defs : Definitions) (states : States) :
    List String → KProg Bool
  | [] => pure false
  | l :: ls =>
    match defs.lookup l with
    | none => activationPass again defs states ls
    | some manifest =>
      if manifest.remote then activationPass again defs states ls
      else do
        let changed ← activate again defs states l manifest
        if changed then pure true else activationPass again defs states ls

/-- Providers before consumers, or by name when there is no such order. -/
def activationOrder (defs : Definitions) (edges : Edges) : List String :=
  let order := (topoOrder edges).getD []
  if order.isEmpty then sorted defs.keys else order

def staleRemotes (defs : Definitions) (keys : List String) : List String :=
  keys.filter fun l => !(defs.lookup l).any (·.remote)

def reconcileStep (again : KProg Unit) : KProg Bool := do
  let defs ← comp .definitions
  if defs.keys.isEmpty then pure false
  else do
    let keys ← comp .remoteKeys
    let stale := staleRemotes defs keys
    if !stale.isEmpty then do
      forEach stale (dropRemote "definition-gone")
      pure true
    else do
      let edges := graphEdges (requiresOf defs) (providesOf defs)
      match findCycle edges with
      | some path => parkCycle again defs (ResolveError.cycle path).text (sorted path).dedup false
      | none => do
        let order := activationOrder defs edges
        let states ← currentAllMerged
        let withdrew ← withdrawPass again defs states order.reverse false
        if withdrew then pure true
        else do
          let states ← currentAllMerged
          activationPass again defs states order

def reconcileLoop (again : KProg Unit) : Nat → KProg Unit
  | 0 => pure ()
  | n + 1 => do
    let changed ← reconcileStep again
    if changed then reconcileLoop again n else pure ()

/-- The reconciler, nested at most `depth` deep through finalizations. -/
def reconcile : Nat → KProg Unit
  | 0 => .blocked
  | depth + 1 => do
    let defs ← comp .definitions
    reconcileLoop (reconcile depth) (defs.keys.length * 2 + 4)

end MatrixRuntime.KernelReconcile
