import MatrixRuntime.DependencyAdmission
import MatrixRuntime.InterleavedMachine

/-! The operations a caller can invoke on the kernel, and the machine that runs any
number of them at once. What a host answers to a forwarded call is an argument of
the operation, and so is a parsed manifest. -/

namespace MatrixRuntime.KernelOperations

open KernelContexts KernelTickets KernelResources KernelState JsonValue InterleavedProgram
open InterleavedMachine KernelActions KernelReconcile KernelCalls DependencyAdmission

/-! ### Resources -/

def publishKind (cur : ContextRecord) : ResourceKind → KProg Unit
  | .cap name => pub (.provideInstance name cur.reference)
  | .sub topic => pub (.subscribeInstance cur.logical cur.instanceId topic)
  | _ => pure ()

def requireText : ContextError → String
  | .notActive _ _ => "context-not-active"
  | .staleGeneration _ _ _ => "stale-generation"
  | _ => "plugin-not-loaded"

/-- Why an acquisition that was published has to be taken back. -/
def acquireRace (cur : ContextRecord) : Option ContextRecord → Option String
  | some now =>
    if now.instanceId = cur.instanceId ∧ now.generation = cur.generation then
      if now.state.canonical = .active then none else some "context-not-active"
    else some "stale-generation"
  | none => some "plugin-not-loaded"

def publishAcquired (logical : String) (cur : ContextRecord) (kind : ResourceKind)
    (handle : ResourceHandle) : KProg (Except String ResourceHandle) := do
  publishKind cur kind
  comp (.pushResource logical cur.instanceId cur.generation handle)
  let now ← ctx (.current logical)
  match acquireRace cur now with
  | none => do
    journal logical .resourceAcquired handle kind.label
    pure (.ok handle)
  | some err => do
    revokePublication cur.instanceId kind
    res (.rollbackRegister handle)
    comp (.dropResource logical handle)
    journal logical .resourceRejected handle "acquire-race"
    pure (.error err)

def acquire (logical : String) (kind : ResourceKind) :
    KProg (Except String ResourceHandle) := do
  match ← ctx (.current logical) with
  | none => pure (.error "plugin-not-loaded")
  | some cur => do
    match ← ctx (.requireActive cur.instanceId) with
    | .error e => pure (.error (requireText e))
    | .ok _ => do
      let owner : Owner := ⟨cur.context, cur.instanceId, cur.logical, cur.generation⟩
      match ← register owner kind with
      | .error e => pure (.error e.text)
      | .ok handle => publishAcquired logical cur kind handle

def maxExternalResourcesPerContext : Nat := 64

/-- The rest of `acquire_external` once the record stands; the entry hears of it last. -/
def publishExternal (logical : String) (cur : ContextRecord) (kind : ResourceKind)
    (handle : ResourceHandle) : KProg (Except String ResourceHandle) := do
  let live ← res (.activeFor cur.context)
  if maxExternalResourcesPerContext < live then do
    res (.rollbackRegister handle)
    pure (.error "resource-exhausted")
  else do
    publishKind cur kind
    let now ← ctx (.current logical)
    if acquireRace cur now = none then do
      comp (.pushResource logical cur.instanceId cur.generation handle)
      journal logical .resourceAcquired handle kind.label
      pure (.ok handle)
    else do
      revokePublication cur.instanceId kind
      res (.rollbackRegister handle)
      journal logical .resourceRejected handle "acquire-race"
      pure (.error "stale-generation")

/-- `acquire_external`: the caller names the activation it was authenticated for. -/
def acquireExternal (logical : String) (kind : ResourceKind) (callerInstance : InstanceId)
    (callerGeneration : Nat) : KProg (Except String ResourceHandle) := do
  match ← ctx (.current logical) with
  | none => pure (.error "plugin-not-loaded")
  | some cur =>
    if cur.instanceId ≠ callerInstance ∨ cur.generation ≠ callerGeneration then
      pure (.error "stale-generation")
    else do
      match ← ctx (.requireActive cur.instanceId) with
      | .error e => pure (.error (requireText e))
      | .ok _ => do
        let owner : Owner := ⟨cur.context, cur.instanceId, cur.logical, cur.generation⟩
        match ← register owner kind with
        | .error e => pure (.error e.text)
        | .ok handle => publishExternal logical cur kind handle

def releaseText : ReleaseError → String
  | .alreadyReleased _ => "already-released"
  | .unknownHandle _ => "unknown-handle"
  | .cleanupFailed _ reason => reason

def releaseClaimed (rec : ResourceRecord) (handle : ResourceHandle) :
    KProg (Except String Unit) := do
  match ← beginRelease handle with
  | .error e => pure (.error (releaseText e))
  | .ok claim => do
    revokePublication rec.ownerInstance claim.kind
    journal rec.ownerLogical .resourceReleased handle ""
    pure (.ok ())

/-- `release`: an active resource pinned by an in-flight call stays. -/
def releaseHandle (handle : ResourceHandle) : KProg (Except String Unit) := do
  match ← res (.record handle) with
  | none => pure (.error "unknown-handle")
  | some rec =>
    if rec.state = .active then do
      let pending ← calls (.pendingFor rec.ownerInstance)
      if pending.any fun t => decide (handle ∈ t.pins) then pure (.error "resource-pinned")
      else releaseClaimed rec handle
    else releaseClaimed rec handle

def acquireBatch (logical : String) :
    List ResourceKind → List ResourceHandle → KProg (Except String (List ResourceHandle))
  | [], out => pure (.ok out)
  | kind :: kinds, out => do
    match ← acquire logical kind with
    | .ok h => acquireBatch logical kinds (out ++ [h])
    | .error e => do
      forEach out.reverse fun h => do
        let _ ← releaseHandle h
        pure ()
      pure (.error e)

/-! ### Invocation -/

inductive ForwardError where
  | cancelled
  | timeout
  | gone (text : String)
  | protocol (text : String)
  deriving DecidableEq, Repr

def ForwardError.code : ForwardError → Code
  | cancelled => .cancelled
  | timeout => .deadlineExceeded
  | gone _ => .outcomeUnknown
  | protocol _ => .internal

inductive ForwardOutcome where
  | ok (value : Json)
  | err (code message : String)
  | failed (e : ForwardError)

inductive InvokeResult where
  | value (value : Json)
  | refused (e : ErrorValue)

/-- The current context of a plugin that exceeded its fault budget fails, whatever it owns. -/
def failCurrent (fiber mode : String) : KProg Unit := do
  match ← ctx (.current fiber) with
  | some cur => do
    ctx (.markFailed cur.instanceId s!"fault budget exceeded ({mode})")
    comp (.failPlugin fiber)
  | none => pure ()

def fault (fiber mode : String) : KProg Bool := do
  let now ← perform .now
  let failed ← comp (.faultPlugin fiber now)
  if failed then failCurrent fiber mode else pure ()
  journal fiber .sysFault 0 mode
  pure failed

/-- `Reducers::dispatch`; the two stateful reducers read the plugin entry. -/
def dispatch (reducer fiber : String) (input : Json) : KProg (Option Json) :=
  if reducer = "echo" then pure (some (.obj [("echo", input)]))
  else if reducer = "ancient" then pure (some (.obj [("out", .num 42)]))
  else if reducer = "counter" ∨ reducer = "clock" then do
    let key := if reducer = "counter" then "state" else "count"
    let p ← comp (.plugin fiber)
    pure (p.map fun p => .obj [(key, .num (((p.jsonState.get key).bind (·.asI64)).getD 0))])
  else if reducer = "model" then pure
    (some (.obj [("text", .str "canned-response"), ("in", input)]))
  else if reducer = "noop" then pure (some (.obj [("ok", .bool true)]))
  else pure none

def journalInvoke (fiber cap : String) : KProg Unit := do
  let dry ← perform .dryRun
  if dry then pure () else journal fiber .capInvoke 0 cap

def ticketRevoked : ErrorValue := ⟨"ticket revoked", .cancelled, none, none⟩

def invokeExternal (again : KProg Unit) (call : OpenCall) (reply : Option ForwardOutcome) :
    KProg InvokeResult :=
  match reply with
  | none => do
    let _ ← settleTicket again call.ticket
    pure (.refused ⟨"external plugin without host", .internal, none, none⟩)
  | some out => do
    let t ← calls (.get call.ticket)
    let _ ← settleTicket again call.ticket
    match out, t.any (·.isOpen) with
    | .ok value, true => do
      journalInvoke call.logical call.cap
      pure (.value value)
    | .ok _, false => do
      journal call.logical .callRejected call.ticket "revoked-during-forward"
      pure (.refused ticketRevoked)
    | .err code message, true => pure (.refused ⟨message, .foreign code, none, none⟩)
    | .err _ message, false => do
      journal call.logical .callRejected call.ticket "revoked-during-forward"
      pure (.refused ⟨message, .cancelled, none, none⟩)
    | .failed e, _ => do
      let _ ← settleTicket again call.ticket
      pure (.refused ⟨"forward failed", e.code, none, none⟩)

def invokeReducer (again : KProg Unit) (call : OpenCall) (reducer : String) (input : Json) :
    KProg InvokeResult := do
  if reducer = "crasher" then do
    let _ ← settleTicket again call.ticket
    let _ ← fault call.logical (((input.get "mode").bind (·.asStr)).getD "panic")
    pure (.refused ⟨"injected fault", .pluginPanicked, none, none⟩)
  else do
    match ← dispatch reducer call.logical input with
    | none => do
      let _ ← settleTicket again call.ticket
      pure (.refused ⟨"unknown reducer", .reducerMissing, none, none⟩)
    | some entry => do
      let t ← calls (.get call.ticket)
      let _ ← settleTicket again call.ticket
      if t.any (·.isOpen) then do
        journalInvoke call.logical call.cap
        pure (.value entry)
      else do
        journal call.logical .callRejected call.ticket "revoked-during-dispatch"
        pure (.refused ticketRevoked)

/-- The code for an entry that is not the opened, active instance any more. -/
def unavailableCode : Option Fsm → Code
  | some .failed | some .disposed => .pluginNotActive
  | some .quiescing | some .cleanupPending => .contextNotActive
  | some .waiting | some .preparing | some .registered => .dependencyUnavailable
  | _ => .pluginNotLoaded

/-- Whether the ticket was opened for the activation an authenticated caller expects. -/
def expectedOpen (epoch : Nat) (call : OpenCall) (r : InstanceRef) : Bool :=
  decide (r.epoch = epoch ∧ r.instanceId = call.instanceId ∧ r.context = call.context ∧
    r.generation = call.generation ∧ r.logical = call.logical)

def entryServes (call : OpenCall) (p : Plugin) : Bool :=
  decide (p.state.canonical = .active ∧ p.instanceId = call.instanceId ∧
    p.generation = call.generation)

def invokeOpened (again : KProg Unit) (call : OpenCall) (input : Json)
    (reply : Option ForwardOutcome) : KProg InvokeResult := do
  let entry ← comp (.plugin call.logical)
  match entry.filter (entryServes call) with
  | none => do
    let _ ← settleTicket again call.ticket
    let p ← comp (.plugin call.logical)
    let state := p.map fun p => p.state.canonical
    pure (.refused ⟨"plugin not available", unavailableCode state, none, none⟩)
  | some p =>
    match p.execution with
    | .external _ _ _ => invokeExternal again call reply
    | .inProcess => invokeReducer again call p.reducer input

def invokeBound (again : KProg Unit) (cap : String) (input : Json)
    (expected : Option InstanceRef) (reply : Option ForwardOutcome) : KProg InvokeResult := do
  match ← callOpenEphemeral again cap with
  | .error e => pure (.refused e)
  | .ok call =>
    match expected with
    | none => invokeOpened again call input reply
    | some r => do
      let epoch ← ctx .epoch
      if expectedOpen epoch call r then invokeOpened again call input reply
      else do
        let _ ← settleTicket again call.ticket
        pure (.refused ⟨"", .staleGeneration, none, none⟩)

/-! ### Definitions -/

/-- The state a reload puts back when the new activation runs the same reducer. -/
def reapplied (manifest : StoredManifest) (old : Option Plugin) : Option Json :=
  (old.filter fun p => decide (p.reducer = manifest.reducer) &&
    carriesOver manifest.reducer p.jsonState).map (·.jsonState)

/-- Withdraw the previous generation before it is replaced. -/
def replaceCurrent (again : KProg Unit) (manifest : StoredManifest) : KProg Unit := do
  match ← ctx (.current manifest.id) with
  | none => pure ()
  | some cur =>
    match cur.state.canonical with
    | .disposed | .failed | .cleanupPending => pure ()
    | _ => do
      let _ ← disposeInstanceInner again cur.instanceId
      pure ()

/-- A reload over a parked generation gets a fresh waiting instance. -/
def awaitReload (manifest : StoredManifest) : KProg Unit := do
  let cur ← ctx (.current manifest.id)
  if canonicalState cur = some .cleanupPending then do
    let defs ← comp .definitions
    match defs.lookup manifest.id with
    | some m => do
      let _ ← createWaitingInstance m "reload: awaiting activation"
      pure ()
    | none => pure ()
  else pure ()

def reapplyState (manifest : StoredManifest) (old : Option Plugin) : KProg Unit :=
  match reapplied manifest old with
  | some json => comp (.setJsonState manifest.id json)
  | none => pure ()

def journalLoaded (manifest : StoredManifest) : KProg Unit := do
  match ← ctx (.current manifest.id) with
  | some cur => journal manifest.id .pluginLoaded cur.instanceId cur.state.asStr
  | none => pure ()

/-- `load_manifest` from a manifest that parsed. -/
def loadManifest (again : KProg Unit) (manifest : StoredManifest) : KProg String := do
  let old ← comp (.plugin manifest.id)
  comp (.putDefinition manifest)
  replaceCurrent again manifest
  awaitReload manifest
  again
  reapplyState manifest old
  journalLoaded manifest
  pure manifest.id

def disposeInstance (again : KProg Unit) (inst : InstanceId) : KProg DisposeOutcome := do
  let out ← disposeInstanceInner again inst
  again
  pure out

/-- Drop a remote registration, if there is one, with the handles bound to it. -/
def dropRegistration (logical reason : String) : KProg Unit := do
  let removed ← comp (.removeRemote logical)
  if removed then do
    comp (.retainBindings fun b => decide (b.providerLogical ≠ logical))
    journal logical .remoteUnregistered 0 reason
  else pure ()

def disposeCurrent (again : KProg Unit) (id : String) : KProg DisposeOutcome := do
  match ← ctx (.current id) with
  | some cur => disposeInstanceInner again cur.instanceId
  | none => pure .alreadyDisposed

def disposePlugin (again : KProg Unit) (id : String) : KProg DisposeOutcome := do
  dropRegistration id "definition-disposed"
  comp (.removeDefinition id)
  perform (.emit (.removed id))
  let out ← disposeCurrent again id
  again
  pure out

def registerRemoteProvider (again : KProg Unit) (logical : String) (inst : InstanceId)
    (generation : Nat) (peer : String) : KProg (Except String Unit) := do
  let defs ← comp .definitions
  if (defs.lookup logical).any (·.remote) then
    if peer.isEmpty ∨ 128 < peer.utf8ByteSize then pure (.error "invalid peer")
    else do
      comp (.putRemote logical ⟨logical, inst, generation, peer⟩)
      journal logical .remoteRegistered inst peer
      again
      pure (.ok ())
  else pure (.error "not a remote definition")

def unregisterRemoteProvider (again : KProg Unit) (logical : String) : KProg Bool := do
  let removed ← comp (.removeRemote logical)
  if removed then do
    comp (.retainBindings fun b => decide (b.providerLogical ≠ logical))
    journal logical .remoteUnregistered 0 ""
    again
    pure true
  else pure false

def installRemoteDefinition (again : KProg Unit) (manifest : StoredManifest) : KProg Unit := do
  comp (.putDefinition manifest)
  dropRegistration manifest.id "definition-reprovisioned"
  again

/-! ### The machine -/

inductive Op where
  | callOpen (cap : String) (policy : Option CallPolicy) (pins : List ResourceHandle)
  | invoke (cap : String) (input : Json) (expected : Option InstanceRef)
      (reply : Option ForwardOutcome)
  | callCancel (ticket : TicketId) (reason : String)
  | callClose (ticket : TicketId)
  | callReap (ticket : TicketId) (reason : String)
  | settleTicket (ticket : TicketId)
  | maybeFinalize (inst : InstanceId)
  | commitEffect (ticket : TicketId) (kind : String) (payload : Json)
  | dependencyAdmit (req : DepAdmit)
  | dependencyAccept (child : TicketId)
  | dependencyTimeout (child : TicketId)
  | grantOutbound (consumer cap : String)
  | revokeOutbound (consumer cap : String)
  | acquire (logical : String) (kind : ResourceKind)
  | acquireExternal (logical : String) (kind : ResourceKind) (callerInstance : InstanceId)
      (callerGeneration : Nat)
  | acquireBatch (logical : String) (kinds : List ResourceKind)
  | release (handle : ResourceHandle)
  | loadManifest (manifest : StoredManifest)
  | disposeInstance (inst : InstanceId)
  | disposePlugin (id : String)
  | registerRemoteProvider (logical : String) (inst : InstanceId) (generation : Nat)
      (peer : String)
  | unregisterRemoteProvider (logical : String)
  | installRemoteDefinition (manifest : StoredManifest)
  | reconcile

inductive Res where
  | opened (result : Except ErrorValue OpenCall)
  | invoked (result : InvokeResult)
  | flag (value : Bool)
  | settled (ticket : Option TicketRecord)
  | effect (result : Except ErrorValue Nat)
  | admitted (result : Except DepDeny TicketId)
  | accepted (result : Except DepDeny Unit)
  | granted (rev : Nat) (revoked : List TicketRecord)
  | revoked (tickets : List TicketRecord)
  | acquired (result : Except String ResourceHandle)
  | batch (result : Except String (List ResourceHandle))
  | released (result : Except String Unit)
  | loaded (id : String)
  | disposed (outcome : DisposeOutcome)
  | remote (result : Except String Unit)
  | unit

def Op.code (again : KProg Unit) : Op → KProg Res
  | callOpen cap policy pins => do pure (.opened (← KernelCalls.callOpen again cap policy pins))
  | invoke cap input expected reply => do
    pure (.invoked (← invokeBound again cap input expected reply))
  | callCancel ticket reason => do pure (.flag (← KernelCalls.callCancel ticket reason))
  | callClose ticket => do pure (.flag (← KernelCalls.callClose again ticket))
  | callReap ticket reason => do pure (.flag (← KernelCalls.callReap again ticket reason))
  | settleTicket ticket => do pure (.settled (← KernelCalls.settleTicket again ticket))
  | maybeFinalize inst => do
    KernelReconcile.maybeFinalize again inst
    pure .unit
  | commitEffect ticket kind payload => do
    pure (.effect (← KernelCalls.commitEffect ticket kind payload))
  | dependencyAdmit req => do pure (.admitted (← DependencyAdmission.dependencyAdmit req))
  | dependencyAccept child => do pure (.accepted (← KernelCalls.dependencyAccept child))
  | dependencyTimeout child => do pure (.flag (← KernelCalls.dependencyTimeout child))
  | grantOutbound consumer cap => do
    let (rev, revoked) ← DependencyAdmission.grantOutbound consumer cap
    pure (.granted rev revoked)
  | revokeOutbound consumer cap => do
    pure (.revoked (← DependencyAdmission.revokeOutbound consumer cap))
  | acquire logical kind => do pure (.acquired (← KernelOperations.acquire logical kind))
  | acquireExternal logical kind callerInstance callerGeneration => do
    pure (.acquired (← KernelOperations.acquireExternal logical kind callerInstance
      callerGeneration))
  | acquireBatch logical kinds => do
    pure (.batch (← KernelOperations.acquireBatch logical kinds []))
  | release handle => do pure (.released (← releaseHandle handle))
  | loadManifest manifest => do
    pure (.loaded (← KernelOperations.loadManifest again manifest))
  | disposeInstance inst => do
    pure (.disposed (← KernelOperations.disposeInstance again inst))
  | disposePlugin id => do pure (.disposed (← KernelOperations.disposePlugin again id))
  | registerRemoteProvider logical inst generation peer => do
    pure (.remote (← KernelOperations.registerRemoteProvider again logical inst generation peer))
  | unregisterRemoteProvider logical => do
    pure (.flag (← KernelOperations.unregisterRemoteProvider again logical))
  | installRemoteDefinition manifest => do
    KernelOperations.installRemoteDefinition again manifest
    pure .unit
  | reconcile => do
    again
    pure .unit

/-- The kernel as a machine; finalizations nest the reconciler at most `depth` deep. -/
def kernel (depth : Nat) : Machine KState KAct Op Res KEnv where
  sem := KAct.sem
  env := KEnv.apply
  code := Op.code (KernelReconcile.reconcile depth)

abbrev KObs (depth : Nat) := Obs (kernel depth)

abbrev KLabel (depth : Nat) := Label (kernel depth)

/-! ### A small system -/

def provider : StoredManifest := .component "p" ["x"] [] none

def consumer : StoredManifest :=
  .component "c" ["y"] [⟨"x", "x", none, none⟩] (some ⟨4, 4, 4, 4, 1000⟩)

def childRequest : DepAdmit := ⟨1, "bind-1", "c", 2, 1, "s", 500⟩

/-- A consumer in a call, which may call its provider. -/
def consumerInCall {depth : Nat} : List (Turn (kernel depth)) :=
  [.start 0 (.loadManifest provider), .finish 0, .start 0 (.loadManifest consumer), .finish 0,
    .start 0 (.grantOutbound "c" "x"), .finish 0, .start 0 (.callOpen "y" none []), .finish 0]

/-- A consumer of the consumer. -/
def front : StoredManifest :=
  .component "f" ["z"] [⟨"y", "y", none, none⟩] (some ⟨4, 4, 4, 4, 1000⟩)

/-- A call of the front that has called the consumer, which has called the provider. -/
def chainOfThree {depth : Nat} : List (Turn (kernel depth)) :=
  [.start 0 (.loadManifest provider), .finish 0, .start 0 (.loadManifest consumer), .finish 0,
    .start 0 (.loadManifest front), .finish 0, .start 0 (.grantOutbound "c" "x"), .finish 0,
    .start 0 (.grantOutbound "f" "y"), .finish 0, .start 0 (.callOpen "z" none []), .finish 0,
    .start 0 (.dependencyAdmit ⟨1, "bind-2", "f", 3, 1, "s", 500⟩), .finish 0,
    .start 0 (.dependencyAdmit ⟨2, "bind-1", "c", 2, 1, "s", 500⟩), .finish 0]

end MatrixRuntime.KernelOperations
