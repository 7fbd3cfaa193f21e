import MatrixRuntime.KernelCalls

/-! Admission of dependency children: the coordinated check of parent, binding,
activations, policy, grant and quotas, the registration of the child, and the
revalidation that takes everything back when a withdraw or a revocation won. -/

namespace MatrixRuntime.DependencyAdmission

open KernelContexts KernelTickets KernelState InterleavedProgram KernelActions KernelReconcile
open KernelCalls

structure DepAdmit where
  parent : TicketId
  binding : String
  callerLogical : String
  callerInstance : InstanceId
  callerGeneration : Nat
  session : String
  timeoutMs : Nat
  deriving DecidableEq, Repr

/-! ### Operator grants -/

def grantOutbound (consumer cap : String) : KProg (Nat × List TicketRecord) := do
  let rev ← perform (.grant .nextRevision)
  perform (.grant (.put consumer cap rev))
  let revoked ← calls (.revokeGrantChildren consumer cap (some rev) "grant-superseded")
  journalRevoked "grant-superseded" revoked
  pure (rev, revoked)

def revokeOutbound (consumer cap : String) : KProg (List TicketRecord) := do
  perform (.grant (.remove consumer cap))
  let revoked ← calls (.revokeGrantChildren consumer cap none "grant-revoked")
  journalRevoked "grant-revoked" revoked
  pure revoked

/-! ### Validation -/

/-- What an admission established before it reserves: the parent, the binding, the context the
ticket is accounted to, the peer of a remote leg, the limits and the grant revision. -/
structure Validated where
  parent : TicketRecord
  binding : DepBinding
  ticketContext : ContextId
  remotePeer : Option String
  limits : OutboundLimits
  rev : Nat

def childDepth (parent : TicketRecord) : Nat := ((parent.dep.map (·.depth + 1)).getD 1)

def deny {α : Type} (code : Code) (reason : String) : KProg (Except DepDeny α) :=
  pure (.error ⟨code, reason⟩)

/-- The provider's side: its local activation, or the attested remote registration when it
has none. -/
def validateProvider (consumer : ContextRecord) (b : DepBinding) :
    KProg (Except DepDeny (ContextId × Option String)) := do
  match ← ctx (.current b.providerLogical) with
  | some cur =>
    if cur.instanceId ≠ b.providerInstance ∨ cur.generation ≠ b.providerGeneration ∨
        cur.state.canonical ≠ .active then
      deny .dependencyUnavailable "provider reintroduced; binding stale"
    else pure (.ok (cur.context, none))
  | none => do
    match ← comp (.remote b.providerLogical) with
    | none => deny .dependencyUnavailable s!"provider {b.providerLogical} gone"
    | some reg =>
      if reg.instanceId ≠ b.providerInstance ∨ reg.generation ≠ b.providerGeneration then
        deny .dependencyUnavailable "provider reintroduced; binding stale"
      else do
        let defs ← comp .definitions
        if (defs.lookup b.providerLogical).any (·.remote) then
          pure (.ok (consumer.context, some reg.peer))
        else deny .dependencyUnavailable "remote definition withdrawn"

/-- The consumer's side: its activation is current and active. -/
def validateConsumer (req : DepAdmit) : KProg (Except DepDeny ContextRecord) := do
  match ← ctx (.current req.callerLogical) with
  | none => deny .pluginNotLoaded s!"consumer {req.callerLogical} gone"
  | some cur =>
    if cur.instanceId ≠ req.callerInstance ∨ cur.state.canonical ≠ .active then
      deny .contextNotActive "consumer not active"
    else if cur.generation ≠ req.callerGeneration then
      deny .staleGeneration "consumer superseded"
    else pure (.ok cur)

/-- The consumer's policy, the depth it allows and the operator's grant. -/
def validateAuthority (req : DepAdmit) (parent : TicketRecord) (b : DepBinding) :
    KProg (Except DepDeny (OutboundLimits × Nat)) := do
  let defs ← comp .definitions
  match (defs.lookup req.callerLogical).bind (·.outbound) with
  | none => deny .permissionDenied "no outbound policy"
  | some limits =>
    if limits.maxDepth < childDepth parent then
      deny .resourceExhausted "max depth exceeded"
    else do
      match ← grantOf req.callerLogical b.capability with
      | none =>
        deny .permissionDenied
          s!"no operator grant for {req.callerLogical} on {b.capability}"
      | some rev => pure (.ok (limits, rev))

def validateBound (req : DepAdmit) (parent : TicketRecord) (b : DepBinding) :
    KProg (Except DepDeny Validated) := do
  match ← validateConsumer req with
  | .error e => pure (.error e)
  | .ok consumer => do
    match ← validateProvider consumer b with
    | .error e => pure (.error e)
    | .ok (ticketContext, remotePeer) => do
      match ← validateAuthority req parent b with
      | .error e => pure (.error e)
      | .ok (limits, rev) => do
        let children ← calls (.openChildrenOf req.parent)
        if limits.maxChildrenPerParent ≤ children.length then
          deny .resourceExhausted "too many children of parent"
        else pure (.ok ⟨parent, b, ticketContext, remotePeer, limits, rev⟩)

/-- The parent is open and runs as the caller, and the binding is the caller's. -/
def validate (req : DepAdmit) : KProg (Except DepDeny Validated) := do
  match ← calls (.get req.parent) with
  | none => deny .invalidParent s!"unknown parent tkt-{req.parent}"
  | some parent =>
    if parent.state ≠ .admitted then
      deny .invalidParent s!"parent {req.parent} is {parent.state.asStr}"
    else if parent.logical ≠ req.callerLogical ∨ parent.instanceId ≠ req.callerInstance ∨
        parent.generation ≠ req.callerGeneration then
      deny .invalidParent "parent owned by another activation"
    else do
      match ← comp (.binding req.binding) with
      | none => deny .dependencyUnavailable "unknown binding"
      | some b =>
        if b.consumerLogical ≠ req.callerLogical ∨ b.consumerInstance ≠ req.callerInstance ∨
            b.consumerGeneration ≠ req.callerGeneration then
          deny .invalidParent "binding of another activation"
        else validateBound req parent b

/-! ### Registration and revalidation -/

/-- The child's deadline: its own request, the policy's cap and the parent's, whichever is
first. -/
def childDeadline (v : Validated) (timeoutMs now : Nat) : Nat :=
  let own := min (now + v.limits.maxDeadlineMs) (now + timeoutMs)
  (v.parent.drainUntil.map (min own)).getD own

def childMeta (req : DepAdmit) (v : Validated) : DepChild where
  parent := req.parent
  binding := v.binding.id
  consumer := req.callerInstance
  session := req.session
  grantConsumer := req.callerLogical
  grantCap := v.binding.capability
  grantRev := v.rev
  depth := childDepth v.parent
  remotePeer := v.remotePeer

/-- Take the child back: the ticket, then the reservation. -/
def rollback (req : DepAdmit) (id : TicketId) : KProg Unit := do
  let _ ← calls (.remove .rollback id)
  perform (.release req.session)

def providerStillLive (v : Validated) : KProg Bool :=
  match v.remotePeer with
  | none => do
    let cur ← ctx (.current v.binding.providerLogical)
    pure (cur.any fun c => decide (c.instanceId = v.binding.providerInstance ∧
      c.state.canonical = .active))
  | some _ =>
    remoteLive v.binding.providerLogical v.binding.providerInstance v.binding.providerGeneration

/-- The revalidation after registering, in the order of the source's short-circuit. -/
def stillValid (req : DepAdmit) (v : Validated) : KProg Bool := do
  let providerLive ← providerStillLive v
  let parent ← calls (.get req.parent)
  if parent.any (·.isOpen) then do
    let cur ← ctx (.current req.callerLogical)
    if cur.any fun c => decide (c.instanceId = req.callerInstance ∧
        c.state.canonical = .active) then
      if providerLive then do
        let rev ← grantOf req.callerLogical v.binding.capability
        pure (decide (rev = some v.rev))
      else pure false
    else pure false
  else pure false

/-- Register the child of a reserved admission. -/
def registerChild (req : DepAdmit) (v : Validated) : KProg (Except DepDeny TicketId) := do
  let now ← perform .now
  let epoch ← ctx .epoch
  let id ← calls (.alloc ⟨v.binding.capability, v.binding.providerLogical,
    v.binding.providerInstance, v.binding.providerGeneration, v.ticketContext, epoch, {}, []⟩)
  let _ ← calls (.setDrainUntil id (childDeadline v req.timeoutMs now))
  let attached ← calls (.setDepMeta id (childMeta req v))
  if attached then do
    let valid ← stillValid req v
    if valid then do
      journal req.callerLogical .dependencyAdmitted id v.binding.id
      pure (.ok id)
    else do
      rollback req id
      journal req.callerLogical .dependencyRejected id "revoked-during-admission"
      deny .dependencyUnavailable "revoked during admission"
  else do
    rollback req id
    deny .internal "ticket vanished during admission"

/-- The body of an admission, under the admission lock. -/
def admitLocked (req : DepAdmit) : KProg (Except DepDeny TicketId) := do
  match ← validate req with
  | .error e => pure (.error e)
  | .ok v => do
    match ← perform (.reserve req.session v.limits) with
    | .error reason => deny .resourceExhausted reason
    | .ok () => registerChild req v

def dependencyAdmit (req : DepAdmit) : KProg (Except DepDeny TicketId) :=
  if req.timeoutMs = 0 then deny .invalidMessage "timeout must be positive"
  else if req.session.isEmpty ∨ req.binding.isEmpty then
    deny .invalidMessage "session and binding required"
  else do
    perform .lockAdmit
    let out ← admitLocked req
    perform .unlockAdmit
    pure out

end MatrixRuntime.DependencyAdmission
