import MatrixRuntime.KernelReconcile

/-! Calls: admission of root and dependency tickets, the commit boundary, and every
way a ticket ends. Refusals carry the code and the text the source puts in them. -/

namespace MatrixRuntime.KernelCalls

open KernelContexts KernelTickets KernelState JsonValue InterleavedProgram KernelActions
open KernelReconcile

inductive Code where
  | alreadyCommitted
  | cancelled
  | contextNotActive
  | deadlineExceeded
  | dependencyUnavailable
  | internal
  | invalidMessage
  | invalidParent
  | invalidPin
  | noSuchCapability
  | outcomeUnknown
  | permissionDenied
  | pluginNotActive
  | pluginNotLoaded
  | pluginPanicked
  | reducerMissing
  | resourceExhausted
  | staleGeneration
  | unknownTicket
  | foreign (text : String)
  deriving DecidableEq, Repr

def Code.asStr : Code → String
  | alreadyCommitted => "already-committed"
  | cancelled => "cancelled"
  | contextNotActive => "context-not-active"
  | deadlineExceeded => "deadline-exceeded"
  | dependencyUnavailable => "dependency-unavailable"
  | internal => "internal"
  | invalidMessage => "invalid-message"
  | invalidParent => "invalid-parent"
  | invalidPin => "invalid-pin"
  | noSuchCapability => "no-such-capability"
  | outcomeUnknown => "outcome-unknown"
  | permissionDenied => "permission-denied"
  | pluginNotActive => "plugin-not-active"
  | pluginNotLoaded => "plugin-not-loaded"
  | pluginPanicked => "plugin-panicked"
  | reducerMissing => "reducer-missing"
  | resourceExhausted => "resource-exhausted"
  | staleGeneration => "stale-generation"
  | unknownTicket => "unknown-ticket"
  | foreign text => text

/-- The error object of a call: its text, its code, and the ticket or the logical id it
names. -/
structure ErrorValue where
  error : String
  code : Code
  ticket : Option TicketId := none
  logical : Option String := none
  deriving DecidableEq, Repr

structure DepDeny where
  code : Code
  reason : String
  deriving DecidableEq, Repr

structure OpenCall where
  ticket : TicketId
  cap : String
  logical : String
  instanceId : InstanceId
  generation : Nat
  context : ContextId
  policy : CallPolicy
  deriving DecidableEq, Repr

/-! ### Admission of a root call -/

/-- Why a capability with no registry entry is refused. -/
def unresolved (cap : String) : KProg ErrorValue := do
  let defs ← comp .definitions
  let missing : ErrorValue := ⟨"no such capability", .noSuchCapability, none, none⟩
  match defs.entries.find? fun e => decide (cap ∈ e.2.caps) with
  | none => pure missing
  | some owner => do
    match ← ctx (.current owner.1) with
    | none => pure missing
    | some cur =>
      match cur.state.canonical with
      | .waiting | .preparing | .registered =>
        pure ⟨cur.cause.getD "dependency unavailable", .dependencyUnavailable, none,
          some owner.1⟩
      | .quiescing | .cleanupPending | .disposed | .failed =>
        pure ⟨"plugin not available", .contextNotActive, none, some owner.1⟩
      | _ => pure missing

/-- The rest of `admission_record` for an instance that is active: the current generation,
an active entry and live bindings. -/
def admitActive (inst : InstanceId) (rec : ContextRecord) :
    KProg (Except ErrorValue (String × ContextRecord)) := do
  let cur ← ctx (.current rec.logical)
  if cur.any fun c => decide (c.instanceId ≠ inst) then
    pure (.error ⟨"stale generation", .staleGeneration, none, some rec.logical⟩)
  else do
    let fresh ← currentAllMerged
    let entry ← comp (.plugin rec.logical)
    if entry.any fun p => decide (p.state.canonical = .active) then do
      let stale ← bindingsStale rec.logical fresh
      if stale then
        pure (.error ⟨"dependency-unavailable: binding obsoleto", .dependencyUnavailable, none,
          some rec.logical⟩)
      else pure (.ok (rec.logical, rec))
    else pure (.error ⟨"plugin not available", .contextNotActive, none, none⟩)

def admitInstance (inst : InstanceId) : KProg (Except ErrorValue (String × ContextRecord)) := do
  match ← ctx (.requireActive inst) with
  | .ok rec => admitActive inst rec
  | .error (.notActive logical _) =>
    pure (.error ⟨"context not active", .contextNotActive, none, some logical⟩)
  | .error (.staleGeneration logical _ _) =>
    pure (.error ⟨"stale generation", .staleGeneration, none, some logical⟩)
  | .error _ => pure (.error ⟨"stale generation", .staleGeneration, none, none⟩)

def admissionRecord (cap : String) : KProg (Except ErrorValue (String × ContextRecord)) := do
  match ← pub (.resolveRef cap) with
  | none => do
    let e ← unresolved cap
    pure (.error e)
  | some ref =>
    if ref.instanceId = 0 then do
      match ← ctx (.current ref.logical) with
      | some cur => admitInstance cur.instanceId
      | none => pure (.error ⟨"plugin not available", .pluginNotLoaded, none, none⟩)
    else admitInstance ref.instanceId

def tooManyInflight : ErrorValue := ⟨"too many in-flight calls", .resourceExhausted, none, none⟩

def policyFor (logical cap : String) : KProg CallPolicy := do
  let p ← comp (.plugin logical)
  pure ((p.bind fun p => p.calls.lookup cap).getD {})

/-- `resources.validate`, of which only success matters to a pin. -/
def pinValid (inst : InstanceId) (generation : Nat) (handle : ResourceHandle) : KProg Bool := do
  let rec ← res (.record handle)
  pure (rec.any fun r => decide (r.state = .active ∧ r.ownerInstance = inst ∧
    r.generation = generation))

def invalidPin (inst : InstanceId) (generation : Nat) :
    List ResourceHandle → KProg (Option ResourceHandle)
  | [] => pure none
  | h :: hs => do
    let valid ← pinValid inst generation h
    if valid then invalidPin inst generation hs else pure (some h)

def grantOf (consumer cap : String) : KProg (Option Nat) := perform (.grant (.grant consumer cap))

/-- Every ticket end: revoke the descendants, give back a child's reservation, finalize the
owner. -/
def concludeTicket (again : KProg Unit) (r : TicketRecord) : KProg Unit := do
  revokeTicketDescendants r.id "parent-ended"
  match r.dep with
  | some dep => perform (.release dep.session)
  | none => pure ()
  maybeFinalize again r.instanceId

def settleTicket (again : KProg Unit) (ticket : TicketId) : KProg (Option TicketRecord) := do
  match ← calls (.remove .settle ticket) with
  | none => pure none
  | some r => do
    concludeTicket again r
    pure (some r)

/-- Only a durable call is journalled; an invocation's own ticket is not. -/
def journalDurable (durable : Bool) (logical : String) (kind : JournalKind) (ticket : TicketId)
    (reason : String) : KProg Unit :=
  if durable then journal logical kind ticket reason else pure ()

/-- The admission lost a race after the ticket was registered: take it out and refuse. -/
def refuseOpened (again : KProg Unit) (durable : Bool) (logical : String) (ticket : TicketId)
    (why : String) (e : ErrorValue) : KProg (Except ErrorValue OpenCall) := do
  let _ ← settleTicket again ticket
  journalDurable durable logical .callCancelled ticket why
  pure (.error e)

/-- The revalidation after registering. The opener hears of the ticket only when it passes. -/
def confirmOpened (again : KProg Unit) (cap logical : String) (rec : ContextRecord)
    (policy : CallPolicy) (durable : Bool) (ticket : TicketId) :
    KProg (Except ErrorValue OpenCall) := do
  match ← admissionRecord cap with
  | .ok (_, fresh) =>
    if fresh.instanceId = rec.instanceId ∧ fresh.generation = rec.generation then do
      perform (.note (.opened ticket))
      pure (.ok ⟨ticket, cap, logical, rec.instanceId, rec.generation, rec.context, policy⟩)
    else
      refuseOpened again durable logical ticket "admission-race: superseded"
        ⟨"stale generation", .staleGeneration, none, some logical⟩
  | .error e => refuseOpened again durable logical ticket "admission-race" e

/-- Register the ticket of an admitted call and revalidate: a disposal in between either sees
the ticket or is seen here. -/
def openTicket (again : KProg Unit) (cap logical : String) (rec : ContextRecord)
    (policy : CallPolicy) (pins : List ResourceHandle) (durable : Bool) :
    KProg (Except ErrorValue OpenCall) := do
  let ticket ← calls (.alloc ⟨cap, logical, rec.instanceId, rec.generation, rec.context,
    rec.epoch, policy, pins⟩)
  journalDurable durable logical .callOpen ticket cap
  confirmOpened again cap logical rec policy durable ticket

def callOpen (again : KProg Unit) (cap : String) (policyOverride : Option CallPolicy)
    (pins : List ResourceHandle) : KProg (Except ErrorValue OpenCall) := do
  let inflight ← calls .inflightCount
  if maxInflightCalls ≤ inflight then pure (.error tooManyInflight)
  else do
    match ← admissionRecord cap with
    | .error e => pure (.error e)
    | .ok (logical, rec) => do
      match ← invalidPin rec.instanceId rec.generation pins with
      | some h => pure (.error ⟨s!"invalid pin res-{h}", .invalidPin, none, none⟩)
      | none =>
        match policyOverride with
        | some policy => openTicket again cap logical rec policy pins true
        | none => do
          let policy ← policyFor logical cap
          openTicket again cap logical rec policy pins true

def callOpenEphemeral (again : KProg Unit) (cap : String) :
    KProg (Except ErrorValue OpenCall) := do
  let inflight ← calls .inflightCount
  if maxInflightCalls ≤ inflight then pure (.error tooManyInflight)
  else do
    match ← admissionRecord cap with
    | .error e => pure (.error e)
    | .ok (logical, rec) => do
      let policy ← policyFor logical cap
      openTicket again cap logical rec policy [] false

/-! ### Ends of a ticket -/

def callCancel (ticket : TicketId) (reason : String) : KProg Bool := do
  match ← calls (.get ticket) with
  | none => pure false
  | some r => do
    let marked ← calls (.cancel ticket reason)
    if marked then do
      journal r.logical .callCancelled ticket reason
      revokeTicketDescendants ticket "parent-cancelled"
      pure true
    else pure false

def callClose (again : KProg Unit) (ticket : TicketId) : KProg Bool := do
  match ← calls (.remove .close ticket) with
  | none => pure false
  | some r => do
    journal r.logical .callClosed ticket r.state.asStr
    concludeTicket again r
    pure true

def callReap (again : KProg Unit) (ticket : TicketId) (reason : String) : KProg Bool := do
  match ← calls (.get ticket) with
  | none => pure false
  | some r =>
    if r.state = .admitted then pure false
    else do
      match ← settleTicket again ticket with
      | none => pure false
      | some r => do
        journal r.logical .callReaped ticket reason
        pure true

def dependencyTimeout (child : TicketId) : KProg Bool := do
  let marked ← calls (.expireTicket child)
  if marked then do
    let r ← calls (.get child)
    journal ((r.map (·.logical)).getD "?") .callExpired child "deadline-exceeded"
    revokeTicketDescendants child "parent-expired"
    pure true
  else pure false

/-! ### The commit boundary -/

/-- Refuse a late attempt and journal it. -/
def reject {α : Type} (t : TicketRecord) (why : String) (e : ErrorValue) :
    KProg (Except ErrorValue α) := do
  journal t.logical .callRejected t.id why
  pure (.error e)

/-- The consumer of a child is active and current. -/
def consumerCurrent (consumer : InstanceId) : KProg Bool := do
  match ← ctx (.get consumer) with
  | none => pure false
  | some rec =>
    if rec.state.canonical ≠ .active then pure false
    else do
      let cur ← ctx (.current rec.logical)
      pure (cur.any fun c => decide (c.instanceId = consumer))

/-- A child's deadline has passed. A ticket without one never asks for the time. -/
def deadlinePassed (t : TicketRecord) : KProg Bool :=
  match t.drainUntil with
  | none => pure false
  | some instant => do
    let now ← perform .now
    pure (decide (instant ≤ now))

def chainCheck (t : TicketRecord) (dep : DepChild) : KProg (Except ErrorValue Unit) := do
  let late ← deadlinePassed t
  if late then do
    let _ ← calls (.setState t.id .expired)
    journal t.logical .callExpired t.id "deadline-exceeded"
    pure (.error ⟨"dependency deadline exceeded", .deadlineExceeded, some t.id, none⟩)
  else do
    let parent ← calls (.get dep.parent)
    if parent.any (·.isOpen) then do
      let current ← consumerCurrent dep.consumer
      if current then do
        let rev ← grantOf dep.grantConsumer dep.grantCap
        if rev = some dep.grantRev then pure (.ok ())
        else
          reject t "grant-revoked"
            ⟨"operator grant revoked", .permissionDenied, some t.id, none⟩
      else reject t "consumer-withdrawn" ⟨"consumer withdrawn", .staleGeneration, some t.id, none⟩
    else reject t "parent-revoked" ⟨"parent revoked", .cancelled, some t.id, none⟩

def depChainCheck (t : TicketRecord) : KProg (Except ErrorValue Unit) :=
  match t.dep with
  | some dep => chainCheck t dep
  | none => pure (.ok ())

/-- The remote registration a leg was admitted against is still live. -/
def remoteLive (logical : String) (inst : InstanceId) (generation : Nat) : KProg Bool := do
  let reg ← comp (.remote logical)
  if reg.any fun r => decide (r.instanceId = inst ∧ r.generation = generation) then do
    let defs ← comp .definitions
    pure ((defs.lookup logical).any (·.remote))
  else pure false

def staleError (t : TicketRecord) : ErrorValue :=
  ⟨"stale generation", .staleGeneration, none, some t.logical⟩

/-- A draining ticket is still within its budget. -/
def withinDrain (t : TicketRecord) : KProg Bool :=
  match t.policy.onWithdraw, t.drainUntil with
  | .drain, some instant => do
    let now ← perform .now
    pure (decide (now ≤ instant))
  | _, _ => pure false

/-- The lifecycle state in which a local leg may commit. -/
def ownerAdmits (t : TicketRecord) (state : Fsm) : KProg (Except ErrorValue Unit) :=
  match state.canonical with
  | .active => pure (.ok ())
  | .quiescing => do
    let within ← withinDrain t
    if within then pure (.ok ())
    else reject t "revoked" ⟨"ticket revoked", .cancelled, some t.id, none⟩
  | _ => reject t "context-not-active"
      ⟨"context not active", .contextNotActive, none, some t.logical⟩

/-- The provider's side of a local leg: same epoch, same activation, still current. -/
def ownerCheck (t : TicketRecord) : KProg (Except ErrorValue Unit) := do
  let epoch ← ctx .epoch
  if t.epoch ≠ epoch then pure (.error (staleError t))
  else do
    match ← ctx (.get t.instanceId) with
    | none => pure (.error (staleError t))
    | some owner =>
      if owner.logical ≠ t.logical ∨ owner.generation ≠ t.generation then
        pure (.error (staleError t))
      else do
        let cur ← ctx (.current t.logical)
        if cur.any fun c => decide (c.instanceId ≠ t.instanceId) then
          reject t "stale-generation" (staleError t)
        else ownerAdmits t owner.state

/-- The provider's side of any leg; a remote one only needs its registration. -/
def providerCheck (t : TicketRecord) : KProg (Except ErrorValue Unit) :=
  match t.dep.bind (·.remotePeer) with
  | none => ownerCheck t
  | some _ => do
    let live ← remoteLive t.logical t.instanceId t.generation
    if live then pure (.ok ())
    else
      reject t "remote-withdrawn"
        ⟨"remote provider withdrawn", .staleGeneration, none, some t.logical⟩

/-- The effect is pushed and the state written in two critical sections. -/
def applyEffect (t : TicketRecord) (kind : String) (payload : Json) :
    KProg (Except ErrorValue Nat) := do
  let e ← calls (.pushEffect t.id t.logical t.instanceId t.generation kind payload)
  let _ ← calls (.setState t.id .committed)
  journal t.logical .callCommitted t.id kind
  pure (.ok e.seq)

def commitAdmitted (t : TicketRecord) (kind : String) (payload : Json) :
    KProg (Except ErrorValue Nat) := do
  match ← depChainCheck t with
  | .error e => pure (.error e)
  | .ok () => do
    match ← providerCheck t with
    | .error e => pure (.error e)
    | .ok () => applyEffect t kind payload

def commitEffect (ticket : TicketId) (kind : String) (payload : Json) :
    KProg (Except ErrorValue Nat) := do
  match ← calls (.get ticket) with
  | none => pure (.error ⟨s!"unknown ticket tkt-{ticket}", .unknownTicket, none, none⟩)
  | some t =>
    match t.state with
    | .committed =>
      pure (.error ⟨"already committed", .alreadyCommitted, some ticket, none⟩)
    | .cancelled =>
      reject t "cancelled" ⟨"ticket cancelled", .cancelled, some ticket, none⟩
    | .expired =>
      reject t "drain-exceeded"
        ⟨"drain deadline exceeded", .deadlineExceeded, some ticket, none⟩
    | .admitted => commitAdmitted t kind payload

/-- The code a dispatcher passes on; anything it does not know is internal. -/
def acceptCode : Code → Code
  | .cancelled => .cancelled
  | .deadlineExceeded => .deadlineExceeded
  | .permissionDenied => .permissionDenied
  | .staleGeneration => .staleGeneration
  | .contextNotActive => .contextNotActive
  | _ => .internal

def dependencyAccept (child : TicketId) : KProg (Except DepDeny Unit) := do
  match ← calls (.get child) with
  | none => pure (.error ⟨.internal, s!"unknown child tkt-{child}"⟩)
  | some t => do
    match ← depChainCheck t with
    | .error e => pure (.error ⟨acceptCode e.code, e.error⟩)
    | .ok () => do
      let marked ← calls (.markCommittedIfAdmitted child)
      if marked then pure (.ok ())
      else pure (.error ⟨.cancelled, s!"child tkt-{child} revoked during accept"⟩)

end MatrixRuntime.KernelCalls
