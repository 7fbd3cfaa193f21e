import Mathlib.Data.List.AList
import MatrixRuntime.KernelResources
import MatrixRuntime.KernelPublications
import MatrixRuntime.DependencyGraph

/-! The kernel's shared state: one field for each table the source guards with a
lock of its own. The hook's queue, the journal and the clock stand for the host,
the log file and the monotonic time source. -/

namespace MatrixRuntime.KernelState

open Function

open KernelContexts KernelTickets KernelResources KernelPublications DependencyGraph JsonValue

inductive ExecutionKind where
  | inProcess
  | external (entrypoint : String) (args : List String) (timeoutMs : Nat)
  deriving DecidableEq, Repr

structure OutboundLimits where
  maxDepth : Nat
  maxChildrenPerParent : Nat
  maxCallsPerSession : Nat
  maxCallsGlobal : Nat
  maxDeadlineMs : Nat
  deriving DecidableEq, Repr

/-- A registered definition. A remote one provides only: its requirements are empty, which the
manifest parser checks. -/
structure StoredManifest where
  id : String
  caps : List String
  requires : List Requirement
  subs : List String
  calls : List (String × CallPolicy)
  reducer : String
  initState : Json
  execution : ExecutionKind
  remote : Bool
  outbound : Option OutboundLimits
  providesOnly : remote = true → requires = []

/-- A local in-process definition that provides, requires and may call out, and no more. -/
def StoredManifest.component (id : String) (caps : List String) (requires : List Requirement)
    (outbound : Option OutboundLimits) : StoredManifest where
  id := id
  caps := caps
  requires := requires
  subs := []
  calls := []
  reducer := "noop"
  initState := .null
  execution := .inProcess
  remote := false
  outbound := outbound
  providesOnly h := nomatch h

structure Plugin where
  id : String
  state : Fsm
  generation : Nat
  bindings : List Binding
  calls : List (String × CallPolicy)
  execution : ExecutionKind
  waitCause : Option String
  reducer : String
  jsonState : Json
  panicCount : Nat
  restartTimes : List Nat
  instanceId : InstanceId
  resources : List ResourceHandle

structure DepBinding where
  id : String
  consumerLogical : String
  consumerInstance : InstanceId
  consumerGeneration : Nat
  consumerContext : ContextId
  interface : String
  capability : String
  providerLogical : String
  providerInstance : InstanceId
  providerGeneration : Nat
  deriving DecidableEq, Repr

structure RemoteProvider where
  logical : String
  instanceId : InstanceId
  generation : Nat
  peer : String
  deriving DecidableEq, Repr

inductive LifecycleEvent where
  | activated (logical : String) (inst : InstanceId) (generation : Nat) (entrypoint : String)
      (args : List String) (timeoutMs : Nat)
  | withdrawn (logical : String) (inst : InstanceId) (generation : Nat)
  | removed (logical : String)
  deriving DecidableEq, Repr

inductive JournalKind where
  | callOpen
  | callCancelled
  | callExpired
  | callRejected
  | callCommitted
  | callClosed
  | callReaped
  | callDraining
  | capInvoke
  | dependencyAdmitted
  | dependencyRejected
  | pluginActive
  | pluginCleanupPending
  | pluginLoaded
  | pluginUnloaded
  | pluginWaiting
  | remoteRegistered
  | remoteUnregistered
  | resourceAcquired
  | resourceRejected
  | resourceReleased
  | sysFault
  deriving DecidableEq, Repr

/-- A journal line: whose it is, what happened, to which ticket, instance or handle, and why. -/
structure JournalEntry where
  fiber : String
  kind : JournalKind
  subject : Nat
  reason : String
  deriving DecidableEq, Repr

abbrev Definitions := AList fun _ : String => StoredManifest

def providesOf (defs : Definitions) : List (String × List String) :=
  defs.entries.map fun e => (e.1, e.2.caps)

def requiresOf (defs : Definitions) : List (String × List Requirement) :=
  defs.entries.map fun e => (e.1, e.2.requires)

/-- What is composed: the definitions, the plugin entries, remote registrations and the opaque
binding handles. -/
structure Composition where
  plugins : String → Option Plugin
  definitions : Definitions
  remotes : AList fun _ : String => RemoteProvider
  bindings : String → Option DepBinding
  depSeq : Nat

structure DepUsage where
  perSession : String → Option Nat
  total : Nat

structure KState where
  contexts : ContextTable
  calls : CallsTable
  resources : ResourceTable
  publications : Publications
  composition : Composition
  grants : String × String → Option Nat
  grantSeq : Nat
  usage : DepUsage
  admitHeld : Bool
  journal : List JournalEntry
  outbox : List LifecycleEvent
  dryRun : Bool
  clock : Nat
  spawnOk : Bool

def KState.boot (epoch : Nat) : KState where
  contexts := .new epoch
  calls := .new
  resources := .new
  publications := .new
  composition := ⟨fun _ => none, ∅, ∅, fun _ => none, 1⟩
  grants _ := none
  grantSeq := 1
  usage := ⟨fun _ => none, 0⟩
  admitHeld := false
  journal := []
  outbox := []
  dryRun := false
  clock := 0
  spawnOk := true

@[simp] theorem KState.boot_get (epoch : Nat) (id : TicketId) :
    (KState.boot epoch).calls.get id = none := rfl

namespace Composition

/-- Change the plugin entry of `logical`, if there is one. -/
def adjust (c : Composition) (logical : String) (f : Plugin → Plugin) : Composition :=
  { c with plugins := update c.plugins logical ((c.plugins logical).map f) }

def put (c : Composition) (logical : String) (p : Plugin) : Composition :=
  { c with plugins := update c.plugins logical (some p) }

/-- `p.state = state`, unless the entry belongs to another instance. -/
def mark (c : Composition) (logical : String) (inst : InstanceId) (state : Fsm) : Composition :=
  c.adjust logical fun p => if p.instanceId = inst then { p with state := state } else p

def waitingEntry (reason : String) (p : Plugin) : Plugin :=
  { p with state := .waiting, waitCause := some reason }

/-- The first critical section of `ensure_waiting` on an unchanged cause. -/
def syncWaiting (c : Composition) (logical reason : String) : Bool × Composition :=
  match c.plugins logical with
  | some p =>
    if p.state.canonical ≠ .waiting ∨ p.waitCause ≠ some reason then
      (true, c.adjust logical (waitingEntry reason))
    else (false, c)
  | none => (true, c)

/-- The commit of `promote_waiting` into the plugin entry; refused for another instance. -/
def promote (c : Composition) (logical : String) (inst : InstanceId) (bindings : List Binding)
    (resources : List ResourceHandle) : Bool × Composition :=
  match c.plugins logical with
  | some p =>
    if p.instanceId ≠ inst then (false, c)
    else (true, c.adjust logical fun p =>
      { p with state := .active, bindings := bindings, waitCause := none, resources := resources })
  | none => (false, c)

def pushResource (c : Composition) (logical : String) (inst : InstanceId) (generation : Nat)
    (handle : ResourceHandle) : Composition :=
  c.adjust logical fun p =>
    if p.instanceId = inst ∧ p.generation = generation then
      { p with resources := p.resources ++ [handle] }
    else p

def dropResource (c : Composition) (logical : String) (handle : ResourceHandle) : Composition :=
  c.adjust logical fun p =>
    { p with resources := p.resources.filter fun h => decide (h ≠ handle) }

/-- The faults of the last ten seconds, whole seconds counted as the source does. -/
def recentFaults (p : Plugin) (now : Nat) : List Nat :=
  p.restartTimes.filter fun t => decide ((now - t) / 1000 < 10)

/-- Whether one more fault stays within the budget of five. -/
def withinFaultBudget (p : Plugin) (now : Nat) : Bool := (recentFaults p now).length + 1 ≤ 5

def faulted (now : Nat) (p : Plugin) : Plugin :=
  { p with
    restartTimes := recentFaults p now ++ [now]
    panicCount := p.panicCount + 1
    state := if withinFaultBudget p now then p.state else .failed }

/-- The first critical section of `fault`; says whether the budget is exceeded. -/
def fault (c : Composition) (logical : String) (now : Nat) : Bool × Composition :=
  ((c.plugins logical).any fun p => !withinFaultBudget p now, c.adjust logical (faulted now))

/-- The capability of a provider that satisfies a resolved binding. -/
def boundCap (defs : Definitions) (b : Binding) : Option String :=
  (defs.lookup b.providerLogical).bind fun d =>
    let (base, major) := splitCap b.interface
    d.caps.find? fun c => capSatisfies c ⟨b.interface, base, major, some b.providerLogical⟩

def handleId (defs : Definitions) (b : Binding) (n : Nat) : String :=
  if (defs.lookup b.providerLogical).any (·.remote) then s!"rb-{n}" else s!"bind-{n}"

def issue (defs : Definitions) (cur : ContextRecord) (c : Composition) (b : Binding) :
    Composition :=
  match boundCap defs b with
  | none => c
  | some capability =>
    let id := handleId defs b c.depSeq
    { c with
      depSeq := c.depSeq + 1
      bindings := update c.bindings id (some ⟨id, cur.logical, cur.instanceId,
        cur.generation, cur.context, b.interface, capability, b.providerLogical,
        b.providerInstance, b.providerGeneration⟩) }

/-- Keep the binding handles that satisfy `keep`. -/
def retain (c : Composition) (keep : DepBinding → Bool) : Composition :=
  { c with bindings := fun id => (c.bindings id).filter keep }

/-- The critical section of `issue_dep_bindings`, which first clears the activation's handles. -/
def issueAll (c : Composition) (defs : Definitions) (cur : ContextRecord)
    (bindings : List Binding) : Composition :=
  bindings.foldl (issue defs cur) (c.retain fun b => decide (b.consumerInstance ≠ cur.instanceId))

end Composition

namespace DepUsage

/-- The quota block of `dependency_admit`, under the usage lock throughout. -/
def reserve (u : DepUsage) (session : String) (limits : OutboundLimits) (inflight : Nat) :
    Except String Unit × DepUsage :=
  if limits.maxCallsPerSession ≤ (u.perSession session).getD 0 then
    (.error "too many dependency calls in session", u)
  else if limits.maxCallsGlobal ≤ u.total then (.error "too many dependency calls", u)
  else if maxInflightCalls ≤ inflight then (.error "too many in-flight calls", u)
  else (.ok (),
    ⟨update u.perSession session (some ((u.perSession session).getD 0 + 1)), u.total + 1⟩)

/-- `dep_release`, which saturates and drops an empty session. -/
def release (u : DepUsage) (session : String) : DepUsage where
  perSession :=
    match u.perSession session with
    | some n => update u.perSession session (if n - 1 = 0 then none else some (n - 1))
    | none => u.perSession
  total := u.total - 1

end DepUsage

end MatrixRuntime.KernelState
