import Mathlib
import MatrixRuntime.HostReader
import MatrixRuntime.InterleavedMachine
import MatrixRuntime.JsonValue
import MatrixRuntime.KeyedTable

/-! The sessions of the host. Connection, reader and event threads and the kernel's calls share a
few tables, each behind a lock of its own; every critical section is one action. The kernel's
activations, the peers, the processes and the time are the environment. -/

namespace MatrixRuntime.HostSessions

open JsonValue KeyedTable HostReader InterleavedProgram InterleavedMachine Function

/-! ### Messages -/

structure Envelope where
  ty : String
  messageId : String
  sessionId : Option String
  instanceId : Option String
  generation : Option Nat
  requestId : Option String
  body : Json

inductive IdVerdict where
  | new
  | duplicateSame
  | duplicateDivergent
  deriving DecidableEq

structure IdWindow where
  cap : Nat
  seen : Table String UInt64
  order : List String

namespace IdWindow

def empty (cap : Nat) : IdWindow := ⟨max cap 1, .empty, []⟩

/-- FNV-1a. -/
def hashContent (canonical : String) : UInt64 :=
  canonical.toUTF8.toList.foldl (fun h b => (h ^^^ b.toUInt64) * 0x100000001b3) 0xcbf29ce484222325

def check (w : IdWindow) (id canonical : String) : IdVerdict × IdWindow :=
  let h := hashContent canonical
  match w.seen.get id with
  | none =>
    let (seen, order) :=
      if w.cap ≤ w.order.length then
        match w.order with
        | old :: rest => (w.seen.erase old, rest)
        | [] => (w.seen, [])
      else (w.seen, w.order)
    (.new, { w with seen := seen.put id h, order := order ++ [id] })
  | some prev => (if prev = h then .duplicateSame else .duplicateDivergent, w)

end IdWindow

/-! ### The tables -/

def maxCallsPerSession : Nat := 16

def maxPendingPerHost : Nat := 1024

def defaultSendQuota : Nat := 1024 * 1024

structure Session where
  logical : String
  inst : Nat
  generation : Nat
  dedup : IdWindow
  inFlight : Nat
  sendUsed : Nat
  sendQuota : Nat

def Session.key (s : Session) : String × Nat := (s.logical, s.inst)

inductive PendingKind where
  | call (ticket : String)
  | lifecycle

structure Pending where
  session : String
  kind : PendingKind

/-- A child process; `spawnedFor` is the instance it was started for. -/
structure Child where
  spawnedFor : Nat
  exited : Bool
  deriving DecidableEq

inductive LifecycleEvent where
  | activated (logical : String) (inst generation : Nat)
  | withdrawn (logical : String) (inst generation : Nat)
  | removed (logical : String)
  deriving DecidableEq

/-- The kernel's current activation of a logical id. -/
structure Activation where
  inst : Nat
  generation : Nat
  active : Bool

/-- What the host asks the kernel for. Instances are numbered and never come back. -/
structure KernelView where
  current : String → Option Activation
  nextInst : Nat
  queuedBytes : String → Option Nat
  bindings : String → List (String × String)

structure HostPolicy where
  components : List String
  secure : Bool

/-- What the host cannot decide: whether a write to a session fails, which waits are over, which
tickets are cancelled, the next random token, whether a process can be started or killed. -/
structure Outside where
  writeError : String → Option String
  expired : String → Bool
  cancelled : Nat → Bool
  token : Option String
  spawns : Bool
  stubborn : String → Bool

/-- `channels` holds the replies that were sent to their waiters, `readers` the reader threads
that were spawned and have not begun. `handled` and `sent` record the past: the instances whose
withdrawal was handled, and the request ids written to each session. -/
structure HostState where
  nextId : Nat
  sessions : Table String Session
  byInstance : Table (String × Nat) String
  pendingActivation : Table String (Nat × Nat)
  launchTokens : Table String (Nat × String)
  children : Table String Child
  childrenLocked : Bool
  pending : Table String Pending
  registerIds : IdWindow
  channels : String → Option Envelope
  readers : List String
  inbox : String → List Envelope
  hungUp : String → Bool
  events : List LifecycleEvent
  handling : Bool
  kernel : KernelView
  outside : Outside
  handled : List (String × Nat)
  sent : List (String × String)

/-! ### Actions -/

inductive HAct : Type → Type 1 where
  | freshId (kind : String) : HAct String
  | pendingLen : HAct Nat
  | insertPending (rid : String) (waiter : Pending) : HAct Unit
  | removePending (rid : String) : HAct Unit
  | resolve (sid rid : String) : HAct (Option Pending)
  | answer (rid : String) (env : Envelope) : HAct Unit
  | orphan (sid : String) (session : Session) : HAct Unit
  | cancelRequested (ticket : Nat) : HAct Bool
  | deadlinePassed (rid : String) : HAct Bool
  | recv (rid : String) : HAct (Option Envelope)
  | recvWithin (rid : String) : HAct (Option Envelope)
  | binding (logical : String) : HAct (Option (Nat × Nat))
  | tokenValid (logical : String) (inst : Nat) (supplied : String) : HAct Bool
  | hasInstance (logical : String) (inst : Nat) : HAct Bool
  | checkRegister (key canonical : String) : HAct IdVerdict
  | queuedBytes (logical : String) : HAct (Option Nat)
  | dependencyBindings (logical : String) : HAct (List (String × String))
  | current (logical : String) : HAct (Option Activation)
  | insertSession (sid : String) (session : Session) : HAct Unit
  | removeSession (sid : String) : HAct (Option Session)
  | insertInstance (sid logical : String) (inst : Nat) : HAct Unit
  | removeInstance (sid logical : String) (inst : Nat) : HAct Unit
  | takeInstance (logical : String) (inst : Nat) : HAct (Option String)
  | sessionOf (logical : String) (inst : Nat) : HAct (Option String)
  | hasSession (sid : String) : HAct Bool
  | sessionSink (sid : String) : HAct (Option (String × Nat × Nat))
  | generationIs (sid : String) (generation : Nat) : HAct Bool
  | enterCall (sid : String) : HAct (Option Bool)
  | leaveCall (sid : String) : HAct Unit
  | chargeSend (sid : String) (bytes : Nat) : HAct Bool
  | releaseSend (sid : String) (bytes : Nat) : HAct Unit
  | bound (sid : String) (env : Envelope) : HAct Bool
  | dedup (sid messageId canonical : String) : HAct (Option IdVerdict)
  | sessionCalls (sid : String) : HAct (List (Nat × Nat × String))
  | write (sid : String) (rid : Option String) : HAct (Except String Unit)
  | hangUp (sid : String) : HAct Unit
  | spawnReader (sid : String) : HAct Unit
  | beginReader (sid : String) : HAct Unit
  | receive (sid : String) : HAct (Option Envelope)
  | insertActivation (logical : String) (inst generation : Nat) : HAct Unit
  | removeActivation (logical : String) : HAct Unit
  | insertToken (logical : String) (inst : Nat) (token : String) : HAct Unit
  | removeToken (logical : String) : HAct Unit
  | lockChildren : HAct Unit
  | unlockChildren : HAct Unit
  | insertChild (logical : String) (child : Child) : HAct Unit
  | removeChild (logical : String) : HAct (Option Child)
  | forgetChild (logical : String) : HAct Unit
  | exitedChildren : HAct (List String)
  | listed (logical : String) : HAct Bool
  | randomToken : HAct (Option String)
  | spawn (logical : String) : HAct Bool
  | killGroup (logical : String) : HAct Bool
  | takeEvent : HAct (Option LifecycleEvent)
  | endEvent (event : Option LifecycleEvent) : HAct Unit

def goneEnvelope (messageId rid sid : String) (s : Session) : Envelope where
  ty := "call.error"
  messageId := messageId
  sessionId := some sid
  instanceId := some (toString s.inst)
  generation := some s.generation
  requestId := some rid
  body := .obj
    [("error", .obj [("code", .str "outcome-unknown"), ("message", .str "session lost")]),
      ("ticket", .str "")]

namespace HostState

def idText (kind : String) (n : Nat) : String := kind ++ "-" ++ toString n

theorem idText_injective {kind : String} {m n : Nat} (h : idText kind m = idText kind n) :
    m = n := by
  simp only [idText, String.append_assoc, String.append_right_inj] at h
  exact Nat.repr_injective h

def editSession (s : HostState) (sid : String) (f : Session → Session) : HostState :=
  { s with sessions := (s.sessions.modify (fun k _ => decide (k = sid)) f).2 }

/-- Give up one reply of a session that is gone. -/
def orphanOne (sid : String) (session : Session) (s : HostState) (rid : String) : HostState :=
  { s with
    nextId := s.nextId + 1
    pending := s.pending.erase rid
    channels := update s.channels rid
      (some (goneEnvelope (idText "msg" s.nextId) rid sid session)) }

/-- The replies awaited from a session. -/
def owned (s : HostState) (sid : String) : List String :=
  (s.pending.entries.filter fun entry => entry.2.session == sid).map Prod.fst

def orphan (s : HostState) (sid : String) (session : Session) : HostState :=
  (s.owned sid).foldl (orphanOne sid session) s

def binding (s : HostState) (logical : String) : Option (Nat × Nat) :=
  match s.pendingActivation.get logical with
  | some bound => some bound
  | none =>
    match s.kernel.current logical with
    | some c => if c.active then some (c.inst, c.generation) else none
    | none => none

def tokenValid (s : HostState) (logical : String) (inst : Nat) (supplied : String) : Bool :=
  (s.launchTokens.get logical).any fun (i, token) => i == inst && token == supplied

/-- The identities a frame claims are those of the session it came on. -/
def bound (s : HostState) (sid : String) (env : Envelope) : Bool :=
  (s.sessions.get sid).any fun session =>
    env.sessionId == some sid && env.instanceId.all (· == toString session.inst) &&
      env.generation.all (· == session.generation)

/-- The forwarded calls a live session has not answered, with its instance and generation. -/
def sessionCalls (s : HostState) (sid : String) : List (Nat × Nat × String) :=
  match s.sessions.get sid with
  | none => []
  | some t => s.pending.entries.filterMap fun entry =>
    match entry.2 with
    | ⟨session, .call ticket⟩ =>
      if session = sid then some (t.inst, t.generation, ticket) else none
    | ⟨_, .lifecycle⟩ => none

end HostState

def HAct.sem {β : Type} : HAct β → HostState → Option (β × HostState)
  | .freshId kind, s => some (HostState.idText kind s.nextId, { s with nextId := s.nextId + 1 })
  | .pendingLen, s => some (s.pending.size, s)
  | .insertPending rid waiter, s => some ((), { s with pending := s.pending.put rid waiter })
  | .removePending rid, s => some ((), { s with pending := s.pending.erase rid })
  | .resolve _ rid, s => some (s.pending.get rid, { s with pending := s.pending.erase rid })
  | .answer rid env, s =>
    some ((), { s with channels := update s.channels rid (some env) })
  | .orphan sid session, s => some ((), s.orphan sid session)
  | .cancelRequested ticket, s => some (s.outside.cancelled ticket, s)
  | .deadlinePassed rid, s => some (s.outside.expired rid, s)
  | .recv rid, s => some (s.channels rid, s)
  | .recvWithin rid, s =>
    match s.channels rid with
    | some env => some (some env, s)
    | none => if s.outside.expired rid then some (none, s) else none
  | .binding logical, s => some (s.binding logical, s)
  | .tokenValid logical inst supplied, s => some (s.tokenValid logical inst supplied, s)
  | .hasInstance logical inst, s => some ((s.byInstance.get (logical, inst)).isSome, s)
  | .checkRegister key canonical, s =>
    let (verdict, window) := s.registerIds.check key canonical
    some (verdict, { s with registerIds := window })
  | .queuedBytes logical, s => some (s.kernel.queuedBytes logical, s)
  | .dependencyBindings logical, s => some (s.kernel.bindings logical, s)
  | .current logical, s => some (s.kernel.current logical, s)
  | .insertSession sid session, s => some ((), { s with sessions := s.sessions.put sid session })
  | .removeSession sid, s =>
    some (s.sessions.get sid, { s with sessions := s.sessions.erase sid })
  | .insertInstance sid logical inst, s =>
    some ((), { s with byInstance := s.byInstance.put (logical, inst) sid })
  | .removeInstance _ logical inst, s =>
    some ((), { s with byInstance := s.byInstance.erase (logical, inst) })
  | .takeInstance logical inst, s =>
    some (s.byInstance.get (logical, inst),
      { s with byInstance := s.byInstance.erase (logical, inst) })
  | .sessionOf logical inst, s => some (s.byInstance.get (logical, inst), s)
  | .hasSession sid, s => some ((s.sessions.get sid).isSome, s)
  | .sessionSink sid, s =>
    some ((s.sessions.get sid).map fun t => (t.logical, t.inst, t.generation), s)
  | .generationIs sid generation, s =>
    some ((s.sessions.get sid).any fun t => t.generation == generation, s)
  | .enterCall sid, s =>
    match s.sessions.get sid with
    | none => some (none, s)
    | some t =>
      if maxCallsPerSession ≤ t.inFlight then some (some false, s)
      else some (some true, s.editSession sid fun t => { t with inFlight := t.inFlight + 1 })
  | .leaveCall sid, s =>
    some ((), s.editSession sid fun t => { t with inFlight := t.inFlight - 1 })
  | .chargeSend sid bytes, s =>
    match s.sessions.get sid with
    | none => some (false, s)
    | some t =>
      if t.sendQuota < t.sendUsed + bytes then some (false, s)
      else some (true, s.editSession sid fun t => { t with sendUsed := t.sendUsed + bytes })
  | .releaseSend sid bytes, s =>
    some ((), s.editSession sid fun t => { t with sendUsed := t.sendUsed - bytes })
  | .bound sid env, s => some (s.bound sid env, s)
  | .dedup sid messageId canonical, s =>
    match s.sessions.get sid with
    | none => some (none, s)
    | some t =>
      let (verdict, window) := t.dedup.check messageId canonical
      some (some verdict, s.editSession sid fun t => { t with dedup := window })
  | .sessionCalls sid, s => some (s.sessionCalls sid, s)
  | .write sid rid, s =>
    let s := match rid with
      | some rid => { s with sent := (sid, rid) :: s.sent }
      | none => s
    match s.outside.writeError sid with
    | some e => some (.error e, s)
    | none => some (.ok (), s)
  | .hangUp sid, s => some ((), { s with hungUp := update s.hungUp sid true })
  | .spawnReader sid, s => some ((), { s with readers := sid :: s.readers })
  | .beginReader sid, s =>
    if s.readers.contains sid then some ((), { s with readers := s.readers.erase sid }) else none
  | .receive sid, s =>
    match s.inbox sid with
    | env :: rest => some (some env, { s with inbox := update s.inbox sid rest })
    | [] => if s.hungUp sid then some (none, s) else none
  | .insertActivation logical inst generation, s =>
    some ((), { s with pendingActivation := s.pendingActivation.put logical (inst, generation) })
  | .removeActivation logical, s =>
    some ((), { s with pendingActivation := s.pendingActivation.erase logical })
  | .insertToken logical inst token, s =>
    some ((), { s with launchTokens := s.launchTokens.put logical (inst, token) })
  | .removeToken logical, s => some ((), { s with launchTokens := s.launchTokens.erase logical })
  | .lockChildren, s =>
    if s.childrenLocked then none else some ((), { s with childrenLocked := true })
  | .unlockChildren, s => some ((), { s with childrenLocked := false })
  | .insertChild logical child, s => some ((), { s with children := s.children.put logical child })
  | .removeChild logical, s =>
    some (s.children.get logical, { s with children := s.children.erase logical })
  | .forgetChild logical, s =>
    if s.childrenLocked then none else some ((), { s with children := s.children.erase logical })
  | .exitedChildren, s =>
    some ((s.children.entries.filter fun entry => entry.2.exited).map Prod.fst, s)
  | .listed logical, s => some (s.byInstance.entries.any fun entry => entry.1.1 == logical, s)
  | .randomToken, s => some (s.outside.token, s)
  | .spawn _, s => some (s.outside.spawns, s)
  | .killGroup logical, s => some (!s.outside.stubborn logical, s)
  | .takeEvent, s =>
    -- One thread handles the events, one after the other.
    if s.handling then none
    else
      match s.events with
      | event :: rest => some (some event, { s with events := rest, handling := true })
      | [] => some (none, { s with handling := true })
  | .endEvent event, s =>
    match event with
    | some (.withdrawn logical inst _) =>
      some ((), { s with handling := false, handled := (logical, inst) :: s.handled })
    | _ => some ((), { s with handling := false })

inductive HEnv where
  | activates (logical : String) (generation : Nat)
  | retires (logical : String)
  | emits (event : LifecycleEvent)
  | arrives (sid : String) (env : Envelope)
  | hangsUp (sid : String)
  | childExits (logical : String)
  | outside (next : Outside)

namespace HostState

def activeInst (s : HostState) (logical : String) : Option Nat :=
  match s.kernel.current logical with
  | some c => if c.active then some c.inst else none
  | none => none

def setCurrent (s : HostState) (logical : String) (c : Option Activation) : HostState :=
  { s with kernel := { s.kernel with current := update s.kernel.current logical c } }

/-- The kernel reports a withdrawal only of an instance that it has issued and retired. -/
def emits (s : HostState) (event : LifecycleEvent) : HostState :=
  match event with
  | .withdrawn logical inst _ =>
    if inst < s.kernel.nextInst ∧ s.activeInst logical ≠ some inst then
      { s with events := s.events ++ [event] }
    else s
  | _ => { s with events := s.events ++ [event] }

end HostState

def HEnv.run : HEnv → HostState → HostState
  | .activates logical generation, s =>
    let s := s.setCurrent logical (some ⟨s.kernel.nextInst, generation, true⟩)
    { s with kernel := { s.kernel with nextInst := s.kernel.nextInst + 1 } }
  | .retires logical, s =>
    s.setCurrent logical ((s.kernel.current logical).map fun c => { c with active := false })
  | .emits event, s => s.emits event
  | .arrives sid env, s => { s with inbox := update s.inbox sid (s.inbox sid ++ [env]) }
  | .hangsUp sid, s => { s with hungUp := update s.hungUp sid true }
  | .childExits logical, s => { s with
      children := (s.children.modify (fun k _ => decide (k = logical))
        fun c => { c with exited := true }).2 }
  | .outside next, s => { s with outside := next }

abbrev HProg : Type → Type 1 := Prog HAct

/-! ### Sending and waiting -/

def quiesceMs : Nat := 2000

def disposeMs : Nat := 2000

/-- The message of `send_to`. -/
def wire (ty messageId sid : String) (inst generation : Nat) (rid : Option String) (body : Json) :
    Json :=
  .obj [("body", body), ("generation", .str (toString generation)),
    ("instance_id", .str (toString inst)), ("message_id", .str messageId),
    ("protocol", .str "matrix.component"),
    ("request_id", rid.elim .null .str), ("session_id", .str sid), ("type", .str ty),
    ("version", .str "0.1")]

/-- What `encode` complains about, if anything, at the default limit. -/
def tooLarge (size : Nat) : Option String :=
  if defaultMaxFrame < size then
    some ("frame declares " ++ toString size ++ " bytes, max is " ++ toString defaultMaxFrame)
  else none

section Programs

variable (text : JsonText)

def sendTo (sid logical : String) (inst generation : Nat) (ty : String) (rid : Option String)
    (body : Json) : HProg (Except String Unit) := do
  let messageId ← perform (.freshId "msg")
  let raw := text.encode (wire ty messageId sid inst generation rid body)
  match tooLarge raw.utf8ByteSize with
  | some e => pure (.error e)
  | none => do
    match ← perform (.sessionSink sid) with
    | none => pure (.error ("no session " ++ sid))
    | some (gotLogical, gotInst, gotGeneration) =>
      if gotLogical ≠ logical ∨ gotInst ≠ inst ∨ gotGeneration ≠ generation then
        pure (.error "stale session binding")
      else perform (.write sid rid)

/-- `Ok(None)` when there is no session. -/
def transact (sid logical : String) (inst generation : Nat) (ty : String) (body : Json) :
    HProg (Except String (Option Envelope)) := do
  let live ← perform (.hasSession sid)
  if !live then pure (.ok none)
  else do
    let waiting ← perform .pendingLen
    if maxPendingPerHost ≤ waiting then pure (.error "host reply queue full")
    else do
      let rid ← perform (.freshId "req")
      perform (.insertPending rid ⟨sid, .lifecycle⟩)
      match ← sendTo text sid logical inst generation ty (some rid) body with
      | .error e => do
        perform (.removePending rid)
        pure (.error e)
      | .ok () => do
        match ← perform (.recvWithin rid) with
        | some env => pure (.ok (some env))
        | none => do
          perform (.removePending rid)
          pure (.error "lifecycle timeout")

inductive ForwardError where
  | cancelled
  | timeout
  | gone (message : String)

inductive ForwardOutcome where
  | ok (output : Json)
  | err (code message : String)
  | failed (error : ForwardError)

structure ForwardRequest where
  ticket : Nat
  cap : String
  input : Json
  logical : String
  inst : Nat
  generation : Nat
  timeoutMs : Nat

def ticketText (ticket : Nat) : String := "tkt-" ++ toString ticket

def strOr (value : Json) (key default : String) : String :=
  ((value.get key).bind Json.asStr).getD default

/-- What a reply means for the call that waits for it. -/
def outcomeOf (env : Envelope) : ForwardOutcome :=
  if env.ty == "call.result" then
    if strOr env.body "status" "" == "ok" then .ok ((env.body.get "output").getD .null)
    else
      let err := (env.body.get "error").getD (.obj [])
      .err (strOr err "code" "internal") (strOr err "message" "remote error")
  else if env.ty == "call.error" then
    let err := (env.body.get "error").getD env.body
    .err (strOr err "code" "outcome-unknown") (strOr err "message" "session lost")
  else .failed (.gone "session lost")

/-- The polling loop of `forward_call`, for a number of rounds. -/
def awaitCall (req : ForwardRequest) (sid rid : String) : Nat → HProg ForwardOutcome
  | 0 => .blocked
  | rounds + 1 => do
    let cancelled ← perform (.cancelRequested req.ticket)
    if cancelled then do
      let notice ← perform (.freshId "req")
      let _ ← sendTo text sid req.logical req.inst req.generation "call.cancel" (some notice)
        (.obj [("reason", .str "cancelled"), ("ticket", .str (ticketText req.ticket))])
      perform (.removePending rid)
      pure (.failed .cancelled)
    else do
      let late ← perform (.deadlinePassed rid)
      if late then do
        perform (.removePending rid)
        pure (.failed .timeout)
      else do
        match ← perform (.recv rid) with
        | some env => pure (outcomeOf env)
        | none => awaitCall req sid rid rounds

/-- The part of `forward_call` that holds the session's in-flight slot and its send budget. -/
def exchange (req : ForwardRequest) (sid : String) (rounds : Nat) : HProg ForwardOutcome := do
  let rid ← perform (.freshId "req")
  perform (.insertPending rid ⟨sid, .call (ticketText req.ticket)⟩)
  let body := Json.obj [("capability", .str req.cap), ("input", req.input),
    ("ticket", .str (ticketText req.ticket)), ("timeout_ms", .num req.timeoutMs)]
  match ← sendTo text sid req.logical req.inst req.generation "call.open" (some rid) body with
  | .error e => do
    perform (.removePending rid)
    pure (.failed (.gone e))
  | .ok () => awaitCall text req sid rid rounds

def forwardCall (req : ForwardRequest) (rounds : Nat) : HProg ForwardOutcome := do
  let noSession := ForwardOutcome.failed (.gone
    ("no session for " ++ req.logical ++ " inst-" ++ toString req.inst))
  let waiting ← perform .pendingLen
  if maxPendingPerHost ≤ waiting then pure (.err "resource-exhausted" "host reply queue full")
  else do
    match ← perform (.sessionOf req.logical req.inst) with
    | none => pure noSession
    | some sid => do
      let same ← perform (.generationIs sid req.generation)
      if !same then pure (.failed (.gone ("stale session generation for " ++ req.logical)))
      else do
        match ← perform (.enterCall sid) with
        | none => pure noSession
        | some false =>
          pure (.err "resource-exhausted" ("too many in-flight calls on " ++ req.logical))
        | some true => do
          let bytes := (text.encode req.input).utf8ByteSize
          let charged ← perform (.chargeSend sid bytes)
          if !charged then do
            perform (.leaveCall sid)
            pure (.err "resource-exhausted" ("session send quota exceeded on " ++ req.logical))
          else do
            let out ← exchange text req sid rounds
            perform (.releaseSend sid bytes)
            perform (.leaveCall sid)
            pure out

/-! ### Sessions and processes -/

def dropSession (sid : String) : HProg Unit := do
  match ← perform (.removeSession sid) with
  | none => pure ()
  | some s => do
    perform (.removeInstance sid s.logical s.inst)
    perform (.orphan sid s)
    perform (.hangUp sid)

def cancelSessionCalls (sid reason : String) : HProg Unit := do
  let jobs ← perform (.sessionCalls sid)
  forEach jobs fun (inst, generation, ticket) => do
    let messageId ← perform (.freshId "msg")
    let rid ← perform (.freshId "req")
    let raw := text.encode (wire "call.cancel" messageId sid inst generation (some rid)
      (.obj [("reason", .str reason), ("ticket", .str ticket)]))
    match tooLarge raw.utf8ByteSize with
    | some _ => pure ()
    | none => do
      let _ ← perform (.write sid (some rid))
      pure ()

def killChild (logical : String) : HProg Bool := do
  perform .lockChildren
  perform (.removeToken logical)
  match ← perform (.removeChild logical) with
  | none => do
    perform .unlockChildren
    pure false
  | some child => do
    let cleaned ← perform (.killGroup logical)
    if !cleaned then do
      perform (.insertChild logical child)
      perform .unlockChildren
      pure false
    else do
      perform (.removeActivation logical)
      perform .unlockChildren
      pure true

/-- The end of an activation of an instance: its session is told and dropped, its process killed. -/
def quiesceSession (logical : String) (inst generation : Nat) : HProg Unit := do
  match ← perform (.takeInstance logical inst) with
  | none => pure ()
  | some sid => do
    cancelSessionCalls text sid "withdraw"
    let op ← perform (.freshId "op")
    let _ ← transact text sid logical inst generation "lifecycle.quiesce"
      (.obj [("deadline_ms", .num quiesceMs), ("operation_id", .str op)])
    let op ← perform (.freshId "op")
    let _ ← transact text sid logical inst generation "lifecycle.dispose"
      (.obj [("deadline_ms", .num disposeMs), ("operation_id", .str op)])
    dropSession sid
  let _ ← killChild logical
  pure ()

/-- The activation is the current one of its logical id, and Active. -/
def isCurrent (c : Option Activation) (inst generation : Nat) : Bool :=
  c.any fun c => c.inst == inst && c.generation == generation && c.active

def spawnChild (policy : HostPolicy) (logical : String) (inst generation : Nat) : HProg Unit := do
  perform .lockChildren
  let c ← perform (.current logical)
  if !isCurrent c inst generation then perform .unlockChildren
  else if policy.secure && !policy.components.contains logical then perform .unlockChildren
  else do
    match ← perform .randomToken with
    | none => perform .unlockChildren
    | some token => do
      perform (.insertToken logical inst token)
      perform (.insertActivation logical inst generation)
      let spawned ← perform (.spawn logical)
      if spawned then do
        perform (.insertChild logical ⟨inst, false⟩)
        perform (.insertActivation logical inst generation)
        perform .unlockChildren
      else do
        perform (.removeToken logical)
        perform (.removeActivation logical)
        perform .unlockChildren

/-- The children among `exited` that no session is listed for. -/
def unlisted : List String → HProg (List String)
  | [] => pure []
  | logical :: exited => do
    let live ← perform (.listed logical)
    let gone ← unlisted exited
    pure (if live then gone else logical :: gone)

def reapFinished : HProg Unit := do
  perform .lockChildren
  let exited ← perform .exitedChildren
  let gone ← unlisted exited
  perform .unlockChildren
  forEach gone fun logical => perform (.forgetChild logical)

def handleEvent (policy : HostPolicy) (event : LifecycleEvent) : HProg Unit := do
  match event with
  | .activated logical inst generation => do
    let _ ← killChild logical
    spawnChild policy logical inst generation
  | .withdrawn logical inst generation => quiesceSession text logical inst generation
  | .removed logical => do
    match ← perform (.current logical) with
    | some c => quiesceSession text logical c.inst c.generation
    | none => pure ()
    perform (.removeActivation logical)
    let _ ← killChild logical
    pure ()
  reapFinished

/-- A turn of `event_loop`: an event, or a time-out. -/
def eventTurn (policy : HostPolicy) : HProg Unit := do
  let event ← perform .takeEvent
  match event with
  | some event => handleEvent text policy event
  | none => reapFinished
  perform (.endEvent event)

/-! ### Connections -/

/-- What arrives on a connection whose hello was accepted: the launch token of the hello, the
features that were agreed on, the frame sent after the welcome (which tells the session id), and
which of the later calls on the socket succeed. -/
structure Connection where
  launchToken : String
  features : List String
  register : String → Option Envelope
  writerCloned : Bool
  registeredWritten : Bool
  readerCloned : Bool

def childId (body : Json) : String :=
  (((body.get "manifest").bind fun m => m.get "id").bind Json.asStr).getD ""

def isizeMax : Nat := 9223372036854775807

def sendQuota (queuedBytes : Option Nat) : Nat :=
  max ((queuedBytes.map (min · isizeMax)).getD defaultSendQuota) 1

def activateBody (op child : String) (bindings : Option (List (String × String))) : Json :=
  let base := [("manifest", Json.obj [("id", .str child)]), ("operation_id", .str op)]
  match bindings with
  | none => .obj (("bindings", .arr []) :: base)
  | some bindings => .obj (("bindings", .arr []) :: ("dependency_bindings",
      .arr (bindings.map fun (id, capability) =>
        .obj [("binding_id", .str id), ("capability", .str capability)])) :: base)

/-- The component is told that it is active; one that does not answer is dropped. -/
def handshake (sid child : String) (inst generation : Nat) (body : Json) : HProg Unit := do
  match ← transact text sid child inst generation "lifecycle.activate" body with
  | .ok (some _) => pure ()
  | _ => do
    dropSession sid
    let _ ← killChild child
    pure ()

/-- The rest of `serve_conn` once the session is bound and its reader runs. -/
def activate (conn : Connection) (sid child : String) (inst generation : Nat) : HProg Unit := do
  let op ← perform (.freshId "op")
  if conn.features.contains "dependency-calls/1" then do
    let bindings ← perform (.dependencyBindings child)
    handshake text sid child inst generation (activateBody op child (some bindings))
  else handshake text sid child inst generation (activateBody op child none)

def bindSession (conn : Connection) (sid child : String) (inst generation : Nat) : HProg Unit := do
  let queued ← perform (.queuedBytes child)
  perform (.insertSession sid ⟨child, inst, generation, .empty 256, 0, 0, sendQuota queued⟩)
  perform (.insertInstance sid child inst)
  perform (.removeActivation child)
  if !conn.registeredWritten then dropSession sid
  else if !conn.readerCloned then dropSession sid
  else do
    perform (.spawnReader sid)
    activate text conn sid child inst generation

/-- The checks of `serve_conn` on an instance it has found for the component. -/
def register (conn : Connection) (sid : String) (reg : Envelope) (child : String)
    (inst generation : Nat) : HProg Unit := do
  let taken ← perform (.hasInstance child inst)
  if taken then pure ()
  else do
    let verdict ← perform (.checkRegister
      ("register:" ++ child ++ ":" ++ toString inst ++ ":" ++ reg.messageId) (text.encode reg.body))
    if verdict = .duplicateDivergent then pure ()
    else if !conn.writerCloned then pure ()
    else bindSession text conn sid child inst generation

/-- `serve_conn` from the accepted hello on. -/
def serveConn (policy : HostPolicy) (conn : Connection) : HProg Unit := do
  let sid ← perform (.freshId "sess")
  match conn.register sid with
  | none => pure ()
  | some reg =>
    if reg.ty ≠ "component.register" ∨ reg.sessionId ≠ some sid then pure ()
    else if (childId reg.body).isEmpty then pure ()
    else do
      let child := childId reg.body
      match ← perform (.binding child) with
      | none => pure ()
      | some (inst, generation) => do
        if policy.secure then do
          let valid ← perform (.tokenValid child inst conn.launchToken)
          if !valid then pure ()
          else register text conn sid reg child inst generation
        else register text conn sid reg child inst generation

/-! ### Frames -/

def isReply (ty : String) : Bool :=
  ty == "call.result" || ty == "call.error" || ty == "lifecycle.result"

/-- A reply goes to whoever waits for its request id. -/
def resolveReply (sid : String) (env : Envelope) : HProg Unit :=
  match env.requestId with
  | none => pure ()
  | some rid => do
    match ← perform (.resolve sid rid) with
    | none => pure ()
    | some _ => perform (.answer rid env)

def heartbeat (sid : String) : HProg Unit := do
  let _ ← perform (.freshId "msg")
  match ← perform (.sessionSink sid) with
  | none => pure ()
  | some _ => do
    let _ ← perform (.write sid none)
    pure ()

/-- The frames of dependencies, streams and resources do not touch these tables. -/
def dispatch (sid : String) (env : Envelope) : HProg Unit :=
  if isReply env.ty then resolveReply sid env
  else if env.ty == "session.heartbeat" then heartbeat sid
  else if env.ty == "session.close" then dropSession sid
  else pure ()

def onPluginFrame (sid : String) (env : Envelope) : HProg Unit := do
  let ours ← perform (.bound sid env)
  if !ours then pure ()
  else do
    match ← perform (.dedup sid env.messageId (text.encode env.body)) with
    | some .new => dispatch sid env
    | _ => pure ()

/-- `read_loop` over the frames that it slices off, for a number of them. -/
def readFrames (sid : String) : Nat → HProg Unit
  | 0 => .blocked
  | frames + 1 => do
    match ← perform (.receive sid) with
    | none => dropSession sid
    | some env => do
      onPluginFrame text sid env
      readFrames sid frames

/-- The reader thread of a session. -/
def sessionReader (sid : String) (frames : Nat) : HProg Unit := do
  perform (.beginReader sid)
  readFrames text sid frames

end Programs

inductive HOp where
  | connect (conn : Connection)
  | read (sid : String) (frames : Nat)
  | event
  | forward (req : ForwardRequest) (rounds : Nat)

def host (text : JsonText) (policy : HostPolicy) :
    Machine HostState HAct HOp (Option ForwardOutcome) HEnv where
  sem := HAct.sem
  env := HEnv.run
  code
    | .connect conn => (serveConn text policy conn).bind fun _ => .pure none
    | .read sid frames => (sessionReader text sid frames).bind fun _ => .pure none
    | .event => (eventTurn text policy).bind fun _ => .pure none
    | .forward req rounds => (forwardCall text req rounds).bind fun out => .pure (some out)

/-! ### Messages -/

/-- Actions on message ids, awaited replies, the counters of a session and its socket. -/
abbrev onMessages {β : Type} : HAct β → Prop
  | .freshId kind => kind ≠ "sess"
  | .pendingLen => True
  | .insertPending _ _ => True
  | .removePending _ => True
  | .resolve _ _ => True
  | .answer _ _ => True
  | .cancelRequested _ => True
  | .deadlinePassed _ => True
  | .recv _ => True
  | .recvWithin _ => True
  | .sessionOf _ _ => True
  | .hasSession _ => True
  | .sessionSink _ => True
  | .generationIs _ _ => True
  | .enterCall _ => True
  | .leaveCall _ => True
  | .chargeSend _ _ => True
  | .releaseSend _ _ => True
  | .sessionCalls _ => True
  | .write _ _ => True
  | _ => False

theorem onMessages_msg : onMessages (.freshId "msg") := show "msg" ≠ "sess" by decide

theorem onMessages_req : onMessages (.freshId "req") := show "req" ≠ "sess" by decide

abbrev Talks {α : Type} (p : HProg α) : Prop :=
  Composed (fun _ action => onMessages action) (fun _ _ => False) p

variable (sid logical : String) (inst generation : Nat) (req : ForwardRequest)

section Talks

variable {text : JsonText}

theorem sendTo_talks (ty : String) (rid : Option String) (body : Json) :
    Talks (sendTo text sid logical inst generation ty rid body) := by
  refine .step onMessages_msg fun messageId => ?_
  dsimp only
  split
  · exact .pure _
  · refine .next fun sink => ?_
    split
    · exact .pure _
    · exact .ite (.pure _) (.once)

theorem transact_talks (ty : String) (body : Json) :
    Talks (transact text sid logical inst generation ty body) := by
  refine .next fun live => .ite (.pure _) ?_
  refine .next fun waiting => .ite (.pure _) ?_
  refine .step onMessages_req fun rid => .next fun _ => ?_
  refine .bind (sendTo_talks ..) fun sent => ?_
  split
  · exact .map .once
  · refine .next fun reply => ?_
    split
    · exact .pure _
    · exact .map .once

theorem awaitCall_talks (sid rid : String) (rounds : Nat) :
    Talks (awaitCall text req sid rid rounds) := by
  induction rounds with
  | zero => exact .blocked
  | succ rounds ih =>
    refine .next fun cancelled => .ite ?_ ?_
    · refine .step onMessages_req fun notice => .bind (sendTo_talks ..) fun _ => ?_
      exact .map .once
    · refine .next fun late => .ite ?_ ?_
      · exact .map .once
      · refine .next fun reply => ?_
        split
        · exact .pure _
        · exact ih

theorem exchange_talks (sid : String) (rounds : Nat) : Talks (exchange text req sid rounds) := by
  refine .step onMessages_req fun rid => .next fun _ => ?_
  refine .bind (sendTo_talks ..) fun sent => ?_
  split
  · exact .map .once
  · exact awaitCall_talks ..

theorem forwardCall_talks (rounds : Nat) : Talks (forwardCall text req rounds) := by
  refine .next fun waiting => .ite (.pure _) ?_
  refine .next fun found => ?_
  split
  · exact .pure _
  · refine .next fun same => .ite (.pure _) ?_
    refine .next fun entered => ?_
    split
    · exact .pure _
    · exact .pure _
    · refine .next fun charged => .ite ?_ ?_
      · exact .map .once
      · refine .bind (exchange_talks ..) fun out => .next fun _ => ?_
        exact .map .once

theorem cancelSessionCalls_talks (sid reason : String) :
    Talks (cancelSessionCalls text sid reason) := by
  refine .next fun jobs => .forEach jobs fun job => ?_
  refine .step onMessages_msg fun messageId => .step onMessages_req fun rid => ?_
  dsimp only
  split
  · exact .pure _
  · exact .map .once

theorem resolveReply_talks (sid : String) (env : Envelope) : Talks (resolveReply sid env) := by
  unfold resolveReply
  split
  · exact .pure _
  · refine .next fun found => ?_
    split
    · exact .pure _
    · exact .once

theorem heartbeat_talks (sid : String) : Talks (heartbeat sid) := by
  refine .step onMessages_msg fun _ => .next fun sink => ?_
  split
  · exact .pure _
  · exact .map .once

end Talks

/-! ### Processes -/

/-- Actions on processes, their tokens and pending activations. -/
abbrev onProcesses {β : Type} : HAct β → Prop
  | .current _ => True
  | .insertActivation _ _ _ => True
  | .removeActivation _ => True
  | .insertToken _ _ _ => True
  | .removeToken _ => True
  | .lockChildren => True
  | .unlockChildren => True
  | .insertChild _ _ => True
  | .removeChild _ => True
  | .forgetChild _ => True
  | .exitedChildren => True
  | .listed _ => True
  | .randomToken => True
  | .spawn _ => True
  | .killGroup _ => True
  | _ => False

abbrev Housekeeping {α : Type} (p : HProg α) : Prop :=
  Composed (fun _ action => onProcesses action) (fun _ _ => False) p

theorem killChild_housekeeping (logical : String) : Housekeeping (killChild logical) := by
  refine .next fun _ => .next fun _ => ?_
  refine .next fun child => ?_
  split
  · exact .map .once
  · refine .next fun cleaned => .ite ?_ ?_
    · exact .next fun _ => .map .once
    · exact .next fun _ => .map .once

theorem spawnChild_housekeeping (policy : HostPolicy) (logical : String) (inst generation : Nat) :
    Housekeeping (spawnChild policy logical inst generation) := by
  refine .next fun _ => .next fun c => ?_
  refine .ite (.once) (.ite (.once) ?_)
  refine .next fun token => ?_
  split
  · exact .once
  · refine .next fun _ => .next fun _ => ?_
    refine .next fun spawned => .ite ?_ ?_
    · exact .next fun _ => .next fun _ => .once
    · exact .next fun _ => .next fun _ => .once

theorem unlisted_housekeeping (exited : List String) : Housekeeping (unlisted exited) := by
  induction exited with
  | nil => exact .pure _
  | cons logical exited ih =>
    exact .next fun live => .bind ih fun gone => .pure _

theorem reapFinished_housekeeping : Housekeeping reapFinished := by
  refine .next fun _ => .next fun exited => ?_
  refine .bind (unlisted_housekeeping exited) fun gone => .next fun _ => ?_
  exact .forEach gone fun logical => .once

end MatrixRuntime.HostSessions
