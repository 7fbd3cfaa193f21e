import MatrixRuntime.InterleavedMachine
import MatrixRuntime.KernelContexts
import MatrixRuntime.StoreLedger

/-! The executor side of a route: it serves `call.open` frames of any number of sessions
against the local kernel, with the store's ledger in front. Every critical section is one
action. Leases, grants and activations belong to the environment, and so does the time a
kernel call takes. -/

namespace MatrixRuntime.RouteExecutor

open KernelContexts JsonValue StoreLedger InterleavedProgram InterleavedMachine Function

/-! ### What the service knows -/

structure Lease where
  principal : String
  logical : String
  fence : Nat
  deadline : Nat
  owner : InstanceRef
  retrying : Bool
  failed : Bool

/-- Leases, grants and revocations, and what the kernel says of its definitions and
current activations. -/
structure Authority where
  now : Nat
  leases : List (String × Lease)
  grants : List (String × List String)
  revoked : List String
  caps : List (String × List String)
  current : List (String × InstanceRef)

namespace Authority

def leaseSnapshotByToken (s : Authority) (principal token : String) :
    Option (String × InstanceRef × Nat) :=
  if s.revoked.contains principal then none
  else
    match s.leases.lookup token with
    | none => none
    | some l =>
      if l.principal ≠ principal then none
      else if l.deadline ≤ s.now || l.failed || l.retrying then none
      else some (l.logical, l.owner, l.fence)

def grantCovers (s : Authority) (principal cap : String) : Bool :=
  if s.revoked.contains principal then false
  else (s.grants.lookup principal).any fun caps => caps.contains cap

/-- The definition of a logical id lists the capability. -/
def provides (s : Authority) (logical cap : String) : Bool :=
  (s.caps.lookup logical).any fun caps => caps.contains cap

def instanceRefOf (s : Authority) (logical : String) : Option InstanceRef :=
  s.current.lookup logical

def leaseLive (s : Authority) (principal logical : String) (fence : Nat) (owner : InstanceRef) :
    Bool :=
  !s.revoked.contains principal && s.leases.any fun (_, l) =>
    l.principal == principal && l.logical == logical && l.fence == fence &&
      decide (l.owner = owner) && decide (s.now < l.deadline) && !l.failed

def validate (s : Authority) (principal token : String) (fence : Nat) : Except String Lease :=
  if s.revoked.contains principal then .error "permission-denied"
  else
    match s.leases.lookup token with
    | none => .error "stale-generation"
    | some l =>
      if l.principal ≠ principal then .error "permission-denied"
      else if l.fence ≠ fence || l.deadline ≤ s.now then .error "stale-generation"
      else if l.failed || l.retrying then .error "context-not-active"
      else .ok l

/-- The first critical section of `Service::invoke`. -/
def authorize (s : Authority) (principal token : String) (fence : Nat) (cap : String) :
    Except String (String × InstanceRef) :=
  match s.validate principal token fence with
  | .error e => .error e
  | .ok l =>
    if !(s.grants.lookup principal).any fun caps => caps.contains cap then
      .error "permission-denied"
    else if !s.provides l.logical cap then .error "permission-denied"
    else .ok (l.logical, l.owner)

end Authority

/-! ### The tables of a route -/

def maxLegs : Nat := 256

structure OpProvider where
  logical : String
  owner : InstanceRef
  fence : Nat

structure RouteTables where
  legs : List String
  opening : List (String × String)
  cancelled : List String
  opProvider : List (String × OpProvider)
  opOrder : List String

def RouteTables.empty : RouteTables := ⟨[], [], [], [], []⟩

/-- Oldest-first eviction of the provider map. -/
def evict : List (String × OpProvider) → List String → List (String × OpProvider) × List String
  | map, [] => (map, [])
  | map, old :: order =>
    if maxLegs < map.length then evict (map.filter fun entry => entry.1 != old) order
    else (map, old :: order)

def RouteTables.insertProvider (t : RouteTables) (operation : String) (provider : OpProvider) :
    RouteTables :=
  let order := if (t.opProvider.lookup operation).isSome then t.opOrder
    else t.opOrder ++ [operation]
  let (map, order) := evict
    ((operation, provider) :: t.opProvider.filter fun entry => entry.1 != operation) order
  { t with opProvider := map, opOrder := order }

/-! ### Answers -/

/-- The terminal of a call: `call.result` with an output or an error. -/
inductive Terminal where
  | ok (output : Json)
  | error (code message : String)
  deriving DecidableEq

/-- Where a terminal comes from: a refusal, a leg (and the result the ledger took as completed,
if it did), the leg table, or the ledger. -/
inductive Source where
  | refusal
  | leg (recorded : Option Json)
  | legTable
  | ledger
  deriving DecidableEq

structure Answer where
  route : Nat
  key : OpKey
  source : Source
  request : Option Json
  terminal : Terminal
  deriving DecidableEq

/-! ### The state and its actions -/

/-- A kernel call on its own thread: not begun, running, returned, or gone without a result. -/
inductive WorkerState where
  | waiting
  | running
  | returned (value : Json) (ok : Bool)
  | gone

structure Worker where
  key : OpKey
  owner : InstanceRef
  cap : String
  input : Json
  state : WorkerState
  expired : Bool

/-- The store and the process. `disk` is SQLite's complaint while it refuses statements;
`started`, `answers` and `executing` record the past: the kernel calls begun and the
terminals sent, over all processes, and the legs that are running, by route. -/
structure ExecState where
  db : Db
  disk : Option String
  authority : Authority
  spawns : Bool
  routes : Nat → RouteTables
  workers : List Worker
  started : List OpKey
  answers : List Answer
  executing : Nat → Nat

inductive EAct : Type → Type 1 where
  | admitOperation (principal id : String) (request : Json) : EAct (Except String Admission)
  | finish (principal id : String) (result : Json) (unknown : Bool) : EAct (Except String Unit)
  | operation (principal id : String) : EAct (Except String (OpState × Option Json))
  | hasLeg (route : Nat) (operation : String) : EAct Bool
  | legCount (route : Nat) : EAct Nat
  | insertLeg (route : Nat) (operation : String) : EAct Unit
  | insertOpening (route : Nat) (rid operation : String) : EAct Unit
  | removeOpening (route : Nat) (rid : String) : EAct Unit
  | isCancelled (route : Nat) (operation : String) : EAct Bool
  | insertCancelled (route : Nat) (operation : String) : EAct Unit
  | removeCancelled (route : Nat) (operation : String) : EAct Unit
  | insertProvider (route : Nat) (operation : String) (provider : OpProvider) : EAct Unit
  | leaseByToken (principal token : String) : EAct (Option (String × InstanceRef × Nat))
  | grantCovers (principal cap : String) : EAct Bool
  | provides (logical cap : String) : EAct Bool
  | instanceRefOf (logical : String) : EAct (Option InstanceRef)
  | leaseLive (principal logical : String) (fence : Nat) (owner : InstanceRef) : EAct Bool
  | authorize (principal token : String) (fence : Nat) (cap : String) :
      EAct (Except String (String × InstanceRef))
  | spawnLeg (route : Nat) : EAct Bool
  | legEnds (route : Nat) : EAct Unit
  | submit (key : OpKey) (owner : InstanceRef) (cap : String) (input : Json) : EAct Nat
  | callKernel (key : OpKey) (owner : InstanceRef) (cap : String) (input : Json) : EAct Nat
  | awaitBudget (worker : Nat) : EAct (Option (Json × Bool))
  | awaitReturn (worker : Nat) : EAct (Json × Bool)
  | accepted (route : Nat) (rid : String) (persisted : Bool) : EAct Unit
  | terminal (rid : String) (answer : Answer) : EAct Unit

namespace ExecState

def editRoute (s : ExecState) (route : Nat) (f : RouteTables → RouteTables) : ExecState :=
  { s with routes := update s.routes route (f (s.routes route)) }

/-- A store call; SQLite may refuse it, which changes nothing. -/
def stored {α : Type} (s : ExecState) (call : Db → Stored α) : Except String α × ExecState :=
  match s.disk with
  | some e => (.error e, s)
  | none => ((call s.db).1, { s with db := (call s.db).2 })

end ExecState

def EAct.sem (text : JsonText) {β : Type} : EAct β → ExecState → Option (β × ExecState)
  | .admitOperation principal id request, s =>
    some (s.stored (StoreLedger.admitOperation text principal id request))
  | .finish principal id result unknown, s =>
    some (s.stored (StoreLedger.finish text principal id result unknown))
  | .operation principal id, s =>
    match s.disk with
    | some e => some (.error e, s)
    | none => some (StoreLedger.operation text principal id s.db, s)
  | .hasLeg route op, s => some ((s.routes route).legs.contains op, s)
  | .legCount route, s => some ((s.routes route).legs.length, s)
  | .insertLeg route op, s =>
    some ((), s.editRoute route fun t => { t with legs := t.legs.insert op })
  | .insertOpening route rid op, s => some ((), s.editRoute route fun t => { t with
      opening := (rid, op) :: t.opening.filter fun entry => entry.1 != rid })
  | .removeOpening route rid, s => some ((), s.editRoute route fun t => { t with
      opening := t.opening.filter fun entry => entry.1 != rid })
  | .isCancelled route op, s => some ((s.routes route).cancelled.contains op, s)
  | .insertCancelled route op, s =>
    some ((), s.editRoute route fun t => { t with cancelled := t.cancelled.insert op })
  | .removeCancelled route op, s =>
    some ((), s.editRoute route fun t => { t with cancelled := t.cancelled.erase op })
  | .insertProvider route op provider, s =>
    some ((), s.editRoute route fun t => t.insertProvider op provider)
  | .leaseByToken principal token, s =>
    some (s.authority.leaseSnapshotByToken principal token, s)
  | .grantCovers principal cap, s => some (s.authority.grantCovers principal cap, s)
  | .provides logical cap, s => some (s.authority.provides logical cap, s)
  | .instanceRefOf logical, s => some (s.authority.instanceRefOf logical, s)
  | .leaseLive principal logical fence owner, s =>
    some (s.authority.leaseLive principal logical fence owner, s)
  | .authorize principal token fence cap, s =>
    some (s.authority.authorize principal token fence cap, s)
  | .spawnLeg route, s =>
    if s.spawns then
      some (true, { s with
        executing := update s.executing route (s.executing route + 1) })
    else some (false, s)
  | .legEnds route, s => some ((), { s with
      executing := update s.executing route (s.executing route - 1) })
  | .submit key owner cap input, s =>
    -- A thread that cannot be started leaves a channel without a sender.
    some (s.workers.length, { s with
      workers := s.workers ++ [⟨key, owner, cap, input,
        if s.spawns then .waiting else .gone, false⟩] })
  | .callKernel key owner cap input, s => some (s.workers.length, { s with
      workers := s.workers ++ [⟨key, owner, cap, input, .waiting, false⟩] })
  | .awaitBudget worker, s =>
    -- A result that is there is received even when the budget has run out.
    match s.workers[worker]? with
    | some w =>
      match w.state with
      | .returned value ok => some (some (value, ok), s)
      | .gone => some (none, s)
      | _ => if w.expired then some (none, s) else none
    | none => none
  | .awaitReturn worker, s =>
    match s.workers[worker]? with
    | some w =>
      match w.state with
      | .returned value ok => some ((value, ok), s)
      | _ => none
    | none => none
  | .accepted _ _ _, s => some ((), s)
  | .terminal rid answer, s =>
    if rid.isEmpty then some ((), s) else some ((), { s with answers := answer :: s.answers })

inductive EEnv where
  | authority (authority : Authority)
  | disk (complaint : Option String)
  | spawns (able : Bool)
  | begins (worker : Nat)
  | returns (worker : Nat) (value : Json) (ok : Bool)
  | dies (worker : Nat)
  | expires (worker : Nat)

namespace ExecState

def editWorker (s : ExecState) (worker : Nat) (f : Worker → Worker) : ExecState :=
  { s with workers := s.workers.modify worker f }

/-- The kernel call of a worker begins. -/
def begins (s : ExecState) (worker : Nat) : ExecState :=
  match s.workers[worker]? with
  | some ⟨key, _, _, _, .waiting, _⟩ =>
    { s.editWorker worker (fun w => { w with state := .running }) with started := key :: s.started }
  | _ => s

def returns (s : ExecState) (worker : Nat) (value : Json) (ok : Bool) : ExecState :=
  s.editWorker worker fun w =>
    match w.state with
    | .running => { w with state := .returned value ok }
    | _ => w

def dies (s : ExecState) (worker : Nat) : ExecState :=
  s.editWorker worker fun w =>
    match w.state with
    | .running => { w with state := .gone }
    | _ => w

end ExecState

def EEnv.run : EEnv → ExecState → ExecState
  | .authority next, s => { s with authority := next }
  | .disk complaint, s => { s with disk := complaint }
  | .spawns able, s => { s with spawns := able }
  | .begins worker, s => s.begins worker
  | .returns worker value ok, s => s.returns worker value ok
  | .dies worker, s => s.dies worker
  | .expires worker, s => s.editWorker worker fun w => { w with expired := true }

abbrev EProg : Type → Type 1 := Prog EAct

/-! ### Serving a call -/

/-- A text field of a JSON object, empty when it is missing or not a text. -/
def strField (value : Json) (key : String) : String := ((value.get key).bind Json.asStr).getD ""

/-- The code a kernel result carries. -/
def codeOf (value : Json) : String := strField value "code"

def timedOut : Json × Bool :=
  (.obj [("code", .str "deadline-exceeded"), ("error", .str "executor timeout")], false)

/-- The codes the executor takes for an unknown outcome. -/
def executorUnknown (code : String) : Bool :=
  code == "outcome-unknown" || code == "deadline-exhausted" || code == "cancelled"

/-- The codes `Service::invoke` takes for an unknown outcome. -/
def serviceUnknown (code : String) : Bool :=
  code == "outcome-unknown" || code == "deadline-exceeded" || code == "cancelled"

def durable (ok : Bool) (value : Json) : Json :=
  .obj [("durability", .str "durable"), ("ok", .bool ok), ("value", value)]

def coded (code : String) : Json := .obj [("code", .str code)]

def legResult (value : Json) (ok wasCancelled current : Bool) : Json :=
  if !current then durable false (coded "outcome-unknown")
  else if wasCancelled then durable false (coded "cancelled")
  else durable ok value

def legUnknown (value : Json) (current : Bool) : Bool := !current || executorUnknown (codeOf value)

section Serve

variable (text : JsonText)

/-- The error terminal of a recorded value. -/
def errorTerminal (value : Json) : Terminal :=
  .error (((value.get "code").bind Json.asStr).getD "remote-error") (text.encode value)

/-- The terminal of a leg whose result was recorded. -/
def legTerminal (value : Json) (ok : Bool) (result : Json) : Terminal :=
  if ok then .ok value else errorTerminal text ((result.get "value").getD .null)

/-- The terminal the ledger replays. -/
def ledgerTerminal (done : Json) : Terminal :=
  match done.get "ok" with
  | some (.bool true) => .ok ((done.get "value").getD .null)
  | _ => errorTerminal text ((done.get "value").getD .null)

variable (route : Nat) (rid : String) (principal operation : String)

def terminal (source : Source) (request : Option Json) (t : Terminal) : EProg Unit :=
  perform (.terminal rid ⟨route, (principal, operation), source, request, t⟩)

def accept (persisted : Bool) : EProg Unit :=
  if rid.isEmpty then pure () else perform (.accepted route rid persisted)

def refuse (request : Option Json) (code message : String) : EProg Unit := do
  accept route rid false
  terminal route rid principal operation .refusal request (.error code message)

/-- The replay of an operation the leg table knows. -/
def replayLeg : EProg Unit := do
  match ← perform (.operation principal operation) with
  | .ok (.completed, result) => do
    accept route rid true
    terminal route rid principal operation .legTable none (.ok (result.getD .null))
  | _ => do
    accept route rid false
    terminal route rid principal operation .legTable none
      (.error "outcome-unknown" "leg in flight; query later")

/-- The end of a leg: the verdict on what the bounded invocation gave is recorded and told. -/
def settleLeg (logical : String) (owner : InstanceRef) (fence : Nat) (request : Json)
    (value : Json) (ok : Bool) : EProg Unit := do
  let wasCancelled ← perform (.isCancelled route operation)
  let current ← perform (.leaseLive principal logical fence owner)
  let result := legResult value ok wasCancelled current
  let stored ← perform
    (.finish principal operation result (legUnknown value current || wasCancelled))
  perform (.removeOpening route rid)
  perform (.removeCancelled route operation)
  if wasCancelled then
    terminal route rid principal operation (.leg none) (some request)
      (.error "cancelled" "cancelled before persist")
  else if legUnknown value current then
    terminal route rid principal operation (.leg none) (some request)
      (.error "outcome-unknown" "authority lost before persist")
  else do
    perform (.insertLeg route operation)
    terminal route rid principal operation (.leg (if stored.isOk then some result else none))
      (some request) (legTerminal text value ok result)

def runLeg (logical : String) (owner : InstanceRef) (fence : Nat) (cap : String)
    (input request : Json) : EProg Unit := do
  let now ← perform (.instanceRefOf logical)
  if now ≠ some owner then do
    perform (.removeOpening route rid)
    let _ ← perform (.finish principal operation
      (.obj [("ok", .bool false), ("value", coded "stale-generation")]) false)
    terminal route rid principal operation (.leg none) (some request)
      (.error "stale-generation" "activation superseded")
  else do
    let early ← perform (.isCancelled route operation)
    if early then do
      perform (.removeOpening route rid)
      let _ ← perform (.finish principal operation
        (.obj [("ok", .bool false), ("value", coded "cancelled")]) true)
      terminal route rid principal operation (.leg none) (some request)
        (.error "cancelled" "cancelled before dispatch")
    else do
      let worker ← perform (.submit (principal, operation) owner cap input)
      let out ← perform (.awaitBudget worker)
      let (value, ok) := out.getD timedOut
      settleLeg text route rid principal operation logical owner fence request value ok

/-- The part of `on_call_open` that follows an admission. -/
def dispatchLeg (logical : String) (owner : InstanceRef) (fence : Nat) (cap : String)
    (input request : Json) : EProg Unit := do
  accept route rid false
  perform (.insertOpening route rid operation)
  perform (.insertProvider route operation ⟨logical, owner, fence⟩)
  let spawned ← perform (.spawnLeg route)
  if spawned then do
    runLeg text route rid principal operation logical owner fence cap input request
    perform (.legEnds route)
  else pure ()

/-- The part of `on_call_open` that follows the checks of authority. -/
def admitLeg (logical : String) (owner : InstanceRef) (fence : Nat) (cap : String)
    (input : Json) : EProg Unit := do
  let request := Json.obj [("cap", .str cap), ("input", input), ("logical", .str logical)]
  match ← perform (.admitOperation principal operation request) with
  | .ok (.completed done) => do
    accept route rid true
    terminal route rid principal operation .ledger (some request) (ledgerTerminal text done)
  | .ok .unknown => do
    accept route rid true
    terminal route rid principal operation .ledger (some request)
      (.error "outcome-unknown" "operation unknown; query later")
  | .ok .new => dispatchLeg text route rid principal operation logical owner fence cap input request
  | .error e => do
    accept route rid false
    terminal route rid principal operation .ledger (some request)
      (.error (if e == "operation-id-conflict" then "operation-id-conflict"
        else "resource-exhausted") "admission refused")

def authorizeLeg (body : Json) : EProg Unit := do
  let cap := strField body "cap"
  match ← perform (.leaseByToken principal (strField body "lease")) with
  | none => refuse route rid principal operation none "permission-denied" "lease refused"
  | some (logical, owner, fence) => do
    let granted ← perform (.grantCovers principal cap)
    if !granted then
      refuse route rid principal operation none "permission-denied" "capability not granted"
    else do
      let provided ← perform (.provides logical cap)
      if !provided then
        refuse route rid principal operation none "permission-denied" "capability not provided"
      else do
        let input := (body.get "input").getD .null
        admitLeg text route rid principal operation logical owner fence cap input

end Serve

def onCallOpen (text : JsonText) (route : Nat) (principal : String) (env : Json) : EProg Unit := do
  let rid := strField env "request_id"
  let body := (env.get "body").getD .null
  let operation := strField body "operation_id"
  if operation.isEmpty || 128 < operation.utf8ByteSize then
    refuse route rid principal operation none "invalid-message" "bad operation_id"
  else do
    let known ← perform (.hasLeg route operation)
    if known then replayLeg route rid principal operation
    else do
      let legs ← perform (.legCount route)
      if maxLegs ≤ legs then
        refuse route rid principal operation none "resource-exhausted" "too many remote legs"
      else authorizeLeg text route rid principal operation body

def onCallCancel (route : Nat) (env : Json) : EProg Unit :=
  match ((env.get "body").bind fun body => body.get "operation_id").bind Json.asStr with
  | some op => if op.isEmpty then pure () else perform (.insertCancelled route op)
  | none => pure ()

/-- `Service::invoke`, the unary path to the same ledger and the same kernel. -/
def serviceInvoke (principal token : String) (fence : Nat) (operation cap : String)
    (input : Json) : EProg (Except String Json) := do
  match ← perform (.authorize principal token fence cap) with
  | .error e => pure (.error e)
  | .ok (logical, owner) => do
    let request := Json.obj [("cap", .str cap), ("input", input), ("logical", .str logical)]
    match ← perform (.admitOperation principal operation request) with
    | .error e => pure (.error e)
    | .ok (.completed value) => pure (.ok value)
    | .ok .unknown => pure (.error "outcome-unknown")
    | .ok .new => do
      let now ← perform (.instanceRefOf logical)
      if now ≠ some owner then pure (.error "stale-generation")
      else do
        let worker ← perform (.callKernel (principal, operation) owner cap input)
        let (value, ok) ← perform (.awaitReturn worker)
        let current ← perform (.leaseLive principal logical fence owner)
        let result := if !current then durable false (coded "outcome-unknown")
          else durable ok value
        match ← perform (.finish principal operation result
          (!current || serviceUnknown (codeOf value))) with
        | .error e => pure (.error e)
        | .ok () => pure (.ok result)

inductive EOp where
  | callOpen (route : Nat) (env : Json)
  | callCancel (route : Nat) (env : Json)
  | invoke (principal token : String) (fence : Nat) (operation cap : String) (input : Json)

/-- The executor; `peer` is the principal each session was authenticated as. -/
def executor (text : JsonText) (peer : Nat → String) :
    Machine ExecState EAct EOp (Option (Except String Json)) EEnv where
  sem := EAct.sem text
  env := EEnv.run
  code
    | .callOpen route env => (onCallOpen text route (peer route) env).bind fun _ => .pure none
    | .callCancel route env => (onCallCancel route env).bind fun _ => .pure none
    | .invoke principal token fence operation cap input =>
      (serviceInvoke principal token fence operation cap input).bind fun r => .pure (some r)

end MatrixRuntime.RouteExecutor
