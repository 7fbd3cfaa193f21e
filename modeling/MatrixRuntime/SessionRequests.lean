import MatrixRuntime.InterleavedMachine
import MatrixRuntime.JsonValue
import MatrixRuntime.KeyedTable
import MatrixRuntime.HostReader

/-! Requests over a multiplexed session. A caller puts the sending end of its channel into the
reply table and hands the engine a command; the engine moves it to a table of its own and answers
it there. Either side gives up on its own: callers time out or are cancelled, the engine expires
what is late and, when the session detaches, fails whatever is left. -/

namespace MatrixRuntime.SessionRequests

open JsonValue KeyedTable HostReader InterleavedProgram InterleavedMachine

/-! ### The session -/

inductive SessionState where
  | connected
  | suspect
  | detached
  deriving DecidableEq, Repr

structure SessionLimits where
  controlQueue : Nat := 128
  dataQueue : Nat := 64
  commands : Nat := 256
  maxPending : Nat := 256

/-- The sending end of the channel of a request. -/
structure Waiter where
  channel : Nat
  deadline : Nat
  deriving DecidableEq, Repr

inductive Command where
  | control (frame : List UInt8)
  | data (frame : List UInt8)
  | request (requestId : String) (frame : List UInt8) (timeout : Nat)

abbrev Reply := Except String Json

inductive Received where
  | message (reply : Reply)
  | timeout
  | disconnected

/-- How long nothing has arrived. -/
inductive Silence where
  | short
  | suspect
  | detach
  deriving DecidableEq

/-- What the session cannot decide: the time, which callers have been cancelled or have waited long
enough, what arrives, and whether the socket works. -/
structure Outside where
  now : Nat
  cancelled : Nat → Bool
  waited : Nat → Bool
  heartbeat : Option (List UInt8)
  silence : Silence
  polls : Bool
  frames : Except String (List Json)
  flushes : Bool

/-- `channels` holds what was sent to the caller of each request, `hand` the waiter the engine has
taken and not yet placed. `requestIds` and `drained` record the past: the request each channel was
made for, and whether a detach has emptied the reply table. -/
structure Mux where
  limits : SessionLimits
  replies : Table String Waiter
  multi : Table String Nat
  handler : Bool
  state : SessionState
  shutdown : Bool
  commands : List Command
  begun : Bool
  gone : Bool
  pending : Table String Waiter
  hand : Option (String × Waiter)
  controlQ : List (List UInt8)
  dataQ : List (List UInt8)
  nextChannel : Nat
  channels : Nat → List Reply
  subscriptions : Nat → List Json
  handled : List Json
  outside : Outside
  requestIds : Nat → String
  drained : Bool

/-! ### Actions -/

inductive MAct : Type → Type 1 where
  | register (rid : String) (timeout : Nat) : MAct (Except String Nat)
  | removeReply (rid : String) : MAct Unit
  | isShutdown : MAct Bool
  | isDetached : MAct Bool
  | trySend (cmd : Command) : MAct Bool
  | cancelRequested (channel : Nat) : MAct Bool
  | recv (channel : Nat) : MAct Received
  | waitedOut (channel : Nat) : MAct Bool
  | subscribe (rid : String) (tx : Nat) : MAct (Except String Unit)
  | unsubscribe (rid : String) : MAct Unit
  | setHandler : MAct Unit
  | requestShutdown : MAct Unit
  | beginEngine : MAct Unit
  | tryRecv : MAct (Option Command)
  | takeReply (rid : String) : MAct Bool
  | hasRoom : MAct Bool
  | controlFull : MAct Bool
  | dataFull : MAct Bool
  | refuse (reason : String) : MAct Unit
  | adopt (timeout : Nat) : MAct Unit
  | pushControl (frame : List UInt8) : MAct Unit
  | pushData (frame : List UInt8) : MAct Unit
  | now : MAct Nat
  | expirePending (instant : Nat) : MAct Unit
  | expireReplies (instant : Nat) : MAct Unit
  | heartbeat : MAct Unit
  | silence : MAct Silence
  | setSuspect : MAct Unit
  | poll : MAct Bool
  | pumpReads : MAct (Except String (List Json))
  | noteInbound : MAct Unit
  | resolve (rid : String) (env : Json) : MAct Bool
  | deliver (rid : String) (env : Json) : MAct Bool
  | onMessage (env : Json) : MAct Unit
  | flushOne : MAct Bool
  | setDetached : MAct Unit
  | failPending (reason : String) : MAct Unit
  | failReplies (reason : String) : MAct Unit
  | dropEngine : MAct Unit

/-- The request ids of a table with their channels. -/
def waitersOf (t : Table String Waiter) : List (String × Nat) :=
  t.entries.map fun row => (row.1, row.2.channel)

/-- The requests whose channel still has a sending end. -/
def Mux.waiting (s : Mux) : List (String × Nat) :=
  waitersOf s.replies ++ waitersOf s.pending ++
    (s.hand.map fun taken => (taken.1, taken.2.channel)).toList

/-- Send a reply on the channel of each of some requests. -/
def answer (channels : Nat → List Reply) (told : List (String × Nat)) (reply : Reply) :
    Nat → List Reply :=
  fun channel =>
    if channel ∈ told.map Prod.snd then channels channel ++ [reply] else channels channel

def MAct.sem {β : Type} : MAct β → Mux → Option (β × Mux)
  | .register rid timeout, s =>
    if s.limits.maxPending ≤ s.replies.size then some (.error "resource-exhausted", s)
    else if (s.replies.get rid).isSome then some (.error "duplicate-request", s)
    else some (.ok s.nextChannel, { s with
      replies := s.replies.put rid ⟨s.nextChannel, s.outside.now + timeout⟩
      nextChannel := s.nextChannel + 1
      requestIds := Function.update s.requestIds s.nextChannel rid })
  | .removeReply rid, s => some ((), { s with replies := s.replies.erase rid })
  | .isShutdown, s => some (s.shutdown, s)
  | .isDetached, s => some (decide (s.state = .detached), s)
  | .trySend cmd, s =>
    if s.gone || decide (s.limits.commands ≤ s.commands.length) then some (false, s)
    else some (true, { s with commands := s.commands ++ [cmd] })
  | .cancelRequested channel, s => some (s.outside.cancelled channel, s)
  | .recv channel, s =>
    match s.channels channel with
    | reply :: _ => some (.message reply, s)
    | [] => some (if channel ∈ s.waiting.map Prod.snd then .timeout else .disconnected, s)
  | .waitedOut channel, s => some (s.outside.waited channel, s)
  | .subscribe rid tx, s =>
    if s.limits.maxPending ≤ s.multi.size then some (.error "resource-exhausted", s)
    else if (s.multi.get rid).isSome then some (.error "duplicate-request", s)
    else some (.ok (), { s with multi := s.multi.put rid tx })
  | .unsubscribe rid, s => some ((), { s with multi := s.multi.erase rid })
  | .setHandler, s => some ((), { s with handler := true })
  | .requestShutdown, s => some ((), { s with shutdown := true })
  | .beginEngine, s => if s.begun then none else some ((), { s with begun := true })
  | .tryRecv, s =>
    match s.commands with
    | [] => some (none, s)
    | cmd :: commands => some (some cmd, { s with commands := commands })
  | .takeReply rid, s =>
    match s.replies.get rid with
    | none => some (false, s)
    | some waiter =>
      some (true, { s with replies := s.replies.erase rid, hand := some (rid, waiter) })
  | .hasRoom, s => some (decide (s.pending.size < s.limits.maxPending), s)
  | .controlFull, s => some (decide (s.limits.controlQueue ≤ s.controlQ.length), s)
  | .dataFull, s => some (decide (s.limits.dataQueue ≤ s.dataQ.length), s)
  | .refuse reason, s =>
    match s.hand with
    | none => some ((), s)
    | some (rid, waiter) => some ((), { s with
        hand := none
        channels := answer s.channels [(rid, waiter.channel)] (.error reason) })
  | .adopt timeout, s =>
    match s.hand with
    | none => some ((), s)
    | some (rid, waiter) => some ((), { s with
        hand := none
        pending := s.pending.put rid ⟨waiter.channel, s.outside.now + timeout⟩ })
  | .pushControl frame, s => some ((), { s with controlQ := s.controlQ ++ [frame] })
  | .pushData frame, s => some ((), { s with dataQ := s.dataQ ++ [frame] })
  | .now, s => some (s.outside.now, s)
  | .expirePending instant, s =>
    let late := s.pending.retain fun _ waiter => decide (waiter.deadline ≤ instant)
    some ((), { s with
      pending := s.pending.retain fun _ waiter => !decide (waiter.deadline ≤ instant)
      channels := answer s.channels (waitersOf late) (.error "outcome-unknown") })
  | .expireReplies instant, s => some ((), { s with
      replies := s.replies.retain fun _ waiter => decide (instant < waiter.deadline) })
  | .heartbeat, s =>
    match s.outside.heartbeat with
    | none => some ((), s)
    | some frame =>
      if s.controlQ.length < s.limits.controlQueue then
        some ((), { s with controlQ := s.controlQ ++ [frame] })
      else some ((), s)
  | .silence, s => some (s.outside.silence, s)
  | .setSuspect, s =>
    if s.state = .detached then some ((), s) else some ((), { s with state := .suspect })
  | .poll, s => some (s.outside.polls, s)
  | .pumpReads, s => some (s.outside.frames, s)
  | .noteInbound, s =>
    if s.state = .suspect then some ((), { s with state := .connected }) else some ((), s)
  | .resolve rid env, s =>
    match s.pending.get rid with
    | none => some (false, s)
    | some waiter => some (true, { s with
        pending := s.pending.erase rid
        channels := answer s.channels [(rid, waiter.channel)] (.ok env) })
  | .deliver rid env, s =>
    match s.multi.get rid with
    | none => some (false, s)
    | some tx => some (true, { s with
        subscriptions := Function.update s.subscriptions tx (s.subscriptions tx ++ [env]) })
  | .onMessage env, s =>
    if s.handler then some ((), { s with handled := s.handled ++ [env] }) else some ((), s)
  | .flushOne, s =>
    match s.controlQ, s.dataQ with
    | _ :: control, _ => some (s.outside.flushes, { s with controlQ := control })
    | [], _ :: data => some (s.outside.flushes, { s with dataQ := data })
    | [], [] => some (true, s)
  | .setDetached, s => some ((), { s with state := .detached })
  | .failPending reason, s => some ((), { s with
      pending := .empty
      channels := answer s.channels (waitersOf s.pending) (.error reason) })
  | .failReplies reason, s => some ((), { s with
      replies := .empty
      channels := answer s.channels (waitersOf s.replies) (.error reason)
      drained := true })
  | .dropEngine, s => some ((), { s with gone := true, commands := [] })

/-! ### Callers -/

abbrev MProg : Type → Type 1 := Prog MAct

def requestIdOf (env : Json) : Option String := (env.get "request_id").bind Json.asStr

section Programs

variable (text : JsonText)

/-- The payload of an envelope. -/
def payloadOf (env : Json) : List UInt8 := (text.encode env).toUTF8.data.toList

def encodeFrame (env : Json) : Except String (List UInt8) :=
  match encode (payloadOf text env) defaultMaxFrame with
  | .ok frame => .ok frame
  | .error (.tooLarge declared max) =>
    .error ("frame declares " ++ toString declared ++ " bytes, max is " ++ toString max)

def sendCmd (cmd : Command) (refused : String) : MProg (Except String Unit) := do
  let shutdown ← perform .isShutdown
  if shutdown then pure (.error "session detached")
  else do
    let detached ← perform .isDetached
    if detached then pure (.error "session detached")
    else do
      let sent ← perform (.trySend cmd)
      pure (if sent then .ok () else .error refused)

/-- The waiting loop of `request`, for a number of rounds. -/
def awaitReply (rid : String) (channel : Nat) : Nat → MProg Reply
  | 0 => .blocked
  | rounds + 1 => do
    let cancelled ← perform (.cancelRequested channel)
    if cancelled then do
      perform (.removeReply rid)
      pure (.error "cancelled")
    else do
      match ← perform (.recv channel) with
      | .message reply => pure reply
      | .timeout => do
        let waited ← perform (.waitedOut channel)
        if waited then do
          perform (.removeReply rid)
          pure (.error "outcome-unknown")
        else awaitReply rid channel rounds
      | .disconnected => do
        perform (.removeReply rid)
        pure (.error "outcome-unknown")

/-- The rest of `request` once its waiter is in the reply table. -/
def sendRequest (rid : String) (channel : Nat) (env : Json) (timeout rounds : Nat) :
    MProg Reply :=
  match encodeFrame text env with
  | .error e => pure (.error e)
  | .ok frame => do
    match ← sendCmd (.request rid frame timeout) "resource-exhausted" with
    | .error _ => do
      perform (.removeReply rid)
      pure (.error "resource-exhausted")
    | .ok _ => awaitReply rid channel rounds

def request (env : Json) (timeout rounds : Nat) : MProg Reply :=
  match requestIdOf env with
  | none => pure (.error "request needs request_id")
  | some rid => do
    match ← perform (.register rid timeout) with
    | .error e => pure (.error e)
    | .ok channel => sendRequest text rid channel env timeout rounds

/-- `send_control` and `send_data`. -/
def sendFrame (cmd : List UInt8 → Command) (env : Json) : MProg (Except String Unit) :=
  match encodeFrame text env with
  | .error e => pure (.error e)
  | .ok frame => sendCmd (cmd frame) "resource-exhausted"

end Programs

/-! ### The engine -/

def detach (reason : String) : MProg Unit := do
  perform .setDetached
  perform (.failPending reason)
  perform (.failReplies reason)

/-- A request that the engine has taken from the command queue. -/
def drainRequest (rid : String) (frame : List UInt8) (timeout : Nat) : MProg Unit := do
  let found ← perform (.takeReply rid)
  let room ← perform .hasRoom
  if !room || !found then perform (.refuse "resource-exhausted")
  else do
    let full ← perform .controlFull
    if full then perform (.refuse "resource-exhausted")
    else do
      perform (.adopt timeout)
      perform (.pushControl frame)

def drainCommand : Command → MProg Unit
  | .control frame => do
    let full ← perform .controlFull
    if full then pure () else perform (.pushControl frame)
  | .data frame => do
    let full ← perform .dataFull
    if full then pure () else perform (.pushData frame)
  | .request rid frame timeout => drainRequest rid frame timeout

/-- `drain_commands`, for a number of them. -/
def drainCommands : Nat → MProg Unit
  | 0 => .blocked
  | commands + 1 => do
    match ← perform .tryRecv with
    | none => pure ()
    | some cmd => do
      drainCommand cmd
      drainCommands commands

def expire : MProg Unit := do
  let instant ← perform .now
  perform (.expirePending instant)
  perform (.expireReplies instant)

def isAnswerType (ty : String) : Bool :=
  ["call.accepted", "call.result", "op.result", "inventory.result", "lease.renewed",
    "event.subscribed"].contains ty

def typeOf (env : Json) : String := ((env.get "type").bind Json.asStr).getD ""

section Engine

variable (valid : Json → Bool)

/-- A valid envelope goes to the handler, any other is dropped. -/
def serveMessage (env : Json) : MProg Unit :=
  if valid env then perform (.onMessage env) else pure ()

def dispatch (env : Json) : MProg Unit := do
  perform .noteInbound
  match requestIdOf env with
  | none => serveMessage valid env
  | some rid => do
    let resolved ← perform (.resolve rid env)
    if resolved then pure ()
    else do
      let delivered ← perform (.deliver rid env)
      if delivered then pure ()
      else if isAnswerType (typeOf env) then pure ()
      else serveMessage valid env

/-- The rest of a round after its reads; whether the engine goes on. -/
def finishRound : MProg Bool := do
  let flushed ← perform .flushOne
  if !flushed then do
    detach "frame deadline exceeded"
    pure false
  else do
    expire
    pure true

/-- The reads of a round, and what follows. -/
def readRound : MProg Bool := do
  let polled ← perform .poll
  if !polled then do
    detach "transport error"
    pure false
  else do
    match ← perform .pumpReads with
    | .ok frames => do
      forEach frames (dispatch valid)
      finishRound
    | .error e => do
      detach (if e = "clean-eof" then "peer closed" else "transport error: " ++ e)
      pure false

/-- One round of the engine; whether it goes on. -/
def engineRound (commands : Nat) : MProg Bool := do
  let shutdown ← perform .isShutdown
  if shutdown then do
    detach "session detached"
    pure false
  else do
    drainCommands commands
    expire
    perform .heartbeat
    match ← perform .silence with
    | .detach => do
      detach "session detached"
      pure false
    | .suspect => do
      perform .setSuspect
      readRound valid
    | .short => readRound valid

/-- The loop of the engine, for a number of rounds. -/
def engineLoop (commands : Nat) : Nat → MProg Unit
  | 0 => .blocked
  | rounds + 1 => do
    let goes ← engineRound valid commands
    if goes then engineLoop commands rounds else pure ()

/-- The engine thread; a session has one. -/
def engine (commands rounds : Nat) : MProg Unit := do
  perform .beginEngine
  engineLoop valid commands rounds
  perform .dropEngine

end Engine

inductive MOp where
  | request (env : Json) (timeout rounds : Nat)
  | sendControl (env : Json)
  | sendData (env : Json)
  | subscribe (rid : String) (tx : Nat)
  | unsubscribe (rid : String)
  | setHandler
  | shutdown
  | engine (commands rounds : Nat)

def mux (text : JsonText) (valid : Json → Bool) :
    Machine Mux MAct MOp (Option Reply) Outside where
  sem := MAct.sem
  env next s := { s with outside := next }
  code
    | .request env timeout rounds =>
      (request text env timeout rounds).bind fun reply => .pure (some reply)
    | .sendControl env => (sendFrame text .control env).bind fun _ => .pure none
    | .sendData env => (sendFrame text .data env).bind fun _ => .pure none
    | .subscribe rid tx => (perform (.subscribe rid tx)).bind fun _ => .pure none
    | .unsubscribe rid => (perform (.unsubscribe rid)).bind fun _ => .pure none
    | .setHandler => (perform .setHandler).bind fun _ => .pure none
    | .shutdown => (perform .requestShutdown).bind fun _ => .pure none
    | .engine commands rounds => (engine valid commands rounds).bind fun _ => .pure none

/-- A session that has just been set up; its engine is yet to run. -/
def Mux.spawn (limits : SessionLimits) (outside : Outside) : Mux where
  limits := limits
  replies := .empty
  multi := .empty
  handler := false
  state := .connected
  shutdown := false
  commands := []
  begun := false
  gone := false
  pending := .empty
  hand := none
  controlQ := []
  dataQ := []
  nextChannel := 0
  channels _ := []
  subscriptions _ := []
  handled := []
  outside := outside
  requestIds _ := ""
  drained := false

end MatrixRuntime.SessionRequests
