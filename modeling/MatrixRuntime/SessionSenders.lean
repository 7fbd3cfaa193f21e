import MatrixRuntime.CompactJson
import MatrixRuntime.SessionRequests

/-! What the host writes to a component after the welcome. The largest frame of a session is
agreed on once; the answer to the registration keeps to it, every other sender to the default. -/

namespace MatrixRuntime.SessionSenders

open JsonValue HostReader
open SessionRequests (payloadOf)

/-! ### Messages -/

/-- `Map::insert`: fields in the order of their names, the last value of a name. -/
def insertField (key : String) (value : Json) : List (String × Json) → List (String × Json)
  | [] => [(key, value)]
  | (k, v) :: rest =>
    if key = k then (key, value) :: rest
    else if key < k then (key, value) :: (k, v) :: rest
    else (k, v) :: insertField key value rest

/-- An object from its fields as they are written down. -/
def object (fields : List (String × Json)) : Json :=
  .obj (fields.foldl (fun done (key, value) => insertField key value done) [])

/-- The session a message goes out on. -/
structure Bound where
  sid : String
  inst : Nat
  generation : Nat

structure DepError where
  code : String
  message : String
  origin : Option String

/-- The messages of the host, with what their senders are given. -/
inductive HostMessage where
  | reject (code reason : String)
  | registered (logical : String)
  | sendTo (ty : String) (requestId : Option String) (body : Json)
  | cancelSessionCall (requestId ticket reason : String)
  | heartbeat
  | resourceResult (requestId : String) (operationId : Json) (status : String)
      (extra : List (String × Json))
  | depResult (requestId : String) (output : Option Json) (error : Option DepError)
  | depAccepted (openRid : String) (child : Nat)
  | depCancelResult (cancelRid target state : String)
  | streamCredit (streamId : String) (bytes : Nat)
  | endStream (streamId status : String) (received granted : Nat)
  | deliverEvent (topic : String) (payload : Json)
  | streamChunk (streamId : String) (seq : Nat) (payload : String)

namespace HostMessage

def ty : HostMessage → String
  | reject .. => "reject"
  | registered _ => "registered"
  | sendTo ty _ _ => ty
  | cancelSessionCall .. => "call.cancel"
  | heartbeat => "session.heartbeat"
  | resourceResult .. => "resource.result"
  | depResult .. => "dependency.result"
  | depAccepted .. => "dependency.accepted"
  | depCancelResult .. => "dependency.cancel.result"
  | streamCredit .. => "stream.credit"
  | endStream .. => "stream.end"
  | deliverEvent .. => "event.deliver"
  | streamChunk .. => "stream.data"

/-- The field `request_id`, for the messages that have one. -/
def requestId : HostMessage → Option Json
  | sendTo _ requestId _ => some (requestId.elim .null .str)
  | cancelSessionCall requestId _ _ => some (.str requestId)
  | resourceResult requestId .. => some (.str requestId)
  | depResult requestId .. => some (.str requestId)
  | depAccepted openRid _ => some (.str openRid)
  | depCancelResult cancelRid .. => some (.str cancelRid)
  | _ => none

/-- The session and the activation; a heartbeat names only the session, and a rejection comes
before there is one. -/
def stamps (bound : Bound) : HostMessage → List (String × Json)
  | reject .. => []
  | heartbeat => [("session_id", .str bound.sid)]
  | _ => [("session_id", .str bound.sid), ("instance_id", .str (toString bound.inst)),
      ("generation", .str (toString bound.generation))]

def errorBody (error : DepError) : Json :=
  object ([("code", .str error.code), ("message", .str error.message)] ++
    (error.origin.map fun origin => ("origin", Json.str origin)).toList)

def body : HostMessage → Json
  | reject code reason => object [("code", .str code), ("reason", .str reason)]
  | registered logical => object [("logical", .str logical)]
  | sendTo _ _ body => body
  | cancelSessionCall _ ticket reason => object [("ticket", .str ticket), ("reason", .str reason)]
  | heartbeat => object []
  | resourceResult _ operationId status extra =>
    object ([("operation_id", operationId), ("status", .str status)] ++ extra)
  | depResult _ (some output) _ => object [("status", .str "ok"), ("output", output)]
  | depResult _ none (some error) =>
    object [("status", .str "error"), ("error", errorBody error)]
  | depResult _ none none =>
    object [("status", .str "error"), ("error", errorBody ⟨"internal", "empty result", none⟩)]
  | depAccepted _ child => object [("child_ticket", .str (toString child))]
  | depCancelResult _ target state =>
    object [("target_request_id", .str target), ("state", .str state)]
  | streamCredit streamId bytes => object [("stream_id", .str streamId), ("bytes", .num bytes)]
  | endStream streamId status received granted =>
    object [("stream_id", .str streamId), ("status", .str status),
      ("reason", .str ("over credit: received " ++ toString received ++ " granted " ++
        toString granted))]
  | deliverEvent topic payload => object [("topic", .str topic), ("payload", payload)]
  | streamChunk streamId seq payload =>
    object [("stream_id", .str streamId), ("seq", .str (toString seq)), ("payload", .str payload)]

def envelope (bound : Bound) (messageId : String) (m : HostMessage) : Json :=
  object ([("protocol", .str "matrix.component"), ("version", .str "0.1"), ("type", .str m.ty),
    ("message_id", .str messageId)] ++ m.stamps bound ++
      (m.requestId.map fun rid => ("request_id", rid)).toList ++ [("body", m.body)])

/-- The limit its sender passes to `encode`, on a session of some largest frame. -/
def limit (maxFrame : Nat) : HostMessage → Nat
  | registered _ => maxFrame
  | _ => defaultMaxFrame

end HostMessage

section Senders

variable (text : JsonText) (wantFrame : Nat) (bound : Bound)

/-- The payload of a message. -/
def payload (message : String × HostMessage) : List UInt8 :=
  payloadOf text (message.2.envelope bound message.1)

/-- The payload that goes out, if `encode` lets it. -/
def sent (message : String × HostMessage) : Option (List UInt8) :=
  match encode (payload text bound message) (message.2.limit (sessionMaxFrame wantFrame)) with
  | .ok _ => some (payload text bound message)
  | .error _ => none

end Senders

variable {text : JsonText} {wantFrame : Nat} {bound : Bound} (n : Nat)
  (message : String × HostMessage)

/-! ### Sizes -/

theorem sessionMaxFrame_le_default (wantFrame : Nat) :
    sessionMaxFrame wantFrame ≤ defaultMaxFrame := Nat.min_le_right ..

theorem limit_small (m : HostMessage) : m.limit (sessionMaxFrame wantFrame) ≤ u32Max := by
  have default : defaultMaxFrame ≤ u32Max := by decide
  cases m with
  | registered => exact sessionMaxFrame_le wantFrame
  | _ => exact default

/-- A message goes out if it is within the limit of its sender. -/
theorem sent_eq : sent text wantFrame bound message =
    if (payload text bound message).length ≤ message.2.limit (sessionMaxFrame wantFrame) then
      some (payload text bound message) else none := by
  unfold sent
  by_cases fits : (payload text bound message).length ≤ message.2.limit (sessionMaxFrame wantFrame)
  · rw [if_pos fits, encode_eq fits (limit_small message.2)]
  · rw [if_neg fits, encode, if_pos (Nat.lt_of_not_le fits)]

/-- The answer to the registration, what is within the agreed size anyway, and what no sender
lets through. -/
def Modest (text : JsonText) (wantFrame : Nat) (bound : Bound) (message : String × HostMessage) :
    Prop :=
  message.2.limit (sessionMaxFrame wantFrame) = sessionMaxFrame wantFrame ∨
    (payload text bound message).length ≤ sessionMaxFrame wantFrame ∨
      defaultMaxFrame < (payload text bound message).length

theorem modest_iff : Modest text wantFrame bound message ↔
    ∀ written, sent text wantFrame bound message = some written →
      written.length ≤ sessionMaxFrame wantFrame := by
  have cases : message.2.limit (sessionMaxFrame wantFrame) = sessionMaxFrame wantFrame ∨
      message.2.limit (sessionMaxFrame wantFrame) = defaultMaxFrame := by
    cases message.2 with
    | registered => exact .inl rfl
    | _ => exact .inr rfl
  have le := sessionMaxFrame_le_default wantFrame
  rw [sent_eq, Modest]
  constructor
  · intro modest written h
    split at h
    next fits =>
      cases h
      omega
    next => cases h
  · intro within
    by_cases fits :
        (payload text bound message).length ≤ message.2.limit (sessionMaxFrame wantFrame)
    · exact .inr (.inl (within _ (if_pos fits)))
    · omega

/-! ### Every smaller size is passed -/

theorem ascii_size {cs : List Char} (ascii : ∀ c ∈ cs, c.utf8Size = 1) :
    (String.ofList cs).toUTF8.data.toList.length = cs.length := by
  simp only [String.toUTF8_eq_toByteArray, String.toByteArray_ofList, Array.length_toList,
    ByteArray.size_data]
  induction cs with
  | nil => rfl
  | cons c cs ih =>
    rw [List.utf8Encode_cons, ByteArray.size_append, ih fun c mem => ascii c (.tail _ mem),
      List.utf8Encode_singleton]
    have one : (String.utf8EncodeChar c).length = 1 := by
      rw [String.length_utf8EncodeChar]
      exact ascii c (.head _)
    simp [one, Nat.add_comm]

/-- An event that carries some letters. -/
def lettersEvent (n : Nat) : String × HostMessage :=
  ("msg-1", .deliverEvent "t" (.str (String.ofList (List.replicate n 'a'))))

def someSession : Bound := ⟨"sess-1", 7, 1⟩

/-- The fields behind the generation. -/
def laterFields : List (String × Json) :=
  [("message_id", .str "msg-1"), ("protocol", .str "matrix.component"),
    ("session_id", .str "sess-1"), ("type", .str "event.deliver"), ("version", .str "0.1")]

theorem lettersEvent_envelope : (lettersEvent n).2.envelope someSession (lettersEvent n).1 =
    .obj (("body", .obj [("payload", .str (String.ofList (List.replicate n 'a'))),
      ("topic", .str "t")]) :: ("generation", .str "1") :: ("instance_id", .str "7") ::
        laterFields) := by
  rfl

open CompactJson in
theorem quoted_letters :
    quoted (String.ofList (List.replicate n 'a')) = '"' :: (List.replicate n 'a' ++ ['"']) := by
  have plain : escape 'a' = ['a'] := by decide
  have letters : (List.replicate n 'a').flatMap escape = List.replicate n 'a' := by
    induction n with
    | zero => rfl
    | succ n ih => rw [List.replicate_succ, List.flatMap_cons, ih, plain, List.singleton_append]
  rw [quoted, String.toList_ofList, letters, List.cons_append]

/-- The text of the event up to its letters, and after them. -/
def beforeLetters : List Char :=
  '\x7b' :: (CompactJson.quoted "body" ++ ':' :: '\x7b' :: (CompactJson.quoted "payload" ++
    ':' :: ['"']))

def afterLetters : List Char :=
  '"' :: ',' :: (CompactJson.print.printFields [("topic", .str "t")] ++ '\x7d' :: ',' ::
    (CompactJson.print.printFields (("generation", .str "1") :: ("instance_id", .str "7") ::
      laterFields) ++ ['\x7d']))

theorem print_lettersEvent :
    CompactJson.print ((lettersEvent n).2.envelope someSession (lettersEvent n).1) =
      beforeLetters ++ (List.replicate n 'a' ++ afterLetters) := by
  have two : ∀ k v f rest, CompactJson.print.printFields ((k, v) :: f :: rest) =
      CompactJson.quoted k ++ ':' :: CompactJson.print v ++ ',' ::
        CompactJson.print.printFields (f :: rest) := fun _ _ _ _ => by
    rw [CompactJson.print.printFields]
    exact nofun
  rw [lettersEvent_envelope, CompactJson.print, two, CompactJson.print, two, CompactJson.print,
    quoted_letters, beforeLetters, afterLetters]
  simp only [List.append_assoc, List.cons_append, List.nil_append]

theorem payload_compact : payload CompactJson.compact bound message = (String.ofList
      (CompactJson.print (message.2.envelope bound message.1))).toUTF8.data.toList := rfl

theorem payload_lettersEvent :
    (payload CompactJson.compact someSession (lettersEvent n)).length = n + 182 := by
  have before : beforeLetters.all (fun c => decide (c.utf8Size = 1)) = true := by decide +kernel
  have after : afterLetters.all (fun c => decide (c.utf8Size = 1)) = true := by decide +kernel
  have ascii : ∀ c ∈ beforeLetters ++ (List.replicate n 'a' ++ afterLetters), c.utf8Size = 1 := by
    intro c mem
    rcases List.mem_append.mp mem with mem | mem
    · exact of_decide_eq_true (List.all_eq_true.mp before c mem)
    rcases List.mem_append.mp mem with mem | mem
    · rw [List.eq_of_mem_replicate mem]
      decide
    · exact of_decide_eq_true (List.all_eq_true.mp after c mem)
  have ends : beforeLetters.length + afterLetters.length = 182 := by decide +kernel
  rw [payload_compact, print_lettersEvent, ascii_size ascii, List.length_append,
    List.length_append, List.length_replicate]
  omega

/-- A peer that holds to the agreed size refuses what is larger. -/
theorem splitFrame_oversize {written : List UInt8} {maxFrame : Nat}
    (large : maxFrame < written.length) (small : written.length ≤ u32Max) :
    splitFrame (frame written) maxFrame = .error (.tooLarge written.length maxFrame) := by
  simp only [splitFrame, frame, toBeBytes, List.cons_append, fromBeBytes_toBeBytes small,
    if_pos large]

/-- Whatever is agreed on below the default, some event is one byte too long for it. -/
theorem smaller_size_passed (smaller : wantFrame < defaultMaxFrame) :
    ∃ n written, sent CompactJson.compact wantFrame someSession (lettersEvent n) = some written ∧
      written.length = sessionMaxFrame wantFrame + 1 ∧
      splitFrame (frame written) (sessionMaxFrame wantFrame) =
        .error (.tooLarge written.length (sessionMaxFrame wantFrame)) := by
  have agreed : 1024 ≤ sessionMaxFrame wantFrame ∧ sessionMaxFrame wantFrame < defaultMaxFrame := by
    have large : 1024 < defaultMaxFrame := by decide
    rw [sessionMaxFrame]
    omega
  have size := payload_lettersEvent (sessionMaxFrame wantFrame - 181)
  have fits : (payload CompactJson.compact someSession
      (lettersEvent (sessionMaxFrame wantFrame - 181))).length ≤ defaultMaxFrame := by
    omega
  have small : defaultMaxFrame ≤ u32Max := by decide
  exact ⟨_, _, (sent_eq _).trans (if_pos fits), by omega,
    splitFrame_oversize (by omega) (Nat.le_trans fits small)⟩

end MatrixRuntime.SessionSenders
