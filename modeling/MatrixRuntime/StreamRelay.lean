import Mathlib

/-! The component's side of a bound remote leg: its stream frames are relayed to the route transport
under the executor's credit and the session's send quota. -/

namespace MatrixRuntime.StreamRelay

structure RemoteStream where
  sendNext : Nat
  sendGranted : Nat
  sendSent : Nat
  ended : Bool

/-- A bound leg, with the number and size of every chunk its transport was handed. -/
structure Leg extends RemoteStream where
  handed : List (Nat × Nat)

/-- A session's send quota when a chunk is charged. -/
structure Session where
  sendUsed : Nat
  sendQuota : Nat

def chargeSend (session : Option Session) (bytes : Nat) : Bool :=
  session.any fun s => decide (s.sendUsed + bytes ≤ s.sendQuota)

/-- What reaches a leg: the component's frames, and the route's credits and endings. A data frame
comes with the session and whether there is a transport when it is charged and handed on. -/
inductive Event where
  | data (seq : Option Nat) (bytes : Nat) (session : Option Session) (transport : Bool)
  | streamEnd
  | other
  | credit (bytes : Nat)

def bindRemoteStream (initialCredit : UInt64) : Leg := ⟨⟨0, initialCredit.toNat, 0, false⟩, []⟩

/-- A leg carries far less than `2 ^ 64` bytes, so only the sum of the credits saturates. -/
def creditRemoteStream (leg : Leg) (bytes : Nat) : Leg :=
  if leg.ended then leg else { leg with sendGranted := min (leg.sendGranted + bytes) (2 ^ 64 - 1) }

def relayData (leg : Leg) (seq : Option Nat) (bytes : Nat) (session : Option Session)
    (transport : Bool) : Leg :=
  if leg.ended then leg
  else if seq ≠ some leg.sendNext then leg
  else
    let next := { leg with sendNext := leg.sendNext + 1 }
    if leg.sendGranted < leg.sendSent + bytes then { next with ended := true }
    -- the number stays taken when the quota refuses the chunk
    else if !chargeSend session bytes then next
    else
      { next with
        sendSent := leg.sendSent + bytes
        handed := if transport then leg.handed ++ [(leg.sendNext, bytes)] else leg.handed }

def step (leg : Leg) : Event → Leg
  | .data seq bytes session transport => relayData leg seq bytes session transport
  | .streamEnd => { leg with ended := true }
  | .other => leg
  | .credit bytes => creditRemoteStream leg bytes

/-- A chunk that is in order and within the credit is charged, and there is a transport. -/
def Event.Carried (leg : Leg) : Event → Prop
  | .data seq bytes session transport =>
    leg.ended = false → seq = some leg.sendNext → leg.sendSent + bytes ≤ leg.sendGranted →
      chargeSend session bytes = true ∧ transport = true
  | _ => True

def AllCarried : Leg → List Event → Prop
  | _, [] => True
  | leg, event :: events => event.Carried leg ∧ AllCarried (step leg event) events

/-- The transport has the chunks so far in order and within the credit. -/
structure InOrder (leg : Leg) : Prop where
  seqs : leg.handed.map Prod.fst = List.range leg.handed.length
  next : leg.ended = false → leg.sendNext = leg.handed.length
  sent : (leg.handed.map Prod.snd).sum = leg.sendSent
  within : leg.sendSent ≤ leg.sendGranted
  bounded : leg.sendGranted < 2 ^ 64

theorem relayData_inOrder {leg : Leg} (ok : InOrder leg) {seq : Option Nat} {bytes : Nat}
    {session : Option Session} {transport : Bool}
    (carried : (Event.data seq bytes session transport).Carried leg) :
    InOrder (relayData leg seq bytes session transport) := by
  unfold relayData
  split_ifs with ended other beyond refused there
  · exact ok
  · exact ok
  · exact ⟨ok.seqs, by rintro ⟨⟩, ok.sent, ok.within, ok.bounded⟩
  all_goals
    obtain ⟨charged, handed⟩ :=
      carried (by simpa using ended) (not_not.mp other) (Nat.le_of_not_lt beyond)
  · simp [charged] at refused
  · have first := ok.next (by simpa using ended)
    refine ⟨?_, fun _ => ?_, ?_, Nat.le_of_not_lt beyond, ok.bounded⟩
    · simp [ok.seqs, List.range_succ, first]
    · simp [first]
    · simp [ok.sent]
  · exact absurd handed there

theorem step_inOrder {leg : Leg} (ok : InOrder leg) {event : Event}
    (carried : event.Carried leg) : InOrder (step leg event) := by
  cases event with
  | data seq bytes session transport => exact relayData_inOrder ok carried
  | streamEnd => exact ⟨ok.seqs, by rintro ⟨⟩, ok.sent, ok.within, ok.bounded⟩
  | other => exact ok
  | credit bytes =>
    unfold step creditRemoteStream
    split_ifs
    · exact ok
    · have within := ok.within
      have bounded := ok.bounded
      exact ⟨ok.seqs, ok.next, ok.sent, by simp only; omega, by simp only; omega⟩

theorem run_inOrder {leg : Leg} (ok : InOrder leg) {events : List Event}
    (carried : AllCarried leg events) : InOrder (events.foldl step leg) := by
  induction events generalizing leg with
  | nil => exact ok
  | cons event events ih => exact ih (step_inOrder ok carried.1) carried.2

/-- While the quota and the transport take every chunk that is due, the transport is handed the
chunks `0, 1, …` and never more bytes than were granted. -/
theorem relay_in_order (initialCredit : UInt64) (events : List Event)
    (carried : AllCarried (bindRemoteStream initialCredit) events) :
    let leg := events.foldl step (bindRemoteStream initialCredit)
    leg.handed.map Prod.fst = List.range leg.handed.length ∧
      (leg.handed.map Prod.snd).sum ≤ leg.sendGranted := by
  have ok := run_inOrder ⟨rfl, fun _ => rfl, rfl, Nat.zero_le _, initialCredit.toNat_lt⟩ carried
  exact ⟨ok.seqs, ok.sent ▸ ok.within⟩

theorem relay_two_chunks :
    let leg := [Event.data (some 0) 5 (some ⟨0, 10⟩) true, .credit 3,
      .data (some 1) 1 (some ⟨0, 10⟩) true].foldl step (bindRemoteStream 8)
    leg.handed.map Prod.fst = List.range leg.handed.length ∧
      (leg.handed.map Prod.snd).sum ≤ leg.sendGranted :=
  relay_in_order 8 _ ⟨fun _ _ _ => ⟨rfl, rfl⟩, trivial, fun _ _ _ => ⟨rfl, rfl⟩, trivial⟩

/-- The quota refuses the first chunk; the second one is handed over without it. -/
theorem refused_chunk_leaves_gap :
    let leg := [Event.data (some 0) 5 (some ⟨8, 10⟩) true,
      .data (some 1) 1 (some ⟨8, 10⟩) true].foldl step (bindRemoteStream 100)
    leg.ended = false ∧ leg.handed = [(1, 1)] := by
  decide

end MatrixRuntime.StreamRelay
