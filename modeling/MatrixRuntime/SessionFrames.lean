import MatrixRuntime.HostReader

/-! The frames of a TLS session. The handshake and the engine read through one assembler, which
cuts frames off the decrypted bytes however they are coalesced. The handshake takes the first
frame and sets aside the others that the same reads complete; the engine goes on with what the
assembler holds. -/

namespace MatrixRuntime.SessionFrames

open HostReader

/-! ### The assembler -/

/-- `header` holds those of the four length bytes that have arrived. -/
structure Assembler where
  header : List UInt8
  pendingLen : Option Nat
  body : List UInt8
  deriving DecidableEq, Repr

namespace Assembler

def empty : Assembler := ⟨[], none, []⟩

def hasFrame (a : Assembler) : Bool := a.pendingLen.any fun n => decide (n ≤ a.body.length)

def isEmpty (a : Assembler) : Bool := a.header.isEmpty && a.pendingLen.isNone && a.body.isEmpty

/-- The length a full header declares. -/
def declared : List UInt8 → Nat
  | [a, b, c, d] => fromBeBytes a b c d
  | _ => 0

/-- A pass of the loop in `feed`; `none` leaves the loop. -/
def feedPass (maxFrame : Nat) (a : Assembler) (rest : List UInt8) :
    Except Unit (Option (Assembler × List UInt8)) :=
  match a.pendingLen with
  | none =>
    let take := min (lenPrefix - a.header.length) rest.length
    let header := a.header ++ rest.take take
    if header.length = lenPrefix then
      let len := declared header
      if len = 0 ∨ maxFrame < len then .error ()
      else .ok (some (⟨header, some len, []⟩, rest.drop take))
    else .ok (some ({ a with header := header }, rest.drop take))
  | some len =>
    if a.hasFrame then .ok none
    else
      let want := len - a.body.length
      if want = 0 then .ok none
      else
        let take := min want rest.length
        .ok (some ({ a with body := a.body ++ rest.take take }, rest.drop take))

def feedLoop (maxFrame : Nat) :
    Nat → Assembler → List UInt8 → Except Unit (Assembler × List UInt8)
  | 0, a, rest => .ok (a, rest)
  | passes + 1, a, rest =>
    if rest.isEmpty then .ok (a, rest)
    else
      match feedPass maxFrame a rest with
      | .error e => .error e
      | .ok none => .ok (a, rest)
      | .ok (some (a, rest)) => feedLoop maxFrame passes a rest

/-- Feed bytes up to the end of a frame; what comes after it is returned. Every pass but the last
takes a byte. -/
def feed (maxFrame : Nat) (a : Assembler) (bytes : List UInt8) :
    Except Unit (Assembler × List UInt8) :=
  feedLoop maxFrame (bytes.length + 1) a bytes

def takeFrame (a : Assembler) : Except String (Option (List UInt8)) × Assembler :=
  if !a.hasFrame then (.ok none, a)
  else if some a.body.length ≠ a.pendingLen then (.error "assembler drift", ⟨[], none, []⟩)
  else (.ok (some a.body), ⟨[], none, []⟩)

end Assembler

/-! ### Reading -/

/-- How the reads of a round end: nothing more is there, the peer closed, or a read fails. -/
inductive ReadEnd where
  | wouldBlock
  | closed
  | failed (error : String)
  deriving DecidableEq, Repr

/-- What one round of the TLS connection brings: an error or the end of the TCP stream, the reads
of decrypted bytes, and how they end. -/
structure Round where
  ioError : Option String
  eof : Bool
  reads : List (List UInt8)
  ends : ReadEnd
  deriving DecidableEq, Repr

/-- `unread` are the reads that the connection has ready and nobody has asked for. -/
structure TlsIo (V : Type) where
  assembler : Assembler
  stash : List V
  tcpEof : Bool
  unread : List (List UInt8)

def TlsIo.connected (V : Type) : TlsIo V := ⟨.empty, [], false, []⟩

section Drain

variable {σ : Type}

/-- The passes over one read. Once a frame is taken the assembler is empty, so that there is at
most one to take in a pass. -/
def drainLoop (keep : σ → List UInt8 → Except String σ) (maxFrame : Nat) :
    Nat → Assembler → σ → List UInt8 → Except String (Assembler × σ)
  | 0, a, kept, _ => .ok (a, kept)
  | passes + 1, a, kept, rest =>
    match a.feed maxFrame rest with
    | .error _ => .error "frame too large"
    | .ok (a, rest) =>
      match a.takeFrame with
      | (.error e, _) => .error e
      | (.ok none, a) => if rest.isEmpty then .ok (a, kept) else .error "assembler stall"
      | (.ok (some raw), a) =>
        match keep kept raw with
        | .error e => .error e
        | .ok kept =>
          if rest.isEmpty then .ok (a, kept) else drainLoop keep maxFrame passes a kept rest

/-- All passes over one read; every pass but the last takes a frame off it. -/
def drainRead (keep : σ → List UInt8 → Except String σ) (maxFrame : Nat) (a : Assembler) (kept : σ)
    (chunk : List UInt8) : Except String (Assembler × σ) :=
  drainLoop keep maxFrame (chunk.length + 1) a kept chunk

/-- The reads of a round, in turn, and those that are left when the bytes reach the cap first. -/
def drainReads (keep : σ → List UInt8 → Except String σ) (maxFrame : Nat) (cap : Option Nat) :
    Nat → Assembler → σ → List (List UInt8) →
      Except String (Assembler × σ × Option (List (List UInt8)))
  | drained, a, kept, chunks =>
    if cap.any fun cap => decide (cap ≤ drained) then .ok (a, kept, some chunks)
    else
      match chunks with
      | [] => .ok (a, kept, none)
      | chunk :: chunks =>
        match drainRead keep maxFrame a kept chunk with
        | .error e => .error e
        | .ok (a, kept) => drainReads keep maxFrame cap (drained + chunk.length) a kept chunks

end Drain

section Session

variable {V : Type} (decode : List UInt8 → Except String V) (maxFrame : Nat)

/-- The handshake sets every frame aside, and gives up on one that does not decode. -/
def stashFrame (stash : List V) (raw : List UInt8) : Except String (List V) :=
  match decode raw with
  | .ok v => .ok (stash ++ [v])
  | .error e => .error e

/-- The round in the loop of `recv_frame`. -/
def receiveRound (round : Round) (io : TlsIo V) : Except String (TlsIo V) :=
  match round.ioError with
  | some e => .error e
  | none =>
    match drainReads (stashFrame decode) maxFrame none 0 io.assembler io.stash
        (io.unread ++ round.reads) with
    | .error e => .error e
    | .ok (a, stash, left) =>
      match round.ends with
      | .failed e => .error e
      | _ => .ok ⟨a, stash, io.tcpEof || round.eof, left.getD []⟩

/-- The frame the handshake waits for; the rounds are those until its deadline. -/
def recvFrame : List Round → TlsIo V → Except String (Option V) × TlsIo V × List Round
  | rounds, io =>
    match io.stash with
    | v :: stash => (.ok (some v), { io with stash := stash }, rounds)
    | [] =>
      match io.assembler.takeFrame with
      | (.error e, a) => (.error e, { io with assembler := a }, rounds)
      | (.ok (some raw), a) => ((decode raw).map some, { io with assembler := a }, rounds)
      | (.ok none, _) =>
        if io.tcpEof then (.ok none, io, rounds)
        else
          match rounds with
          | [] => (.error "timeout", io, [])
          | round :: rounds =>
            match receiveRound decode maxFrame round io with
            | .error e => (.error e, io, rounds)
            | .ok io =>
              if io.assembler.hasFrame || !io.stash.isEmpty then recvFrame rounds io
              else if io.tcpEof then
                if io.assembler.isEmpty then (.ok none, io, rounds)
                else (.error "truncated frame", io, rounds)
              else recvFrame rounds io

/-- The engine drops and counts a frame that does not decode. -/
def outFrame (out : List V × Nat) (raw : List UInt8) : Except String (List V × Nat) :=
  match decode raw with
  | .ok v => .ok (out.1 ++ [v], out.2)
  | .error _ => .ok (out.1, out.2 + 1)

def drainCap : Nat := max (maxFrame * 4) (1 <<< 20)

/-- The frames of a round, how many were dropped, and the connection after it. -/
def pumpReads (round : Round) (io : TlsIo V) : Except String (List V × Nat × TlsIo V) :=
  match round.ioError with
  | some e => .error e
  | none =>
    let tcpEof := io.tcpEof || round.eof
    match drainReads (outFrame decode) maxFrame (some (drainCap maxFrame)) 0 io.assembler ([], 0)
        (io.unread ++ round.reads) with
    | .error e => .error e
    | .ok (a, (out, malformed), left) =>
      match left, round.ends with
      | none, .failed e => .error e
      | _, _ =>
        if tcpEof && out.isEmpty then
          if a.isEmpty then .error "clean-eof" else .error "truncated frame"
        else .ok (out, malformed,
          { io with assembler := a, tcpEof := tcpEof, unread := left.getD [] })

/-- What the loop of the engine hands to `dispatch`, in order; a round that fails detaches. -/
def dispatched : List Round → TlsIo V → List V
  | [], _ => []
  | round :: rounds, io =>
    match pumpReads decode maxFrame round io with
    | .error _ => []
    | .ok (frames, _, io) => frames ++ dispatched rounds io

/-- A session: the frame of the handshake, and what the engine dispatches after it. -/
def serve (rounds : List Round) : Option (V × List V) :=
  match recvFrame decode maxFrame rounds (.connected V) with
  | (.ok (some first), io, rounds) => some (first, dispatched decode maxFrame rounds io)
  | _ => none

end Session

/-! ### The assembler between two reads -/

/-- The assembler after the first `n` bytes of the frame of a payload. -/
def holding (payload : List UInt8) (n : Nat) : Assembler :=
  if n < lenPrefix then ⟨(toBeBytes payload.length).take n, none, []⟩
  else ⟨toBeBytes payload.length, some payload.length, payload.take (n - lenPrefix)⟩

theorem holding_zero (payload : List UInt8) : holding payload 0 = .empty := by
  simp [holding, lenPrefix, Assembler.empty]

/-- A payload that the session takes. -/
structure Sendable (maxFrame : Nat) (payload : List UInt8) : Prop where
  some : 0 < payload.length
  fits : payload.length ≤ maxFrame
  small : payload.length ≤ u32Max

variable {first : List UInt8} {passes : Nat} (taken : List (List UInt8))

section Feed

variable {maxFrame n k : Nat} {payload rest : List UInt8}

theorem toBeBytes_length (n : Nat) : (toBeBytes n).length = lenPrefix := rfl

theorem hasFrame_holding (h : lenPrefix ≤ n) (within : n ≤ (frame payload).length) :
    (holding payload n).hasFrame = decide (n = (frame payload).length) := by
  rw [frame_length] at within ⊢
  rw [holding, if_neg (by omega)]
  simp only [Assembler.hasFrame, Option.any_some, List.length_take]
  rw [decide_eq_decide]
  omega

theorem body_length (h : lenPrefix ≤ n) (within : n + k ≤ (frame payload).length) :
    ((payload.drop (n - lenPrefix)).take k).length = k := by
  rw [frame_length] at within
  rw [List.length_take, List.length_drop]
  omega

theorem body_nonempty (h : lenPrefix ≤ n) (part : n < (frame payload).length) (more : 0 < k)
    (rest : List UInt8) : ¬ ((payload.drop (n - lenPrefix)).take k ++ rest).isEmpty = true := by
  have one := body_length (k := 1) h part
  intro empty
  rw [List.isEmpty_iff, List.append_eq_nil_iff, List.take_eq_nil_iff] at empty
  rcases empty.1 with none | none
  · omega
  · rw [none] at one
    cases one

theorem feedPass_body (h : lenPrefix ≤ n) (part : n < (frame payload).length)
    (within : n + k ≤ (frame payload).length) (ends : rest = [] ∨ n + k = (frame payload).length)
    (more : 0 < k) : Assembler.feedPass maxFrame (holding payload n)
        ((payload.drop (n - lenPrefix)).take k ++ rest) =
      .ok (some (holding payload (n + k), rest)) := by
  have size := body_length h within
  have before := hasFrame_holding h (Nat.le_of_lt part)
  rw [decide_eq_false (by omega)] at before
  rw [frame_length] at part within ends
  have here : ¬ n < lenPrefix := by omega
  have past : ¬ n + k < lenPrefix := by omega
  rw [holding, if_neg here] at before ⊢
  have want : payload.length - (payload.take (n - lenPrefix)).length ≠ 0 := by
    rw [List.length_take]
    omega
  have take : min (payload.length - (payload.take (n - lenPrefix)).length)
      ((payload.drop (n - lenPrefix)).take k ++ rest).length = k := by
    rw [List.length_append, size, List.length_take]
    rcases ends with rfl | last
    · simp only [List.length_nil]
      omega
    · omega
  have body : payload.take (n - lenPrefix) ++ (payload.drop (n - lenPrefix)).take k =
      payload.take (n + k - lenPrefix) := by
    rw [← List.take_add]
    congr 1
    omega
  simp only [Assembler.feedPass, before, if_neg want, take]
  rw [List.take_left' size, List.drop_left' size, body, holding, if_neg past]
  rfl

/-- Nothing more is fed once the bytes end or the frame is whole. -/
theorem feed_frame (within : n ≤ (frame payload).length)
    (ends : rest = [] ∨ n = (frame payload).length) (h : lenPrefix ≤ n) :
    Assembler.feedLoop maxFrame (passes + 1) (holding payload n) rest =
      .ok (holding payload n, rest) := by
  rcases ends with rfl | whole
  · simp [Assembler.feedLoop]
  · have has := hasFrame_holding h within
    rw [decide_eq_true whole] at has
    have pending : (holding payload n).pendingLen = some payload.length := by
      rw [holding, if_neg (by omega)]
    rw [Assembler.feedLoop]
    split
    · rfl
    · simp [Assembler.feedPass, pending, has]

/-- The body of a frame, fed up to its end or to the end of the bytes. -/
theorem feed_body (h : lenPrefix ≤ n) (part : n < (frame payload).length)
    (within : n + k ≤ (frame payload).length) (ends : rest = [] ∨ n + k = (frame payload).length) :
    Assembler.feedLoop maxFrame (passes + 2) (holding payload n)
        ((payload.drop (n - lenPrefix)).take k ++ rest) = .ok (holding payload (n + k), rest) := by
  rcases Nat.eq_zero_or_pos k with rfl | more
  · obtain rfl : rest = [] := ends.resolve_right (by omega)
    simp [Assembler.feedLoop]
  · rw [Assembler.feedLoop, if_neg (body_nonempty h part more rest),
      feedPass_body h part within ends more]
    exact feed_frame within ends (by omega)

theorem frame_drop_body (h : lenPrefix ≤ n) :
    (frame payload).drop n = payload.drop (n - lenPrefix) := by
  rw [frame, List.drop_append, List.drop_eq_nil_of_le (by rw [toBeBytes_length]; exact h),
    toBeBytes_length, List.nil_append]

/-- The bytes of the length that are still to come, and the payload after them. -/
theorem frame_drop_header (h : n ≤ lenPrefix) :
    (frame payload).drop n = (toBeBytes payload.length).drop n ++ payload := by
  rw [frame, List.drop_append, toBeBytes_length, Nat.sub_eq_zero_of_le h, List.drop_zero]

theorem declared_toBeBytes (small : payload.length ≤ u32Max) :
    Assembler.declared (toBeBytes payload.length) = payload.length :=
  fromBeBytes_toBeBytes small

theorem feedPass_header (h : n + k < lenPrefix) :
    Assembler.feedPass maxFrame (holding payload n) (((toBeBytes payload.length).drop n).take k) =
      .ok (some (holding payload (n + k), [])) := by
  have size : (((toBeBytes payload.length).drop n).take k).length = k := by
    rw [List.length_take, List.length_drop, toBeBytes_length]
    omega
  have here : n < lenPrefix := by omega
  have held : ((toBeBytes payload.length).take n).length = n := by
    rw [List.length_take, toBeBytes_length]
    omega
  have take : min (lenPrefix - n) k = k := by omega
  have header : (toBeBytes payload.length).take n ++
      ((toBeBytes payload.length).drop n).take k = (toBeBytes payload.length).take (n + k) :=
    (List.take_add ..).symm
  have short : ((toBeBytes payload.length).take (n + k)).length ≠ lenPrefix := by
    rw [List.length_take, toBeBytes_length]
    omega
  rw [holding, if_pos here]
  simp only [Assembler.feedPass, held, size, take]
  rw [List.take_of_length_le (Nat.le_of_eq size), List.drop_of_length_le (Nat.le_of_eq size),
    header, if_neg short,
    holding, if_pos h]

theorem feedPass_length (sendable : Sendable maxFrame payload) (h : n < lenPrefix)
    (more : List UInt8) :
    Assembler.feedPass maxFrame (holding payload n) ((toBeBytes payload.length).drop n ++ more) =
      .ok (some (holding payload lenPrefix, more)) := by
  have size : ((toBeBytes payload.length).drop n).length = lenPrefix - n := by
    rw [List.length_drop, toBeBytes_length]
  have held : ((toBeBytes payload.length).take n).length = n := by
    rw [List.length_take, toBeBytes_length]
    omega
  have take : min (lenPrefix - n) ((toBeBytes payload.length).drop n ++ more).length =
      lenPrefix - n := by
    rw [List.length_append, size]
    omega
  have legal : ¬ (payload.length = 0 ∨ maxFrame < payload.length) := by
    have := sendable.some
    have := sendable.fits
    omega
  rw [holding, if_pos h]
  simp only [Assembler.feedPass, held, take]
  rw [List.take_left' size, List.drop_left' size, List.take_append_drop, toBeBytes_length,
    if_pos rfl, declared_toBeBytes sendable.small, if_neg legal, holding, if_neg (Nat.lt_irrefl _)]
  simp

/-- Feeding takes the bytes of one frame, and stops at its end. -/
theorem feed_holding (sendable : Sendable maxFrame payload) (part : n < (frame payload).length)
    (within : n + k ≤ (frame payload).length) (ends : rest = [] ∨ n + k = (frame payload).length) :
    (holding payload n).feed maxFrame (((frame payload).drop n).take k ++ rest) =
      .ok (holding payload (n + k), rest) := by
  rcases Nat.eq_zero_or_pos k with rfl | more
  · obtain rfl : rest = [] := ends.resolve_right (by omega)
    simp [Assembler.feed, Assembler.feedLoop]
  have size : (((frame payload).drop n).take k).length = k := by
    rw [List.length_take, List.length_drop]
    omega
  have nonempty : ¬ (((frame payload).drop n).take k ++ rest).isEmpty = true := by
    intro empty
    rw [List.isEmpty_iff, List.append_eq_nil_iff] at empty
    rw [empty.1] at size
    simp only [List.length_nil] at size
    omega
  by_cases body : lenPrefix ≤ n
  · obtain ⟨passes, fuel⟩ : ∃ passes, (((frame payload).drop n).take k ++ rest).length + 1 =
        passes + 2 := ⟨k - 1 + rest.length, by rw [List.length_append, size]; omega⟩
    rw [Assembler.feed, fuel, frame_drop_body body]
    exact feed_body body part within ends
  rw [Assembler.feed, Assembler.feedLoop, if_neg nonempty, List.length_append, size]
  by_cases length : n + k < lenPrefix
  · obtain rfl : rest = [] := ends.resolve_right (by rw [frame_length]; omega)
    have bytes : ((frame payload).drop n).take k = ((toBeBytes payload.length).drop n).take k := by
      rw [frame_drop_header (by omega), List.take_append_of_le_length]
      rw [List.length_drop, toBeBytes_length]
      omega
    rw [List.append_nil, bytes, feedPass_header length]
    cases k with
    | zero => cases more
    | succ k => simp [Assembler.feedLoop]
  · obtain ⟨j, total⟩ : ∃ j, n + k = lenPrefix + j := ⟨n + k - lenPrefix, by omega⟩
    have bytes : ((frame payload).drop n).take k ++ rest =
        (toBeBytes payload.length).drop n ++
          ((payload.drop (lenPrefix - lenPrefix)).take j ++ rest) := by
      have taken : k = ((toBeBytes payload.length).drop n).length + j := by
        rw [List.length_drop, toBeBytes_length]
        omega
      rw [frame_drop_header (by omega), Nat.sub_self, List.drop_zero, ← List.append_assoc, taken,
        List.take_length_add_append]
    rw [bytes, feedPass_length sendable (by omega)]
    rw [total] at ends within ⊢
    have one := sendable.some
    by_cases whole : j = 0
    · obtain rfl : rest = [] := ends.resolve_right (by rw [frame_length]; omega)
      subst whole
      cases k with
      | zero => cases more
      | succ k => simp [Assembler.feedLoop]
    · obtain ⟨passes, fuel⟩ : ∃ passes, k + rest.length = passes + 2 :=
        ⟨k + rest.length - 2, by omega⟩
      rw [fuel]
      exact feed_body (Nat.le_refl _) (by rw [frame_length]; omega) within ends

theorem takeFrame_part (part : n < (frame payload).length) :
    (holding payload n).takeFrame = (.ok none, holding payload n) := by
  have unfinished : (holding payload n).hasFrame = false := by
    by_cases h : lenPrefix ≤ n
    · rw [hasFrame_holding h (Nat.le_of_lt part), decide_eq_false (Nat.ne_of_lt part)]
    · rw [holding, if_pos (by omega)]
      rfl
  rw [Assembler.takeFrame, unfinished]
  rfl

theorem takeFrame_whole (payload : List UInt8) :
    (holding payload (frame payload).length).takeFrame = (.ok (some payload), .empty) := by
  have whole := hasFrame_holding (by rw [frame_length]; omega)
    (Nat.le_refl (frame payload).length)
  have full : holding payload (frame payload).length =
      ⟨toBeBytes payload.length, some payload.length, payload⟩ := by
    rw [holding, frame_length, if_neg (by omega), Nat.add_sub_cancel_left, List.take_length]
  rw [Assembler.takeFrame, whole, full]
  simp [Assembler.empty]

end Feed

/-! ### A stream of frames -/

/-- The assembler when the first `n` bytes of these frames have been fed. -/
def position (payloads : List (List UInt8)) (n : Nat) : Assembler :=
  match payloads with
  | [] => .empty
  | payload :: _ => holding payload n

/-- Not all of the first frame. -/
def Within (payloads : List (List UInt8)) (n : Nat) : Prop :=
  match payloads with
  | [] => n = 0
  | payload :: _ => n < (frame payload).length

theorem position_zero (payloads : List (List UInt8)) : position payloads 0 = .empty := by
  cases payloads with
  | nil => rfl
  | cons payload payloads => exact holding_zero payload

theorem within_zero (payloads : List (List UInt8)) : Within payloads 0 := by
  cases payloads with
  | nil => rfl
  | cons payload payloads =>
    rw [Within, frame_length, lenPrefix]
    omega

/-- After these bytes of the frames, some payloads are whole and the assembler is inside the next
frame. -/
structure Reached (payloads : List (List UInt8)) (n : Nat) (bytes tail : List UInt8)
    (taken rest : List (List UInt8)) (m : Nat) : Prop where
  split : payloads = taken ++ rest
  within : Within rest m
  stream : (rest.flatMap frame).drop m = tail
  count : n + bytes.length = (taken.flatMap frame).length + m

section Stream

variable {σ : Type} {keep : σ → List UInt8 → Except String σ} {add : σ → List UInt8 → σ}
  {maxFrame n : Nat} {payloads : List (List UInt8)} {chunk tail : List UInt8}

theorem drainLoop_stream (keeps : ∀ kept, ∀ p ∈ payloads, keep kept p = .ok (add kept p))
    (sendable : ∀ p ∈ payloads, Sendable maxFrame p) (within : Within payloads n)
    (stream : (payloads.flatMap frame).drop n = chunk ++ tail)
    (enough : chunk.length < passes) (kept : σ) :
    ∃ taken rest m, Reached payloads n chunk tail taken rest m ∧
      drainLoop keep maxFrame passes (position payloads n) kept chunk =
        .ok (position rest m, taken.foldl add kept) := by
  induction payloads generalizing n chunk passes kept with
  | nil =>
    obtain rfl : n = 0 := within
    obtain ⟨rfl, rfl⟩ := List.append_eq_nil_iff.mp stream.symm
    obtain ⟨passes, rfl⟩ : ∃ more, passes = more + 1 := ⟨passes - 1, by omega⟩
    exact ⟨[], [], 0, ⟨rfl, rfl, rfl, rfl⟩, rfl⟩
  | cons payload payloads ih =>
    have part : n < (frame payload).length := within
    have mine := sendable payload (List.mem_cons_self ..)
    obtain ⟨passes, rfl⟩ : ∃ more, passes = more + 1 := ⟨passes - 1, by omega⟩
    rw [List.flatMap_cons, List.drop_append_of_le_length (Nat.le_of_lt part)] at stream
    have length : ((frame payload).drop n).length = (frame payload).length - n := List.length_drop
    by_cases whole : (frame payload).length ≤ n + chunk.length
    · have starts : chunk <+: (frame payload).drop n ++ payloads.flatMap frame :=
        stream ▸ List.prefix_append chunk tail
      obtain ⟨more, rfl⟩ :=
        List.prefix_of_prefix_length_le (List.prefix_append _ _) starts (by omega)
      rw [List.append_assoc] at stream
      have next : (payloads.flatMap frame).drop 0 = more ++ tail := List.append_cancel_left stream
      have fed : (holding payload n).feed maxFrame
          (((frame payload).drop n).take ((frame payload).length - n) ++ more) = _ :=
        feed_holding mine part (by omega) (.inr (by omega))
      rw [List.take_of_length_le (Nat.le_of_eq length),
        Nat.add_sub_of_le (Nat.le_of_lt part)] at fed
      have kept' := keeps kept payload (List.mem_cons_self ..)
      rw [position, drainLoop, fed]
      dsimp only
      rw [takeFrame_whole]
      dsimp only
      rw [kept']
      dsimp only
      rw [List.length_append, length] at enough
      split
      next last =>
        obtain rfl := List.isEmpty_iff.mp last
        refine ⟨[payload], payloads, 0, ⟨rfl, within_zero payloads, next, ?_⟩, ?_⟩
        · simp only [List.append_nil, length, List.flatMap_cons, List.flatMap_nil]
          omega
        · rw [position_zero]
          rfl
      next =>
        have fewer : more.length < passes := by omega
        obtain ⟨taken, rest, m, reached, drained⟩ :=
          ih (fun kept p hp => keeps kept p (List.mem_cons_of_mem _ hp))
            (fun p hp => sendable p (List.mem_cons_of_mem _ hp)) (within_zero payloads) next fewer
            (add kept payload)
        rw [position_zero] at drained
        refine ⟨payload :: taken, rest, m, ⟨?_, reached.within, reached.stream, ?_⟩, drained⟩
        · rw [reached.split]
          rfl
        · have count := reached.count
          rw [List.length_append, length, List.flatMap_cons, List.length_append]
          omega
    · have none : chunk <+: (frame payload).drop n := by
        refine List.prefix_of_prefix_length_le ?_ (List.prefix_append _ (payloads.flatMap frame))
          (by omega)
        exact stream ▸ List.prefix_append chunk tail
      have fed : (holding payload n).feed maxFrame
          (((frame payload).drop n).take chunk.length ++ []) = _ :=
        feed_holding mine part (by omega) (.inl rfl)
      rw [← List.prefix_iff_eq_take.mp none, List.append_nil] at fed
      refine ⟨[], payload :: payloads, n + chunk.length, ⟨rfl, ?_, ?_, by simp⟩, ?_⟩
      · exact Nat.lt_of_not_le whole
      · rw [List.flatMap_cons, List.drop_append_of_le_length (by omega), ← List.drop_drop,
          ← List.drop_append_of_le_length (by omega), stream, List.drop_left]
      · rw [position, drainLoop, fed]
        dsimp only
        rw [takeFrame_part (Nat.lt_of_not_le whole)]
        rfl

theorem Reached.trans {bytes more tail : List UInt8} {taken taken' rest rest' : List (List UInt8)}
    {m m' : Nat} (h : Reached payloads n bytes (more ++ tail) taken rest m)
    (h' : Reached rest m more tail taken' rest' m') :
    Reached payloads n (bytes ++ more) tail (taken ++ taken') rest' m' where
  split := by rw [h.split, h'.split, List.append_assoc]
  within := h'.within
  stream := h'.stream
  count := by
    have first := h.count
    have second := h'.count
    rw [List.length_append, List.flatMap_append, List.length_append]
    omega

theorem drainReads_stream (keeps : ∀ kept, ∀ p ∈ payloads, keep kept p = .ok (add kept p))
    (sendable : ∀ p ∈ payloads, Sendable maxFrame p) (within : Within payloads n)
    {chunks : List (List UInt8)}
    (stream : (payloads.flatMap frame).drop n = chunks.flatten ++ tail) (cap : Option Nat)
    (drained : Nat) (kept : σ) :
    ∃ read left taken rest m, chunks = read ++ left.getD [] ∧
      Reached payloads n read.flatten ((left.getD []).flatten ++ tail) taken rest m ∧
      drainReads keep maxFrame cap drained (position payloads n) kept chunks =
        .ok (position rest m, taken.foldl add kept, left) ∧
      (cap = none → left = none) ∧
      ((cap.any fun cap => decide (cap ≤ drained)) = false →
        (left.getD []).length ≤ chunks.length - 1) := by
  induction chunks generalizing payloads n drained kept with
  | nil =>
    have here : Reached payloads n [] tail [] payloads n := ⟨rfl, within, stream, by simp⟩
    rw [drainReads]
    split
    next stopped =>
      refine ⟨[], some [], [], payloads, n, rfl, here, rfl, ?_, fun _ => Nat.le_refl 0⟩
      rintro rfl
      cases stopped
    next => exact ⟨[], none, [], payloads, n, rfl, here, rfl, fun _ => rfl, fun _ => Nat.le_refl 0⟩
  | cons chunk chunks ih =>
    have here : Reached payloads n [] ((chunk :: chunks).flatten ++ tail) [] payloads n :=
      ⟨rfl, within, stream, by simp⟩
    rw [drainReads]
    split
    next stopped =>
      refine ⟨[], some (chunk :: chunks), [], payloads, n, rfl, here, rfl, ?_, fun running => ?_⟩
      · rintro rfl
        cases stopped
      · rw [stopped] at running
        cases running
    next running =>
      rw [List.flatten_cons, List.append_assoc] at stream
      obtain ⟨taken, rest, m, reached, drains⟩ :=
        drainLoop_stream keeps sendable within stream (Nat.lt_succ_self _) kept
      have others : ∀ p ∈ rest, p ∈ payloads := fun p hp =>
        reached.split ▸ List.mem_append_right _ hp
      obtain ⟨read, left, taken', rest', m', split, reached', drains', capped, -⟩ :=
        ih (fun kept p hp => keeps kept p (others p hp)) (fun p hp => sendable p (others p hp))
          reached.within reached.stream (drained + chunk.length) (taken.foldl add kept)
      refine ⟨chunk :: read, left, taken ++ taken', rest', m', ?_, ?_, ?_, capped, fun _ => ?_⟩
      · rw [split]
        rfl
      · have whole : chunks.flatten = read.flatten ++ (left.getD []).flatten := by
          conv_lhs => rw [split, List.flatten_append]
        rw [whole, List.append_assoc] at reached
        exact reached.trans reached'
      · rw [drainRead, drains]
        dsimp only
        rw [drains', List.foldl_append]
      · rw [split]
        simp

end Stream

/-! ### The engine -/

def Round.bytes (round : Round) : List UInt8 := round.reads.flatten

/-- A round of a session that goes on. -/
structure Round.Goes (round : Round) : Prop where
  ioError : round.ioError = none
  eof : round.eof = false
  ends : round.ends = .wouldBlock

/-- A round in which nothing arrives. -/
def Round.idle : Round := ⟨none, false, [], .wouldBlock⟩

theorem Round.idle_goes : Round.idle.Goes := ⟨rfl, rfl, rfl⟩

variable {V : Type} {decode : List UInt8 → Except String V} {value : List UInt8 → V}
  {maxFrame n : Nat} {payloads : List (List UInt8)} {tail : List UInt8} {io : TlsIo V}
  {round : Round} {rounds : List Round}

/-- The connection is inside the first of these frames, and what it has not read and what is still
to arrive are the rest of them. -/
structure Ready (io : TlsIo V) (payloads : List (List UInt8)) (n : Nat) (tail : List UInt8) :
    Prop where
  assembler : io.assembler = position payloads n
  within : Within payloads n
  eof : io.tcpEof = false
  stream : (payloads.flatMap frame).drop n = io.unread.flatten ++ tail

/-- Payloads the session takes and can decode. -/
structure Legible (decode : List UInt8 → Except String V) (value : List UInt8 → V) (maxFrame : Nat)
    (payload : List UInt8) : Prop extends Sendable maxFrame payload where
  decodes : decode payload = .ok (value payload)

theorem out_foldl (out : List V × Nat) :
    taken.foldl (fun out p => (out.1 ++ [value p], out.2)) out =
      (out.1 ++ taken.map value, out.2) := by
  induction taken generalizing out with
  | nil => simp
  | cons p taken ih => simp [ih]

theorem pumpReads_stream (legible : ∀ p ∈ payloads, Legible decode value maxFrame p)
    (goes : round.Goes) (ready : Ready io payloads n (round.bytes ++ tail)) :
    ∃ taken rest m io', payloads = taken ++ rest ∧
      pumpReads decode maxFrame round io = .ok (taken.map value, 0, io') ∧
      Ready io' rest m tail ∧ io'.unread.length ≤ (io.unread ++ round.reads).length - 1 := by
  have keeps : ∀ (kept : List V × Nat), ∀ p ∈ payloads,
      outFrame decode kept p = .ok (kept.1 ++ [value p], kept.2) := by
    intro kept p hp
    rw [outFrame, (legible p hp).decodes]
  have stream : (payloads.flatMap frame).drop n = (io.unread ++ round.reads).flatten ++ tail := by
    rw [ready.stream, List.flatten_append, List.append_assoc]
    rfl
  obtain ⟨read, left, taken, rest, m, split, reached, drains, -, progress⟩ :=
    drainReads_stream keeps (fun p hp => (legible p hp).toSendable) ready.within stream
      (some (drainCap maxFrame)) 0 ([], 0)
  have running : ((some (drainCap maxFrame)).any fun cap => decide (cap ≤ 0)) = false := by
    simp [drainCap]
  refine ⟨taken, rest, m, ⟨position rest m, io.stash, false, left.getD []⟩, reached.split, ?_,
    ⟨rfl, reached.within, rfl, reached.stream⟩, progress running⟩
  rw [out_foldl, List.nil_append] at drains
  rw [pumpReads, goes.ioError, ready.assembler, drains, ready.eof, goes.eof, goes.ends]
  cases left <;> rfl

/-- The engine dispatches the frames that are whole, and goes on inside the next one. -/
theorem dispatched_stream (legible : ∀ p ∈ payloads, Legible decode value maxFrame p)
    (goes : ∀ round ∈ rounds, round.Goes)
    (ready : Ready io payloads n (rounds.flatMap Round.bytes ++ tail)) :
    ∃ taken rest m io', payloads = taken ++ rest ∧ Ready io' rest m tail ∧
      ∀ more, dispatched decode maxFrame (rounds ++ more) io =
        taken.map value ++ dispatched decode maxFrame more io' := by
  induction rounds generalizing payloads n io with
  | nil => exact ⟨[], payloads, n, io, rfl, ready, fun more => rfl⟩
  | cons round rounds ih =>
    rw [List.flatMap_cons, List.append_assoc] at ready
    obtain ⟨taken, rest, m, io', split, pumped, ready', -⟩ :=
      pumpReads_stream legible (goes round (List.mem_cons_self ..)) ready
    obtain ⟨taken', rest', m', io'', split', ready'', later⟩ :=
      ih (fun p hp => legible p (split ▸ List.mem_append_right _ hp))
        (fun r hr => goes r (List.mem_cons_of_mem _ hr)) ready'
    refine ⟨taken ++ taken', rest', m', io'', by rw [split, split', List.append_assoc], ready'',
      fun more => ?_⟩
    rw [List.cons_append, dispatched, pumped]
    dsimp only
    rw [later, List.map_append, List.append_assoc]

theorem Within.nil_of_read (within : Within payloads n)
    (read : (payloads.flatMap frame).drop n = []) : payloads = [] := by
  cases payloads with
  | nil => rfl
  | cons payload payloads =>
    have part : n < (frame payload).length := within
    rw [List.drop_eq_nil_iff, List.flatMap_cons, List.length_append] at read
    omega

/-- Idle rounds are enough for what has arrived. -/
theorem dispatched_idle (legible : ∀ p ∈ payloads, Legible decode value maxFrame p)
    (ready : Ready io payloads n []) {k : Nat} (enough : io.unread.length ≤ k) :
    dispatched decode maxFrame (List.replicate k Round.idle) io = payloads.map value := by
  induction k generalizing payloads n io with
  | zero =>
    obtain none : io.unread = [] := List.eq_nil_of_length_eq_zero (by omega)
    have read := ready.stream
    rw [none] at read
    rw [ready.within.nil_of_read read]
    rfl
  | succ k ih =>
    have ready : Ready io payloads n (Round.idle.bytes ++ []) := ready
    obtain ⟨taken, rest, m, io', split, pumped, ready', fewer⟩ :=
      pumpReads_stream legible Round.idle_goes ready
    have fewer : io'.unread.length ≤ k := by
      simp only [Round.idle, List.append_nil] at fewer
      omega
    rw [List.replicate_succ, dispatched, pumped]
    dsimp only
    rw [ih (fun p hp => legible p (split ▸ List.mem_append_right _ hp)) ready' fewer, split,
      List.map_append]

/-! ### The handshake -/

/-- How many bytes have been read when the first `need` of them are there, of which `n` were
before these rounds. -/
def readUntil (need : Nat) : Nat → List Round → Nat
  | n, [] => n
  | n, round :: rounds =>
    if need ≤ n + round.bytes.length then n + round.bytes.length
    else readUntil need (n + round.bytes.length) rounds

theorem stash_foldl (stash : List V) :
    taken.foldl (fun stash p => stash ++ [value p]) stash = stash ++ taken.map value := by
  induction taken generalizing stash with
  | nil => simp
  | cons p taken ih => simp [ih]

theorem receiveRound_stream (legible : ∀ p ∈ payloads, Legible decode value maxFrame p)
    (goes : round.Goes) (ready : Ready io payloads n (round.bytes ++ tail))
    (read : io.unread = []) (fresh : io.stash = []) :
    ∃ taken rest m io', Reached payloads n round.bytes tail taken rest m ∧
      receiveRound decode maxFrame round io = .ok io' ∧ Ready io' rest m tail ∧
      io'.unread = [] ∧ io'.stash = taken.map value := by
  have keeps : ∀ (kept : List V), ∀ p ∈ payloads,
      stashFrame decode kept p = .ok (kept ++ [value p]) := by
    intro kept p hp
    rw [stashFrame, (legible p hp).decodes]
  have stream : (payloads.flatMap frame).drop n = round.reads.flatten ++ tail := by
    have := ready.stream
    rw [read] at this
    exact this
  obtain ⟨reads, left, taken, rest, m, split, reached, drains, all, -⟩ :=
    drainReads_stream keeps (fun p hp => (legible p hp).toSendable) ready.within stream none 0 []
  obtain rfl := all rfl
  obtain rfl : round.reads = reads := by simpa using split
  refine ⟨taken, rest, m, ⟨position rest m, taken.map value, false, []⟩, reached, ?_,
    ⟨rfl, reached.within, rfl, reached.stream⟩, rfl, rfl⟩
  rw [stash_foldl, List.nil_append] at drains
  rw [receiveRound, goes.ioError, ready.assembler, read, fresh, List.nil_append, drains, ready.eof,
    goes.eof, goes.ends]
  rfl

theorem recvFrame_stashed {v : V} {stash : List V} (h : io.stash = v :: stash) :
    recvFrame decode maxFrame rounds io = (.ok (some v), { io with stash := stash }, rounds) := by
  unfold recvFrame
  rw [h]

theorem recvFrame_round {io' : TlsIo V} (fresh : io.stash = [])
    (part : io.assembler.takeFrame.1 = .ok none) (eof : io.tcpEof = false)
    (received : receiveRound decode maxFrame round io = .ok io') (eof' : io'.tcpEof = false) :
    recvFrame decode maxFrame (round :: rounds) io = recvFrame decode maxFrame rounds io' := by
  have none : io.assembler.takeFrame = (.ok none, io.assembler.takeFrame.2) :=
    Prod.ext part rfl
  rw [recvFrame, fresh]
  dsimp only
  rw [none, eof, received]
  simp [eof']

/-- The handshake takes the first frame, and sets aside those that its last round completes. -/
theorem recvFrame_stream {others : List (List UInt8)}
    (legible : ∀ p ∈ first :: others, Legible decode value maxFrame p)
    (goes : ∀ round ∈ rounds, round.Goes)
    (ready : Ready io (first :: others) n (rounds.flatMap Round.bytes))
    (read : io.unread = []) (fresh : io.stash = []) :
    ∃ extra rest m io' later, others = extra ++ rest ∧ (∀ round ∈ later, round.Goes) ∧
      (∀ more, recvFrame decode maxFrame (rounds ++ more) io =
        (.ok (some (value first)), io', later ++ more)) ∧
      Ready io' rest m (later.flatMap Round.bytes) ∧ readUntil (frame first).length n rounds =
        (frame first).length + (extra.flatMap frame).length + m := by
  induction rounds generalizing n io with
  | nil =>
    have stream := ready.stream
    rw [read] at stream
    cases ready.within.nil_of_read stream
  | cons round rounds ih =>
    have part : n < (frame first).length := ready.within
    have others' : ∀ r ∈ rounds, r.Goes := fun r hr => goes r (List.mem_cons_of_mem _ hr)
    rw [List.flatMap_cons] at ready
    obtain ⟨taken, rest, m, io', reached, received, ready', read', stash⟩ :=
      receiveRound_stream legible (goes round (List.mem_cons_self ..)) ready read fresh
    have waits : io.assembler.takeFrame.1 = .ok none := by
      rw [ready.assembler, position, takeFrame_part part]
    have count := reached.count
    have next : ∀ more, recvFrame decode maxFrame (round :: rounds ++ more) io =
        recvFrame decode maxFrame (rounds ++ more) io' :=
      fun more => recvFrame_round fresh waits ready.eof received ready'.eof
    simp only [next, readUntil]
    cases taken with
    | nil =>
      obtain rfl : first :: others = rest := reached.split
      have short : m < (frame first).length := reached.within
      simp only [List.flatMap_nil, List.length_nil, Nat.zero_add] at count
      rw [if_neg (by omega), count]
      exact ih others' ready' read' stash
    | cons p extra =>
      obtain ⟨rfl, rfl⟩ := List.cons.inj reached.split
      rw [List.flatMap_cons, List.length_append] at count
      rw [if_pos (by omega)]
      exact ⟨extra, rest, m, _, rounds, rfl, others', fun more => recvFrame_stashed stash,
        ⟨ready'.assembler, ready'.within, ready'.eof, ready'.stream⟩, count⟩

/-! ### Sessions -/

/-- The reads that complete the first frame do not complete the next one. -/
def Apart (first : List UInt8) (others : List (List UInt8)) (rounds : List Round) : Prop :=
  ∀ second ∈ others.head?, readUntil (frame first).length 0 rounds <
    (frame first).length + (frame second).length

theorem apart_iff {extra rest : List (List UInt8)} {m : Nat}
    (count : readUntil (frame first).length 0 rounds =
      (frame first).length + (extra.flatMap frame).length + m) (within : Within rest m) :
    Apart first (extra ++ rest) rounds ↔ extra = [] := by
  rw [Apart, count]
  cases extra with
  | nil =>
    cases rest with
    | nil => simp
    | cons second rest =>
      have part : m < (frame second).length := within
      simpa using part
  | cons second extra =>
    simp only [List.cons_append, List.head?_cons, Option.mem_def, Option.some.injEq,
      forall_eq', List.flatMap_cons, List.length_append, reduceCtorEq, iff_false]
    omega

/-- A handshake frame on its own, and two frames that arrive in three reads. -/
def apartReads : List Round :=
  [⟨none, false, [[0, 0, 0, 1], [1]], .wouldBlock⟩,
    ⟨none, false, [[0, 0, 0, 1, 2, 0], [0, 0]], .wouldBlock⟩,
    ⟨none, false, [[1, 3]], .wouldBlock⟩]

end MatrixRuntime.SessionFrames
