import MatrixRuntime.StreamSlicing

/-! Frames with a length prefix, and the loop in which the host reads them off a session. -/

namespace MatrixRuntime.HostReader

open StreamSlicing

/-! ### Frames -/

def defaultMaxFrame : Nat := 1024 * 1024

def lenPrefix : Nat := 4

inductive FrameError where
  | tooLarge (declared max : Nat)
  deriving DecidableEq

/-- `u32::to_be_bytes`. -/
def toBeBytes (n : Nat) : List UInt8 :=
  [.ofNat (n / 16777216), .ofNat (n / 65536), .ofNat (n / 256), .ofNat n]

/-- `u32::from_be_bytes`. -/
def fromBeBytes (a b c d : UInt8) : Nat :=
  ((a.toNat * 256 + b.toNat) * 256 + c.toNat) * 256 + d.toNat

def u32Max : Nat := 4294967295

def encode (payload : List UInt8) (maxFrame : Nat) : Except FrameError (List UInt8) :=
  if maxFrame < payload.length then .error (.tooLarge payload.length maxFrame)
  else if u32Max < payload.length then .error (.tooLarge payload.length maxFrame)
  else .ok (toBeBytes payload.length ++ payload)

def splitFrame (buf : List UInt8) (maxFrame : Nat) :
    Except FrameError (Option (List UInt8 × List UInt8)) :=
  match buf with
  | a :: b :: c :: d :: rest =>
    let len := fromBeBytes a b c d
    if maxFrame < len then .error (.tooLarge len maxFrame)
    else if buf.length < lenPrefix + len then .ok none
    else .ok (some (rest.take len, rest.drop len))
  | _ => .ok none

variable {rest : List UInt8}

theorem splitFrame_some {buf payload : List UInt8} {maxFrame : Nat}
    (h : splitFrame buf maxFrame = .ok (some (payload, rest))) :
    buf.length = lenPrefix + payload.length + rest.length := by
  unfold splitFrame at h
  split at h
  next a b c d tail =>
    dsimp only at h
    split at h
    · cases h
    · split at h
      · cases h
      next whole =>
        cases h
        simp only [List.length_cons, lenPrefix, List.length_take, List.length_drop] at whole ⊢
        omega
  next => cases h

/-- `split_frame` as the way frames are cut off a buffer. -/
def frames (maxFrame : Nat) : Slicer UInt8 (List UInt8) FrameError where
  cut buf :=
    match splitFrame buf maxFrame with
    | .ok none => .more
    | .ok (some (payload, rest)) => .item payload rest
    | .error e => .bad e
  shrinks := by
    intro buf payload rest h
    split at h
    next => cases h
    next hs =>
      cases h
      have length := splitFrame_some hs
      simp only [lenPrefix] at length
      omega
    next => cases h

/-- The largest payload of a session: `negotiate` keeps what the component asks for between 1024
and the default, and `serve_conn` bounds it once more. -/
def sessionMaxFrame (wantFrame : Nat) : Nat :=
  min (max (min wantFrame defaultMaxFrame) 1024) defaultMaxFrame

/-! ### The read loop -/

/-- What one turn of the loop meets: the host shuts down, the peer has closed, some bytes, a read
that times out, or one that fails. -/
inductive ReadTurn where
  | shutdown
  | eof
  | data (bytes : List UInt8)
  | again
  | failed

inductive Session where
  | reading (buf : List UInt8)
  | dropped
  deriving DecidableEq

/-- The payloads handed to `on_plugin_frame`, and what has become of the session. -/
def readLoop (maxFrame : Nat) : List ReadTurn → List UInt8 → List (List UInt8) × Session
  | [], buf => ([], .reading buf)
  | .shutdown :: _, _ => ([], .dropped)
  | .eof :: _, _ => ([], .dropped)
  | .failed :: _, _ => ([], .dropped)
  | .again :: turns, buf => readLoop maxFrame turns buf
  | .data bytes :: turns, buf =>
    if maxFrame + 4 < (buf ++ bytes).length then ([], .dropped)
    else
      match (frames maxFrame).slices (buf ++ bytes) with
      | (payloads, .ok rest) =>
        let (more, session) := readLoop maxFrame turns rest
        (payloads ++ more, session)
      | (payloads, .error _) => (payloads, .dropped)

/-! ### Whole frames -/

/-- The frame of a payload. -/
def frame (payload : List UInt8) : List UInt8 := toBeBytes payload.length ++ payload

variable {maxFrame : Nat} {payload buf : List UInt8} {tail : List UInt8}
  {payloads : List (List UInt8)}

theorem sessionMaxFrame_le (wantFrame : Nat) : sessionMaxFrame wantFrame ≤ u32Max := by
  simp only [sessionMaxFrame, defaultMaxFrame, u32Max]
  omega

theorem encode_eq (fits : payload.length ≤ maxFrame) (small : maxFrame ≤ u32Max) :
    encode payload maxFrame = .ok (frame payload) := by
  rw [encode, if_neg (by omega), if_neg (by omega)]
  rfl

theorem frame_length (payload : List UInt8) :
    (frame payload).length = lenPrefix + payload.length := by
  simp [frame, toBeBytes, lenPrefix]
  omega

theorem fromBeBytes_toBeBytes {n : Nat} (h : n ≤ u32Max) :
    fromBeBytes (.ofNat (n / 16777216)) (.ofNat (n / 65536)) (.ofNat (n / 256)) (.ofNat n) = n := by
  simp only [fromBeBytes, UInt8.toNat_ofNat', u32Max] at h ⊢
  omega

/-- The front of a buffer that starts as a frame does. -/
theorem splitFrame_prefix (fits : payload.length ≤ maxFrame) (small : maxFrame ≤ u32Max)
    (starts : buf ++ tail = frame payload ++ rest) :
    splitFrame buf maxFrame =
      .ok (if buf.length < (frame payload).length then none
        else some (payload, buf.drop (frame payload).length)) := by
  rw [frame_length]
  unfold splitFrame
  split
  next a b c d front =>
    simp only [frame, toBeBytes, List.cons_append, List.nil_append, List.cons.injEq] at starts
    obtain ⟨rfl, rfl, rfl, rfl, starts⟩ := starts
    rw [fromBeBytes_toBeBytes (by omega)]
    dsimp only
    rw [if_neg (by omega)]
    split
    next => rfl
    next whole =>
      have enough : payload.length ≤ front.length := by
        simp only [List.length_cons, lenPrefix] at whole
        omega
      have taken : front.take payload.length = payload := by
        have both := congrArg (List.take payload.length) starts
        rwa [List.take_append_of_le_length enough, List.take_left] at both
      rw [taken, Nat.add_comm lenPrefix]
      rfl
  next short =>
    have few : buf.length < lenPrefix + payload.length := by
      rcases buf with _ | ⟨a, _ | ⟨b, _ | ⟨c, _ | ⟨d, front⟩⟩⟩⟩
      all_goals simp only [lenPrefix, List.length_nil, List.length_cons]
      · omega
      · omega
      · omega
      · omega
      · exact absurd rfl (short a b c d front)
    rw [if_pos few]

theorem cut_more (fits : payload.length ≤ maxFrame) (small : maxFrame ≤ u32Max)
    (starts : buf ++ tail = frame payload ++ rest) (part : buf.length < (frame payload).length) :
    (frames maxFrame).cut buf = .more := by
  simp only [frames, splitFrame_prefix fits small starts, if_pos part]

theorem cut_item (rest : List UInt8) (fits : payload.length ≤ maxFrame)
    (small : maxFrame ≤ u32Max) :
    (frames maxFrame).cut (frame payload ++ rest) = .item payload rest := by
  have starts : (frame payload ++ rest) ++ [] = frame payload ++ rest := List.append_nil _
  have whole : ¬ (frame payload ++ rest).length < (frame payload).length := by simp
  simp only [frames, splitFrame_prefix fits small starts, if_neg whole, List.drop_left]

/-- The frames, given by the sizes of their payloads, that are not whole in the next `n` bytes,
and the bytes of them that are there. -/
def waiting : List Nat → Nat → List Nat × Nat
  | [], n => ([], n)
  | size :: sizes, n =>
    if lenPrefix + size ≤ n then waiting sizes (n - (lenPrefix + size)) else (size :: sizes, n)

/-- Slicing takes exactly the whole frames off a buffer. -/
theorem slices_stream (fits : ∀ payload ∈ payloads, payload.length ≤ maxFrame)
    (small : maxFrame ≤ u32Max) (stream : buf ++ tail = payloads.flatMap frame) :
    ∃ taken left rest, payloads = taken ++ rest ∧
      (frames maxFrame).slices buf = (taken, .ok left) ∧ left ++ tail = rest.flatMap frame ∧
      waiting (payloads.map List.length) buf.length = (rest.map List.length, left.length) := by
  induction payloads generalizing buf with
  | nil =>
    have empty : buf = [] := (List.append_eq_nil_iff.mp stream).1
    subst empty
    refine ⟨[], [], [], rfl, Slicer.slices_more rfl, stream, rfl⟩
  | cons payload payloads ih =>
    have first := fits payload (List.mem_cons_self ..)
    have others : ∀ p ∈ payloads, p.length ≤ maxFrame :=
      fun p hp => fits p (List.mem_cons_of_mem _ hp)
    rw [List.flatMap_cons] at stream
    by_cases whole : (frame payload).length ≤ buf.length
    · have starts : buf <+: frame payload ++ payloads.flatMap frame :=
        stream ▸ List.prefix_append buf tail
      obtain ⟨front, rfl⟩ :=
        List.prefix_of_prefix_length_le (List.prefix_append _ _) starts whole
      rw [List.append_assoc] at stream
      obtain ⟨taken, left, rest, split, sliced, remaining, sizes⟩ :=
        ih others (List.append_cancel_left stream)
      refine ⟨payload :: taken, left, rest, by rw [split]; rfl, ?_, remaining, ?_⟩
      · rw [Slicer.slices_item (cut_item front first small), sliced]
      · rw [← sizes, List.map_cons, waiting, if_pos (by rw [← frame_length]; exact whole)]
        simp [frame_length]
    · refine ⟨[], buf, payload :: payloads, rfl, ?_, stream, ?_⟩
      · exact Slicer.slices_more (cut_more first small stream (by omega))
      · rw [List.map_cons, waiting, if_neg (by rw [← frame_length]; exact whole)]

/-! ### What the loop hands on -/

def ReadTurn.bytes : ReadTurn → List UInt8
  | .data bytes => bytes
  | _ => []

/-- The turns of a session that goes on: reads of at most 8192 bytes, and time-outs. -/
def ReadTurn.Goes : ReadTurn → Prop
  | .data bytes => 0 < bytes.length ∧ bytes.length ≤ 8192
  | .again => True
  | _ => False

/-- At every read, the bytes of frames that were not whole before it fit, together with what is
read, into one frame of the largest size. -/
def Fits (maxFrame : Nat) : List Nat → Nat → List ReadTurn → Prop
  | _, _, [] => True
  | sizes, n, .data bytes :: turns => n + bytes.length ≤ maxFrame + 4 ∧
      Fits maxFrame (waiting sizes (n + bytes.length)).1 (waiting sizes (n + bytes.length)).2 turns
  | sizes, n, _ :: turns => Fits maxFrame sizes n turns

theorem waiting_waiting (sizes : List Nat) (n : Nat) :
    waiting (waiting sizes n).1 (waiting sizes n).2 = waiting sizes n := by
  induction sizes generalizing n with
  | nil => rfl
  | cons size sizes ih =>
    by_cases whole : lenPrefix + size ≤ n
    · rw [waiting, if_pos whole]
      exact ih _
    · simp [waiting, whole]

theorem waiting_le (sizes : List Nat) (n : Nat) : (waiting sizes n).2 ≤ n := by
  induction sizes generalizing n with
  | nil => exact Nat.le_refl n
  | cons size sizes ih =>
    by_cases whole : lenPrefix + size ≤ n
    · rw [waiting, if_pos whole]
      exact Nat.le_trans (ih _) (Nat.sub_le ..)
    · simp only [waiting, if_neg whole, Nat.le_refl]

theorem readLoop_iff {turns : List ReadTurn}
    (fits : ∀ payload ∈ payloads, payload.length ≤ maxFrame) (small : maxFrame ≤ u32Max)
    (goes : ∀ turn ∈ turns, turn.Goes)
    (stream : buf ++ turns.flatMap ReadTurn.bytes = payloads.flatMap frame)
    (part : waiting (payloads.map List.length) buf.length =
      (payloads.map List.length, buf.length)) :
    readLoop maxFrame turns buf = (payloads, .reading []) ↔
      Fits maxFrame (payloads.map List.length) buf.length turns := by
  induction turns generalizing payloads buf with
  | nil =>
    simp only [List.flatMap_nil, List.append_nil] at stream
    subst stream
    cases payloads with
    | nil => simp [readLoop, Fits]
    | cons payload payloads =>
      have whole : lenPrefix + payload.length ≤
          ((payload :: payloads).flatMap frame).length := by
        simp [frame_length]
      have less := waiting_le (payloads.map List.length)
        (((payload :: payloads).flatMap frame).length - (lenPrefix + payload.length))
      rw [List.map_cons, waiting, if_pos whole] at part
      rw [part] at less
      simp only [lenPrefix] at less whole
      omega
  | cons turn turns ih =>
    have rest : ∀ turn ∈ turns, turn.Goes := fun t ht => goes t (List.mem_cons_of_mem _ ht)
    have now := goes turn (List.mem_cons_self ..)
    cases turn with
    | shutdown => exact now.elim
    | eof => exact now.elim
    | failed => exact now.elim
    | again => exact ih fits rest stream part
    | data bytes =>
      have front : (buf ++ bytes) ++ turns.flatMap ReadTurn.bytes = payloads.flatMap frame := by
        rw [← stream, List.flatMap_cons, List.append_assoc]
        rfl
      obtain ⟨taken, left, others, rfl, sliced, remaining, sizes⟩ :=
        slices_stream fits small front
      have none_whole : waiting (others.map List.length) left.length =
          (others.map List.length, left.length) := by
        have again := waiting_waiting ((taken ++ others).map List.length) (buf ++ bytes).length
        rwa [sizes] at again
      have next := ih (fun p hp => fits p (List.mem_append_right _ hp)) rest remaining none_whole
      rw [List.length_append] at sizes
      simp only [readLoop, Fits, sliced, sizes, List.length_append]
      by_cases exceeds : maxFrame + 4 < buf.length + bytes.length
      · rw [if_pos exceeds]
        exact iff_of_false (fun h => by simp at h) fun h => absurd h.1 (by omega)
      · rw [if_neg exceeds, ← next]
        have inside : buf.length + bytes.length ≤ maxFrame + 4 := by omega
        simp [Prod.ext_iff, inside]

/-- The loop hands on the payloads of a stream of frames, in order and with nothing left over,
exactly when no read makes the buffer outgrow one frame before the whole frames are sliced off. -/
theorem read_loop_delivers_iff (wantFrame : Nat) (payloads : List (List UInt8))
    (turns : List ReadTurn)
    (fits : ∀ payload ∈ payloads, payload.length ≤ sessionMaxFrame wantFrame)
    (goes : ∀ turn ∈ turns, turn.Goes)
    (stream : turns.flatMap ReadTurn.bytes = payloads.flatMap frame) :
    readLoop (sessionMaxFrame wantFrame) turns [] = (payloads, .reading []) ↔
      Fits (sessionMaxFrame wantFrame) (payloads.map List.length) 0 turns := by
  have part : waiting (payloads.map List.length) 0 = (payloads.map List.length, 0) := by
    cases payloads with
    | nil => rfl
    | cons payload payloads =>
      rw [List.map_cons, waiting, if_neg (by simp [lenPrefix])]
  exact readLoop_iff fits (sessionMaxFrame_le wantFrame) goes stream part

/-- Two frames that arrive in three reads, the second of which ends one and starts the other. -/
theorem read_loop_delivers_two :
    readLoop (sessionMaxFrame 4096)
        [.data [0, 0, 0, 2, 7], .again, .data [9, 0, 0], .data [0, 1, 5]] [] =
      ([[7, 9], [5]], .reading []) := by
  have fits : ∀ payload ∈ ([[7, 9], [5]] : List (List UInt8)),
      payload.length ≤ sessionMaxFrame 4096 := by decide
  refine (read_loop_delivers_iff 4096 [[7, 9], [5]] _ fits ?_ (by decide)).mpr ?_
  · simp [ReadTurn.Goes]
  · simp [Fits, waiting, lenPrefix, sessionMaxFrame, defaultMaxFrame]

/-- Two payloads that fit arrive as one read, and the session is dropped with neither handed on. -/
theorem two_frames_in_one_read_dropped :
    let payload : List UInt8 := List.replicate 600 0
    encode payload (sessionMaxFrame 1024) = .ok (frame payload) ∧
    (ReadTurn.data (frame payload ++ frame payload)).Goes ∧
    readLoop (sessionMaxFrame 1024) [.data (frame payload ++ frame payload)] [] =
      ([], .dropped) := by
  intro payload
  have size : payload.length = 600 := List.length_replicate ..
  have length : (frame payload ++ frame payload).length = 1208 := by
    rw [List.length_append, frame_length, size, lenPrefix]
  have bound : sessionMaxFrame 1024 = 1024 := by decide
  refine ⟨encode_eq (by rw [size, bound]; omega) (sessionMaxFrame_le 1024), ?_, ?_⟩
  · simp only [ReadTurn.Goes, length]
    omega
  · rw [readLoop, List.nil_append, length, bound, if_pos (by omega)]

end MatrixRuntime.HostReader
