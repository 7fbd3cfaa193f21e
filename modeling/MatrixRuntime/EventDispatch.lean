import Mathlib
import MatrixRuntime.GuardedSteps
import MatrixRuntime.JsonValue

/-! Events and stream chunks on their way to a component's handler: the reader pushes them into a
bounded queue and wakes the dispatcher, which drains the queue, hands over what it drained and
then looks at the stop flag. -/

namespace MatrixRuntime.EventDispatch

open JsonValue GuardedSteps

inductive DepEvent where
  | event (topic : String) (payload : Json)
  | stream (streamId : String) (seq : Nat) (payload : String)
  deriving DecidableEq

structure EventQueue where
  queue : List DepEvent
  cap : Nat
  dropped : Nat

def u64Max : Nat := 2 ^ 64 - 1

def EventQueue.push (q : EventQueue) (ev : DepEvent) : EventQueue :=
  if q.queue.length ≥ q.cap then
    ⟨q.queue.tail ++ [ev], q.cap, min (q.dropped + 1) u64Max⟩
  else { q with queue := q.queue ++ [ev] }

def EventQueue.drain (q : EventQueue) : List DepEvent × EventQueue :=
  (q.queue, { q with queue := [] })

inductive Reader where
  | reading
  | waking
  | joining
  | returned
  deriving DecidableEq

inductive Dispatcher where
  | waiting
  | draining
  | handing
  | returned
  deriving DecidableEq

/-- `serve` at work, with all that was pushed and all that the handler was given. -/
structure Serve where
  events : EventQueue := ⟨[], 64, 0⟩
  wake : Bool := false
  stop : Bool := false
  reader : Reader := .reading
  dispatcher : Dispatcher := .waiting
  batch : List DepEvent := []
  pushed : List DepEvent := []
  delivered : List DepEvent := []

inductive Move where
  | push (ev : DepEvent)
  | trySend
  | stop
  | join
  | recv
  | timeout
  | drain
  | hand
  | load

/-- The wake-up channel holds one message; one more is not sent. The reader's loop ends at any
frame, and nothing is pushed after it. -/
def next (s : Serve) : Move → Option Serve
  | .push ev =>
    if s.reader = .reading then
      some { s with events := s.events.push ev, reader := .waking, pushed := s.pushed ++ [ev] }
    else none
  | .trySend =>
    if s.reader = .waking then some { s with wake := true, reader := .reading } else none
  | .stop => if s.reader = .reading then some { s with stop := true, reader := .joining } else none
  | .join =>
    if s.reader = .joining ∧ s.dispatcher = .returned then some { s with reader := .returned }
    else none
  | .recv =>
    if s.dispatcher = .waiting ∧ s.wake = true then
      some { s with wake := false, dispatcher := .draining }
    else none
  | .timeout =>
    if s.dispatcher = .waiting ∧ s.wake = false then some { s with dispatcher := .draining }
    else none
  | .drain =>
    if s.dispatcher = .draining then
      let (batch, events) := s.events.drain
      some { s with events, batch, dispatcher := .handing }
    else none
  | .hand =>
    match s.dispatcher, s.batch with
    | .handing, ev :: batch => some { s with batch, delivered := s.delivered ++ [ev] }
    | _, _ => none
  | .load =>
    match s.dispatcher, s.batch with
    | .handing, [] => some { s with dispatcher := if s.stop then .returned else .waiting }
    | _, _ => none

/-- What was handed over is what was pushed, in its order, less as many as were counted. -/
def Accounted (s : Serve) : Prop :=
  s.delivered.Sublist s.pushed ∧ s.delivered.length + s.events.dropped = s.pushed.length

/-- The flag is set with the queue empty or the next drain still to come, and the count of drops
is not exhausted. -/
def Timely (s : Serve) : Move → Prop
  | .stop => s.events.queue = [] ∨ s.dispatcher = .waiting ∨ s.dispatcher = .draining
  | .push _ => s.events.dropped < u64Max
  | _ => True

instance : ∀ s m, Decidable (Timely s m)
  | s, .stop => inferInstanceAs (Decidable (s.events.queue = [] ∨ _))
  | _, .push _ => Nat.decLt _ _
  | _, .trySend | _, .join | _, .recv | _, .timeout | _, .drain | _, .hand | _, .load => .isTrue ⟨⟩

theorem chunk_lost : ∃ s, Reaches next (fun _ _ => True) {} s ∧ s.reader = .returned ∧
    ¬ Accounted s := by
  obtain ⟨s, run, returned, short⟩ := reaches_of_play next (fun _ _ => True)
    (fun s => s.reader = .returned ∧ s.delivered.length + s.events.dropped ≠ s.pushed.length) {}
    [.timeout, .drain, .push (.stream "s" 0 "chunk"), .trySend, .stop, .load, .join] (by decide)
  exact ⟨s, run, returned, fun all => short all.2⟩

/-- While every move is timely, what was pushed is handed over, in hand or queued, or counted. -/
structure Inv (s : Serve) : Prop where
  order : (s.delivered ++ s.batch ++ s.events.queue).Sublist s.pushed
  count : s.delivered.length + s.batch.length + s.events.queue.length + s.events.dropped =
    s.pushed.length
  cap : s.events.cap = 64
  held : s.dispatcher ≠ .handing → s.batch = []
  reading : s.reader = .reading ∨ s.reader = .waking → s.stop = false
  last : s.stop = true → s.events.queue = [] ∨ s.dispatcher = .waiting ∨ s.dispatcher = .draining
  ended : s.dispatcher = .returned → s.stop = true
  joined : s.reader = .returned → s.dispatcher = .returned

/-- A push drops the oldest item or none, and counts what it drops. -/
theorem push_spec {q : EventQueue} (ev : DepEvent) (room : 0 < q.cap) (few : q.dropped < u64Max) :
    (q.push ev).cap = q.cap ∧ ∃ kept : List DepEvent, (q.push ev).queue = kept ++ [ev] ∧
      kept.Sublist q.queue ∧ kept.length + (q.push ev).dropped = q.queue.length + q.dropped := by
  unfold EventQueue.push
  split_ifs with full
  · refine ⟨rfl, _, rfl, List.tail_sublist _, ?_⟩
    simp only [List.length_tail]
    omega
  · exact ⟨rfl, _, rfl, .refl _, rfl⟩

theorem Inv.step {s s' : Serve} {m : Move} (h : Inv s) (timely : Timely s m)
    (taken : next s m = some s') : Inv s' := by
  obtain ⟨order, count, cap, held, reading, last, ended, joined⟩ := h
  cases m with
  | push ev =>
    obtain ⟨same, kept, queue, sub, total⟩ := push_spec ev (by omega : 0 < s.events.cap) timely
    simp only [next] at taken
    split at taken
    · cases taken
      refine ⟨?_, ?_, same.trans cap, held, by simp_all, by simp_all, ended, by simp⟩
      · rw [queue, ← List.append_assoc]
        exact (((List.Sublist.refl _).append sub).trans order).append (.refl _)
      · simp only [queue, List.length_append, List.length_singleton]
        omega
    · cases taken
  | drain =>
    simp only [next, EventQueue.drain] at taken
    split at taken
    · next phase =>
      cases taken
      have empty := held (by simp [phase])
      refine ⟨by simpa [empty] using order, by simpa [empty] using count, cap, ?_, ?_, ?_, ?_, ?_⟩
        <;> simp_all
    · cases taken
  | hand | load =>
    simp only [next] at taken
    split at taken
    · next phase batch =>
      cases taken
      refine ⟨by simpa [batch] using order, ?_, cap, ?_, ?_, ?_, ?_, ?_⟩ <;> simp_all <;> omega
    · cases taken
  | stop =>
    simp only [next] at taken
    split at taken
    · cases taken
      exact ⟨order, count, cap, held, by simp, fun _ => timely, fun _ => rfl, by simp⟩
    · cases taken
  | join | trySend | recv | timeout =>
    simp only [next] at taken
    split at taken
    · cases taken
      refine ⟨order, count, cap, ?_, ?_, ?_, ?_, ?_⟩ <;> simp_all
    · cases taken

/-- In every run whose moves are all timely, `serve` returns with every item accounted for. -/
theorem accounted_of_timely (s : Serve) (run : Reaches next Timely {} s)
    (returned : s.reader = .returned) : Accounted s := by
  have h : Inv s := run.invariant (by constructor <;> simp) fun _ _ _ h timely => h.step timely
  have ended := h.joined returned
  have drained := (h.last (h.ended ended)).resolve_right (by simp [ended])
  have handed := h.held (by simp [ended])
  have order := h.order
  have count := h.count
  rw [drained, handed] at order count
  exact ⟨by simpa using order, by simpa using count⟩

theorem two_accounted : ∃ s, s.reader = .returned ∧ s.delivered.length = 2 ∧ Accounted s := by
  obtain ⟨s, run, returned, two⟩ := reaches_of_play next Timely
    (fun s => s.reader = .returned ∧ s.delivered.length = 2) {}
    [.push (.event "t" .null), .trySend, .push (.stream "s" 0 ""), .trySend, .stop, .recv, .drain,
      .hand, .hand, .load, .join] (by decide)
  exact ⟨s, returned, two, accounted_of_timely s run returned⟩

def InOrder (s : Serve) : Prop :=
  (s.delivered ++ s.batch ++ s.events.queue).Sublist s.pushed ∧ s.events.queue.length ≤ 64

/-- In any run, what was handed over, is held or waits was pushed in this order. -/
theorem delivered_in_order {s : Serve} (run : Reaches next (fun _ _ => True) {} s) :
    InOrder s := by
  refine (run.invariant (P := fun s => InOrder s ∧ s.events.cap = 64 ∧
    (s.dispatcher ≠ .handing → s.batch = [])) (by simp [InOrder]) ?_).1
  rintro s m s' ⟨⟨order, few⟩, cap, held⟩ - taken
  cases m with
  | push ev =>
    have grown {kept} (sub : List.Sublist kept _) :=
      ((sub.append_left _).trans order).append_right [ev]
    simp only [next, EventQueue.push] at taken
    split_ifs at taken <;> cases taken <;> refine ⟨⟨?_, by simp; omega⟩, cap, held⟩
    · simpa using grown (List.tail_sublist _)
    · simpa using grown (.refl _)
  | _ => grind [next, EventQueue.drain, InOrder]

theorem one_in_order : ∃ s, s.delivered ≠ [] ∧ InOrder s := by
  obtain ⟨s, run, got⟩ := reaches_of_play next (fun _ _ => True) (fun s => s.delivered ≠ [])
    {} [.push (.event "" .null), .timeout, .drain, .hand] (by decide)
  exact ⟨s, got, delivered_in_order run⟩

end MatrixRuntime.EventDispatch
