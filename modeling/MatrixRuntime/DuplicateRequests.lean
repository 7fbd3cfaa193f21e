import MatrixRuntime.RequestRuns
import MatrixRuntime.SequentialRuns

/-! A request made while another one with its id is outstanding. Only the reply table is searched
for duplicates, although the engine moves a waiter from there to a table of its own, and a request
whose frame does not encode returns with its waiter still registered. -/

namespace MatrixRuntime.DuplicateRequests

open JsonValue KeyedTable InterleavedProgram InterleavedMachine SequentialRuns SessionRequests
  RequestWaiters RequestRuns

/-- A request with this id waits in the reply table or is tracked by the engine. -/
def Outstanding (s : Mux) (rid : String) : Prop := rid ∈ s.waiting.map Prod.fst

instance (s : Mux) (rid : String) : Decidable (Outstanding s rid) :=
  inferInstanceAs (Decidable (_ ∈ _))

section Alone

variable (text : JsonText) (valid : Json → Bool)

/-- A duplicate is refused and changes nothing; a request that fails with its frame not queued
leaves both tables as they were. -/
structure Careful (s : Mux) (env : Json) (timeout rounds : Nat) : Prop where
  refused : ∀ rid, requestIdOf env = some rid → Outstanding s rid →
    alone (mux text valid) (request text env timeout rounds) s =
      some (.error "duplicate-request", s)
  restored : ∀ e s', alone (mux text valid) (request text env timeout rounds) s =
    some (.error e, s') → s'.commands = s.commands →
      s'.replies = s.replies ∧ s'.pending = s.pending

/-- The id is outstanding only in the reply table, while that has room; a frame that does not
encode belongs to a request that is refused anyway. -/
structure Noticed (s : Mux) (env : Json) (rid : String) : Prop where
  duplicate : Outstanding s rid →
    (s.replies.get rid).isSome = true ∧ s.replies.size < s.limits.maxPending
  encodes : ∀ e, encodeFrame text env = .error e →
    s.limits.maxPending ≤ s.replies.size ∨ (s.replies.get rid).isSome = true

variable {text valid} {s s' : Mux} {env : Json} {rid : String} {timeout rounds : Nat}

/-- The actions of the waiting loop. -/
abbrev waits (β : Type) : MAct β → Prop
  | .cancelRequested _ => True
  | .recv _ => True
  | .waitedOut _ => True
  | .removeReply _ => True
  | _ => False

theorem awaitReply_waits (rid : String) (channel rounds : Nat) :
    Composed waits (fun _ _ => False) (awaitReply rid channel rounds) := by
  have gives_up : ∀ why : String, Composed waits (fun _ _ => False)
      ((perform (.removeReply rid)).bind fun _ => .pure (Except.error why : Reply)) :=
    fun _ => .map .once
  induction rounds with
  | zero => exact .blocked
  | succ rounds ih =>
    refine .next fun cancelled => .ite (gives_up _) (.next fun received => ?_)
    cases received with
    | message reply => exact .pure reply
    | timeout => exact .next fun waited => .ite (gives_up _) ih
    | disconnected => exact gives_up _

/-- The waiting loop leaves the command queue and the numbering of the channels alone. -/
theorem awaitReply_alone {channel : Nat} {reply : Reply}
    (runs : alone (mux text valid) (awaitReply rid channel rounds) s = some (reply, s')) :
    s'.commands = s.commands ∧ s'.nextChannel = s.nextChannel := by
  refine alone_kept (P := fun t => t.commands = s.commands ∧ t.nextChannel = s.nextChannel)
    (awaitReply_waits rid channel rounds) ?_ runs ⟨rfl, rfl⟩
  intro β action known t reply t' sem kept
  cases action with
  | cancelRequested | waitedOut | removeReply =>
    cases sem
    exact kept
  | recv channel =>
    simp only [mux, MAct.sem] at sem
    split at sem <;> cases sem <;> exact kept
  | _ => exact known.elim

variable (text valid) in
/-- A command is queued, or nothing happens. -/
theorem sendCmd_alone (cmd : Command) (refused : String) (s : Mux) :
    (∃ e, alone (mux text valid) (sendCmd cmd refused) s = some (.error e, s)) ∨
      alone (mux text valid) (sendCmd cmd refused) s =
        some (.ok (), { s with commands := s.commands ++ [cmd] }) := by
  simp only [sendCmd, Prog.bind_eq, Prog.pure_eq, alone_bind, alone_perform, mux, MAct.sem,
    Option.bind_some]
  split
  · exact .inl ⟨_, rfl⟩
  · simp only [alone_bind, alone_perform, MAct.sem, Option.bind_some]
    split
    · exact .inl ⟨_, rfl⟩
    · simp only [alone_bind, alone_perform, MAct.sem]
      split
      · exact .inl ⟨_, rfl⟩
      · exact .inr rfl

/-- A registered request does not encode, is taken back, or has its frame queued. -/
theorem sendRequest_alone {channel : Nat} {reply : Reply} (runs : alone (mux text valid)
      (sendRequest text rid channel env timeout rounds) s = some (reply, s')) :
    s'.nextChannel = s.nextChannel ∧ ((s' = s ∧ ∃ e, encodeFrame text env = .error e) ∨
      s' = { s with replies := s.replies.erase rid } ∨ s'.commands ≠ s.commands) := by
  unfold sendRequest at runs
  split at runs
  next e large =>
    cases runs
    exact ⟨rfl, .inl ⟨rfl, e, large⟩⟩
  next frame fits =>
    rw [Prog.bind_eq, alone_bind] at runs
    obtain ⟨e, failed⟩ | queued :=
      sendCmd_alone text valid (.request rid frame timeout) "resource-exhausted" s
    · rw [failed] at runs
      cases runs
      exact ⟨rfl, .inr (.inl rfl)⟩
    · rw [queued] at runs
      obtain ⟨commands, next⟩ := awaitReply_alone runs
      refine ⟨next, .inr (.inr ?_)⟩
      rw [commands]
      simp

variable (text valid s timeout rounds) in
theorem request_alone (named : requestIdOf env = some rid) :
    alone (mux text valid) (request text env timeout rounds) s =
      if s.limits.maxPending ≤ s.replies.size then some (.error "resource-exhausted", s)
      else if (s.replies.get rid).isSome then some (.error "duplicate-request", s)
      else alone (mux text valid) (sendRequest text rid s.nextChannel env timeout rounds)
        (registered s rid timeout) := by
  unfold request
  rw [named]
  simp only [Prog.bind_eq, alone_bind, alone_perform, mux, MAct.sem]
  split
  · rfl
  · split <;> rfl

/-- A request keeps to the reply table's rules exactly when the reply table shows everything that
is outstanding and the frame encodes. -/
theorem careful_iff : Careful text valid s env timeout rounds ↔
    ∀ rid, requestIdOf env = some rid → Noticed text s env rid := by
  constructor
  · intro careful rid named
    have runs := request_alone text valid s timeout rounds named
    refine ⟨fun outstanding => ?_, fun e large => ?_⟩
    · have refused := careful.refused rid named outstanding
      rw [runs] at refused
      split at refused
      next => simp at refused
      next room =>
        split at refused
        next there => exact ⟨there, Nat.lt_of_not_le room⟩
        next =>
          have next := (sendRequest_alone refused).1
          simp [registered] at next
    · by_contra open'
      rw [not_or] at open'
      rw [if_neg open'.1, if_neg open'.2] at runs
      have left : alone (mux text valid) (sendRequest text rid s.nextChannel env timeout rounds)
          (registered s rid timeout) = some (.error e, registered s rid timeout) := by
        unfold sendRequest
        rw [large]
        rfl
      have same := (careful.restored e _ (runs.trans left) rfl).1
      have there : (registered s rid timeout).replies.get rid ≠ none := by
        simp [registered, Table.put_get]
      rw [same] at there
      exact open'.2 (Option.isSome_iff_ne_none.mpr there)
  · intro noticed
    refine ⟨fun rid named outstanding => ?_, fun e s' runs commands => ?_⟩
    · obtain ⟨there, room⟩ := (noticed rid named).duplicate outstanding
      rw [request_alone text valid s timeout rounds named, if_neg (Nat.not_le.mpr room),
        if_pos there]
    · cases named : requestIdOf env with
      | none =>
        unfold request at runs
        rw [named] at runs
        cases runs
        exact ⟨rfl, rfl⟩
      | some rid =>
        rw [request_alone text valid s timeout rounds named] at runs
        split at runs
        next =>
          cases runs
          exact ⟨rfl, rfl⟩
        next room =>
          split at runs
          next =>
            cases runs
            exact ⟨rfl, rfl⟩
          next free =>
            have absent : s.replies.get rid = none := by simpa using free
            obtain ⟨-, ⟨rfl, e, large⟩ | rfl | queued⟩ := sendRequest_alone runs
            · exact ((noticed rid named).encodes e large).elim (absurd · room) (absurd · free)
            · exact ⟨Table.put_erase absent _, rfl⟩
            · exact absurd commands queued

end Alone

/-- A caller has been told that the outcome of its request is unknown. -/
def gaveUp {text : JsonText} {valid : Json → Bool} (i : Nat) : Label (mux text valid) → Bool
  | .done j _ (some (.error e)) => decide (j = i ∧ e = "outcome-unknown")
  | _ => false

/-- Two requests under one id: the engine puts the waiter of the second over that of the first,
whose caller gives up although nothing is late. A third request would be let in as well. -/
theorem duplicate_replaces_waiter : ∃ c : Config (mux CompactJson.compact fun _ => true),
    Run (fun _ _ => True) (.boot (.spawn {} still)) c ∧ Outstanding c.mem "r" ∧
      (c.mem.pending.get "r").map Waiter.channel = some 1 ∧ c.trace.any (gaveUp 1) = true ∧
      ¬ Careful CompactJson.compact (fun _ => true) c.mem ping 10 2 := by
  obtain ⟨c, run, there, hidden, later, gave⟩ := Config.reaches_freely (.boot (.spawn {} still))
    (P := fun c : Config (mux CompactJson.compact fun _ => true) => Outstanding c.mem "r" ∧
      (c.mem.replies.get "r").isSome = false ∧
      (c.mem.pending.get "r").map Waiter.channel = some 1 ∧ c.trace.any (gaveUp 1) = true) 200
    [.start 0 (.engine 3 3), .steps 0 1, .start 1 (.request ping 10 2), .steps 1 4, .steps 0 9,
      .start 2 (.request ping 10 2), .steps 2 4, .steps 0 20, .finish 1] (by decide +kernel)
  refine ⟨c, run, there, later, gave, fun careful => ?_⟩
  have seen := ((careful_iff.mp careful "r" rfl).duplicate there).1
  rw [hidden] at seen
  contradiction

end MatrixRuntime.DuplicateRequests
