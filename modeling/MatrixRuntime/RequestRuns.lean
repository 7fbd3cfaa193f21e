import MatrixRuntime.CompactJson
import MatrixRuntime.RequestWaiters
import MatrixRuntime.ThreadStates
import MatrixRuntime.TraceMarks

/-! Requests on a session under any interleaving of callers, the engine and what arrives. A caller
whose request is refused takes its waiter out of the reply table, except where the frame of the
request is too large; a session that has detached never clears that one. -/

namespace MatrixRuntime.RequestRuns

open JsonValue KeyedTable SessionRequests RequestWaiters InterleavedProgram InterleavedMachine
open ThreadStates TraceMarks Function

variable {text : JsonText} {valid : Json → Bool} {β : Type} {a : MAct β} {b : β}
  {i j channel timeout rounds : Nat} {o : Obs (mux text valid)} {mem : Mux} {rid : String}
  {env : Json} {label : Label (mux text valid)}

def books {β : Type} : MAct β → β → String × Nat → Prop
  | .register rid _, reply, waiter => reply = .ok waiter.2 ∧ rid = waiter.1
  | _, _, _ => False

/-- The thread has put the waiter into the reply table. -/
def waits : Mark MAct (String × Nat) := .ever books

/-- The frame of the envelope is over the limit. -/
def oversize (text : JsonText) (env : Json) : Bool := !(encodeFrame text env).isOk

/-- A request that is too large is made only as long as no detach has emptied the reply table. -/
def timely (o : Obs (mux text valid)) : Label (mux text valid) → Prop
  | .act i (.register _ _) _ => ∀ env timeout rounds,
      inCall i o.trace = some (.request env timeout rounds) → oversize text env = true →
      o.mem.drained = false
  | _ => True

/-! ### Where a thread is -/

/-- A caller asks, waits, or has left a waiter behind because its request is too large. The engine
serves or is detaching. -/
inductive Stage where
  | idle
  | asks (large : Bool)
  | waits (rid : String) (channel : Nat)
  | heavy (rid : String) (channel : Nat)
  | serves
  | closing
  | failing
  deriving DecidableEq

namespace Stage

def engine : Stage → Bool
  | .serves | .closing | .failing => true
  | _ => false

abbrev allows {β : Type} (s : Stage) : MAct β → Prop
  | .register _ _ => ∃ large, s = .asks large
  | .removeReply rid => ∃ channel, s = .waits rid channel
  | .recv channel => ∃ rid, s = .waits rid channel
  | .beginEngine => s = .idle
  | .takeReply _ | .refuse _ | .adopt _ | .expirePending _ | .expireReplies _ | .resolve _ _
  | .setDetached => s = .serves
  | .failPending _ => s = .closing
  | .failReplies _ => s = .failing
  | _ => True

def next {β : Type} (s : Stage) : MAct β → β → Stage
  | .register rid _, .ok channel =>
    if s = .asks true then .heavy rid channel else .waits rid channel
  | .register _ _, .error _ => .idle
  | .removeReply _, _ => .idle
  | .recv _, .message _ => .idle
  | .beginEngine, _ => .serves
  | .setDetached, _ => .closing
  | .failPending _, _ => .failing
  | .failReplies _, _ => .idle
  | _, _ => s

/-- The thread owes nothing. -/
def leaves : Stage → Prop
  | .idle | .asks _ | .heavy _ _ => True
  | _ => False

end Stage

def stages (text : JsonText) (valid : Json → Bool) : Protocol (mux text valid) Stage where
  idle := .idle
  enter
    | .request env _ _ => .asks (oversize text env)
    | _ => .idle
  allows := Stage.allows
  next := Stage.next
  leaves _ _ := Stage.leaves

def detaches {β : Type} : MAct β → Bool
  | .setDetached => true
  | _ => false

def drains {β : Type} : MAct β → Bool
  | .failReplies _ => true
  | _ => false

/-- Actions that move no thread to another stage. -/
abbrev plain {β : Type} : MAct β → Bool
  | .recv _ => false
  | a => !touches a

abbrev Plain {α : Type} (p : MProg α) : Prop :=
  Composed (fun _ a => plain a = true) (fun _ _ => False) p

variable {s : Stage} {α : Type} {p : MProg α} {Q : α → Stage → Prop}

theorem plain_stays (h : plain a = true) :
    (stages text valid).allows s a ∧ ∀ b, (stages text valid).next s a b = s := by
  cases a with
  | register | removeReply | recv | beginEngine | takeReply | refuse | adopt | expirePending
  | expireReplies | resolve | setDetached | failPending | failReplies => cases h
  | _ => exact ⟨trivial, fun _ => rfl⟩

theorem Plain.follows (h : Plain p) (there : ∀ value, Q value s) :
    (stages text valid).Follows p Q s :=
  (Protocol.Follows.composed h fun _ _ => plain_stays).mono fun value _ same => same ▸ there value

theorem Plain.then {γ : Type} {f : α → MProg γ} {R : γ → Stage → Prop} (h : Plain p)
    (rest : ∀ value, (stages text valid).Follows (f value) R s) :
    (stages text valid).Follows (p.bind f) R s :=
  (h.follows (Q := fun _ s' => s' = s) fun _ => rfl).bind fun value _ same => same ▸ rest value

/-! ### Callers -/

theorem sendCmd_plain (cmd : Command) (refused : String) : Plain (sendCmd cmd refused) :=
  .step rfl fun _ => .ite (.pure _) (.step rfl fun _ => .ite (.pure _) (.map (.perform rfl)))

theorem sendFrame_plain (cmd : List UInt8 → Command) (env : Json) :
    Plain (sendFrame text cmd env) := by
  unfold sendFrame
  cases encodeFrame text env with
  | error e => exact .pure _
  | ok frame => exact sendCmd_plain ..

/-- A caller that gives up takes its waiter out of the reply table. -/
theorem giveUp_follows (reply : Reply) :
    (stages text valid).Follows (do perform (.removeReply rid); pure reply)
      (fun _ => Stage.leaves) (.waits rid channel) :=
  .act ⟨channel, rfl⟩ fun _ => trivial

theorem awaitReply_follows (rounds : Nat) :
    (stages text valid).Follows (awaitReply rid channel rounds) (fun _ => Stage.leaves)
      (.waits rid channel) := by
  induction rounds with
  | zero => trivial
  | succ rounds ih =>
    refine .act trivial fun cancelled => ?_
    cases cancelled with
    | true => exact giveUp_follows _
    | false =>
      refine .act ⟨rid, rfl⟩ fun received => ?_
      cases received with
      | message reply => trivial
      | disconnected => exact giveUp_follows _
      | timeout =>
        refine .act trivial fun waited => ?_
        cases waited with
        | true => exact giveUp_follows _
        | false => exact ih

theorem request_follows (env : Json) (timeout rounds : Nat) :
    (stages text valid).Follows (request text env timeout rounds) (fun _ => Stage.leaves)
      (.asks (oversize text env)) := by
  unfold request
  cases requestIdOf env with
  | none => trivial
  | some rid =>
    refine .act ⟨_, rfl⟩ fun reply => ?_
    cases reply with
    | error e => trivial
    | ok channel =>
      cases framed : encodeFrame text env with
      | error e =>
        have large : oversize text env = true := by
          simp [oversize, framed, Except.isOk, Except.toBool]
        simp only [sendRequest, framed, large]
        exact trivial
      | ok frame =>
        have small : oversize text env = false := by
          simp [oversize, framed, Except.isOk, Except.toBool]
        simp only [sendRequest, framed, small]
        refine (sendCmd_plain ..).then fun sent => ?_
        cases sent with
        | error e => exact giveUp_follows _
        | ok _ => exact awaitReply_follows rounds

/-! ### The engine -/

/-- The engine goes on serving, or has detached. -/
def goesOn (goes : Bool) (s : Stage) : Prop := s = if goes then .serves else .idle

theorem detach_follows (reason : String) :
    (stages text valid).Follows (detach reason) (fun _ s => s = .idle) .serves :=
  .act rfl fun _ => .act rfl fun _ => .act rfl fun _ => rfl

theorem detaches_follows (reason : String) :
    (stages text valid).Follows (do detach reason; pure false) goesOn .serves :=
  (detach_follows reason).bind fun _ _ idle => idle

/-- The actions of the engine that keep it serving. -/
abbrev steady {β : Type} : MAct β → Bool
  | .takeReply _ | .refuse _ | .adopt _ | .expirePending _ | .expireReplies _ | .resolve _ _ => true
  | a => plain a

abbrev Steady {α : Type} (p : MProg α) : Prop :=
  Composed (fun _ a => steady a = true) (fun _ _ => False) p

theorem Steady.then {γ : Type} {f : α → MProg γ} {R : γ → Stage → Prop} (h : Steady p)
    (rest : ∀ value, (stages text valid).Follows (f value) R .serves) :
    (stages text valid).Follows (p.bind f) R .serves := by
  refine (Protocol.Follows.composed h fun β a steady => ?_).bind
    fun value _ same => same ▸ rest value
  cases a with
  | takeReply | refuse | adopt | expirePending | expireReplies | resolve =>
    exact ⟨rfl, fun _ => rfl⟩
  | register | removeReply | recv | beginEngine | setDetached | failPending | failReplies =>
    cases steady
  | _ => exact ⟨trivial, fun _ => rfl⟩

theorem drainCommand_steady (cmd : Command) : Steady (drainCommand cmd) := by
  cases cmd with
  | control frame => exact .step rfl fun _ => .ite (.pure _) (.perform rfl)
  | data frame => exact .step rfl fun _ => .ite (.pure _) (.perform rfl)
  | request rid frame timeout =>
    refine .next fun found => .step rfl fun room => .ite (.once) ?_
    exact .step rfl fun full => .ite (.once) (.next fun _ => .perform rfl)

theorem drainCommands_steady (commands : Nat) : Steady (drainCommands commands) := by
  induction commands with
  | zero => exact .blocked
  | succ commands ih =>
    refine .step rfl fun cmd => ?_
    cases cmd with
    | none => exact .pure _
    | some cmd => exact (drainCommand_steady cmd).bind fun _ => ih

theorem expire_steady : Steady expire := .step rfl fun _ => .next fun _ => .once

theorem serveMessage_steady (env : Json) : Steady (serveMessage valid env) :=
  .ite (.perform rfl) (.pure _)

theorem dispatch_steady (env : Json) : Steady (dispatch valid env) := by
  refine .step rfl fun _ => ?_
  cases requestIdOf env with
  | none => exact serveMessage_steady env
  | some rid =>
    refine .next fun resolved => .ite (.pure _) (.step rfl fun delivered => ?_)
    exact .ite (.pure _) (.ite (.pure _) (serveMessage_steady env))

theorem finishRound_follows : (stages text valid).Follows finishRound goesOn .serves := by
  refine .act trivial fun flushed => ?_
  cases flushed with
  | true => exact expire_steady.then fun _ => rfl
  | false => exact detaches_follows _

theorem readRound_follows :
    (stages text valid).Follows (readRound valid) goesOn .serves := by
  refine .act trivial fun polled => ?_
  cases polled with
  | false => exact detaches_follows _
  | true =>
    refine .act trivial fun read => ?_
    cases read with
    | error e => exact detaches_follows _
    | ok frames =>
      have dispatched : Steady (forEach frames (dispatch valid)) := .forEach frames dispatch_steady
      exact dispatched.then fun _ => finishRound_follows

theorem engineRound_follows (commands : Nat) :
    (stages text valid).Follows (engineRound valid commands) goesOn .serves := by
  refine .act trivial fun shutdown => ?_
  cases shutdown with
  | true => exact detaches_follows _
  | false =>
    refine (drainCommands_steady commands).then fun _ => expire_steady.then fun _ => ?_
    refine .act trivial fun _ => .act trivial fun silence => ?_
    cases silence with
    | detach => exact detaches_follows _
    | suspect => exact .act trivial fun _ => readRound_follows
    | short => exact readRound_follows

theorem engineLoop_follows (commands rounds : Nat) :
    (stages text valid).Follows (engineLoop valid commands rounds) (fun _ s => s = .idle)
      .serves := by
  induction rounds with
  | zero => trivial
  | succ rounds ih =>
    refine (engineRound_follows commands).bind fun goes s goesOn => ?_
    cases goes with
    | true => exact goesOn ▸ ih
    | false => exact goesOn

theorem code_follows (op : MOp) : (stages text valid).Follows ((mux text valid).code op)
    (fun _ => Stage.leaves) ((stages text valid).enter op) := by
  cases op with
  | request env timeout rounds =>
    exact (request_follows env timeout rounds).bind fun _ _ leaves => leaves
  | sendControl env => exact (sendFrame_plain ..).then fun _ => trivial
  | sendData env => exact (sendFrame_plain ..).then fun _ => trivial
  | engine commands rounds =>
    refine Protocol.Follows.bind (Q := fun _ s => s = .idle) ?_ fun _ s idle => idle ▸ trivial
    refine .act rfl fun _ => (engineLoop_follows commands rounds).bind fun _ s idle => ?_
    cases idle
    exact .act trivial fun _ => rfl
  | _ => exact .act trivial fun _ => trivial

/-! ### What holds of the session -/

/-- The flags of the session: only a detach sets its state, only a drain its mark. -/
structure Flags {β : Type} (a : MAct β) (s s' : Mux) : Prop where
  begun : s.begun = true → s'.begun = true
  detached : s'.state = .detached → s.state = .detached ∨ detaches a = true
  drained : s'.drained = true → s.drained = true ∨ drains a = true
  lasts : s.drained = true → s'.drained = true

theorem flags {s s' : Mux} (sem : a.sem s = some (b, s')) : Flags a s s' := by
  by_cases calm : touches a = false
  · have same := same_of_calm calm sem
    exact ⟨same.begun.trans, fun h => .inl (same.detached h), fun h => .inl (same.drained ▸ h),
      same.drained.trans⟩
  cases a with
  | removeReply | expireReplies | expirePending | failPending =>
    cases sem
    exact ⟨id, .inl, .inl, id⟩
  | setDetached =>
    cases sem
    exact ⟨id, fun _ => .inr rfl, .inl, id⟩
  | failReplies =>
    cases sem
    exact ⟨id, .inl, fun _ => .inr rfl, fun _ => rfl⟩
  | beginEngine =>
    simp only [MAct.sem] at sem
    split at sem <;> cases sem
    exact ⟨fun _ => rfl, .inl, .inl, id⟩
  | takeReply | refuse | adopt | resolve =>
    simp only [MAct.sem] at sem
    split at sem <;> cases sem <;> exact ⟨id, .inl, .inl, id⟩
  | register =>
    rcases register_cases sem with ⟨rfl, -⟩ | ⟨-, rfl⟩ <;> exact ⟨id, .inl, .inl, id⟩
  | _ => exact absurd rfl calm

/-- What a thread at its stage can rely on. -/
def Holds (j : Nat) (o : Obs (mux text valid)) : Stage → Prop
  | .idle => True
  | .asks large => ∃ env timeout rounds,
      inCall j o.trace = some (.request env timeout rounds) ∧ oversize text env = large
  | .waits rid channel => waits.During j (rid, channel) o.trace
  | .heavy rid channel => channel < o.mem.nextChannel ∧
      (o.mem.drained = true → (rid, channel) ∉ waitersOf o.mem.replies)
  | .serves | .closing => o.mem.begun = true ∧ o.mem.drained = false
  | .failing => (o.mem.begun = true ∧ o.mem.drained = false) ∧ o.mem.pending = .empty

structure Inv (st : Nat → Stage) (o : Obs (mux text valid)) : Prop where
  clean : Clean o.mem
  owned : ∀ j p, waits.During j p o.trace → o.mem.requestIds p.2 = p.1 ∧ p.2 < o.mem.nextChannel
  holds : ∀ j, Holds j o (st j)
  left : o.mem.drained = true → ∀ p ∈ waitersOf o.mem.replies, ∃ j, st j = .waits p.1 p.2
  emptied : o.mem.drained = true → o.mem.pending = .empty
  unbegun : o.mem.begun = false → o.mem.drained = false
  engine : ∀ i j, (st i).engine = true → (st j).engine = true → i = j
  detached : o.mem.state = .detached →
    o.mem.drained = true ∨ ∃ j, st j = .closing ∨ st j = .failing

variable {st : Nat → Stage}

theorem Holds.engine (h : Holds j o s) (own : s.engine = true) :
    o.mem.begun = true ∧ o.mem.drained = false := by
  cases s with
  | serves | closing => exact h
  | failing => exact h.1
  | _ => cases own

theorem engines_engine (allows : s.allows a) (own : engines a = true) : s.engine = true := by
  cases a with
  | takeReply | refuse | adopt | expirePending | resolve | failPending | failReplies =>
    cases allows
    rfl
  | _ => cases own

/-- A registration puts its waiter in under a new channel; nothing else enters the reply table. -/
theorem replies_step (sem : a.sem o.mem = some (b, mem)) :
    o.mem.nextChannel ≤ mem.nextChannel ∧ ∀ p ∈ waitersOf mem.replies,
      p ∈ waitersOf o.mem.replies ∨ o.mem.nextChannel ≤ p.2 := by
  cases old : registers a with
  | false =>
    have passed := passes old sem
    obtain ⟨told, reply, hands⟩ := passed.hands
    exact ⟨Nat.le_of_eq hands.next.symm, fun p there => .inl (passed.replies there)⟩
  | true =>
    cases a with
    | register rid timeout =>
      rcases register_cases sem with ⟨rfl, -⟩ | ⟨-, rfl⟩
      · exact ⟨Nat.le_refl _, fun p => .inl⟩
      · refine ⟨Nat.le_succ _, fun p there => ?_⟩
        rcases List.mem_cons.mp there with rfl | there
        · exact .inr (Nat.le_refl _)
        · exact .inl ((waitersOf_erase _ _).subset there)
    | _ => cases old

theorem drains_replies (sem : a.sem o.mem = some (b, mem)) (drains : drains a = true) :
    waitersOf mem.replies = [] := by
  cases a with
  | failReplies =>
    cases sem
    rfl
  | _ => cases drains

/-- Another thread's action leaves a thread what it relies on. -/
theorem Holds.kept (h : Holds j o s) (other : i ≠ j) (sem : a.sem o.mem = some (b, mem))
    (apart : s.engine = true → engines a = false) : Holds j (o.acted i a b mem) s := by
  have foreign : (Label.act i a b : Label (mux text valid)).thread ≠ some j := by
    simpa [Label.thread] using other
  have engine : s.engine = true → mem.begun = true ∧ mem.drained = false := by
    intro own
    obtain ⟨begun, drained⟩ := h.engine own
    exact ⟨(flags sem).begun begun, (engine_tables (apart own) sem).2.2.trans drained⟩
  cases s with
  | idle => trivial
  | asks large => exact h
  | waits rid channel => exact (Mark.during_foreign foreign).mpr h
  | heavy rid channel =>
    obtain ⟨next, enters⟩ := replies_step sem
    refine ⟨Nat.lt_of_lt_of_le h.1 next, fun drained there => ?_⟩
    rcases (flags sem).drained drained with before | drains
    · rcases enters _ there with old | fresh
      · exact h.2 before old
      · exact Nat.not_le_of_lt h.1 fresh
    · exact List.not_mem_nil (drains_replies sem drains ▸ there)
  | serves | closing => exact engine rfl
  | failing => exact ⟨engine rfl, (engine_tables (apart rfl) sem).1.trans h.2⟩

/-- A thread's own action that touches no table leaves it what it relies on. -/
theorem Holds.calm (h : Holds i o s) (calm : touches a = false)
    (sem : a.sem o.mem = some (b, mem)) :
    Holds i (o.acted i a b mem) s := by
  have same := same_of_calm calm sem
  have engine : o.mem.begun = true ∧ o.mem.drained = false →
      mem.begun = true ∧ mem.drained = false :=
    fun h => ⟨same.begun.trans h.1, same.drained.trans h.2⟩
  cases s with
  | idle => trivial
  | asks large => exact h
  | waits rid channel => exact Mark.ever_during h
  | heavy rid channel =>
    change channel < mem.nextChannel ∧ (mem.drained = true → (rid, channel) ∉ waitersOf mem.replies)
    rw [same.next, same.drained, same.replies]
    exact h
  | serves | closing => exact engine h
  | failing => exact ⟨engine h.1, same.pending.trans h.2⟩

/-- The engine at work leaves the session begun and not drained. -/
theorem Inv.serving (inv : Inv st o) (own : (st i).engine = true) (undrained : drains a = false)
    (sem : a.sem o.mem = some (b, mem)) : mem.begun = true ∧ mem.drained = false := by
  obtain ⟨begun, drained⟩ := (inv.holds i).engine own
  refine ⟨(flags sem).begun begun, Bool.eq_false_iff.mpr fun after => ?_⟩
  rcases (flags sem).drained after with before | drains
  · simp [drained] at before
  · simp [undrained] at drains

theorem holds_step (inv : Inv st o) (allows : (st i).allows a) (sem : a.sem o.mem = some (b, mem))
    (ok : timely o (.act i a b)) : Holds i (o.acted i a b mem) ((st i).next a b) := by
  have holds := inv.holds i
  cases a with
  | register rid timeout =>
    obtain ⟨large, asks⟩ := allows
    rw [asks] at holds ⊢
    obtain ⟨env, timeout', rounds, call, large⟩ := holds
    rcases register_cases sem with ⟨rfl, e, rfl⟩ | ⟨rfl, rfl⟩
    · trivial
    · rename_i size
      cases size with
      | true =>
        refine ⟨Nat.lt_succ_self _, fun drained => ?_⟩
        have before : o.mem.drained = true := drained
        simp [ok env timeout' rounds call large] at before
      | false => exact Mark.during_own.mpr (.inl ⟨rfl, rfl⟩)
  | recv channel =>
    cases b with
    | message reply => trivial
    | _ => exact holds.calm rfl sem
  | beginEngine =>
    simp only [MAct.sem] at sem
    split at sem
    · cases sem
    next unbegun =>
      cases sem
      exact ⟨rfl, inv.unbegun (Bool.eq_false_iff.mpr unbegun)⟩
  | setDetached => exact inv.serving (by rw [allows]; rfl) rfl sem
  | takeReply | refuse | adopt | expirePending | expireReplies | resolve =>
    have served := inv.serving (by rw [allows]; rfl) rfl sem
    change Holds i _ (st i)
    rw [allows]
    exact served
  | failPending =>
    have served := inv.serving (by rw [allows]; rfl) rfl sem
    cases sem
    exact ⟨served, rfl⟩
  | removeReply | failReplies => trivial
  | _ => exact holds.calm rfl sem

/-- A caller waits on, unless its waiter is gone. -/
theorem waits_step (clean : Clean o.mem) (allows : (Stage.waits rid channel).allows a)
    (sem : a.sem o.mem = some (b, mem)) : (Stage.waits rid channel).next a b = .waits rid channel ∨
      (rid, channel) ∉ waitersOf mem.replies := by
  cases a with
  | removeReply =>
    obtain ⟨_, same⟩ := allows
    cases same
    cases sem
    exact .inr (waitersOf_absent _ _ _)
  | recv =>
    obtain ⟨_, same⟩ := allows
    cases same
    simp only [MAct.sem] at sem
    split at sem
    next reply rest sent =>
      cases sem
      refine .inr fun there => ?_
      rw [clean.silent (rid, channel)
        (List.mem_append_left _ (List.mem_append_left _ there))] at sent
      cases sent
    next =>
      cases sem
      split <;> exact .inl rfl
  | register =>
    obtain ⟨_, same⟩ := allows
    cases same
  | beginEngine | takeReply | refuse | adopt | expirePending | expireReplies | resolve | setDetached
  | failPending | failReplies => cases allows
  | _ => exact .inl rfl

/-- Who becomes the engine finds the session not begun. -/
theorem next_engine (allows : s.allows a) (sem : a.sem o.mem = some (b, mem))
    (begins : (s.next a b).engine = true) : s.engine = true ∨ o.mem.begun = false := by
  cases a with
  | beginEngine =>
    simp only [MAct.sem] at sem
    split at sem
    · cases sem
    next unbegun => exact .inr (Bool.eq_false_iff.mpr unbegun)
  | register =>
    cases b with
    | error => cases begins
    | ok =>
      simp only [Stage.next] at begins
      split at begins <;> cases begins
  | removeReply | failReplies => cases begins
  | recv =>
    cases b with
    | message => cases begins
    | _ => exact .inl begins
  | setDetached | failPending => exact .inl (by rw [allows]; rfl)
  | _ => exact .inl begins

/-- A detaching engine goes on to the end. -/
theorem closing_step (closes : s = .closing ∨ s = .failing) (allows : s.allows a)
    (sem : a.sem o.mem = some (b, mem)) :
    mem.drained = true ∨ s.next a b = .closing ∨ s.next a b = .failing := by
  cases a with
  | failPending => exact .inr (.inr rfl)
  | failReplies =>
    cases sem
    exact .inl rfl
  | register | removeReply | recv =>
    obtain ⟨_, rfl⟩ := allows
    rcases closes with other | other <;> cases other
  | beginEngine | takeReply | refuse | adopt | expirePending | expireReplies | resolve
  | setDetached => rcases closes with rfl | rfl <;> cases allows
  | _ => exact .inr closes

section Step

variable (inv : Inv st o) (allows : (st i).allows a) (sem : a.sem o.mem = some (b, mem))

include inv allows sem

theorem left_step (ok : timely o (.act i a b)) (drained : mem.drained = true) (p : String × Nat)
    (there : p ∈ waitersOf mem.replies) :
    ∃ j, update st i ((st i).next a b) j = .waits p.1 p.2 := by
  rcases (flags sem).drained drained with before | drains
  swap
  · exact absurd there (drains_replies sem drains ▸ List.not_mem_nil)
  have kept : p ∈ waitersOf o.mem.replies →
      ∃ j, update st i ((st i).next a b) j = .waits p.1 p.2 := by
    intro old
    obtain ⟨j, waits⟩ := inv.left before p old
    refine ⟨j, ?_⟩
    by_cases own : j = i
    · subst own
      rw [waits] at allows
      rw [update_self, waits]
      exact (waits_step inv.clean allows sem).resolve_right fun gone => gone there
    · rwa [update_of_ne own]
  cases old : registers a with
  | false => exact kept ((passes old sem).replies there)
  | true =>
    cases a with
    | register rid timeout =>
      rcases register_cases sem with ⟨rfl, -⟩ | ⟨rfl, rfl⟩
      · exact kept there
      · rcases List.mem_cons.mp there with rfl | there
        · obtain ⟨large, asks⟩ := allows
          have holds := inv.holds i
          rw [asks] at holds
          obtain ⟨env, timeout', rounds, call, size⟩ := holds
          have small : large ≠ true := fun same => by
            simp [ok env timeout' rounds call (size.trans same)] at before
          refine ⟨i, ?_⟩
          rw [update_self, asks]
          exact if_neg fun same => small (Stage.asks.inj same)
        · exact kept ((waitersOf_erase _ _).subset there)
    | _ => cases old

theorem emptied_step (drained : mem.drained = true) : mem.pending = .empty := by
  cases own : engines a with
  | false =>
    obtain ⟨pending, -, same⟩ := engine_tables own sem
    exact pending.trans (inv.emptied (same ▸ drained))
  | true =>
    cases drains : drains a with
    | false => simp [(inv.serving (engines_engine allows own) drains sem).2] at drained
    | true =>
      cases a with
      | failReplies =>
        have failing := inv.holds i
        rw [allows] at failing
        cases sem
        exact failing.2
      | _ => cases drains

theorem unbegun_step (unbegun : mem.begun = false) : mem.drained = false := by
  cases before : o.mem.begun with
  | true => simp [(flags sem).begun before] at unbegun
  | false =>
    cases own : engines a with
    | false => exact (engine_tables own sem).2.2.trans (inv.unbegun before)
    | true => simp [((inv.holds i).engine (engines_engine allows own)).1] at before

/-- There is one engine. -/
theorem engine_step (j k : Nat)
    (hj : (update st i ((st i).next a b) j).engine = true)
    (hk : (update st i ((st i).next a b) k).engine = true) : j = k := by
  have before : ∀ j, (update st i ((st i).next a b) j).engine = true →
      (st j).engine = true ∨ (j = i ∧ o.mem.begun = false) := by
    intro j h
    by_cases own : j = i
    · subst own
      rw [update_self] at h
      exact (next_engine allows sem h).imp_right fun unbegun => ⟨rfl, unbegun⟩
    · rw [update_of_ne own] at h
      exact .inl h
  have first : ∀ j, (st j).engine = true → o.mem.begun ≠ false := fun j engine unbegun => by
    simp [((inv.holds j).engine engine).1] at unbegun
  rcases before j hj with ej | ⟨rfl, unbegun⟩
  · rcases before k hk with ek | ⟨-, unbegun⟩
    · exact inv.engine j k ej ek
    · exact absurd unbegun (first j ej)
  · rcases before k hk with ek | ⟨rfl, -⟩
    · exact absurd unbegun (first k ek)
    · rfl

theorem detached_step (detached : mem.state = .detached) : mem.drained = true ∨
    ∃ j, update st i ((st i).next a b) j = .closing ∨
      update st i ((st i).next a b) j = .failing := by
  rcases (flags sem).detached detached with before | detaches
  · rcases inv.detached before with drained | ⟨j, closes⟩
    · exact .inl ((flags sem).lasts drained)
    · by_cases own : j = i
      · subst own
        refine (closing_step closes allows sem).imp_right fun next => ⟨j, ?_⟩
        rwa [update_self]
      · exact .inr ⟨j, by rwa [update_of_ne own]⟩
  · cases a with
    | setDetached => exact .inr ⟨i, .inl (update_self ..)⟩
    | _ => cases detaches

end Step

theorem owned_step (inv : Inv st o) (sem : a.sem o.mem = some (b, mem)) (j : Nat) (p : String × Nat)
    (during : waits.During j p (Label.act (M := mux text valid) i a b :: o.trace)) :
    mem.requestIds p.2 = p.1 ∧ p.2 < mem.nextChannel := by
  cases old : registers a with
  | false =>
    obtain ⟨told, reply, hands⟩ := (passes old sem).hands
    rw [hands.requestIds, hands.next]
    refine inv.owned j p ((Mark.during_quiet (fun sets => ?_) id).mp during)
    cases a with
    | register => cases old
    | _ => exact sets
  | true =>
    cases a with
    | register rid timeout =>
      rcases register_cases sem with ⟨rfl, e, rfl⟩ | ⟨rfl, rfl⟩
      · rcases Mark.during_act.mp during with ⟨-, sets⟩ | ⟨before, -⟩
        · cases sets.1
        · exact inv.owned j p before
      · rcases Mark.during_act.mp during with ⟨-, sets⟩ | ⟨before, -⟩
        · obtain ⟨rid', channel⟩ := p
          obtain ⟨same, rfl⟩ := sets
          cases same
          exact ⟨update_self .., Nat.lt_succ_self _⟩
        · obtain ⟨key, issued⟩ := inv.owned j p before
          exact ⟨(update_of_ne (Nat.ne_of_lt issued) ..).trans key,
            Nat.lt_succ_of_lt issued⟩
    | _ => cases old

theorem Inv.act (inv : Inv st o) (allows : (st i).allows a) (sem : a.sem o.mem = some (b, mem))
    (ok : timely o (.act i a b)) :
    Inv (update st i ((st i).next a b)) (o.acted i a b mem) where
  clean := clean_step inv.clean sem
  owned := owned_step inv sem
  holds j := by
    by_cases own : j = i
    · subst own
      rw [update_self]
      exact holds_step inv allows sem ok
    · rw [update_of_ne own]
      refine (inv.holds j).kept (Ne.symm own) sem fun engine => Bool.eq_false_iff.mpr fun mine => ?_
      exact own (inv.engine j i engine (engines_engine allows mine))
  left := left_step inv allows sem ok
  emptied := emptied_step inv allows sem
  unbegun := unbegun_step inv allows sem
  engine := engine_step inv allows sem
  detached := detached_step inv allows sem

/-- An operation starts or returns: its thread moves between stages at which it owes nothing. -/
theorem Inv.log (inv : Inv st o) (own : label.thread = some i) {next : Stage}
    (before : (st i).leaves) (after : next.leaves) (holds : Holds i (o.log label) next)
    (marks : ∀ j p, waits.During j p (label :: o.trace) → waits.During j p o.trace) :
    Inv (update st i next) (o.log label) := by
  have stays : ∀ {j s}, st j = s → ¬ s.leaves → update st i next j = s := by
    rintro j s rfl owes
    refine update_of_ne (fun same => ?_) ..
    exact owes (same ▸ before)
  have engine : ∀ j, (update st i next j).engine = true → (st j).engine = true := by
    intro j engine
    by_cases same : j = i
    · subst same
      rw [update_self] at engine
      cases next with
      | idle | asks | waits | heavy => cases engine
      | serves | closing | failing => exact after.elim
    · rwa [update_of_ne same] at engine
  refine ⟨inv.clean, fun j p during => inv.owned j p (marks j p during), fun j => ?_, ?_,
    inv.emptied, inv.unbegun, ?_, ?_⟩
  · by_cases same : j = i
    · subst same
      rwa [update_self]
    · have foreign : label.thread ≠ some j := by
        rw [own]
        simpa using Ne.symm same
      have there := inv.holds j
      rw [update_of_ne same]
      cases stage : st j with
      | asks large =>
        rw [stage] at there
        simpa only [Holds, Obs.log, inCall_foreign foreign] using there
      | waits rid channel =>
        rw [stage] at there
        exact (Mark.during_foreign foreign).mpr there
      | _ =>
        rw [stage] at there
        exact there
  · intro drained p there
    obtain ⟨j, waits⟩ := inv.left drained p there
    exact ⟨j, stays waits id⟩
  · exact fun j k hj hk => inv.engine j k (engine j hj) (engine k hk)
  · intro detached
    refine (inv.detached detached).imp_right fun ⟨j, closes⟩ => ⟨j, ?_⟩
    exact closes.imp (fun closing => stays closing id) fun failing => stays failing id

theorem preserved : (stages text valid).Preserved timely Inv where
  start {st o i op} _ inv idle _ := by
    refine inv.log rfl (by rw [idle]; trivial) ?_ ?_ fun j p during => during.1
    · cases op <;> trivial
    · cases op with
      | request env timeout rounds => exact ⟨env, timeout, rounds, if_pos rfl, rfl⟩
      | _ => trivial
  act _ inv allows sem ok := inv.act allows sem ok
  done _ inv leaves _ := inv.log rfl leaves trivial trivial fun j p during => during.1
  env inv _ := ⟨⟨inv.clean.distinct, inv.clean.issued, inv.clean.keyed, inv.clean.unborn,
    inv.clean.silent, inv.clean.once⟩, inv.owned, inv.holds, inv.left, inv.emptied, inv.unbegun,
    inv.engine, inv.detached⟩

theorem spawned (limits : SessionLimits) (outside : Outside) :
    Inv (fun _ => .idle) (⟨.spawn limits outside, []⟩ : Obs (mux text valid)) where
  clean := ⟨List.nodup_nil, nofun, nofun, fun _ _ => rfl, nofun, fun _ => Nat.zero_le _⟩
  owned _ _ during := during.elim
  holds _ := trivial
  left drained := nomatch drained
  emptied drained := nomatch drained
  unbegun _ := rfl
  engine _ _ engine := nomatch engine
  detached state := nomatch state

/-- In every run in which no request that is too large comes after the reply table was emptied:
no request is answered twice; a frame whose request id nobody waits under answers no request that
waits; and once the session has detached, the engine's table is empty, a waiter in the reply table
belongs to a request that has yet to return, and when all have returned both are empty. -/
theorem requests_answered_once {limits : SessionLimits} {outside : Outside}
    {c : Config (mux text valid)} (run : Run timely (.boot (.spawn limits outside)) c) :
    (∀ channel, (c.mem.channels channel).length ≤ 1) ∧
    (∀ i rid env found c', Step c (.act i (.resolve rid env) found) c' →
      (∀ j channel, ¬ waits.During j (rid, channel) c.trace) →
      ∀ j p, waits.During j p c.trace → c'.mem.channels p.2 = c.mem.channels p.2) ∧
    (c.mem.drained = true → c.mem.pending = .empty ∧
      ∀ rid waiter, c.mem.replies.get rid = some waiter →
        ∃ j, c.threads j ≠ none ∧ waits.During j (rid, waiter.channel) c.trace) ∧
    (c.mem.state = .detached → c.Quiescent →
      c.mem.replies = .empty ∧ c.mem.pending = .empty) := by
  obtain ⟨st, -, inv, tracks⟩ := preserved.run code_follows (spawned limits outside) run
  have busy : ∀ {j s}, st j = s → s ≠ .idle → c.threads j ≠ none := by
    rintro j s rfl busy none
    exact busy (tracks.idle j none)
  refine ⟨inv.clean.once, ?_, ?_, ?_⟩
  · intro i rid env found c' step absent j p during
    cases step with
    | @act _ _ _ _ _ _ mem running enabled =>
      by_contra changed
      have sem : (MAct.resolve rid env).sem c.mem = some (found, mem) := enabled
      have key := resolve_keyed inv.clean sem changed
      rw [(inv.owned j p during).1] at key
      exact absent j p.2 (key ▸ during)
  · intro drained
    refine ⟨inv.emptied drained, fun rid waiter there => ?_⟩
    obtain ⟨j, waits⟩ := inv.left drained _ (waitersOf_mem there)
    have during := inv.holds j
    rw [waits] at during
    exact ⟨j, busy waits nofun, during⟩
  · intro state quiet
    have drained : c.mem.drained = true := by
      refine (inv.detached state).resolve_right fun ⟨j, closes⟩ => ?_
      rcases closes with closing | failing
      · exact busy closing nofun (quiet j)
      · exact busy failing nofun (quiet j)
    refine ⟨waitersOf_eq_nil (List.eq_nil_iff_forall_not_mem.mpr fun p there => ?_),
      inv.emptied drained⟩
    obtain ⟨j, waits⟩ := inv.left drained p there
    exact busy waits nofun (quiet j)

/-! ### Two runs -/

/-- Nothing arrives and nothing is late. -/
def still : Outside where
  now := 0
  cancelled _ := false
  waited _ := false
  heartbeat := none
  silence := .short
  polls := true
  frames := .ok []
  flushes := true

/-- A check for schedules that make no request after the reply table was emptied. -/
def prompt (o : Obs (mux text valid)) : Label (mux text valid) → Bool
  | .act _ (.register _ _) _ => !o.mem.drained
  | _ => true

theorem timely_of_prompt (h : prompt o label = true) :
    timely o label := by
  cases label with
  | act i a reply =>
    cases a with
    | register rid timeout => exact fun _ _ _ _ _ => by simpa [prompt] using h
    | _ => exact trivial
  | _ => exact trivial

def ping : Json := .obj [("request_id", .str "r"), ("type", .str "op.query")]

def pong : Json := .obj [("request_id", .str "r"), ("type", .str "op.result")]

/-- A request is answered by the frame that carries its id, and the session then shuts down. -/
theorem answered_then_detached : ∃ c : Config (mux CompactJson.compact fun _ => true),
    Run timely (.boot (.spawn {} still)) c ∧ c.Quiescent ∧ c.mem.state = .detached ∧
      (c.mem.channels 0).length = 1 ∧ c.mem.replies = .empty ∧ c.mem.pending = .empty := by
  obtain ⟨c, run, quiet, detached, once⟩ := Config.plays (.spawn {} still) prompt
    (P := fun c : Config (mux CompactJson.compact fun _ => true) =>
      c.mem.state = .detached ∧ (c.mem.channels 0).length = 1) (fun _ _ => timely_of_prompt) 200 3
    [.start 0 (.engine 3 3), .steps 0 1, .start 1 (.request ping 10 2), .steps 1 4,
      .env { still with frames := .ok [pong, pong] }, .steps 0 18, .start 2 .shutdown, .finish 2,
      .finish 0, .finish 1] (by decide +kernel)
  have empty := (requests_answered_once run).2.2.2 detached quiet
  exact ⟨c, run, quiet, detached, once, empty.1, empty.2⟩

/-- A request with a text of `n` letters. -/
def bulky (n : Nat) : Json :=
  .obj [("body", .str (String.ofList (List.replicate n 'a'))), ("request_id", .str "r")]

theorem bulky_named (n : Nat) : requestIdOf (bulky n) = some "r" := rfl

theorem length_le_payload (cs : List Char) :
    cs.length ≤ (String.ofList cs).toUTF8.data.toList.length := by
  change cs.length ≤ cs.utf8Encode.size
  induction cs with
  | nil => exact Nat.zero_le _
  | cons c cs ih =>
    have first : 0 < [c].utf8Encode.size := by
      simpa [List.utf8Encode] using Char.utf8Size_pos c
    rw [List.utf8Encode_cons, ByteArray.size_append, List.length_cons]
    omega

theorem bulky_oversize {n : Nat} (h : HostReader.defaultMaxFrame < n) :
    ∃ e, encodeFrame CompactJson.compact (bulky n) = .error e := by
  have quoted : ∀ k, (CompactJson.quoted (String.ofList (List.replicate k 'a'))).length =
      k + 2 := by
    intro k
    have plain : CompactJson.escape 'a' = ['a'] := by decide
    simp [CompactJson.quoted, plain]
  have long : n ≤ (payloadOf CompactJson.compact (bulky n)).length := by
    refine Nat.le_trans ?_ (length_le_payload _)
    simp only [bulky, CompactJson.print, CompactJson.print.printFields, List.length_cons,
      List.length_append, quoted]
    omega
  unfold encodeFrame HostReader.encode
  rw [if_pos (Nat.lt_of_lt_of_le h long)]
  exact ⟨_, rfl⟩

/-- A request that is too large does nothing once it is registered. -/
theorem request_oversize {e : String} (named : requestIdOf env = some rid)
    (large : encodeFrame text env = .error e) (timeout rounds : Nat) :
    request text env timeout rounds =
      .act (.register rid timeout) fun reply => .pure (reply.bind fun _ => .error e) := by
  unfold request
  rw [named]
  refine congrArg (Prog.act (MAct.register rid timeout)) (funext fun reply => ?_)
  cases reply with
  | error why => rfl
  | ok channel =>
    change sendRequest text rid channel env timeout rounds = .pure (.error e)
    unfold sendRequest
    rw [large]
    rfl

/-- A request over the limit, made after the session has detached, leaves its waiter behind. -/
theorem oversize_request_leaves_waiter : ∃ c : Config (mux CompactJson.compact fun _ => true),
    Run (fun _ _ => True) (.boot (.spawn {} still)) c ∧ c.Quiescent ∧ c.mem.state = .detached ∧
      c.mem.gone = true ∧ (c.mem.replies.get "r").isSome = true := by
  obtain ⟨c, run, idle, detached, gone, empty, limit⟩ := Config.plays_freely
    (P := fun c : Config (mux CompactJson.compact fun _ => true) => c.mem.state = .detached ∧
      c.mem.gone = true ∧ c.mem.replies.entries.length = 0 ∧ c.mem.limits.maxPending = 256)
    (m := .spawn {} still) 50 1
    [.start 0 .shutdown, .finish 0, .start 0 (.engine 1 1), .finish 0] (by decide +kernel)
  obtain ⟨e, large⟩ := bulky_oversize (Nat.lt_succ_self HostReader.defaultMaxFrame)
  let left (s : Mux) : Prop :=
    s.state = .detached ∧ s.gone = true ∧ (s.replies.get "r").isSome = true
  have room : ¬ c.mem.limits.maxPending ≤ c.mem.replies.size := by
    rw [Table.size, empty, limit]
    decide
  have free : (c.mem.replies.get "r").isSome = false := by
    rw [Table.get, List.length_eq_zero_iff.mp empty]
    rfl
  have registers : (MAct.register "r" 10).sem c.mem =
      some (.ok c.mem.nextChannel, registered c.mem "r" 10) := by
    simp only [MAct.sem, if_neg room, free]
    rfl
  have leaves : left (registered c.mem "r" 10) :=
    ⟨detached, gone, by simp [registered, Table.put_get]⟩
  have may : (mux CompactJson.compact fun _ => true).May left ((mux CompactJson.compact
      fun _ => true).code (.request (bulky (HostReader.defaultMaxFrame + 1)) 10 1)) c.mem := by
    simp only [mux, request_oversize (bulky_named _) large]
    exact .act registers (.done leaves)
  obtain ⟨c', more, leaves', threads⟩ := may.call (idle 0)
  refine ⟨c', run.trans more, fun j => ?_, leaves'⟩
  rw [threads]
  exact idle j

end MatrixRuntime.RequestRuns
