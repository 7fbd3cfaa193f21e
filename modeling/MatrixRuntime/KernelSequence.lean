import MatrixRuntime.KernelOperations
import MatrixRuntime.SequentialRuns

/-! The kernel with one operation at a time. The clock and the ability to start threads are
forgotten: a reading of the clock or an attempt to start a thread may come out either way, and a
bounded wait ends with what it waited for or without it. Every other action is a function of the
tables. -/

namespace MatrixRuntime.KernelSequence

open KernelContexts KernelTickets KernelState InterleavedProgram KernelActions KernelOperations
open SequentialRuns SequentialRuns.Reading

/-- The state at no particular time. -/
def timeless (s : KState) : KState := { s with clock := 0, spawnOk := true }

/-- Actions whose outcome depends on the environment. -/
def timed {β : Type} : KAct β → Bool
  | .now | .spawn | .awaitSettled _ _ => true
  | _ => false

def may {β : Type} (a : KAct β) (s : KState) (b : β) (s' : KState) : Prop :=
  if timed a then s' = s else a.sem s = some (b, s')

variable {s' : KState}

theorem sem_timeless {β : Type} {a : KAct β} {s : KState} {b : β} (h : a.sem s = some (b, s')) :
    may a (timeless s) b (timeless s') := by
  cases a with
  | now | spawn =>
    cases h
    rfl
  | awaitSettled inst instant =>
    simp only [KAct.sem] at h
    split_ifs at h <;>
    · cases h
      rfl
  | lockAdmit =>
    simp only [KAct.sem] at h
    split_ifs at h with held
    cases h
    simp [may, timed, KAct.sem, timeless, held]
  | grant a => cases a <;> cases h <;> rfl
  | _ =>
    cases h
    rfl

/-- Where contexts may be created and claimed for disposal, and where the state of a ticket may
be overwritten. -/
structure Rules where
  create : String → KState → Prop
  claim : InstanceId → KState → Prop
  write : TicketId → KState → Prop

namespace Rules

variable {β : Type}

def none : Rules := ⟨fun _ _ => True, fun _ _ => True, fun _ _ => True⟩

def ctx (rules : Rules) : ContextAct β → KState → Prop
  | .create l _ _, s => rules.create l s
  | .claimDispose inst, s => rules.claim inst s
  | _, _ => True

def calls (rules : Rules) : TicketAct β → KState → Prop
  | .setState id _, s => rules.write id s
  | _, _ => True

def allow (rules : Rules) : KAct β → KState → Prop
  | .ctx a, s => rules.ctx a s
  | .calls a, s => rules.calls a s
  | _, _ => True

end Rules

def reading (depth : Nat) (rules : Rules) : Reading (kernel depth) KState where
  view := timeless
  may := may
  sound h := sem_timeless h
  env event s := by cases event <;> rfl
  safe := rules.allow

variable {depth : Nat} {rules : Rules} {β : Type} {s : KState} {Q : β → KState → Prop}

theorem after_step {a : KAct β} {b : β} (calm : timed a = false) (sem : a.sem s = some (b, s')) :
    (reading depth rules).After (perform a) Q s ↔ rules.allow a s ∧ Q b s' := by
  have step : ∀ reply t, (reading depth rules).may a s reply t ↔ reply = b ∧ t = s' := by
    intro reply t
    simp [reading, may, calm, sem, eq_comm]
  have safe : (reading depth rules).safe a s ↔ rules.allow a s := Iff.rfl
  simp [perform, after_act, step, safe]

theorem after_plain {a : KAct β} {b : β} (calm : timed a = false) (sem : a.sem s = some (b, s'))
    (free : rules.allow a s) :
    (reading depth rules).After (perform a) Q s ↔ Q b s' :=
  (after_step calm sem).trans (and_iff_right free)

@[simp] theorem after_ctx (a : ContextAct β) {Q : β → KState → Prop} :
    (reading depth rules).After (ctx a) Q s ↔
      rules.ctx a s ∧ Q (a.run s.contexts).1 { s with contexts := (a.run s.contexts).2 } :=
  after_step rfl rfl

@[simp] theorem after_calls (a : TicketAct β) {Q : β → KState → Prop} :
    (reading depth rules).After (calls a) Q s ↔
      rules.calls a s ∧ Q (a.run s.calls).1 { s with calls := (a.run s.calls).2 } :=
  after_step rfl rfl

@[simp] theorem after_res (a : ResourceAct β) {Q : β → KState → Prop} :
    (reading depth rules).After (res a) Q s ↔
      Q (a.run s.resources).1 { s with resources := (a.run s.resources).2 } :=
  after_plain rfl rfl trivial

@[simp] theorem after_comp (a : ComposeAct β) {Q : β → KState → Prop} :
    (reading depth rules).After (comp a) Q s ↔
      Q (a.run s.composition).1 { s with composition := (a.run s.composition).2 } :=
  after_plain rfl rfl trivial

@[simp] theorem after_grant (a : GrantAct β) {Q : β → KState → Prop} :
    (reading depth rules).After (perform (.grant a)) Q s ↔ Q (a.run s).1 (a.run s).2 :=
  after_plain rfl rfl trivial

@[simp] theorem after_journal (fiber : String) (kind : JournalKind) (subject : Nat)
    (reason : String) {Q : Unit → KState → Prop} :
    (reading depth rules).After (journal fiber kind subject reason) Q s ↔
      Q () { s with journal := s.journal ++ [⟨fiber, kind, subject, reason⟩] } :=
  after_plain rfl rfl trivial

@[simp] theorem after_emit (event : LifecycleEvent) {Q : Unit → KState → Prop} :
    (reading depth rules).After (perform (.emit event)) Q s ↔
      Q () { s with outbox := s.outbox ++ [event] } := after_plain rfl rfl trivial

theorem after_timed {a : KAct β} (h : timed a = true) (free : rules.allow a s) :
    (reading depth rules).After (perform a) Q s ↔ ∀ b, Q b s := by
  have step : ∀ reply t, (reading depth rules).may a s reply t ↔ t = s := by
    intro reply t
    simp [reading, may, h]
  have allowed : (reading depth rules).safe a s := free
  simp [perform, after_act, step, allowed]

@[simp] theorem after_now {Q : Nat → KState → Prop} :
    (reading depth rules).After (perform .now) Q s ↔ ∀ now, Q now s := after_timed rfl trivial

end MatrixRuntime.KernelSequence
