import MatrixRuntime.TicketOutcomes

/-! What the consumer of a dependency call is told. The dispatcher has the kernel accept the
provider's result and passes on what the kernel says; a child whose effect is already committed is
not admitted any more, and the acceptance takes that for a revocation. -/

namespace MatrixRuntime.DependencyResults

open JsonValue KernelContexts KernelTickets KernelState KernelActions KernelReconcile KernelCalls
open DependencyAdmission KernelOperations InterleavedProgram InterleavedMachine SequentialRuns
open SequentialRuns.Reading KernelSequence TicketFrame CallFrame TicketOutcomes

/-! ### The dispatcher -/

/-- What arrives from the provider: a result or a business error, an error of the call or of its
session, or nothing any more. -/
inductive ProviderReply where
  | result
  | failure (code : String)
  | callError (code : String)
  | gone
  deriving DecidableEq, Repr

/-- What the consumer gets: the output, or an error with its code. -/
inductive Terminal where
  | output
  | error (code : Code)
  deriving DecidableEq, Repr

/-- The terminal for a result that was put to the kernel. -/
def acceptedTerminal (success : Terminal) : Except DepDeny Unit → Terminal
  | .ok () => success
  | .error deny => .error deny.code

/-- `run_dep_open` once the provider's reply is there; `charged` says whether the payload fits the
quota of the consumer's session. The answer of the acceptance, if there was one, and the
terminal. -/
def settleReply (child : TicketId) (charged : Bool) :
    ProviderReply → KProg (Option (Except DepDeny Unit) × Terminal)
  | .result =>
    if charged then do
      let accepted ← dependencyAccept child
      pure (some accepted, acceptedTerminal .output accepted)
    else pure (none, .error .resourceExhausted)
  | .failure code =>
    if charged then do
      let accepted ← dependencyAccept child
      pure (some accepted, acceptedTerminal (.error (.foreign code)) accepted)
    else pure (none, .error .resourceExhausted)
  | .callError code => pure (none, .error (.foreign code))
  | .gone => pure (none, .error .outcomeUnknown)

/-- The terminal of a child whose state the dispatcher sees while it waits. -/
def polledTerminal : TicketState → Option Terminal
  | .cancelled => some (.error .cancelled)
  | .expired => some (.error .deadlineExceeded)
  | _ => none

/-- Codes that say the call was cancelled, or refused and therefore not executed. -/
def deniesExecution (code : Code) : Bool :=
  code.asStr ∈ ["cancelled", "permission-denied", "stale-generation", "context-not-active",
    "dependency-unavailable", "resource-exhausted", "invalid-parent"]

def Terminal.denies : Terminal → Bool
  | .output => false
  | .error code => deniesExecution code

/-- The acceptance reports the child as cancelled. -/
def reportsCancelled : Option (Except DepDeny Unit) → Bool
  | some (.error deny) => deny.code = .cancelled
  | _ => false

/-! ### What the acceptance of an ended child reports -/

def deadlineOver (s : KState) (t : TicketRecord) : Bool :=
  t.drainUntil.any fun instant => decide (instant ≤ s.clock)

/-- The consumer is active and current. -/
def consumerServes (s : KState) (consumer : InstanceId) : Bool :=
  (s.contexts.byInstance consumer).any fun rec => decide (rec.state.canonical = .active) &&
    (s.contexts.current rec.logical).any fun cur => decide (cur.instanceId = consumer)

/-- What the chain of a child is refused for, if it is. -/
def chainFault (s : KState) (t : TicketRecord) (dep : DepChild) : Option Code :=
  if deadlineOver s t then some .deadlineExceeded
  else if !(s.calls.get dep.parent).any (·.isOpen) then some .cancelled
  else if !consumerServes s dep.consumer then some .staleGeneration
  else if s.grants (dep.grantConsumer, dep.grantCap) ≠ some dep.grantRev then some .permissionDenied
  else none

def faultCode : Except ErrorValue Unit → Option Code
  | .ok _ => none
  | .error e => some e.code

variable {depth : Nat} {s : KState} {child : TicketId} {t : TicketRecord} {dep : DepChild}

theorem deadlinePassed_alone :
    alone (kernel depth) (deadlinePassed t) s = some (deadlineOver s t, s) := by
  unfold deadlinePassed deadlineOver
  cases t.drainUntil <;> rfl

theorem consumerCurrent_alone (consumer : InstanceId) :
    alone (kernel depth) (consumerCurrent consumer) s = some (consumerServes s consumer, s) := by
  have look : alone (kernel depth) (ctx (.get consumer)) s =
      some (s.contexts.byInstance consumer, s) := rfl
  simp only [consumerCurrent, consumerServes, Prog.bind_eq, alone_bind, look, Option.bind_some]
  cases s.contexts.byInstance consumer with
  | none => rfl
  | some rec =>
    dsimp only
    by_cases active : rec.state.canonical = .active
    · rw [if_neg (not_not_intro active)]
      simp only [Option.any_some, active, decide_true, Bool.true_and]
      rfl
    · rw [if_pos active]
      simp only [Option.any_some, active, decide_false, Bool.false_and]
      rfl

theorem chainCheck_alone : ∃ r s', alone (kernel depth) (chainCheck t dep) s = some (r, s') ∧
    faultCode r = chainFault s t dep ∧ (chainFault s t dep = none → s' = s) := by
  have parent : alone (kernel depth) (calls (.get dep.parent)) s =
      some (s.calls.get dep.parent, s) := rfl
  have grant : alone (kernel depth) (grantOf dep.grantConsumer dep.grantCap) s =
      some (s.grants (dep.grantConsumer, dep.grantCap), s) := rfl
  simp only [chainCheck, chainFault, Prog.bind_eq, alone_bind, deadlinePassed_alone,
    Option.bind_some]
  by_cases late : deadlineOver s t = true
  · rw [if_pos late, if_pos late]
    exact ⟨_, _, rfl, rfl, by simp⟩
  · rw [if_neg late, if_neg late]
    simp only [alone_bind, parent, Option.bind_some]
    by_cases running : (s.calls.get dep.parent).any (·.isOpen) = true
    · simp only [running, if_true, Bool.not_true, Bool.false_eq_true, if_false, alone_bind,
        consumerCurrent_alone, Option.bind_some]
      by_cases serves : consumerServes s dep.consumer = true
      · simp only [serves, if_true, Bool.not_true, Bool.false_eq_true, if_false, alone_bind,
          grant, Option.bind_some]
        by_cases granted : s.grants (dep.grantConsumer, dep.grantCap) = some dep.grantRev
        · simp only [granted, if_true, ne_eq, not_true_eq_false, if_false]
          exact ⟨_, _, rfl, rfl, fun _ => rfl⟩
        · simp only [granted, if_false, ne_eq, not_false_eq_true, if_true]
          exact ⟨_, _, rfl, rfl, by simp⟩
      · simp only [serves, Bool.false_eq_true, if_false, Bool.not_false, if_true]
        exact ⟨_, _, rfl, rfl, by simp⟩
    · simp only [running, Bool.false_eq_true, if_false, Bool.not_false, if_true]
      exact ⟨_, _, rfl, rfl, by simp⟩

/-- A child that has ended is refused: for what its chain is refused for, or else as cancelled. -/
theorem dependencyAccept_ended (found : s.calls.get child = some t) (link : t.dep = some dep)
    (ended : t.isOpen = false) : ∃ reason s', alone (kernel depth) (dependencyAccept child) s =
      some (.error ⟨(chainFault s t dep).getD .cancelled, reason⟩, s') := by
  have look : alone (kernel depth) (calls (.get child)) s = some (some t, s) := by
    rw [← found]
    rfl
  obtain ⟨r, s', eq, code, same⟩ := @chainCheck_alone depth s t dep
  simp only [dependencyAccept, Prog.bind_eq, alone_bind, look, Option.bind_some, depChainCheck,
    link, eq]
  cases r with
  | error e =>
    have code : chainFault s t dep = some e.code := code.symm
    have passed : acceptCode e.code = e.code := by
      have known : e.code = .deadlineExceeded ∨ e.code = .cancelled ∨ e.code = .staleGeneration ∨
          e.code = .permissionDenied := by
        unfold chainFault at code
        split_ifs at code <;> simp [← Option.some.inj code]
      rcases known with h | h | h | h <;> rw [h] <;> rfl
    refine ⟨e.error, s', ?_⟩
    rw [code, Option.getD_some, ← passed]
    rfl
  | ok _ =>
    have clean : chainFault s t dep = none := code.symm
    obtain rfl := same clean
    have unmarked : (s'.calls.markCommittedIfAdmitted child).1 = false := by
      simp [CallsTable.markCommittedIfAdmitted, CallsTable.ifAdmitted, found, ended]
    have mark : alone (kernel depth) (calls (.markCommittedIfAdmitted child)) s' =
        some (false, { s' with calls := (s'.calls.markCommittedIfAdmitted child).2 }) := by
      rw [← unmarked]
      rfl
    simp only [alone_bind, mark, Option.bind_some, clean]
    exact ⟨_, _, rfl⟩

/-! ### Effects that are committed -/

/-- The ticket of every effect was issued, and is committed or expired if it is still there. -/
def EffectsEnded (s : KState) : Prop :=
  ∀ e ∈ s.calls.effects, e.ticket < s.calls.nextTicket ∧
    ∀ t, s.calls.get e.ticket = some t → t.state = .committed ∨ t.state = .expired

/-- Actions that push no effect and write no other states. -/
abbrev pushless (β : Type) : KAct β → Prop
  | .calls (.pushEffect _ _ _ _ _ _) => False
  | .calls (.setState _ state) => state = .committed ∨ state = .expired
  | _ => True

theorem none_allows {β : Type} (a : KAct β) (s : KState) : Rules.none.allow a s := by
  cases a with
  | calls a => cases a <;> trivial
  | ctx a => cases a <;> trivial
  | _ => trivial

theorem setState_get {c : CallsTable} {id j : TicketId} {state : TicketState} {t' : TicketRecord}
    (h : (c.setState id state).2.get j = some t') :
    t'.state = state ∨ j ≠ id ∧ c.get j = some t' := by
  rw [CallsTable.setState, CallsTable.amend_get] at h
  obtain ⟨t, found, rfl⟩ := Option.map_eq_some_iff.mp h
  by_cases own : t.id = id
  · exact .inl (by simp [own])
  · exact .inr ⟨fun e => own ((CallsTable.get_id found).trans e), by simp [own, found]⟩

theorem calls_ended {β : Type} {a : TicketAct β} {s : KState} (known : pushless β (.calls a))
    (ended : EffectsEnded s) : EffectsEnded { s with calls := (a.run s.calls).2 } := by
  intro e there
  have there : e ∈ s.calls.effects := by
    cases a <;> first | exact known.elim | exact there
  obtain ⟨old, done⟩ := ended e there
  refine ⟨lt_of_lt_of_le old (nextTicket_le a s.calls), fun t' found' => ?_⟩
  have usual : openOnly.calls a s → t'.state = .committed ∨ t'.state = .expired := by
    intro allowed
    obtain ⟨t, found, -⟩ := get_origin found' old
    have state := done t found
    rw [run_final allowed e.ticket t t' found found' ?_]
    · exact state
    · rcases state with h | h <;> simp [TicketRecord.isOpen, h]
  cases a with
  | setState id state =>
    rcases setState_get found' with written | ⟨-, before⟩
    · rw [written]
      exact known
    · exact done t' before
  | _ => exact usual trivial

theorem pushless_keeps {α : Type} {p : KProg α} (h : Composed pushless (fun _ _ => False) p)
    (n : TicketId) :
    (reading depth .none).Keeps (fun s => EffectsEnded s ∧ n ≤ s.calls.nextTicket) p := by
  refine Keeps.composed h (fun β a _ s _ => none_allows a s) ?_ fun _ _ none => none.elim
  rintro β a known s b s' ⟨ended, issued⟩ step
  have same : s'.calls = s.calls → EffectsEnded s' ∧ n ≤ s'.calls.nextTicket := fun e => by
    rw [EffectsEnded, e]
    exact ⟨ended, issued⟩
  change may a s b s' at step
  cases a with
  | calls a =>
    cases step
    exact ⟨calls_ended known ended, le_trans issued (nextTicket_le a s.calls)⟩
  | grant a => cases a <;> cases step <;> exact same rfl
  | now | spawn | awaitSettled => exact same (congrArg _ step)
  | lockAdmit =>
    simp only [KernelSequence.may, timed, KAct.sem, Bool.false_eq_true, if_false] at step
    split_ifs at step
    cases step
    exact same rfl
  | _ =>
    cases step
    exact same rfl

instance : Included checking pushless where

theorem depChainCheck_pushless (t : TicketRecord) :
    Composed pushless (fun _ _ => False) (depChainCheck t) := by
  have refuse : ∀ why e, Composed pushless (fun _ _ => False)
      (reject t why e : KProg (Except ErrorValue Unit)) :=
    fun why e => (reject_checks t why e).relax
  unfold depChainCheck
  cases t.dep with
  | none => exact .pure _
  | some dep =>
    exact .bind (deadlinePassed_checks t).relax fun _ => .ite
      (.step (.inr rfl) fun _ => .map .once)
      (.next fun _ => .ite
        (.bind (consumerCurrent_checks _).relax fun _ => .ite
          (.next fun _ => .ite (.pure _) (refuse _ _)) (refuse _ _))
        (refuse _ _))

theorem operation_pushless {op : Op} (other : ∀ id kind payload, op ≠ .commitEffect id kind payload)
    (n : Nat) : Composed pushless (fun _ _ => False) (op.code (reconcile n)) := by
  by_cases accept : ∃ child, op = .dependencyAccept child
  · obtain ⟨child, rfl⟩ := accept
    refine .map (.next fun t => ?_)
    cases t with
    | none => exact .pure _
    | some t =>
      refine .bind (depChainCheck_pushless t) fun chain => ?_
      cases chain with
      | error e => exact .pure _
      | ok _ => exact .next fun _ => .ite (.pure _) (.pure _)
  · refine (operation_unforced other (fun child h => accept ⟨child, h⟩) n).mono
      (fun β a known => ?_) fun _ _ none => none.elim
    cases a with
    | calls a => cases a <;> first | exact known.elim | trivial
    | _ => trivial

theorem setState_effects (c : CallsTable) (id : TicketId) (state : TicketState) :
    (c.setState id state).2.effects = c.effects := rfl

theorem pushEffect_mem {c : CallsTable} {ticket : TicketId} {logical kind : String}
    {inst : InstanceId} {generation : Nat} {payload : Json} {e : CommittedEffect}
    (h : e ∈ (c.pushEffect ticket logical inst generation kind payload).2.effects) :
    e ∈ c.effects ∨ e.ticket = ticket := by
  simp only [CallsTable.pushEffect] at h
  rcases List.mem_append.mp (List.mem_of_mem_drop h) with old | new
  · exact .inl old
  · rw [List.mem_singleton.mp new]
    exact .inr rfl

/-- A committed effect leaves its ticket committed. -/
theorem applyEffect_ended (kind : String) (payload : Json) (ended : EffectsEnded s)
    (issued : t.id < s.calls.nextTicket) : (reading depth .none).After (applyEffect t kind payload)
      (fun _ => EffectsEnded) s := by
  simp only [applyEffect, Prog.bind_eq, after_bind, after_calls, after_journal, TicketAct.run,
    Rules.calls, true_and]
  refine ⟨trivial, fun e there => ?_⟩
  rw [setState_effects] at there
  have issued' : e.ticket < s.calls.nextTicket := by
    rcases pushEffect_mem there with old | own
    · exact (ended e old).1
    · rw [own]
      exact issued
  refine ⟨issued', fun t' found' => ?_⟩
  rcases setState_get found' with written | ⟨other, before⟩
  · exact .inl written
  · have old := (pushEffect_mem there).resolve_right other
    exact (ended e old).2 t' before

theorem commitEffect_ended (kind : String) (payload : Json) (ended : EffectsEnded s) :
    (reading depth .none).After (commitEffect child kind payload) (fun _ => EffectsEnded) s := by
  have refuse : ∀ t why e, (reading depth .none).After
      (reject t why e : KProg (Except ErrorValue Nat)) (fun _ => EffectsEnded) s := fun t why e =>
    (pushless_keeps (reject_checks t why e).relax 0 s
      ⟨ended, Nat.zero_le _⟩).mono fun _ _ h => h.1
  simp only [commitEffect, Prog.bind_eq, after_bind, after_calls, TicketAct.run]
  refine ⟨trivial, ?_⟩
  cases found : s.calls.get child with
  | none => exact ended
  | some t =>
    obtain rfl := CallsTable.get_id found
    dsimp only
    cases state : t.state with
    | committed => exact ended
    | cancelled | expired => exact refuse _ _ _
    | admitted =>
      refine (pushless_keeps (depChainCheck_pushless t) (t.id + 1) s
        ⟨ended, CallsTable.get_lt found⟩).bind fun chain s₁ h₁ => ?_
      cases chain with
      | error e => exact h₁.1
      | ok _ =>
        refine (pushless_keeps (providerCheck_checks t).relax (t.id + 1) s₁ h₁).bind
          fun provider s₂ h₂ => ?_
        cases provider with
        | error e => exact h₂.1
        | ok _ => exact applyEffect_ended kind payload h₂.1 h₂.2

theorem effects_verified : (reading depth .none).Verified (fun _ _ => True) EffectsEnded
    (fun _ _ _ => True) := by
  refine ⟨fun op s ended _ => ?_⟩
  by_cases commit : ∃ id kind payload, op = .commitEffect id kind payload
  · obtain ⟨id, kind, payload, rfl⟩ := commit
    exact (commitEffect_ended kind payload ended).bind fun _ _ h => ⟨h, trivial⟩
  · have pushless := operation_pushless (fun id kind payload h => commit ⟨id, kind, payload, h⟩)
      depth
    exact (pushless_keeps pushless 0 s ⟨ended, Nat.zero_le _⟩).mono fun _ _ h => ⟨h.1, trivial⟩

/-! ### What the consumer is told about a child with a committed effect -/

/-- Neither the acceptance nor the terminal says that the call was cancelled or not executed. -/
def Truthful (depth : Nat) (s : KState) (child : TicketId) (charged : Bool)
    (reply : ProviderReply) : Prop :=
  ∀ out s', alone (kernel depth) (settleReply child charged reply) s = some (out, s') →
    reportsCancelled out.1 = false ∧ out.2.denies = false

/-- The result of the child comes after its deadline and fits the quota, or there is none and the
provider's error does not speak of a cancellation or a refusal. -/
def lateOrLost (s : KState) (t : TicketRecord) (charged : Bool) : ProviderReply → Bool
  | .result | .failure _ => charged && deadlineOver s t
  | .callError code => !deniesExecution (.foreign code)
  | .gone => true

/-- The codes under which a chain is refused deny the execution, but for the deadline. -/
theorem chainFault_denies : deniesExecution ((chainFault s t dep).getD .cancelled) =
    !deadlineOver s t := by
  unfold chainFault
  by_cases late : deadlineOver s t = true
  · rw [if_pos late, late]
    rfl
  · rw [if_neg late, Bool.eq_false_of_not_eq_true late]
    split_ifs <;> rfl

theorem settled_truthful (found : s.calls.get child = some t) (link : t.dep = some dep)
    (ended : t.isOpen = false) {success : Terminal} {charged : Bool} :
    (∀ out s', alone (kernel depth) (if charged then do
        let accepted ← dependencyAccept child
        pure (some accepted, acceptedTerminal success accepted)
      else pure (none, .error .resourceExhausted)) s = some (out, s') →
      reportsCancelled out.1 = false ∧ out.2.denies = false) ↔
      (charged && deadlineOver s t) = true := by
  cases charged with
  | false =>
    simp only [Bool.false_eq_true, if_false, Bool.false_and, iff_false]
    intro h
    exact absurd (h _ _ rfl).2 (by decide)
  | true =>
    obtain ⟨reason, s', eq⟩ := @dependencyAccept_ended depth s child t dep found link ended
    simp only [if_true, Prog.bind_eq, alone_bind, eq, Option.bind_some, Bool.true_and]
    constructor
    · intro h
      have denies : deniesExecution ((chainFault s t dep).getD .cancelled) = false := (h _ _ rfl).2
      rw [chainFault_denies] at denies
      simpa using denies
    · intro late out s'' h
      cases h
      have denies : deniesExecution ((chainFault s t dep).getD .cancelled) = false := by
        rw [chainFault_denies, late]
        rfl
      refine ⟨?_, denies⟩
      have code : chainFault s t dep = some .deadlineExceeded := by
        rw [chainFault, if_pos late]
      simp [reportsCancelled, code]

/-- Whatever operations came before, one after the other: a dispatcher that waits for a child with
a committed effect does not see it cancelled, and what the consumer is told when the provider's
reply comes is true if and only if the reply is late or none. -/
theorem consumer_told_truly_iff {epoch : Nat} {c : Config (kernel depth)}
    (run : Run (oneAtATime (reading depth .none) fun _ _ => True) (.boot (KState.boot epoch)) c)
    (quiet : c.Quiescent) {e : CommittedEffect} (effect : e ∈ c.mem.calls.effects)
    (found : c.mem.calls.get e.ticket = some t) (link : t.dep = some dep) (charged : Bool)
    (reply : ProviderReply) :
    polledTerminal t.state ≠ some (.error .cancelled) ∧
      (Truthful depth c.mem e.ticket charged reply ↔ lateOrLost c.mem t charged reply = true) := by
  have empty : EffectsEnded (timeless (KState.boot epoch)) := fun e there => by cases there
  have state := (effects_verified.quiescent empty run quiet e effect).2 t found
  have ended : t.isOpen = false := by
    rcases state with h | h <;> simp [TicketRecord.isOpen, h]
  refine ⟨by rcases state with h | h <;> rw [h] <;> decide, ?_⟩
  cases reply with
  | result => exact settled_truthful found link ended
  | failure code => exact settled_truthful found link ended
  | callError code =>
    constructor
    · intro h
      simpa [lateOrLost, Terminal.denies] using (h _ _ rfl).2
    · intro h out s' eq
      cases eq
      exact ⟨rfl, by simpa [lateOrLost, Terminal.denies] using h⟩
  | gone =>
    refine ⟨fun _ => rfl, fun _ out s' eq => ?_⟩
    cases eq
    exact ⟨rfl, rfl⟩

/-- A child of the consumer's call whose effect is committed. -/
def effectCommitted : List (Turn (kernel 1)) := consumerInCall ++
  [.start 0 (.dependencyAdmit childRequest), .finish 0,
    .start 0 (.commitEffect 2 "note" .null), .finish 0]

/-- After the deadline of such a child, its consumer is told the truth. -/
theorem consumer_told_truly_late : ∃ c : Config (kernel 1),
    Run (oneAtATime (reading 1 .none) fun _ _ => True) (.boot (KState.boot 1)) c ∧ c.Quiescent ∧
      Truthful 1 c.mem 2 true .result := by
  obtain ⟨c, run, quiet, ⟨e, effect, own⟩, there⟩ := Config.plays (KState.boot 1) _
    (P := fun c : Config (kernel 1) => (∃ e ∈ c.mem.calls.effects, e.ticket = 2) ∧
      ((c.mem.calls.get 2).any fun t => t.dep.isSome && deadlineOver c.mem t) = true)
    (oneAtATime_of_alone (reading 1 .none)) 200 1 (effectCommitted ++ [.env (.tick 500)])
    (by decide +kernel)
  simp only [Bool.and_eq_true, Option.any_eq_true, Option.isSome_iff_exists] at there
  obtain ⟨t, found, ⟨dep, link⟩, late⟩ := there
  refine ⟨c, run, quiet, ?_⟩
  rw [← own] at found ⊢
  exact (consumer_told_truly_iff run quiet effect found link true .result).2.mpr (by
    rw [lateOrLost, late]
    rfl)

/-- Before the deadline, the result of such a child is refused as cancelled, and so is the call
for its consumer. -/
theorem committed_child_told_cancelled : ∃ c : Config (kernel 1),
    Run (oneAtATime (reading 1 .none) fun _ _ => True) (.boot (KState.boot 1)) c ∧ c.Quiescent ∧
      (∃ e ∈ c.mem.calls.effects, e.ticket = 2) ∧
      (alone (kernel 1) (settleReply 2 true .result) c.mem).map Prod.fst =
        some (some (.error ⟨.cancelled, "child tkt-2 revoked during accept"⟩),
          .error .cancelled) :=
  Config.plays (KState.boot 1) _ (oneAtATime_of_alone (reading 1 .none)) 200 1 effectCommitted
    (by decide +kernel)

end MatrixRuntime.DependencyResults
