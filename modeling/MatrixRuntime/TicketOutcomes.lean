import MatrixRuntime.KernelSequence
import MatrixRuntime.OperationFrame
import MatrixRuntime.TicketFrame

/-! How tickets end. The table's own actions change only open tickets, except for the one that
overwrites a state whatever it is; with operations one after the other, only an acceptance that
comes after its child ended uses it on a ticket that is not open any more. -/

namespace MatrixRuntime.TicketOutcomes

open JsonValue KernelTickets KernelState KernelActions KernelReconcile KernelCalls
open DependencyAdmission KernelOperations InterleavedProgram InterleavedMachine SequentialRuns
open SequentialRuns.Reading KernelSequence TicketFrame CallFrame OperationFrame

/-! ### What the table's actions do to a ticket that ended -/

/-- The ticket kept its state if it had ended. -/
def Final (c c' : CallsTable) : Prop :=
  ∀ id t t', c.get id = some t → c'.get id = some t' → t.isOpen = false → t'.state = t.state

theorem Final.refl (c : CallsTable) : Final c c := fun id t t' h h' _ => by
  cases h.symm.trans h'
  rfl

theorem amend_final {c : CallsTable} {sel : TicketRecord → Bool} {f : TicketRecord → TicketRecord}
    {hf : ∀ t, (f t).id = t.id} (keeps : ∀ t ∈ c.tickets, sel t = true → t.isOpen = false →
      (f t).state = t.state) : Final c (c.amend sel f hf) := by
  intro id t t' found found' ended
  rw [CallsTable.amend_get, found] at found'
  cases found'
  by_cases picked : sel t = true
  · simpa [picked] using keeps t (CallsTable.get_eq_some.mp found).1 picked ended
  · simp [picked]

/-- A state is overwritten only while the ticket is open. -/
def openOnly : Rules :=
  { Rules.none with write := fun id s => ∀ t, s.calls.get id = some t → t.isOpen = true }

/-- Where the overwriting action is kept to open tickets, ended ones stay as they are. -/
theorem run_final {β : Type} {a : TicketAct β} {s : KState} (allowed : openOnly.calls a s) :
    Final s.calls (a.run s.calls).2 := by
  cases a with
  | get | openChildrenOf | pendingFor | pendingCount | inflightCount | pushEffect
  | tryClaimCleanup | releaseCleanupClaim => exact .refl s.calls
  | alloc admission =>
    intro id t t' found found' _
    have old : id ≠ s.calls.nextTicket := Nat.ne_of_lt (CallsTable.get_lt found)
    rw [TicketAct.run, CallsTable.alloc_get, if_neg old, found] at found'
    cases found'
    rfl
  | remove remover k =>
    intro id t t' found found' _
    rw [TicketAct.run, CallsTable.remove_get] at found'
    split at found'
    · cases found'
    · cases found.symm.trans found'
      rfl
  | setState k state =>
    apply amend_final
    case hf => exact fun _ => rfl
    case keeps =>
      intro t there picked ended
      have named : t.id = k := by simpa using picked
      have running := allowed t (CallsTable.get_eq_some.mpr ⟨there, named⟩)
      rw [running] at ended
      cases ended
  | setDepMeta | setDrainUntil =>
    apply amend_final <;> intros <;> rfl
  | revokeDescendants | revokeChildrenOfConsumer | revokeGrantChildren | markCommittedIfAdmitted
  | expireTicket | cancel | expireOverdue =>
    apply amend_final
    case hf => exact fun _ => rfl
    case keeps =>
      intro t _ picked ended
      simp [CallsTable.overdue, ended] at picked

/-- An action that is allowed leaves ended tickets as they are, and numbers issued. -/
theorem sem_final {β : Type} {a : KAct β} {s s' : KState} {b : β} (h : a.sem s = some (b, s'))
    (allowed : openOnly.allow a s) :
    Final s.calls s'.calls ∧ s.calls.nextTicket ≤ s'.calls.nextTicket ∧
      ∀ id, id < s.calls.nextTicket → s.calls.get id = none → s'.calls.get id = none := by
  have same : s'.calls = s.calls → Final s.calls s'.calls ∧
      s.calls.nextTicket ≤ s'.calls.nextTicket ∧
      ∀ id, id < s.calls.nextTicket → s.calls.get id = none → s'.calls.get id = none := by
    intro e
    rw [e]
    exact ⟨.refl _, le_rfl, fun _ _ gone => gone⟩
  cases a with
  | calls a =>
    cases h
    refine ⟨run_final allowed, nextTicket_le a s.calls, fun id old gone => ?_⟩
    cases found : (a.run s.calls).2.get id with
    | none => rfl
    | some t =>
      obtain ⟨t', found', -⟩ := get_origin found old
      cases gone.symm.trans found'
  | grant a => cases a <;> cases h <;> exact same rfl
  | awaitSettled inst instant =>
    simp only [KAct.sem] at h
    split_ifs at h <;>
    · cases h
      exact same rfl
  | lockAdmit =>
    simp only [KAct.sem] at h
    split_ifs at h
    cases h
    exact same rfl
  | _ =>
    cases h
    exact same rfl

/-! ### What operations do to a ticket that ended -/

/-- An acceptance comes while its child is open, unless the child has no link or no deadline. -/
def acceptsOpen (s : KState) : Op → Bool
  | .dependencyAccept child => (s.calls.get child).all fun t =>
    t.isOpen || t.dep.isNone || t.drainUntil.isNone
  | _ => true

/-- Actions that neither overwrite the state of a ticket nor push an effect. -/
abbrev unforced (β : Type) : KAct β → Prop
  | .calls (.setState _ _) | .calls (.pushEffect _ _ _ _ _ _) => False
  | _ => True

variable {depth : Nat} {α : Type} {p : KProg α} {s : KState} {id : TicketId} {t : TicketRecord}

theorem unforced_allowed {β : Type} {a : KAct β} (h : unforced β a) : openOnly.allow a s := by
  cases a with
  | calls a => cases a <;> first | exact h.elim | trivial
  | ctx a => cases a <;> trivial
  | _ => trivial

theorem unforced_after (h : Composed unforced (fun _ _ => False) p) :
    (reading depth openOnly).After p (fun _ _ => True) s :=
  Keeps.composed (P := fun _ => True) h (fun _ _ known _ _ => unforced_allowed known)
    (fun _ _ _ _ _ _ _ _ => trivial) (fun _ _ none => none.elim) s trivial

instance : Included ordinary unforced where

instance : Included admitting unforced where

theorem operation_unforced {op : Op}
    (special : ∀ id kind payload, op ≠ .commitEffect id kind payload)
    (other : ∀ child, op ≠ .dependencyAccept child) (n : Nat) :
    Composed unforced (fun _ _ => False) (op.code (reconcile n)) := by
  have revoked : ∀ reason tickets,
      Composed unforced (fun _ _ => False) (journalRevoked reason tickets) :=
    fun _ _ => .forEach _ fun _ => .once
  cases op with
  | commitEffect id kind payload => exact absurd rfl (special id kind payload)
  | dependencyAccept child => exact absurd rfl (other child)
  | dependencyAdmit req =>
    exact .map (dependencyAdmit_admits req).relax
  | dependencyTimeout child =>
    exact .map (.next fun _ => .ite (.next fun _ =>
      .next fun _ => .map (.next fun _ => revoked _ _)) (.pure _))
  | grantOutbound consumer cap =>
    exact .map (.next fun _ => .next fun _ =>
      .next fun _ => .map (revoked _ _))
  | revokeOutbound consumer cap =>
    exact .map (.next fun _ => .next fun _ =>
      .map (revoked _ _))
  | _ => exact (operation_ordinary rfl n).relax

/-- Checks leave the tickets alone, and are allowed everywhere. -/
theorem checks_calls {rules : Rules} (h : Checks p) (c : CallsTable) :
    (reading depth rules).Keeps (fun s => s.calls = c) p := by
  refine Keeps.composed h (fun β a known s _ => ?_) (fun β a known s b s' same step => ?_)
    fun _ _ none => none.elim
  · cases a with
    | calls a => cases a <;> first | exact known.elim | trivial
    | ctx a => cases a <;> first | exact known.elim | trivial
    | _ => trivial
  · rw [← same]
    change may a s b s' at step
    cases a with
    | journal entry =>
      cases step
      rfl
    | ctx a => cases a <;> first | exact known.elim | (cases step; rfl)
    | calls a => cases a <;> first | exact known.elim | (cases step; rfl)
    | comp a => cases a <;> first | exact known.elim | (cases step; rfl)
    | pub a => cases a <;> first | exact known.elim | (cases step; rfl)
    | res a => cases a <;> first | exact known.elim | (cases step; rfl)
    | grant a => cases a <;> first | exact known.elim | (cases step; rfl)
    | now => exact congrArg _ step
    | _ => exact known.elim

theorem deadlinePassed_after : (reading depth openOnly).After (deadlinePassed t)
    (fun late s' => s'.calls = s.calls ∧ (late = true → t.drainUntil ≠ none)) s := by
  unfold deadlinePassed
  cases t.drainUntil with
  | none => exact ⟨rfl, by simp⟩
  | some instant =>
    simp only [Prog.bind_eq, after_bind, after_now]
    exact fun now => ⟨rfl, by simp⟩

/-- The chain of a ticket may be checked if the ticket is open, or has no deadline to miss. -/
theorem depChainCheck_after (running : t.dep ≠ none → t.drainUntil ≠ none →
      ∀ t', s.calls.get t.id = some t' → t'.isOpen = true) :
    (reading depth openOnly).After (depChainCheck t)
      (fun result s' => result.isOk = true → s'.calls = s.calls) s := by
  have refuse : ∀ why e s₁, (reading depth openOnly).After
      (reject t why e : KProg (Except ErrorValue Unit))
      (fun result s' => result.isOk = true → s'.calls = s.calls) s₁ := by
    intro why e s₁
    simp only [reject, Prog.bind_eq, after_bind, after_journal]
    intro ok
    cases ok
  unfold depChainCheck
  cases link : t.dep with
  | none => exact fun _ => rfl
  | some dep =>
    refine deadlinePassed_after.bind fun late s₁ h => ?_
    obtain ⟨same, bounded⟩ := h
    refine .ite (fun passed => ?_) fun _ => ?_
    · simp only [Prog.bind_eq, after_bind, after_calls, after_journal]
      refine ⟨fun t' found => running (by simp [link]) (bounded passed) t' (same ▸ found),
        fun ok => ?_⟩
      cases ok
    · simp only [Prog.bind_eq, after_bind, after_calls, TicketAct.run]
      refine ⟨trivial, .ite (fun _ => ?_) fun _ => refuse _ _ _⟩
      refine (checks_calls (consumerCurrent_checks _) s.calls s₁ same).bind fun ok s₂ same₂ => ?_
      refine .ite (fun _ => ?_) fun _ => refuse _ _ _
      simp only [grantOf, after_bind, after_grant, GrantAct.run]
      exact .ite (fun _ _ => same₂) fun _ => refuse _ _ _

theorem commitEffect_after (kind : String) (payload : Json) :
    (reading depth openOnly).After (commitEffect id kind payload) (fun _ _ => True) s := by
  have refuse : ∀ t why e s, (reading depth openOnly).After
      (reject t why e : KProg (Except ErrorValue Nat)) (fun _ _ => True) s := by
    intro t why e s
    simp only [reject, Prog.bind_eq, after_bind, after_journal]
    trivial
  simp only [commitEffect, Prog.bind_eq, after_bind, after_calls, TicketAct.run]
  refine ⟨trivial, ?_⟩
  cases found : s.calls.get id with
  | none => trivial
  | some t =>
    obtain rfl := CallsTable.get_id found
    dsimp only
    cases state : t.state with
    | committed => trivial
    | cancelled => exact refuse _ _ _ _
    | expired => exact refuse _ _ _ _
    | admitted =>
      have running : ∀ t', s.calls.get t.id = some t' → t'.isOpen = true := fun t' found' => by
        cases found.symm.trans found'
        simp [TicketRecord.isOpen, state]
      refine (depChainCheck_after fun _ _ => running).bind fun chain s₁ same => ?_
      cases chain with
      | error e => trivial
      | ok _ =>
        refine (checks_calls (providerCheck_checks t) s.calls s₁ (same rfl)).bind
          fun provider s₂ same₂ => ?_
        cases provider with
        | error e => trivial
        | ok _ =>
          simp only [applyEffect, Prog.bind_eq, after_bind, after_calls, after_journal]
          refine ⟨trivial, fun t' found' => running t' ?_, trivial⟩
          rw [← same₂]
          exact found'

theorem dependencyAccept_after (ok : acceptsOpen s (.dependencyAccept id) = true) :
    (reading depth openOnly).After (dependencyAccept id) (fun _ _ => True) s := by
  simp only [dependencyAccept, Prog.bind_eq, after_bind, after_calls, TicketAct.run]
  refine ⟨trivial, ?_⟩
  cases found : s.calls.get id with
  | none => trivial
  | some t =>
    obtain rfl := CallsTable.get_id found
    have running : t.dep ≠ none → t.drainUntil ≠ none →
        ∀ t', s.calls.get t.id = some t' → t'.isOpen = true := fun linked bounded t' found' => by
      cases found.symm.trans found'
      simpa [acceptsOpen, found, linked, bounded] using ok
    refine (depChainCheck_after running).bind fun chain s₁ _ => ?_
    cases chain with
    | error e => trivial
    | ok _ =>
      simp only [after_bind, after_calls]
      exact ⟨trivial, .ite (fun _ => trivial) fun _ => trivial⟩

/-! ### Runs -/

theorem tickets_verified : (reading depth openOnly).Verified (fun s op => acceptsOpen s op = true)
    (fun _ => True) (fun _ _ _ => True) := by
  refine ⟨fun op s _ ok => ?_⟩
  by_cases commit : ∃ id kind payload, op = .commitEffect id kind payload
  · obtain ⟨id, kind, payload, rfl⟩ := commit
    exact (commitEffect_after kind payload).bind fun _ _ _ => ⟨trivial, trivial⟩
  · by_cases accept : ∃ child, op = .dependencyAccept child
    · obtain ⟨child, rfl⟩ := accept
      exact (dependencyAccept_after ok).bind fun _ _ _ => ⟨trivial, trivial⟩
    · refine (unforced_after (operation_unforced ?_ ?_ depth)).mono fun _ _ _ => ⟨trivial, trivial⟩
      · exact fun id kind payload h => commit ⟨id, kind, payload, h⟩
      · exact fun child h => accept ⟨child, h⟩

theorem allow_timeless {β : Type} {a : KAct β} (h : openOnly.allow a (timeless s)) :
    openOnly.allow a s := by
  cases a with
  | calls a => cases a <;> exact h
  | ctx a => cases a <;> trivial
  | _ => trivial

/-- The past of a ticket number: it was issued, and if the ticket is still there its state is the
one it ended with. -/
def Ended (id : TicketId) (state : TicketState) (c : CallsTable) : Prop :=
  id < c.nextTicket ∧ ∀ t, c.get id = some t → t.state = state

theorem Ended.step {c c' : Config (kernel depth)} {label : KLabel depth}
    {state : TicketState} (ended : state ≠ .admitted) (h : Ended id state c.mem.calls)
    (step : Step c label c') (allowed : ∀ i op β (a : KAct β) next,
      c.threads i = some ⟨op, .act a next⟩ → openOnly.allow a c.mem) :
    Ended id state c'.mem.calls := by
  cases step with
  | start op idle => exact h
  | done finished => exact h
  | env event => cases event <;> exact h
  | @act i op β a next b mem running enabled =>
    obtain ⟨final, grows, gone⟩ := sem_final enabled (allowed i op β a next running)
    refine ⟨lt_of_lt_of_le h.1 grows, fun t' found' => ?_⟩
    cases found : c.mem.calls.get id with
    | none =>
      have none := gone id h.1 found
      cases none.symm.trans found'
    | some t =>
      have state := h.2 t found
      rw [final id t t' found found' (by simp [TicketRecord.isOpen, state, ended]), state]

/-- Operations follow one another, and none accepts a child that has ended and had a deadline. -/
def acceptsInTime (depth : Nat) : Obs (kernel depth) → Label (kernel depth) → Prop :=
  oneAtATime (reading depth openOnly) fun s op => acceptsOpen s op = true

/-- A ticket that is committed, cancelled or expired keeps that state for as long as it is in the
table. -/
theorem ended_ticket_keeps_state {s₀ : KState} {c c' : Config (kernel depth)}
    (run : Run (acceptsInTime depth) (.boot s₀) c) (later : Run (acceptsInTime depth) c c')
    {t t' : TicketRecord} (found : c.mem.calls.get id = some t) (ended : t.state ≠ .admitted)
    (found' : c'.mem.calls.get id = some t') : t'.state = t.state := by
  suffices Ended id t.state c'.mem.calls from this.2 t' found'
  clear found'
  induction later with
  | refl =>
    refine ⟨CallsTable.get_lt found, fun t₁ found₁ => ?_⟩
    cases found.symm.trans found₁
    rfl
  | tail before last ih =>
    obtain ⟨label, ok, step⟩ := last
    refine Ended.step ended ih step fun i op β a next running => allow_timeless ?_
    exact tickets_verified.allowed trivial (run.trans before) running

/-- A child of the consumer's call is accepted, and a timeout and a cancellation that come later
leave it committed. -/
theorem accepted_child_stays_committed : ∃ c c' : Config (kernel 1),
    Run (acceptsInTime 1) (.boot (KState.boot 1)) c ∧ Run (acceptsInTime 1) c c' ∧
      ∃ t t', c.mem.calls.get 2 = some t ∧ t.state = .committed ∧
        c'.mem.calls.get 2 = some t' ∧ t'.state = t.state := by
  obtain ⟨c, run, there, next⟩ := Config.reaches (Q := acceptsInTime 1) (.boot (KState.boot 1)) _
    (P := fun c => (c.mem.calls.get 2).map (·.state) = some .committed ∧
      (c.play (single (reading 1 openOnly) acceptsOpen) 200 [.start 0 (.dependencyTimeout 2),
        .finish 0, .start 0 (.callCancel 2 "late"), .finish 0]).any
        (fun c' => decide ((c'.mem.calls.get 2).isSome = true)) = true)
    (fun _ _ => oneAtATime_of_single) 200 (consumerInCall ++
      [.start 0 (.dependencyAdmit childRequest), .finish 0,
        .start 0 (.dependencyAccept 2), .finish 0]) (by decide +kernel)
  obtain ⟨t, found, committed⟩ := Option.map_eq_some_iff.mp there
  obtain ⟨c', later, there⟩ := c.reaches _ (fun _ _ => oneAtATime_of_single) 200 _ next
  obtain ⟨t', found'⟩ := Option.isSome_iff_exists.mp there
  exact ⟨c, c', run, later, t, t', found, committed, found',
    ended_ticket_keeps_state run later found (by rw [committed]; decide) found'⟩

/-- A child whose effect is committed becomes expired when its result is accepted after the
deadline. -/
theorem late_accept_expires_committed : ∃ c c' : Config (kernel 1),
    Run (oneAtATime (reading 1 .none) fun _ _ => True) (.boot (KState.boot 1)) c ∧
      Run (oneAtATime (reading 1 .none) fun _ _ => True) c c' ∧
      ((c.mem.calls.get 2).any fun t => decide (t.state = .committed)) = true ∧
      ((c'.mem.calls.get 2).any fun t => decide (t.state = .expired)) = true := by
  obtain ⟨c, run, committed, next⟩ := Config.reaches (.boot (KState.boot 1)) _
    (P := fun c : Config (kernel 1) =>
      ((c.mem.calls.get 2).any fun t => decide (t.state = .committed)) = true ∧
      (c.play (single (reading 1 .none) fun _ _ => true) 200
        [.env (.tick 500), .start 0 (.dependencyAccept 2), .finish 0]).any (fun c' => decide
          (((c'.mem.calls.get 2).any fun t => decide (t.state = .expired)) = true)) = true)
    (oneAtATime_of_alone (reading 1 .none)) 200 (consumerInCall ++
      [.start 0 (.dependencyAdmit childRequest), .finish 0,
        .start 0 (.commitEffect 2 "note" .null), .finish 0]) (by decide +kernel)
  obtain ⟨c', later, expired⟩ := c.reaches _ (oneAtATime_of_alone _) 200 _ next
  exact ⟨c, c', run, later, committed, expired⟩

end MatrixRuntime.TicketOutcomes
