import MatrixRuntime.KernelSequence
import MatrixRuntime.ReconcileFrame
import MatrixRuntime.TicketFrame

/-! What a disposal does to the tickets. It picks the tickets of its instance by number, whatever
their logical id is, and expires whatever is overdue anywhere in the table. -/

namespace MatrixRuntime.DisposalFrame

open KernelContexts KernelTickets KernelState KernelActions KernelReconcile KernelOperations
open InterleavedProgram InterleavedMachine SequentialRuns SequentialRuns.Reading KernelSequence
open TicketFrame ReconcileFrame

/-! ### The tickets of an instance -/

variable {c c' : CallsTable} {rec : ContextRecord} {t : TicketRecord} {id : TicketId}

/-- The ticket executes on the activation, was opened by it, or descends from such a ticket. -/
inductive Mine (c : CallsTable) (rec : ContextRecord) : TicketRecord → Prop
  | own {t : TicketRecord} (number : t.instanceId = rec.instanceId)
      (logical : t.logical = rec.logical) : Mine c rec t
  | opened {t : TicketRecord} {dep : DepChild} (link : t.dep = some dep)
      (consumer : dep.consumer = rec.instanceId) : Mine c rec t
  | descends {t p : TicketRecord} {dep : DepChild} (link : t.dep = some dep)
      (parent : c.get dep.parent = some p) (mine : Mine c rec p) : Mine c rec t

/-- Tickets that are not the instance's stay as they are. -/
def Framed (c : CallsTable) (rec : ContextRecord) (c' : CallsTable) : Prop :=
  ∀ id t, c.get id = some t → ¬ Mine c rec t → c'.get id = some t

/-- Only the instance's tickets are changed or waited for. -/
structure Confined (c : CallsTable) (rec : ContextRecord) (c' : CallsTable) : Prop where
  framed : Framed c rec c'
  waits : ∀ t' ∈ c'.pendingFor rec.instanceId, ∃ t, c.get t'.id = some t ∧ Mine c rec t

/-- The number of the instance and the deadlines are those of its own tickets alone. -/
def Apart (c : CallsTable) (rec : ContextRecord) : Prop :=
  ∀ t ∈ c.tickets, t.instanceId = rec.instanceId ∨ t.isOpen = true ∧ t.drainUntil ≠ none →
    Mine c rec t

/-! ### What the table goes through -/

/-- One ticket of the instance is withdrawn. -/
def withdrawn (now : Nat) (c : CallsTable) (t : TicketRecord) : CallsTable :=
  match t.policy.onWithdraw with
  | .cancel => (c.cancel t.id "withdraw").2
  | .drain => (c.setDrainUntil t.id (now + t.policy.drainMs)).2

/-- The tickets of the instance are withdrawn and the children it opened are revoked. -/
def withdrawnAll (c : CallsTable) (inst : InstanceId) (now : Nat) : CallsTable :=
  (((c.pendingFor inst).foldl (withdrawn now) c).revokeChildrenOfConsumer inst
    "consumer-withdraw").2

/-- Then whatever is overdue expires, and so do the children of what expired. -/
def quiesced (c : CallsTable) (inst : InstanceId) (now late : Nat) : CallsTable :=
  ((withdrawnAll c inst now).expireOverdue late).1.foldl
    (fun c id => (c.revokeDescendants id "parent-expired").2)
    ((withdrawnAll c inst now).expireOverdue late).2

/-! ### Frames -/

theorem Framed.refl (c : CallsTable) (rec : ContextRecord) : Framed c rec c := fun _ _ h _ => h

theorem Framed.amend (h : Framed c rec c') (sel : TicketRecord → Bool)
    (f : TicketRecord → TicketRecord) (hf : ∀ t, (f t).id = t.id)
    (picks : ∀ t ∈ c.tickets, sel t = true → Mine c rec t) : Framed c rec (c'.amend sel f hf) := by
  intro id t found other
  have spared : sel t = false := by
    by_contra picked
    exact other (picks t (CallsTable.get_eq_some.mp found).1 (by simpa using picked))
  rw [CallsTable.amend_get, h id t found other]
  simp [spared]

theorem Framed.withdrawn (h : Framed c rec c') (mine : Mine c rec t)
    (there : t ∈ c.tickets) (now : Nat) : Framed c rec (withdrawn now c' t) := by
  have picks : ∀ u ∈ c.tickets, (decide (u.id = t.id) && u.isOpen) = true → Mine c rec u := by
    intro u there' picked
    have same : u.id = t.id := by
      simp only [Bool.and_eq_true, decide_eq_true_eq] at picked
      exact picked.1
    have found := CallsTable.get_of_mem there'
    rw [same, CallsTable.get_of_mem there] at found
    cases found
    exact mine
  unfold DisposalFrame.withdrawn
  cases t.policy.onWithdraw with
  | cancel => exact h.amend _ _ (by exact fun _ => rfl) picks
  | drain => exact h.amend _ _ (by exact fun _ => rfl) picks

theorem withdrawnAll_framed (apart : Apart c rec) (now : Nat) :
    Framed c rec (withdrawnAll c rec.instanceId now) := by
  have listed : ∀ t ∈ c.pendingFor rec.instanceId, t ∈ c.tickets ∧ Mine c rec t := by
    intro t there
    obtain ⟨there, number⟩ := List.mem_filter.mp there
    exact ⟨there, apart t there (.inl (by simpa using number))⟩
  have each : ∀ (ts : List TicketRecord) (c' : CallsTable), Framed c rec c' →
      (∀ t ∈ ts, t ∈ c.tickets ∧ Mine c rec t) → Framed c rec (ts.foldl (withdrawn now) c') := by
    intro ts
    induction ts with
    | nil => exact fun c' h _ => h
    | cons t ts ih =>
      intro c' h mine
      obtain ⟨first, rest⟩ := List.forall_mem_cons.mp mine
      exact ih _ (h.withdrawn first.2 first.1 now) rest
  refine (each _ c (.refl c rec) listed).amend _ _ (by exact fun _ => rfl) fun t there picked => ?_
  simp only [Bool.and_eq_true, Option.any_eq_true, decide_eq_true_eq] at picked
  obtain ⟨⟨dep, link, consumer⟩, -⟩ := picked
  exact .opened link consumer

theorem withdrawnAll_same (c : CallsTable) (inst : InstanceId) (now : Nat) :
    SameTickets c (withdrawnAll c inst now) := by
  have each : ∀ (ts : List TicketRecord) (c' : CallsTable), SameTickets c c' →
      SameTickets c (ts.foldl (withdrawn now) c') := by
    intro ts
    induction ts with
    | nil => exact fun c' h => h
    | cons t ts ih =>
      intro c' h
      refine ih _ (h.trans ?_)
      unfold withdrawn
      cases t.policy.onWithdraw with
      | cancel => exact steady_sameTickets (a := .cancel t.id "withdraw") trivial c'
      | drain =>
        exact steady_sameTickets (a := .setDrainUntil t.id (now + t.policy.drainMs)) trivial c'
  exact (each _ c (.refl c)).trans
    (steady_sameTickets (a := .revokeChildrenOfConsumer inst "consumer-withdraw") trivial _)

theorem quiesced_same (c : CallsTable) (inst : InstanceId) (now late : Nat) :
    SameTickets c (quiesced c inst now late) := by
  have each : ∀ (ids : List TicketId) (c' : CallsTable), SameTickets c c' →
      SameTickets c (ids.foldl (fun c id => (c.revokeDescendants id "parent-expired").2) c') := by
    intro ids
    induction ids with
    | nil => exact fun c' h => h
    | cons id ids ih =>
      exact fun c' h => ih _ (SameTickets.trans h
        (steady_sameTickets (a := .revokeDescendants id "parent-expired") trivial c'))
  exact each _ _ ((withdrawnAll_same c inst now).trans
    (steady_sameTickets (a := .expireOverdue late) trivial _))

theorem quiesced_framed (apart : Apart c rec) (now late : Nat) :
    Framed c rec (quiesced c rec.instanceId now late) := by
  have before := withdrawnAll_framed apart now
  have overdue : ∀ t ∈ c.tickets, CallsTable.overdue late t = true → Mine c rec t := by
    intro t there late'
    simp only [CallsTable.overdue, Bool.and_eq_true, Option.any_eq_true] at late'
    obtain ⟨running, instant, deadline, -⟩ := late'
    exact apart t there (.inr ⟨running, by simp [deadline]⟩)
  -- what expires is the instance's, so its children are
  have expired : ∀ id ∈ ((withdrawnAll c rec.instanceId now).expireOverdue late).1,
      ∃ t, c.get id = some t ∧ Mine c rec t := by
    intro id there
    obtain ⟨t', there', rfl⟩ := List.mem_map.mp there
    obtain ⟨there', late'⟩ := List.mem_filter.mp there'
    have found' := CallsTable.get_of_mem there'
    obtain ⟨t, found, -⟩ := (withdrawnAll_same c rec.instanceId now).backward found'
    refine ⟨t, found, by_contra fun other => other ?_⟩
    have same : t' = t := Option.some.inj (found'.symm.trans (before _ t found other))
    rw [same] at late'
    exact overdue t (CallsTable.get_eq_some.mp found).1 late'
  have each : ∀ (ids : List TicketId) (c' : CallsTable), Framed c rec c' →
      (∀ id ∈ ids, ∃ t, c.get id = some t ∧ Mine c rec t) →
      Framed c rec (ids.foldl (fun c id => (c.revokeDescendants id "parent-expired").2) c') := by
    intro ids
    induction ids with
    | nil => exact fun c' h _ => h
    | cons id ids ih =>
      intro c' h mine
      obtain ⟨⟨p, found, own⟩, rest⟩ := List.forall_mem_cons.mp mine
      refine ih _ (h.amend _ _ (by exact fun _ => rfl) fun t there picked => ?_) rest
      simp only [Bool.and_eq_true, Option.any_eq_true, decide_eq_true_eq] at picked
      obtain ⟨⟨dep, link, parent⟩, -⟩ := picked
      exact .descends link (parent ▸ found) own
  exact each _ _ (before.amend _ _ (by exact fun _ => rfl) overdue) expired

/-- Nothing is overdue any more. -/
theorem quiesced_none_overdue (c : CallsTable) (inst : InstanceId) (now late : Nat) :
    ∀ t ∈ (quiesced c inst now late).tickets, CallsTable.overdue late t = false := by
  have each : ∀ (ids : List TicketId) (c' : CallsTable),
      (∀ t ∈ c'.tickets, CallsTable.overdue late t = false) →
      ∀ t ∈ (ids.foldl (fun c id => (c.revokeDescendants id "parent-expired").2) c').tickets,
        CallsTable.overdue late t = false := by
    intro ids
    induction ids with
    | nil => exact fun c' h => h
    | cons id ids ih =>
      refine fun c' h => ih _ fun t there => ?_
      obtain ⟨t₀, there₀, rfl⟩ := List.mem_map.mp there
      split
      · rfl
      · exact h t₀ there₀
  refine each _ _ fun t there => ?_
  obtain ⟨t₀, there₀, rfl⟩ := List.mem_map.mp there
  split
  · rfl
  next running => simpa using running

/-- The disposal is confined to the tickets of its instance, at whatever times it looks at the
clock, exactly if its number and the deadlines are theirs alone. -/
theorem quiesced_confined_iff : (∀ now late, Confined c rec (quiesced c rec.instanceId now late)) ↔
    Apart c rec := by
  constructor
  · intro h t there which
    have found := CallsTable.get_of_mem there
    rcases which with number | ⟨running, deadline⟩
    · obtain ⟨t', found', same⟩ := (quiesced_same c rec.instanceId 0 0).forward found
      have pending : t' ∈ (quiesced c rec.instanceId 0 0).pendingFor rec.instanceId :=
        List.mem_filter.mpr ⟨(CallsTable.get_eq_some.mp found').1,
          by simp [same.instanceId, number]⟩
      obtain ⟨t₀, found₀, mine⟩ := (h 0 0).waits t' pending
      rw [same.id] at found₀
      cases found.symm.trans found₀
      exact mine
    · by_contra other
      obtain ⟨instant, bound⟩ := Option.ne_none_iff_exists'.mp deadline
      have kept := (h 0 instant).framed t.id t found other
      have none := quiesced_none_overdue c rec.instanceId 0 instant t
        (CallsTable.get_eq_some.mp kept).1
      simp [CallsTable.overdue, running, bound] at none
  · intro apart now late
    refine ⟨quiesced_framed apart now late, fun t' there => ?_⟩
    obtain ⟨there, number⟩ := List.mem_filter.mp there
    obtain ⟨t, found, same⟩ := (quiesced_same c rec.instanceId now late).backward
      (CallsTable.get_of_mem there)
    refine ⟨t, found, apart t (CallsTable.get_eq_some.mp found).1 (.inl ?_)⟩
    rw [← same.instanceId]
    simpa using number

/-! ### The disposal -/

variable {depth : Nat} {rules : Rules} {s : KState} {α : Type} {p : KProg α}

/-- Actions that neither touch the tickets nor create or claim a context. -/
abbrev ticketless (β : Type) : KAct β → Prop
  | .calls _ | .ctx (.create _ _ _) | .ctx (.claimDispose _) => False
  | _ => True

theorem ticketless_keeps (h : Composed ticketless (fun _ _ => False) p) (c : CallsTable) :
    (reading depth rules).Keeps (fun s => s.calls = c) p := by
  refine Keeps.composed h (fun β a known s _ => ?_) (fun β a known s b s' same step => ?_)
    fun _ _ none => none.elim
  · cases a with
    | calls a => exact known.elim
    | ctx a => cases a <;> first | exact known.elim | trivial
    | _ => trivial
  · rw [← same]
    change KernelSequence.may a s b s' at step
    cases a with
    | calls a => exact known.elim
    | grant a => cases a <;> cases step <;> rfl
    | now | spawn | awaitSettled => exact congrArg _ step
    | lockAdmit =>
      simp only [KernelSequence.may, timed, KAct.sem, Bool.false_eq_true, if_false] at step
      split_ifs at step
      cases step
      rfl
    | _ =>
      cases step
      rfl

theorem unpublish_ticketless (rec : ContextRecord) (handle : ResourceHandle) :
    Composed ticketless (fun _ _ => False) (unpublish rec handle) := by
  refine .next fun rr => ?_
  cases rr with
  | none => exact .pure _
  | some rr =>
    refine .ite (.pure _) ?_
    cases rr.kind with
    | cap name => exact .once
    | sub topic => exact .once
    | _ => exact .pure ()

theorem awaitDrain_ticketless (inst : InstanceId) (drainUntil : Option Nat) :
    Composed ticketless (fun _ _ => False) (awaitDrain inst drainUntil) := by
  cases drainUntil with
  | none => exact .pure _
  | some instant =>
    exact .next fun _ => .ite (.map .once) (.pure _)

theorem journalRevoked_ticketless (reason : String) (revoked : List TicketRecord) :
    Composed ticketless (fun _ _ => False) (journalRevoked reason revoked) :=
  .forEach _ fun _ => .once

theorem withdrawTickets_tickets (rec : ContextRecord) (now : Nat) (ts : List TicketRecord)
    (drainUntil : Option Nat) (c : CallsTable) (s : KState) (same : s.calls = c) :
    (reading depth rules).After (withdrawTickets rec now ts drainUntil)
      (fun _ s' => s'.calls = ts.foldl (withdrawn now) c) s := by
  induction ts generalizing drainUntil c s with
  | nil => exact same
  | cons t ts ih =>
    subst same
    simp only [withdrawTickets, withdrawTicket, Prog.bind_eq, after_bind, List.foldl_cons,
      withdrawn]
    cases t.policy.onWithdraw with
    | cancel =>
      simp only [after_bind, after_calls, TicketAct.run]
      refine ⟨trivial, .ite (fun _ => ?_) fun _ => ih drainUntil _ _ rfl⟩
      simp only [after_bind, after_journal]
      exact ih drainUntil _ _ rfl
    | drain =>
      simp only [after_bind, after_calls, after_journal, TicketAct.run]
      exact ⟨trivial, ih _ _ _ rfl⟩

theorem quiesce_tickets (rec : ContextRecord) : (reading depth rules).After (quiesce rec)
    (fun _ s' => ∃ now late, s'.calls = quiesced s.calls rec.instanceId now late) s := by
  simp only [quiesce, pruneDepBindings, Prog.bind_eq, after_bind, after_comp, after_emit, after_res]
  refine After.mono (ticketless_keeps (.forEach _ fun h => unpublish_ticketless rec h) s.calls _ ?_)
    fun _ s₁ same => ?_
  · rfl
  simp only [after_bind, after_now, after_calls, TicketAct.run]
  refine fun now => ⟨trivial, ?_⟩
  rw [same]
  refine After.mono (withdrawTickets_tickets rec now _ none s.calls _ ?_)
    fun drainUntil s₂ withdrawn => ?_
  · rfl
  refine (ticketless_keeps (awaitDrain_ticketless ..) _ s₂ withdrawn).bind fun _ s₃ withdrawn => ?_
  simp only [after_bind, after_calls, TicketAct.run]
  refine ⟨trivial, ?_⟩
  refine (ticketless_keeps (journalRevoked_ticketless ..) (withdrawnAll s.calls rec.instanceId now)
    _ ?_).mono fun _ s₄ all => ?_
  · rw [withdrawnAll, ← withdrawn]
  simp only [after_now, after_bind, after_calls, TicketAct.run]
  refine fun late => ⟨trivial, ?_⟩
  rw [all]
  refine After.mono (After.forEach (P := fun (ids : List TicketId) (s' : KState) =>
    ids.foldl (fun c id => (c.revokeDescendants id "parent-expired").2) s'.calls =
      quiesced s.calls rec.instanceId now late) ?_ _ rfl) fun _ s' h => ⟨now, late, h⟩
  intro id ids s₅ h
  simp only [revokeTicketDescendants, Prog.bind_eq, after_bind, after_journal, after_calls,
    TicketAct.run]
  refine ⟨trivial, (ticketless_keeps (journalRevoked_ticketless ..) _ _ rfl).mono ?_⟩
  intro _ s₆ same'
  rw [same']
  exact h

/-- Releasing and marking are no business of the tickets. -/
theorem settleDispose_tickets (rec : ContextRecord) :
    (reading depth .none).After (settleDispose rec) (fun _ s' => s'.calls = s.calls) s := by
  have releases : (reading depth .none).After (releaseContextResources rec)
      (fun _ s' => s'.calls = s.calls) s := by
    refine Keeps.composed (P := fun s' => s'.calls = s.calls)
      (releaseContextResources_releases rec) (fun β a ha s' _ => ?_) ?_
      (fun _ _ none => none.elim) s rfl
    · cases a with
      | ctx | calls => exact ha.elim
      | _ => exact trivial
    · intro β a ha s₁ b s₂ same acts
      cases a with
      | res | pub =>
        cases acts
        exact same
      | _ => exact ha.elim
  refine After.bind releases fun failures s₁ same => ?_
  dsimp only
  split <;>
  · simp only [Prog.bind_eq, after_bind, after_ctx, after_comp, after_journal]
    exact ⟨trivial, same⟩


/-- A disposal that sees live work cites it. -/
theorem park_reports (again : KProg Unit) (rec : ContextRecord)
    (live : 0 < s.calls.pendingCount rec.instanceId) :
    (reading depth rules).After (park again rec) (fun out s' => s'.calls = s.calls ∧
      out = .cleanupPending (inflightCause (s.calls.pendingFor rec.instanceId))) s := by
  simp only [park, Prog.bind_eq, after_bind, after_calls, after_ctx, after_comp, after_journal,
    TicketAct.run, Rules.calls, ContextAct.run, Rules.ctx, true_and, ComposeAct.run]
  refine After.neg (Nat.ne_of_gt live) ?_
  simp only [parkOutcome, Prog.bind_eq, after_bind, after_ctx, ContextAct.run, Rules.ctx, true_and,
    ContextTable.markCleanupPending, ContextTable.revise_byInstance, if_true]
  cases found : s.contexts.byInstance rec.instanceId with
  | none => simp [ContextAct.run, Rules.ctx, ContextTable.revise_byInstance, found]
  | some cur =>
    refine After.neg (by simp [Fsm.canonical]) ?_
    simp [ContextAct.run, Rules.ctx, ContextTable.revise_byInstance, found]

/-- What a disposal does to the tickets, and what it waits for. -/
theorem disposeInstanceInner_tickets (again : KProg Unit) {inst : InstanceId}
    (found : s.contexts.byInstance inst = some rec) (live : rec.state.live = true) :
    (reading depth .none).After (disposeInstanceInner again inst) (fun out s' =>
      ∃ now late, s'.calls = quiesced s.calls inst now late ∧ (0 < s'.calls.pendingCount inst →
        out = .cleanupPending (inflightCause (s'.calls.pendingFor inst)))) s := by
  obtain ⟨rfl, -⟩ := s.contexts.issued inst rec found
  have claimed : s.contexts.claimDispose rec.instanceId =
      (.ok (.fresh { rec with state := .quiescing, cause := none }),
        s.contexts.revise rec.instanceId .quiescing none) := by
    revert live
    cases h : rec.state <;> simp [ContextTable.claimDispose, found, h, Fsm.canonical, Fsm.live]
  have state : rec.state.canonical = .registered ∨ rec.state.canonical = .waiting ∨
      rec.state.canonical = .preparing ∨ rec.state.canonical = .active := by
    revert live
    cases rec.state <;> decide
  simp only [disposeInstanceInner, Prog.bind_eq, after_bind, after_ctx, ContextAct.run, Rules.ctx,
    true_and, found]
  rcases state with h | h | h | h <;>
  · simp only [h, after_bind, after_ctx, ContextAct.run, claimed]
    refine ⟨trivial, (quiesce_tickets _).mono ?_⟩
    rintro _ s₁ ⟨now, late, table⟩
    simp only [after_bind, after_calls, TicketAct.run]
    refine ⟨trivial, .ite (fun waits => ?_) fun idle => ?_⟩
    · refine (park_reports again _ waits).mono
        fun out s' h => ⟨now, late, h.1.trans table, fun _ => ?_⟩
      rw [h.1]
      exact h.2
    · refine (settleDispose_tickets _).mono fun out s' same => ?_
      rw [same]
      exact ⟨now, late, table, fun waits => absurd waits idle⟩

/-- A disposal takes the tickets to `quiesced` and waits for those that carry its number; it
changes and waits for nothing but the tickets of its instance and their descendants, at whatever
times it looks at the clock, if and only if the tickets with its number and the open tickets with
a deadline are such. -/
theorem disposal_confined_iff (again : KProg Unit) {inst : InstanceId}
    (found : s.contexts.byInstance inst = some rec) (live : rec.state.live = true) :
    (reading depth .none).After (disposeInstanceInner again inst) (fun out s' =>
      ∃ now late, s'.calls = quiesced s.calls inst now late ∧ (0 < s'.calls.pendingCount inst →
        out = .cleanupPending (inflightCause (s'.calls.pendingFor inst)))) s ∧
    ((∀ now late, Confined s.calls rec (quiesced s.calls inst now late)) ↔ Apart s.calls rec) := by
  refine ⟨disposeInstanceInner_tickets again found live, ?_⟩
  obtain ⟨rfl, -⟩ := s.contexts.issued inst rec found
  exact quiesced_confined_iff

/-- Disposing of the consumer in a call is confined to that call. -/
theorem consumer_disposal_confined : ∃ c : Config (kernel 1), ∃ rec,
    Run (oneAtATime (reading 1 .none) fun _ _ => True) (.boot (KState.boot 1)) c ∧
      c.mem.contexts.byInstance 2 = some rec ∧ c.mem.calls.tickets ≠ [] ∧
      ∀ now late, Confined c.mem.calls rec (quiesced c.mem.calls 2 now late) := by
  obtain ⟨c, run, there, busy⟩ := Config.reaches (.boot (KState.boot 1)) _
    (P := fun c : Config (kernel 1) => ((c.mem.contexts.byInstance 2).any fun rec =>
      rec.state.live && c.mem.calls.tickets.all fun t => decide (t.instanceId = rec.instanceId ∧
        t.logical = rec.logical)) = true ∧ c.mem.calls.tickets ≠ [])
    (oneAtATime_of_alone (reading 1 .none)) 200 consumerInCall (by decide +kernel)
  simp only [Bool.and_eq_true, Option.any_eq_true, List.all_eq_true, decide_eq_true_eq] at there
  obtain ⟨rec, found, live, own⟩ := there
  refine ⟨c, rec, run, found, busy, ?_⟩
  refine (@disposal_confined_iff rec 1 c.mem (.pure ()) 2 found live).2.mpr fun t there _ => ?_
  exact .own (own t there).1 (own t there).2

/-- A definition of another host that provides `x`. -/
def farProvider : StoredManifest :=
  { StoredManifest.component "r" ["x"] [] none with remote := true, providesOnly := fun _ => rfl }

/-- A call of the consumer has a leg on another host whose attested number is that of a local
instance. -/
def farLeg {depth : Nat} : List (Turn (kernel depth)) :=
  [.start 0 (.loadManifest (.component "p" ["z"] [] none)), .finish 0,
    .start 0 (.installRemoteDefinition farProvider), .finish 0,
    .start 0 (.registerRemoteProvider "r" 1 1 "peer"), .finish 0,
    .start 0 (.loadManifest consumer), .finish 0, .start 0 (.grantOutbound "c" "x"), .finish 0,
    .start 0 (.callOpen "y" none []), .finish 0,
    .start 0 (.dependencyAdmit { childRequest with binding := "rb-1" }), .finish 0]

/-- Disposing of the local instance cancels the leg and waits for it. -/
theorem disposal_cancels_far_leg : ∃ c c' : Config (kernel 1),
    Run (oneAtATime (reading 1 .none) fun _ _ => True) (.boot (KState.boot 1)) c ∧
      Run (oneAtATime (reading 1 .none) fun _ _ => True) c c' ∧
      (c.mem.contexts.byInstance 1).map (·.logical) = some "p" ∧
      (c.mem.calls.get 2).map (fun t => (t.logical, t.instanceId, t.state)) =
        some ("r", 1, .admitted) ∧
      (c'.mem.calls.get 2).map (·.state) = some .cancelled ∧
      c'.mem.contexts.stateOf 1 = some .cleanupPending := by
  obtain ⟨c, run, local', leg, next⟩ := Config.reaches (.boot (KState.boot 1)) _
    (P := fun c : Config (kernel 1) => (c.mem.contexts.byInstance 1).map (·.logical) = some "p" ∧
      (c.mem.calls.get 2).map (fun t => (t.logical, t.instanceId, t.state)) =
        some ("r", 1, .admitted) ∧
      (c.play (single (reading 1 .none) fun _ _ => true) 300
        [.start 0 (.disposeInstance 1), .finish 0]).any (fun c' =>
          decide ((c'.mem.calls.get 2).map (·.state) = some .cancelled ∧
            c'.mem.contexts.stateOf 1 = some .cleanupPending)) = true)
    (oneAtATime_of_alone (reading 1 .none)) 300 farLeg (by decide +kernel)
  obtain ⟨c', later, after⟩ := c.reaches _ (oneAtATime_of_alone _) 300 _ next
  exact ⟨c, c', run, later, local', leg, after⟩

end MatrixRuntime.DisposalFrame
