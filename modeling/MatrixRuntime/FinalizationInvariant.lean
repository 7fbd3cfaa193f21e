import MatrixRuntime.ReconcileFrame
import MatrixRuntime.TicketFrame
import MatrixRuntime.TraceMarks

/-! Disposal and finalization under any interleaving. Two things are tracked through
a run: a context that reached `Disposed`, and the thread that owes a parked
instance its finalization. A thread incurs that duty when it takes out a ticket or
parks an instance, and settles it by seeing live work, by handing over to a
finalization in progress or by finishing one. -/

namespace MatrixRuntime.FinalizationInvariant

open KernelContexts KernelTickets KernelResources KernelState KernelActions KernelReconcile
open InterleavedMachine RelyGuarantee KernelOperations ReconcileFrame TicketFrame TraceMarks
open KernelCalls DependencyAdmission

variable {depth : Nat} {inst : InstanceId} {t : ContextTable}

/-! ### What a run is about -/

/-- A record that refuses release. -/
def Failing (r : ResourceRecord) : Prop :=
  r.state = .active ∧ ∃ label, r.kind = .failRelease label

/-- The instance owns a resource that refuses release. A context has the number of its
instance. -/
def FailsRelease (s : KState) (inst : InstanceId) : Prop :=
  ∃ h r, s.resources.records h = some r ∧ Failing r ∧ r.ownerContext = inst

/-- Some ticket names the instance. -/
def Named (c : CallsTable) (inst : InstanceId) : Prop :=
  ∃ id t, c.get id = some t ∧ t.instanceId = inst

/-- `CleanupPending` with nothing left to wait for. -/
def Stranded (s : KState) (inst : InstanceId) : Prop :=
  s.contexts.stateOf inst = some .cleanupPending ∧ ¬ Named s.calls inst ∧ ¬ FailsRelease s inst

instance (r : ResourceRecord) : Decidable (Failing r) :=
  match h : r.kind with
  | .failRelease label => decidable_of_iff (r.state = .active) ⟨fun hs => ⟨hs, label, h⟩, And.left⟩
  | .cap _ | .sub _ | .timer _ _ | .task _ | .failAcquire _ =>
    isFalse fun ⟨_, _, hk⟩ => nomatch h.symm.trans hk

theorem failsRelease_iff (s : KState) (inst : InstanceId) :
    (∃ h ∈ s.resources.byOwner inst, ∃ r ∈ s.resources.records h, Failing r) ↔
      FailsRelease s inst := by
  constructor
  · rintro ⟨h, hmem, r, hr, hf⟩
    exact ⟨h, r, hr, hf, (s.resources.owned h r inst hr).mp hmem⟩
  · rintro ⟨h, r, hr, hf, howner⟩
    exact ⟨h, (s.resources.owned h r inst hr).mpr howner, r, hr, hf⟩

instance (s : KState) (inst : InstanceId) : Decidable (FailsRelease s inst) :=
  decidable_of_iff _ (failsRelease_iff s inst)

instance (c : CallsTable) (inst : InstanceId) : Decidable (Named c inst) :=
  decidable_of_iff (c.pendingCount inst ≠ 0) (by
    rw [ne_eq, CallsTable.pendingCount_eq_zero]
    simp [Named])

instance (s : KState) (inst : InstanceId) : Decidable (Stranded s inst) :=
  inferInstanceAs (Decidable (_ ∧ _ ∧ _))

/-- The operations of these runs: calls opened, ended and admitted, grants, finalizations,
and everything that composes and disposes. -/
def covered : Op → Bool
  | .callOpen _ _ _ | .callCancel _ _ | .callClose _ | .callReap _ _ | .settleTicket _
  | .maybeFinalize _ | .dependencyAdmit _ | .grantOutbound _ _ | .revokeOutbound _ _ => true
  | op => recomposes op

/-- A refreshed cause is not written over a context that was disposed since it was read. -/
def refreshInTime (o : Obs (kernel depth)) : Label (kernel depth) → Prop
  | .act _ (KAct.ctx (.markCleanupPending .refreshed inst _)) _ =>
    o.mem.contexts.stateOf inst ≠ some .disposed
  | _ => True

/-- A rollback does not take the last ticket of an instance parked for it. -/
def rollbackInTime (o : Obs (kernel depth)) : Label (kernel depth) → Prop
  | .act _ (KAct.calls (.remove .rollback id)) _ =>
    ∀ t ∈ o.mem.calls.get id, o.mem.contexts.stateOf t.instanceId = some .cleanupPending →
      FailsRelease o.mem t.instanceId ∨
        ∃ u ∈ o.mem.calls.tickets, u.id ≠ id ∧ u.instanceId = t.instanceId
  | _ => True

instance (o : Obs (kernel depth)) (label : Label (kernel depth)) :
    Decidable (refreshInTime o label) := by
  unfold refreshInTime
  split <;> infer_instance

instance (o : Obs (kernel depth)) (label : Label (kernel depth)) :
    Decidable (rollbackInTime o label) := by
  unfold rollbackInTime
  split <;> infer_instance

/-- Only operations of `covered` are started. -/
def startsCovered : Label (kernel depth) → Bool
  | .start _ op => covered op
  | _ => true

/-! ### Marks and claims -/

/-- The thread now owes the instance a look at whether it can be finalized. -/
def incurs {β : Type} : KAct β → β → InstanceId → Prop
  | .calls (.remove .close _), some r, inst => r.instanceId = inst
  | .calls (.remove .settle _), some r, inst => r.instanceId = inst
  | .calls (.tryClaimCleanup k), claimed, inst => claimed = true ∧ k = inst
  | .ctx (.markCleanupPending .parked k _), _, inst => k = inst
  | _, _, _ => False

/-- The thread has looked: the instance is not parked, has live work, is being finalized by
another thread, or was finalized by this one. -/
def discharges {β : Type} : KAct β → β → InstanceId → Prop
  | .ctx (.get k), rec, inst => k = inst ∧ rec.map (·.state) ≠ some .cleanupPending
  | .ctx (.markDisposed k), _, inst => k = inst
  | .ctx (.markCleanupPending .failed k _), _, inst => k = inst
  | .calls (.pendingCount k), live, inst => k = inst ∧ 0 < live
  | .calls (.tryClaimCleanup k), claimed, inst => claimed = false ∧ k = inst
  | _, _, _ => False

def duty : Mark KAct InstanceId := ⟨incurs, discharges⟩

def takesClaim {β : Type} : KAct β → β → InstanceId → Prop
  | .calls (.tryClaimCleanup k), claimed, inst => claimed = true ∧ k = inst
  | _, _, _ => False

def dropsClaim {β : Type} : KAct β → β → InstanceId → Prop
  | .calls (.releaseCleanupClaim k), _, inst => k = inst
  | _, _, _ => False

/-- The thread holds the cleanup claim of the instance. -/
def finalizing : Mark KAct InstanceId := ⟨takesClaim, dropsClaim⟩

def wins {β : Type} : KAct β → β → InstanceId → Prop
  | .ctx (.claimDispose k), .ok (.fresh _), inst => k = inst
  | _, _, _ => False

/-- The thread's dispose won the instance; it never stops having won it. -/
def winner : Mark KAct InstanceId := .ever wins

/-! ### The discipline -/

structure Inv (m₀ : KState) (strict : Bool) (o : KObs depth) : Prop where
  fails : ∀ h r, Failing r →
    (o.mem.resources.records h = some r ↔ m₀.resources.records h = some r)
  withdrawn : ∀ i inst, winner.On i inst o.trace →
    ∃ s, o.mem.contexts.stateOf inst = some s ∧ s.live = false
  once : ∀ i j inst, winner.On i inst o.trace → winner.On j inst o.trace → i = j
  idle : ∀ i, inCall i o.trace = none →
    ∀ inst, ¬ duty.On i inst o.trace ∧ ¬ finalizing.On i inst o.trace
  owed : strict = true → ∀ inst, Stranded o.mem inst → ∃ i, duty.On i inst o.trace
  held : strict = true → ∀ inst, o.mem.calls.cleanupClaims inst = true →
    ∃ i, finalizing.On i inst o.trace ∧ (o.mem.contexts.stateOf inst = some .disposed ∨
      (o.mem.contexts.stateOf inst = some .cleanupPending ∧
        (duty.On i inst o.trace ∨ FailsRelease m₀ inst)))

/-- What a thread's step does to contexts: `Disposed` stays, a parked context is only finished,
a quiescing one is only moved by the dispose that claimed it, and only a context with nothing
that refuses release becomes `Disposed`. -/
structure Guar (m₀ : KState) (i : Nat) (o o' : KObs depth) : Prop where
  disposed : ∀ inst, o.mem.contexts.stateOf inst = some .disposed →
    o'.mem.contexts.stateOf inst = some .disposed
  parked : ∀ inst, o.mem.contexts.stateOf inst = some .cleanupPending →
    o'.mem.contexts.stateOf inst = some .cleanupPending ∨
      o'.mem.contexts.stateOf inst = some .disposed
  quiescing : ∀ inst, o.mem.contexts.stateOf inst = some .quiescing →
    o'.mem.contexts.stateOf inst = some .quiescing ∨ winner.On i inst o.trace
  clean : ∀ inst, o'.mem.contexts.stateOf inst = some .disposed →
    o.mem.contexts.stateOf inst = some .disposed ∨ ¬ FailsRelease m₀ inst

def discipline (depth : Nat) (m₀ : KState) (strict : Bool) : Discipline (kernel depth) where
  inv := Inv m₀ strict
  guar := Guar m₀
  ok o label := startsCovered label = true ∧ refreshInTime o label ∧
    (strict = true → rollbackInTime o label)

/-- The thread's own dispose is still going on. -/
def Won (i : Nat) (k : InstanceId) (o : KObs depth) : Prop :=
  winner.On i k o.trace ∧ o.mem.contexts.stateOf k = some .quiescing

/-- Parked, or disposed since. -/
def Parked (k : InstanceId) (o : KObs depth) : Prop :=
  o.mem.contexts.stateOf k = some .cleanupPending ∨ o.mem.contexts.stateOf k = some .disposed

/-- When a thread may take an action. -/
def guardContext (m₀ : KState) (i : Nat) (o : KObs depth) {β : Type} :
    ContextAct β → Prop
  | .create _ state _ => state = .waiting ∨ state = .active
  | .markDisposed k => ¬ FailsRelease m₀ k ∧ (Parked k o ∨ Won i k o)
  | .markCleanupPending .refreshed k _ => Parked k o
  | .markCleanupPending .failed k _ => FailsRelease m₀ k ∧
      (o.mem.contexts.stateOf k = some .cleanupPending ∨ Won i k o)
  | .markCleanupPending .parked k _ => Won i k o
  | .markFailed _ _ => False
  | _ => True

def guardTicket (i : Nat) (o : KObs depth) {β : Type} : TicketAct β → Prop
  | .pendingCount k => ¬ finalizing.On i k o.trace
  | .tryClaimCleanup k => ¬ finalizing.On i k o.trace ∧ Parked k o
  | _ => True

def guardResource (m₀ : KState) {β : Type} : ResourceAct β → Prop
  | .insert _ kind => ∀ label, kind ≠ .failRelease label
  | .claimRelease h => ∀ r, m₀.resources.records h = some r → ¬ Failing r
  | .discard _ _ | .rollbackRegister _ => False
  | _ => True

def guard (m₀ : KState) (i : Nat) (o : KObs depth) {β : Type} : KAct β → Prop
  | .ctx a => guardContext m₀ i o a
  | .calls a => guardTicket i o a
  | .res a => guardResource m₀ a
  | _ => True

section Step

variable {m₀ : KState} {strict : Bool} {o : KObs depth} {i : Nat} {β : Type}
  {a : KAct β} {b : β} {mem : KState}

theorem Inv.failsRelease (h : Inv m₀ strict o) (inst : InstanceId) :
    FailsRelease o.mem inst ↔ FailsRelease m₀ inst := by
  constructor
  · rintro ⟨handle, r, hr, failing, owner⟩
    exact ⟨handle, r, (h.fails handle r failing).mp hr, failing, owner⟩
  · rintro ⟨handle, r, hr, failing, owner⟩
    exact ⟨handle, r, (h.fails handle r failing).mpr hr, failing, owner⟩

theorem winner_act {j : Nat} {tr : List (KLabel depth)} :
    winner.On j inst (.act i a b :: tr) ↔ (i = j ∧ wins a b inst) ∨ winner.On j inst tr :=
  Mark.ever_act

theorem Guar.of_contexts {o' : KObs depth}
    (h : ∀ inst, o'.mem.contexts.stateOf inst = o.mem.contexts.stateOf inst) : Guar m₀ i o o' where
  disposed inst hs := by rw [h, hs]
  parked inst hs := .inl (by rw [h, hs])
  quiescing inst hs := .inl (by rw [h, hs])
  clean inst hs := .inl (by rw [← h, hs])

/-- The invariant after an action, from what the action does to each table and mark. -/
theorem Inv.acted (h : Inv m₀ strict o) (busy : inCall i o.trace ≠ none)
    (guar : Guar m₀ i o (o.acted i a b mem)) (fails : ∀ handle r, Failing r →
      (mem.resources.records handle = some r ↔ o.mem.resources.records handle = some r))
    (kept : ∀ inst s, o.mem.contexts.stateOf inst = some s → s.live = false →
      ∃ s', mem.contexts.stateOf inst = some s' ∧ s'.live = false)
    (won : ∀ inst, wins a b inst → (∀ j, ¬ winner.On j inst o.trace) ∧
      ∃ s, mem.contexts.stateOf inst = some s ∧ s.live = false)
    (owed : strict = true → ∀ inst, Stranded mem inst →
      incurs a b inst ∨ (Stranded o.mem inst ∧ ¬ discharges a b inst) ∨
        ∃ j, j ≠ i ∧ duty.On j inst o.trace)
    (claims : strict = true → ∀ inst, mem.calls.cleanupClaims inst = true →
      (takesClaim a b inst ∧ incurs a b inst ∧ Parked inst o ∧
        mem.contexts.stateOf inst = o.mem.contexts.stateOf inst) ∨
      (o.mem.calls.cleanupClaims inst = true ∧ ¬ dropsClaim a b inst ∧
        (discharges a b inst → finalizing.On i inst o.trace →
          FailsRelease m₀ inst ∨ mem.contexts.stateOf inst = some .disposed))) :
    Inv m₀ strict (o.acted i a b mem) where
  fails handle r failing := (fails handle r failing).trans (h.fails handle r failing)
  withdrawn j inst hj := by
    rcases winner_act.mp hj with ⟨-, hwins⟩ | hj
    · exact (won inst hwins).2
    · obtain ⟨s, hs, hlive⟩ := h.withdrawn j inst hj
      exact kept inst s hs hlive
  once j j' inst hj hj' := by
    rcases winner_act.mp hj with ⟨rfl, hwins⟩ | hj
    · rcases winner_act.mp hj' with ⟨rfl, -⟩ | hj'
      · rfl
      · exact absurd hj' ((won inst hwins).1 j')
    · rcases winner_act.mp hj' with ⟨rfl, hwins⟩ | hj'
      · exact absurd hj ((won inst hwins).1 j)
      · exact h.once j j' inst hj hj'
  idle j hidle inst := by
    have hne : i ≠ j := fun e => busy (e ▸ hidle)
    obtain ⟨hduty, hfin⟩ := h.idle j hidle inst
    exact ⟨fun hj => hduty ((Mark.on_other rfl hne).mp hj),
      fun hj => hfin ((Mark.on_other rfl hne).mp hj)⟩
  owed hs inst stranded := by
    rcases owed hs inst stranded with hincurs | ⟨hbefore, hdis⟩ | ⟨j, hne, hj⟩
    · exact ⟨i, .inl ⟨rfl, hincurs⟩⟩
    · obtain ⟨j, hj⟩ := h.owed hs inst hbefore
      exact ⟨j, .inr ⟨hj, fun hd => hdis hd.2⟩⟩
    · exact ⟨j, (Mark.on_other rfl hne.symm).mpr hj⟩
  held hs inst hclaim := by
    rcases claims hs inst hclaim with ⟨htakes, hincurs, hparked, hsame⟩ | ⟨hbefore, hdrops, hdis⟩
    · refine ⟨i, .inl ⟨rfl, htakes⟩, ?_⟩
      rcases hparked with hparked | hdisposed
      · exact .inr ⟨hsame.trans hparked, .inl (.inl ⟨rfl, hincurs⟩)⟩
      · exact .inl (hsame.trans hdisposed)
    · obtain ⟨j, hj, hwhy⟩ := h.held hs inst hbefore
      refine ⟨j, .inr ⟨hj, fun hd => hdrops hd.2⟩, ?_⟩
      rcases hwhy with hdisposed | ⟨hparked, hwhy⟩
      · exact .inl (guar.disposed inst hdisposed)
      · rcases guar.parked inst hparked with hparked' | hdisposed'
        · refine .inr ⟨hparked', ?_⟩
          rcases hwhy with hduty | hfails
          · by_cases hown : i = j ∧ discharges a b inst
            · obtain ⟨rfl, hd⟩ := hown
              rcases hdis hd hj with hfails | hdisposed'
              · exact .inr hfails
              · rw [Obs.acted_mem, hdisposed'] at hparked'
                cases hparked'
            · exact .inl (.inr ⟨hduty, hown⟩)
          · exact .inr hfails
        · exact .inl hdisposed'

/-- How a step of thread `i` may move a context: towards `Active` or into quiescence, out of its
own quiescence, or from parked to disposed. -/
inductive Moves (m₀ : KState) (i : Nat) (o : KObs depth) (t : ContextTable)
    (inst : InstanceId) : Prop
  | same (after : t.stateOf inst = o.mem.contexts.stateOf inst)
  | forward (s' : Fsm) (before : ∀ s, o.mem.contexts.stateOf inst = some s → s.live = true)
      (after : t.stateOf inst = some s') (parked : s' ≠ .cleanupPending) (disposed : s' ≠ .disposed)
  | finish (before : Parked inst o ∨ Won i inst o) (clean : ¬ FailsRelease m₀ inst)
      (after : t.stateOf inst = some .disposed)
  | park (before : Won i inst o) (after : t.stateOf inst = some .cleanupPending)

theorem Guar.of_moves (h : ∀ inst, Moves m₀ i o mem.contexts inst) :
    Guar m₀ i o (o.acted i a b mem) where
  disposed inst hs := by
    cases h inst with
    | same after => exact after.trans hs
    | forward s' before => exact absurd (before _ hs) (by decide)
    | finish _ _ after => exact after
    | park before => exact absurd (hs.symm.trans before.2) (by decide)
  parked inst hs := by
    cases h inst with
    | same after => exact .inl (after.trans hs)
    | forward s' before => exact absurd (before _ hs) (by decide)
    | finish _ _ after => exact .inr after
    | park _ after => exact .inl after
  quiescing inst hs := by
    cases h inst with
    | same after => exact .inl (after.trans hs)
    | forward s' before => exact absurd (before _ hs) (by decide)
    | finish before =>
      rcases before with (hp | hp) | hwon
      · exact absurd (hs.symm.trans hp) (by decide)
      · exact absurd (hs.symm.trans hp) (by decide)
      · exact .inr hwon.1
    | park before => exact .inr before.1
  clean inst hs := by
    cases h inst with
    | same after => exact .inl (after.symm.trans hs)
    | forward s' _ after _ disposed => exact absurd (Option.some.inj (after.symm.trans hs)) disposed
    | finish _ clean => exact .inr clean
    | park _ after => exact absurd (after.symm.trans hs) (by decide)

theorem Moves.kept (h : Moves m₀ i o t inst) {s : Fsm}
    (hs : o.mem.contexts.stateOf inst = some s) (hlive : s.live = false) :
    ∃ s', t.stateOf inst = some s' ∧ s'.live = false := by
  cases h with
  | same after => exact ⟨s, after.trans hs, hlive⟩
  | forward s' before => exact absurd (before s hs) (by simp [hlive])
  | finish _ _ after => exact ⟨_, after, rfl⟩
  | park _ after => exact ⟨_, after, rfl⟩

theorem Inv.parked_of_claim (h : Inv m₀ strict o) (hs : strict = true)
    (hclaim : o.mem.calls.cleanupClaims inst = true) : Parked inst o := by
  obtain ⟨j, -, hdisposed | ⟨hparked, -⟩⟩ := h.held hs inst hclaim
  · exact .inr hdisposed
  · exact .inl hparked

theorem Inv.movedContexts {a : ContextAct β} (h : Inv m₀ strict o)
    (busy : inCall i o.trace ≠ none) (moves : ∀ inst, Moves m₀ i o t inst)
    (won : ∀ inst, wins (.ctx a) b inst →
      (∃ s, o.mem.contexts.stateOf inst = some s ∧ s.live = true) ∧
        t.stateOf inst = some .quiescing)
    (owed : ∀ inst, t.stateOf inst = some .cleanupPending → ¬ FailsRelease m₀ inst →
      incurs (.ctx a) b inst ∨ (o.mem.contexts.stateOf inst = some .cleanupPending ∧
        ¬ discharges (.ctx a) b inst))
    (claims : ∀ inst, Parked inst o → discharges (.ctx a) b inst →
      FailsRelease m₀ inst ∨ t.stateOf inst = some .disposed) :
    Inv m₀ strict (o.acted i (.ctx a) b { o.mem with contexts := t }) ∧
      Guar m₀ i o (o.acted i (.ctx a) b { o.mem with contexts := t }) := by
  have guar : Guar m₀ i o (o.acted i (.ctx a) b { o.mem with contexts := t }) :=
    Guar.of_moves moves
  refine ⟨h.acted busy guar (fun _ _ _ => Iff.rfl) (fun inst s => (moves inst).kept) ?_ ?_ ?_, guar⟩
  · intro inst hwins
    obtain ⟨⟨s, hs, hlive⟩, hafter⟩ := won inst hwins
    refine ⟨fun j hj => ?_, _, hafter, rfl⟩
    obtain ⟨s', hs', hdead⟩ := h.withdrawn j inst hj
    rw [hs, Option.some.injEq] at hs'
    simp [hs', hdead] at hlive
  · rintro hs inst ⟨hstate, hnamed, hfails⟩
    rcases owed inst hstate (fun hf => hfails ((h.failsRelease inst).mpr hf)) with hin | ⟨hb, hd⟩
    · exact .inl hin
    · exact .inr (.inl ⟨⟨hb, hnamed, hfails⟩, hd⟩)
  · intro hs inst hclaim
    refine .inr ⟨hclaim, fun hd => ?_, fun hd _ => claims inst (h.parked_of_claim hs hclaim) hd⟩
    simp [dropsClaim] at hd

theorem Moves.revise {k : InstanceId} {s' : Fsm} {cause : Option String}
    (h : ∀ s, o.mem.contexts.stateOf k = some s →
      (o.mem.contexts.revise k s' cause).stateOf k = some s' →
      Moves m₀ i o (o.mem.contexts.revise k s' cause) k) (inst : InstanceId) :
    Moves m₀ i o (o.mem.contexts.revise k s' cause) inst := by
  by_cases hk : inst = k
  · subst hk
    cases hs : o.mem.contexts.stateOf inst with
    | none => exact .same (by rw [ContextTable.revise_stateOf, if_pos rfl, hs]; rfl)
    | some s => exact h s hs (by rw [ContextTable.revise_stateOf, if_pos rfl, hs]; rfl)
  · exact .same (by rw [ContextTable.revise_stateOf, if_neg hk])

/-- Actions on contexts that move none of them out of the states a dispose goes through. -/
theorem Inv.forwardContexts {a : ContextAct β} (h : Inv m₀ strict o)
    (busy : inCall i o.trace ≠ none) (moves : ∀ inst, t.stateOf inst = o.mem.contexts.stateOf inst ∨
      ∃ s', (∀ s, o.mem.contexts.stateOf inst = some s → s.live = true) ∧
        t.stateOf inst = some s' ∧ s' ≠ .cleanupPending ∧ s' ≠ .disposed)
    (quiet : ∀ inst, ¬ wins (.ctx a) b inst ∧ ¬ discharges (.ctx a) b inst) :
    Inv m₀ strict (o.acted i (.ctx a) b { o.mem with contexts := t }) ∧
      Guar m₀ i o (o.acted i (.ctx a) b { o.mem with contexts := t }) := by
  refine h.movedContexts busy (fun inst => ?_) (fun inst hw => absurd hw (quiet inst).1) ?_
    (fun inst _ hd => absurd hd (quiet inst).2)
  · rcases moves inst with hsame | ⟨s', before, after, hp, hd⟩
    · exact .same hsame
    · exact .forward s' before after hp hd
  · intro inst hafter _
    rcases moves inst with hsame | ⟨s', _, after, hp, _⟩
    · exact .inr ⟨hsame.symm.trans hafter, (quiet inst).2⟩
    · exact absurd (Option.some.inj (after.symm.trans hafter)) hp

theorem sound_context {a : ContextAct β} (guard : guardContext m₀ i o a)
    (acts : (discipline depth m₀ strict).Acts i o (.ctx a) b mem) :
    Inv m₀ strict (o.acted i (.ctx a) b mem) ∧ Guar m₀ i o (o.acted i (.ctx a) b mem) := by
  have h := acts.inv
  have busy := acts.busy
  have ok := acts.ok
  have enabled := acts.enabled
  change some ((a.run o.mem.contexts).1, { o.mem with contexts := (a.run o.mem.contexts).2 }) =
    some (b, mem) at enabled
  cases enabled
  cases a with
  | epoch | current | currentAll | requireActive =>
    exact h.forwardContexts busy (fun _ => .inl rfl) (by simp [wins, discharges])
  | create logical state cause =>
    refine h.forwardContexts busy (fun inst => ?_) (by simp [wins, discharges])
    simp only [ContextAct.run, ContextTable.createIn_stateOf]
    split_ifs with hnew
    · subst hnew
      refine .inr ⟨state, fun s hs => absurd (ContextTable.stateOf_lt hs) (Nat.lt_irrefl _), rfl,
        ?_⟩
      rcases guard with rfl | rfl <;> decide
    · exact .inl rfl
  | get k =>
    refine h.movedContexts busy (fun _ => .same rfl) (by simp [wins]) ?_ ?_
    · refine fun inst hs _ => .inr ⟨hs, ?_⟩
      rintro ⟨rfl, hne⟩
      exact hne hs
    · rintro inst (hs | hs) ⟨rfl, hne⟩
      · exact absurd hs hne
      · exact .inr hs
  | claimDispose k =>
    rcases o.mem.contexts.claimDispose_cases k with ⟨htab, hne⟩ | ⟨rec, hrec, hlive, hclaim⟩
    · refine h.forwardContexts busy (fun inst => .inl (by rw [ContextAct.run, htab])) fun inst => ?_
      refine ⟨fun hw => ?_, by simp [discharges]⟩
      simp only [wins, ContextAct.run] at hw
      split at hw
      next heq => exact hne _ heq
      next => exact hw
    · have hstate : o.mem.contexts.stateOf k = some rec.state := by
        simp [ContextTable.stateOf, hrec]
      have hafter : (o.mem.contexts.revise k .quiescing none).stateOf k = some .quiescing := by
        rw [ContextTable.revise_stateOf, if_pos rfl, hstate]
        rfl
      simp only [ContextAct.run, hclaim]
      refine h.movedContexts busy (Moves.revise fun s hs after => ?_) ?_ ?_ (by simp [discharges])
      · refine .forward .quiescing (fun s' hs' => ?_) after (by decide) (by decide)
        rw [hstate, Option.some.injEq] at hs'
        rwa [← hs']
      · rintro inst rfl
        exact ⟨⟨_, hstate, hlive⟩, hafter⟩
      · intro inst hs _
        rw [ContextTable.revise_stateOf] at hs
        split_ifs at hs with hk
        · simp [hstate] at hs
        · exact .inr ⟨hs, by simp [discharges]⟩
  | markDisposed k =>
    obtain ⟨hclean, hbefore⟩ := guard
    refine h.movedContexts busy (Moves.revise fun s hs after => .finish hbefore hclean after)
      (by simp [wins]) ?_ ?_
    · intro inst hs _
      simp only [ContextAct.run, ContextTable.markDisposed, ContextTable.revise_stateOf] at hs
      split_ifs at hs with hk
      · simp at hs
      · exact .inr ⟨hs, fun hd => hk hd.symm⟩
    · rintro inst hparked rfl
      right
      simp only [ContextAct.run, ContextTable.markDisposed, ContextTable.revise_stateOf]
      rcases hparked with hp | hp <;> simp [hp]
  | markFailed => exact guard.elim
  | markActive k =>
    refine h.forwardContexts busy (fun inst => ?_) (by simp [wins, discharges])
    rcases o.mem.contexts.markActive_stateOf k inst with hsame | ⟨hafter, s, hs, hwait⟩
    · exact .inl hsame
    · refine .inr ⟨.active, fun s' hs' => ?_, hafter, by decide, by decide⟩
      rw [hs, Option.some.injEq] at hs'
      exact hs' ▸ Fsm.live_of_awaiting hwait
  | markWaiting k cause =>
    refine h.forwardContexts busy (fun inst => ?_) (by simp [wins, discharges])
    rcases o.mem.contexts.markWaiting_stateOf k inst cause with hsame | ⟨hafter, s, hs, hwait⟩
    · exact .inl hsame
    · refine .inr ⟨.waiting, fun s' hs' => ?_, hafter, by decide, by decide⟩
      rw [hs, Option.some.injEq] at hs'
      exact hs' ▸ Fsm.live_of_awaiting hwait
  | markCleanupPending writer k cause =>
    have hrevise : ∀ inst, (o.mem.contexts.markCleanupPending k cause).stateOf inst =
        some .cleanupPending → inst ≠ k → o.mem.contexts.stateOf inst = some .cleanupPending := by
      intro inst hs hk
      rwa [ContextTable.markCleanupPending, ContextTable.revise_stateOf, if_neg hk] at hs
    cases writer with
    | parked =>
      refine h.movedContexts busy (Moves.revise fun s hs after => .park guard after)
        (by simp [wins]) ?_ (by simp [discharges])
      intro inst hs _
      by_cases hk : inst = k
      · exact .inl hk.symm
      · exact .inr ⟨hrevise inst hs hk, by simp [discharges]⟩
    | failed =>
      obtain ⟨hfails, hbefore⟩ := guard
      refine h.movedContexts busy (Moves.revise fun s hs after => ?_) (by simp [wins]) ?_ ?_
      · rcases hbefore with hp | hwon
        · exact .same (after.trans hp.symm)
        · exact .park hwon after
      · intro inst hs hclean
        have hk : inst ≠ k := fun e => hclean (e ▸ hfails)
        exact .inr ⟨hrevise inst hs hk, fun hd => hk hd.symm⟩
      · rintro inst _ rfl
        exact .inl hfails
    | refreshed =>
      have hp : o.mem.contexts.stateOf k = some .cleanupPending := guard.resolve_right ok.2.1
      refine h.movedContexts busy (Moves.revise fun s hs after => .same (after.trans hp.symm))
        (by simp [wins]) ?_ (by simp [discharges])
      intro inst hs _
      by_cases hk : inst = k
      · exact .inr ⟨hk ▸ hp, by simp [discharges]⟩
      · exact .inr ⟨hrevise inst hs hk, by simp [discharges]⟩

/-- Actions on tickets, which leave every context where it is. -/
theorem Inv.movedCalls {a : TicketAct β} {c : CallsTable} (h : Inv m₀ strict o)
    (busy : inCall i o.trace ≠ none)
    (owed : strict = true → ∀ inst, o.mem.contexts.stateOf inst = some .cleanupPending →
      ¬ FailsRelease o.mem inst → ¬ Named c inst →
      incurs (.calls a) b inst ∨ (¬ Named o.mem.calls inst ∧ ¬ discharges (.calls a) b inst) ∨
        ∃ j, j ≠ i ∧ duty.On j inst o.trace) (claims : ∀ inst, c.cleanupClaims inst = true →
      (takesClaim (.calls a) b inst ∧ incurs (.calls a) b inst ∧ Parked inst o) ∨
      (o.mem.calls.cleanupClaims inst = true ∧ ¬ dropsClaim (.calls a) b inst ∧
        (discharges (.calls a) b inst → ¬ finalizing.On i inst o.trace))) :
    Inv m₀ strict (o.acted i (.calls a) b { o.mem with calls := c }) ∧
      Guar m₀ i o (o.acted i (.calls a) b { o.mem with calls := c }) := by
  have guar : Guar m₀ i o (o.acted i (.calls a) b { o.mem with calls := c }) :=
    Guar.of_contexts fun _ => rfl
  refine ⟨h.acted busy guar (fun _ _ _ => Iff.rfl) (fun inst s hs hl => ⟨s, hs, hl⟩) ?_ ?_ ?_, guar⟩
  · intro inst hw
    simp [wins] at hw
  · rintro hs inst ⟨hstate, hnamed, hfails⟩
    rcases owed hs inst hstate hfails hnamed with hin | ⟨hn, hd⟩ | hother
    · exact .inl hin
    · exact .inr (.inl ⟨⟨hstate, hn, hfails⟩, hd⟩)
    · exact .inr (.inr hother)
  · intro hs inst hclaim
    rcases claims inst hclaim with ⟨ht, hin, hp⟩ | ⟨hc, hd, hfin⟩
    · exact .inl ⟨ht, hin, hp, rfl⟩
    · exact .inr ⟨hc, hd, fun hdis hf => absurd hf (hfin hdis)⟩

theorem Named.same {c c' : CallsTable} (h : SameTickets c c')
    (hn : Named c inst) : Named c' inst := by
  obtain ⟨id, t, ht, hinst⟩ := hn
  obtain ⟨t', ht', same⟩ := h.forward ht
  exact ⟨id, t', ht', same.instanceId.trans hinst⟩

/-- The actions on tickets that end no call, look for no live work and touch no claim. -/
abbrev calmTicket (β : Type) : TicketAct β → Prop
  | .remove _ _ | .pendingCount _ | .tryClaimCleanup _ | .releaseCleanupClaim _ => False
  | _ => True

theorem calmTicket_named {a : TicketAct β} (calm : calmTicket β a) {c : CallsTable}
    (hn : Named c inst) : Named (a.run c).2 inst := by
  cases a with
  | alloc adm =>
    obtain ⟨id, t, ht, hinst⟩ := hn
    refine ⟨id, t, ?_, hinst⟩
    have hne : id ≠ c.nextTicket := Nat.ne_of_lt (CallsTable.get_lt ht)
    simpa only [TicketAct.run, CallsTable.alloc_get, if_neg hne] using ht
  | remove | pendingCount | tryClaimCleanup | releaseCleanupClaim => exact calm.elim
  | _ => exact hn.same (steady_sameTickets (by exact trivial) c)

theorem calmTicket_claims {a : TicketAct β} (calm : calmTicket β a) (c : CallsTable) :
    (a.run c).2.cleanupClaims = c.cleanupClaims := by
  cases a with
  | remove | pendingCount | tryClaimCleanup | releaseCleanupClaim => exact calm.elim
  | _ => rfl

theorem sound_ticket {a : TicketAct β} (guard : guardTicket i o a)
    (acts : (discipline depth m₀ strict).Acts i o (.calls a) b mem) :
    Inv m₀ strict (o.acted i (.calls a) b mem) ∧ Guar m₀ i o (o.acted i (.calls a) b mem) := by
  have h := acts.inv
  have busy := acts.busy
  have ok := acts.ok
  have enabled := acts.enabled
  change some ((a.run o.mem.calls).1, { o.mem with calls := (a.run o.mem.calls).2 }) =
    some (b, mem) at enabled
  cases enabled
  by_cases calm : calmTicket β a
  · have quiet : ∀ inst, ¬ dropsClaim (.calls a) (a.run o.mem.calls).1 inst ∧
        ¬ discharges (.calls a) (a.run o.mem.calls).1 inst := by
      cases a <;> first | exact calm.elim | simp [dropsClaim, discharges]
    refine h.movedCalls busy (fun _ inst _ _ hn => .inr (.inl ⟨?_, (quiet inst).2⟩)) ?_
    · exact fun hbefore => hn (calmTicket_named calm hbefore)
    · intro inst hclaim
      rw [calmTicket_claims calm] at hclaim
      exact .inr ⟨hclaim, (quiet inst).1, fun hd => absurd hd (quiet inst).2⟩
  · cases a with
    | pendingCount k =>
      refine h.movedCalls busy (fun _ inst _ _ hn => .inr (.inl ⟨hn, ?_⟩)) ?_
      · rintro ⟨rfl, hlive⟩
        have : o.mem.calls.pendingCount k = 0 :=
          CallsTable.pendingCount_eq_zero.mpr fun id t ht hinst => hn ⟨id, t, ht, hinst⟩
        exact absurd hlive (by simp [TicketAct.run, this])
      · intro inst hclaim
        refine .inr ⟨hclaim, by simp [dropsClaim], ?_⟩
        rintro ⟨rfl, -⟩
        exact guard
    | tryClaimCleanup k =>
      obtain ⟨hfin, hparked⟩ := guard
      refine h.movedCalls busy (fun hs inst hstate hfails hn => ?_) ?_
      · by_cases hdis : discharges (.calls (.tryClaimCleanup k)) (!o.mem.calls.cleanupClaims k) inst
        · -- the claim is taken: its holder is another thread, which owes the finalization
          obtain ⟨hclaim, rfl⟩ := hdis
          obtain ⟨j, hj, hwhy⟩ := h.held hs k (by simpa using hclaim)
          have hne : j ≠ i := fun e => hfin (e ▸ hj)
          rcases hwhy with hdisposed | ⟨-, hduty | hf⟩
          · exact absurd (hstate.symm.trans hdisposed) (by decide)
          · exact .inr (.inr ⟨j, hne, hduty⟩)
          · exact absurd ((h.failsRelease k).mpr hf) hfails
        · exact .inr (.inl ⟨hn, hdis⟩)
      · intro inst hclaim
        by_cases hk : inst = k
        · subst hk
          cases hc : o.mem.calls.cleanupClaims inst with
          | false =>
            exact .inl ⟨⟨by simp [TicketAct.run, CallsTable.tryClaimCleanup, hc], rfl⟩,
              ⟨by simp [TicketAct.run, CallsTable.tryClaimCleanup, hc], rfl⟩, hparked⟩
          | true => exact .inr ⟨rfl, by simp [dropsClaim], fun _ => hfin⟩
        · refine .inr ⟨?_, by simp [dropsClaim], fun hd => absurd hd.2.symm hk⟩
          simpa [TicketAct.run, CallsTable.tryClaimCleanup, hk] using hclaim
    | releaseCleanupClaim k =>
      refine h.movedCalls busy (fun _ inst _ _ hn => .inr (.inl ⟨hn, by simp [discharges]⟩)) ?_
      intro inst hclaim
      have hk : inst ≠ k := by
        rintro rfl
        simp [TicketAct.run, CallsTable.releaseCleanupClaim] at hclaim
      refine .inr ⟨?_, fun hd => hk hd.symm, by simp [discharges]⟩
      simpa [TicketAct.run, CallsTable.releaseCleanupClaim, hk] using hclaim
    | remove remover id =>
      refine h.movedCalls busy (fun hs inst hstate hfails hn => ?_)
        fun inst hclaim => .inr
          ⟨hclaim, by simp [dropsClaim], by cases remover <;> simp [discharges]⟩
      by_cases hbefore : Named o.mem.calls inst
      · -- the ticket taken out was the last to name the instance
        obtain ⟨id', t, ht, hinst⟩ := hbefore
        have hid : id' = id := by
          by_contra hne
          exact hn ⟨id', t, by simpa only [TicketAct.run, CallsTable.remove_get, if_neg hne]
            using ht,
            hinst⟩
        subst hid
        cases remover with
        | close =>
          left
          simpa only [TicketAct.run, CallsTable.remove, ht, incurs] using hinst
        | settle =>
          left
          simpa only [TicketAct.run, CallsTable.remove, ht, incurs] using hinst
        | rollback =>
          subst hinst
          rcases ok.2.2 hs t ht hstate with hf | ⟨u, hu, hne, hui⟩
          · exact absurd hf hfails
          · exact absurd ⟨u.id, u, by
              simpa only [TicketAct.run, CallsTable.remove_get, if_neg hne] using
                CallsTable.get_of_mem hu, hui⟩ hn
      · exact .inr (.inl ⟨hbefore, by cases remover <;> simp [discharges]⟩)
    | _ => exact absurd trivial calm

/-- Actions that touch neither contexts nor tickets nor what refuses release. -/
theorem Inv.plain (h : Inv m₀ strict o) (busy : inCall i o.trace ≠ none)
    (contexts : mem.contexts = o.mem.contexts) (calls : mem.calls = o.mem.calls)
    (resources : ∀ handle r, Failing r →
      (mem.resources.records handle = some r ↔ o.mem.resources.records handle = some r))
    (quiet : ∀ inst, ¬ discharges a b inst ∧ ¬ dropsClaim a b inst ∧ ¬ wins a b inst) :
    Inv m₀ strict (o.acted i a b mem) ∧ Guar m₀ i o (o.acted i a b mem) := by
  have guar : Guar m₀ i o (o.acted i a b mem) :=
    Guar.of_contexts fun inst => by rw [Obs.acted_mem, contexts]
  have hfails : ∀ inst, FailsRelease mem inst ↔ FailsRelease o.mem inst := by
    intro inst
    refine exists_congr fun handle => exists_congr fun r => ?_
    constructor
    · rintro ⟨hr, failing, owner⟩
      exact ⟨(resources handle r failing).mp hr, failing, owner⟩
    · rintro ⟨hr, failing, owner⟩
      exact ⟨(resources handle r failing).mpr hr, failing, owner⟩
  refine ⟨h.acted busy guar resources ?_ (fun inst hw => absurd hw (quiet inst).2.2) ?_ ?_, guar⟩
  · intro inst s hs hl
    exact ⟨s, by rw [contexts, hs], hl⟩
  · rintro _ inst ⟨hstate, hnamed, hf⟩
    rw [contexts] at hstate
    rw [calls] at hnamed
    exact .inr (.inl ⟨⟨hstate, hnamed, fun hf' => hf ((hfails inst).mpr hf')⟩, (quiet inst).1⟩)
  · intro _ inst hclaim
    rw [calls] at hclaim
    exact .inr ⟨hclaim, (quiet inst).2.1, fun hd => absurd hd (quiet inst).1⟩

theorem sound_resource {a : ResourceAct β} (guard : guardResource m₀ a)
    (acts : (discipline depth m₀ strict).Acts i o (.res a) b mem) :
    Inv m₀ strict (o.acted i (.res a) b mem) ∧ Guar m₀ i o (o.acted i (.res a) b mem) := by
  have h := acts.inv
  have enabled := acts.enabled
  change some ((a.run o.mem.resources).1, { o.mem with resources := (a.run o.mem.resources).2 }) =
    some (b, mem) at enabled
  cases enabled
  refine h.plain acts.busy rfl rfl (fun handle r failing => ?_)
    fun inst => ⟨by simp [discharges], by simp [dropsClaim], by simp [wins]⟩
  cases a with
  | handlesFor | activeFor | record => rfl
  | discard | rollbackRegister => exact guard.elim
  | insert owner kind =>
    by_cases hh : handle = o.mem.resources.nextHandle
    · subst hh
      constructor
      · intro hr
        simp only [ResourceAct.run, ResourceTable.insert, Function.update_self] at hr
        obtain ⟨label, hlabel⟩ := failing.2
        cases hr
        exact absurd hlabel (guard label)
      · intro hr
        exact absurd (o.mem.resources.issued _ _ hr).2 (Nat.lt_irrefl _)
    · simp [ResourceAct.run, ResourceTable.insert, hh]
  | inspectRelease k =>
    suffices (o.mem.resources.inspectRelease k).2.records = o.mem.resources.records by
      simp only [ResourceAct.run, this]
    unfold ResourceTable.inspectRelease
    repeat' split
    all_goals rfl
  | claimRelease k =>
    simp only [ResourceAct.run, ResourceTable.claimRelease]
    split
    next => rfl
    next rec hrec =>
      split_ifs
      · rfl
      · by_cases hh : handle = k
        · subst hh
          simp only [ResourceTable.retire, Function.update_self, hrec]
          constructor
          · intro hr
            cases hr
            cases failing.1
          · intro hr
            exact absurd failing (guard r ((h.fails handle r failing).mp (hrec.trans hr)))
        · simp [ResourceTable.retire, hh]

/-- The discipline's guards are enough: each action then keeps the invariant. -/
theorem sound {a : KAct β} (hguard : guard m₀ i o a)
    (acts : (discipline depth m₀ strict).Acts i o a b mem) :
    Inv m₀ strict (o.acted i a b mem) ∧ Guar m₀ i o (o.acted i a b mem) := by
  have h := acts.inv
  have busy := acts.busy
  have enabled : a.sem o.mem = some (b, mem) := acts.enabled
  cases a with
  | ctx a => exact sound_context hguard acts
  | calls a => exact sound_ticket hguard acts
  | res a => exact sound_resource hguard acts
  | pub a | comp a =>
    cases enabled
    exact h.plain busy rfl rfl (fun _ _ _ => Iff.rfl) (by simp [discharges, dropsClaim, wins])
  | _ =>
    have same := KAct.sem_sameTables enabled rfl
    exact h.plain busy same.contexts same.calls (fun _ _ _ => by rw [same.resources])
      (by simp [discharges, dropsClaim, wins])

def guarded (depth : Nat) (m₀ : KState) (strict : Bool) : (discipline depth m₀ strict).Guarded where
  guard := guard m₀
  sound _ _ _ _ _ _ := sound

end Step

end MatrixRuntime.FinalizationInvariant
