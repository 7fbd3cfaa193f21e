import MatrixRuntime.CallFrame

/-! What whole operations are made of. Apart from the commit boundary, the admission of
dependency children and the operator's grants, every operation is composed of tame
actions, which issue tickets and compose activations but end neither, and of whole
finalizations, disposals, cancellations and ends of tickets. Coarser readings follow:
one in which only the ends of tickets are wholes, one in which only the disposals and
finalizations are, and one with no wholes at all. -/

namespace MatrixRuntime.OperationFrame

open KernelContexts KernelTickets KernelState KernelActions KernelReconcile KernelCalls
open DependencyAdmission KernelOperations InterleavedProgram ReconcileFrame CallFrame

/-- Ticket actions that look, or mark, withdraw and finalize. -/
abbrev tending (β : Type) : TicketAct β → Prop
  | .get _ | .openChildrenOf _ | .pendingFor _ | .pendingCount _ | .inflightCount => True
  | .cancel _ _ | .setDrainUntil _ _ | .expireOverdue _ => True
  | .revokeDescendants _ _ | .revokeChildrenOfConsumer _ _ => True
  | .tryClaimCleanup _ | .releaseCleanupClaim _ => True
  | _ => False

/-- The actions of disposal, finalization and reconciliation, and looks. -/
abbrev lifecycle (β : Type) : KAct β → Prop
  | .calls a => tending β a
  | .grant (.grant _ _) => True
  | .grant _ | .reserve _ _ | .release _ | .lockAdmit | .unlockAdmit | .note _ => False
  | _ => True

abbrev Lifecycle {α : Type} (p : KProg α) : Prop := Composed lifecycle (fun _ _ => False) p

variable {α : Type} {p : KProg α} {again : KProg Unit} {β : Type} {a : KAct β} {op : Op}
  (cap logical : String) (rec : ContextRecord) (n : Nat) (policy : CallPolicy) (inst : InstanceId)
  (durable : Bool) (ticket : TicketId) (r : TicketRecord) (fiber mode : String)

instance : Included withdrawing lifecycle where

instance : Included releasing lifecycle where

instance : Included inspecting lifecycle where

instance : Included acquiring lifecycle where

/-! ### Disposal and finalization -/

/-- What a finalization does by itself. -/
abbrev finalizing (β : Type) : KAct β → Prop
  | .ctx (.get _) | .ctx (.markDisposed _) | .ctx (.markCleanupPending _ _ _) => True
  | .calls (.pendingFor _) | .calls (.pendingCount _) | .calls (.tryClaimCleanup _)
  | .calls (.releaseCleanupClaim _) => True
  | .comp (.markPlugin _ _ _) | .journal _ => True
  | a => releasing β a

/-- The reconciler that a finalization runs once it settled. -/
inductive Again (again : KProg Unit) : ∀ β : Type, KProg β → Prop
  | again : Again again _ again

abbrev Finalizes (again : KProg Unit) {α : Type} (p : KProg α) : Prop :=
  Composed finalizing (Again again) p

instance : Included releasing finalizing where

theorem releaseContextResources_finalizes : Finalizes again (releaseContextResources rec) :=
  (releaseContextResources_releases rec).relax

theorem refreshCleanupCause_finalizes : Finalizes again (refreshCleanupCause inst) := by
  refine .next fun rec => ?_
  cases rec with
  | none => exact .pure _
  | some rec =>
    exact .ite (.pure _) (.ite (.next fun _ => .once) (.pure _))

theorem maybeFinalize_finalizes : Finalizes again (maybeFinalize again inst) := by
  refine .next fun rec => ?_
  cases rec with
  | none => exact .pure _
  | some rec =>
    exact .ite (.pure _) (.next fun _ => .ite (refreshCleanupCause_finalizes inst)
      (.next fun _ => .ite (.bind (releaseContextResources_finalizes rec)
        fun _ => .ite
          (.next fun _ => .next fun _ =>
            .next fun _ => .next fun _ => .whole .again)
          (.next fun _ => .once)) (.pure _)))

theorem parkOutcome_finalizes (reason : String) : Finalizes again (parkOutcome inst reason) := by
  refine .next fun cur => ?_
  cases cur with
  | none => exact .map .once
  | some cur => exact .ite (.pure _) (.map .once)

theorem park_finalizes : Finalizes again (park again rec) :=
  .next fun _ => .next fun _ =>
    .next fun _ => .next fun _ =>
    .next fun _ => .ite
      (.bind (maybeFinalize_finalizes _) fun _ => parkOutcome_finalizes ..)
      (parkOutcome_finalizes ..)

theorem settleDispose_finalizes : Finalizes again (settleDispose rec) :=
  .bind (releaseContextResources_finalizes rec) fun _ => .ite
    (.next fun _ => .next fun _ =>
      .map .once)
    (.next fun _ => .next fun _ =>
      .map .once)

instance : Included finalizing lifecycle where

theorem lifecycle_of_finalizes (h : Finalizes again p) (hagain : Lifecycle again) :
    Lifecycle p := by
  refine h.widen fun β q hq => ?_
  cases hq
  exact hagain

theorem maybeFinalize_lifecycle (hagain : Lifecycle again) (inst : InstanceId) :
    Lifecycle (maybeFinalize again inst) :=
  lifecycle_of_finalizes (maybeFinalize_finalizes inst) hagain

/-- What a disposal does: claim the instance, withdraw it and finalize it. -/
abbrev disposing (β : Type) : KAct β → Prop
  | .ctx (.claimDispose _) => True
  | a => withdrawing β a ∨ finalizing β a

instance : Included withdrawing disposing where

instance : Included finalizing disposing where

theorem disposeInstanceInner_composed :
    Composed disposing (Again again) (disposeInstanceInner again inst) := by
  have finalizes : ∀ {β : Type} {q : KProg β}, Finalizes again q →
      Composed disposing (Again again) q :=
    fun h => h.widen fun _ _ => .whole
  refine .step (.inr trivial) fun rec => ?_
  cases rec with
  | none => exact .pure _
  | some rec =>
    dsimp only
    split
    · exact .pure _
    · exact .pure _
    · exact .pure _
    · refine .next fun claim => ?_
      cases claim with
      | error e => exact .pure _
      | ok claim =>
        cases claim with
        | inFlight logical => exact .pure _
        | fresh rec =>
          refine .bind (quiesce_withdraws rec).relax fun _ => ?_
          exact .step (.inr trivial) fun _ =>
            .ite (finalizes (park_finalizes rec)) (finalizes (settleDispose_finalizes rec))

instance : Included disposing lifecycle where

theorem disposeInstanceInner_lifecycle (hagain : Lifecycle again) (inst : InstanceId) :
    Lifecycle (disposeInstanceInner again inst) := by
  refine (disposeInstanceInner_composed inst).widen fun β q hq => ?_
  cases hq
  exact hagain

instance : Included composing lifecycle where

theorem lifecycle_of_composes (h : Composes again p) (hagain : Lifecycle again) : Lifecycle p := by
  refine h.widen fun β q hq => ?_
  cases hq with
  | dispose inst => exact disposeInstanceInner_lifecycle hagain inst
  | release handle => exact (beginRelease_releases handle).relax
  | again => exact hagain

theorem reconcile_lifecycle : Lifecycle (reconcile n) := by
  induction n with
  | zero => exact .blocked
  | succ n ih => exact lifecycle_of_composes (reconcile_succ_composes n) ih

theorem callCancel_lifecycle (reason : String) : Lifecycle (callCancel ticket reason) := by
  refine .next fun r => ?_
  cases r with
  | none => exact .pure _
  | some r =>
    exact .next fun _ => .ite (.next fun _ =>
      .map (revokeTicketDescendants_withdraws ..).relax)
      (.pure _)

/-! ### Tame actions and whole processes -/

/-- Context actions outside disposals and finalizations. -/
abbrev outerContext (β : Type) : ContextAct β → Prop
  | .create _ state _ => state = .waiting ∨ state = .active
  | .claimDispose _ | .markDisposed _ | .markCleanupPending _ _ _ => False
  | _ => True

/-- Ticket actions that look, or issue a ticket. -/
abbrev issuing (β : Type) : TicketAct β → Prop
  | .get _ | .openChildrenOf _ | .pendingFor _ | .inflightCount | .alloc _ => True
  | _ => False

/-- Actions that neither end an activation nor mark a ticket. -/
abbrev tame (β : Type) : KAct β → Prop
  | .ctx a => outerContext β a
  | .calls a => issuing β a
  | .journal entry => passing entry.kind
  | .grant (.grant _ _) => True
  | .grant _ | .reserve _ _ | .release _ | .lockAdmit | .unlockAdmit | .awaitSettled _ _ => False
  | _ => True

/-- What operations run as a whole. -/
inductive Process : ∀ β : Type, KProg β → Prop
  | finalize (n : Nat) (inst : InstanceId) : Process _ (maybeFinalize (reconcile n) inst)
  | dispose (n : Nat) (inst : InstanceId) : Process _ (disposeInstanceInner (reconcile n) inst)
  | settle (n : Nat) (ticket : TicketId) : Process _ (settleTicket (reconcile n) ticket)
  | close (n : Nat) (ticket : TicketId) : Process _ (callClose (reconcile n) ticket)
  | cancel (ticket : TicketId) (reason : String) : Process _ (callCancel ticket reason)

abbrev Proceeds {α : Type} (p : KProg α) : Prop := Composed tame Process p

instance : Included releasing tame where

instance : Included composing tame where

instance : Included inspecting tame where

instance : Included acquiring tame where

theorem proceeds_of_composes {n : Nat} (h : Composes (reconcile n) p)
    (hagain : Proceeds (reconcile n)) : Proceeds p := by
  refine h.widen fun β q hq => ?_
  cases hq with
  | dispose inst => exact .whole (.dispose n inst)
  | release handle => exact (beginRelease_releases handle).relax
  | again => exact hagain

theorem reconcile_proceeds : Proceeds (reconcile n) := by
  induction n with
  | zero => exact .blocked
  | succ n ih => exact proceeds_of_composes (reconcile_succ_composes n) ih

theorem openTicket_proceeds (cap logical : String) (rec : ContextRecord)
    (policy : CallPolicy) (pins : List ResourceHandle) (durable : Bool) :
    Proceeds (openTicket (reconcile n) cap logical rec policy pins durable) := by
  have log : ∀ kind, passing kind → ∀ ticket reason,
      Proceeds (journalDurable durable logical kind ticket reason) :=
    fun _ h _ _ => .ite (.perform h) (.pure _)
  have refuse : ∀ ticket why e,
      Proceeds (refuseOpened (reconcile n) durable logical ticket why e) :=
    fun ticket why e => .bind (.whole (.settle n ticket)) fun _ =>
      .map (log .callCancelled trivial _ _)
  refine .next fun ticket => .bind (log .callOpen trivial _ _) fun _ => .bind
    (admissionRecord_inspects cap).relax fun admitted => ?_
  cases admitted with
  | error e => exact refuse _ _ _
  | ok fresh => exact .ite (.map .once) (refuse _ _ _)

/-- Every action of a fault is of the class. -/
theorem fault_composed {C : ∀ β : Type, KAct β → Prop} {S : ∀ β : Type, KProg β → Prop}
    {fiber mode : String} (now : C _ .now) (charge : ∀ n, C _ (.comp (.faultPlugin fiber n)))
    (look : C _ (.ctx (.current fiber))) (mark : ∀ k why, C _ (.ctx (.markFailed k why)))
    (fail : C _ (.comp (.failPlugin fiber))) (note : C _ (.journal ⟨fiber, .sysFault, 0, mode⟩)) :
    Composed C S (fault fiber mode) := by
  refine .step now fun _ => .step (charge _) fun _ => .ite (.bind ?_ fun _ =>
    .step note fun _ => .pure _) (.step note fun _ => .pure _)
  refine .step look fun cur => ?_
  cases cur with
  | none => exact .pure _
  | some cur => exact .step (mark ..) fun _ => .perform fail

theorem fault_proceeds : Proceeds (fault fiber mode) :=
  fault_composed trivial (fun _ => trivial) trivial (fun _ _ => trivial) trivial trivial

instance : Included dispatching tame where

theorem proceeds_of_invokes {n : Nat} {pins : List ResourceHandle}
    (h : Invokes (reconcile n) pins p) : Proceeds p := by
  refine h.widen fun β q hq => ?_
  cases hq with
  | opening cap logical rec policy durable =>
    exact openTicket_proceeds n cap logical rec policy pins durable
  | settling ticket => exact .whole (.settle n ticket)
  | faulting fiber mode => exact fault_proceeds fiber mode

/-- The operations of the commit boundary, the admission of children and the grants. -/
def special : Op → Bool
  | .commitEffect _ _ _ | .dependencyAdmit _ | .dependencyAccept _ | .dependencyTimeout _
  | .grantOutbound _ _ | .revokeOutbound _ _ => true
  | _ => false

theorem operation_proceeds (h : special op = false) (n : Nat) :
    Proceeds (op.code (reconcile n)) := by
  by_cases hre : recomposes op = true
  · exact proceeds_of_composes (recomposes_composes hre) (reconcile_proceeds n)
  cases op with
  | callOpen cap policy pins =>
    exact .map (proceeds_of_invokes (callOpen_invokes ..))
  | invoke cap input expected reply =>
    exact .map (proceeds_of_invokes (invokeBound_invokes ..))
  | callCancel ticket reason => exact .map (.whole (.cancel ticket reason))
  | callClose ticket => exact .map (.whole (.close n ticket))
  | callReap ticket reason =>
    exact .map (proceeds_of_invokes (callReap_invokes ..))
  | settleTicket ticket => exact .map (.whole (.settle n ticket))
  | maybeFinalize inst => exact .map (.whole (.finalize n inst))
  | acquire logical kind =>
    exact .map (acquire_acquires ..).relax
  | acquireExternal logical kind callerInstance callerGeneration =>
    exact .map (acquireExternal_acquires ..).relax
  | acquireBatch logical kinds =>
    exact .map (acquireBatch_acquires ..).relax
  | release handle => exact .map (releaseHandle_acquires _).relax
  | commitEffect | dependencyAdmit | dependencyAccept | dependencyTimeout | grantOutbound
  | revokeOutbound => cases h
  | loadManifest | disposeInstance | disposePlugin | registerRemoteProvider
  | unregisterRemoteProvider | installRemoteDefinition | reconcile => exact absurd rfl hre

/-! ### The ends of tickets as wholes -/

/-- Lifecycle actions, the issue of a ticket and the answer to its opener. -/
abbrev serving (β : Type) : KAct β → Prop
  | .calls (.alloc _) | .note _ => True
  | a => lifecycle β a

inductive Ending : ∀ β : Type, KProg β → Prop
  | settle (n : Nat) (ticket : TicketId) : Ending _ (settleTicket (reconcile n) ticket)
  | close (n : Nat) (ticket : TicketId) : Ending _ (callClose (reconcile n) ticket)

abbrev Serves {α : Type} (p : KProg α) : Prop := Composed serving Ending p

instance : Included lifecycle serving where

instance : Included tame serving where

theorem serves_of_proceeds (h : Proceeds p) : Serves p := by
  refine h.widen fun β q hq => ?_
  cases hq with
  | finalize n inst =>
    exact (maybeFinalize_lifecycle (reconcile_lifecycle n) inst).relax
  | dispose n inst =>
    exact (disposeInstanceInner_lifecycle (reconcile_lifecycle n) inst).relax
  | settle n ticket => exact .whole (.settle n ticket)
  | close n ticket => exact .whole (.close n ticket)
  | cancel ticket reason => exact (callCancel_lifecycle ticket reason).relax

theorem operation_serves (h : special op = false) (n : Nat) :
    Serves (op.code (reconcile n)) := serves_of_proceeds (operation_proceeds h n)

/-! ### No wholes -/

/-- Actions outside the commit boundary, the admission of children and the grants. -/
abbrev ordinary (β : Type) : KAct β → Prop
  | .calls (.remove remover _) => remover ≠ .rollback
  | .release _ => True
  | a => serving β a

abbrev Ordinary {α : Type} (p : KProg α) : Prop := Composed ordinary (fun _ _ => False) p

instance : Included lifecycle ordinary where

theorem ordinary_of_lifecycle (h : Lifecycle p) : Ordinary p :=
  h.relax

theorem concludeTicket_ordinary (hagain : Lifecycle again) (r : TicketRecord) :
    Ordinary (concludeTicket again r) := by
  have finalize := ordinary_of_lifecycle (maybeFinalize_lifecycle hagain r.instanceId)
  refine .bind (ordinary_of_lifecycle
    (revokeTicketDescendants_withdraws ..).relax) fun _ => ?_
  cases r.dep with
  | none => exact finalize
  | some dep => exact .next fun _ => finalize

theorem settleTicket_ordinary (hagain : Lifecycle again) (ticket : TicketId) :
    Ordinary (settleTicket again ticket) := by
  refine .step nofun fun r => ?_
  cases r with
  | none => exact .pure _
  | some r => exact .map (concludeTicket_ordinary hagain r)

theorem callClose_ordinary (hagain : Lifecycle again) (ticket : TicketId) :
    Ordinary (callClose again ticket) := by
  refine .step nofun fun r => ?_
  cases r with
  | none => exact .pure _
  | some r =>
    exact .next fun _ => .map (concludeTicket_ordinary hagain r)

instance : Included serving ordinary where

theorem operation_ordinary (h : special op = false) (n : Nat) :
    Ordinary (op.code (reconcile n)) := by
  refine (operation_serves h n).widen fun β q hq => ?_
  cases hq with
  | settle n ticket => exact settleTicket_ordinary (reconcile_lifecycle n) ticket
  | close n ticket => exact callClose_ordinary (reconcile_lifecycle n) ticket

/-! ### Disposals and finalizations as wholes -/

/-- Actions outside disposals and finalizations. -/
abbrev outer (β : Type) : KAct β → Prop
  | .ctx a => outerContext β a
  | .calls (.pendingCount _) | .calls (.tryClaimCleanup _)
  | .calls (.releaseCleanupClaim _) => False
  | .journal entry => passing entry.kind
  | _ => True

inductive Settlement : ∀ β : Type, KProg β → Prop
  | finalize (n : Nat) (inst : InstanceId) : Settlement _ (maybeFinalize (reconcile n) inst)
  | dispose (n : Nat) (inst : InstanceId) : Settlement _ (disposeInstanceInner (reconcile n) inst)

abbrev Settles {α : Type} (p : KProg α) : Prop := Composed outer Settlement p

instance : Included tame outer where

instance : Included withdrawing outer where

instance : Included ticketing outer where

instance : Included admitting outer where

theorem concludeTicket_settles : Settles (concludeTicket (reconcile n) r) := by
  refine .bind (revokeTicketDescendants_withdraws ..).relax fun _ => ?_
  cases r.dep with
  | none => exact .whole (.finalize n _)
  | some dep => exact .next fun _ => .whole (.finalize n _)

instance : Included marking outer where

theorem settles_of_proceeds (h : Proceeds p) : Settles p := by
  refine h.widen fun β q hq => ?_
  cases hq with
  | finalize n inst => exact .whole (.finalize n inst)
  | dispose n inst => exact .whole (.dispose n inst)
  | settle n ticket =>
    refine .next fun r => ?_
    cases r with
    | none => exact .pure _
    | some r => exact .map (concludeTicket_settles n r)
  | close n ticket =>
    refine .next fun r => ?_
    cases r with
    | none => exact .pure _
    | some r =>
      exact .next fun _ => .map (concludeTicket_settles n r)
  | cancel ticket reason =>
    exact (callCancel_marks ticket reason).relax

/-- Every operation is composed of outer actions and of whole disposals and finalizations. -/
theorem operation_settles (op : Op) (n : Nat) : Settles (op.code (reconcile n)) := by
  cases hs : special op with
  | false => exact settles_of_proceeds (operation_proceeds hs n)
  | true =>
    by_cases hti : retickets op = true
    · exact (retickets_tickets hti).relax
    · cases op with
      | dependencyAdmit req =>
        exact .map (dependencyAdmit_admits req).relax
      | commitEffect | dependencyAccept | dependencyTimeout | grantOutbound | revokeOutbound =>
        exact absurd rfl hti
      | _ => cases hs

/-! ### Calls -/

/-- Actions that leave the contexts, the resources, the publications and the composition as they
are, and issue tickets that pin these resources or none. -/
abbrev still (pins : List ResourceHandle) (β : Type) : KAct β → Prop
  | .ctx .epoch | .ctx (.get _) | .ctx (.current _) | .ctx .currentAll | .ctx (.requireActive _)
  | .res (.record _) | .res (.handlesFor _) | .pub (.resolveRef _) | .comp .definitions
  | .comp (.plugin _) | .comp .remoteKeys | .comp (.remote _) | .comp (.binding _) => True
  | .ctx _ | .res _ | .pub _ | .comp _ => False
  | .calls (.alloc admission) => admission.pins = [] ∨ admission.pins = pins
  | _ => True

/-- The subprograms a call runs as a whole. -/
inductive Aftermath (again : KProg Unit) : ∀ β : Type, KProg β → Prop
  | finalize (inst : InstanceId) : Aftermath again _ (maybeFinalize again inst)
  | fault (fiber mode : String) : Aftermath again _ (fault fiber mode)

abbrev Calls (again : KProg Unit) (pins : List ResourceHandle) {α : Type} (p : KProg α) : Prop :=
  Composed (still pins) (Aftermath again) p

variable {pins : List ResourceHandle}

instance : Included ticketing (still pins) where

theorem calls_of_admits (h : Admits p) : Calls again pins p := by
  refine h.weaken fun β a ha => ?_
  cases a with
  | ctx a => cases a <;> first | exact ha.elim | exact trivial
  | res a => cases a <;> first | exact ha.elim | exact trivial
  | pub a => cases a <;> first | exact ha.elim | exact trivial
  | comp a => cases a <;> first | exact ha.elim | exact trivial
  | calls a => cases a <;> first | exact trivial | exact .inl ha
  | _ => exact trivial

instance : Included marking (still pins) where

theorem concludeTicket_calls : Calls again pins (concludeTicket again r) := by
  have revoke : Calls again pins (revokeTicketDescendants r.id "parent-ended") :=
    (revokeTicketDescendants_marks ..).relax
  refine .bind revoke fun _ => ?_
  cases r.dep with
  | none => exact .whole (.finalize _)
  | some dep => exact .next fun _ => .whole (.finalize _)

theorem settleTicket_calls : Calls again pins (settleTicket again ticket) := by
  refine .next fun r => ?_
  cases r with
  | none => exact .pure _
  | some r => exact .map (concludeTicket_calls r)

theorem callClose_calls : Calls again pins (callClose again ticket) := by
  refine .next fun r => ?_
  cases r with
  | none => exact .pure _
  | some r =>
    exact .next fun _ => .map (concludeTicket_calls r)

theorem journalDurable_calls (logical : String) (kind : JournalKind)
    (ticket : TicketId) (reason : String) :
    Calls again pins (journalDurable durable logical kind ticket reason) :=
  .ite (.once) (.pure _)

theorem confirmOpened_calls :
    Calls again pins (confirmOpened again cap logical rec policy durable ticket) := by
  have refuse : ∀ why e, Calls again pins (refuseOpened again durable logical ticket why e) :=
    fun why e => .bind (settleTicket_calls ticket) fun _ =>
      .map (journalDurable_calls ..)
  refine .bind (calls_of_admits (admissionRecord_inspects cap).relax)
    fun admitted => ?_
  cases admitted with
  | error e => exact refuse _ _
  | ok fresh => exact .ite (.map .once) (refuse _ _)

theorem openTicket_calls :
    Calls again pins (openTicket again cap logical rec policy pins durable) :=
  .step (.inr rfl) fun ticket => .bind (journalDurable_calls ..) fun _ =>
    confirmOpened_calls cap logical rec policy durable ticket

instance : Included dispatching (still pins) where

theorem calls_of_invokes (h : Invokes again pins p) : Calls again pins p := by
  refine h.widen fun β q hq => ?_
  cases hq with
  | opening cap logical rec policy durable => exact openTicket_calls ..
  | settling ticket => exact settleTicket_calls ticket
  | faulting fiber mode => exact .whole (.fault fiber mode)

/-- The operations that neither recompose the system nor acquire or release resources. -/
def calling : Op → Bool
  | .acquire _ _ | .acquireExternal _ _ _ _ | .acquireBatch _ _ | .release _ => false
  | op => !recomposes op

/-- The resources an operation pins with the ticket it issues. -/
def pinsOf : Op → List ResourceHandle
  | .callOpen _ _ pins => pins
  | _ => []

theorem calling_calls (h : calling op = true) : Calls again (pinsOf op) (op.code again) := by
  by_cases hti : retickets op = true
  · exact (retickets_tickets hti).relax
  cases op with
  | callOpen cap policy pins =>
    exact .map (calls_of_invokes (callOpen_invokes ..))
  | invoke cap input expected reply =>
    exact .map (calls_of_invokes (invokeBound_invokes ..))
  | callReap ticket reason => exact .map (calls_of_invokes (callReap_invokes ..))
  | callClose ticket => exact .map (callClose_calls ticket)
  | settleTicket ticket => exact .map (settleTicket_calls ticket)
  | maybeFinalize inst => exact .map (.whole (.finalize inst))
  | dependencyAdmit req =>
    exact .map (calls_of_admits (dependencyAdmit_admits req))
  | callCancel | commitEffect | dependencyAccept | dependencyTimeout | grantOutbound
  | revokeOutbound => exact absurd rfl hti
  | _ => cases h

/-! ### Operations that open no call -/

/-- Actions that neither issue a ticket nor tell of one. -/
abbrev quiet (β : Type) : KAct β → Prop
  | .calls (.alloc _) | .note _ => False
  | _ => True

abbrev Quiet {α : Type} (p : KProg α) : Prop := Composed quiet (fun _ _ => False) p

instance : Included lifecycle quiet where

theorem quiet_of_lifecycle (h : Lifecycle p) : Quiet p := h.relax

instance : Included ticketing quiet where

theorem fault_quiet : Quiet (fault fiber mode) :=
  fault_composed trivial (fun _ => trivial) trivial (fun _ _ => trivial) trivial trivial

section Settling

variable (hagain : Lifecycle again)

include hagain

theorem concludeTicket_quiet : Quiet (concludeTicket again r) := by
  have finalize := quiet_of_lifecycle (maybeFinalize_lifecycle hagain r.instanceId)
  refine .bind (quiet_of_lifecycle
    (revokeTicketDescendants_withdraws ..).relax) fun _ => ?_
  cases r.dep with
  | none => exact finalize
  | some dep => exact .next fun _ => finalize

theorem settleTicket_quiet : Quiet (settleTicket again ticket) := by
  refine .next fun r => ?_
  cases r with
  | none => exact .pure _
  | some r => exact .map (concludeTicket_quiet r hagain)

instance : Included dispatching quiet where

theorem quiet_of_handles (h : Handles again p) : Quiet p := by
  refine h.widen fun β q hq => ?_
  cases hq with
  | settling ticket => exact settleTicket_quiet ticket hagain
  | faulting fiber mode => exact fault_quiet fiber mode

end Settling

def opens : Op → Bool
  | .callOpen _ _ _ | .invoke _ _ _ _ | .dependencyAdmit _ => true
  | _ => false

theorem operation_quiet (h : opens op = false) (n : Nat) : Quiet (op.code (reconcile n)) := by
  have hagain := reconcile_lifecycle n
  have acquires : ∀ {γ : Type} {p : KProg γ} {f : γ → Res}, Acquires p →
      Quiet (p.bind fun value => .pure (f value)) :=
    fun h => .map (quiet_of_lifecycle h.relax)
  by_cases recomposing : recomposes op = true
  · exact quiet_of_lifecycle (lifecycle_of_composes (recomposes_composes recomposing) hagain)
  by_cases marks : retickets op = true
  · exact (retickets_tickets marks).relax
  cases op with
  | callClose ticket =>
    refine .map (.next fun r => ?_)
    cases r with
    | none => exact .pure _
    | some r => exact .next fun _ => .map (concludeTicket_quiet r hagain)
  | callReap ticket reason =>
    exact .map (quiet_of_handles hagain (callReap_handles ..))
  | settleTicket ticket => exact .map (settleTicket_quiet ticket hagain)
  | maybeFinalize inst =>
    exact .map (quiet_of_lifecycle (maybeFinalize_lifecycle hagain inst))
  | acquire logical kind => exact acquires (acquire_acquires ..)
  | acquireExternal logical kind inst generation => exact acquires (acquireExternal_acquires ..)
  | acquireBatch logical kinds => exact acquires (acquireBatch_acquires ..)
  | release handle => exact acquires (releaseHandle_acquires _)
  | callOpen | invoke | dependencyAdmit => cases h
  | _ => first | exact absurd rfl recomposing | exact absurd rfl marks

end MatrixRuntime.OperationFrame
