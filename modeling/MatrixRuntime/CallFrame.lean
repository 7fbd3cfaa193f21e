import MatrixRuntime.ReconcileFrame

/-! What the checks of a call are made of. Admission, validation and revalidation only
look: they are composed of actions that change nothing, so a proof about a run
can treat each of them as one read of many tables. -/

namespace MatrixRuntime.CallFrame

open KernelContexts KernelTickets KernelResources KernelState JsonValue InterleavedProgram
open KernelActions KernelReconcile KernelCalls DependencyAdmission KernelOperations
open ReconcileFrame (passing)

/-- Actions that only look, at what the checks of a call look at. -/
abbrev inspecting (β : Type) : KAct β → Prop
  | .ctx .epoch | .ctx (.current _) | .ctx .currentAll | .ctx (.requireActive _) => True
  | .calls (.get _) | .calls (.openChildrenOf _) | .calls .inflightCount => True
  | .res (.record _) => True
  | .pub (.resolveRef _) => True
  | .comp .definitions | .comp (.plugin _) | .comp .remoteKeys | .comp (.remote _)
  | .comp (.binding _) => True
  | .grant (.grant _ _) => True
  | .now => True
  | _ => False

theorem inspecting_sem {β : Type} {a : KAct β} (h : inspecting β a) {s s' : KState} {b : β}
    (sem : a.sem s = some (b, s')) : s' = s := by
  cases a with
  | ctx a => cases a <;> first | exact h.elim | (cases sem; rfl)
  | calls a => cases a <;> first | exact h.elim | (cases sem; rfl)
  | res a => cases a <;> first | exact h.elim | (cases sem; rfl)
  | pub a => cases a <;> first | exact h.elim | (cases sem; rfl)
  | comp a => cases a <;> first | exact h.elim | (cases sem; rfl)
  | grant a => cases a <;> first | exact h.elim | (cases sem; rfl)
  | now =>
    cases sem
    rfl
  | _ => exact h.elim

/-- Composed of looks alone. -/
abbrev Inspects {α : Type} (p : KProg α) : Prop := Composed inspecting (fun _ _ => False) p

variable {again : KProg Unit} (logical : String) (req : DepAdmit) (inst : InstanceId)
  (cur : ContextRecord) (ticket : TicketId) (call : OpenCall) (parent : TicketRecord)
  (kind : ResourceKind) (handle : ResourceHandle) (cap : String) (reason : String)
  (t : TicketRecord) (v : Validated) (rec : ContextRecord)

theorem remoteState_inspects : Inspects (remoteState logical) := by
  refine .next fun reg => ?_
  cases reg with
  | none => exact .pure _
  | some reg =>
    refine .next fun defs => .ite (.pure _) ?_
    exact .map .once

theorem mergeRemotes_inspects (ls : List String) (states : States) :
    Inspects (mergeRemotes ls states) := by
  induction ls generalizing states with
  | nil => exact .pure _
  | cons l ls ih =>
    refine .bind (remoteState_inspects l) fun rec => ?_
    cases rec with
    | none => exact ih _
    | some rec => exact ih _

theorem currentAllMerged_inspects : Inspects currentAllMerged :=
  .next fun _ => .next fun _ => mergeRemotes_inspects _ _

theorem bindingsStale_inspects (states : States) : Inspects (bindingsStale logical states) :=
  .map .once

theorem unresolved_inspects : Inspects (unresolved cap) := by
  refine .next fun defs => ?_
  dsimp only
  split
  · exact .pure _
  · refine .next fun cur => ?_
    cases cur with
    | none => exact .pure _
    | some cur =>
      dsimp only
      split <;> exact .pure _

theorem admitActive_inspects : Inspects (admitActive inst rec) :=
  .next fun _ => .ite (.pure _) (.bind currentAllMerged_inspects fun _ =>
    .next fun _ => .ite
      (.bind (bindingsStale_inspects ..) fun _ => .ite (.pure _) (.pure _)) (.pure _))

/-- An admission of an active instance is one of the record it was given. -/
theorem admitActive_returns :
    (admitActive inst rec).Returns fun r => ∀ logical rec',
      r = .ok (logical, rec') → rec' = rec := by
  refine .bind _ fun cur => ?_
  split_ifs
  · exact nofun
  · refine .bind _ fun fresh => .bind _ fun entry => ?_
    split_ifs
    · refine .bind _ fun stale => ?_
      split_ifs
      · exact nofun
      · rintro _ _ ⟨⟩
        rfl
    · exact nofun

theorem admitInstance_inspects : Inspects (admitInstance inst) := by
  refine .next fun r => ?_
  cases r with
  | ok rec => exact admitActive_inspects inst rec
  | error e => cases e <;> exact .pure _

theorem admissionRecord_inspects : Inspects (admissionRecord cap) := by
  refine .next fun ref => ?_
  cases ref with
  | none => exact .map (unresolved_inspects cap)
  | some ref =>
    refine .ite (.next fun cur => ?_) (admitInstance_inspects _)
    cases cur with
    | none => exact .pure _
    | some cur => exact admitInstance_inspects _

theorem policyFor_inspects (logical cap : String) : Inspects (policyFor logical cap) :=
  .map .once

theorem invalidPin_inspects (generation : Nat) (hs : List ResourceHandle) :
    Inspects (invalidPin inst generation hs) := by
  induction hs with
  | nil => exact .pure _
  | cons h hs ih =>
    exact .bind (.map .once) fun _ => .ite ih (.pure _)

theorem validateProvider_inspects (consumer : ContextRecord) (b : DepBinding) :
    Inspects (validateProvider consumer b) := by
  refine .next fun cur => ?_
  cases cur with
  | some cur => exact .ite (.pure _) (.pure _)
  | none =>
    refine .next fun reg => ?_
    cases reg with
    | none => exact .pure _
    | some reg =>
      exact .ite (.pure _) (.next fun _ => .ite (.pure _) (.pure _))

theorem validateConsumer_inspects : Inspects (validateConsumer req) := by
  refine .next fun cur => ?_
  cases cur with
  | none => exact .pure _
  | some cur => exact .ite (.pure _) (.ite (.pure _) (.pure _))

theorem validateAuthority_inspects (b : DepBinding) :
    Inspects (validateAuthority req parent b) := by
  refine .next fun defs => ?_
  cases (defs.lookup req.callerLogical).bind (·.outbound) with
  | none => exact .pure _
  | some limits =>
    refine .ite (.pure _) (.next fun rev => ?_)
    cases rev with
    | none => exact .pure _
    | some rev => exact .pure _

theorem validateBound_inspects (b : DepBinding) : Inspects (validateBound req parent b) := by
  refine .bind (validateConsumer_inspects req) fun consumer => ?_
  cases consumer with
  | error e => exact .pure _
  | ok consumer =>
    refine .bind (validateProvider_inspects consumer b) fun provider => ?_
    cases provider with
    | error e => exact .pure _
    | ok provider =>
      refine .bind (validateAuthority_inspects req parent b) fun authority => ?_
      cases authority with
      | error e => exact .pure _
      | ok authority => exact .next fun _ => .ite (.pure _) (.pure _)

theorem validate_inspects : Inspects (validate req) := by
  refine .next fun parent => ?_
  cases parent with
  | none => exact .pure _
  | some parent =>
    refine .ite (.pure _) (.ite (.pure _) (.next fun b => ?_))
    cases b with
    | none => exact .pure _
    | some b => exact .ite (.pure _) (validateBound_inspects req parent b)

theorem remoteLive_inspects (generation : Nat) : Inspects (remoteLive logical inst generation) :=
  .next fun _ => .ite (.map .once) (.pure _)

theorem providerStillLive_inspects : Inspects (providerStillLive v) := by
  unfold providerStillLive
  cases v.remotePeer with
  | none => exact .map .once
  | some peer => exact remoteLive_inspects ..

theorem stillValid_inspects : Inspects (stillValid req v) :=
  .bind (providerStillLive_inspects v) fun _ => .next fun _ =>
    .ite (.next fun _ => .ite (.ite (.map .once)
      (.pure _)) (.pure _)) (.pure _)

/-! ### Operations that change tickets and grants in place -/

/-- Looks, and the journal of a refusal. -/
abbrev checking (β : Type) : KAct β → Prop
  | .ctx (.get _) => True
  | .journal entry => passing entry.kind
  | a => inspecting β a

abbrev Checks {α : Type} (p : KProg α) : Prop := Composed checking (fun _ _ => False) p

variable {α : Type} {p : KProg α}

instance : Included inspecting checking where

theorem reject_checks (why : String) (e : ErrorValue) :
    Checks (reject t why e : KProg (Except ErrorValue α)) :=
  .map .once

theorem consumerCurrent_checks (consumer : InstanceId) : Checks (consumerCurrent consumer) := by
  refine .next fun rec => ?_
  cases rec with
  | none => exact .pure _
  | some rec => exact .ite (.pure _) (.map .once)

theorem deadlinePassed_checks : Checks (deadlinePassed t) := by
  unfold deadlinePassed
  cases t.drainUntil with
  | none => exact .pure _
  | some instant => exact .map .once

theorem ownerAdmits_checks (state : Fsm) : Checks (ownerAdmits t state) := by
  unfold ownerAdmits
  split
  · exact .pure _
  · refine .bind ?_ fun _ => .ite (.pure _) (reject_checks ..)
    unfold withinDrain
    split
    · exact .map .once
    · exact .pure _
  · exact reject_checks ..

theorem providerCheck_checks : Checks (providerCheck t) := by
  unfold providerCheck
  cases t.dep.bind (·.remotePeer) with
  | some peer =>
    exact .bind (remoteLive_inspects ..).relax fun _ =>
      .ite (.pure _) (reject_checks ..)
  | none =>
    refine .next fun _ => .ite (.pure _) (.next fun owner => ?_)
    cases owner with
    | none => exact .pure _
    | some owner =>
      exact .ite (.pure _) (.next fun _ =>
        .ite (reject_checks ..) (ownerAdmits_checks ..))

/-- Checks, and the states that a decision about a ticket writes. -/
abbrev deciding (β : Type) : KAct β → Prop
  | .calls (.setState _ state) => state ≠ .admitted
  | .calls (.markCommittedIfAdmitted _) => True
  | a => checking β a

abbrev Decides {α : Type} (p : KProg α) : Prop := Composed deciding (fun _ _ => False) p

instance : Included checking deciding where

theorem depChainCheck_decides : Decides (depChainCheck t) := by
  unfold depChainCheck
  cases t.dep with
  | none => exact .pure _
  | some dep =>
    have refuse : ∀ why e, Decides (reject t why e : KProg (Except ErrorValue Unit)) :=
      fun why e => (reject_checks t why e).relax
    exact .bind (deadlinePassed_checks t).relax fun _ => .ite
      (.step (by exact nofun) fun _ => .map .once)
      (.next fun _ => .ite
        (.bind (consumerCurrent_checks _).relax fun _ => .ite
          (.next fun _ => .ite (.pure _) (refuse _ _)) (refuse _ _))
        (refuse _ _))

theorem dependencyAccept_decides (child : TicketId) : Decides (dependencyAccept child) := by
  refine .next fun t => ?_
  cases t with
  | none => exact .pure _
  | some t =>
    refine .bind (depChainCheck_decides t) fun chain => ?_
    cases chain with
    | error e => exact .pure _
    | ok _ => exact .next fun _ => .ite (.pure _) (.pure _)

/-- Decisions, and the push of an effect. -/
abbrev committing (β : Type) : KAct β → Prop
  | .calls (.pushEffect _ _ _ _ _ _) => True
  | a => deciding β a

abbrev Commits {α : Type} (p : KProg α) : Prop := Composed committing (fun _ _ => False) p

instance : Included deciding committing where

instance : Included checking committing where

theorem commitEffect_commits (kind : String) (payload : Json) :
    Commits (commitEffect ticket kind payload) := by
  refine .next fun t => ?_
  cases t with
  | none => exact .pure _
  | some t =>
    dsimp only
    split
    · exact .pure _
    · exact (reject_checks ..).relax
    · exact (reject_checks ..).relax
    · refine .bind (depChainCheck_decides t).relax fun chain => ?_
      cases chain with
      | error e => exact .pure _
      | ok _ =>
        refine .bind (providerCheck_checks t).relax
          fun owner => ?_
        cases owner with
        | error e => exact .pure _
        | ok _ =>
          exact .next fun _ => .step (by exact nofun) fun _ =>
            .map .once

/-- Decisions, and the marks that cancellations, timeouts and grants leave on tickets. -/
abbrev marking (β : Type) : KAct β → Prop
  | .calls (.expireTicket _) | .calls (.cancel _ _)
  | .calls (.revokeDescendants _ _) | .calls (.revokeGrantChildren _ _ _ _) => True
  | .grant _ => True
  | a => deciding β a

abbrev Marks {α : Type} (p : KProg α) : Prop := Composed marking (fun _ _ => False) p

instance : Included deciding marking where

theorem journalRevoked_marks (revoked : List TicketRecord) :
    Marks (journalRevoked reason revoked) :=
  .forEach _ fun _ => .once

theorem revokeTicketDescendants_marks (parent : TicketId) (reason : String) :
    Marks (revokeTicketDescendants parent reason) :=
  .next fun _ => journalRevoked_marks ..

theorem callCancel_marks : Marks (callCancel ticket reason) := by
  refine .next fun r => ?_
  cases r with
  | none => exact .pure _
  | some r =>
    exact .next fun _ => .ite (.next fun _ =>
      .map (revokeTicketDescendants_marks ..)) (.pure _)

theorem dependencyTimeout_marks (child : TicketId) : Marks (dependencyTimeout child) :=
  .next fun _ => .ite (.next fun _ =>
    .next fun _ => .map (revokeTicketDescendants_marks ..))
    (.pure _)

theorem grantOutbound_marks (consumer cap : String) : Marks (grantOutbound consumer cap) :=
  .next fun _ => .next fun _ =>
    .next fun _ => .map (journalRevoked_marks ..)

theorem revokeOutbound_marks (consumer cap : String) : Marks (revokeOutbound consumer cap) :=
  .next fun _ => .next fun _ =>
    .map (journalRevoked_marks ..)

/-- Marks, and the push of an effect. -/
abbrev ticketing (β : Type) : KAct β → Prop
  | .calls (.pushEffect _ _ _ _ _ _) => True
  | a => marking β a

abbrev Tickets {α : Type} (p : KProg α) : Prop := Composed ticketing (fun _ _ => False) p

instance : Included marking ticketing where

instance : Included committing ticketing where

/-- The operations that change tickets and grants in place. -/
def retickets : Op → Bool
  | .callCancel _ _ | .commitEffect _ _ _ | .dependencyAccept _ | .dependencyTimeout _
  | .grantOutbound _ _ | .revokeOutbound _ _ => true
  | _ => false

/-- All of them but the commit only mark. -/
theorem retickets_marks {op : Op} (h : retickets op = true)
    (uncommitted : ∀ ticket kind payload, op ≠ .commitEffect ticket kind payload) :
    Marks (op.code again) := by
  cases op with
  | callCancel ticket reason => exact .map (callCancel_marks ticket reason)
  | commitEffect ticket kind payload => exact absurd rfl (uncommitted ticket kind payload)
  | dependencyAccept child =>
    exact .map (dependencyAccept_decides child).relax
  | dependencyTimeout child => exact .map (dependencyTimeout_marks child)
  | grantOutbound consumer cap => exact .map (grantOutbound_marks consumer cap)
  | revokeOutbound consumer cap => exact .map (revokeOutbound_marks consumer cap)
  | _ => cases h

theorem retickets_tickets {op : Op} (h : retickets op = true) : Tickets (op.code again) := by
  cases op with
  | commitEffect ticket kind payload =>
    exact .map (commitEffect_commits ticket kind payload).relax
  | _ => exact (retickets_marks h (by exact nofun)).relax

/-! ### Admission of dependency children -/

/-- What an admission does besides its checks. -/
abbrev admitting (β : Type) : KAct β → Prop
  | .calls (.alloc admission) => admission.pins = []
  | .calls (.setDrainUntil _ _) | .calls (.setDepMeta _ _) | .calls (.remove .rollback _) => True
  | .reserve _ _ | .release _ | .lockAdmit | .unlockAdmit => True
  | .journal entry => passing entry.kind
  | a => inspecting β a

abbrev Admits {α : Type} (p : KProg α) : Prop := Composed admitting (fun _ _ => False) p

instance : Included inspecting admitting where

theorem rollback_admits (id : TicketId) : Admits (rollback req id) :=
  .next fun _ => .once

theorem registerChild_admits : Admits (registerChild req v) :=
  .next fun _ => .next fun _ =>
    .next fun _ => .next fun _ =>
    .next fun _ => .ite (.bind (stillValid_inspects req v).relax
      fun _ => .ite (.map .once)
        (.bind (rollback_admits ..) fun _ => .map .once))
      (.map (rollback_admits ..))

theorem dependencyAdmit_admits : Admits (dependencyAdmit req) := by
  refine .ite (.pure _) (.ite (.pure _) (.next fun _ => .bind ?_ fun _ =>
    .map .once))
  refine .bind (validate_inspects req).relax fun v => ?_
  cases v with
  | error e => exact .pure _
  | ok v =>
    refine .next fun reserved => ?_
    cases reserved with
    | error reason => exact .pure _
    | ok _ => exact registerChild_admits req v

/-! ### Acquiring and releasing -/

/-- What acquiring and releasing single resources does. -/
abbrev acquiring (β : Type) : KAct β → Prop
  | .ctx (.current _) | .ctx (.requireActive _) => True
  | .calls (.pendingFor _) => True
  | .res _ | .pub _ | .spawn => True
  | .journal entry => passing entry.kind
  | .comp (.pushResource _ _ _ _) | .comp (.dropResource _ _) => True
  | _ => False

abbrev Acquires {α : Type} (p : KProg α) : Prop := Composed acquiring (fun _ _ => False) p

theorem revokePublication_acquires : Acquires (revokePublication inst kind) := by
  cases kind with
  | cap name => exact .once
  | sub topic => exact .once
  | _ => exact .pure ()

theorem beginRelease_acquires : Acquires (beginRelease handle) := by
  refine .next fun r => ?_
  cases r with
  | error e => exact .pure _
  | ok _ => exact .once

theorem startThread_acquires (owner : Owner) (what : String) :
    Acquires (startThread handle owner what) :=
  .next fun _ => .ite (.pure _) (.map .once)

theorem register_acquires (owner : Owner) (kind : ResourceKind) :
    Acquires (register owner kind) := by
  unfold register
  cases validateKind kind with
  | error e => exact .pure _
  | ok _ =>
    refine .next fun handle => ?_
    cases kind with
    | timer label interval => exact startThread_acquires ..
    | task label => exact startThread_acquires ..
    | _ => exact .pure _

theorem publishKind_acquires : Acquires (publishKind cur kind) := by
  cases kind with
  | cap name => exact .once
  | sub topic => exact .once
  | _ => exact .pure ()

theorem publishAcquired_acquires : Acquires (publishAcquired logical cur kind handle) := by
  refine .bind (publishKind_acquires cur kind) fun _ => .next fun _ =>
    .next fun now => ?_
  cases acquireRace cur now with
  | none => exact .map .once
  | some err =>
    exact .bind (revokePublication_acquires ..) fun _ => .next fun _ =>
      .next fun _ => .map .once

theorem acquire_acquires : Acquires (acquire logical kind) := by
  refine .next fun cur => ?_
  cases cur with
  | none => exact .pure _
  | some cur =>
    refine .next fun active => ?_
    cases active with
    | error e => exact .pure _
    | ok _ =>
      refine .bind (register_acquires ..) fun registered => ?_
      cases registered with
      | error e => exact .pure _
      | ok handle => exact publishAcquired_acquires ..

theorem publishExternal_acquires : Acquires (publishExternal logical cur kind handle) :=
  .next fun _ => .ite (.map .once)
    (.bind (publishKind_acquires cur kind) fun _ => .next fun _ => .ite
      (.next fun _ => .map .once)
      (.bind (revokePublication_acquires ..) fun _ => .next fun _ =>
        .map .once))

theorem acquireExternal_acquires (callerInstance : InstanceId) (callerGeneration : Nat) :
    Acquires (acquireExternal logical kind callerInstance callerGeneration) := by
  refine .next fun cur => ?_
  cases cur with
  | none => exact .pure _
  | some cur =>
    refine .ite (.pure _) (.next fun active => ?_)
    cases active with
    | error e => exact .pure _
    | ok _ =>
      refine .bind (register_acquires ..) fun registered => ?_
      cases registered with
      | error e => exact .pure _
      | ok handle => exact publishExternal_acquires ..

theorem releaseClaimed_acquires (rec : ResourceRecord) (handle : ResourceHandle) :
    Acquires (releaseClaimed rec handle) := by
  refine .bind (beginRelease_acquires handle) fun claim => ?_
  cases claim with
  | error e => exact .pure _
  | ok claim =>
    exact .bind (revokePublication_acquires ..) fun _ => .map .once

theorem releaseHandle_acquires : Acquires (releaseHandle handle) := by
  refine .next fun rec => ?_
  cases rec with
  | none => exact .pure _
  | some rec =>
    exact .ite (.next fun _ => .ite (.pure _) (releaseClaimed_acquires ..))
      (releaseClaimed_acquires ..)

theorem acquireBatch_acquires (kinds : List ResourceKind)
    (out : List ResourceHandle) : Acquires (acquireBatch logical kinds out) := by
  induction kinds generalizing out with
  | nil => exact .pure _
  | cons kind kinds ih =>
    refine .bind (acquire_acquires logical kind) fun r => ?_
    cases r with
    | ok h => exact ih _
    | error e =>
      exact .map (.forEach _ fun h => .map (releaseHandle_acquires h))

/-! ### Invocation -/

/-- What an invocation does besides opening and settling its ticket and faulting. -/
abbrev dispatching (β : Type) : KAct β → Prop
  | .dryRun => True
  | .journal entry => passing entry.kind
  | a => inspecting β a

/-- The subprograms an invocation runs as a whole once its ticket is open. -/
inductive Handling (again : KProg Unit) : ∀ β : Type, KProg β → Prop
  | settling (ticket : TicketId) : Handling again _ (settleTicket again ticket)
  | faulting (fiber mode : String) : Handling again _ (fault fiber mode)

abbrev Handles (again : KProg Unit) {α : Type} (p : KProg α) : Prop :=
  Composed dispatching (Handling again) p

/-- The subprograms an invocation that pins these resources runs as a whole. -/
inductive Invoking (again : KProg Unit) (pins : List ResourceHandle) : ∀ β : Type, KProg β → Prop
  | opening (cap logical : String) (rec : ContextRecord) (policy : CallPolicy) (durable : Bool) :
      Invoking again pins _ (openTicket again cap logical rec policy pins durable)
  | settling (ticket : TicketId) : Invoking again pins _ (settleTicket again ticket)
  | faulting (fiber mode : String) : Invoking again pins _ (fault fiber mode)

abbrev Invokes (again : KProg Unit) (pins : List ResourceHandle) {α : Type} (p : KProg α) : Prop :=
  Composed dispatching (Invoking again pins) p

section Invoke

variable {again : KProg Unit} {pins : List ResourceHandle}

theorem invokes_of_handles (h : Handles again p) : Invokes again pins p := by
  refine h.mono (fun _ _ => id) fun β q hq => ?_
  cases hq with
  | settling ticket => exact .whole (.settling ticket)
  | faulting fiber mode => exact .whole (.faulting fiber mode)

instance : Included inspecting dispatching where

theorem journalInvoke_handles (fiber cap : String) : Handles again (journalInvoke fiber cap) :=
  .next fun _ => .ite (.pure _) (.once)

theorem invokes_of_inspects (h : Inspects p) : Invokes again pins p :=
  invokes_of_handles h.relax

theorem dispatch_inspects (reducer fiber : String) (input : Json) :
    Inspects (dispatch reducer fiber input) :=
  .ite (.pure _) (.ite (.pure _) (.ite (.map .once)
    (.ite (.pure _) (.ite (.pure _) (.pure _)))))

theorem invokeExternal_handles (reply : Option ForwardOutcome) :
    Handles again (invokeExternal again call reply) := by
  cases reply with
  | none => exact .map (.whole (.settling _))
  | some out =>
    refine .next fun t => .bind (.whole (.settling _)) fun _ => ?_
    split
    · exact .map (journalInvoke_handles ..)
    · exact .map .once
    · exact .pure _
    · exact .map .once
    · exact .map (.whole (.settling _))

theorem invokeReducer_handles (reducer : String) (input : Json) :
    Handles again (invokeReducer again call reducer input) := by
  refine .ite (.bind (.whole (.settling _)) fun _ => .map (.whole (.faulting ..)))
    (.bind (dispatch_inspects ..).relax fun entry => ?_)
  cases entry with
  | none => exact .map (.whole (.settling _))
  | some entry =>
    exact .next fun _ => .bind (.whole (.settling _)) fun _ =>
      .ite (.map (journalInvoke_handles ..))
        (.map .once)

theorem invokeOpened_handles (input : Json) (reply : Option ForwardOutcome) :
    Handles again (invokeOpened again call input reply) := by
  refine .next fun entry => ?_
  dsimp only
  cases entry.filter (entryServes call) with
  | none => exact .bind (.whole (.settling _)) fun _ => .map .once
  | some p =>
    dsimp only
    cases p.execution with
    | external entrypoint args timeout => exact invokeExternal_handles ..
    | inProcess => exact invokeReducer_handles ..

theorem callOpenEphemeral_invokes : Invokes again [] (callOpenEphemeral again cap) := by
  refine .next fun _ => .ite (.pure _)
    (.bind (invokes_of_inspects (admissionRecord_inspects cap)) fun admitted => ?_)
  cases admitted with
  | error e => exact .pure _
  | ok found =>
    exact .bind (invokes_of_inspects (policyFor_inspects ..)) fun _ => .whole (.opening ..)

theorem callOpen_invokes (policy : Option CallPolicy) (pins : List ResourceHandle) :
    Invokes again pins (callOpen again cap policy pins) := by
  refine .next fun _ => .ite (.pure _)
    (.bind (invokes_of_inspects (admissionRecord_inspects cap)) fun admitted => ?_)
  cases admitted with
  | error e => exact .pure _
  | ok found =>
    refine .bind (invokes_of_inspects (invalidPin_inspects ..)) fun pin => ?_
    cases pin with
    | some h => exact .pure _
    | none =>
      cases policy with
      | some policy => exact .whole (.opening ..)
      | none =>
        exact .bind (invokes_of_inspects (policyFor_inspects ..)) fun _ => .whole (.opening ..)

theorem invokeBound_invokes (input : Json) (expected : Option InstanceRef)
    (reply : Option ForwardOutcome) :
    Invokes again [] (invokeBound again cap input expected reply) := by
  refine .bind (callOpenEphemeral_invokes cap) fun opened => ?_
  cases opened with
  | error e => exact .pure _
  | ok call =>
    cases expected with
    | none => exact invokes_of_handles (invokeOpened_handles ..)
    | some r =>
      exact .next fun _ => .ite (invokes_of_handles (invokeOpened_handles ..))
        (.map (.whole (.settling _)))

theorem callReap_handles : Handles again (callReap again ticket reason) := by
  refine .next fun r => ?_
  cases r with
  | none => exact .pure _
  | some r =>
    refine .ite (.pure _) (.bind (.whole (.settling _)) fun r => ?_)
    cases r with
    | none => exact .pure _
    | some r => exact .map .once

theorem callReap_invokes :
    Invokes again [] (callReap again ticket reason) := invokes_of_handles (callReap_handles ..)

end Invoke

end MatrixRuntime.CallFrame
