import MatrixRuntime.KernelOperations
import MatrixRuntime.RelyGuarantee

/-! What the lifecycle functions are made of. The reconciler is composed of actions
that never end an activation, of whole disposals and of single releases; a
disposal quiesces its instance with actions that never move a context. A proof
about a run then needs these parts once, not every path through the functions. -/

namespace MatrixRuntime

open KernelActions InterleavedProgram

variable {α β : Type} {p : KProg α} {C C' : ∀ β : Type, KAct β → Prop} {a : KAct β}
  {S S' : ∀ β : Type, KProg β → Prop}

/-- Every action of the one class is in the other, by the constructors. -/
class Included (C C' : ∀ β : Type, KAct β → Prop) : Prop where
  incl : ∀ β (a : KAct β), C β a → C' β a := by
    intro β a ha
    cases a with
    | ctx a | calls a | res a | pub a | comp a | grant a =>
      cases a <;> first
        | exact trivial | exact ha.elim | exact ha | exact .inl ha | exact .inr ha
        | exact ha.elim False.elim False.elim | exact rfl
    | _ => first
      | exact trivial | exact ha.elim | exact ha | exact .inl ha | exact .inr ha
      | exact ha.elim False.elim False.elim

theorem KernelActions.KAct.within [sub : Included C C'] (h : C β a) : C' β a := sub.incl β a h

theorem InterleavedProgram.Composed.widen [sub : Included C C'] (h : Composed C S p)
    (hS : ∀ β q, S β q → Composed C' S' q) : Composed C' S' p := h.mono sub.incl hS

theorem InterleavedProgram.Composed.relax [sub : Included C C']
    (h : Composed C (fun _ _ => False) p) : Composed C' S p := h.weaken sub.incl

end MatrixRuntime

namespace MatrixRuntime.ReconcileFrame

open KernelContexts KernelTickets KernelResources DependencyGraph KernelState JsonValue
open InterleavedProgram KernelActions KernelReconcile RelyGuarantee
open KernelOperations

/-- Context actions that create activations and move them towards `Active`. -/
abbrev composingContext (β : Type) : ContextAct β → Prop
  | .create _ state _ => state = .waiting ∨ state = .active
  | .epoch | .get _ | .current _ | .currentAll | .markActive _ | .markWaiting _ _ => True
  | _ => False

/-- Resource actions that register a publication or only look. -/
abbrev composingResource (β : Type) : ResourceAct β → Prop
  | .insert _ kind => (∃ name, kind = .cap name) ∨ ∃ topic, kind = .sub topic
  | .handlesFor _ | .record _ => True
  | _ => False

/-- Kinds of entries other than the one that reports the end of an activation. -/
abbrev passing : JournalKind → Prop
  | .pluginUnloaded => False
  | _ => True

/-- The reconciler's own actions. -/
abbrev composing (β : Type) : KAct β → Prop
  | .ctx a => composingContext β a
  | .res a => composingResource β a
  | .journal entry => passing entry.kind
  | .pub _ | .comp _ | .emit _ => True
  | _ => False

/-- The subprograms the reconciler runs as a whole. -/
inductive Whole (again : KProg Unit) : ∀ β : Type, KProg β → Prop
  | dispose (inst : InstanceId) : Whole again _ (disposeInstanceInner again inst)
  | release (handle : ResourceHandle) : Whole again _ (beginRelease handle)
  | again : Whole again _ again

variable {again : KProg Unit} {α : Type} {β : Type} {p : KProg α} (logical : String)
  (defs : Definitions) (inst : InstanceId) (states : States) (cur : ContextRecord)
  (manifest : StoredManifest) (rec : ContextRecord) (parent : TicketId) (reason : String)
  (bindings : List Binding) (handle : ResourceHandle) (kind : ResourceKind) (ls : List String)
  (revoked : List TicketRecord)

/-! ### Withdrawing and releasing -/

/-- What a dispose does to live work: revoke publications, signal tickets, wait. -/
abbrev withdrawing (β : Type) : KAct β → Prop
  | .comp (.markPlugin _ _ _) | .comp .remoteKeys | .comp (.retainBindings _) => True
  | .res (.handlesFor _) | .res (.record _) => True
  | .pub (.revokeCapIfOwned _ _) | .pub (.unsubscribeTopicIfOwned _ _) => True
  | .calls (.pendingFor _) | .calls (.cancel _ _) | .calls (.setDrainUntil _ _)
  | .calls (.revokeChildrenOfConsumer _ _) | .calls (.expireOverdue _)
  | .calls (.revokeDescendants _ _) => True
  | .journal entry => passing entry.kind
  | .emit _ | .now | .awaitSettled _ _ => True
  | _ => False

abbrev Withdraws (p : KProg α) : Prop := Composed withdrawing (fun _ _ => False) p

theorem revokePublication_withdraws : Withdraws (revokePublication inst kind) := by
  cases kind with
  | cap name => exact .once
  | sub topic => exact .once
  | _ => exact .pure ()

/-- Signals to tickets and waits for them. -/
abbrev signalling (β : Type) : KAct β → Prop
  | .calls (.pendingFor _) | .calls (.cancel _ _) | .calls (.setDrainUntil _ _)
  | .calls (.revokeChildrenOfConsumer _ _) | .calls (.expireOverdue _)
  | .calls (.revokeDescendants _ _) => True
  | .journal entry => passing entry.kind
  | .now | .awaitSettled _ _ => True
  | _ => False

abbrev Signals (p : KProg α) : Prop := Composed signalling (fun _ _ => False) p

instance : Included signalling withdrawing where

theorem journalRevoked_signals : Signals (journalRevoked reason revoked) :=
  .forEach _ fun _ => .once

theorem revokeTicketDescendants_signals : Signals (revokeTicketDescendants parent reason) :=
  .next fun _ => journalRevoked_signals ..

theorem journalRevoked_withdraws : Withdraws (journalRevoked reason revoked) :=
  (journalRevoked_signals reason revoked).relax

theorem revokeTicketDescendants_withdraws : Withdraws (revokeTicketDescendants parent reason) :=
  (revokeTicketDescendants_signals parent reason).relax

theorem withdrawTickets_signals (now : Nat) (ts : List TicketRecord)
    (drainUntil : Option Nat) : Signals (withdrawTickets rec now ts drainUntil) := by
  induction ts generalizing drainUntil with
  | nil => exact .pure _
  | cons t ts ih =>
    refine .bind ?_ fun _ => ih _
    unfold withdrawTicket
    cases t.policy.onWithdraw with
    | cancel =>
      exact .next fun _ =>
        .ite (.map .once) (.pure _)
    | drain =>
      exact .next fun _ => .map .once

theorem awaitDrain_signals (drainUntil : Option Nat) : Signals (awaitDrain inst drainUntil) := by
  cases drainUntil with
  | none => exact .pure _
  | some instant =>
    exact .next fun _ =>
      .ite (.map .once) (.pure _)

theorem unpublish_withdraws : Withdraws (unpublish rec handle) := by
  refine .next fun rr => ?_
  cases rr with
  | none => exact .pure _
  | some rr => exact .ite (.pure _) (revokePublication_withdraws _ _)

theorem quiesce_withdraws : Withdraws (quiesce rec) := by
  refine .next fun _ => .bind (.next fun _ =>
    .once) fun _ => .next fun _ => .next fun _ =>
    .bind (.forEach _ fun h => unpublish_withdraws rec h) fun _ => .next fun _ =>
    .next fun _ => .bind (withdrawTickets_signals ..).relax
    fun _ => .bind (awaitDrain_signals ..).relax fun _ => .next fun _ =>
    .bind (journalRevoked_withdraws ..) fun _ => .next fun _ =>
    .next fun _ => .forEach _ fun _ => ?_
  exact .next fun _ => revokeTicketDescendants_withdraws ..

/-- What releasing the resources of a context does. -/
abbrev releasing (β : Type) : KAct β → Prop
  | .res (.handlesFor _) | .res (.record _) | .res (.inspectRelease _) | .res (.claimRelease _) =>
    True
  | .pub (.revokeCapIfOwned _ _) | .pub (.unsubscribeTopicIfOwned _ _) => True
  | _ => False

abbrev Releases (p : KProg α) : Prop := Composed releasing (fun _ _ => False) p

theorem beginRelease_releases : Releases (beginRelease handle) := by
  refine .next fun r => ?_
  cases r with
  | error e => exact .pure _
  | ok _ => exact .once

theorem revokePublication_releases : Releases (revokePublication inst kind) := by
  cases kind with
  | cap name => exact .once
  | sub topic => exact .once
  | _ => exact .pure ()

theorem releaseOwned_releases : Releases (releaseOwned rec handle) := by
  refine .next fun rr => ?_
  cases rr with
  | none => exact .pure _
  | some rr =>
    refine .ite (.pure _) (.bind (beginRelease_releases handle) fun claim => ?_)
    cases claim with
    | ok claim => exact .map (revokePublication_releases ..)
    | error e => cases e <;> exact .pure _

theorem releaseContextResources_releases : Releases (releaseContextResources rec) := by
  refine .next fun handles => ?_
  generalize handles.reverse = hs
  induction hs with
  | nil => exact .pure _
  | cons h hs ih => exact .bind (releaseOwned_releases rec h) fun _ => .map ih

/-! ### The reconciler -/

/-- What the reconciler does besides promoting, launching and disposing of activations. -/
abbrev steering (β : Type) : KAct β → Prop
  | .ctx (.create _ state _) => state = .waiting
  | .ctx .epoch | .ctx (.get _) | .ctx (.current _) | .ctx .currentAll
  | .ctx (.markWaiting _ _) => True
  | .journal entry => passing entry.kind
  | .comp _ | .emit _ => True
  | _ => False

/-- The subprograms that change which activations are active. -/
inductive Stage (again : KProg Unit) : ∀ β : Type, KProg β → Prop
  | promote (logical : String) (manifest : StoredManifest) :
      Stage again _ (promoteWaiting logical manifest)
  | launch (manifest : StoredManifest) (bindings : List Binding) (json : Json) :
      Stage again _ (createActive again manifest bindings json)
  | dispose (inst : InstanceId) : Stage again _ (disposeInstanceInner again inst)
  | again : Stage again _ again

abbrev Steers (again : KProg Unit) (p : KProg α) : Prop := Composed steering (Stage again) p

section Steers

variable {S : ∀ β : Type, KProg β → Prop}

/-- Actions that survey the contexts and the composition as a whole. -/
abbrev surveying (β : Type) : KAct β → Prop
  | .ctx .epoch | .ctx .currentAll | .comp _ => True
  | _ => False

theorem remoteState_surveys : Composed surveying S (remoteState logical) := by
  refine .next fun reg => ?_
  cases reg with
  | none => exact .pure _
  | some reg =>
    refine .next fun defs => .ite (.pure _) ?_
    exact .map .once

theorem mergeRemotes_surveys (states : States) : Composed surveying S (mergeRemotes ls states) := by
  induction ls generalizing states with
  | nil => exact .pure _
  | cons l ls ih =>
    refine .bind (remoteState_surveys l) fun rec => ?_
    cases rec with
    | none => exact ih _
    | some rec => exact ih _

theorem currentAllMerged_surveys : Composed surveying S currentAllMerged :=
  .next fun _ => .next fun _ => mergeRemotes_surveys _ _

instance : Included surveying steering where

theorem currentAllMerged_steers : Composed steering S currentAllMerged := by
  exact (currentAllMerged_surveys (S := S)).widen fun _ _ known => .whole known

theorem bindingsStale_steers : Composed steering S (bindingsStale logical states) :=
  .map .once

theorem createWaitingInstance_steers :
    Composed steering S (createWaitingInstance manifest reason) :=
  .next fun _ => .next fun _ =>
    .map .once

theorem renewWaiting_steers (cur : ContextRecord) (reason : String) :
    Composed steering S (renewWaiting logical manifest cur reason) := by
  refine .ite (.next fun _ => .ite ?_ (.pure _)) ?_
  · exact .map .once
  · exact .next fun _ => .next fun _ =>
      .map .once

theorem ensureWaiting_steers : Composed steering S (ensureWaiting logical defs reason) := by
  unfold ensureWaiting
  cases defs.lookup logical with
  | none => exact .pure _
  | some manifest =>
    refine .next fun cur => ?_
    cases cur with
    | none => exact .map (createWaitingInstance_steers _ _)
    | some cur =>
      dsimp only
      split
      · exact renewWaiting_steers ..
      · exact renewWaiting_steers ..
      · exact renewWaiting_steers ..
      · exact .map (createWaitingInstance_steers _ _)
      · exact .pure _

theorem withdrawToWaiting_steers : Steers again (withdrawToWaiting again logical defs reason) := by
  unfold withdrawToWaiting
  cases defs.lookup logical with
  | none => exact .pure _
  | some manifest =>
    have waiting : Steers again (createWaitingInstance manifest reason >>= fun _ => pure true) :=
      .map (createWaitingInstance_steers _ _)
    refine .next fun cur => ?_
    cases cur with
    | none => exact waiting
    | some cur =>
      dsimp only
      split
      · exact .bind (.whole (.dispose _)) fun _ => waiting
      · exact .bind (.whole (.dispose _)) fun _ => waiting
      · exact .bind (.whole (.dispose _)) fun _ => waiting
      · exact ensureWaiting_steers ..
      · exact waiting
      · exact .pure _

theorem parkMember_steers (reason m : String) : Steers again (parkMember again defs reason m) := by
  refine .next fun cur => ?_
  split
  · exact withdrawToWaiting_steers ..
  · exact withdrawToWaiting_steers ..
  · exact withdrawToWaiting_steers ..
  · exact withdrawToWaiting_steers ..
  · exact withdrawToWaiting_steers ..
  · exact ensureWaiting_steers ..
  · exact .pure _

theorem parkCycle_steers (ms : List String)
    (changed : Bool) : Steers again (parkCycle again defs reason ms changed) := by
  induction ms generalizing changed with
  | nil => exact .pure _
  | cons m ms ih => exact .ite (ih _) (.bind (parkMember_steers ..) fun _ => ih _)

theorem withdrawStale_steers (l : String) : Steers again (withdrawStale again defs states l) := by
  refine .bind (bindingsStale_steers ..) fun stale => ?_
  cases resolveFor l defs states with
  | error e => exact withdrawToWaiting_steers ..
  | ok bindings => exact .ite (withdrawToWaiting_steers ..) (.pure _)

theorem withdrawPass_steers
    (withdrew : Bool) : Steers again (withdrawPass again defs states ls withdrew) := by
  induction ls generalizing withdrew with
  | nil => exact .pure _
  | cons l ls ih => exact .ite (.bind (withdrawStale_steers ..) fun _ => ih _) (ih _)

theorem preservedJsonState_steers : Composed steering S (preservedJsonState logical manifest) := by
  refine .next fun p => ?_
  cases p with
  | none => exact .pure _
  | some p => exact .pure _

theorem activate_steers (l : String)
    (manifest : StoredManifest) : Steers again (activate again defs states l manifest) := by
  unfold activate
  split
  · exact .bind (bindingsStale_steers ..) fun _ =>
      .ite (withdrawToWaiting_steers ..) (.pure _)
  · exact .pure _
  · exact .pure _
  · exact .pure _
  · cases resolveFor l defs states with
    | error e => exact ensureWaiting_steers ..
    | ok bindings =>
      exact .ite (.whole (.promote ..))
        (.bind (preservedJsonState_steers ..) fun _ => .whole (.launch ..))

theorem activationPass_steers : Steers again (activationPass again defs states ls) := by
  induction ls with
  | nil => exact .pure _
  | cons l ls ih =>
    unfold activationPass
    cases defs.lookup l with
    | none => exact ih
    | some manifest =>
      exact .ite ih (.bind (activate_steers ..) fun _ => .ite (.pure _) ih)

theorem dropRemote_steers (reason logical : String) :
    Composed steering S (dropRemote reason logical) :=
  .next fun _ => .next fun _ => .once

theorem reconcileStep_steers : Steers again (reconcileStep again) := by
  refine .next fun defs => .ite (.pure _) (.next fun keys =>
    .ite (.map (.forEach _ fun l => dropRemote_steers _ l)) ?_)
  dsimp only
  cases findCycle (graphEdges (requiresOf defs) (providesOf defs)) with
  | some path => exact parkCycle_steers ..
  | none =>
    exact .bind currentAllMerged_steers fun _ => .bind (withdrawPass_steers ..) fun _ =>
      .ite (.pure _) (.bind currentAllMerged_steers fun _ => activationPass_steers ..)

theorem reconcileLoop_steers (n : Nat) : Steers again (reconcileLoop again n) := by
  induction n with
  | zero => exact .pure _
  | succ n ih => exact .bind reconcileStep_steers fun _ => .ite ih (.pure _)

theorem reconcile_succ_steers (depth : Nat) : Steers (reconcile depth) (reconcile (depth + 1)) :=
  .next fun _ => reconcileLoop_steers _

/-- What an activation is announced with. -/
abbrev announcing (β : Type) : KAct β → Prop
  | .ctx (.get _) | .comp .definitions | .comp (.issueBindings _ _ _) | .emit _ => True
  | .journal entry => passing entry.kind
  | _ => False

theorem announceActive_announces : Composed announcing S (announceActive logical cur bindings) := by
  refine .next fun _ => .bind (.next fun defs => ?_)
    fun _ => .next fun rec => ?_
  · cases defs.lookup logical with
    | none => exact .pure _
    | some manifest =>
      dsimp only
      split
      · exact .once
      · exact .pure _
  · cases rec with
    | none => exact .pure _
    | some rec => exact .ite (.pure _) (.next fun _ => .once)

instance : Included announcing steering where

theorem announceActive_steers : Composed steering S (announceActive logical cur bindings) := by
  exact (announceActive_announces logical cur bindings).widen fun _ _ known => .whole known

/-! ### Operations on definitions -/

theorem replaceCurrent_steers : Steers again (replaceCurrent again manifest) := by
  refine .next fun cur => ?_
  cases cur with
  | none => exact .pure _
  | some cur =>
    dsimp only
    split
    · exact .pure _
    · exact .pure _
    · exact .pure _
    · exact .map (.whole (.dispose _))

theorem loadManifest_steers : Steers again (loadManifest again manifest) := by
  refine .next fun old => .next fun _ =>
    .bind (replaceCurrent_steers manifest) fun _ => .bind ?_ fun _ =>
    .bind (.whole .again) fun _ => .bind ?_ fun _ => .bind ?_ fun _ => .pure _
  · refine .next fun cur => .ite (.next fun defs => ?_)
      (.pure _)
    cases defs.lookup manifest.id with
    | none => exact .pure _
    | some m => exact .map (createWaitingInstance_steers ..)
  · unfold reapplyState
    cases reapplied manifest old with
    | none => exact .pure _
    | some json => exact .once
  · refine .next fun cur => ?_
    cases cur with
    | none => exact .pure _
    | some cur => exact .once

theorem dropRegistration_steers (logical reason : String) :
    Composed steering S (dropRegistration logical reason) :=
  .next fun _ =>
    .ite (.next fun _ => .once) (.pure _)

theorem disposePlugin_steers (id : String) : Steers again (disposePlugin again id) := by
  refine .bind (dropRegistration_steers ..) fun _ => .next fun _ =>
    .next fun _ => .bind (.next fun cur => ?_) fun _ =>
    .map (.whole .again)
  cases cur with
  | none => exact .pure _
  | some cur => exact .whole (.dispose _)

theorem disposeInstance_steers : Steers again (disposeInstance again inst) :=
  .bind (.whole (.dispose _)) fun _ => .map (.whole .again)

theorem registerRemoteProvider_steers (generation : Nat)
    (peer : String) : Steers again (registerRemoteProvider again logical inst generation peer) :=
  .next fun _ => .ite (.ite (.pure _) (.next fun _ =>
    .next fun _ => .map (.whole .again))) (.pure _)

theorem unregisterRemoteProvider_steers : Steers again (unregisterRemoteProvider again logical) :=
  .next fun _ => .ite (.next fun _ =>
    .next fun _ => .map (.whole .again)) (.pure _)

theorem installRemoteDefinition_steers : Steers again (installRemoteDefinition again manifest) :=
  .next fun _ => .bind (dropRegistration_steers ..) fun _ => .whole .again

/-- The operations that compose and recompose the system. -/
def recomposes : Op → Bool
  | .loadManifest _ | .disposeInstance _ | .disposePlugin _ | .registerRemoteProvider _ _ _ _
  | .unregisterRemoteProvider _ | .installRemoteDefinition _ | .reconcile => true
  | _ => false

theorem recomposes_steers {op : Op} (h : recomposes op = true) : Steers again (op.code again) := by
  cases op with
  | loadManifest manifest => exact .map (loadManifest_steers manifest)
  | disposeInstance inst => exact .map (disposeInstance_steers inst)
  | disposePlugin id => exact .map (disposePlugin_steers id)
  | registerRemoteProvider logical inst generation peer =>
    exact .map (registerRemoteProvider_steers logical inst generation peer)
  | unregisterRemoteProvider logical =>
    exact .map (unregisterRemoteProvider_steers logical)
  | installRemoteDefinition manifest =>
    exact .map (installRemoteDefinition_steers manifest)
  | reconcile => exact .map (.whole .again)
  | _ => cases h

end Steers

/-! ### Actions of the reconciler -/

abbrev Composes (again : KProg Unit) (p : KProg α) : Prop := Composed composing (Whole again) p

/-- What registers and publishes, apart from taking a registration back. -/
abbrev equipping (β : Type) : KAct β → Prop
  | .res a => composingResource β a
  | .pub _ => True
  | _ => False

/-- Registrations are taken back one at a time. -/
inductive Release : ∀ β : Type, KProg β → Prop
  | release (handle : ResourceHandle) : Release _ (beginRelease handle)

abbrev Equips (p : KProg α) : Prop := Composed equipping Release p

theorem equips_pub (a : PublishAct β) : Equips (pub a) := .once

theorem revokePublication_equips : Equips (revokePublication inst kind) := by
  cases kind with
  | cap name => exact .once
  | sub topic => exact .once
  | _ => exact .pure ()

theorem rollbackAcquired_equips (acquired : List ResourceHandle) :
    Equips (rollbackAcquired inst acquired) := by
  refine .forEach _ fun h => .bind (.whole (.release h)) fun claim => ?_
  cases claim with
  | ok claim => exact revokePublication_equips inst claim.kind
  | error e => exact .pure ()

theorem register_equips (owner : Owner) {kind : ResourceKind}
    (h : (∃ name, kind = .cap name) ∨ ∃ topic, kind = .sub topic) :
    Equips (register owner kind) := by
  unfold register
  cases validateKind kind with
  | error e => exact .pure _
  | ok _ =>
    refine .step h fun handle => ?_
    rcases h with ⟨name, rfl⟩ | ⟨topic, rfl⟩ <;> exact .pure _

theorem acquireItems_equips {kind : String → ResourceKind} {publish : String → KProg Unit}
    (hkind : ∀ item, (∃ name, kind item = .cap name) ∨ ∃ topic, kind item = .sub topic)
    (hpublish : ∀ item, Equips (publish item)) (items : List String)
    (acquired : List ResourceHandle) :
    Equips (acquireItems cur manifest kind publish items acquired) := by
  induction items generalizing acquired with
  | nil => exact .pure _
  | cons item items ih =>
    refine .bind (register_equips _ (hkind item)) fun r => ?_
    cases r with
    | ok h => exact .bind (hpublish item) fun _ => ih _
    | error e => exact .map (rollbackAcquired_equips _ _)

theorem acquireDefinitionResources_equips : Equips (acquireDefinitionResources cur manifest) := by
  refine .bind (acquireItems_equips cur manifest (fun item => .inl ⟨item, rfl⟩)
    (fun _ => equips_pub _) _ _) fun caps => ?_
  cases caps with
  | error e => exact .pure _
  | ok acquired =>
    exact acquireItems_equips cur manifest (fun item => .inr ⟨item, rfl⟩)
      (fun _ => equips_pub _) _ _

instance : Included equipping composing where

theorem composes_of_equips (h : Equips p) : Composes again p := by
  refine h.widen fun β q hq => ?_
  cases hq with
  | release handle => exact .whole (.release handle)

instance : Included steering composing where

theorem promoteWaiting_composes : Composes again (promoteWaiting logical manifest) := by
  refine .next fun cur => ?_
  cases cur with
  | none => exact .pure _
  | some cur =>
    refine .ite (.pure _) (.bind (currentAllMerged_steers.relax) fun fresh =>
      .next fun defs => ?_)
    cases resolveFor logical defs fresh with
    | error e => exact .map (ensureWaiting_steers ..).relax
    | ok bindings =>
      refine .bind (composes_of_equips (acquireDefinitionResources_equips cur manifest))
        fun acquired => ?_
      cases acquired with
      | error e => exact .map (ensureWaiting_steers ..).relax
      | ok acquired =>
        refine .next fun _ => .ite (.next fun _ =>
          .ite ?_ (.pure _)) ?_
        · exact .map (announceActive_steers ..).relax
        · exact .map (composes_of_equips (rollbackAcquired_equips ..))

theorem createActive_composes
    (json : Json) : Composes again (createActive again manifest bindings json) := by
  refine .step (.inr rfl) fun cur =>
    .bind (composes_of_equips (acquireDefinitionResources_equips cur manifest)) fun acquired => ?_
  cases acquired with
  | ok acquired =>
    exact .next fun _ => .map (announceActive_steers ..).relax
  | error e =>
    exact .bind (.whole (.dispose _)) fun _ => .next fun _ =>
      .map (ensureWaiting_steers ..).relax

theorem composes_of_steers (h : Steers again p) : Composes again p := by
  refine h.widen fun β q hq => ?_
  cases hq with
  | promote logical manifest => exact promoteWaiting_composes logical manifest
  | launch manifest bindings json => exact createActive_composes manifest bindings json
  | dispose inst => exact .whole (.dispose inst)
  | again => exact .whole .again

theorem reconcile_succ_composes (depth : Nat) :
    Composes (reconcile depth) (reconcile (depth + 1)) :=
  composes_of_steers (reconcile_succ_steers depth)

theorem recomposes_composes {op : Op} (h : recomposes op = true) : Composes again (op.code again) :=
  composes_of_steers (recomposes_steers h)

/-! ### Rules -/

section Keeps

variable {depth i : Nat} {D : Discipline (kernel depth)} {P : KObs depth → Prop}
  {o : KObs depth} {inst : InstanceId}

/-- The report of a parked disposal only looks at its context. -/
theorem wp_parkOutcome (get : ∀ o, P o → D.wp i (ctx (.get inst)) (fun _ => P) o)
    (reason : String) (ho : P o) : D.wp i (parkOutcome inst reason) (fun _ => P) o := by
  have last : ∀ o, P o → D.wp i (ctx (.get inst) >>= fun last => pure
      (DisposeOutcome.cleanupPending ((last.bind (·.cause)).getD reason))) (fun _ => P) o :=
    fun o ho => Discipline.wp_seq (get o ho) fun _ _ h => h
  refine Discipline.wp_seq (get o ho) fun cur o₁ h₁ => ?_
  cases cur with
  | none => exact last o₁ h₁
  | some cur =>
    dsimp only
    split_ifs
    · exact h₁
    · exact last o₁ h₁

/-- A disposal does its work on a context that it has claimed. -/
theorem wp_disposeInstanceInner {Claimed : ContextRecord → KObs depth → Prop}
    (get : D.wp i (ctx (.get inst)) (fun _ => P) o)
    (claim : ∀ o, P o → D.wp i (ctx (.claimDispose inst)) (fun claim o =>
      (∀ rec, claim = .ok (.fresh rec) → Claimed rec o) ∧
      ((∀ rec, claim ≠ .ok (.fresh rec)) → P o)) o)
    (dispose : ∀ rec o, Claimed rec o → D.wp i (quiesce rec >>= fun _ =>
      calls (.pendingCount inst) >>= fun live =>
        if 0 < live then park again rec else settleDispose rec) (fun _ => P) o) :
    D.wp i (disposeInstanceInner again inst) (fun _ => P) o := by
  refine Discipline.wp_seq get fun rec o₁ h₁ => ?_
  cases rec with
  | none => exact h₁
  | some rec =>
    dsimp only
    split
    · exact h₁
    · exact h₁
    · exact h₁
    · refine Discipline.wp_seq (claim o₁ h₁) fun claim o₂ h₂ => ?_
      split
      next rec => exact dispose rec o₂ (h₂.1 rec rfl)
      · exact h₂.2 (by simp)
      · exact h₂.2 (by simp)

theorem composes_keeps (h : Composes again p) (stable : D.Stable i P)
    (acts : ∀ β (a : KAct β), composing β a → D.Keeps i P a)
    (release : ∀ handle o, P o → D.wp i (beginRelease handle) (fun _ => P) o)
    (hagain : ∀ o, P o → D.wp i again (fun _ => P) o)
    (dispose : ∀ inst o, P o → D.wp i (disposeInstanceInner again inst) (fun _ => P) o)
    (ho : P o) : D.wp i p (fun _ => P) o := by
  refine Discipline.wp_composed h stable acts ?_ ho
  intro β q whole o₁ ho₁
  cases whole with
  | dispose inst => exact dispose inst o₁ ho₁
  | release handle => exact release handle o₁ ho₁
  | again => exact hagain o₁ ho₁

/-- What the reconciler's own actions, single releases and disposals keep, it keeps. -/
theorem reconcile_keeps (stable : D.Stable i P)
    (acts : ∀ β (a : KAct β), composing β a → D.Keeps i P a)
    (release : ∀ handle o, P o → D.wp i (beginRelease handle) (fun _ => P) o)
    (dispose : ∀ again : KProg Unit, (∀ o, P o → D.wp i again (fun _ => P) o) →
      ∀ inst o, P o → D.wp i (disposeInstanceInner again inst) (fun _ => P) o)
    (n : Nat) : ∀ o, P o → D.wp i (reconcile n) (fun _ => P) o := by
  induction n with
  | zero => exact fun _ _ => trivial
  | succ n ih =>
    intro o ho
    exact composes_keeps (reconcile_succ_composes n) stable acts release ih
      (dispose (reconcile n) ih) ho

end Keeps

end MatrixRuntime.ReconcileFrame
