import MatrixRuntime.ContextOrder
import MatrixRuntime.TicketCounts

/-! What a revoker still owes. Whoever ends a ticket, withdraws an activation or replaces
a grant does so in one step and revokes the children that lose their authority in a
later one. In between the children are open without it, and the thread owes their
revocation. An open child of a finished admission has its parent, its consumer, its
provider and its grant, each as it was admitted, or some thread owes its end. -/

namespace MatrixRuntime.RevocationDebts

open KernelContexts KernelTickets KernelState KernelActions KernelOperations DependencyAdmission
open InterleavedMachine TicketFrame TicketCounts ContextFrame ContextOrder Function

variable {depth : Nat}

/-! ### Dues -/

/-- How far a dispose is: the instance it has claimed, and then the tickets of the instance that
it has yet to cancel. It is over with the revocation of the consumer's children. -/
inductive Stage where
  | idle
  | claimed (inst : InstanceId)
  | cancelling (inst : InstanceId) (tickets : List TicketId)
  deriving DecidableEq, Repr

namespace Stage

/-- The withdraw policies have been read off the tickets that name the instance. -/
def listed (inst : InstanceId) (pending : List TicketRecord) : Stage → Stage
  | claimed k =>
    if k = inst then
      cancelling k ((pending.filter fun t => decide (t.policy.onWithdraw = .cancel)).map (·.id))
    else claimed k
  | s => s

def cancelled (id : TicketId) : Stage → Stage
  | cancelling k ids => cancelling k (ids.filter fun j => decide (j ≠ id))
  | s => s

/-- The children of this consumer are yet to be revoked. -/
def leaves (inst : InstanceId) : Stage → Prop
  | idle => False
  | claimed k => k = inst
  | cancelling k _ => k = inst

/-- This ticket of the provider is yet to be cancelled. -/
def withdraws (inst : InstanceId) (id : TicketId) : Stage → Prop
  | idle => False
  | claimed k => k = inst
  | cancelling k ids => k = inst ∧ id ∈ ids

end Stage

/-- What a thread owes: the rest of a dispose, the descendants of the tickets it ended, and the
children under the grants it replaced, but for those of the revision it put. -/
structure Dues where
  stage : Stage
  ended : List TicketId
  regrants : List (String × String × Option Nat)
  deriving DecidableEq, Repr

def Dues.clear : Dues := ⟨.idle, [], []⟩

def stageAfter {β : Type} : KAct β → β → Stage → Stage
  | .ctx (.claimDispose inst), .ok (.fresh _), _ => .claimed inst
  | .calls (.pendingFor inst), pending, stage => stage.listed inst pending
  | .calls (.cancel id _), _, stage => stage.cancelled id
  | .calls (.revokeChildrenOfConsumer _ _), _, _ => .idle
  | _, _, stage => stage

/-- A dispose that cancels leaves the descendants to the revocation of its consumer's children,
and a rollback has none. -/
def endedAfter {β : Type} (stage : Stage) : KAct β → β → List TicketId → List TicketId
  | .calls (.cancel id _), marked, ended => if stage = .idle ∧ marked then id :: ended else ended
  | .calls (.remove remover id), removed, ended =>
    if remover ≠ .rollback ∧ removed.isSome then id :: ended else ended
  | .calls (.expireTicket id), marked, ended => if marked then id :: ended else ended
  | .calls (.expireOverdue _), ids, ended => ids ++ ended
  | .calls (.revokeDescendants id _), _, ended => ended.filter fun j => decide (j ≠ id)
  | _, _, ended => ended

def regrantsAfter {β : Type} :
    KAct β → β → List (String × String × Option Nat) → List (String × String × Option Nat)
  | .grant (.put consumer cap rev), _, regrants => (consumer, cap, some rev) :: regrants
  | .grant (.remove consumer cap), _, regrants => (consumer, cap, none) :: regrants
  | .calls (.revokeGrantChildren consumer cap keep _), _, regrants =>
    regrants.filter fun g => decide (g ≠ (consumer, cap, keep))
  | _, _, regrants => regrants

def duesAfter {β : Type} (a : KAct β) (b : β) (d : Dues) : Dues where
  stage := stageAfter a b d.stage
  ended := endedAfter d.stage a b d.ended
  regrants := regrantsAfter a b d.regrants

section Owed

variable (ds : Nat → Dues)

def Ended (id : TicketId) : Prop := ∃ j, id ∈ (ds j).ended

def Leaving (inst : InstanceId) : Prop := ∃ j, (ds j).stage.leaves inst

def Withdrawing (inst : InstanceId) (id : TicketId) : Prop :=
  ∃ j, (ds j).stage.withdraws inst id

def Regranting (consumer cap : String) (rev : Nat) : Prop :=
  ∃ j keep, keep ≠ some rev ∧ (consumer, cap, keep) ∈ (ds j).regrants

end Owed

/-! ### What backs an open child -/

inductive Clause where
  | parent
  | consumer
  | provider
  | grant
  deriving DecidableEq, Repr

/-- The clause holds of an open child, or a thread owes the child's revocation for it. -/
def Backs (ds : Nat → Dues) (s : KState) (id : TicketId) (t : TicketRecord) (d : DepChild) :
    Clause → Prop
  | .parent => Open s.calls d.parent ∨ Ended ds d.parent ∨ Leaving ds d.consumer
  | .consumer => CurrentActive s.contexts d.grantConsumer d.consumer ∨ Leaving ds d.consumer
  | .provider => d.remotePeer = none →
      CurrentActive s.contexts t.logical t.instanceId ∨ Withdrawing ds t.instanceId id
  | .grant => s.grants (d.grantConsumer, d.grantCap) = some d.grantRev ∨
      Regranting ds d.grantConsumer d.grantCap d.grantRev

def Backed (ds : Nat → Dues) (s : KState) (id : TicketId) (k : Clause) : Prop :=
  ∀ t d, OpenLink s.calls id t d → Backs ds s id t d k

/-- The ticket was issued and, while it is in the table, is a child. -/
structure Attached (id : TicketId) (s : KState) : Prop where
  issued : id < s.calls.nextTicket
  link : ∀ t, s.calls.get id = some t → t.dep ≠ none

/-- No ticket in the table is a child of this one. -/
def Childless (id : TicketId) (s : KState) : Prop :=
  ∀ k t d, s.calls.get k = some t → t.dep = some d → d.parent ≠ id

/-! ### Steps -/

/-- The steps that close a ticket and do not owe the end of its children. -/
def severs {β : Type} : TicketAct β → Prop
  | .revokeDescendants _ _ | .revokeChildrenOfConsumer _ _ | .revokeGrantChildren _ _ _ _
  | .setState _ _ | .markCommittedIfAdmitted _ => True
  | _ => False

/-- No open ticket loses its parent by the action. -/
def SparesFamilies {β : Type} (c : CallsTable) (a : TicketAct β) : Prop :=
  ∀ t ∈ (a.run c).2.tickets, t.state = .admitted → ∀ d ∈ t.dep, Open c d.parent →
    Open (a.run c).2 d.parent

/-- A revocation or a commit closes no ticket with an open child that it does not close too; an
active activation is not superseded, and does not fail. -/
def revokesWhole (o : Obs (kernel depth)) : Label (kernel depth) → Prop
  | .act _ (.calls a) _ => severs a → SparesFamilies o.mem.calls a
  | .act _ (.ctx (.create logical _ _)) _ =>
    ∀ rec ∈ o.mem.contexts.current logical, rec.state.canonical ≠ .active
  | .act _ (.ctx (.markFailed inst _)) _ =>
    ∀ state ∈ o.mem.contexts.stateOf inst, state.canonical ≠ .active
  | _ => True

instance {β : Type} (a : TicketAct β) : Decidable (severs a) := by
  cases a <;> unfold severs <;> infer_instance

instance {β : Type} (c : CallsTable) (a : TicketAct β) : Decidable (SparesFamilies c a) := by
  unfold SparesFamilies
  infer_instance

def decidesWhole (o : KObs depth) (i : Nat) {β : Type} (b : β) :
    (a : KAct β) → Decidable (revokesWhole o (.act i a b)) := by
  intro a
  cases a with
  | calls a => exact inferInstanceAs (Decidable (severs a → SparesFamilies o.mem.calls a))
  | ctx a =>
    cases a with
    | create logical manifest now =>
      exact inferInstanceAs (Decidable
        (∀ rec ∈ o.mem.contexts.current logical, rec.state.canonical ≠ .active))
    | markFailed inst reason =>
      exact inferInstanceAs (Decidable
        (∀ state ∈ o.mem.contexts.stateOf inst, state.canonical ≠ .active))
    | _ => exact isTrue trivial
  | _ => exact isTrue trivial

instance (o : Obs (kernel depth)) (label : Label (kernel depth)) :
    Decidable (revokesWhole o label) :=
  match label with
  | .start _ _ => isTrue trivial
  | .act i a b => decidesWhole o i b a
  | .done _ _ _ => isTrue trivial
  | .env _ => isTrue trivial

/-- A child was linked to a parent that runs as its consumer, and is cancelled on withdraw. -/
structure Linked (s : KState) : Prop where
  parent : ∀ id t d, s.calls.get id = some t → t.dep = some d → d.parent < s.calls.nextTicket
  consumer : ∀ id t d p, s.calls.get id = some t → t.dep = some d →
    s.calls.get d.parent = some p → p.instanceId = d.consumer
  policy : ∀ id t d, s.calls.get id = some t → t.dep = some d → t.policy.onWithdraw = .cancel

/-- When a thread that owes this may take an action. -/
def guard (d : Dues) (s : KState) {β : Type} : KAct β → Prop
  | .ctx (.claimDispose _) => d.stage = .idle
  | .calls (.setDepMeta id dep) =>
      (∀ t, s.calls.get id = some t → t.dep = none ∧ t.policy.onWithdraw = .cancel) ∧
      dep.parent < s.calls.nextTicket ∧
      ∀ p, s.calls.get dep.parent = some p → p.instanceId = dep.consumer
  | .calls (.cancel id _) => d.stage = .idle ∨ ∃ inst ids, d.stage = .cancelling inst ids ∧
      ∀ t, s.calls.get id = some t → t.instanceId = inst
  | .calls (.remove .rollback id) => Childless id s
  | .calls (.revokeChildrenOfConsumer inst _) => d.stage = .cancelling inst []
  | .calls (.setState _ state) => state ≠ .admitted
  | _ => True

/-- A thread takes an action as it may, and comes to owe what follows from it. -/
structure Takes (o : KObs depth) (ds ds' : Nat → Dues) (i : Nat) {β : Type} (a : KAct β) (b : β)
    (mem : KState) : Prop where
  enabled : a.sem o.mem = some (b, mem)
  whole : revokesWhole o (.act i a b)
  order : inOrder o (.act i a b)
  linked : Linked o.mem
  guard : guard (ds i) o.mem a
  own : ds' i = duesAfter a b (ds i)
  others : ∀ j, j ≠ i → ds' j = ds j

/-! ### How debts last -/

section Debts

variable {o : KObs depth} {ds ds' : Nat → Dues} {i : Nat} {β : Type} {a : KAct β} {b : β}
  {mem s : KState} {d : Dues} {id : TicketId} {inst : InstanceId}

/-- What the acting thread keeps owing, some thread keeps owing. -/
theorem Takes.owed (takes : Takes o ds ds' i a b mem) {P : Dues → Prop} (h : ∃ j, P (ds j))
    (keep : P (ds i) → P (duesAfter a b (ds i))) : ∃ j, P (ds' j) := by
  obtain ⟨j, hj⟩ := h
  refine ⟨j, ?_⟩
  by_cases mine : j = i
  · subst mine
    rw [takes.own]
    exact keep hj
  · rw [takes.others j mine]
    exact hj

theorem Takes.incurs (takes : Takes o ds ds' i a b mem) {P : Dues → Prop}
    (h : P (duesAfter a b (ds i))) : ∃ j, P (ds' j) := ⟨i, takes.own ▸ h⟩

/-- The action revokes the open children of this parent. -/
def scansParent {β : Type} (id : TicketId) : KAct β → Prop
  | .calls (.revokeDescendants k _) => k = id
  | _ => False

def scansConsumer {β : Type} (inst : InstanceId) : KAct β → Prop
  | .calls (.revokeChildrenOfConsumer k _) => k = inst
  | _ => False

def scansGrant {β : Type} (consumer cap : String) (keep : Option Nat) : KAct β → Prop
  | .calls (.revokeGrantChildren c k r _) => (c, k, r) = (consumer, cap, keep)
  | _ => False

def cancelsTicket {β : Type} (id : TicketId) : KAct β → Prop
  | .calls (.cancel k _) => k = id
  | _ => False

theorem ended_kept {stage : Stage} {ended : List TicketId} (h : id ∈ ended)
    (ha : ¬ scansParent id a) : id ∈ endedAfter stage a b ended := by
  cases a with
  | calls a =>
    cases a with
    | revokeDescendants k reason => exact List.mem_filter.mpr ⟨h, decide_eq_true (Ne.symm ha)⟩
    | expireOverdue now => exact List.mem_append_right _ h
    | cancel | remove | expireTicket =>
      simp only [endedAfter]
      split_ifs
      · exact List.mem_cons_of_mem _ h
      · exact h
    | _ => exact h
  | _ => exact h

theorem regrants_kept {g : String × String × Option Nat}
    {regrants : List (String × String × Option Nat)}
    (h : g ∈ regrants) (ha : ¬ scansGrant g.1 g.2.1 g.2.2 a) : g ∈ regrantsAfter a b regrants := by
  cases a with
  | calls a =>
    cases a with
    | revokeGrantChildren => exact List.mem_filter.mpr ⟨h, decide_eq_true (Ne.symm ha)⟩
    | _ => exact h
  | grant a => cases a <;> first | exact h | exact List.mem_cons_of_mem _ h
  | _ => exact h

theorem leaves_kept (hguard : guard d s a) (h : d.stage.leaves inst)
    (ha : ¬ scansConsumer inst a) : (stageAfter a b d.stage).leaves inst := by
  cases a with
  | ctx a =>
    cases a with
    | claimDispose k =>
      rw [show d.stage = .idle from hguard] at h
      exact h.elim
    | _ => exact h
  | calls a =>
    cases a with
    | revokeChildrenOfConsumer k reason =>
      rw [show d.stage = .cancelling k [] from hguard] at h
      exact absurd h ha
    | pendingFor k =>
      generalize d.stage = stage at h ⊢
      cases stage with
      | claimed k' =>
        simp only [stageAfter, Stage.listed]
        split_ifs <;> exact h
      | _ => exact h
    | cancel k reason =>
      generalize d.stage = stage at h ⊢
      cases stage <;> exact h
    | _ => exact h
  | _ => exact h

/-- A ticket that a dispose has to cancel stays on its list until it cancels it. -/
theorem withdraws_kept (hguard : guard d s a) (enabled : a.sem s = some (b, mem))
    {t : TicketRecord} (ht : s.calls.get id = some t) (hinst : t.instanceId = inst)
    (hpolicy : t.policy.onWithdraw = .cancel)
    (h : d.stage.withdraws inst id) (ha : ¬ cancelsTicket id a) :
    (stageAfter a b d.stage).withdraws inst id := by
  cases a with
  | ctx a =>
    cases a with
    | claimDispose k =>
      rw [show d.stage = .idle from hguard] at h
      exact h.elim
    | _ => exact h
  | calls a =>
    cases a with
    | revokeChildrenOfConsumer k reason =>
      rw [show d.stage = .cancelling k [] from hguard] at h
      exact absurd h.2 (List.not_mem_nil)
    | pendingFor k =>
      cases enabled
      generalize d.stage = stage at h ⊢
      cases stage with
      | claimed k' =>
        simp only [stageAfter, Stage.listed]
        split_ifs with hk
        · obtain ⟨hmem, rfl⟩ := CallsTable.get_eq_some.mp ht
          refine ⟨h, List.mem_map.mpr ⟨t, List.mem_filter.mpr ⟨List.mem_filter.mpr ⟨hmem, ?_⟩,
            decide_eq_true hpolicy⟩, rfl⟩⟩
          exact decide_eq_true (hinst.trans (Eq.trans (Eq.symm h) hk))
        · exact h
      | _ => exact h
    | cancel k reason =>
      generalize d.stage = stage at h ⊢
      cases stage with
      | cancelling k' ids =>
        exact ⟨h.1, List.mem_filter.mpr ⟨h.2, decide_eq_true (Ne.symm ha)⟩⟩
      | _ => exact h
    | _ => exact h
  | _ => exact h

end Debts

/-! ### One step -/

section Step

variable {o : KObs depth} {ds ds' : Nat → Dues} {i : Nat} {β : Type} {a : KAct β} {b : β}
  {s mem : KState} {due : Dues} {id : TicketId} {t t' : TicketRecord} {d : DepChild}
  {inst : InstanceId}

theorem calls_acted (off : ∀ c : TicketAct β, a ≠ .calls c)
    (enabled : a.sem s = some (b, mem)) :
    mem.calls = s.calls := by
  cases a with
  | calls c => exact absurd rfl (off c)
  | ctx | res | pub | comp =>
    cases enabled
    rfl
  | _ => exact (KAct.sem_sameTables enabled rfl).calls

theorem origin_acted (enabled : a.sem s = some (b, mem)) (h : mem.calls.get id = some t')
    (old : id < s.calls.nextTicket) : ∃ t, s.calls.get id = some t ∧ SameCall t t' := by
  by_cases hc : ∃ c : TicketAct β, a = .calls c
  · obtain ⟨c, rfl⟩ := hc
    cases enabled
    exact get_origin h old
  · rw [calls_acted (fun c hc' => hc ⟨c, hc'⟩) enabled] at h
    exact ⟨t', h, .refl t'⟩

theorem issued_acted (enabled : a.sem s = some (b, mem)) :
    s.calls.nextTicket ≤ mem.calls.nextTicket := by
  by_cases hc : ∃ c : TicketAct β, a = .calls c
  · obtain ⟨c, rfl⟩ := hc
    cases enabled
    exact nextTicket_le c _
  · rw [calls_acted (fun c hc' => hc ⟨c, hc'⟩) enabled]

/-- The action attaches ticket `id` to a parent. -/
def links {β : Type} (id : TicketId) : KAct β → Prop
  | .calls c => attaches id c
  | _ => False

theorem dep_acted (enabled : a.sem s = some (b, mem)) (ha : ¬ links id a)
    (h : mem.calls.get id = some t') (old : id < s.calls.nextTicket) :
    ∃ t, s.calls.get id = some t ∧ t.dep = t'.dep := by
  by_cases hc : ∃ c : TicketAct β, a = .calls c
  · obtain ⟨c, rfl⟩ := hc
    cases enabled
    exact dep_origin ha old h
  · rw [calls_acted (fun c hc' => hc ⟨c, hc'⟩) enabled] at h
    exact ⟨t', h, rfl⟩

/-- A ticket is attached once. -/
theorem not_links (hguard : guard due s a) (attached : Attached id s)
    (ht : s.calls.get id = some t) :
    ¬ links id a := by
  intro ha
  cases a with
  | calls c =>
    cases c with
    | setDepMeta k dep =>
      have hk : k = id := ha
      subst hk
      exact attached.link t ht (hguard.1 t ht).1
    | _ => exact ha
  | _ => exact ha

theorem link_acted (hguard : guard due s a) (enabled : a.sem s = some (b, mem))
    (attached : Attached id s) (h : OpenLink mem.calls id t' d) :
    ∃ t, OpenLink s.calls id t d ∧ SameCall t t' := by
  obtain ⟨t, ht, same⟩ := origin_acted enabled h.get attached.issued
  obtain ⟨t₁, ht₁, hdep⟩ := dep_acted enabled (not_links hguard attached ht) h.get attached.issued
  rw [ht, Option.some.injEq] at ht₁
  subst ht₁
  refine ⟨t, ⟨ht, hdep.trans h.dep, ?_⟩, same⟩
  have hopen : Open s.calls id := by
    by_cases hc : ∃ c : TicketAct β, a = .calls c
    · obtain ⟨c, rfl⟩ := hc
      cases enabled
      refine open_origin ?_ attached.issued h.open
      cases c <;> first | exact hguard | exact trivial
    · have := h.open
      rwa [calls_acted (fun c hc' => hc ⟨c, hc'⟩) enabled] at this
  obtain ⟨t₂, ht₂, hstate⟩ := open_iff.mp hopen
  rw [ht, Option.some.injEq] at ht₂
  subst ht₂
  exact hstate

theorem scanned_parent (enabled : a.sem s = some (b, mem)) (h : OpenLink mem.calls id t d) :
    ¬ scansParent d.parent a := by
  intro hs
  cases a with
  | calls c =>
    cases c with
    | revokeDescendants k reason =>
      cases enabled
      exact of_decide_eq_false (revoke_openLink h) hs.symm
    | _ => exact hs
  | _ => exact hs

theorem scanned_consumer (enabled : a.sem s = some (b, mem)) (h : OpenLink mem.calls id t d) :
    ¬ scansConsumer d.consumer a := by
  intro hs
  cases a with
  | calls c =>
    cases c with
    | revokeChildrenOfConsumer k reason =>
      cases enabled
      exact of_decide_eq_false (revoke_openLink h) hs.symm
    | _ => exact hs
  | _ => exact hs

theorem scanned_grant {keep : Option Nat} (enabled : a.sem s = some (b, mem))
    (h : OpenLink mem.calls id t d) (hkeep : keep ≠ some d.grantRev) :
    ¬ scansGrant d.grantConsumer d.grantCap keep a := by
  intro hs
  cases a with
  | calls c =>
    cases c with
    | revokeGrantChildren consumer cap keep' reason =>
      cases enabled
      cases hs
      have := revoke_openLink h
      simp [Ne.symm hkeep] at this
    | _ => exact hs
  | _ => exact hs

theorem scanned_ticket (enabled : a.sem s = some (b, mem)) (h : OpenLink mem.calls id t d) :
    ¬ cancelsTicket id a := by
  intro hs
  cases a with
  | calls c =>
    cases c with
    | cancel k reason =>
      cases enabled
      have hk : k = id := hs
      subst hk
      obtain ⟨t₀, ht₀, rfl⟩ := amend_origin s.calls _ _ (by exact fun _ => rfl) h.get
      have hstate := h.state
      split_ifs at hstate with hsel
      · cases hstate
      · simp [CallsTable.get_id ht₀, TicketRecord.isOpen, hstate] at hsel
    | _ => exact hs
  | _ => exact hs

/-- Whoever closes a parent owes the end of its children, or spares them. -/
theorem parent_closed {c : TicketAct β} (takes : Takes o ds ds' i (.calls c) b mem)
    (link : OpenLink o.mem.calls id t d) (after : OpenLink mem.calls id t' d)
    (hopen : Open o.mem.calls d.parent) (hc : closes d.parent c) :
    Backs ds' mem id t' d .parent := by
  have enabled := takes.enabled
  have hguard := takes.guard
  have spared : severs c → Backs ds' mem id t' d .parent := by
    intro hs
    cases enabled
    have spares : SparesFamilies o.mem.calls c := takes.whole hs
    exact .inl (spares t' (CallsTable.get_eq_some.mp after.get).1 after.state d after.dep hopen)
  obtain ⟨p, hp, hstate⟩ := open_iff.mp hopen
  have ending : d.parent ∈ endedAfter (ds i).stage (.calls c) b (ds i).ended →
      Backs ds' mem id t' d .parent :=
    fun h => .inr (.inl (takes.incurs (P := fun due => d.parent ∈ due.ended) h))
  have isOpen : (o.mem.calls.get d.parent).any (·.isOpen) = true := hopen
  cases c with
  | cancel k reason =>
    have hk : k = d.parent := hc
    subst hk
    cases enabled
    rcases hguard with idle | ⟨inst, ids, hstage, hinst⟩
    · refine ending ?_
      simp only [endedAfter]
      rw [if_pos ⟨idle, isOpen⟩]
      exact List.mem_cons_self ..
    · refine .inr (.inr (takes.incurs (P := fun due => due.stage.leaves d.consumer) ?_))
      simp only [duesAfter, stageAfter, hstage]
      exact (hinst p hp).symm.trans (takes.linked.consumer id t d p link.get link.dep hp)
  | remove remover k =>
    have hk : k = d.parent := hc
    subst hk
    by_cases hr : remover = .rollback
    · subst hr
      exact absurd rfl (hguard id t d link.get link.dep)
    · cases enabled
      refine ending ?_
      simp only [endedAfter]
      rw [if_pos ⟨hr, Option.isSome_iff_exists.mpr ⟨p, hp⟩⟩]
      exact List.mem_cons_self ..
  | expireTicket k =>
    have hk : k = d.parent := hc
    subst hk
    cases enabled
    refine ending ?_
    simp only [endedAfter]
    rw [if_pos (by exact isOpen)]
    exact List.mem_cons_self ..
  | expireOverdue now =>
    cases enabled
    by_cases hmem : d.parent ∈ (o.mem.calls.expireOverdue now).1
    · exact ending (List.mem_append_left _ hmem)
    · exact .inl (expireOverdue_open hopen hmem)
  | revokeDescendants | revokeChildrenOfConsumer | revokeGrantChildren | setState
  | markCommittedIfAdmitted => exact spared trivial
  | _ => exact hc.elim

theorem Leaving.acted (takes : Takes o ds ds' i a b mem) (h : Leaving ds inst)
    (ha : ¬ scansConsumer inst a) : Leaving ds' inst :=
  takes.owed (P := fun due => due.stage.leaves inst) h fun h => leaves_kept takes.guard h ha

theorem parent_acted (takes : Takes o ds ds' i a b mem) (link : OpenLink o.mem.calls id t d)
    (after : OpenLink mem.calls id t' d) (h : Backs ds o.mem id t d .parent) :
    Backs ds' mem id t' d .parent := by
  rcases h with hopen | hending | hleaving
  · by_cases hc : ∃ c : TicketAct β, a = .calls c
    · obtain ⟨c, rfl⟩ := hc
      by_cases hcl : closes d.parent c
      · exact parent_closed takes link after hopen hcl
      · cases takes.enabled
        exact .inl (open_kept hopen hcl)
    · refine .inl ?_
      rw [calls_acted (fun c hc' => hc ⟨c, hc'⟩) takes.enabled]
      exact hopen
  · exact .inr (.inl (takes.owed (P := fun due => d.parent ∈ due.ended) hending
      fun h => ended_kept h (scanned_parent takes.enabled after)))
  · exact .inr (.inr (hleaving.acted takes (scanned_consumer takes.enabled after)))

/-- An active activation stays the current one until a dispose claims it. -/
theorem current_acted (takes : Takes o ds ds' i a b mem) {logical : String}
    (h : CurrentActive o.mem.contexts logical inst) :
    CurrentActive mem.contexts logical inst ∨ ∃ j, (ds' j).stage = .claimed inst := by
  have enabled := takes.enabled
  cases a with
  | ctx c =>
    by_cases hr : replaces logical inst c
    · cases c with
      | create l state cause =>
        have hl : l = logical := hr
        subst hl
        obtain ⟨rec, hrec, hkey⟩ := (Option.any_eq_true ..).mp h
        exact absurd (of_decide_eq_true hkey).2 (takes.whole rec hrec)
      | claimDispose k =>
        have hk : k = inst := hr
        subst hk
        obtain ⟨rec, hrec⟩ := h.claimed
        cases enabled
        refine .inr (takes.incurs (P := fun due => due.stage = .claimed k) ?_)
        change stageAfter (.ctx (.claimDispose k)) (o.mem.contexts.claimDispose k).1 _ = _
        rw [hrec]
        rfl
      | markDisposed k | markCleanupPending writer k cause =>
        have hk : k = inst := hr
        subst hk
        exact absurd takes.order h.not_withdrawn
      | markFailed k cause =>
        have hk : k = inst := hr
        subst hk
        obtain ⟨-, state, hstate, hactive⟩ := currentActive_iff.mp h
        exact absurd hactive (takes.whole state hstate)
      | _ => exact hr.elim
    · cases enabled
      exact .inl (h.run hr)
  | calls | res | pub | comp =>
    cases enabled
    exact .inl h
  | _ =>
    rw [(KAct.sem_sameTables enabled rfl).contexts]
    exact .inl h

theorem consumer_acted (takes : Takes o ds ds' i a b mem) (after : OpenLink mem.calls id t' d)
    (h : Backs ds o.mem id t d .consumer) : Backs ds' mem id t' d .consumer := by
  rcases h with hcurrent | hleaving
  · refine (current_acted takes hcurrent).imp_right ?_
    rintro ⟨j, hstage⟩
    exact ⟨j, hstage ▸ rfl⟩
  · exact .inr (hleaving.acted takes (scanned_consumer takes.enabled after))

theorem provider_acted (takes : Takes o ds ds' i a b mem) (link : OpenLink o.mem.calls id t d)
    (same : SameCall t t') (after : OpenLink mem.calls id t' d)
    (h : Backs ds o.mem id t d .provider) : Backs ds' mem id t' d .provider := by
  intro hlocal
  rw [same.logical, same.instanceId]
  rcases h hlocal with hcurrent | hwithdrawing
  · refine (current_acted takes hcurrent).imp_right ?_
    rintro ⟨j, hstage⟩
    exact ⟨j, hstage ▸ rfl⟩
  · have policy := takes.linked.policy id t d link.get link.dep
    exact .inr (takes.owed (P := fun due => due.stage.withdraws t.instanceId id) hwithdrawing
      fun h => withdraws_kept takes.guard takes.enabled link.get rfl policy h
        (scanned_ticket takes.enabled after))

theorem grant_acted (takes : Takes o ds ds' i a b mem) (after : OpenLink mem.calls id t' d)
    (h : Backs ds o.mem id t d .grant) : Backs ds' mem id t' d .grant := by
  have enabled := takes.enabled
  have incurred : ∀ keep, keep ≠ some d.grantRev →
      (d.grantConsumer, d.grantCap, keep) ∈ regrantsAfter a b (ds i).regrants →
      Regranting ds' d.grantConsumer d.grantCap d.grantRev :=
    fun keep hkeep hmem => ⟨i, keep, hkeep, takes.own ▸ hmem⟩
  rcases h with hgrant | ⟨j, keep, hkeep, hmem⟩
  · cases a with
    | grant g =>
      cases g with
      | put consumer cap rev =>
        cases enabled
        by_cases he : (d.grantConsumer, d.grantCap) = (consumer, cap)
        · by_cases hrev : rev = d.grantRev
          · subst hrev
            refine .inl ?_
            change update o.mem.grants (consumer, cap) (some d.grantRev) _ = _
            rw [he, update_self]
          · cases he
            exact .inr (incurred (some rev) (by simpa using hrev) (List.mem_cons_self ..))
        · exact .inl ((update_of_ne he ..).trans hgrant)
      | remove consumer cap =>
        cases enabled
        by_cases he : (d.grantConsumer, d.grantCap) = (consumer, cap)
        · cases he
          exact .inr (incurred none nofun (List.mem_cons_self ..))
        · exact .inl ((update_of_ne he ..).trans hgrant)
      | nextRevision | grant =>
        cases enabled
        exact .inl hgrant
    | lockAdmit | awaitSettled =>
      simp only [KAct.sem] at enabled
      split_ifs at enabled <;> cases enabled <;> exact .inl hgrant
    | _ =>
      cases enabled
      exact .inl hgrant
  · obtain ⟨j, owed⟩ := takes.owed (P := fun due =>
      (d.grantConsumer, d.grantCap, keep) ∈ due.regrants) ⟨j, hmem⟩
      fun h => regrants_kept h (scanned_grant enabled after hkeep)
    exact .inr ⟨j, keep, hkeep, owed⟩

theorem backed_acted (takes : Takes o ds ds' i a b mem) (attached : Attached id o.mem) {k : Clause}
    (h : Backed ds o.mem id k) : Backed ds' mem id k := by
  intro t' d after
  obtain ⟨t, link, same⟩ := link_acted takes.guard takes.enabled attached after
  have before := h t d link
  cases k with
  | parent => exact parent_acted takes link after before
  | consumer => exact consumer_acted takes after before
  | provider => exact provider_acted takes link same after before
  | grant => exact grant_acted takes after before

theorem attached_acted (hguard : guard due s a) (enabled : a.sem s = some (b, mem))
    (h : Attached id s) : Attached id mem := by
  refine ⟨lt_of_lt_of_le h.issued (issued_acted enabled), fun t' ht' => ?_⟩
  obtain ⟨t, ht, -⟩ := origin_acted enabled ht' h.issued
  obtain ⟨t₁, ht₁, hdep⟩ := dep_acted enabled (not_links hguard h ht) ht' h.issued
  rw [← hdep]
  exact h.link t₁ ht₁

/-- The action attaches ticket `id` with the link `d`. -/
def linksWith {β : Type} (id : TicketId) (d : DepChild) : KAct β → Prop
  | .calls (.setDepMeta k dep) => k = id ∧ dep = d
  | _ => False

/-- A child in the table was one before, or is attached now. -/
theorem child_acted (enabled : a.sem s = some (b, mem)) (h : mem.calls.get id = some t')
    (hdep : t'.dep = some d) : ∃ t, s.calls.get id = some t ∧ SameCall t t' ∧
      (t.dep = some d ∨ linksWith id d a) := by
  have old : id < s.calls.nextTicket := by
    by_cases hc : ∃ c : TicketAct β, a = .calls c
    · obtain ⟨c, rfl⟩ := hc
      cases enabled
      exact (get_origin_or_new h).resolve_right (by rw [hdep]; exact nofun)
    · rw [calls_acted (fun c hc' => hc ⟨c, hc'⟩) enabled] at h
      exact CallsTable.get_lt h
  obtain ⟨t, ht, same⟩ := origin_acted enabled h old
  refine ⟨t, ht, same, ?_⟩
  by_cases hl : links id a
  · cases a with
    | calls c =>
      cases c with
      | setDepMeta k dep =>
        cases enabled
        rw [setDepMeta_get h hl, Option.some.injEq] at hdep
        exact .inr ⟨hl, hdep⟩
      | _ => exact hl.elim
    | _ => exact hl.elim
  · obtain ⟨t₁, ht₁, hsame⟩ := dep_acted enabled hl h old
    rw [ht, Option.some.injEq] at ht₁
    subst ht₁
    exact .inl (hsame.trans hdep)

theorem linked_acted (linked : Linked s) (hguard : guard due s a)
    (enabled : a.sem s = some (b, mem)) :
    Linked mem := by
  have attachment : ∀ {id d}, linksWith id d a →
      (∀ t, s.calls.get id = some t → t.dep = none ∧ t.policy.onWithdraw = .cancel) ∧
      d.parent < s.calls.nextTicket ∧
      ∀ p, s.calls.get d.parent = some p → p.instanceId = d.consumer := by
    intro id d hl
    cases a with
    | calls c =>
      cases c with
      | setDepMeta k dep =>
        obtain ⟨rfl, rfl⟩ := hl
        exact hguard
      | _ => exact hl.elim
    | _ => exact hl.elim
  have parent : ∀ id t d, mem.calls.get id = some t → t.dep = some d →
      d.parent < s.calls.nextTicket := by
    intro id t' d ht' hdep
    obtain ⟨t, ht, -, hd | hl⟩ := child_acted enabled ht' hdep
    · exact linked.parent id t d ht hd
    · exact (attachment hl).2.1
  refine ⟨fun id t d ht hdep => lt_of_lt_of_le (parent id t d ht hdep) (issued_acted enabled),
    fun id t' d p' ht' hdep hp' => ?_, fun id t' d ht' hdep => ?_⟩
  · obtain ⟨p, hp, samep⟩ := origin_acted enabled hp' (parent id t' d ht' hdep)
    rw [samep.instanceId]
    obtain ⟨t, ht, -, hd | hl⟩ := child_acted enabled ht' hdep
    · exact linked.consumer id t d p ht hd hp
    · exact (attachment hl).2.2 p hp
  · obtain ⟨t, ht, same, hd | hl⟩ := child_acted enabled ht' hdep
    · rw [same.policy]
      exact linked.policy id t d ht hd
    · rw [same.policy]
      exact ((attachment hl).1 t ht).2

end Step

end MatrixRuntime.RevocationDebts
