import MatrixRuntime.RevocationDebts

/-! Paying what is owed. Every operation starts and returns with nothing owed: a dispose
cancels the tickets it found and revokes the children of its consumer, the end of a ticket
revokes its descendants, and a change of a grant the children under its earlier
revisions. -/

namespace MatrixRuntime.RevocationPayments

open KernelContexts KernelTickets KernelState KernelActions KernelReconcile KernelCalls
open DependencyAdmission KernelOperations InterleavedProgram
open ReconcileFrame CallFrame OperationFrame RevocationDebts ThreadStates

variable {depth : Nat} (rec : ContextRecord) (n : Nat) (inst : InstanceId) (ticket : TicketId)
  (consumer cap : String)

/-! ### What a thread owes by its replies -/

/-- The child an admission has registered: the call it was allocated for, the tickets known by then,
its link, and the clauses that were seen to hold since. -/
structure Child where
  id : TicketId
  call : CallsTable.Admission
  earlier : List (TicketId × InstanceId)
  link : Option DepChild
  sure : Set Clause

/-- The instance is the current activation, and active. -/
def runs (inst : InstanceId) (cur : Option ContextRecord) : Prop :=
  (cur.any fun c => decide (c.instanceId = inst ∧ c.state.canonical = .active)) = true

/-- The clauses that a look shows of the child. -/
def Child.shows {β : Type} (c : Child) : KAct β → β → Clause → Prop
  | .calls (.get id), t, .parent =>
    ∃ d, c.link = some d ∧ d.parent = id ∧ t.any (·.isOpen) = true
  | .ctx (.current logical), cur, .consumer =>
    ∃ d, c.link = some d ∧ d.grantConsumer = logical ∧ runs d.consumer cur
  | .ctx (.current logical), cur, .provider =>
    c.link ≠ none ∧ c.call.logical = logical ∧ runs c.call.instanceId cur
  | .grant (.grant consumer cap), rev, .grant =>
    ∃ d, c.link = some d ∧ d.grantConsumer = consumer ∧ d.grantCap = cap ∧ rev = some d.grantRev
  | _, _, _ => False

def Child.sees {β : Type} (a : KAct β) (b : β) (c : Child) : Child :=
  { c with sure := c.sure ∪ {k | c.shows a b k} }

/-- How far an admission is. -/
structure Registering where
  admits : Bool := false
  held : Bool := false
  reserved : Bool := false
  child : Option Child := none

/-- A look counts while the lock is held. -/
def Registering.sees {β : Type} (r : Registering) (a : KAct β) (b : β) : Registering :=
  if r.held then { r with child := r.child.map (Child.sees a b) } else r

/-- What the thread owes, the tickets it saw with their instances, and its admission. -/
structure Place where
  dues : Dues := .clear
  listed : List (TicketId × InstanceId) := []
  adm : Registering := {}

namespace Place

/-- A claim and a removal name what they found. -/
def owes {β : Type} : KAct β → β → Dues → Dues
  | .ctx (.claimDispose _), .ok (.fresh rec), d => { d with stage := .claimed rec.instanceId }
  | .calls (.remove remover _), some r, d =>
    if remover = .rollback then d else { d with ended := r.id :: d.ended }
  | a, b, d => duesAfter a b d

def lists {β : Type} : KAct β → β → List (TicketId × InstanceId) → List (TicketId × InstanceId)
  | .calls (.pendingFor inst), pending, _ => pending.map fun t => (t.id, inst)
  | .calls (.get id), some t, listed => (id, t.instanceId) :: listed
  | _, _, listed => listed

def registers {β : Type} (listed : List (TicketId × InstanceId)) :
    KAct β → β → Registering → Registering
  | .lockAdmit, _, r => { r with held := true }
  | .unlockAdmit, _, r => { r with held := false }
  | .reserve _ _, .ok _, r => { r with reserved := true }
  | .release _, _, r => { r with reserved := false }
  | .calls (.alloc call), id, r =>
    if r.held then { r with child := some ⟨id, call, listed, none, ∅⟩ } else r
  | .calls (.setDepMeta _ dep), _, r =>
    { r with child := r.child.map fun c =>
      { c with link := some dep, sure := {k | k = .provider ∧ dep.remotePeer ≠ none} } }
  | .calls (.remove .rollback _), _, r => { r with child := none }
  | .calls (.get id), t, r => r.sees (.calls (.get id)) t
  | .ctx (.current logical), cur, r => r.sees (.ctx (.current logical)) cur
  | .grant (.grant consumer cap), rev, r => r.sees (.grant (.grant consumer cap)) rev
  | _, _, r => r

def next {β : Type} (s : Place) (a : KAct β) (b : β) : Place :=
  ⟨owes a b s.dues, lists a b s.listed, registers s.listed a b s.adm⟩

/-- The thread holds the lock and has registered this ticket. -/
def Registered (s : Place) (id : TicketId) (c : Child) : Prop :=
  s.adm.held = true ∧ s.adm.child = some c ∧ c.id = id

abbrev allows {β : Type} (s : Place) : KAct β → Prop
  | .ctx (.claimDispose _) => s.dues.stage = .idle
  | .calls (.cancel id _) => s.dues.stage = .idle ∨
      ∃ inst ids, s.dues.stage = .cancelling inst ids ∧ (id, inst) ∈ s.listed
  | .calls (.revokeChildrenOfConsumer inst _) => s.dues.stage = .cancelling inst []
  | .calls (.setState _ state) => state ≠ .admitted
  | .calls (.alloc _) => s.adm.admits = true → s.adm.held = true ∧ s.adm.child = none
  | .calls (.setDepMeta id dep) => ∃ c, s.Registered id c ∧ c.link = none ∧
      c.call.policy.onWithdraw = .cancel ∧ (dep.parent, dep.consumer) ∈ c.earlier
  | .calls (.remove .rollback id) => ∃ c, s.Registered id c
  | .lockAdmit => s.adm.child = none
  | .unlockAdmit => s.adm.held = true
  | _ => True

/-- An admission returns a child it is sure of, or has left neither ticket nor reservation. -/
def answers (s : Place) : Except DepDeny TicketId → Prop
  | .ok id => ∃ c, s.adm.child = some c ∧ c.id = id ∧ ∀ k, k ∈ c.sure
  | .error _ => s.adm.admits = true ∧ s.adm.child = none ∧ s.adm.reserved = false

end Place

def payments (depth : Nat) : Protocol (kernel depth) Place where
  idle := {}
  enter op := { adm := { admits := op matches .dependencyAdmit _ } }
  allows := Place.allows
  next := Place.next
  leaves op res s := s.dues = .clear ∧
    ∀ req r, op = .dependencyAdmit req → res = .admitted r → s.answers r

/-! ### Paying what is owed -/

section Revokers

variable {s : Place} {again : KProg Unit} {α β : Type} {p : KProg α} {d : Dues}
  {ended : List TicketId}

/-- The thread owes this, and is in no admission. -/
structure Owes (d : Dues) (s : Place) : Prop where
  dues : s.dues = d
  adm : s.adm = {}

/-- Actions that any thread may take and that change nothing. -/
def inert (β : Type) (a : KAct β) : Prop := ∀ s : Place, s.allows a ∧ ∀ b, s.next a b = s

theorem inert_follows (h : Composed inert (fun _ _ => False) p) :
    (payments depth).Follows p (fun _ s' => s' = s) s := .composed h fun _ _ ha => ha s

theorem journal_inert (fiber : String) (kind : JournalKind) (subject : Nat) (reason : String) :
    Composed inert (fun _ _ => False) (journal fiber kind subject reason) :=
  .perform fun _ => ⟨trivial, fun _ => rfl⟩

theorem journalRevoked_inert (reason : String) (revoked : List TicketRecord) :
    Composed inert (fun _ _ => False) (journalRevoked reason revoked) :=
  .forEach _ fun _ => journal_inert ..

/-- Owing the descendants of these tickets and nothing else. -/
def owing (ended : List TicketId) : Dues := ⟨.idle, ended, []⟩

theorem revokeTicketDescendants_follows (id : TicketId) (reason : String)
    (h : Owes (owing ended) s) : (payments depth).Follows (revokeTicketDescendants id reason)
      (fun _ => Owes (owing (ended.filter fun j => decide (j ≠ id)))) s := by
  obtain ⟨d, listed, adm⟩ := s
  obtain ⟨⟨⟩, ⟨⟩⟩ := h
  refine .act trivial fun revoked => (inert_follows (journalRevoked_inert ..)).mono ?_
  rintro _ _ rfl
  exact ⟨rfl, rfl⟩

/-- Owing the descendants of one ticket, revoke them. -/
theorem revokeEnded_follows (id : TicketId) (reason : String) (h : Owes (owing [id]) s) :
    (payments depth).Follows (revokeTicketDescendants id reason) (fun _ => Owes .clear) s := by
  refine (revokeTicketDescendants_follows id reason h).mono fun _ s paid =>
    ⟨paid.dues.trans ?_, paid.adm⟩
  rw [List.filter_singleton, decide_eq_false (not_not.mpr rfl)]
  rfl

/-- Expired tickets, one after the other, until nothing is owed. -/
theorem expired_follows (logical : String) (ids : List TicketId) (sub : ∀ j ∈ ended, j ∈ ids)
    (h : Owes (owing ended) s) :
    (payments depth).Follows (forEach ids fun id => do
      journal logical .callExpired id "drain-exceeded"
      revokeTicketDescendants id "parent-expired") (fun _ => Owes .clear) s := by
  induction ids generalizing ended s with
  | nil =>
    have none : ended = [] := List.eq_nil_iff_forall_not_mem.mpr fun j there => by
      cases sub j there
    subst none
    exact h
  | cons id ids ih =>
    refine .bind (.act trivial fun _ => revokeTicketDescendants_follows id _ h)
      fun _ s paid => ih (fun j there => ?_) paid
    obtain ⟨there, other⟩ := List.mem_filter.mp there
    exact (List.mem_cons.mp (sub j there)).resolve_left (of_decide_eq_true other)

/-- The tickets that the dispose still has to cancel are among `ts`, which name the instance. -/
structure Cancelling (inst : InstanceId) (ts : List TicketRecord) (s : Place) : Prop where
  due : ∃ ids, Owes ⟨.cancelling inst ids, [], []⟩ s ∧
    ∀ k ∈ ids, ∃ t ∈ ts, t.id = k ∧ t.policy.onWithdraw = .cancel
  listed : ∀ t ∈ ts, (t.id, inst) ∈ s.listed

theorem withdrawTicket_follows (now : Nat) (t : TicketRecord)
    (ts : List TicketRecord) (drainUntil : Option Nat)
    (h : Cancelling rec.instanceId (t :: ts) s) :
    (payments depth).Follows (withdrawTicket rec now t drainUntil)
      (fun _ => Cancelling rec.instanceId ts) s := by
  obtain ⟨⟨ids, due, among⟩, listed⟩ := h
  have tail := fun u there => listed u (List.mem_cons_of_mem t there)
  obtain ⟨d, known, adm⟩ := s
  obtain ⟨⟨⟩, ⟨⟩⟩ := due
  unfold withdrawTicket
  cases policy : t.policy.onWithdraw with
  | cancel =>
    refine .act (.inr ⟨_, ids, rfl, listed t (List.mem_cons_self ..)⟩) fun marked => ?_
    have rest : Cancelling rec.instanceId ts (Place.next ⟨⟨.cancelling rec.instanceId ids, [], []⟩,
        known, {}⟩ (KAct.calls (.cancel t.id "withdraw")) marked) := by
      have kept : endedAfter (.cancelling rec.instanceId ids) (.calls (.cancel t.id "withdraw"))
        marked [] = [] := by simp [endedAfter]
      refine ⟨⟨ids.filter fun j => decide (j ≠ t.id),
        ⟨congrArg (fun ended => Dues.mk _ ended []) kept, rfl⟩, fun k there => ?_⟩, tail⟩
      obtain ⟨there, other⟩ := List.mem_filter.mp there
      obtain ⟨u, mem, rfl, policy⟩ := among k there
      rcases List.mem_cons.mp mem with rfl | mem
      · exact absurd rfl (of_decide_eq_true other)
      · exact ⟨u, mem, rfl, policy⟩
    cases marked with
    | false => exact rest
    | true => exact .act trivial fun _ => rest
  | drain =>
    refine .act trivial fun _ => .act trivial fun _ => ⟨⟨ids, ⟨rfl, rfl⟩, fun k there => ?_⟩, tail⟩
    obtain ⟨u, mem, rfl, policy'⟩ := among k there
    rcases List.mem_cons.mp mem with rfl | mem
    · rw [policy] at policy'
      cases policy'
    · exact ⟨u, mem, rfl, policy'⟩

theorem withdrawTickets_follows (now : Nat) (ts : List TicketRecord)
    (drainUntil : Option Nat) (h : Cancelling rec.instanceId ts s) :
    (payments depth).Follows (withdrawTickets rec now ts drainUntil)
      (fun _ => Owes ⟨.cancelling rec.instanceId [], [], []⟩) s := by
  induction ts generalizing drainUntil s with
  | nil =>
    obtain ⟨⟨ids, due, among⟩, -⟩ := h
    have none : ids = [] := List.eq_nil_iff_forall_not_mem.mpr fun k there => by
      obtain ⟨t, mem, -⟩ := among k there
      cases mem
    subst none
    exact due
  | cons t ts ih =>
    exact .bind (withdrawTicket_follows rec now t ts drainUntil h) fun drainUntil s h =>
      ih drainUntil h

theorem unpublish_inert (handle : ResourceHandle) :
    Composed inert (fun _ _ => False) (unpublish rec handle) := by
  refine .bind (.perform fun _ => ⟨trivial, fun _ => rfl⟩) fun rr => ?_
  cases rr with
  | none => exact .pure _
  | some rr =>
    refine .ite (.pure _) ?_
    cases rr.kind with
    | cap name => exact .perform fun _ => ⟨trivial, fun _ => rfl⟩
    | sub topic => exact .perform fun _ => ⟨trivial, fun _ => rfl⟩
    | _ => exact .pure ()

theorem awaitDrain_inert (drainUntil : Option Nat) :
    Composed inert (fun _ _ => False) (awaitDrain inst drainUntil) := by
  cases drainUntil with
  | none => exact .pure _
  | some instant =>
    exact .bind (.perform fun _ => ⟨trivial, fun _ => rfl⟩) fun _ =>
      .ite (.map (.perform fun _ => ⟨trivial, fun _ => rfl⟩)) (.pure _)

/-- A dispose pays for its claim: it cancels the tickets of the instance, revokes what the
instance called, and the descendants of what it lets expire. -/
theorem quiesce_follows (h : Owes ⟨.claimed rec.instanceId, [], []⟩ s) :
    (payments depth).Follows (quiesce rec) (fun _ => Owes .clear) s := by
  obtain ⟨d, known, adm⟩ := s
  obtain ⟨⟨⟩, ⟨⟩⟩ := h
  refine .act trivial fun _ => .act trivial fun _ => .act trivial fun _ => .act trivial fun _ =>
    .act trivial fun handles => (inert_follows (.forEach handles (unpublish_inert rec))).bind ?_
  rintro _ _ rfl
  refine .act trivial fun now => .act trivial fun pending => ?_
  refine (withdrawTickets_follows rec now pending none
    ⟨⟨_, ⟨congrArg (fun stage => Dues.mk stage [] []) (if_pos rfl), rfl⟩, fun k there => ?_⟩,
      fun t there => List.mem_map_of_mem there⟩).bind fun drainUntil s due => ?_
  · obtain ⟨t, found, rfl⟩ := List.mem_map.mp there
    obtain ⟨found, policy⟩ := List.mem_filter.mp found
    exact ⟨t, found, rfl, of_decide_eq_true policy⟩
  refine (inert_follows (awaitDrain_inert ..)).bind ?_
  rintro _ s rfl
  obtain ⟨d, known, adm⟩ := s
  obtain ⟨⟨⟩, ⟨⟩⟩ := due
  refine .act rfl fun orphans => (inert_follows (journalRevoked_inert ..)).bind ?_
  rintro _ _ rfl
  refine .act trivial fun late => .act trivial fun ids =>
    expired_follows _ ids (fun j (there : j ∈ ids ++ []) => ?_) ⟨rfl, rfl⟩
  rwa [List.append_nil] at there

/-! ### Whole operations -/

/-- The program pays whatever it comes to owe. -/
def Pays (depth : Nat) {α : Type} (p : KProg α) : Prop :=
  ∀ s, Owes .clear s → (payments depth).Follows p (fun _ => Owes .clear) s

/-- Actions that any thread may take and that leave a thread clear. -/
def calm (β : Type) (a : KAct β) : Prop :=
  ∀ s, Owes .clear s → s.allows a ∧ ∀ b, Owes .clear (s.next a b)

theorem Pays.composed {C : ∀ β : Type, KAct β → Prop} {S : ∀ β : Type, KProg β → Prop}
    (h : Composed C S p) (acts : ∀ β a, C β a → calm β a) (subs : ∀ β q, S β q → Pays depth q) :
    Pays depth p := by
  intro s clear
  exact .within h (fun β a s ha clear => acts β a ha s clear)
    (fun β q s hq clear => subs β q hq s clear) clear

theorem Pays.bind {f : α → KProg β} (hp : Pays depth p) (hf : ∀ value, Pays depth (f value)) :
    Pays depth (p.bind f) := fun s clear => (hp s clear).bind fun value s => hf value s

theorem Pays.pure (value : α) : Pays depth (.pure value) := fun _ clear => clear

theorem calm_of_tame {a : KAct β} (h : tame β a) : calm β a := by
  rintro ⟨d, known, adm⟩ ⟨⟨⟩, ⟨⟩⟩
  cases a with
  | ctx c => cases c <;> first | exact h.elim | exact ⟨trivial, fun _ => ⟨rfl, rfl⟩⟩
  | calls c =>
    cases c with
    | alloc => exact ⟨fun admits => (by cases admits), fun _ => ⟨rfl, rfl⟩⟩
    | _ => first | exact h.elim | exact ⟨trivial, fun _ => ⟨rfl, rfl⟩⟩
  | grant c => cases c <;> first | exact h.elim | exact ⟨trivial, fun _ => ⟨rfl, rfl⟩⟩
  | reserve | lockAdmit | unlockAdmit => exact h.elim
  | _ => exact ⟨trivial, fun _ => ⟨rfl, rfl⟩⟩

theorem calm_of_finalizing {a : KAct β} (h : finalizing β a) : calm β a := by
  rintro ⟨d, known, adm⟩ ⟨⟨⟩, ⟨⟩⟩
  cases a with
  | ctx c => cases c <;> first | exact h.elim | exact ⟨trivial, fun _ => ⟨rfl, rfl⟩⟩
  | calls c => cases c <;> first | exact h.elim | exact ⟨trivial, fun _ => ⟨rfl, rfl⟩⟩
  | grant | reserve | lockAdmit | unlockAdmit => exact h.elim
  | _ => exact ⟨trivial, fun _ => ⟨rfl, rfl⟩⟩

theorem calm_of_committing {a : KAct β} (h : committing β a) : calm β a := by
  rintro ⟨d, known, adm⟩ ⟨⟨⟩, ⟨⟩⟩
  cases a with
  | ctx c => cases c <;> first | exact h.elim | exact ⟨trivial, fun _ => ⟨rfl, rfl⟩⟩
  | calls c =>
    cases c <;> first
      | exact h.elim
      | exact ⟨h, fun _ => ⟨rfl, rfl⟩⟩
  | grant c => cases c <;> first | exact h.elim | exact ⟨trivial, fun _ => ⟨rfl, rfl⟩⟩
  | reserve | lockAdmit | unlockAdmit => exact h.elim
  | _ => exact ⟨trivial, fun _ => ⟨rfl, rfl⟩⟩

theorem Pays.finalizes (h : Finalizes again p) (hagain : Pays depth again) : Pays depth p := by
  refine Pays.composed h (fun _ _ => calm_of_finalizing) fun β q hq => ?_
  cases hq
  exact hagain

theorem disposeInstanceInner_pays (hagain : Pays depth again) (inst : InstanceId) :
    Pays depth (disposeInstanceInner again inst) := by
  rintro ⟨d, known, adm⟩ ⟨⟨⟩, ⟨⟩⟩
  simp only [disposeInstanceInner, ctx, Prog.bind_eq, perform_bind]
  refine .act trivial fun rec => ?_
  cases rec with
  | none => exact ⟨rfl, rfl⟩
  | some rec =>
    dsimp only
    split
    iterate 3 exact ⟨rfl, rfl⟩
    refine .act rfl fun claim => ?_
    cases claim with
    | error e => exact ⟨rfl, rfl⟩
    | ok claim =>
      cases claim with
      | inFlight logical => exact ⟨rfl, rfl⟩
      | fresh rec =>
        refine (quiesce_follows rec ⟨rfl, rfl⟩).bind fun _ s clear => .act trivial fun live => ?_
        obtain ⟨d, known, adm⟩ := s
        obtain ⟨⟨⟩, ⟨⟩⟩ := clear
        change (payments depth).Follows (if _ then _ else _) _ _
        split_ifs
        · exact Pays.finalizes (park_finalizes rec) hagain _ ⟨rfl, rfl⟩
        · exact Pays.finalizes (settleDispose_finalizes rec) hagain _ ⟨rfl, rfl⟩

theorem reconcile_pays : Pays depth (reconcile n) := by
  induction n with
  | zero => exact fun _ _ => trivial
  | succ n ih =>
    refine Pays.composed (reconcile_succ_composes n) (fun β a ha => calm_of_tame
      (KAct.within ha)) fun β q hq => ?_
    cases hq with
    | dispose inst => exact disposeInstanceInner_pays ih inst
    | release handle =>
      exact Pays.composed (beginRelease_releases handle)
        (fun _ _ ha => calm_of_tame (KAct.within ha)) fun _ _ hf => hf.elim
    | again => exact ih

theorem maybeFinalize_pays : Pays depth (maybeFinalize (reconcile n) inst) :=
  Pays.finalizes (maybeFinalize_finalizes inst) (reconcile_pays n)

theorem concludeTicket_follows (r : TicketRecord) (h : Owes (owing [r.id]) s) :
    (payments depth).Follows (concludeTicket (reconcile n) r) (fun _ => Owes .clear) s := by
  refine (revokeEnded_follows r.id _ h).bind fun _ s clear => ?_
  cases r.dep with
  | none => exact maybeFinalize_pays n _ s clear
  | some dep =>
    obtain ⟨d, known, adm⟩ := s
    obtain ⟨⟨⟩, ⟨⟩⟩ := clear
    exact .act trivial fun _ => maybeFinalize_pays n _ _ ⟨rfl, rfl⟩

theorem settleTicket_pays : Pays depth (settleTicket (reconcile n) ticket) := by
  rintro ⟨d, known, adm⟩ ⟨⟨⟩, ⟨⟩⟩
  refine .act trivial fun removed => ?_
  cases removed with
  | none => exact ⟨rfl, rfl⟩
  | some r => exact (concludeTicket_follows n r ⟨rfl, rfl⟩).bind fun _ _ clear => clear

theorem callClose_pays : Pays depth (callClose (reconcile n) ticket) := by
  rintro ⟨d, known, adm⟩ ⟨⟨⟩, ⟨⟩⟩
  refine .act trivial fun removed => ?_
  cases removed with
  | none => exact ⟨rfl, rfl⟩
  | some r =>
    exact .act trivial fun _ => (concludeTicket_follows n r ⟨rfl, rfl⟩).bind fun _ _ clear => clear

theorem callCancel_pays (reason : String) : Pays depth (callCancel ticket reason) := by
  rintro ⟨d, known, adm⟩ ⟨⟨⟩, ⟨⟩⟩
  refine .act trivial fun r => ?_
  cases r with
  | none => exact ⟨rfl, rfl⟩
  | some r =>
    refine .act (.inl rfl) fun marked => ?_
    cases marked with
    | false => exact ⟨rfl, rfl⟩
    | true =>
      exact .act trivial fun _ => (revokeEnded_follows ticket _ ⟨rfl, rfl⟩).bind
        fun _ _ clear => clear

theorem dependencyTimeout_pays (child : TicketId) : Pays depth (dependencyTimeout child) := by
  rintro ⟨d, known, adm⟩ ⟨⟨⟩, ⟨⟩⟩
  refine .act trivial fun marked => ?_
  cases marked with
  | false => exact ⟨rfl, rfl⟩
  | true =>
    exact .act trivial fun _ => .act trivial fun _ =>
      (revokeEnded_follows child _ ⟨rfl, rfl⟩).bind fun _ _ clear => clear

/-- A grant that is replaced is paid for by revoking the children under its old revisions. -/
theorem revokeGrantChildren_follows {consumer cap reason : String} {keep : Option Nat}
    {f : List TicketRecord → α} (h : Owes ⟨.idle, [], [(consumer, cap, keep)]⟩ s) :
    (payments depth).Follows (do
      let revoked ← calls (.revokeGrantChildren consumer cap keep reason)
      journalRevoked reason revoked
      pure (f revoked)) (fun _ => Owes .clear) s := by
  refine .act trivial fun revoked => (inert_follows (journalRevoked_inert ..)).bind ?_
  rintro _ _ rfl
  refine ⟨?_, h.adm⟩
  change duesAfter (.calls (.revokeGrantChildren consumer cap keep reason)) revoked s.dues = _
  simp [h.dues, duesAfter, stageAfter, endedAfter, regrantsAfter, Dues.clear]

theorem grantOutbound_pays : Pays depth (grantOutbound consumer cap) := by
  rintro ⟨d, known, adm⟩ ⟨⟨⟩, ⟨⟩⟩
  exact .act trivial fun rev => .act trivial fun _ => revokeGrantChildren_follows ⟨rfl, rfl⟩

theorem revokeOutbound_pays : Pays depth (revokeOutbound consumer cap) := by
  rintro ⟨d, known, adm⟩ ⟨⟨⟩, ⟨⟩⟩
  exact .act trivial fun _ => revokeGrantChildren_follows (f := fun revoked => revoked) ⟨rfl, rfl⟩

theorem Pays.proceeds (h : Proceeds p) : Pays depth p := by
  refine Pays.composed h (fun _ _ => calm_of_tame) fun β q hq => ?_
  cases hq with
  | finalize n inst => exact maybeFinalize_pays n inst
  | dispose n inst => exact disposeInstanceInner_pays (reconcile_pays n) inst
  | settle n ticket => exact settleTicket_pays n ticket
  | close n ticket => exact callClose_pays n ticket
  | cancel ticket reason => exact callCancel_pays ticket reason

/-- Every operation but an admission pays what it comes to owe. -/
theorem operation_pays {op : Op} (h : ∀ req, op ≠ .dependencyAdmit req) (n : Nat) :
    Pays depth (op.code (reconcile n)) := by
  cases hs : special op with
  | false => exact Pays.proceeds (operation_proceeds hs n)
  | true =>
    cases op with
    | commitEffect ticket kind payload =>
      exact Pays.bind (Pays.composed (commitEffect_commits ..) (fun _ _ => calm_of_committing)
        fun _ _ hf => hf.elim) fun _ => Pays.pure _
    | dependencyAccept child =>
      exact Pays.bind (Pays.composed (dependencyAccept_decides child)
        (fun _ _ ha => calm_of_committing (KAct.within ha)) fun _ _ hf => hf.elim) fun _ =>
          Pays.pure _
    | dependencyTimeout child => exact Pays.bind (dependencyTimeout_pays child) fun _ => Pays.pure _
    | grantOutbound consumer cap =>
      exact Pays.bind (grantOutbound_pays consumer cap) fun _ => Pays.pure _
    | revokeOutbound consumer cap =>
      exact Pays.bind (revokeOutbound_pays consumer cap) fun _ => Pays.pure _
    | dependencyAdmit req => exact absurd rfl (h req)
    | _ => cases hs

end Revokers

end MatrixRuntime.RevocationPayments
