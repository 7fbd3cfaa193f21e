import MatrixRuntime.KernelActions

/-! What ticket actions leave alone. Apart from an allocation and a removal, every
action of the ticket table keeps its tickets, each for the same call. -/

namespace MatrixRuntime.TicketFrame

open KernelTickets KernelActions

/-- The same call: everything a ticket was issued with. -/
structure SameCall (t t' : TicketRecord) : Prop where
  id : t'.id = t.id
  cap : t'.cap = t.cap
  logical : t'.logical = t.logical
  instanceId : t'.instanceId = t.instanceId
  generation : t'.generation = t.generation
  context : t'.context = t.context
  epoch : t'.epoch = t.epoch
  policy : t'.policy = t.policy
  pins : t'.pins = t.pins

theorem SameCall.refl (t : TicketRecord) : SameCall t t :=
  ⟨rfl, rfl, rfl, rfl, rfl, rfl, rfl, rfl, rfl⟩

/-- Both tables hold the same tickets, each for the same call. -/
def SameTickets (c c' : CallsTable) : Prop :=
  ∀ id, Option.Rel SameCall (c.get id) (c'.get id)

theorem SameTickets.refl (c : CallsTable) : SameTickets c c := by
  intro id
  cases c.get id with
  | none => exact .none
  | some t => exact .some (.refl t)

theorem amend_sameTickets (c : CallsTable) (sel : TicketRecord → Bool)
    (f : TicketRecord → TicketRecord) (same : ∀ t, SameCall t (f t)) :
    SameTickets c (c.amend sel f fun t => (same t).id) := by
  intro id
  rw [CallsTable.amend_get]
  cases c.get id with
  | none => exact .none
  | some t =>
    refine .some ?_
    by_cases h : sel t
    · simpa [h] using same t
    · simpa [h] using SameCall.refl t

/-- Actions that neither issue nor take out a ticket. -/
abbrev steady (β : Type) : TicketAct β → Prop
  | .alloc _ | .remove _ _ => False
  | _ => True

variable {β : Type} {a : TicketAct β}

theorem steady_sameTickets (h : steady β a) (c : CallsTable) :
    SameTickets c (a.run c).2 := by
  cases a with
  | alloc | remove => exact h.elim
  | get | openChildrenOf | pendingFor | pendingCount | inflightCount | pushEffect
  | tryClaimCleanup | releaseCleanupClaim => exact .refl c
  | setDepMeta | revokeDescendants | revokeChildrenOfConsumer | revokeGrantChildren
  | markCommittedIfAdmitted | expireTicket | setState | setDrainUntil | cancel
  | expireOverdue =>
    apply amend_sameTickets
    intro t
    constructor <;> rfl

variable {c c' : CallsTable} {id : TicketId}

theorem SameTickets.forward (h : SameTickets c c') {id : TicketId} {t : TicketRecord}
    (ht : c.get id = some t) : ∃ t', c'.get id = some t' ∧ SameCall t t' := by
  have := h id
  rw [ht] at this
  cases hc : c'.get id with
  | none =>
    rw [hc] at this
    cases this
  | some t' =>
    rw [hc] at this
    cases this with
    | some same => exact ⟨t', rfl, same⟩

theorem SameTickets.backward (h : SameTickets c c') {id : TicketId} {t' : TicketRecord}
    (ht : c'.get id = some t') : ∃ t, c.get id = some t ∧ SameCall t t' := by
  have := h id
  rw [ht] at this
  cases hc : c.get id with
  | none =>
    rw [hc] at this
    cases this
  | some t =>
    rw [hc] at this
    cases this with
    | some same => exact ⟨t, rfl, same⟩

theorem SameTickets.trans {c'' : CallsTable} (h : SameTickets c c') (h' : SameTickets c' c'') :
    SameTickets c c'' := by
  intro id
  cases found : c.get id with
  | none =>
    cases found' : c'.get id with
    | none =>
      cases found'' : c''.get id with
      | none => exact .none
      | some t'' =>
        obtain ⟨t', there, -⟩ := h'.backward found''
        cases found'.symm.trans there
    | some t' =>
      obtain ⟨t, there, -⟩ := h.backward found'
      cases found.symm.trans there
  | some t =>
    obtain ⟨t', found', same⟩ := h.forward found
    obtain ⟨t'', found'', same'⟩ := h'.forward found'
    rw [found'']
    exact .some ⟨same'.id.trans same.id, same'.cap.trans same.cap, same'.logical.trans same.logical,
      same'.instanceId.trans same.instanceId, same'.generation.trans same.generation,
      same'.context.trans same.context, same'.epoch.trans same.epoch,
      same'.policy.trans same.policy, same'.pins.trans same.pins⟩

theorem steady_nextTicket (h : steady β a) (c : CallsTable) :
    (a.run c).2.nextTicket = c.nextTicket := by
  cases a with
  | alloc | remove => exact h.elim
  | _ => rfl

theorem nextTicket_le (a : TicketAct β) (c : CallsTable) :
    c.nextTicket ≤ (a.run c).2.nextTicket := by
  by_cases h : steady β a
  · exact (steady_nextTicket h c).ge
  · cases a with
    | alloc => exact Nat.le_succ _
    | remove => exact Nat.le_refl _
    | _ => exact absurd trivial h

/-- A ticket that was issued before and is in the table now was there all the time, for the
same call. -/
theorem get_origin {t' : TicketRecord} (h : (a.run c).2.get id = some t')
    (old : id < c.nextTicket) :
    ∃ t, c.get id = some t ∧ SameCall t t' := by
  by_cases hs : steady β a
  · exact (steady_sameTickets hs c).backward h
  · cases a with
    | alloc adm =>
      rw [TicketAct.run, CallsTable.alloc_get, if_neg (Nat.ne_of_lt old)] at h
      exact ⟨t', h, .refl t'⟩
    | remove remover k =>
      rw [TicketAct.run, CallsTable.remove_get] at h
      split_ifs at h
      exact ⟨t', h, .refl t'⟩
    | _ => exact absurd trivial hs

/-! ### Open tickets -/

/-- The ticket is in the table and admitted. -/
def Open (c : CallsTable) (id : TicketId) : Prop := (c.get id).any (·.isOpen) = true

instance (c : CallsTable) (id : TicketId) : Decidable (Open c id) :=
  inferInstanceAs (Decidable (_ = true))

theorem open_iff :
    Open c id ↔ ∃ t, c.get id = some t ∧ t.state = .admitted := by
  simp [Open, Option.any_eq_true, TicketRecord.isOpen]

theorem Open.lt (h : Open c id) : id < c.nextTicket := by
  obtain ⟨t, ht, -⟩ := open_iff.mp h
  exact CallsTable.get_lt ht

theorem amend_open (c : CallsTable) (sel : TicketRecord → Bool) (f : TicketRecord → TicketRecord)
    (hf : ∀ t, (f t).id = t.id) {id : TicketId} (h : Open (c.amend sel f hf) id)
    (closes : ∀ t, (f t).isOpen = true → t.isOpen = true) : Open c id := by
  rw [Open, CallsTable.amend_get] at h
  rw [Open]
  cases hget : c.get id with
  | none =>
    rw [hget] at h
    cases h
  | some t =>
    rw [hget] at h
    have hopen : (if sel t then f t else t).isOpen = true := h
    split_ifs at hopen
    · exact closes t hopen
    · exact hopen

/-- Actions that do not write `Admitted`. -/
def closing (β : Type) : TicketAct β → Prop
  | .setState _ state => state ≠ .admitted
  | _ => True

/-- A ticket issued before is open only if it was: none is reopened. -/
theorem open_origin (ha : closing β a) (old : id < c.nextTicket) (h : Open (a.run c).2 id) :
    Open c id := by
  cases a with
  | get | openChildrenOf | pendingFor | pendingCount | inflightCount | pushEffect
  | tryClaimCleanup | releaseCleanupClaim => exact h
  | alloc adm =>
    rw [Open, TicketAct.run, CallsTable.alloc_get, if_neg (Nat.ne_of_lt old)] at h
    exact h
  | remove remover k =>
    rw [Open, TicketAct.run, CallsTable.remove_get] at h
    split_ifs at h
    · cases h
    · exact h
  | setState k state =>
    refine amend_open c _ _ (by exact fun _ => rfl) h fun t ht => ?_
    exact absurd (of_decide_eq_true ht) ha
  | setDepMeta | setDrainUntil => exact amend_open c _ _ (by exact fun _ => rfl) h fun _ ht => ht
  | revokeDescendants | revokeChildrenOfConsumer | revokeGrantChildren | cancel
  | markCommittedIfAdmitted | expireTicket | expireOverdue =>
    refine amend_open c _ _ (by exact fun _ => rfl) h fun t ht => ?_
    exact absurd (of_decide_eq_true ht) (nofun)

end MatrixRuntime.TicketFrame
