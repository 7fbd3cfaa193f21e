import MatrixRuntime.TicketFrame

/-! Counting tickets. Ids are unique, so an action on one ticket changes a count by what
that ticket contributes before and after. -/

namespace MatrixRuntime.TicketCounts

open KernelTickets KernelActions TicketFrame

/-- How many tickets of the table satisfy `p`. -/
def tally (p : TicketRecord → Bool) (c : CallsTable) : Nat := c.tickets.countP p

variable {p : TicketRecord → Bool} {c : CallsTable} {k : TicketId} {id : TicketId} {β : Type}
  {a : TicketAct β} {t' t : TicketRecord}

private theorem filter_ordered {l : List TicketRecord}
    (ordered : l.Pairwise fun a b => a.id < b.id) (k : TicketId) :
    l.filter (fun t => decide (t.id = k)) = (l.find? fun t => decide (t.id = k)).toList := by
  induction l with
  | nil => rfl
  | cons t ts ih =>
    obtain ⟨hlt, hts⟩ := List.pairwise_cons.mp ordered
    by_cases hid : t.id = k
    · have none : ts.filter (fun u => decide (u.id = k)) = [] := by
        rw [List.filter_eq_nil_iff]
        intro u hu
        have later : k < u.id := hid ▸ hlt u hu
        simpa using Nat.ne_of_gt later
      simp [hid, none]
    · simp [hid, ih hts]

theorem filter_id (c : CallsTable) (k : TicketId) :
    c.tickets.filter (fun t => decide (t.id = k)) = (c.get k).toList := filter_ordered c.ordered k

/-- The count, with ticket `k` apart. -/
theorem tally_split (p : TicketRecord → Bool) (c : CallsTable) (k : TicketId) :
    tally p c = (c.tickets.filter fun t => decide (t.id ≠ k)).countP p +
      (c.get k).toList.countP p := by
  have split := List.countP_eq_countP_filter_add c.tickets p fun t => decide (t.id = k)
  have rest : (c.tickets.filter fun t => decide (t.id ≠ k)) =
      c.tickets.filter fun t => !decide (t.id = k) := by simp
  rw [filter_id] at split
  rw [tally, rest]
  omega

theorem remove_tally (p : TicketRecord → Bool) (c : CallsTable) (k : TicketId) :
    tally p c = tally p (c.remove k).2 + (c.get k).toList.countP p := tally_split p c k

theorem alloc_tally (p : TicketRecord → Bool) (c : CallsTable) (adm : CallsTable.Admission) :
    tally p (c.alloc adm).2 = tally p c + if p (c.allocated adm) then 1 else 0 := by
  simp [tally, CallsTable.alloc, List.countP_append, List.countP_cons]

theorem amend_tally (c : CallsTable) (sel : TicketRecord → Bool) (f : TicketRecord → TicketRecord)
    (hf : ∀ t, (f t).id = t.id) (same : ∀ t, p (f t) = p t) :
    tally p (c.amend sel f hf) = tally p c := by
  have pointwise : (p ∘ fun t => if sel t then f t else t) = p := by
    funext t
    by_cases h : sel t <;> simp [h, same]
  rw [tally, CallsTable.amend, List.countP_map, pointwise]
  rfl

theorem amend_tally_le (c : CallsTable) (sel : TicketRecord → Bool)
    (f : TicketRecord → TicketRecord) (hf : ∀ t, (f t).id = t.id)
    (less : ∀ t, p (f t) = true → p t = true) :
    tally p (c.amend sel f hf) ≤ tally p c := by
  rw [tally, CallsTable.amend, List.countP_map]
  refine List.countP_mono_left fun t _ h => ?_
  by_cases hs : sel t
  · exact less t (by simpa [hs] using h)
  · simpa [hs] using h

/-- Attaching a child to its parent changes the count by that ticket alone. -/
theorem setDepMeta_tally (p : TicketRecord → Bool) {t : TicketRecord} (h : c.get k = some t)
    (dep : DepChild) :
    tally p (c.setDepMeta k dep).2 + (if p t then 1 else 0) =
      tally p c + if p { t with dep := some dep } then 1 else 0 := by
  have before := tally_split p c k
  have after := tally_split p (c.setDepMeta k dep).2 k
  have hget : (c.setDepMeta k dep).2.get k = some { t with dep := some dep } := by
    rw [CallsTable.setDepMeta, CallsTable.amend_get, h]
    simp [CallsTable.get_id h]
  have rest : ((c.setDepMeta k dep).2.tickets.filter fun t => decide (t.id ≠ k)) =
      c.tickets.filter fun t => decide (t.id ≠ k) := by
    simp only [CallsTable.setDepMeta, CallsTable.amend, List.filter_map]
    have same : ((fun t : TicketRecord => decide (t.id ≠ k)) ∘ fun t =>
        if decide (t.id = k) = true then { t with dep := some dep } else t) =
        fun t => decide (t.id ≠ k) := by
      funext t
      by_cases ht : t.id = k <;> simp [ht]
    rw [same]
    refine List.map_congr_left (fun t ht => ?_) |>.trans (List.map_id _)
    have : t.id ≠ k := by simpa using (List.mem_filter.mp ht).2
    simp [this]
  rw [hget, rest] at after
  rw [h] at before
  simp only [Option.toList_some, List.countP_singleton] at before after
  omega

/-! ### What dependency links are left alone by -/

/-- Actions that issue, take out or attach no ticket. -/
def keepsDep (β : Type) : TicketAct β → Prop
  | .setDepMeta _ _ | .alloc _ | .remove _ _ => False
  | _ => True

theorem keepsDep_tally (h : keepsDep β a)
    (hp : ∀ t t' : TicketRecord, t'.dep = t.dep → p t' = p t) (c : CallsTable) :
    tally p (a.run c).2 = tally p c := by
  cases a with
  | alloc | remove | setDepMeta => exact h.elim
  | get | openChildrenOf | pendingFor | pendingCount | inflightCount | pushEffect
  | tryClaimCleanup | releaseCleanupClaim => rfl
  | _ => exact amend_tally c _ _ (by exact fun _ => rfl) fun t => hp _ _ rfl

/-- The action attaches ticket `id` to a parent. -/
def attaches {β : Type} (id : TicketId) : TicketAct β → Prop
  | .setDepMeta k _ => k = id
  | _ => False

theorem amend_dep_origin (c : CallsTable) (sel : TicketRecord → Bool)
    (f : TicketRecord → TicketRecord) (hf : ∀ t, (f t).id = t.id) {id : TicketId}
    {t' : TicketRecord} (h : (c.amend sel f hf).get id = some t')
    (same : ∀ t, t.id = id → sel t = true → (f t).dep = t.dep) :
    ∃ t, c.get id = some t ∧ t.dep = t'.dep := by
  rw [CallsTable.amend_get] at h
  obtain ⟨t, ht, rfl⟩ := Option.map_eq_some_iff.mp h
  refine ⟨t, ht, ?_⟩
  split_ifs with hs
  · exact (same t (CallsTable.get_id ht) hs).symm
  · rfl

/-- A ticket that was issued before has the link it had, unless it is attached now. -/
theorem dep_origin (ha : ¬ attaches id a) (old : id < c.nextTicket)
    (h : (a.run c).2.get id = some t') :
    ∃ t, c.get id = some t ∧ t.dep = t'.dep := by
  cases a with
  | alloc adm =>
    rw [TicketAct.run, CallsTable.alloc_get, if_neg (Nat.ne_of_lt old)] at h
    exact ⟨t', h, rfl⟩
  | remove remover k =>
    rw [TicketAct.run, CallsTable.remove_get] at h
    split_ifs at h
    exact ⟨t', h, rfl⟩
  | setDepMeta k dep =>
    refine amend_dep_origin c _ _ (by exact fun _ => rfl) h fun t ht hs => ?_
    exact absurd ((of_decide_eq_true hs).symm.trans ht) ha
  | get | openChildrenOf | pendingFor | pendingCount | inflightCount | pushEffect
  | tryClaimCleanup | releaseCleanupClaim => exact ⟨t', h, rfl⟩
  | _ => exact amend_dep_origin c _ _ (by exact fun _ => rfl) h fun t _ _ => rfl

/-- A ticket in the table was there before, or it was issued just now and has no link. -/
theorem get_origin_or_new (h : (a.run c).2.get id = some t') :
    id < c.nextTicket ∨ t'.dep = none := by
  by_cases old : id < c.nextTicket
  · exact .inl old
  · have lt := CallsTable.get_lt h
    by_cases hs : steady β a
    · exact absurd (steady_nextTicket hs c ▸ lt) old
    · cases a with
      | alloc adm =>
        rw [TicketAct.run, CallsTable.alloc_get] at h
        split_ifs at h with hid
        · cases h
          exact .inr rfl
        · exact absurd (CallsTable.get_lt h) old
      | remove remover k => exact absurd lt old
      | _ => exact absurd trivial hs

theorem setDepMeta_get {k : TicketId} {dep : DepChild}
    (h : (c.setDepMeta k dep).2.get id = some t') (hk : k = id) : t'.dep = some dep := by
  obtain ⟨t, ht, rfl⟩ := Option.map_eq_some_iff.mp
    ((CallsTable.amend_get c _ _ (by exact fun _ => rfl) id).symm.trans h)
  rw [if_pos (decide_eq_true ((CallsTable.get_id ht).trans hk.symm))]

/-! ### Open children -/

/-- An open child of the parent. -/
def openChild (parent : TicketId) (t : TicketRecord) : Bool :=
  t.dep.any (fun d => decide (d.parent = parent)) && t.isOpen

theorem openChildrenOf_length (c : CallsTable) (parent : TicketId) :
    (c.openChildrenOf parent).length = tally (openChild parent) c :=
  (List.countP_eq_length_filter ..).symm

/-- Nothing but an attachment adds an open child. -/
theorem openChild_le {parent : TicketId} (ha : ∀ k, ¬ attaches k a) (hc : closing β a)
    (c : CallsTable) :
    tally (openChild parent) (a.run c).2 ≤ tally (openChild parent) c := by
  cases a with
  | alloc adm =>
    rw [TicketAct.run, alloc_tally]
    exact Nat.le_refl _
  | remove remover k =>
    have := remove_tally (openChild parent) c k
    rw [TicketAct.run]
    omega
  | setDepMeta k dep => exact absurd rfl (ha k)
  | get | openChildrenOf | pendingFor | pendingCount | inflightCount | pushEffect
  | tryClaimCleanup | releaseCleanupClaim => exact Nat.le_refl _
  | setState k state =>
    refine amend_tally_le c _ _ (by exact fun _ => rfl) fun t h => ?_
    exact absurd (of_decide_eq_true (Bool.and_eq_true .. ▸ h).2) hc
  | setDrainUntil => exact amend_tally_le c _ _ (by exact fun _ => rfl) fun t h => h
  | _ =>
    refine amend_tally_le c _ _ (by exact fun _ => rfl) fun t h => ?_
    have still := of_decide_eq_true (Bool.and_eq_true .. ▸ h).2
    cases still

/-! ### Links of open children -/

/-- Ticket `id` is an open child, with this link to its parent. -/
structure OpenLink (c : CallsTable) (id : TicketId) (t : TicketRecord) (d : DepChild) : Prop where
  get : c.get id = some t
  dep : t.dep = some d
  state : t.state = .admitted

theorem OpenLink.open {d : DepChild} (h : OpenLink c id t d) :
    Open c id := open_iff.mpr ⟨t, h.get, h.state⟩

theorem amend_origin (c : CallsTable) (sel : TicketRecord → Bool)
    (f : TicketRecord → TicketRecord) (hf : ∀ t, (f t).id = t.id) {id : TicketId}
    {t' : TicketRecord} (h : (c.amend sel f hf).get id = some t') :
    ∃ t, c.get id = some t ∧ (if sel t then f t else t) = t' := by
  rw [CallsTable.amend_get] at h
  exact Option.map_eq_some_iff.mp h

/-- A revocation leaves none of those it is after. -/
theorem revoke_openLink {mine : DepChild → Bool} {reason : String} {d : DepChild}
    (h : OpenLink (c.revoke mine reason).2 id t d) :
    mine d = false := by
  obtain ⟨t₀, -, rfl⟩ := amend_origin c _ _ (by exact fun _ => rfl) h.get
  have hstate := h.state
  have hdep := h.dep
  split_ifs at hstate hdep with hsel
  · cases hstate
  · cases hm : mine d with
    | false => rfl
    | true => simp [hdep, hm, TicketRecord.isOpen, hstate] at hsel

/-- The actions after which `id` may no longer be open. -/
def closes {β : Type} (id : TicketId) : TicketAct β → Prop
  | .cancel k _ | .remove _ k | .expireTicket k | .markCommittedIfAdmitted k | .setState k _ =>
    k = id
  | .revokeDescendants _ _ | .revokeChildrenOfConsumer _ _ | .revokeGrantChildren _ _ _ _
  | .expireOverdue _ => True
  | _ => False

theorem amend_keeps_open {c : CallsTable} {sel : TicketRecord → Bool}
    {f : TicketRecord → TicketRecord} (hf : ∀ t, (f t).id = t.id) {id : TicketId} (h : Open c id)
    (keeps : ∀ t, c.get id = some t → t.isOpen = true → sel t = true → (f t).isOpen = true) :
    Open (c.amend sel f hf) id := by
  obtain ⟨t, ht, hopen⟩ := open_iff.mp h
  have hisOpen : t.isOpen = true := decide_eq_true hopen
  rw [Open, CallsTable.amend_get, ht, Option.map_some, Option.any_some]
  split_ifs with hsel
  · exact keeps t ht hisOpen hsel
  · exact hisOpen

theorem open_kept (h : Open c id) (ha : ¬ closes id a) : Open (a.run c).2 id := by
  cases a with
  | get | openChildrenOf | pendingFor | pendingCount | inflightCount | pushEffect
  | tryClaimCleanup | releaseCleanupClaim => exact h
  | alloc adm =>
    rw [Open, TicketAct.run, CallsTable.alloc_get, if_neg (Nat.ne_of_lt h.lt)]
    exact h
  | remove remover k =>
    rw [Open, TicketAct.run, CallsTable.remove_get, if_neg (Ne.symm ha)]
    exact h
  | setDepMeta k dep => exact amend_keeps_open (by exact fun _ => rfl) h fun _ _ ht _ => ht
  | setDrainUntil k instant => exact amend_keeps_open (by exact fun _ => rfl) h fun _ _ ht _ => ht
  | setState k state =>
    refine amend_keeps_open (by exact fun _ => rfl) h fun t ht _ hsel => ?_
    exact absurd ((of_decide_eq_true hsel).symm.trans (CallsTable.get_id ht)) ha
  | cancel k reason | expireTicket k | markCommittedIfAdmitted k =>
    refine amend_keeps_open (by exact fun _ => rfl) h fun t ht _ hsel => ?_
    rw [Bool.and_eq_true, decide_eq_true_eq] at hsel
    exact absurd (hsel.1.symm.trans (CallsTable.get_id ht)) ha
  | revokeDescendants | revokeChildrenOfConsumer | revokeGrantChildren | expireOverdue =>
    exact absurd trivial ha

/-- An open ticket that a drain deadline does not end stays open. -/
theorem expireOverdue_open {now : Nat} (h : Open c id) (spared : id ∉ (c.expireOverdue now).1) :
    Open (c.expireOverdue now).2 id := by
  refine amend_keeps_open (by exact fun _ => rfl) h fun t ht _ hsel => absurd ?_ spared
  obtain ⟨hmem, rfl⟩ := CallsTable.get_eq_some.mp ht
  exact List.mem_map.mpr ⟨t, List.mem_filter.mpr ⟨hmem, hsel⟩, rfl⟩

end MatrixRuntime.TicketCounts
