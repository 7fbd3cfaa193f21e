import Mathlib.Data.Finset.Card
import MatrixRuntime.AdmissionLock
import MatrixRuntime.OperationFrame
import MatrixRuntime.ThreadStates
import MatrixRuntime.TicketCounts

/-! The quota of dependency calls. A reservation is counted before its child is in the
table and given back after the child has left it, so in between it is owed by the
thread that made or ended the child. The counters always equal the children in the
table together with the reservations that threads owe. -/

namespace MatrixRuntime.QuotaBalance

open KernelTickets KernelState KernelActions InterleavedProgram InterleavedMachine
open KernelOperations OperationFrame TicketFrame TicketCounts TraceMarks KernelCalls
open DependencyAdmission CallFrame ReconcileFrame AdmissionLock ThreadStates Function

variable {depth : Nat} {u : DepUsage} {id : TicketId} {o : KObs depth} {l : OutboundLimits}
  {label : KLabel depth}

def isChild (t : TicketRecord) : Bool := t.dep.isSome

def inSession (s : String) (t : TicketRecord) : Bool := t.dep.any fun d => decide (d.session = s)

/-- The counters are those of the children in the table; an empty session has no entry. -/
structure Exact (s : KState) : Prop where
  total : s.usage.total = tally isChild s.calls
  session : ∀ name, s.usage.perSession name =
    if tally (inSession name) s.calls = 0 then none else some (tally (inSession name) s.calls)

/-! ### What a thread owes -/

def debtAfter {β : Type} : KAct β → β → Option String → Option String
  | .reserve s _, .ok _, _ => some s
  | .calls (.setDepMeta _ _), true, _ => none
  | .calls (.remove _ _), some t, prev => (t.dep.map (·.session)).or prev
  | .release _, _, _ => none
  | _, _, prev => prev

/-- The session of a reservation that the thread holds while no child in the table stands for
it. -/
def debt : Gauge KAct (Option String) := ⟨none, debtAfter⟩

def attachesTo {β : Type} : KAct β → β → TicketId → Prop
  | .calls (.setDepMeta k _), b, id => k = id ∧ b = true
  | _, _, _ => False

/-- The thread attached this child. -/
def attached : Mark KAct TicketId := .ever attachesTo

def reservesUnder {β : Type} : KAct β → β → OutboundLimits → Prop
  | .reserve _ limits, .ok _, l => limits = l
  | _, _, _ => False

def isReserve {β : Type} : KAct β → β → OutboundLimits → Prop
  | .reserve _ _, _, _ => True
  | _, _, _ => False

/-- The limits of the policy that the thread's admission reserved under. -/
def reserved : Mark KAct OutboundLimits := ⟨reservesUnder, isReserve⟩

def takesOut {β : Type} (id : TicketId) : KAct β → Prop
  | .calls (.remove _ k) => k = id
  | _ => False

/-- No other thread takes out a child while its admission has not returned. -/
def returnedFirst (o : Obs (kernel depth)) : Label (kernel depth) → Prop
  | .act j a _ => ∀ i id, i ≠ j → takesOut id a → ¬ attached.During i id o.trace
  | _ => True

/-- What the last step of the run did to a limit, if it was a step of an admission: the
reservation keeps the session and the global count within its policy, the attachment keeps the
open children of its parent within it. -/
def limitsAfter {β : Type} (i : Nat) (mem : KState) (past : List (Label (kernel depth))) :
    KAct β → β → Prop
  | .reserve s l, .ok _ => (mem.usage.perSession s).getD 0 ≤ l.maxCallsPerSession ∧
      mem.usage.total ≤ l.maxCallsGlobal
  | .calls (.setDepMeta _ dep), true => ∀ l, reserved.During i l past →
      (mem.calls.openChildrenOf dep.parent).length ≤ l.maxChildrenPerParent
  | _, _ => True

def WithinLimits (o : Obs (kernel depth)) : Prop :=
  match o.trace with
  | .act i a b :: past => limitsAfter i o.mem past a b
  | _ => True

/-- The threads in `D` owe what `D` says, and the counters are the children in the table and
these debts. -/
structure Balanced (D : Finset (Nat × String)) (o : KObs depth) : Prop where
  debts : ∀ i s, (i, s) ∈ D ↔ debt.of i o.trace = some s
  total : o.mem.usage.total = tally isChild o.mem.calls + D.card
  session : ∀ s, (o.mem.usage.perSession s).getD 0 =
    tally (inSession s) o.mem.calls + (D.filter fun d => d.2 = s).card
  positive : ∀ s, o.mem.usage.perSession s ≠ some 0

/-- When a thread may take an action. -/
def guard (i : Nat) (o : KObs depth) {β : Type} : KAct β → Prop
  | .reserve _ _ => debt.of i o.trace = none
  | .release s => debt.of i o.trace = some s
  | .calls (.setDepMeta id dep) => holds.On i () o.trace ∧ debt.of i o.trace = some dep.session ∧
      (∀ t, o.mem.calls.get id = some t → t.dep = none) ∧
      ∀ l, reserved.During i l o.trace →
        tally (openChild dep.parent) o.mem.calls < l.maxChildrenPerParent
  | .calls (.remove _ id) => debt.of i o.trace = none ∨ o.mem.calls.get id = none
  | .calls (.setState _ state) => state ≠ .admitted
  | .unlockAdmit => holds.On i () o.trace
  | _ => True

section Balance

variable {o : KObs depth} {i j : Nat} {β : Type} {a : KAct β} {b : β} {mem : KState}
  {D : Finset (Nat × String)} {s : String}

theorem debt_acted : debt.of j (o.acted i a b mem).trace =
    if i = j then debtAfter a b (debt.of i o.trace) else debt.of j o.trace := by
  split_ifs with h
  · subst h
    exact Gauge.of_own
  · exact Gauge.of_foreign (by simpa [Label.thread] using h)

/-- The same children, in the same sessions, as far as counting goes. -/
structure SameLinks (c c' : CallsTable) : Prop where
  child : tally isChild c' = tally isChild c
  session : ∀ s, tally (inSession s) c' = tally (inSession s) c

theorem SameLinks.refl (c : CallsTable) : SameLinks c c := ⟨rfl, fun _ => rfl⟩

/-- Nothing is owed more or less. -/
theorem Balanced.same (h : Balanced D o)
    (owed : debtAfter a b (debt.of i o.trace) = debt.of i o.trace)
    (usage : mem.usage = o.mem.usage) (links : SameLinks o.mem.calls mem.calls) :
    Balanced D (o.acted i a b mem) where
  debts j s := by
    rw [debt_acted, h.debts]
    split_ifs with hj
    · rw [owed, hj]
    · rfl
  total := by
    rw [Obs.acted_mem, usage, links.child]
    exact h.total
  session s := by
    rw [Obs.acted_mem, usage, links.session]
    exact h.session s
  positive s := by
    rw [Obs.acted_mem, usage]
    exact h.positive s

theorem card_insert_filter {x : Nat × String} (hx : x ∉ D) (s : String) :
    ((insert x D).filter fun d => d.2 = s).card =
      (D.filter fun d => d.2 = s).card + if x.2 = s then 1 else 0 := by
  rw [Finset.filter_insert]
  split_ifs with h
  · exact Finset.card_insert_of_notMem fun hm => hx (Finset.mem_filter.mp hm).1
  · rfl

/-- The thread comes to owe a reservation for session `s`. -/
theorem Balanced.incur (h : Balanced D o) (free : debt.of i o.trace = none)
    (owed : debtAfter a b none = some s)
    (total : mem.usage.total = tally isChild mem.calls + (D.card + 1))
    (session : ∀ s', (mem.usage.perSession s').getD 0 = tally (inSession s') mem.calls +
      ((D.filter fun d => d.2 = s').card + if s = s' then 1 else 0))
    (positive : ∀ s', mem.usage.perSession s' ≠ some 0) :
    Balanced (insert (i, s) D) (o.acted i a b mem) := by
  have fresh : (i, s) ∉ D := by
    rw [h.debts, free]
    exact nofun
  refine ⟨fun j s' => ?_, ?_, fun s' => ?_, positive⟩
  · rw [debt_acted, Finset.mem_insert, Prod.mk.injEq, h.debts]
    split_ifs with hj
    · subst hj
      rw [free, owed, Option.some.injEq]
      simp [eq_comm]
    · simp [Ne.symm hj]
  · rw [Finset.card_insert_of_notMem fresh]
    exact total
  · rw [card_insert_filter fresh]
    exact session s'

/-- The thread no longer owes the reservation for session `s`. -/
theorem Balanced.settle (h : Balanced D o) (before : debt.of i o.trace = some s)
    (owed : debtAfter a b (some s) = none)
    (total : mem.usage.total + 1 = tally isChild mem.calls + D.card)
    (session : ∀ s', ((mem.usage.perSession s').getD 0 + if s = s' then 1 else 0) =
      tally (inSession s') mem.calls + (D.filter fun d => d.2 = s').card)
    (positive : ∀ s', mem.usage.perSession s' ≠ some 0) :
    Balanced (D.erase (i, s)) (o.acted i a b mem) := by
  have mem_D : (i, s) ∈ D := (h.debts i s).mpr before
  have fresh : (i, s) ∉ D.erase (i, s) := Finset.notMem_erase _ _
  have whole : insert (i, s) (D.erase (i, s)) = D := Finset.insert_erase mem_D
  refine ⟨fun j s' => ?_, ?_, fun s' => ?_, positive⟩
  · rw [debt_acted, Finset.mem_erase, h.debts]
    split_ifs with hj
    · subst hj
      rw [before, owed]
      simp only [ne_eq, Prod.mk.injEq, true_and, Option.some.injEq, reduceCtorEq, iff_false]
      rintro ⟨hne, rfl⟩
      exact hne rfl
    · simp [Ne.symm hj]
  · have card := Finset.card_insert_of_notMem fresh
    rw [whole] at card
    rw [Obs.acted_mem]
    omega
  · have card := card_insert_filter fresh s'
    rw [whole] at card
    have := session s'
    rw [Obs.acted_mem]
    simp only at card
    omega

/-! ### One step -/

theorem reserve_ok {inflight : Nat} (h : (u.reserve s l inflight).1 = .ok ()) :
    (u.reserve s l inflight).2 =
      ⟨update u.perSession s (some ((u.perSession s).getD 0 + 1)), u.total + 1⟩ ∧
    (u.perSession s).getD 0 < l.maxCallsPerSession ∧ u.total < l.maxCallsGlobal := by
  unfold DepUsage.reserve at h ⊢
  split_ifs at h ⊢ with h₁ h₂ h₃
  exact ⟨rfl, Nat.lt_of_not_le h₁, Nat.lt_of_not_le h₂⟩

theorem reserve_error {inflight : Nat} {e : String} (h : (u.reserve s l inflight).1 = .error e) :
    (u.reserve s l inflight).2 = u := by
  unfold DepUsage.reserve at h ⊢
  split_ifs at h ⊢ <;> rfl

theorem release_session (h : (u.perSession s).getD 0 ≠ 0) (s' : String) :
    ((u.release s).perSession s').getD 0 + (if s = s' then 1 else 0) =
      (u.perSession s').getD 0 := by
  unfold DepUsage.release
  cases hs : u.perSession s with
  | none =>
    rw [hs] at h
    exact absurd rfl h
  | some n =>
    rw [hs] at h
    simp only [Option.getD_some] at h
    by_cases he : s = s'
    · subst he
      simp only [update_self, if_true, hs, Option.getD_some]
      split_ifs with hz
      · simp only [Option.getD_none]
        omega
      · simp only [Option.getD_some]
        omega
    · simp [he, update_of_ne (Ne.symm he)]

theorem release_positive (h : ∀ s', u.perSession s' ≠ some 0) (s' : String) :
    (u.release s).perSession s' ≠ some 0 := by
  unfold DepUsage.release
  cases hs : u.perSession s with
  | none => exact h s'
  | some n =>
    by_cases he : s' = s
    · subst he
      simp only [update_self]
      split_ifs with hz
      · exact nofun
      · simpa using hz
    · simpa [update_of_ne he] using h s'

theorem keepsDep_links {γ : Type} {c : TicketAct γ} (h : keepsDep γ c) (t : CallsTable) :
    SameLinks t (c.run t).2 where
  child := keepsDep_tally h (fun t t' hd => by rw [isChild, isChild, hd]) t
  session s := keepsDep_tally h (fun t t' hd => by rw [inSession, inSession, hd]) t

theorem alloc_links (adm : CallsTable.Admission) (t : CallsTable) :
    SameLinks t (t.alloc adm).2 where
  child := alloc_tally isChild t adm
  session s := alloc_tally (inSession s) t adm

theorem reserve_balanced {r : Except String Unit} (h : Balanced D o)
    (free : debt.of i o.trace = none) (enabled : (KAct.reserve s l).sem o.mem = some (r, mem)) :
    ∃ D', Balanced D' (o.acted i (.reserve s l) r mem) := by
  have reply : (o.mem.usage.reserve s l o.mem.calls.inflightCount).1 = r :=
    congrArg Prod.fst (Option.some.inj enabled)
  have after : { o.mem with usage := (o.mem.usage.reserve s l o.mem.calls.inflightCount).2 } =
    mem :=
    congrArg Prod.snd (Option.some.inj enabled)
  cases r with
  | error e =>
    rw [reserve_error reply] at after
    subst after
    exact ⟨D, h.same rfl rfl (.refl _)⟩
  | ok u =>
    rw [(reserve_ok reply).1] at after
    subst after
    refine ⟨_, h.incur free rfl ?_ (fun s' => ?_) fun s' => ?_⟩
    · change o.mem.usage.total + 1 = _
      rw [h.total]
      rfl
    · change (update o.mem.usage.perSession s _ s').getD 0 = _
      by_cases he : s = s'
      · subst he
        rw [update_self, if_pos rfl, Option.getD_some, h.session]
        rfl
      · rw [update_of_ne (Ne.symm he), if_neg he, h.session]
        rfl
    · change update o.mem.usage.perSession s _ s' ≠ _
      by_cases he : s' = s
      · subst he
        simp
      · rw [update_of_ne he]
        exact h.positive s'

theorem release_balanced {r : Unit} (h : Balanced D o) (owed : debt.of i o.trace = some s)
    (enabled : (KAct.release s).sem o.mem = some (r, mem)) :
    ∃ D', Balanced D' (o.acted i (.release s) r mem) := by
  cases enabled
  have mem_D : (i, s) ∈ D := (h.debts i s).mpr owed
  have card : 0 < D.card := Finset.card_pos.mpr ⟨_, mem_D⟩
  have some_s : (o.mem.usage.perSession s).getD 0 ≠ 0 := by
    have : 0 < (D.filter fun d => d.2 = s).card :=
      Finset.card_pos.mpr ⟨_, Finset.mem_filter.mpr ⟨mem_D, rfl⟩⟩
    rw [h.session]
    omega
  refine ⟨_, h.settle owed rfl ?_ (fun s' => ?_) (release_positive h.positive)⟩
  · have total := h.total
    change o.mem.usage.total - 1 + 1 = tally isChild o.mem.calls + D.card
    omega
  · rw [← h.session s']
    exact release_session some_s s'

theorem setDepMeta_balanced {dep : DepChild} {r : Bool} (h : Balanced D o)
    (owed : debt.of i o.trace = some dep.session)
    (unattached : ∀ t, o.mem.calls.get id = some t → t.dep = none)
    (enabled : (KAct.calls (.setDepMeta id dep)).sem o.mem = some (r, mem)) :
    ∃ D', Balanced D' (o.acted i (.calls (.setDepMeta id dep)) r mem) := by
  cases enabled
  cases hget : o.mem.calls.get id with
  | none =>
    have vanished : (o.mem.calls.setDepMeta id dep).1 = false := by
      simp [CallsTable.setDepMeta, hget]
    have same : ∀ p, tally p (o.mem.calls.setDepMeta id dep).2 = tally p o.mem.calls := by
      intro p
      have others : ∀ t ∈ o.mem.calls.tickets, ¬ t.id = id := by
        intro t ht he
        rw [← he, CallsTable.get_of_mem ht] at hget
        cases hget
      simp only [tally, CallsTable.setDepMeta, CallsTable.amend, List.countP_map]
      refine List.countP_congr fun t ht => ?_
      simp [others t ht]
    refine ⟨D, h.same ?_ rfl ⟨same _, fun s => same _⟩⟩
    change debtAfter (.calls (.setDepMeta id dep)) (o.mem.calls.setDepMeta id dep).1 _ = _
    rw [vanished]
    rfl
  | some t =>
    have found : (o.mem.calls.setDepMeta id dep).1 = true := by
      simp [CallsTable.setDepMeta, hget]
    have hnone := unattached t hget
    refine ⟨_, h.settle owed ?_ ?_ (fun s' => ?_) h.positive⟩
    · change debtAfter (.calls (.setDepMeta id dep)) (o.mem.calls.setDepMeta id dep).1 _ = _
      rw [found]
      rfl
    · have count := setDepMeta_tally isChild hget dep
      have total := h.total
      simp only [isChild, hnone, Option.isSome_none, Option.isSome_some] at count
      change o.mem.usage.total + 1 = tally isChild (o.mem.calls.setDepMeta id dep).2 + D.card
      simp only [Bool.false_eq_true, if_false, if_true, Nat.add_zero] at count
      omega
    · have count := setDepMeta_tally (inSession s') hget dep
      have session := h.session s'
      simp only [inSession, hnone, Option.any_none, Option.any_some, decide_eq_true_eq] at count
      change ((o.mem.usage.perSession s').getD 0 + _) =
        tally (inSession s') (o.mem.calls.setDepMeta id dep).2 + _
      simp only [Bool.false_eq_true, if_false, Nat.add_zero] at count
      rw [session]
      change _ = _ at count
      omega

theorem remove_balanced {remover : Remover} {r : Option TicketRecord} (h : Balanced D o)
    (free : debt.of i o.trace = none ∨ o.mem.calls.get id = none)
    (enabled : (KAct.calls (.remove remover id)).sem o.mem = some (r, mem)) :
    ∃ D', Balanced D' (o.acted i (.calls (.remove remover id)) r mem) := by
  cases enabled
  have count : ∀ p, tally p o.mem.calls = tally p (o.mem.calls.remove id).2 +
    (o.mem.calls.get id).toList.countP p := fun p => remove_tally p _ id
  change ∃ D', Balanced D' (o.acted i (.calls (.remove remover id)) (o.mem.calls.get id) _)
  cases hget : o.mem.calls.get id with
  | none =>
    simp only [hget, Option.toList_none, List.countP_nil, Nat.add_zero] at count
    exact ⟨D, h.same rfl rfl ⟨(count _).symm, fun s => (count _).symm⟩⟩
  | some t =>
    simp only [hget, Option.toList_some, List.countP_singleton] at count
    cases hdep : t.dep with
    | none =>
      refine ⟨D, h.same ?_ rfl ⟨?_, fun s => ?_⟩⟩
      · simp [debtAfter, hdep]
      · have := count isChild
        simp only [isChild, hdep, Option.isSome_none, Bool.false_eq_true, if_false] at this
        exact this.symm
      · have := count (inSession s)
        simp only [inSession, hdep, Option.any_none, Bool.false_eq_true, if_false] at this
        exact this.symm
    | some d =>
      have free := free.resolve_right (by simp [hget])
      refine ⟨_, h.incur (s := d.session) free ?_ ?_ (fun s' => ?_) h.positive⟩
      · simp [debtAfter, hdep]
      · have := count isChild
        have total := h.total
        simp only [isChild, hdep, Option.isSome_some, if_true] at this
        change o.mem.usage.total = tally isChild (o.mem.calls.remove id).2 + (D.card + 1)
        change tally isChild o.mem.calls = tally isChild (o.mem.calls.remove id).2 + 1 at this
        omega
      · have := count (inSession s')
        have session := h.session s'
        simp only [inSession, hdep, Option.any_some, decide_eq_true_eq] at this
        change tally (inSession s') o.mem.calls = tally (inSession s') (o.mem.calls.remove id).2 + _
          at this
        change (o.mem.usage.perSession s').getD 0 =
          tally (inSession s') (o.mem.calls.remove id).2 + _
        omega

/-- Actions that leave what is counted alone. -/
abbrev uncounted (β : Type) : KAct β → Prop
  | .reserve _ _ | .release _ | .calls (.setDepMeta _ _) | .calls (.remove _ _) => False
  | _ => True

theorem uncounted_debt (h : uncounted β a) (prev : Option String) : debtAfter a b prev = prev := by
  cases a with
  | reserve | release => exact h.elim
  | calls a => cases a <;> first | exact h.elim | rfl
  | _ => rfl

theorem uncounted_balanced (h : Balanced D o) (ha : uncounted β a)
    (enabled : a.sem o.mem = some (b, mem)) : Balanced D (o.acted i a b mem) := by
  refine h.same (uncounted_debt ha _) ?_ ?_
  · cases a with
    | reserve | release => exact ha.elim
    | grant a => cases a <;> cases enabled <;> rfl
    | lockAdmit | awaitSettled =>
      simp only [KAct.sem] at enabled
      split_ifs at enabled <;> cases enabled <;> rfl
    | _ => cases enabled; rfl
  · cases a with
    | calls a =>
      cases enabled
      cases a with
      | alloc adm => exact alloc_links adm _
      | setDepMeta | remove => exact ha.elim
      | _ => exact keepsDep_links (by exact trivial) _
    | ctx | res | pub | comp =>
      cases enabled
      exact .refl _
    | _ =>
      rw [(KAct.sem_sameTables enabled rfl).calls]
      exact .refl _

theorem balance_step (h : Balanced D o) (hguard : guard i o a)
    (enabled : a.sem o.mem = some (b, mem)) : ∃ D', Balanced D' (o.acted i a b mem) := by
  cases a with
  | reserve s l => exact reserve_balanced h hguard enabled
  | release s => exact release_balanced h hguard enabled
  | calls a =>
    cases a with
    | setDepMeta id dep => exact setDepMeta_balanced h hguard.2.1 hguard.2.2.1 enabled
    | remove remover id => exact remove_balanced h hguard enabled
    | _ => exact ⟨D, uncounted_balanced h (by exact trivial) enabled⟩
  | _ => exact ⟨D, uncounted_balanced h (by exact trivial) enabled⟩

theorem guard_owner (hguard : guard i o a) (hu : unlocks a b ()) : holds.On i () o.trace := by
  cases a with
  | unlockAdmit => exact hguard
  | _ => exact hu.elim

theorem limits_step (hguard : guard i o a) (enabled : a.sem o.mem = some (b, mem)) :
    limitsAfter i mem o.trace a b := by
  cases a with
  | reserve s l =>
    cases b with
    | error e => trivial
    | ok u =>
      have reply : (o.mem.usage.reserve s l o.mem.calls.inflightCount).1 = .ok u :=
        congrArg Prod.fst (Option.some.inj enabled)
      have after : (o.mem.usage.reserve s l o.mem.calls.inflightCount).2 = mem.usage :=
        congrArg (fun r => r.2.usage) (Option.some.inj enabled)
      obtain ⟨usage, session, total⟩ := reserve_ok reply
      rw [usage] at after
      simp only [limitsAfter, ← after, update_self, Option.getD_some]
      omega
  | calls a =>
    cases a with
    | setDepMeta id dep =>
      cases b with
      | false => trivial
      | true =>
        intro l hl
        have found : (o.mem.calls.get id).isSome = true :=
          congrArg Prod.fst (Option.some.inj enabled)
        have after : (o.mem.calls.setDepMeta id dep).2 = mem.calls :=
          congrArg (fun r => r.2.calls) (Option.some.inj enabled)
        obtain ⟨t, ht⟩ := Option.isSome_iff_exists.mp found
        have few := hguard.2.2.2 l hl
        have count := setDepMeta_tally (openChild dep.parent) ht dep
        rw [openChildrenOf_length, ← after]
        split_ifs at count <;> omega
    | _ => trivial
  | _ => trivial

/-- Actions that attach nothing and open no ticket again. -/
abbrev detached (β : Type) : KAct β → Prop
  | .calls (.setDepMeta _ _) => False
  | .calls (.setState _ state) => state ≠ .admitted
  | _ => True

/-- Issued tickets keep their links, and no parent has more open children. -/
structure KeptLinks (c c' : CallsTable) : Prop where
  linked : ∀ id t', c'.get id = some t' → id < c.nextTicket →
    ∃ t, c.get id = some t ∧ t.dep = t'.dep
  fewer : ∀ parent, tally (openChild parent) c' ≤ tally (openChild parent) c

theorem kept_step (h : detached β a) (enabled : a.sem o.mem = some (b, mem)) :
    KeptLinks o.mem.calls mem.calls := by
  cases a with
  | calls a =>
    cases enabled
    have free : ∀ k, ¬ attaches k a := by
      intro k hk
      cases a <;> first | exact hk.elim | exact h.elim
    have closing : closing _ a := by
      cases a <;> first | exact trivial | exact h
    exact ⟨fun id t' ht old => dep_origin (free id) old ht,
      fun parent => openChild_le free closing _⟩
  | ctx | res | pub | comp =>
    cases enabled
    exact ⟨fun id t' ht _ => ⟨t', ht, rfl⟩, fun _ => Nat.le_refl _⟩
  | _ =>
    rw [(KAct.sem_sameTables enabled rfl).calls]
    exact ⟨fun id t' ht _ => ⟨t', ht, rfl⟩, fun _ => Nat.le_refl _⟩

theorem issued_step (enabled : a.sem o.mem = some (b, mem)) :
    o.mem.calls.nextTicket ≤ mem.calls.nextTicket := by
  cases a with
  | calls a =>
    cases enabled
    exact nextTicket_le a _
  | ctx | res | pub | comp =>
    cases enabled
    exact Nat.le_refl _
  | _ => rw [(KAct.sem_sameTables enabled rfl).calls]

theorem stays_step (kept : ¬ takesOut id a) (enabled : a.sem o.mem = some (b, mem))
    (there : (o.mem.calls.get id).isSome = true) :
    (mem.calls.get id).isSome = true := by
  cases a with
  | calls a =>
    cases enabled
    by_cases hs : steady β a
    · obtain ⟨t, ht⟩ := Option.isSome_iff_exists.mp there
      obtain ⟨t', ht', -⟩ := (steady_sameTickets hs o.mem.calls).forward ht
      exact Option.isSome_iff_exists.mpr ⟨t', ht'⟩
    · cases a with
      | alloc adm =>
        change ((o.mem.calls.alloc adm).2.get id).isSome = true
        rw [CallsTable.alloc_get]
        split_ifs
        · rfl
        · exact there
      | remove remover k =>
        change ((o.mem.calls.remove k).2.get id).isSome = true
        rw [CallsTable.remove_get, if_neg fun he => kept he.symm]
        exact there
      | _ => exact absurd trivial hs
  | ctx | res | pub | comp =>
    cases enabled
    exact there
  | _ => rwa [(KAct.sem_sameTables enabled rfl).calls]

end Balance

/-! ### How far a thread is -/

/-- The ticket of an admission: issued, attached for a session, or found gone. -/
inductive Ticket where
  | none
  | issued (id : TicketId)
  | attached (id : TicketId) (session : String)
  | vanished (id : TicketId)

/-- What a thread owes, whether it has the lock, the children it counted of a parent under it, the
limits it reserved under, its ticket, and whether it was given a reply that cannot be. -/
structure Stage where
  owed : Option String := none
  held : Bool := false
  counted : List (TicketId × Nat) := []
  under : Option OutboundLimits := none
  ticket : Ticket := .none
  lost : Prop := False

namespace Stage

def locked {β : Type} : KAct β → Bool → Bool
  | .lockAdmit, _ => true
  | .unlockAdmit, _ => false
  | _, held => held

def counts {β : Type} : KAct β → β → List (TicketId × Nat) → List (TicketId × Nat)
  | .calls (.openChildrenOf parent), children, counted => (parent, children.length) :: counted
  | .lockAdmit, _, _ | .calls (.setDepMeta _ _), _, _ => []
  | _, _, counted => counted

def reservedUnder {β : Type} : KAct β → β → Option OutboundLimits → Option OutboundLimits
  | .reserve _ l, .ok _, _ => some l
  | _, _, under => under

def ticketAfter {β : Type} (held : Bool) : KAct β → β → Ticket → Ticket
  | .calls (.alloc _), id, t => if held then .issued id else t
  | .calls (.setDepMeta id dep), true, _ => .attached id dep.session
  | .calls (.setDepMeta id _), false, _ => .vanished id
  | .calls (.remove _ _), _, _ | .lockAdmit, _, _ => .none
  | _, _, t => t

/-- An attached child is found when it is taken out, and a vanished one is not. -/
def surprises {β : Type} : Ticket → KAct β → β → Prop
  | .attached _ session, .calls (.remove _ _), r => (r.bind (·.dep)).map (·.session) ≠ some session
  | .vanished _, .calls (.remove _ _), r => r ≠ none
  | _, _, _ => False

def next {β : Type} (s : Stage) (a : KAct β) (b : β) : Stage where
  owed := debtAfter a b s.owed
  held := locked a s.held
  counted := counts a b s.counted
  under := reservedUnder a b s.under
  ticket := ticketAfter s.held a b s.ticket
  lost := s.lost ∨ surprises s.ticket a b

abbrev allows {β : Type} (s : Stage) : KAct β → Prop
  | .reserve _ _ => s.lost ∨ s.owed = none
  | .release session => s.lost ∨ s.owed = some session
  | .calls (.setDepMeta id dep) => s.lost ∨ s.held = true ∧ s.owed = some dep.session ∧
      s.ticket = .issued id ∧
      ∃ l n, s.under = some l ∧ (dep.parent, n) ∈ s.counted ∧ n < l.maxChildrenPerParent
  | .calls (.remove _ id) => s.lost ∨ (s.owed = none ∧ s.ticket = .none) ∨ s.held = true ∧
      ((∃ session, s.ticket = .attached id session ∧ s.owed = none) ∨ s.ticket = .vanished id)
  | .calls (.setState _ state) => s.lost ∨ state ≠ .admitted
  | .unlockAdmit => s.lost ∨ s.held = true
  | _ => True

end Stage

/-- Whoever returns owes nothing. -/
def stages (depth : Nat) : Protocol (kernel depth) Stage where
  idle := {}
  enter _ := {}
  allows := Stage.allows
  next := Stage.next
  leaves _ _ s := s.lost ∨ s.owed = none

section Operations

variable {s : Stage} {x : Option String} {α β : Type} {a : KAct β} {p : KProg α}
  {again : KProg Unit}

theorem lost_follows (h : s.lost) (p : KProg α) :
    (stages depth).Follows p (fun _ s => s.lost) s := by
  induction p generalizing s with
  | pure value => exact h
  | blocked => trivial
  | act a rest ih =>
    refine ⟨?_, fun reply => ih reply (.inl h)⟩
    cases a with
    | reserve | release | unlockAdmit => exact .inl h
    | calls a => cases a <;> first | exact .inl h | exact trivial
    | _ => exact trivial

/-- Outside the lock, with no ticket and this reservation owed. -/
structure Clear (x : Option String) (s : Stage) : Prop where
  owed : s.owed = x
  held : s.held = false
  ticket : s.ticket = .none

theorem Clear.serving (h : Clear x s) (ha : serving β a) :
    s.allows a ∧ ∀ b, Clear x (s.next a b) := by
  obtain ⟨owed, held, counted, under, ticket, lost⟩ := s
  obtain ⟨⟨⟩, ⟨⟩, ⟨⟩⟩ := h
  cases a with
  | reserve | release | lockAdmit | unlockAdmit => exact ha.elim
  | calls a => cases a <;> first | exact ha.elim | exact ⟨trivial, fun _ => ⟨rfl, rfl, rfl⟩⟩
  | _ => exact ⟨trivial, fun _ => ⟨rfl, rfl, rfl⟩⟩

theorem Clear.lifecycle (h : Clear x s) (hp : Lifecycle p) :
    (stages depth).Follows p (fun _ => Clear x) s :=
  .within hp (fun _ _ _ ha h => h.serving (KAct.within ha)) (fun _ _ _ none => none.elim) h

theorem concludeTicket_follows (hagain : Lifecycle again) (r : TicketRecord)
    (h : Clear (r.dep.map (·.session)) s) :
    (stages depth).Follows (concludeTicket again r) (fun _ => Clear none) s := by
  have finalize := maybeFinalize_lifecycle hagain r.instanceId
  refine (h.lifecycle
    (revokeTicketDescendants_withdraws ..).relax).bind fun _ s h => ?_
  cases dep : r.dep with
  | none =>
    rw [dep] at h
    exact h.lifecycle finalize
  | some dep' =>
    rw [dep] at h
    exact .act (.inr h.owed) fun _ => Clear.lifecycle ⟨rfl, h.held, h.ticket⟩ finalize

/-- Taking a ticket out leaves its reservation owed. -/
theorem Clear.removed (h : Clear none s) (remover : Remover) (id : TicketId)
    (r : Option TicketRecord) :
    Clear ((r.bind (·.dep)).map (·.session)) (s.next (KAct.calls (.remove remover id)) r) := by
  refine ⟨?_, h.held, rfl⟩
  cases r with
  | none => exact h.owed
  | some r =>
    change (r.dep.map (·.session)).or s.owed = _
    rw [h.owed, Option.or_none]
    rfl

theorem settleTicket_follows (hagain : Lifecycle again) (ticket : TicketId) (h : Clear none s) :
    (stages depth).Follows (settleTicket again ticket) (fun _ => Clear none) s := by
  refine .act (.inr (.inl ⟨h.owed, h.ticket⟩)) fun r => ?_
  have removed := h.removed .settle ticket r
  cases r with
  | none => exact removed
  | some r =>
    refine (concludeTicket_follows hagain r removed).bind fun _ _ h => ?_
    exact h

theorem callClose_follows (hagain : Lifecycle again) (ticket : TicketId) (h : Clear none s) :
    (stages depth).Follows (callClose again ticket) (fun _ => Clear none) s := by
  refine .act (.inr (.inl ⟨h.owed, h.ticket⟩)) fun r => ?_
  have removed := h.removed .close ticket r
  cases r with
  | none => exact removed
  | some r =>
    refine .act trivial fun _ => ?_
    change (stages depth).Follows (Prog.bind (concludeTicket again r) _) _ _
    exact .bind (concludeTicket_follows hagain r ⟨removed.owed, removed.held, removed.ticket⟩)
      fun _ _ h => h

theorem Clear.serves (h : Clear none s) (hp : Serves p) :
    (stages depth).Follows p (fun _ => Clear none) s := by
  refine .within hp (fun _ _ _ ha h => h.serving ha) (fun β q s hq h => ?_) h
  cases hq with
  | settle n ticket => exact settleTicket_follows (reconcile_lifecycle n) ticket h
  | close n ticket => exact callClose_follows (reconcile_lifecycle n) ticket h

theorem Clear.tickets (h : Clear none s) (hp : Tickets p) :
    (stages depth).Follows p (fun _ => Clear none) s := by
  refine .within hp (fun β a s ha h => ?_) (fun _ _ _ none => none.elim) h
  obtain ⟨owed, held, counted, under, ticket, lost⟩ := s
  obtain ⟨⟨⟩, ⟨⟩, ⟨⟩⟩ := h
  cases a with
  | reserve | release | lockAdmit | unlockAdmit => exact ha.elim
  | calls a =>
    cases a <;> first
      | exact ha.elim
      | exact ⟨trivial, fun _ => ⟨rfl, rfl, rfl⟩⟩
      | exact ⟨.inr ha, fun _ => ⟨rfl, rfl, rfl⟩⟩
  | _ => exact ⟨trivial, fun _ => ⟨rfl, rfl, rfl⟩⟩

/-! ### Admission -/

variable {under : Option OutboundLimits} {ticket : Ticket} {counted : List (TicketId × Nat)}
  {req : DepAdmit} {v : Validated}

/-- Under the lock. -/
structure Inside (x : Option String) (under : Option OutboundLimits) (ticket : Ticket)
    (counted : List (TicketId × Nat)) (s : Stage) : Prop where
  owed : s.owed = x
  held : s.held = true
  under : s.under = under
  ticket : s.ticket = ticket
  counted : counted ⊆ s.counted

theorem Inside.look (h : Inside x under ticket counted s) (ha : inspecting β a) :
    s.allows a ∧ ∀ b, Inside x under ticket counted (s.next a b) := by
  obtain ⟨owed, held, under, ticket, listed⟩ := h
  cases a with
  | reserve | release | lockAdmit | unlockAdmit => exact ha.elim
  | calls a =>
    cases a with
    | openChildrenOf =>
      exact ⟨trivial, fun _ => ⟨owed, held, under, ticket, List.subset_cons_of_subset _ listed⟩⟩
    | _ => first | exact ha.elim | exact ⟨trivial, fun _ => ⟨owed, held, under, ticket, listed⟩⟩
  | _ => exact ⟨trivial, fun _ => ⟨owed, held, under, ticket, listed⟩⟩

theorem Inside.inspects (h : Inside x under ticket counted s) (hp : Inspects p) :
    (stages depth).Follows p (fun _ => Inside x under ticket counted) s :=
  .within hp (fun _ _ _ ha h => h.look ha) (fun _ _ _ none => none.elim) h

/-- A validation that passes has found room for another child of the parent. -/
def Found (req : DepAdmit) (r : Except DepDeny Validated) (s : Stage) : Prop :=
  Inside none none .none [] s ∧ ∀ v, r = .ok v →
    ∃ n, (req.parent, n) ∈ s.counted ∧ n < v.limits.maxChildrenPerParent

theorem Found.denied (h : Inside none none .none [] s) (e : DepDeny) : Found req (.error e) s :=
  ⟨h, fun _ ok => by cases ok⟩

theorem validateBound_follows (parent : TicketRecord) (binding : DepBinding)
    (h : Inside none none .none [] s) :
    (stages depth).Follows (validateBound req parent binding) (Found req) s := by
  refine (h.inspects (validateConsumer_inspects req)).bind fun consumer s h => ?_
  cases consumer with
  | error e => exact .denied h e
  | ok consumer =>
    refine (h.inspects (validateProvider_inspects ..)).bind fun provider s h => ?_
    cases provider with
    | error e => exact .denied h e
    | ok provider =>
      refine (h.inspects (validateAuthority_inspects ..)).bind fun authority s h => ?_
      cases authority with
      | error e => exact .denied h e
      | ok authority =>
        refine .act trivial fun children => ?_
        have seen := (h.look (a := .calls (.openChildrenOf req.parent)) trivial).2 children
        change (stages depth).Follows (if _ then _ else _) _ _
        split_ifs with full
        · exact .denied seen _
        · refine ⟨seen, ?_⟩
          rintro _ ⟨⟩
          exact ⟨_, List.mem_cons_self .., Nat.lt_of_not_le full⟩

theorem validate_follows (h : Inside none none .none [] s) :
    (stages depth).Follows (validate req) (Found req) s := by
  refine .act trivial fun parent => ?_
  have h := (h.look (a := .calls (.get req.parent)) trivial).2 parent
  cases parent with
  | none => exact .denied h _
  | some parent =>
    change (stages depth).Follows (if _ then _ else if _ then _ else _) _ _
    split_ifs
    · exact .denied h _
    · exact .denied h _
    refine .act trivial fun binding => ?_
    have h := (h.look (a := .comp (.binding req.binding)) trivial).2 binding
    cases binding with
    | none => exact .denied h _
    | some binding =>
      change (stages depth).Follows (if _ then _ else _) _ _
      split_ifs
      · exact .denied h _
      · exact validateBound_follows parent binding h

/-- The lock is held and nothing is owed. -/
def Settled (s : Stage) : Prop := s.lost ∨ s.owed = none ∧ s.held = true

theorem rollback_follows (held : s.held = true) (id : TicketId)
    (child : (s.owed = none ∧ s.ticket = .attached id req.session) ∨
      s.owed = some req.session ∧ s.ticket = .vanished id) :
    (stages depth).Follows (rollback req id) (fun _ => Settled) s := by
  refine .act (.inr (.inr ⟨held, child.imp (fun h => ⟨_, h.2, h.1⟩) fun h => h.2⟩)) fun r => ?_
  by_cases lost : (s.next (KAct.calls (.remove .rollback id)) r).lost
  · exact (lost_follows lost _).mono fun _ _ lost => .inl lost
  · refine .act (.inr ?_) fun _ => .inr ⟨rfl, held⟩
    have real : ¬ Stage.surprises s.ticket (KAct.calls (.remove .rollback id)) r :=
      fun odd => lost (.inr odd)
    rcases child with ⟨owed, ticket⟩ | ⟨owed, ticket⟩
    · rw [ticket] at real
      have found : (r.bind (·.dep)).map (·.session) = some req.session := not_not.mp real
      cases r with
      | none => cases found
      | some t =>
        change (t.dep.map (·.session)).or s.owed = _
        rw [show t.dep.map (·.session) = some req.session from found]
        rfl
    · rw [ticket] at real
      have none : r = none := not_not.mp real
      subst none
      exact owed

theorem registerChild_follows {n : Nat}
    (h : Inside (some req.session) (some v.limits) .none [(req.parent, n)] s)
    (room : n < v.limits.maxChildrenPerParent) :
    (stages depth).Follows (registerChild req v) (fun _ => Settled) s := by
  refine .act trivial fun now => .act trivial fun epoch => .act trivial fun id =>
    .act trivial fun _ => .act (.inr ⟨h.held, h.owed, if_pos h.held, _, n, h.under,
      h.counted (List.mem_singleton_self _), room⟩) fun attached => ?_
  cases attached with
  | false =>
    change (stages depth).Follows (Prog.bind (rollback req id) _) _ _
    refine .bind (rollback_follows ?_ id (.inr ⟨?_, ?_⟩)) fun _ _ h => ?_
    exacts [h.held, h.owed, rfl, h]
  | true =>
    change (stages depth).Follows (Prog.bind (stillValid req v) _) _ _
    refine .bind (Q := fun _ => Inside none (some v.limits) (.attached id req.session) [])
      (Inside.inspects ⟨rfl, h.held, h.under, rfl, List.nil_subset _⟩ (stillValid_inspects ..))
      fun valid s h => ?_
    cases valid with
    | true =>
      change (stages depth).Follows (Prog.act (.journal _) _) _ _
      exact .act trivial fun _ => .inr ⟨h.owed, h.held⟩
    | false =>
      change (stages depth).Follows (Prog.bind (rollback req id) _) _ _
      exact (rollback_follows h.held id (.inl ⟨h.owed, h.ticket⟩)).bind fun _ s h =>
        .act trivial fun _ => h.imp .inl fun h => h

theorem dependencyAdmit_follows (req : DepAdmit) : (stages depth).Follows (dependencyAdmit req)
    (fun _ s => s.lost ∨ s.owed = none) {} := by
  unfold dependencyAdmit
  split_ifs
  · exact .inr rfl
  · exact .inr rfl
  refine .act trivial fun _ => ?_
  have body : (stages depth).Follows (admitLocked req) (fun _ => Settled)
      (Stage.next {} KAct.lockAdmit ()) := by
    refine (validate_follows ⟨rfl, rfl, rfl, rfl, List.nil_subset _⟩).bind fun r s h => ?_
    obtain ⟨h, room⟩ := h
    cases r with
    | error e => exact .inr ⟨h.owed, h.held⟩
    | ok v =>
      obtain ⟨n, counted, room⟩ := room v rfl
      refine .act (.inr h.owed) fun r => ?_
      cases r with
      | error reason => exact .inr ⟨h.owed, h.held⟩
      | ok _ =>
        exact registerChild_follows (n := n) ⟨rfl, h.held, rfl, h.ticket,
          List.cons_subset.mpr ⟨counted, List.nil_subset _⟩⟩ room
  refine body.bind fun out s h => .act ?_ fun _ => ?_
  · exact h.imp id And.right
  · exact h.imp .inl And.left

theorem code_follows (op : Op) : (stages depth).Follows ((kernel depth).code op)
    ((stages depth).leaves op) ((stages depth).enter op) := by
  have clear : Clear none {} := ⟨rfl, rfl, rfl⟩
  by_cases hti : retickets op = true
  · exact (clear.tickets (retickets_tickets hti)).mono fun _ _ h => .inr h.owed
  cases hs : special op with
  | false => exact (clear.serves (operation_serves hs depth)).mono fun _ _ h => .inr h.owed
  | true =>
    cases op with
    | dependencyAdmit req => exact (dependencyAdmit_follows req).bind fun _ _ h => h
    | commitEffect | dependencyAccept | dependencyTimeout | grantOutbound | revokeOutbound =>
      exact absurd rfl hti
    | _ => cases hs

end Operations

/-! ### What the stages stand for -/

def Known (o : KObs depth) (i : Nat) : Ticket → Prop
  | .none => True
  | .issued id => id < o.mem.calls.nextTicket ∧ ∀ t, o.mem.calls.get id = some t → t.dep = none
  | .attached id session => attached.During i id o.trace ∧ id < o.mem.calls.nextTicket ∧
      ∃ t d, o.mem.calls.get id = some t ∧ t.dep = some d ∧ d.session = session
  | .vanished id => id < o.mem.calls.nextTicket ∧ o.mem.calls.get id = none

structure Holds (o : KObs depth) (i : Nat) (s : Stage) : Prop where
  owed : debt.of i o.trace = s.owed
  real : ¬ s.lost
  under : ∀ l, reserved.During i l o.trace → s.under = some l
  held : s.held = true → holds.On i () o.trace
  counted : s.held = true → ∀ x ∈ s.counted, tally (openChild x.1) o.mem.calls ≤ x.2
  ticket : s.held = true → Known o i s.ticket

structure Inv (st : Nat → Stage) (o : KObs depth) : Prop where
  locked : Exclusive o
  balance : ∃ D, Balanced D o
  limits : WithinLimits o
  holds : ∀ i, Holds o i (st i)

section Runs

variable {i j : Nat} {β : Type} {a : KAct β} {b : β} {mem : KState} {s : Stage}
  {st : Nat → Stage}

/-- Nothing is attached to what was issued, and no child of the thread is taken out. -/
theorem Known.kept {t : Ticket} {o' : KObs depth} (h : Known o i t)
    (kept : KeptLinks o.mem.calls o'.mem.calls)
    (issued : o.mem.calls.nextTicket ≤ o'.mem.calls.nextTicket)
    (stays : ∀ id, attached.During i id o.trace → attached.During i id o'.trace ∧
      ((o.mem.calls.get id).isSome = true → (o'.mem.calls.get id).isSome = true)) :
    Known o' i t := by
  cases t with
  | none => trivial
  | issued id =>
    obtain ⟨old, free⟩ := h
    refine ⟨old.trans_le issued, fun t' ht' => ?_⟩
    obtain ⟨t, ht, same⟩ := kept.linked id t' ht' old
    rw [← same, free t ht]
  | attached id session =>
    obtain ⟨mine, old, t, d, ht, hd, named⟩ := h
    obtain ⟨mine, there⟩ := stays id mine
    obtain ⟨t', ht'⟩ := Option.isSome_iff_exists.mp (there (ht ▸ rfl))
    obtain ⟨t₁, ht₁, same⟩ := kept.linked id t' ht' old
    obtain rfl : t = t₁ := Option.some.inj (ht.symm.trans ht₁)
    exact ⟨mine, old.trans_le issued, t', d, ht', same ▸ hd, named⟩
  | vanished id =>
    obtain ⟨old, absent⟩ := h
    refine ⟨old.trans_le issued, Option.eq_none_iff_forall_ne_some.mpr fun t' ht' => ?_⟩
    obtain ⟨t, ht, -⟩ := kept.linked id t' ht' old
    rw [absent] at ht
    cases ht

theorem Inv.guard (inv : Inv st o) (allows : (st i).allows a) : guard i o a := by
  obtain ⟨owed, real, under, held, counted, ticket⟩ := inv.holds i
  cases a with
  | reserve | release => exact owed.trans (allows.resolve_left real)
  | unlockAdmit => exact held (allows.resolve_left real)
  | calls c =>
    cases c with
    | setDepMeta id dep =>
      obtain ⟨inside, owes, fresh, l, n, limits, seen, room⟩ := allows.resolve_left real
      have known := ticket inside
      rw [fresh] at known
      refine ⟨held inside, owed.trans owes, known.2, fun l' now => ?_⟩
      obtain rfl : l = l' := Option.some.inj (limits.symm.trans (under l' now))
      exact (counted inside _ seen).trans_lt room
    | remove remover id =>
      rcases allows.resolve_left real with ⟨clear, -⟩ | ⟨inside, ⟨session, -, clear⟩ | gone⟩
      · exact .inl (owed.trans clear)
      · exact .inl (owed.trans clear)
      · have known := ticket inside
        rw [gone] at known
        exact .inr known.2
    | setState => exact allows.resolve_left real
    | _ => exact trivial
  | _ => exact trivial

abbrev attaching (β : Type) : KAct β → Prop
  | .calls (.setDepMeta _ _) => True
  | _ => False

theorem detached_of_allows (allows : s.allows a) (real : ¬ s.lost)
    (out : attaching β a → ¬ s.held = true) : detached β a := by
  cases a with
  | calls c =>
    cases c with
    | setDepMeta => exact out trivial (allows.resolve_left real).1
    | setState => exact allows.resolve_left real
    | _ => exact trivial
  | _ => exact trivial

theorem Inv.foreign (inv : Inv st o) (allows : (st i).allows a)
    (enabled : a.sem o.mem = some (b, mem)) (ok : returnedFirst o (.act i a b)) (other : j ≠ i) :
    Holds (o.acted i a b mem) j (st j) := by
  have h := inv.holds j
  have foreign : (Label.act i a b : KLabel depth).thread ≠ some j := by
    simpa [Label.thread] using other.symm
  have kept (inside : (st j).held = true) : KeptLinks o.mem.calls mem.calls :=
    kept_step (detached_of_allows allows (inv.holds i).real fun _ mine =>
      inv.locked.alone (h.held inside) other.symm ((inv.holds i).held mine)) enabled
  exact {
    owed := (Gauge.of_foreign foreign).trans h.owed
    real := h.real
    under := fun l now => h.under l ((Mark.during_foreign foreign).mp now)
    held := fun inside => holds_act.mpr (.inr ⟨h.held inside, fun mine => other mine.1.symm⟩)
    counted := fun inside x there => ((kept inside).fewer x.1).trans (h.counted inside x there)
    ticket := fun inside => (h.ticket inside).kept (kept inside) (issued_step enabled) fun id now =>
      ⟨(Mark.during_foreign foreign).mpr now,
        stays_step (fun out => ok j id other out now) enabled⟩ }

/-- The reply of a removal under the lock is what is known of the ticket. -/
theorem Holds.unsurprised (h : Holds o i s) (allows : s.allows a)
    (enabled : a.sem o.mem = some (b, mem)) : ¬ Stage.surprises s.ticket a b := by
  cases a with
  | calls c =>
    cases c with
    | remove remover id =>
      cases enabled
      rcases allows.resolve_left h.real with ⟨-, none⟩ | ⟨inside, ⟨session, mine, -⟩ | gone⟩
      · rw [none]
        exact fun no => no
      · have known := h.ticket inside
        rw [mine] at known ⊢
        obtain ⟨-, -, t, d, ht, hd, named⟩ := known
        change ¬ ((o.mem.calls.get id).bind (·.dep)).map (·.session) ≠ some session
        simp [ht, hd, named]
      · have known := h.ticket inside
        rw [gone] at known ⊢
        exact not_not.mpr known.2
    | _ => cases s.ticket <;> exact id
  | _ => cases s.ticket <;> exact id

theorem Holds.reserved (h : Holds o i s) (l : OutboundLimits)
    (now : reserved.During i l (o.acted i a b mem).trace) :
    Stage.reservedUnder a b s.under = some l := by
  rcases Mark.during_own.mp now with sets | ⟨before, kept⟩
  · cases a with
    | reserve =>
      cases b with
      | error => exact sets.elim
      | ok => exact congrArg some sets
    | _ => exact sets.elim
  · cases a with
    | reserve => exact absurd trivial kept
    | _ => exact h.under l before

theorem Holds.locked (h : Holds o i s) (inside : Stage.locked a s.held = true) :
    holds.On i () (o.acted i a b mem).trace := by
  cases a with
  | lockAdmit => exact holds_act.mpr (.inl ⟨rfl, trivial⟩)
  | unlockAdmit => cases inside
  | _ => exact holds_act.mpr (.inr ⟨h.held inside, fun no => no.2⟩)

theorem Holds.counts (h : Holds o i s) (allows : s.allows a)
    (enabled : a.sem o.mem = some (b, mem)) (inside : Stage.locked a s.held = true)
    (x : TicketId × Nat) (there : x ∈ Stage.counts a b s.counted) :
    tally (openChild x.1) mem.calls ≤ x.2 := by
  have fewer (plain : ¬ attaching β a) (inside : s.held = true) (there : x ∈ s.counted) :=
    ((kept_step (detached_of_allows allows h.real fun no => absurd no plain) enabled).fewer
      x.1).trans (h.counted inside x there)
  cases a with
  | lockAdmit => cases there
  | unlockAdmit => cases inside
  | calls c =>
    cases c with
    | setDepMeta => cases there
    | openChildrenOf parent =>
      rcases List.mem_cons.mp there with rfl | there
      · cases enabled
        exact (openChildrenOf_length ..).ge
      · exact fewer id inside there
    | _ => exact fewer id inside there
  | _ => exact fewer id inside there

theorem Holds.knows (h : Holds o i s) (allows : s.allows a)
    (enabled : a.sem o.mem = some (b, mem)) (inside : Stage.locked a s.held = true) :
    Known (o.acted i a b mem) i (Stage.ticketAfter s.held a b s.ticket) := by
  have kept (plain : ¬ attaching β a) (stays : ∀ id, ¬ takesOut id a) (inside : s.held = true) :
      Known (o.acted i a b mem) i s.ticket :=
    (h.ticket inside).kept
      (kept_step (detached_of_allows allows h.real fun no => absurd no plain) enabled)
      (issued_step enabled)
      fun id now => ⟨Mark.ever_during now, stays_step (stays id) enabled⟩
  cases a with
  | lockAdmit => exact trivial
  | unlockAdmit => cases inside
  | calls c =>
    cases c with
    | alloc adm =>
      rw [Stage.ticketAfter, if_pos (show s.held = true from inside)]
      cases enabled
      refine ⟨Nat.lt_succ_self _, fun t ht => ?_⟩
      have fresh := CallsTable.alloc_get o.mem.calls adm o.mem.calls.nextTicket
      rw [if_pos rfl] at fresh
      cases fresh.symm.trans ht
      rfl
    | setDepMeta id dep =>
      obtain ⟨-, -, mine, -⟩ := allows.resolve_left h.real
      have known := h.ticket inside
      rw [mine] at known
      have found : (o.mem.calls.get id).isSome = b := congrArg Prod.fst (Option.some.inj enabled)
      have after : (o.mem.calls.setDepMeta id dep).2 = mem.calls :=
        congrArg (fun r => r.2.calls) (Option.some.inj enabled)
      have hget : mem.calls.get id =
          (o.mem.calls.get id).map fun t => { t with dep := some dep } := by
        rw [← after, CallsTable.setDepMeta, CallsTable.amend_get]
        cases ht : o.mem.calls.get id with
        | none => rfl
        | some t => simp [CallsTable.get_id ht]
      have old := known.1.trans_le (issued_step (o := o) enabled)
      cases b with
      | true =>
        obtain ⟨t, ht⟩ := Option.isSome_iff_exists.mp found
        rw [ht] at hget
        exact ⟨Mark.during_own.mpr (.inl ⟨rfl, rfl⟩), old, _, dep, hget, rfl, rfl⟩
      | false =>
        rw [Option.isSome_eq_false_iff, Option.isNone_iff_eq_none] at found
        rw [found] at hget
        exact ⟨old, hget⟩
    | remove => exact trivial
    | _ => exact kept id (fun _ => id) inside
  | _ => exact kept id (fun _ => id) inside

theorem Inv.acted (inv : Inv st o) (allows : (st i).allows a)
    (enabled : a.sem o.mem = some (b, mem)) (ok : returnedFirst o (.act i a b)) :
    Inv (update st i ((st i).next a b)) (o.acted i a b mem) := by
  obtain ⟨D, balanced⟩ := inv.balance
  have guard := inv.guard allows
  refine ⟨inv.locked.acted (guard_owner guard) enabled, balance_step balanced guard enabled,
    limits_step guard enabled, fun j => ?_⟩
  by_cases own : j = i
  · subst own
    have h := inv.holds j
    rw [update_self]
    exact {
      owed := by rw [debt_acted, if_pos rfl, h.owed]; rfl
      real := not_or.mpr ⟨h.real, h.unsurprised allows enabled⟩
      under := h.reserved
      held := h.locked
      counted := h.counts allows enabled
      ticket := h.knows allows enabled }
  · rw [update_of_ne own]
    exact inv.foreign allows enabled ok own

/-- A thread comes and goes owing nothing. -/
theorem Inv.log (inv : Inv st o) (own : label.thread = some i)
    (quiet : ∀ (i : Nat) (β : Type) (a : KAct β) b, label ≠ .act i a b)
    (clear : (st i).owed = none) (past : ∀ l, ¬ reserved.During i l (label :: o.trace)) :
    Inv (update st i {}) (o.log label) := by
  obtain ⟨D, balanced⟩ := inv.balance
  refine ⟨inv.locked.log quiet, ⟨D, fun i s => ?_, balanced.total, balanced.session,
    balanced.positive⟩, ?_, fun j => ?_⟩
  · rw [Obs.log_trace, Gauge.of_log quiet]
    exact balanced.debts i s
  · cases label with
    | act i a b => exact absurd rfl (quiet i _ a b)
    | start | done | env => trivial
  · have h := inv.holds j
    have owed : debt.of j (o.log label).trace = (st j).owed := by
      rw [Obs.log_trace, Gauge.of_log quiet]
      exact h.owed
    by_cases mine : j = i
    · subst mine
      rw [update_self]
      exact ⟨owed.trans clear, id, fun l now => absurd now (past l), nofun, nofun, nofun⟩
    · rw [update_of_ne mine]
      have foreign : label.thread ≠ some j := fun same =>
        mine (Option.some.inj (same.symm.trans own))
      refine ⟨owed, h.real, fun l now => h.under l ((Mark.during_foreign foreign).mp now),
        fun inside => (Mark.on_log quiet).mpr (h.held inside), h.counted,
        fun inside => (h.ticket inside).kept
          ⟨fun _ t' ht _ => ⟨t', ht, rfl⟩, fun _ => Nat.le_refl _⟩ (Nat.le_refl _)
          fun id now => ⟨(Mark.during_foreign foreign).mpr now, fun there => there⟩⟩

theorem preserved : (stages depth).Preserved returnedFirst Inv where
  start _ inv idle _ := inv.log rfl (by simp) (by rw [idle]; rfl) fun _ => Mark.not_during_start
  act _ inv allows enabled ok := inv.acted allows enabled ok
  done {st o i op res} _ inv leaves _ := inv.log rfl (by simp)
    (leaves.resolve_left (inv.holds i).real) fun _ => Mark.not_during_done
  env {st o event} inv _ := by
    obtain ⟨D, balanced⟩ := inv.balance
    cases event <;> exact ⟨inv.locked, ⟨D, balanced.debts, balanced.total, balanced.session,
      balanced.positive⟩, trivial, fun i => ⟨(inv.holds i).owed, (inv.holds i).real,
      (inv.holds i).under, (inv.holds i).held, (inv.holds i).counted, (inv.holds i).ticket⟩⟩

theorem inv_boot {m₀ : KState} (exact₀ : Exact m₀) :
    Inv (fun _ => {}) (⟨m₀, []⟩ : KObs depth) where
  locked _ hi := hi.elim
  balance := by
    refine ⟨∅, fun i s => ⟨nofun, nofun⟩, exact₀.total, fun s => ?_, fun s => ?_⟩
    · rw [exact₀.session]
      split_ifs with hz
      · simp [hz]
      · rfl
    · rw [exact₀.session]
      split_ifs with hz
      · exact nofun
      · simpa using hz
  limits := trivial
  holds _ := ⟨rfl, id, nofun, nofun, nofun, nofun⟩

theorem Balanced.exact (h : Balanced ∅ o) : Exact o.mem where
  total := h.total
  session s := by
    have session := h.session s
    have positive := h.positive s
    simp only [Finset.filter_empty, Finset.card_empty, Nat.add_zero] at session
    rw [← session]
    cases hs : o.mem.usage.perSession s with
    | none => rfl
    | some n =>
      rw [hs] at positive
      rw [Option.getD_some, if_neg fun hz => positive (by rw [hz])]

/-- The thread is between its reservation and the attachment of its child, or between taking a
child out and giving its reservation back. -/
def Midway (i : Nat) (o : Obs (kernel depth)) : Prop := debt.of i o.trace ≠ none

theorem boot_exact (epoch : Nat) : Exact (KState.boot epoch) := ⟨rfl, fun _ => rfl⟩

/-- A run of one thread meets the condition. -/
theorem returnedFirst_of_solo (h : o.solo 0 = true) (own : label.thread = some 0) :
    returnedFirst o label := by
  cases label with
  | act j a b =>
    cases own
    exact fun i id hi _ => Mark.not_during_of_absent (Obs.solo_absent h hi)
  | start | done | env => trivial

def inClose : Option Op → Bool
  | some (.callClose _) => true
  | _ => false

end Runs

end MatrixRuntime.QuotaBalance
