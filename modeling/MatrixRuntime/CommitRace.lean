import MatrixRuntime.OperationFrame
import MatrixRuntime.ThreadStates
import MatrixRuntime.TicketFrame
import MatrixRuntime.TraceMarks

/-! The commit boundary under interleaving. A commit reads its ticket as admitted, checks
its parent, its consumer and its owner, pushes the effect and writes `Committed`, each
in a critical section of its own. When no other thread ends the ticket or pushes for
it between the read and the push, and no other commit reads it between the push and
the write, a ticket gets at most one effect, and only while it is admitted. -/

namespace MatrixRuntime.CommitRace

open KernelTickets KernelState KernelActions KernelReconcile InterleavedProgram
open InterleavedMachine KernelOperations OperationFrame TicketFrame TraceMarks
open KernelCalls DependencyAdmission CallFrame JsonValue ThreadStates Function

variable {depth : Nat} {o : KObs depth} {label : KLabel depth}
  {state : TicketState}

def looks {β : Type} : KAct β → β → TicketId → Prop
  | .calls (.get k), r, id => k = id ∧ r.any (·.isOpen) = true
  | _, _, _ => False

def pushesFor {β : Type} (id : TicketId) : KAct β → Bool
  | .calls (.pushEffect k _ _ _ _ _) => decide (k = id)
  | _ => false

def writes {β : Type} (id : TicketId) : KAct β → Prop
  | .calls (.setState k _) => k = id
  | _ => False

/-- The thread found the ticket admitted, and has neither pushed for it nor written it since. -/
def looked : Mark KAct TicketId := ⟨looks, fun a _ id => pushesFor id a = true ∨ writes id a⟩

/-- The thread pushed an effect for the ticket, and has not written it since. -/
def pushed : Mark KAct TicketId := ⟨fun a _ id => pushesFor id a = true, fun a _ id => writes id a⟩

/-- The thread is in a commit on the ticket. -/
def Committing (i : Nat) (id : TicketId) (o : Obs (kernel depth)) : Prop :=
  ∃ kind payload, inCall i o.trace = some (.commitEffect id kind payload)

/-- The thread is in a commit, between its read of the ticket and its push. -/
def Reading (i : Nat) (id : TicketId) (o : Obs (kernel depth)) : Prop :=
  Committing i id o ∧ looked.During i id o.trace

/-- The thread is in a commit, between its push and its write. -/
def Writing (i : Nat) (id : TicketId) (o : Obs (kernel depth)) : Prop :=
  pushed.During i id o.trace

/-- The action leaves the ticket without the state `Admitted`. -/
def ends {β : Type} (s : KState) (id : TicketId) (a : KAct β) : Prop :=
  ∃ r, a.sem s = some r ∧ ¬ Open r.2.calls id

/-- Between a commit's read and its push no other thread ends the ticket or pushes for it, and
between its push and its write no other commit finds the ticket admitted. -/
def commitsAlone (o : Obs (kernel depth)) : Label (kernel depth) → Prop
  | .act j a b => ∀ i id, i ≠ j →
    (Reading i id o → pushesFor id a = false ∧ ¬ ends o.mem id a) ∧
    (Writing i id o → Committing j id o → ¬ looks a b id)
  | _ => True

def isPush (id : TicketId) : Label (kernel depth) → Bool
  | .act _ a _ => pushesFor id a
  | _ => false

/-- How many effects were pushed for the ticket. -/
def pushes (id : TicketId) (past : List (Label (kernel depth))) : Nat := past.countP (isPush id)

/-! ### The stages of a commit -/

/-- A thread is in no commit, or in one on a ticket: with no window open, between its read and its
push, or between its push and its write. -/
inductive Stage where
  | off
  | pending (id : TicketId)
  | found (id : TicketId)
  | pushed (id : TicketId)

/-- Actions that push nothing and reopen nothing. -/
abbrev free (β : Type) : KAct β → Prop
  | .calls (.pushEffect _ _ _ _ _ _) => False
  | .calls a => closing β a
  | _ => True

abbrev Free {α : Type} (p : KProg α) : Prop := Composed free (fun _ _ => False) p

variable {o : KObs depth} {i j : Nat} {id : TicketId} {α β : Type} {a : KAct β} {b : β}
  {mem s s' : KState} {p : KProg α} {st : Nat → Stage}

theorem free_not_push (h : free β a) : pushesFor id a = false := by
  cases a with
  | calls a => cases a <;> first | exact h.elim | rfl
  | _ => rfl

theorem free_open_origin (h : free β a) (sem : a.sem s = some (b, s'))
    (old : id < s.calls.nextTicket) (hopen : Open s'.calls id) : Open s.calls id := by
  cases a with
  | calls a =>
    cases sem
    refine open_origin (a := a) ?_ old hopen
    cases a <;> first | exact h.elim | exact h
  | ctx | res | pub | comp =>
    cases sem
    exact hopen
  | _ => rwa [← (KAct.sem_sameTables sem rfl).calls]

theorem setState_not_open (hne : state ≠ .admitted) (c : CallsTable) :
    ¬ Open (c.setState id state).2 id := by
  rw [open_iff]
  rintro ⟨t, ht, hstate⟩
  rw [CallsTable.setState, CallsTable.amend_get] at ht
  obtain ⟨t₀, ht₀, rfl⟩ := Option.map_eq_some_iff.mp ht
  rw [if_pos (decide_eq_true (CallsTable.get_id ht₀))] at hstate
  exact hne hstate

theorem free_written (h : free β a) (sem : a.sem s = some (b, s')) (hw : writes id a) :
    ¬ Open s'.calls id := by
  cases a with
  | calls a =>
    cases a with
    | setState k state =>
      cases hw
      cases sem
      exact setState_not_open h s.calls
    | _ => exact hw.elim
  | _ => exact hw.elim

theorem checking_calls (h : checking β a) (sem : a.sem s = some (b, s')) : s'.calls = s.calls := by
  cases a with
  | calls a => cases a <;> first | exact h.elim | (cases sem; rfl)
  | ctx | res | pub | comp =>
    cases sem
    rfl
  | _ => exact (KAct.sem_sameTables sem rfl).calls

theorem checking_free (h : checking β a) : free β a ∧ ∀ id, ¬ writes id a := by
  cases a with
  | calls a => cases a <;> first | exact h.elim | exact ⟨trivial, fun _ hw => hw⟩
  | _ => exact ⟨trivial, fun _ hw => hw⟩

/-- The write that ends a commit on the ticket. -/
def ending {β : Type} (id : TicketId) : KAct β → Prop
  | .calls (.setState k state) => k = id ∧ state ≠ .admitted
  | _ => False

namespace Stage

abbrev allows {β : Type} (a : KAct β) : Stage → Prop
  | .off => free β a
  | .pending _ => checking β a
  | .found id => checking β a ∨ pushesFor id a = true ∨ ending id a
  | .pushed id => ending id a

/-- What a commit with no window open makes of a read. -/
def reads {β : Type} (id : TicketId) : KAct β → β → Stage
  | .calls (.get k), some t => if k = id ∧ t.isOpen then .found t.id else .pending id
  | _, _ => .pending id

def next {β : Type} (a : KAct β) (b : β) : Stage → Stage
  | .off => .off
  | .pending id => reads id a b
  | .found id => match a with
    | .calls (.pushEffect _ _ _ _ _ _) => .pushed id
    | .calls (.setState _ _) => .pending id
    | _ => .found id
  | .pushed id => match a with
    | .calls (.setState _ _) => .pending id
    | _ => .pushed id

def leaves : Stage → Prop
  | .pushed _ => False
  | _ => True

end Stage

def stages (depth : Nat) : Protocol (kernel depth) Stage where
  idle := .off
  enter
    | .commitEffect id _ _ => .pending id
    | _ => .off
  allows s a := s.allows a
  next s a b := s.next a b
  leaves _ _ := Stage.leaves

theorem off_follows (h : Free p) : (stages depth).Follows p (fun _ s => s = .off) .off :=
  Protocol.Follows.composed h fun _ _ free => ⟨free, fun _ => rfl⟩

theorem found_checks (h : Checks p) :
    (stages depth).Follows p (fun _ s => s = .found id) (.found id) := by
  refine Protocol.Follows.composed h fun β a checks => ⟨.inl checks, fun b => ?_⟩
  cases a with
  | calls a => cases a <;> first | exact checks.elim | rfl
  | _ => rfl

instance : Included ordinary free where

instance : Included marking free where

instance : Included admitting free where

theorem free_of_admits (h : Admits p) : Free p := h.relax

theorem operation_free {op : Op}
    (h : ∀ ticket kind payload, op ≠ .commitEffect ticket kind payload) (n : Nat) :
    Free (op.code (reconcile n)) := by
  cases hs : special op with
  | false => exact (operation_ordinary hs n).relax
  | true =>
    cases op with
    | dependencyAdmit req =>
      exact .map (free_of_admits (dependencyAdmit_admits req))
    | commitEffect ticket kind payload => exact absurd rfl (h ticket kind payload)
    | dependencyAccept | dependencyTimeout | grantOutbound | revokeOutbound =>
      exact (retickets_marks rfl h).relax
    | _ => cases hs

/-- A passed chain check leaves the window open; a late one closes it. -/
theorem depChainCheck_follows {t : TicketRecord} : (stages depth).Follows (depChainCheck t)
    (fun r s => s.leaves ∧ (r = .ok () → s = .found t.id)) (.found t.id) := by
  have refuse : ∀ why e, (stages depth).Follows (reject t why e : KProg (Except ErrorValue Unit))
      (fun r s => s.leaves ∧ (r = .ok () → s = .found t.id)) (.found t.id) :=
    fun why e => .act (.inl trivial) fun _ => ⟨trivial, nofun⟩
  unfold depChainCheck
  cases t.dep with
  | none => exact ⟨trivial, fun _ => rfl⟩
  | some dep =>
    refine (found_checks (deadlinePassed_checks t)).bind fun late s found => ?_
    cases found
    cases late with
    | true => exact .act (.inr (.inr ⟨rfl, nofun⟩)) fun _ => .act trivial fun _ => ⟨trivial, nofun⟩
    | false =>
      refine .act (.inl trivial) fun parent => ?_
      change (stages depth).Follows (if _ then _ else _) _ (.found t.id)
      split
      · refine (found_checks (consumerCurrent_checks _)).bind fun current s found => ?_
        cases found
        cases current with
        | true =>
          refine .act (.inl trivial) fun rev => ?_
          change (stages depth).Follows (if _ then _ else _) _ (.found t.id)
          split
          · exact ⟨trivial, fun _ => rfl⟩
          · exact refuse _ _
        | false => exact refuse _ _
      · exact refuse _ _

theorem commitAdmitted_follows (t : TicketRecord) (kind : String) (payload : Json) :
    (stages depth).Follows (commitAdmitted t kind payload) (fun _ => Stage.leaves)
      (.found t.id) := by
  refine depChainCheck_follows.bind fun chain s checked => ?_
  cases chain with
  | error e => exact checked.1
  | ok _ =>
    cases checked.2 rfl
    refine (found_checks (providerCheck_checks t)).bind fun owner s found => ?_
    cases found
    cases owner with
    | error e => trivial
    | ok _ =>
      exact .act (.inr (.inl (decide_eq_true rfl))) fun _ =>
        .act ⟨rfl, nofun⟩ fun _ => .act trivial fun _ => trivial

theorem commitEffect_follows (kind : String) (payload : Json) :
    (stages depth).Follows (commitEffect id kind payload) (fun _ => Stage.leaves)
      (.pending id) := by
  simp only [commitEffect, calls, Prog.bind_eq, perform_bind]
  refine .act trivial fun r => ?_
  cases r with
  | none => trivial
  | some t =>
    have shut : t.state ≠ .admitted →
        (stages depth).next (.pending id) (.calls (.get id)) (some t) = .pending id :=
      fun state => if_neg fun h => state (of_decide_eq_true h.2)
    cases state : t.state with
    | admitted =>
      have found : (stages depth).next (.pending id) (.calls (.get id)) (some t) = .found t.id :=
        if_pos ⟨rfl, decide_eq_true state⟩
      rw [found]
      simp only [state]
      exact commitAdmitted_follows t kind payload
    | committed =>
      rw [shut (by simp [state])]
      simp only [state]
      trivial
    | cancelled | expired =>
      rw [shut (by simp [state])]
      simp only [state]
      exact .act trivial fun _ => trivial

theorem code_follows (op : Op) : (stages depth).Follows ((kernel depth).code op)
    (fun _ => Stage.leaves) ((stages depth).enter op) := by
  have plain : (∀ ticket kind payload, op ≠ .commitEffect ticket kind payload) →
      (stages depth).Follows ((kernel depth).code op) (fun _ => Stage.leaves) .off :=
    fun other => (off_follows (operation_free other depth)).mono fun _ _ off => off ▸ trivial
  cases op with
  | commitEffect ticket kind payload =>
    exact (commitEffect_follows kind payload).bind fun _ _ leaves => leaves
  | _ => exact plain (by exact nofun)

/-! ### What holds of the tickets -/

theorem pushes_act : pushes id (.act i a b :: o.trace : List (KLabel depth)) =
    pushes id o.trace + if pushesFor id a then 1 else 0 := by
  rw [pushes, List.countP_cons]
  rfl

theorem reading_foreign (h : j ≠ i) :
    Reading i id (o.acted j a b mem) ↔ Reading i id o := by
  have own : (Label.act j a b : KLabel depth).thread ≠ some i := by simpa [Label.thread]
  simp only [Reading, Committing, Obs.acted_trace, inCall_foreign own, Mark.during_foreign own]

theorem writing_foreign (h : j ≠ i) :
    Writing i id (o.acted j a b mem) ↔ Writing i id o := by
  have own : (Label.act j a b : KLabel depth).thread ≠ some i := by simpa [Label.thread]
  simp only [Writing, Obs.acted_trace, Mark.during_foreign own]

theorem reading_own : Reading i id (o.acted i a b mem) ↔ Committing i id o ∧ (looks a b id ∨
    (looked.During i id o.trace ∧ ¬ (pushesFor id a = true ∨ writes id a))) := by
  simp only [Reading, Committing, Obs.acted_trace, inCall_act, Mark.during_own]
  rfl

theorem writing_own : Writing i id (o.acted i a b mem) ↔ pushesFor id a = true ∨
    (Writing i id o ∧ ¬ writes id a) := by
  simp only [Writing, Obs.acted_trace, Mark.during_own]
  rfl

theorem looks_keeps (h : looks a b id) (enabled : a.sem o.mem = some (b, mem)) :
    mem = o.mem ∧ Open o.mem.calls id ∧ pushesFor id a = false := by
  cases a with
  | calls a =>
    cases a with
    | get k =>
      obtain ⟨rfl, hopen⟩ := h
      cases enabled
      exact ⟨rfl, hopen, rfl⟩
    | _ => exact h.elim
  | _ => exact h.elim

theorem nextTicket_mono (enabled : a.sem o.mem = some (b, mem)) :
    o.mem.calls.nextTicket ≤ mem.calls.nextTicket := by
  cases a with
  | calls a =>
    cases enabled
    exact nextTicket_le a _
  | ctx | res | pub | comp =>
    cases enabled
    exact Nat.le_refl _
  | _ => rw [(KAct.sem_sameTables enabled rfl).calls]

theorem pushes_log {id : TicketId}
    (quiet : ∀ (i : Nat) (β : Type) (a : KAct β) b, label ≠ .act i a b) :
    pushes id (label :: o.trace) = pushes id o.trace := by
  cases label with
  | act i a b => exact absurd rfl (quiet i _ a b)
  | start | done | env => rfl

/-- What a thread at its stage can rely on. -/
def Holds (j : Nat) (o : KObs depth) : Stage → Prop
  | .off => True
  | .pending id => Committing j id o
  | .found id => Reading j id o ∧ Open o.mem.calls id ∧ pushes id o.trace = 0
  | .pushed id => Committing j id o ∧ Writing j id o

structure Inv (st : Nat → Stage) (o : KObs depth) : Prop where
  holds : ∀ j, Holds j o (st j)
  once : ∀ id, pushes id o.trace ≠ 0 → pushes id o.trace = 1 ∧ id < o.mem.calls.nextTicket ∧
    (Open o.mem.calls id → ∃ i, st i = .pushed id)

theorem allows_push {s : Stage} (allows : s.allows a) (push : pushesFor id a = true) :
    s = .found id := by
  cases s with
  | off => cases (free_not_push allows).symm.trans push
  | pending => cases (free_not_push (checking_free allows).1).symm.trans push
  | found k =>
    cases a with
    | calls a =>
      cases a with
      | pushEffect l =>
        rcases allows with checks | own | ends
        · exact checks.elim
        · rw [← of_decide_eq_true own, ← of_decide_eq_true push]
        · exact ends.elim
      | _ => cases push
    | _ => cases push
  | pushed k =>
    cases a with
    | calls a => cases a <;> first | exact allows.elim | cases push
    | _ => cases push

theorem ending_free (h : ending id a) : free β a := by
  cases a with
  | calls a => cases a <;> first | exact h.elim | exact h.2
  | _ => exact h.elim

theorem push_calls (push : pushesFor id a = true) (sem : a.sem s = some (b, s')) (k : TicketId) :
    Open s'.calls k ↔ Open s.calls k := by
  cases a with
  | calls a =>
    cases a with
    | pushEffect =>
      cases sem
      exact Iff.rfl
    | _ => cases push
  | _ => cases push

/-- No ticket is reopened. -/
theorem reopens_none {s₀ : Stage} (allows : s₀.allows a) (sem : a.sem s = some (b, s'))
    (old : id < s.calls.nextTicket) (hopen : Open s'.calls id) : Open s.calls id := by
  cases s₀ with
  | off => exact free_open_origin allows sem old hopen
  | pending => exact free_open_origin (checking_free allows).1 sem old hopen
  | found k =>
    rcases allows with checks | push | ends
    · exact free_open_origin (checking_free checks).1 sem old hopen
    · exact (push_calls push sem id).mp hopen
    · exact free_open_origin (ending_free ends) sem old hopen
  | pushed k => exact free_open_origin (ending_free allows) sem old hopen

theorem Holds.foreign {s : Stage} (h : Holds j o s) (other : i ≠ j)
    (sem : a.sem o.mem = some (b, mem)) (alone : commitsAlone o (.act i a b)) :
    Holds j (o.acted i a b mem) s := by
  have own : (Label.act i a b : KLabel depth).thread ≠ some j := by simpa [Label.thread]
  cases s with
  | off => trivial
  | pending id => exact h
  | found id =>
    obtain ⟨reading, hopen, hnone⟩ := h
    obtain ⟨hpush, hends⟩ := (alone j id (Ne.symm other)).1 reading
    refine ⟨(reading_foreign other).mpr reading, ?_, ?_⟩
    · by_contra hclosed
      exact hends ⟨(b, mem), sem, hclosed⟩
    · rw [Obs.acted_trace, pushes_act, hpush]
      simpa using hnone
  | pushed id => exact ⟨h.1, (writing_foreign other).mpr h.2⟩

theorem pending_step {id : TicketId} (inv : Inv st o) (stage : st i = .pending id)
    (sem : a.sem o.mem = some (b, mem)) (alone : commitsAlone o (.act i a b)) :
    Holds i (o.acted i a b mem) (Stage.reads id a b) := by
  have committing : Committing i id o := by
    have holds := inv.holds i
    rwa [stage] at holds
  unfold Stage.reads
  split
  next k t =>
    split
    next opens =>
      obtain ⟨rfl, admitted⟩ := opens
      have looked : looks (.calls (.get k)) (some t) k := ⟨rfl, admitted⟩
      obtain ⟨rfl, hopen, hpush⟩ := looks_keeps looked sem
      have same : t.id = k := CallsTable.get_id (congrArg Prod.fst (Option.some.inj sem))
      rw [same]
      refine ⟨reading_own.mpr ⟨committing, .inl looked⟩, hopen, ?_⟩
      -- a push so far would belong to a commit that is still to write
      rw [Obs.acted_trace, pushes_act, hpush]
      by_contra hne
      obtain ⟨-, -, writing⟩ := inv.once k (by simpa using hne)
      obtain ⟨j, pushed⟩ := writing hopen
      have other : j ≠ i := by
        rintro rfl
        cases stage.symm.trans pushed
      have holds := inv.holds j
      rw [pushed] at holds
      exact (alone j k other).2 holds.2 committing looked
    next => exact committing
  next => exact committing

theorem found_step {id : TicketId} (holds : Holds i o (.found id))
    (allows : (Stage.found id).allows a) (sem : a.sem o.mem = some (b, mem)) :
    Holds i (o.acted i a b mem) ((Stage.found id).next a b) := by
  obtain ⟨⟨committing, looking⟩, hopen, hnone⟩ := holds
  rcases allows with checks | push | ends
  · have stays : (Stage.found id).next a b = .found id := by
      cases a with
      | calls a => cases a <;> first | exact checks.elim | rfl
      | _ => rfl
    obtain ⟨free, unwritten⟩ := checking_free checks
    have quiet : pushesFor id a = false := free_not_push free
    rw [stays]
    refine ⟨reading_own.mpr ⟨committing, .inr ⟨looking, ?_⟩⟩, ?_, ?_⟩
    · simp [quiet, unwritten id]
    · rwa [Obs.acted_mem, checking_calls checks sem]
    · rw [Obs.acted_trace, pushes_act, quiet]
      simpa using hnone
  · cases a with
    | calls a =>
      cases a with
      | pushEffect => exact ⟨committing, writing_own.mpr (.inl push)⟩
      | _ => cases push
    | _ => cases push
  · cases a with
    | calls a => cases a <;> first | exact ends.elim | exact committing
    | _ => exact ends.elim

theorem holds_step (inv : Inv st o) (allows : (st i).allows a) (sem : a.sem o.mem = some (b, mem))
    (alone : commitsAlone o (.act i a b)) : Holds i (o.acted i a b mem) ((st i).next a b) := by
  have holds := inv.holds i
  cases stage : st i with
  | off => trivial
  | pending id => exact pending_step inv stage sem alone
  | found id =>
    rw [stage] at holds allows
    exact found_step holds allows sem
  | pushed id =>
    rw [stage] at holds allows
    cases a with
    | calls a => cases a <;> first | exact allows.elim | exact holds.1
    | _ => exact allows.elim

theorem once_step (inv : Inv st o) (allows : (st i).allows a) (sem : a.sem o.mem = some (b, mem))
    (h : pushes id (.act i a b :: o.trace : List (KLabel depth)) ≠ 0) :
    pushes id (.act i a b :: o.trace : List (KLabel depth)) = 1 ∧
      id < mem.calls.nextTicket ∧ (Open mem.calls id →
        ∃ k, update st i ((st i).next a b) k = .pushed id) := by
  rw [pushes_act] at h ⊢
  cases hpush : pushesFor id a with
  | true =>
    have found := allows_push allows hpush
    have holds := inv.holds i
    rw [found] at holds
    obtain ⟨-, hopen, hnone⟩ := holds
    refine ⟨by simp [hnone], lt_of_lt_of_le hopen.lt (nextTicket_mono sem), fun _ => ⟨i, ?_⟩⟩
    rw [update_self, found]
    cases a with
    | calls a =>
      cases a with
      | pushEffect => rfl
      | _ => cases hpush
    | _ => cases hpush
  | false =>
    simp only [hpush, Bool.false_eq_true, if_false, Nat.add_zero] at h ⊢
    obtain ⟨hone, hlt, writing⟩ := inv.once id h
    refine ⟨hone, lt_of_lt_of_le hlt (nextTicket_mono sem), fun hopen => ?_⟩
    obtain ⟨k, pushed⟩ := writing (reopens_none allows sem hlt hopen)
    refine ⟨k, ?_⟩
    by_cases own : k = i
    · subst own
      rw [pushed] at allows
      cases a with
      | calls a =>
        cases a with
        | setState k state =>
          obtain ⟨rfl, ends⟩ := allows
          exact absurd hopen (free_written (a := .calls (.setState k state)) ends sem rfl)
        | _ => exact allows.elim
      | _ => exact allows.elim
    · rwa [update_of_ne own]

/-- Starting or returning leaves no window of the thread open and every other as it was. -/
theorem Inv.log (inv : Inv st o) (own : label.thread = some i)
    (quiet : ∀ (i : Nat) (β : Type) (a : KAct β) b, label ≠ .act i a b)
    (leaves : (st i).leaves) {next : Stage} (holds : Holds i (o.log label) next) :
    Inv (update st i next) (o.log label) := by
  refine ⟨fun j => ?_, fun id hne => ?_⟩
  · by_cases same : j = i
    · subst same
      rwa [update_self]
    · have foreign : label.thread ≠ some j := by
        rw [own]
        simpa using Ne.symm same
      have there := inv.holds j
      rw [update_of_ne same]
      cases stage : st j with
      | off => trivial
      | _ =>
        rw [stage] at there
        simpa only [Holds, Reading, Writing, Committing, Obs.log, inCall_foreign foreign,
          Mark.during_foreign foreign, pushes_log quiet] using there
  · rw [Obs.log_trace, pushes_log quiet] at hne ⊢
    obtain ⟨hone, hlt, writing⟩ := inv.once id hne
    refine ⟨hone, hlt, fun hopen => ?_⟩
    obtain ⟨k, pushed⟩ := writing hopen
    refine ⟨k, ?_⟩
    rw [update_of_ne fun same => ?_, pushed]
    rw [← same, pushed] at leaves
    exact leaves

theorem preserved : (stages depth).Preserved commitsAlone Inv where
  start {st o i op} _ inv idle _ := by
    refine inv.log rfl (by simp) (by rw [idle]; trivial) ?_
    cases op with
    | commitEffect id kind payload => exact ⟨kind, payload, if_pos rfl⟩
    | _ => trivial
  act {st o i β a b mem} _ inv allows sem alone := by
    refine ⟨fun j => ?_, fun id => once_step inv allows sem⟩
    by_cases own : j = i
    · subst own
      rw [update_self]
      exact holds_step inv allows sem alone
    · rw [update_of_ne own]
      exact (inv.holds j).foreign (Ne.symm own) sem alone
  done _ inv leaves _ := inv.log rfl (by simp) leaves trivial
  env {st o event} inv _ := by
    have calls : (o.passed event).mem.calls = o.mem.calls := by cases event <;> rfl
    refine ⟨fun j => ?_, fun id hne => ?_⟩
    · have there := inv.holds j
      cases stage : st j <;> rw [stage] at there <;> first | exact there | skip
      exact ⟨there.1, calls ▸ there.2.1, there.2.2⟩
    · rw [calls]
      exact inv.once id hne

theorem inv_boot (m₀ : KState) : Inv (fun _ => .off) (⟨m₀, []⟩ : KObs depth) where
  holds _ := trivial
  once _ hne := absurd rfl hne

/-- A cancel, an expiry or a disposal has marked the ticket. -/
def Marked (c : CallsTable) (id : TicketId) : Prop :=
  (c.get id).any (fun t => decide (t.state = .cancelled ∨ t.state = .expired)) = true

instance (c : CallsTable) (id : TicketId) : Decidable (Marked c id) :=
  inferInstanceAs (Decidable (_ = true))

theorem Marked.not_open {c : CallsTable} {id : TicketId} (h : Marked c id) :
    id < c.nextTicket ∧ ¬ Open c id := by
  obtain ⟨t, ht, hmark⟩ := (Option.any_eq_true ..).mp h
  have hmark : t.state = .cancelled ∨ t.state = .expired := of_decide_eq_true hmark
  refine ⟨CallsTable.get_lt ht, fun hopen => ?_⟩
  obtain ⟨t', ht', hstate⟩ := open_iff.mp hopen
  cases ht.symm.trans ht'
  rcases hmark with hm | hm <;> cases hstate.symm.trans hm

/-- Once a ticket is not admitted any more, nothing is pushed for it. -/
theorem closed_preserved (id : TicketId) (n : Nat) :
    (stages depth).Preserved commitsAlone fun st o => Inv st o ∧ id < o.mem.calls.nextTicket ∧
      ¬ Open o.mem.calls id ∧ pushes id o.trace = n where
  start sparse h idle ok := ⟨preserved.start sparse h.1 idle ok, h.2⟩
  act {st o i β a b mem} sparse h allows sem ok := by
    obtain ⟨inv, hlt, hclosed, same⟩ := h
    refine ⟨preserved.act sparse inv allows sem ok, lt_of_lt_of_le hlt (nextTicket_mono sem),
      fun hopen => hclosed (reopens_none allows sem hlt hopen), ?_⟩
    have quiet : pushesFor id a = false := Bool.eq_false_iff.mpr fun push => by
      have holds := inv.holds i
      rw [allows_push allows push] at holds
      exact hclosed holds.2.1
    rw [Obs.acted_trace, pushes_act, quiet]
    simpa using same
  done sparse h leaves ok := ⟨preserved.done sparse h.1 leaves ok, h.2⟩
  env {st o event} h ok := by
    refine ⟨preserved.env h.1 ok, ?_⟩
    cases event <;> exact h.2

/-- In every run in which commits are alone with their ticket: at most one effect is pushed for
a ticket, only while it is admitted, and none once it was marked. -/
theorem commits_once (m₀ : KState) {c : Config (kernel depth)}
    (run : Run commitsAlone (.boot m₀) c) (id : TicketId) :
    pushes id c.trace ≤ 1 ∧
    (∀ label c', commitsAlone c.toObs label → Step c label c' → isPush id label = true →
      Open c.mem.calls id) ∧
    (∀ c', Run commitsAlone c c' → Marked c.mem.calls id →
      pushes id c'.trace = pushes id c.trace) := by
  obtain ⟨st, sparse, inv, tracks⟩ := preserved.run code_follows (inv_boot m₀) run
  refine ⟨?_, fun label c' ok step hpush => ?_, fun c' later marked => ?_⟩
  · by_cases hnone : pushes id c.trace = 0
    · omega
    · exact (inv.once id hnone).1.le
  · cases step with
    | @act i _ _ _ _ _ _ running enabled =>
      have holds := inv.holds i
      rw [allows_push (tracks.code _ _ _ running).1 hpush] at holds
      exact holds.2.1
    | start | done | env => cases hpush
  · obtain ⟨hlt, hclosed⟩ := marked.not_open
    obtain ⟨_, -, ⟨-, -, -, same⟩, -⟩ :=
      (closed_preserved id (pushes id c.trace)).onward code_follows
      ⟨st, sparse, ⟨inv, hlt, hclosed, rfl⟩, tracks⟩ later
    exact same

/-- A run of one thread meets the condition. -/
theorem commitsAlone_of_solo (h : o.solo 0 = true) (own : label.thread = some 0) :
    commitsAlone o label := by
  cases label with
  | act j a b =>
    cases own
    intro i id hi
    have absent := Obs.solo_absent h hi
    refine ⟨?_, fun hw => absurd hw (Mark.not_during_of_absent absent)⟩
    rintro ⟨⟨kind, payload, hop⟩, -⟩
    rw [inCall_of_absent absent] at hop
    cases hop
  | start | done | env => trivial

/-- One ticket is committed and another cancelled: the first has its one effect, the second
never gets any. -/
theorem commits_once_after_cancel :
    ∃ c : Config (kernel 1), Run commitsAlone (.boot (KState.boot 1)) c ∧ pushes 1 c.trace = 1 ∧
      Marked c.mem.calls 2 ∧ ∀ c', Run commitsAlone c c' → pushes 2 c'.trace = 0 := by
  have alone : ∀ (o : KObs 1) label, (o.solo 0 && decide (label.thread = some 0)) = true →
      commitsAlone o label := fun o label h => by
    rw [Bool.and_eq_true] at h
    exact commitsAlone_of_solo h.1 (of_decide_eq_true h.2)
  obtain ⟨c, run, once, none, marked⟩ := Config.reaches (.boot (KState.boot 1))
    (P := fun c => pushes 1 c.trace = 1 ∧ pushes 2 c.trace = 0 ∧ Marked c.mem.calls 2) _ alone 100
    [.start 0 (.loadManifest (.component "p" ["x"] [] none)), .finish 0,
      .start 0 (.callOpen "x" none []), .finish 0, .start 0 (.callOpen "x" none []), .finish 0,
      .start 0 (.commitEffect 1 "note" .null), .finish 0,
      .start 0 (.callCancel 2 "stop"), .finish 0] (by decide +kernel)
  refine ⟨c, run, once, marked, fun c' later => ?_⟩
  rw [(commits_once _ run 2).2.2 c' later marked, none]

/-- Two commits that both read the ticket before either writes it push two effects, and a commit
that read it before a cancel pushes after the cancel. -/
theorem commit_race_pushes :
    (∃ c : Config (kernel 1), Run (fun _ _ => True) (.boot (KState.boot 1)) c ∧
      pushes 1 c.trace = 2) ∧
    ∃ c c' : Config (kernel 1), Run (fun _ _ => True) (.boot (KState.boot 1)) c ∧
      Run (fun _ _ => True) c c' ∧ Marked c.mem.calls 1 ∧ pushes 1 c.trace = 0 ∧
      pushes 1 c'.trace = 1 := by
  refine ⟨Config.reaches_freely _ 100 [.start 0 (.loadManifest (.component "p" ["x"] [] none)),
    .finish 0, .start 0 (.callOpen "x" none []), .finish 0,
    .start 0 (.commitEffect 1 "first" .null), .steps 0 4,
    .start 1 (.commitEffect 1 "second" .null), .finish 1, .finish 0] (by decide +kernel), ?_⟩
  obtain ⟨c, run, marked, none, later⟩ := Config.reaches_freely (.boot (KState.boot 1))
    (P := fun c : Config (kernel 1) => Marked c.mem.calls 1 ∧ pushes 1 c.trace = 0 ∧
      (c.play (fun _ _ => true) 100 [.finish 0]).any
        (fun c' => decide (pushes 1 c'.trace = 1)) = true) 100
    [.start 0 (.loadManifest (.component "p" ["x"] [] none)), .finish 0,
      .start 0 (.callOpen "x" none []), .finish 0, .start 0 (.commitEffect 1 "late" .null),
      .steps 0 4, .start 1 (.callCancel 1 "stop"), .finish 1] (by decide +kernel)
  obtain ⟨c', run', one⟩ := c.reaches_freely 100 _ later
  exact ⟨c, c', run, run', marked, none, one⟩

end MatrixRuntime.CommitRace
