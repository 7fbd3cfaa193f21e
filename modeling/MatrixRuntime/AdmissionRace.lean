import MatrixRuntime.ContextOrder

/-! The race between opening a call and disposing its provider. The opener registers
its ticket and then looks at the context; a dispose moves the context and then
counts the tickets. A count of zero therefore leaves no ticket whose opener found
the context active, and only an instance that was counted so is ever disposed. -/

namespace MatrixRuntime.AdmissionRace

open KernelContexts KernelTickets KernelState KernelActions KernelReconcile InterleavedProgram
open InterleavedMachine RelyGuarantee KernelOperations ReconcileFrame TicketFrame TraceMarks
open KernelCalls DependencyAdmission CallFrame ContextFrame OperationFrame Discipline Function
open UnloadPermits (Stage stages)
open ContextOrder (Known countsNone learns)

variable {depth : Nat} {o : KObs depth} {id : TicketId} {label : KLabel depth}

def tells {β : Type} : KAct β → β → TicketId → Prop
  | .note (.opened t), _, id => t = id
  | _, _, _ => False

/-- The thread was given this ticket. -/
def told : Mark KAct TicketId := .ever tells

/-- The thread has counted no ticket for the instance. -/
def counted : Mark KAct InstanceId := .ever countsNone

/-- The opener was given the ticket, in the run or before it. -/
def Granted (m₀ : KState) (id : TicketId) (o : KObs depth) : Prop :=
  id < m₀.calls.nextTicket ∨ ∃ i, told.On i id o.trace

/-- Some dispose or finalization has counted no ticket for the instance, in the run or
before it. -/
def Cleared (m₀ : KState) (inst : InstanceId) (o : KObs depth) : Prop :=
  m₀.contexts.stateOf inst = some .disposed ∨ ∃ i, counted.On i inst o.trace

structure Inv (m₀ : KState) (o : KObs depth) : Prop where
  started : m₀.calls.nextTicket ≤ o.mem.calls.nextTicket
  issued : ∀ id, Granted m₀ id o → id < o.mem.calls.nextTicket
  withdrawn : ∀ inst, Cleared m₀ inst o → Withdrawn o.mem.contexts inst
  kept : ∀ id t, o.mem.calls.get id = some t → Granted m₀ id o → ¬ Cleared m₀ t.instanceId o
  disposed : ∀ inst, o.mem.contexts.stateOf inst = some .disposed → Cleared m₀ inst o
  returned : ∀ i op call, Label.done i op (.opened (.ok call)) ∈ o.trace →
    told.On i call.ticket o.trace

/-- Tickets only go, an instance is cleared only when none of its tickets is left, and a
withdrawn instance never comes back. -/
structure Guar (m₀ : KState) (o o' : KObs depth) : Prop where
  issued : o.mem.calls.nextTicket ≤ o'.mem.calls.nextTicket
  gone : ∀ id t', o'.mem.calls.get id = some t' → id < o.mem.calls.nextTicket →
    ∃ t, o.mem.calls.get id = some t ∧ t.instanceId = t'.instanceId
  withdrawn : ∀ inst, Withdrawn o.mem.contexts inst → Withdrawn o'.mem.contexts inst
  cleared : ∀ inst, Cleared m₀ inst o' → Cleared m₀ inst o ∨
    ∀ id t, o'.mem.calls.get id = some t → t.instanceId ≠ inst

/-- Tickets are counted for withdrawn instances only, and an instance is disposed by who has counted
none for it. -/
def settles (o : KObs depth) : KLabel depth → Prop
  | .act _ (KAct.ctx (.create _ state _)) _ => state ≠ .disposed
  | .act i (KAct.ctx (.markDisposed k)) _ => counted.On i k o.trace
  | .act _ (KAct.calls (.pendingCount k)) _ => Withdrawn o.mem.contexts k
  | _ => True

def discipline (depth : Nat) (m₀ : KState) : Discipline (kernel depth) where
  inv := Inv m₀
  guar _ := Guar m₀
  ok := settles

/-- The ticket, while it is in the table, names the instance. -/
def Names (id : TicketId) (inst : InstanceId) (o : KObs depth) : Prop :=
  id < o.mem.calls.nextTicket ∧ ∀ t, o.mem.calls.get id = some t → t.instanceId = inst

/-- The ticket, while it is in the table, keeps its instance from being cleared. -/
def Holds (m₀ : KState) (id : TicketId) (o : KObs depth) : Prop :=
  id < o.mem.calls.nextTicket ∧
    ∀ t, o.mem.calls.get id = some t → ¬ Cleared m₀ t.instanceId o

def guard (m₀ : KState) (o : KObs depth) {β : Type} : KAct β → Prop
  | .note (.opened id) => Holds m₀ id o
  | _ => True

section Step

variable {m₀ : KState} {o : KObs depth} {i : Nat} {β : Type} {a : KAct β} {b : β}
  {mem : KState}

theorem ever_acted {K : Type} {sets : ∀ {β : Type}, KAct β → β → K → Prop} {k : K} {p : Prop} :
    (p ∨ ∃ j, (Mark.ever sets).On j k (o.acted i a b mem).trace) ↔
      sets a b k ∨ p ∨ ∃ j, (Mark.ever sets).On j k o.trace := by
  simp only [Obs.acted_trace, Mark.ever_act]
  constructor
  · rintro (h | ⟨j, ⟨rfl, h⟩ | h⟩)
    · exact .inr (.inl h)
    · exact .inl h
    · exact .inr (.inr ⟨j, h⟩)
  · rintro (h | h | ⟨j, h⟩)
    · exact .inr ⟨i, .inl ⟨rfl, h⟩⟩
    · exact .inl h
    · exact .inr ⟨j, .inr h⟩

theorem granted_act : Granted m₀ id (o.acted i a b mem) ↔ tells a b id ∨ Granted m₀ id o :=
  ever_acted

theorem cleared_act {inst : InstanceId} : Cleared m₀ inst (o.acted i a b mem) ↔
    countsNone a b inst ∨ Cleared m₀ inst o :=
  ever_acted

/-- The invariant and the guarantee after an action, from what it does to each table. -/
theorem Inv.acted (h : Inv m₀ o) (next : o.mem.calls.nextTicket ≤ mem.calls.nextTicket)
    (gone : ∀ id t', mem.calls.get id = some t' → id < o.mem.calls.nextTicket →
      ∃ t, o.mem.calls.get id = some t ∧ t.instanceId = t'.instanceId)
    (withdrawn : ∀ inst, Withdrawn o.mem.contexts inst → Withdrawn mem.contexts inst)
    (disposed : ∀ inst, mem.contexts.stateOf inst = some .disposed →
      o.mem.contexts.stateOf inst = some .disposed ∨ Cleared m₀ inst o)
    (tell : ∀ id, tells a b id → Holds m₀ id o)
    (count : ∀ inst, countsNone a b inst → Withdrawn o.mem.contexts inst ∧
      ∀ id t, mem.calls.get id = some t → t.instanceId ≠ inst) :
    Inv m₀ (o.acted i a b mem) ∧ Guar m₀ o (o.acted i a b mem) := by
  refine ⟨⟨h.started.trans next, ?_, ?_, ?_, ?_, ?_⟩, ⟨next, gone, withdrawn, ?_⟩⟩
  · intro id hid
    rcases granted_act.mp hid with ht | hid
    · exact lt_of_lt_of_le (tell id ht).1 next
    · exact lt_of_lt_of_le (h.issued id hid) next
  · intro inst hc
    rcases cleared_act.mp hc with hc | hc
    · exact withdrawn inst (count inst hc).1
    · exact withdrawn inst (h.withdrawn inst hc)
  · intro id t ht hid hc
    rcases cleared_act.mp hc with hc | hc
    · exact (count _ hc).2 id t ht rfl
    · rcases granted_act.mp hid with htell | hid
      · obtain ⟨t₀, ht₀, hinst⟩ := gone id t ht (tell id htell).1
        exact (tell id htell).2 t₀ ht₀ (hinst ▸ hc)
      · obtain ⟨t₀, ht₀, hinst⟩ := gone id t ht (h.issued id hid)
        exact h.kept id t₀ ht₀ hid (hinst ▸ hc)
  · intro inst hd
    refine cleared_act.mpr (.inr ?_)
    rcases disposed inst hd with hd | hc
    · exact h.disposed inst hd
    · exact hc
  · intro j op call hdone
    exact Mark.ever_cons (h.returned j op call (by simpa using hdone))
  · intro inst hc
    rcases cleared_act.mp hc with hc | hc
    · exact .inr (count inst hc).2
    · exact .inl hc

theorem sound (hguard : guard m₀ o a) (acts : (discipline depth m₀).Acts i o a b mem) :
    Inv m₀ (o.acted i a b mem) ∧ Guar m₀ o (o.acted i a b mem) := by
  have h := acts.inv
  have enabled : a.sem o.mem = some (b, mem) := acts.enabled
  have ok : settles o (.act i a b) := acts.ok
  have plain : mem.contexts = o.mem.contexts → mem.calls = o.mem.calls →
      (∀ id, tells a b id → Holds m₀ id o) → (∀ inst, ¬ countsNone a b inst) →
      Inv m₀ (o.acted i a b mem) ∧ Guar m₀ o (o.acted i a b mem) := by
    intro contexts calls tell count
    refine h.acted (by rw [calls]) ?_ (by simp [contexts]) (fun inst hd => ?_) tell
      fun inst hc => absurd hc (count inst)
    · intro id t ht _
      exact ⟨t, by rw [← calls, ht], rfl⟩
    · rw [contexts] at hd
      exact .inl hd
  cases a with
  | ctx a =>
    cases enabled
    refine h.acted (Nat.le_refl _) (fun id t ht _ => ⟨t, ht, rfl⟩) (fun _ hw => hw.run a)
      (fun inst hd => ?_) (by simp [tells]) (by simp [countsNone])
    refine (disposed_origin hd).imp_right fun hdis => ?_
    cases a with
    | markDisposed k => exact hdis ▸ .inr ⟨i, ok⟩
    | create logical state cause => exact absurd hdis ok
    | _ => exact hdis.elim
  | calls a =>
    cases enabled
    refine h.acted (nextTicket_le a _) (fun id t' ht old => ?_) (fun _ hw => hw)
      (fun _ hd => .inl hd) (by simp [tells]) fun inst hc => ?_
    · obtain ⟨t, ht, same⟩ := get_origin ht old
      exact ⟨t, ht, same.instanceId.symm⟩
    · cases a with
      | pendingCount k =>
        obtain ⟨hzero, rfl⟩ := hc
        exact ⟨ok, CallsTable.pendingCount_eq_zero.mp hzero⟩
      | _ => exact hc.elim
  | res a | pub a | comp a =>
    cases enabled
    exact plain rfl rfl (by simp [tells]) (by simp [countsNone])
  | note n =>
    cases n with
    | opened id =>
      have same := KAct.sem_sameTables enabled rfl
      exact plain same.contexts same.calls (fun _ ht => ht ▸ hguard) (by simp [countsNone])
  | _ =>
    have same := KAct.sem_sameTables enabled rfl
    exact plain same.contexts same.calls (by simp [tells]) (by simp [countsNone])

end Step

/-! ### What a thread knows -/

def guarded (depth : Nat) (m₀ : KState) : (discipline depth m₀).Guarded :=
  ⟨fun _ => guard m₀, fun _ _ _ _ _ _ => sound⟩

section Lasting

variable {m₀ : KState} {i : Nat} {P : KObs depth → Prop} {β : Type} {a : KAct β}

theorem names_lasting (id : TicketId) (inst : InstanceId) :
    (discipline depth m₀).Lasting (Names id inst) where
  guar _ o o' guar h := by
    refine ⟨lt_of_lt_of_le h.1 guar.issued, fun t' ht' => ?_⟩
    obtain ⟨t, ht, hinst⟩ := guar.gone id t' ht' h.1
    exact hinst ▸ h.2 t ht
  env o event h := by cases event <;> exact h

theorem holds_lasting (id : TicketId) :
    (discipline depth m₀).Lasting (Holds m₀ id) where
  guar _ o o' guar h := by
    refine ⟨lt_of_lt_of_le h.1 guar.issued, fun t' ht' hc => ?_⟩
    obtain ⟨t, ht, hinst⟩ := guar.gone id t' ht' h.1
    rcases guar.cleared _ hc with hc | hnone
    · exact h.2 t ht (hinst ▸ hc)
    · exact hnone id t' ht' rfl
  env o event h := by cases event <;> exact h

/-- The actions that need no guard. -/
abbrev free (β : Type) : KAct β → Prop
  | .note _ => False
  | _ => True

theorem free_guard (h : free β a) (o : KObs depth) : guard m₀ o a := by
  cases a with
  | note => exact h.elim
  | _ => exact trivial

theorem free_keeps (hP : (discipline depth m₀).Lasting P) (h : free β a) :
    (discipline depth m₀).Keeps i P a :=
  fun o b mem ho acts => by
    obtain ⟨inv, guar⟩ := sound (free_guard h o) acts
    exact ⟨inv, guar, hP.guar i _ _ guar ho⟩

/-- Nothing but actions that need no guard. -/
abbrev Free {α : Type} (p : KProg α) : Prop := Composed free (fun _ _ => False) p

theorem wp_free {α : Type} {p : KProg α} (hP : (discipline depth m₀).Lasting P) (hp : Free p)
    {o : KObs depth} (ho : P o) : (discipline depth m₀).wp i p (fun _ => P) o :=
  wp_composed hp hP.stable (fun _ _ => free_keeps hP) (fun _ _ h => h.elim) ho

theorem lasting_true : (discipline depth m₀).Lasting fun _ => True :=
  ⟨fun _ _ _ _ _ => trivial, fun _ _ _ => trivial⟩

end Lasting

section Classes

variable {α : Type} {p : KProg α}

instance : Included quiet free where

theorem free_of_inspects (h : Inspects p) : Free p :=
  (quiet_of_lifecycle h.relax).relax

instance : Included admitting free where

theorem free_of_admits (h : Admits p) : Free p := h.relax

end Classes

/-! ### Opening -/

/-- The program keeps the discipline from anywhere. -/
def Safe (depth : Nat) (m₀ : KState) (i : Nat) {α : Type} (p : KProg α) : Prop :=
  ∀ o : KObs depth, (discipline depth m₀).wp i p (fun _ _ => True) o

section Programs

variable {m₀ : KState} {i : Nat} {again : KProg Unit} (hagain : Lifecycle again) {α β : Type}

theorem Safe.of_free {p : KProg α} (h : Free p) : Safe depth m₀ i p :=
  fun _ => wp_free lasting_true h trivial

/-- An instance found active after the ticket was registered is held by the ticket. -/
theorem admitInstance_holds {k : InstanceId} (inst : InstanceId) {o : KObs depth}
    (ho : Names id k o) :
    (discipline depth m₀).wp i (admitInstance inst) (fun r o => ∀ logical rec,
      r = .ok (logical, rec) → rec.instanceId = k → Holds m₀ id o) o := by
  refine wp_seq (R := fun r o => ∀ rec, r = .ok rec → rec.instanceId = k → Holds m₀ id o)
    ((guarded depth m₀).perform (names_lasting id k).stable ho (fun _ _ _ => trivial)
      fun o₁ r mem h₁ acts rec hrec hk => ?_) fun r o₁ h₁ => ?_
  · obtain ⟨inv, -, enabled, -⟩ := acts
    cases enabled
    obtain ⟨hinst, hlive⟩ := requireActive_live hrec
    refine ⟨h₁.1, fun t ht hc => hlive ?_⟩
    rw [h₁.2 t ht, ← hk, hinst] at hc
    exact inv.withdrawn inst ((cleared_act.mp hc).resolve_left (by simp [countsNone]))
  · cases r with
    | error e => cases e <;> exact nofun
    | ok rec =>
      have keep : (discipline depth m₀).Lasting fun o => rec.instanceId = k → Holds m₀ id o :=
        ⟨fun j o o' guar h hk => (holds_lasting id).guar j o o' guar (h hk),
          fun o event h hk => (holds_lasting id).env o event (h hk)⟩
      refine wp_mono (fun r o₂ h₂ logical rec' hr hk => ?_)
        (wp_returns (admitActive_returns inst rec)
        (wp_free keep (free_of_inspects (admitActive_inspects inst rec)) (h₁ rec rfl)))
      have same := h₂.2 logical rec' hr
      exact h₂.1 (same ▸ hk)

theorem admissionRecord_holds {k : InstanceId} (cap : String) {o : KObs depth}
    (ho : Names id k o) :
    (discipline depth m₀).wp i (admissionRecord cap) (fun r o => ∀ logical rec,
      r = .ok (logical, rec) → rec.instanceId = k → Holds m₀ id o) o := by
  have keep : (discipline depth m₀).Lasting (Names id k) := names_lasting id k
  refine wp_seq (wp_free keep (.perform (by exact trivial)) ho) fun ref o₁ h₁ => ?_
  cases ref with
  | none =>
    exact wp_seq (wp_free keep (free_of_inspects (unresolved_inspects cap)) h₁) fun e o₂ _ => nofun
  | some ref =>
    dsimp only
    split_ifs
    · refine wp_seq (wp_free keep (.perform (by exact trivial)) h₁) fun cur o₂ h₂ => ?_
      cases cur with
      | none => exact nofun
      | some cur => exact admitInstance_holds _ h₂
    · exact admitInstance_holds _ h₁

theorem alloc_names (adm : CallsTable.Admission) (o : KObs depth) :
    (discipline depth m₀).wp i (calls (.alloc adm)) (fun id => Names id adm.instanceId) o := by
  refine (guarded depth m₀).perform (Stable.const True) trivial (fun _ _ _ => trivial)
    fun o₁ id mem _ acts => ?_
  have enabled := acts.enabled
  cases enabled
  refine ⟨Nat.lt_succ_self _, fun t ht => ?_⟩
  have fresh := CallsTable.alloc_get o₁.mem.calls adm o₁.mem.calls.nextTicket
  rw [if_pos rfl] at fresh
  cases fresh.symm.trans ht
  rfl

theorem journalDurable_free (durable : Bool) (logical : String) (kind : JournalKind)
    (ticket : TicketId) (reason : String) :
    Free (journalDurable durable logical kind ticket reason) :=
  .ite (.once) (.pure _)

/-- What an opener that is answered `Ok` was told. -/
def Tells (i : Nat) (r : Except ErrorValue OpenCall) (o : KObs depth) : Prop :=
  ∀ call, r = .ok call → told.On i call.ticket o.trace

include hagain

theorem openTicket_tells (cap logical : String) (rec : ContextRecord) (policy : CallPolicy)
    (pins : List ResourceHandle) (durable : Bool) (o : KObs depth) :
    (discipline depth m₀).wp i (openTicket again cap logical rec policy pins durable)
      (Tells i) o := by
  have refuse : ∀ ticket why e (o : KObs depth), (discipline depth m₀).wp i
      (refuseOpened again durable logical ticket why e) (Tells i) o :=
    fun ticket why e o => wp_seq
      (Safe.of_free (settleTicket_quiet ticket hagain).relax o) fun _ o₁ _ =>
      wp_seq (Safe.of_free (journalDurable_free ..) o₁) fun _ _ _ => nofun
  refine wp_seq (alloc_names _ o) fun ticket o₁ h₁ => ?_
  refine wp_seq (wp_free (names_lasting _ _) (journalDurable_free ..) h₁) fun _ o₂ h₂ => ?_
  refine wp_seq (admissionRecord_holds cap h₂) fun admitted o₃ h₃ => ?_
  cases admitted with
  | error e => exact refuse _ _ _ o₃
  | ok fresh =>
    dsimp only
    split_ifs with hsame
    · refine wp_seq (R := fun _ o => told.On i ticket o.trace) ((guarded depth m₀).perform
        (holds_lasting ticket).stable (h₃ fresh.1 fresh.2 rfl hsame.1) (fun _ _ h => h)
        fun _ _ _ _ _ => Mark.ever_act.mpr (.inl ⟨rfl, rfl⟩)) fun _ o₄ h₄ => ?_
      rintro _ ⟨⟩
      exact h₄
    · exact refuse _ _ _ o₃

theorem callOpen_tells (cap : String) (policy : Option CallPolicy) (pins : List ResourceHandle)
    (o : KObs depth) :
    (discipline depth m₀).wp i (callOpen again cap policy pins) (Tells i) o := by
  refine wp_seq (Safe.of_free (.perform (by exact trivial)) o) fun inflight o₁ _ => ?_
  split_ifs
  · exact nofun
  · refine wp_seq (Safe.of_free (free_of_inspects (admissionRecord_inspects cap)) o₁)
      fun admitted o₂ _ => ?_
    cases admitted with
    | error e => exact nofun
    | ok found =>
      refine wp_seq (Safe.of_free (free_of_inspects (invalidPin_inspects ..)) o₂) fun pin o₃ _ => ?_
      cases pin with
      | some h => exact nofun
      | none =>
        cases policy with
        | some policy => exact openTicket_tells hagain _ _ _ _ _ _ o₃
        | none =>
          refine wp_seq (Safe.of_free (free_of_inspects (policyFor_inspects ..)) o₃)
            fun _ o₄ _ => ?_
          exact openTicket_tells hagain _ _ _ _ _ _ o₄

theorem invokes_safe {p : KProg α} {pins : List ResourceHandle} (h : Invokes again pins p) :
    Safe depth m₀ i p := by
  refine fun _ => wp_composed h lasting_true.stable
    (fun β a ha => free_keeps lasting_true ?_) (fun β q hq o _ => ?_) trivial
  · cases a with
    | note => exact ha.elim
    | _ => exact trivial
  · cases hq with
    | opening cap logical rec policy durable =>
      exact wp_mono (fun _ _ _ => trivial)
        (openTicket_tells hagain cap logical rec policy pins durable o)
    | settling ticket => exact Safe.of_free (settleTicket_quiet ticket hagain).relax o
    | faulting fiber mode => exact Safe.of_free (fault_quiet fiber mode).relax o

omit hagain

/-- The call an answer hands to the caller. -/
def openedCall : Res → Option OpenCall
  | .opened (.ok call) => some call
  | _ => none

/-- What an operation's answer says about tickets the caller was given. -/
def Answers (i : Nat) (res : Res) (o : KObs depth) : Prop :=
  ∀ call ∈ openedCall res, told.On i call.ticket o.trace

theorem operation_answers (op : Op) (o : KObs depth) :
    (discipline depth m₀).wp i ((kernel depth).code op) (Answers i) o := by
  have hagain : Lifecycle (reconcile depth) := reconcile_lifecycle depth
  have other : ((kernel depth).code op).Returns (fun res => openedCall res = none) →
      Safe depth m₀ i ((kernel depth).code op) →
      (discipline depth m₀).wp i ((kernel depth).code op) (Answers i) o := by
    intro returns safe
    refine wp_mono (fun res o₁ h₁ call hres => ?_) (wp_returns returns (safe o))
    rw [h₁.2] at hres
    cases hres
  cases opening : opens op with
  | false =>
    refine other ?_ (.of_free (operation_quiet opening depth).relax)
    cases op with
    | callOpen => cases opening
    | _ => exact .bind _ fun _ => rfl
  | true =>
    cases op with
    | callOpen cap policy pins =>
      refine wp_seq (callOpen_tells hagain cap policy pins o) fun r o₁ h₁ call hcall => ?_
      cases r with
      | error e => cases hcall
      | ok opened => exact h₁ call (by cases hcall; rfl)
    | invoke cap input expected reply =>
      exact other (.bind _ fun _ => rfl) fun o =>
        wp_seq (invokes_safe hagain (invokeBound_invokes ..) o) fun _ _ _ => trivial
    | dependencyAdmit req =>
      exact other (.bind _ fun _ => rfl)
        (.of_free (.map (free_of_admits (dependencyAdmit_admits req))))
    | _ => cases opening

end Programs

/-! ### Every run -/

section Runs

variable {m₀ : KState}

theorem Inv.log (h : Inv m₀ o) (quiet : ∀ (i : Nat) (β : Type) (a : KAct β) b, label ≠ .act i a b)
    (answers : ∀ i op call, label = .done i op (.opened (.ok call)) →
      told.On i call.ticket o.trace) : Inv m₀ (o.log label) := by
  have granted : ∀ id, Granted m₀ id (o.log label) ↔ Granted m₀ id o := by
    simp [Granted, Mark.on_log quiet]
  have cleared : ∀ inst, Cleared m₀ inst (o.log label) ↔ Cleared m₀ inst o := by
    simp [Cleared, Mark.on_log quiet]
  refine ⟨h.started, fun id hid => h.issued id ((granted id).mp hid),
    fun inst hc => h.withdrawn inst ((cleared inst).mp hc),
    fun id t ht hid hc => h.kept id t ht ((granted id).mp hid) ((cleared _).mp hc),
    fun inst hd => (cleared inst).mpr (h.disposed inst hd), fun i op call hdone => ?_⟩
  refine (Mark.on_log quiet).mpr ?_
  rcases List.mem_cons.mp hdone with hlast | hbefore
  · exact answers i op call hlast.symm
  · exact h.returned i op call hbefore

theorem Guar.log (quiet : ∀ (i : Nat) (β : Type) (a : KAct β) b, label ≠ .act i a b) :
    Guar m₀ o (o.log label) where
  issued := Nat.le_refl _
  gone _ t ht _ := ⟨t, ht, rfl⟩
  withdrawn _ h := h
  cleared inst hc := .inl (by simpa [Cleared, Mark.on_log quiet] using hc)

theorem verified : (discipline depth m₀).Verified fun i _ res => Answers i res where
  stable i _ res := by
    refine Stable.intro (fun o o' j label _ _ _ _ logged _ h call hres => ?_)
      fun o event _ h call hres => Mark.ever_cons (h call hres)
    rw [logged]
    exact Mark.ever_cons (h call hres)
  start _ op _ hinv _ _ :=
    ⟨hinv.log (by simp) (by simp), Guar.log (by simp), operation_answers op _⟩
  done i op res o hinv _ hres _ := by
    refine ⟨hinv.log (by simp) ?_, Guar.log (by simp)⟩
    rintro _ _ call ⟨⟩
    exact hres call rfl
  env event o hinv _ := by
    have hlog : Inv m₀ (o.log (.env event)) := hinv.log (by simp) (by simp)
    cases event <;>
      exact ⟨hlog.started, hlog.issued, hlog.withdrawn, hlog.kept, hlog.disposed, hlog.returned⟩

theorem inv_boot (clean : ∀ id t, m₀.calls.get id = some t →
    m₀.contexts.stateOf t.instanceId ≠ some .disposed) :
    Inv m₀ (⟨m₀, []⟩ : KObs depth) where
  started := Nat.le_refl _
  issued id hid := by
    rcases hid with hid | ⟨_, hid⟩
    · exact hid
    · exact hid.elim
  withdrawn inst hc := by
    rcases hc with hc | ⟨_, hc⟩
    · exact ⟨_, hc, rfl⟩
    · exact hc.elim
  kept id t ht _ hc := by
    rcases hc with hc | ⟨_, hc⟩
    · exact clean id t ht hc
    · exact hc.elim
  disposed _ hd := .inl hd
  returned := nofun

/-- What the threads know: the instances they found withdrawn are, and what they counted is in their
past. -/
def Knows (st : Nat → Stage) (o : KObs depth) : Prop :=
  Known st o ∧ ∀ i, ∀ inst ∈ (st i).counted, counted.On i inst o.trace

theorem Knows.counted_move {st : Nat → Stage} {i : Nat} {s : Stage} (h : Knows st o)
    (own : ∀ inst ∈ s.counted, inst ∈ (st i).counted ∨ counted.On i inst (label :: o.trace))
    (j : Nat) (inst : InstanceId) (known : inst ∈ (update st i s j).counted) :
    counted.On j inst (label :: o.trace) := by
  by_cases mine : j = i
  · subst mine
    rw [update_self] at known
    exact (own inst known).elim (fun known => Mark.ever_cons (h.2 j inst known)) id
  · rw [update_of_ne mine] at known
    exact Mark.ever_cons (h.2 j inst known)

theorem knows_preserved {ok : KObs depth → KLabel depth → Prop} :
    (stages depth).Preserved ok Knows where
  start sparse h idle hok := ⟨ContextOrder.preserved.start sparse h.1 idle hok,
    h.counted_move fun _ none => none.elim⟩
  act sparse h allows enabled hok :=
    ⟨ContextOrder.preserved.act sparse h.1 allows enabled hok, h.counted_move fun _ known =>
      ((learns _ enabled).2 _ known).imp id fun now => Mark.ever_act.mpr (.inl ⟨rfl, now⟩)⟩
  done sparse h leaves hok := ⟨ContextOrder.preserved.done sparse h.1 leaves hok,
    h.counted_move fun _ none => none.elim⟩
  env h hok := ⟨ContextOrder.preserved.env h.1 hok, fun i inst known =>
    Mark.ever_cons (h.2 i inst known)⟩

theorem run_settles {ok : KObs depth → KLabel depth → Prop}
    {c : Config (kernel depth)} (run : Run ok (.boot m₀) c) :
    Run (fun o label => ok o label ∧ settles o label) (.boot m₀) c := by
  refine knows_preserved.enforces UnloadedOnce.code_follows
    (fun {st o i β a reply} knows allows => ?_) (fun o label quiet => ?_)
    ⟨fun _ _ none => none.elim, fun _ _ none => none.elim⟩ run
  · cases a with
    | ctx a =>
      cases a with
      | create logical state cause => rcases allows with rfl | rfl <;> simp [settles]
      | markDisposed k => exact knows.2 i k allows.2.2
      | _ => trivial
    | calls a =>
      cases a with
      | pendingCount k => exact knows.1 i k allows
      | _ => trivial
    | _ => trivial
  · cases label with
    | act i a b => exact absurd rfl (quiet i _ a b)
    | start | done | env => trivial

/-- The opener was given the ticket: before the run, by the answer of `call_open`, or inside an
invocation. -/
def GivenOk (m₀ : KState) (id : TicketId) (o : Obs (kernel depth)) : Prop :=
  id < m₀.calls.nextTicket ∨ (∃ i op call, Label.done i op (.opened (.ok call)) ∈ o.trace ∧
    call.ticket = id) ∨ ∃ i, told.On i id o.trace

/-- No ticket that an opener was given names a disposed instance, in any run at all. -/
theorem disposed_has_no_given_ticket (m₀ : KState)
    (clean : ∀ id t, m₀.calls.get id = some t →
      m₀.contexts.stateOf t.instanceId ≠ some .disposed)
    {c : Config (kernel depth)} (run : Run (fun _ _ => True) (.boot m₀) c) (inst : InstanceId)
    (disposed : c.mem.contexts.stateOf inst = some .disposed) (id : TicketId) (t : TicketRecord)
    (ticket : c.mem.calls.get id = some t) (names : t.instanceId = inst) :
    ¬ GivenOk m₀ id c.toObs := by
  have good := verified.run (D := discipline depth m₀) (inv_boot clean)
    ((run_settles run).mono fun _ _ h => h.2)
  have granted : GivenOk m₀ id c.toObs → Granted m₀ id c.toObs := by
    rintro (hid | ⟨i, op, call, hdone, rfl⟩ | htold)
    · exact .inl hid
    · exact .inr ⟨i, good.inv.returned i op call hdone⟩
    · exact .inr htold
  intro given
  subst names
  exact good.inv.kept id t ticket (granted given) (good.inv.disposed _ disposed)

/-- A dispose that runs between an opener's first look and its registration leaves a ticket of a
disposed instance in the table, which its opener is not given. -/
theorem disposed_has_no_given_ticket_in_race :
    ∃ (c : Config (kernel 1)) (t : TicketRecord), Run (fun _ _ => True) (.boot (KState.boot 1)) c ∧
      c.mem.contexts.stateOf 1 = some .disposed ∧ c.mem.calls.get 1 = some t ∧
      t.instanceId = 1 ∧ ¬ GivenOk (KState.boot 1) 1 c.toObs := by
  obtain ⟨c, run, disposed, there⟩ := Config.reaches_freely (.boot (KState.boot 1))
    (P := fun c : Config (kernel 1) => c.mem.contexts.stateOf 1 = some .disposed ∧
      (c.mem.calls.get 1).map (·.instanceId) = some 1) 100
    [.start 0 (.loadManifest (.component "p" ["x"] [] none)), .finish 0,
      .start 0 (.callOpen "x" none []), .steps 0 9, .start 1 (.disposeInstance 1), .finish 1,
      .steps 0 1] (by decide +kernel)
  obtain ⟨t, ticket, names⟩ := Option.map_eq_some_iff.mp there
  exact ⟨c, t, run, disposed, ticket, names,
    disposed_has_no_given_ticket _ (fun _ _ h => absurd h (by simp [KState.boot_get])) run 1
      disposed 1 t ticket names⟩

end Runs

end MatrixRuntime.AdmissionRace
