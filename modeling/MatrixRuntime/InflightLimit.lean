import MatrixRuntime.PinnedResources

/-! How many calls are in flight. Three ways to admit a call count the tickets first and
issue theirs later, and nothing is held in between. The limit holds as long as the last
place is not taken while another operation that has counted is still to issue. -/

namespace MatrixRuntime.InflightLimit

open KernelContexts KernelTickets KernelState KernelActions KernelReconcile KernelCalls
open DependencyAdmission KernelOperations InterleavedProgram InterleavedMachine RelyGuarantee
open Discipline TraceMarks CallFrame OperationFrame
open PinnedResources (issues)

variable {depth : Nat}

/-! ### The discipline -/

def finds {β : Type} : KAct β → β → Unit → Prop
  | .calls .inflightCount, count, _ => count < maxInflightCalls
  | .reserve _ _, .ok _, _ => True
  | _, _, _ => False

/-- The thread has found a free place, and issued no ticket since. -/
def booking : Mark KAct Unit := ⟨finds, fun a _ _ => issues a⟩

/-- The last free place is taken only while no other operation counts on one. -/
def spaced (o : Obs (kernel depth)) : Label (kernel depth) → Prop
  | .act i (KAct.calls (.alloc _)) _ => o.mem.calls.inflightCount + 1 = maxInflightCalls →
      ∀ j, j ≠ i → ¬ booking.During j () o.trace
  | _ => True

def Inv (o : KObs depth) : Prop := o.mem.calls.inflightCount ≤ maxInflightCalls

def Guar (i : Nat) (o o' : KObs depth) : Prop :=
  o'.mem.calls.inflightCount ≤ o.mem.calls.inflightCount ∨
    o'.mem.calls.inflightCount < maxInflightCalls ∨ ∀ j, j ≠ i → ¬ booking.During j () o.trace

def discipline (depth : Nat) : Discipline (kernel depth) := ⟨Inv, Guar, spaced⟩

/-! ### What the actions do to the count -/

theorem inflight_ticket {β : Type} {a : TicketAct β} (calm : ¬ issues (KAct.calls a))
    (c : CallsTable) : (a.run c).2.inflightCount ≤ c.inflightCount := by
  cases a with
  | alloc => exact absurd trivial calm
  | remove remover k => exact List.length_filter_le ..
  | get | openChildrenOf | pendingFor | pendingCount | inflightCount | pushEffect
  | tryClaimCleanup | releaseCleanupClaim => exact le_rfl
  | setDepMeta | revokeDescendants | revokeChildrenOfConsumer | revokeGrantChildren
  | markCommittedIfAdmitted | expireTicket | setState | setDrainUntil | cancel
  | expireOverdue => exact (List.length_map ..).le

theorem inflight_alloc (c : CallsTable) (admission : CallsTable.Admission) :
    (c.alloc admission).2.inflightCount = c.inflightCount + 1 := by
  simp [CallsTable.alloc, CallsTable.inflightCount]

theorem inflight_calm {β : Type} {a : KAct β} (calm : ¬ issues a) {s s' : KState} {b : β}
    (sem : a.sem s = some (b, s')) : s'.calls.inflightCount ≤ s.calls.inflightCount := by
  cases a with
  | calls a =>
    cases sem
    exact inflight_ticket calm s.calls
  | ctx | res | pub | comp =>
    cases sem
    exact le_rfl
  | _ => exact (KAct.sem_sameTables sem rfl).calls ▸ le_rfl

def guard (_ : Nat) (o : KObs depth) {β : Type} (a : KAct β) : Prop :=
  issues a → o.mem.calls.inflightCount < maxInflightCalls

theorem sound (i : Nat) (o : KObs depth) {β : Type} (a : KAct β) (b : β) (mem : KState)
    (hg : guard i o a) (acts : (discipline depth).Acts i o a b mem) :
    Inv (o.acted i a b mem) ∧ Guar i o (o.acted i a b mem) := by
  have hinv : o.mem.calls.inflightCount ≤ maxInflightCalls := acts.inv
  by_cases issue : issues a
  · cases a with
    | calls a =>
      cases a with
      | alloc admission =>
        have room : o.mem.calls.inflightCount < maxInflightCalls := hg trivial
        have free : o.mem.calls.inflightCount + 1 = maxInflightCalls →
            ∀ j, j ≠ i → ¬ booking.During j () o.trace := acts.ok
        have enabled : (KAct.calls (.alloc admission)).sem o.mem = some (b, mem) := acts.enabled
        cases enabled
        have grown := inflight_alloc o.mem.calls admission
        refine ⟨grown.le.trans room, ?_⟩
        by_cases last : o.mem.calls.inflightCount + 1 = maxInflightCalls
        · exact .inr (.inr (free last))
        · exact .inr (.inl (grown.trans_lt (lt_of_le_of_ne room last)))
      | _ => exact issue.elim
    | _ => exact issue.elim
  · have fewer := inflight_calm issue acts.enabled
    exact ⟨fewer.trans hinv, .inl fewer⟩

def guarded (depth : Nat) : (discipline depth).Guarded := ⟨guard, sound⟩

variable {i : Nat} {o : KObs depth} {α : Type} {p : KProg α}

/-! ### Programs that issue no ticket -/

def sparing (β : Type) (a : KAct β) : Prop := ¬ issues a

abbrev Spares (p : KProg α) : Prop := Composed sparing (fun _ _ => False) p

theorem spares_of_quiet (h : Quiet p) : Spares p := by
  refine h.weaken fun β a ha issue => ?_
  cases a with
  | calls a => cases a <;> first | exact issue | exact ha
  | _ => exact issue

theorem spares_of_inspects (h : Inspects p) : Spares p :=
  spares_of_quiet (quiet_of_lifecycle h.relax)

theorem spares_safe (h : Spares p) (o : KObs depth) :
    (discipline depth).wp i p (fun _ _ => True) o :=
  wp_composed h (Stable.const True) (fun _ _ calm => (guarded depth).keeps
    (fun _ _ _ issue => absurd issue calm) fun _ _ _ _ _ => trivial) (fun _ _ => False.elim) trivial

/-! ### Operations that issue a ticket -/

/-- The thread has found a free place, and there still is one. -/
structure Booked (i : Nat) (o : KObs depth) : Prop where
  found : booking.During i () o.trace
  room : o.mem.calls.inflightCount < maxInflightCalls

theorem Booked.stable : (discipline depth).Stable i (Booked i) := by
  refine .intro ?_ ?_
  · intro o o' j label _ _ other own logged guar booked
    have foreign : label.thread ≠ some i := by
      rw [own]
      simpa using other
    refine ⟨logged ▸ (Mark.during_foreign foreign).mpr booked.found, ?_⟩
    rcases guar with fewer | room | lone
    · exact fewer.trans_lt booked.room
    · exact room
    · exact absurd booked.found (lone i (Ne.symm other))
  · intro o event _ booked
    have same : (o.passed event).mem.calls = o.mem.calls := by cases event <;> rfl
    exact ⟨(Mark.during_foreign (by simp [Label.thread])).mpr booked.found, same ▸ booked.room⟩

theorem Booked.keeps {β : Type} {a : KAct β} (calm : sparing β a) :
    (discipline depth).Keeps i (Booked i) a :=
  (guarded depth).keeps (fun _ _ _ issue => absurd issue calm) fun _ _ _ booked acts =>
    ⟨Mark.during_own.mpr (.inr ⟨booked.found, calm⟩),
      (inflight_calm calm acts.enabled).trans_lt booked.room⟩

theorem Booked.composed (h : Spares p) (ho : Booked i o) :
    (discipline depth).wp i p (fun _ => Booked i) o :=
  wp_composed h Booked.stable (fun _ _ => Booked.keeps) (fun _ _ => False.elim) ho

theorem Booked.issue (admission : CallsTable.Admission) (ho : Booked i o) :
    (discipline depth).wp i (calls (.alloc admission)) (fun _ _ => True) o :=
  (guarded depth).perform Booked.stable ho (fun _ _ booked _ => booked.room)
    fun _ _ _ _ _ => trivial

theorem count_books (o : KObs depth) :
    (discipline depth).wp i (calls .inflightCount) (fun count o =>
      ¬ maxInflightCalls ≤ count → Booked i o) o := by
  refine (guarded depth).perform (Stable.const True) trivial (fun _ _ _ => False.elim)
    fun o₁ count mem _ acts free => ?_
  have enabled : (KAct.calls .inflightCount).sem o₁.mem = some (count, mem) := acts.enabled
  cases enabled
  exact ⟨Mark.during_own.mpr (.inl (Nat.lt_of_not_le free)), Nat.lt_of_not_le free⟩

theorem reserve_room {u : DepUsage} {session : String} {limits : OutboundLimits} {inflight : Nat}
    (h : (u.reserve session limits inflight).1 = .ok ()) : inflight < maxInflightCalls := by
  unfold DepUsage.reserve at h
  split_ifs at h with _ _ full
  exact Nat.lt_of_not_le full

theorem reserve_books (session : String) (limits : OutboundLimits) (o : KObs depth) :
    (discipline depth).wp i (perform (.reserve session limits)) (fun reply o =>
      reply = .ok () → Booked i o) o := by
  refine (guarded depth).perform (Stable.const True) trivial (fun _ _ _ => False.elim)
    fun o₁ reply mem _ acts accepted => ?_
  subst accepted
  have enabled : (KAct.reserve session limits).sem o₁.mem = some (.ok (), mem) := acts.enabled
  have same : mem.calls = o₁.mem.calls := (KAct.sem_sameTables enabled rfl).calls
  have reply : (o₁.mem.usage.reserve session limits o₁.mem.calls.inflightCount).1 = .ok () :=
    congrArg Prod.fst (Option.some.inj enabled)
  exact ⟨Mark.during_own.mpr (.inl trivial), (congrArg _ same).trans_lt (reserve_room reply)⟩

section Operations

variable {again : KProg Unit} (hagain : Lifecycle again)

include hagain

theorem openTicket_safe (cap logical : String) (rec : ContextRecord) (policy : CallPolicy)
    (pins : List ResourceHandle) (durable : Bool) (ho : Booked i o) :
    (discipline depth).wp i (openTicket again cap logical rec policy pins durable)
      (fun _ _ => True) o := by
  have log : ∀ kind ticket reason, Spares (journalDurable durable logical kind ticket reason) :=
    fun _ _ _ => .ite (.perform id) (.pure _)
  have refuse : ∀ ticket why e, Spares (refuseOpened again durable logical ticket why e) :=
    fun ticket why e => .bind (spares_of_quiet (settleTicket_quiet ticket hagain)) fun _ =>
      .map (log ..)
  refine wp_seq (ho.issue _) fun ticket o₁ _ => spares_safe (.bind (log ..) fun _ =>
    .bind (spares_of_inspects (admissionRecord_inspects cap)) fun admitted => ?_) o₁
  cases admitted with
  | error e => exact refuse _ _ _
  | ok fresh => exact .ite (.step id fun _ => .pure _) (refuse _ _ _)

theorem callOpen_safe (cap : String) (policy : Option CallPolicy)
    (pins : List ResourceHandle) (o : KObs depth) :
    (discipline depth).wp i (callOpen again cap policy pins) (fun _ _ => True) o := by
  refine wp_seq (count_books o) fun count o₁ books => ?_
  split_ifs with full
  · trivial
  refine wp_seq ((books full).composed (spares_of_inspects (admissionRecord_inspects cap)))
    fun admitted o₂ h₂ => ?_
  cases admitted with
  | error e => trivial
  | ok found =>
    refine wp_seq (h₂.composed (spares_of_inspects (invalidPin_inspects ..))) fun bad o₃ h₃ => ?_
    cases bad with
    | some h => trivial
    | none =>
      cases policy with
      | some policy => exact openTicket_safe hagain _ _ _ policy pins true h₃
      | none =>
        exact wp_seq (h₃.composed (spares_of_inspects (policyFor_inspects ..)))
          fun policy o₄ h₄ => openTicket_safe hagain _ _ _ policy pins true h₄

theorem callOpenEphemeral_safe (cap : String) (o : KObs depth) :
    (discipline depth).wp i (callOpenEphemeral again cap) (fun _ _ => True) o := by
  refine wp_seq (count_books o) fun count o₁ books => ?_
  split_ifs with full
  · trivial
  refine wp_seq ((books full).composed (spares_of_inspects (admissionRecord_inspects cap)))
    fun admitted o₂ h₂ => ?_
  cases admitted with
  | error e => trivial
  | ok found =>
    exact wp_seq (h₂.composed (spares_of_inspects (policyFor_inspects ..)))
      fun policy o₃ h₃ => openTicket_safe hagain _ _ _ policy [] false h₃

theorem invokeBound_safe (cap : String) (input : JsonValue.Json) (expected : Option InstanceRef)
    (reply : Option ForwardOutcome) (o : KObs depth) :
    (discipline depth).wp i (invokeBound again cap input expected reply) (fun _ _ => True) o := by
  refine wp_seq (callOpenEphemeral_safe hagain cap o) fun opened o₁ _ => ?_
  cases opened with
  | error e => trivial
  | ok call =>
    refine spares_safe (spares_of_quiet (quiet_of_handles hagain ?_)) o₁
    cases expected with
    | none => exact invokeOpened_handles ..
    | some r =>
      exact .next fun _ => .ite (invokeOpened_handles ..)
        (.map (.whole (.settling _)))

end Operations

theorem registerChild_safe (req : DepAdmit) (v : Validated) (ho : Booked i o) :
    (discipline depth).wp i (registerChild req v) (fun _ _ => True) o := by
  have rollback : ∀ id, Spares (rollback req id) :=
    fun id => .step (by exact False.elim) fun _ => .perform (by exact False.elim)
  refine wp_seq (ho.composed (.perform id)) fun now o₁ h₁ => ?_
  refine wp_seq (h₁.composed (.perform id)) fun epoch o₂ h₂ => ?_
  refine wp_seq (h₂.issue _) fun child o₃ _ => spares_safe ?_ o₃
  exact .step id fun _ => .step id fun _ => .ite
    (.bind (spares_of_inspects (stillValid_inspects req v)) fun _ =>
      .ite (.step id fun _ => .pure _)
        (.bind (rollback _) fun _ => .step id fun _ => .pure _))
    (.map (rollback _))

theorem dependencyAdmit_safe (req : DepAdmit) (o : KObs depth) :
    (discipline depth).wp i (dependencyAdmit req) (fun _ _ => True) o := by
  unfold dependencyAdmit
  split_ifs
  · trivial
  · trivial
  refine wp_seq (spares_safe (p := perform .lockAdmit) (.perform id) o) fun _ o₁ _ =>
    wp_seq (R := fun _ _ => True) ?_ fun out o₂ _ =>
      spares_safe (p := do perform .unlockAdmit; pure out) (.step id fun _ => .pure _) o₂
  refine wp_seq (spares_safe (spares_of_inspects (validate_inspects req)) o₁) fun v o₂ _ => ?_
  cases v with
  | error e => trivial
  | ok v =>
    refine wp_seq (reserve_books _ _ o₂) fun reply o₃ books => ?_
    cases reply with
    | error reason => trivial
    | ok _ => exact registerChild_safe req v (books rfl)

theorem operation_safe (op : Op) (o : KObs depth) :
    (discipline depth).wp i ((kernel depth).code op) (fun _ _ => True) o := by
  have hagain : Lifecycle (reconcile depth) := reconcile_lifecycle depth
  cases opening : opens op with
  | false => exact spares_safe (spares_of_quiet (operation_quiet opening depth)) o
  | true =>
    cases op with
    | callOpen cap policy pins =>
      exact wp_seq (callOpen_safe hagain cap policy pins o) fun _ _ _ => trivial
    | invoke cap input expected reply =>
      exact wp_seq (invokeBound_safe hagain cap input expected reply o) fun _ _ _ => trivial
    | dependencyAdmit req => exact wp_seq (dependencyAdmit_safe req o) fun _ _ _ => trivial
    | _ => cases opening

/-! ### Runs -/

theorem verified : (discipline depth).Verified fun _ _ _ _ => True where
  stable _ _ _ := Stable.const True
  start i op o hinv _ _ := ⟨hinv, .inl le_rfl, operation_safe op _⟩
  done i op res o hinv _ _ _ := ⟨hinv, .inl le_rfl⟩
  env event o hinv _ := by cases event <;> exact hinv

/-- However calls are opened, invoked and admitted, the table keeps its limit. -/
theorem inflight_bounded {m₀ : KState} (room : m₀.calls.inflightCount ≤ maxInflightCalls)
    {c : Config (kernel depth)} (run : Run spaced (.boot m₀) c) :
    c.mem.calls.inflightCount ≤ maxInflightCalls := by
  have boot : Inv (⟨m₀, []⟩ : Obs (kernel depth)) := room
  exact (verified.run (D := discipline depth) boot run).inv

/-- A check for schedules that never come to the last free place. -/
def roomy (o : KObs depth) (_ : KLabel depth) : Bool :=
  decide (o.mem.calls.inflightCount + 1 ≠ maxInflightCalls)

theorem spaced_of_roomy {label : KLabel depth} (h : roomy o label = true) :
    spaced o label := by
  have room := of_decide_eq_true h
  cases label with
  | act i a reply =>
    cases a with
    | calls a => cases a <;> first | exact trivial | exact fun last => absurd last room
    | _ => exact trivial
  | _ => exact trivial

/-- Two calls that overlap, with room for both. -/
theorem overlapping_calls_bounded : ∃ c : Config (kernel 1), Run spaced (.boot (KState.boot 1)) c ∧
    c.Quiescent ∧ c.mem.calls.inflightCount = 2 ∧
      c.mem.calls.inflightCount ≤ maxInflightCalls := by
  obtain ⟨c, run, quiet, two⟩ := Config.plays (KState.boot 1) roomy
    (P := fun c : Config (kernel 1) => c.mem.calls.inflightCount = 2)
    (fun _ _ => spaced_of_roomy) 200 2 [.start 0 (.loadManifest provider), .finish 0,
      .start 1 (.callOpen "x" none []), .steps 1 1, .start 0 (.callOpen "x" none []), .finish 0,
      .finish 1] (by decide +kernel)
  have room : (KState.boot 1).calls.inflightCount ≤ maxInflightCalls := Nat.zero_le _
  exact ⟨c, run, quiet, two, inflight_bounded room run⟩

/-- Two calls count one free place and both take it. -/
theorem last_place_taken_twice : ∃ c : Config (kernel 1),
    Run (fun _ _ => True) (.boot (KState.boot 1)) c ∧ c.Quiescent ∧
      c.mem.calls.inflightCount = maxInflightCalls + 1 :=
  Config.plays_freely 200 2 ([.start 0 (.loadManifest provider), .finish 0] ++
    (List.replicate 255 [.start 0 (.callOpen "x" none []), .finish 0]).flatten ++
    [.start 1 (.callOpen "x" none []), .steps 1 1, .start 0 (.callOpen "x" none []), .finish 0,
      .finish 1]) (by decide +kernel)

end MatrixRuntime.InflightLimit
