import MatrixRuntime.LeaseRuns

/-! What a tick of the supervisor takes for a crash. It looks at the child process and at the time
since the start, not at the context: a component that the reconciler has stopped because its
provider is gone has no child either. -/

namespace MatrixRuntime.Supervision

open KernelState KernelActions KernelOperations KeyedTable
open KernelReconcile (reconcile)
open InterleavedProgram SequentialRuns RuntimeService LeaseRuns

variable {out : Outside} {again : KProg Unit} {s : Svc} {l l' : Lease}

/-- The supervisor has treated the component as crashed: the lease was healthy, and now it waits
for a restart or is failed. -/
def Charged (l l' : Lease) : Prop :=
  l.failed = false ∧ l.retry = none ∧ (l'.failed = true ∨ l'.retry ≠ none)

/-- The current context of the component serves. -/
def activeIn (k : KState) (logical : String) : Bool :=
  (k.contexts.current logical).any fun cur => decide (cur.state.canonical = .active)

theorem not_charged_self : ¬ Charged l l := by
  rintro ⟨healthy, none, failed | retry⟩
  · rw [healthy] at failed
    cases failed
  · exact retry none

theorem charged_charges (healthy : l.failed = false) (idle : l.retry = none) (now : Nat)
    (policy : Option RestartPolicy) : Charged l (l.charged now policy) := by
  refine ⟨healthy, idle, ?_⟩
  cases policy with
  | none => exact .inl rfl
  | some p =>
    cases reserved : (l.budget.reserve now p).1 with
    | none => simp [Lease.charged, reserved]
    | some due => simp [Lease.charged, reserved]

/-- One lease of a tick. -/
theorem supervise_charges (restart : String → Option RestartPolicy) (l : Lease) :
    (supervise out again restart l).Returns fun l' => Charged l l' ↔ l.crashed out = true := by
  unfold supervise
  split
  next skipped =>
    refine iff_of_false not_charged_self fun crashed => ?_
    simp only [Lease.crashed, Bool.and_eq_true, Bool.or_eq_true,
      Bool.not_eq_true'] at crashed skipped
    simp [crashed] at skipped
  split
  next due waits =>
    -- a lease that waits for its restart is never charged again
    have never (l' : Lease) : Charged l l' ↔ l.crashed out = true := by
      simp [Charged, Lease.crashed, waits]
    split
    · exact never l
    exact Prog.Returns.all never _
  next idle =>
    split
    next crashed =>
      refine Prog.Returns.bind _ fun _ => iff_of_true (charged_charges ?_ idle ..) crashed
      simp only [Lease.crashed, Bool.and_eq_true, Bool.not_eq_true'] at crashed
      exact crashed.1.1.1.2
    next fine => exact iff_of_false not_charged_self fine

/-- The leases under the keys are treated by their own crash test, and the others are left. -/
theorem superviseAll_charges (keys : List String) (distinct : keys.Nodup) (s : Svc) :
    (superviseAll out again keys s).Returns fun s' => ∀ key,
      (key ∉ keys → s'.leases.get key = s.leases.get key) ∧
      (key ∈ keys → ∀ l, s.leases.get key = some l →
        ∃ l', s'.leases.get key = some l' ∧ (Charged l l' ↔ l.crashed out = true)) := by
  induction keys generalizing s with
  | nil => exact fun key => ⟨fun _ => rfl, fun listed => nomatch listed⟩
  | cons first keys ih =>
    obtain ⟨apart, distinct⟩ := List.nodup_cons.mp distinct
    unfold superviseAll
    cases there : s.leases.get first with
    | none =>
      refine (ih distinct s).mono fun s' rest key => ⟨fun out => ?_, fun listed l before => ?_⟩
      · exact (rest key).1 (List.not_mem_of_not_mem_cons out)
      · obtain rfl | listed := List.mem_cons.mp listed
        · rw [there] at before
          cases before
        · exact (rest key).2 listed l before
    | some l₀ =>
      refine (supervise_charges s.restart l₀).andThen fun l₁ treated => ?_
      refine (ih distinct _).mono fun s' rest key => ?_
      by_cases same : key = first
      · subst same
        refine ⟨fun out => absurd List.mem_cons_self out, fun _ l before => ?_⟩
        rw [there] at before
        cases before
        exact ⟨l₁, by rw [(rest key).1 apart, Table.put_get, if_pos rfl], treated⟩
      · simpa [Table.put_get, same] using rest key

theorem of_mem_tokensOf {p : Lease → Bool} {token : String} (listed : token ∈ s.tokensOf p) :
    ∃ l, s.leases.get token = some l ∧ p l = true := by
  obtain ⟨⟨_, l⟩, entered, rfl⟩ := List.mem_map.mp listed
  obtain ⟨held, holds⟩ := List.mem_filter.mp entered
  exact ⟨l, Table.get_eq_some.mpr held, holds⟩

theorem tokensOf_nodup (s : Svc) (p : Lease → Bool) : (s.tokensOf p).Nodup :=
  s.leases.unique.sublist (List.filter_sublist.map _)

/-- A tick drops the leases that have run out, and charges those of the others that fail the
crash test. -/
theorem tick_charges (s : Svc) :
    (tick out again s).Returns fun s' => ∀ token l, s.leases.get token = some l →
      (l.deadline ≤ out.now → s'.leases.get token = none) ∧
      (out.now < l.deadline →
        ∃ l', s'.leases.get token = some l' ∧ (Charged l l' ↔ l.crashed out = true)) := by
  refine (retireAll_returns _ s).andThen ?_
  rintro _ ⟨leases, without, rfl⟩
  refine (superviseAll_charges _ (tokensOf_nodup ..) _).mono fun s' treated token l there => ?_
  have left := without.get token
  constructor
  · intro late
    rw [if_pos (mem_tokensOf there (decide_eq_true late))] at left
    rw [(treated token).1 (fun listed => ?_), left]
    obtain ⟨_, held, _⟩ := of_mem_tokensOf listed
    exact absurd (left.symm.trans held) (by simp)
  · intro early
    have stays : token ∉ s.tokensOf fun l => decide (l.deadline ≤ out.now) := by
      intro listed
      obtain ⟨_, held, late⟩ := of_mem_tokensOf listed
      rw [held] at there
      cases there
      exact Nat.not_le.mpr early (of_decide_eq_true late)
    rw [if_neg stays, there] at left
    exact (treated token).2 (mem_tokensOf left rfl) l left

/-! ### A provider that goes away -/

/-- "c" runs outside the process and needs "p", which is in it; nothing restarts. -/
def pair (now : Nat) (token : String) (running : Bool) : Outside where
  now := now
  token := .ok token
  recorded := .ok ()
  durable := .ok ()
  childRunning _ := running
  materialized _ := .ok ()
  parsed logical := .ok { (if logical = "c" then
    { consumer with execution := .external "c" [] 1000 } else provider) with id := logical }
  named _ _ h := by cases h; rfl

/-- Both are leased, and the provider is released. -/
def providerReleased : KProg Svc := do
  let s := Svc.opened ⟨[("ops", ⟨["p", "c"], []⟩)], by simp⟩ [] .fresh fun _ => none
  let s ← SvcOp.code (pair 0 "t1" true) (reconcile 2) s (.activate "ops" "p" 1000)
  let s ← SvcOp.code (pair 0 "t2" true) (reconcile 2) s (.activate "ops" "c" 1000)
  SvcOp.code (pair 10 "t3" true) (reconcile 2) s (.release "ops" "t1" 1)

end MatrixRuntime.Supervision
