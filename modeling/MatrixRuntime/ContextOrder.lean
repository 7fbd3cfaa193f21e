import MatrixRuntime.UnloadedOnce

/-! The order of an activation's last states. Whatever the interleaving, a context is
parked or disposed only after it was withdrawn: the threads that write these
states have claimed it, or have read that it was parked before. -/

namespace MatrixRuntime.ContextOrder

open KernelContexts KernelState KernelActions KernelOperations InterleavedMachine
open ContextFrame UnloadPermits Function

variable {depth : Nat}

/-- The action does not park or dispose a context that nobody withdrew. -/
def InOrder (s : KState) {β : Type} : KAct β → Prop
  | .ctx (.markDisposed k) | .ctx (.markCleanupPending _ k _) => Withdrawn s.contexts k
  | _ => True

def inOrder (o : KObs depth) : KLabel depth → Prop
  | .act _ a _ => InOrder o.mem a
  | _ => True

/-- Every thread is right about what it knows to be withdrawn. -/
def Known (st : Nat → Stage) (o : KObs depth) : Prop :=
  ∀ i, ∀ inst ∈ (st i).withdrawn, Withdrawn o.mem.contexts inst

variable {o : KObs depth} {i : Nat} {β : Type} {a : KAct β} {b : β} {mem : KState}
  {inst : InstanceId} {st : Nat → Stage}

theorem withdrawn_acted (h : Withdrawn o.mem.contexts inst)
    (enabled : a.sem o.mem = some (b, mem)) : Withdrawn mem.contexts inst := by
  cases a with
  | ctx a =>
    cases enabled
    exact h.run a
  | calls | res | pub | comp =>
    cases enabled
    exact h
  | _ =>
    rw [(KAct.sem_sameTables enabled rfl).contexts]
    exact h

def countsNone {β : Type} : KAct β → β → InstanceId → Prop
  | .calls (.pendingCount k), live, inst => live = 0 ∧ k = inst
  | _, _, _ => False

/-- A thread learns that an instance is withdrawn by looking or by claiming it, and has counted no
ticket for it when it does. -/
theorem learns (s : Stage) (enabled : a.sem o.mem = some (b, mem)) :
    (∀ inst ∈ (s.next a b).withdrawn, inst ∈ s.withdrawn ∨ Withdrawn mem.contexts inst) ∧
      ∀ inst ∈ (s.next a b).counted, inst ∈ s.counted ∨ countsNone a b inst := by
  have same : (s.next a b).withdrawn = s.withdrawn → (s.next a b).counted = s.counted →
      (∀ inst ∈ (s.next a b).withdrawn, inst ∈ s.withdrawn ∨ Withdrawn mem.contexts inst) ∧
        ∀ inst ∈ (s.next a b).counted, inst ∈ s.counted ∨ countsNone a b inst :=
    fun withdrawn counted => ⟨fun _ h => .inl (withdrawn ▸ h), fun _ h => .inl (counted ▸ h)⟩
  cases a with
  | ctx a =>
    cases enabled
    cases a with
    | get k =>
      refine ⟨fun inst known => ?_, fun inst known => .inl ?_⟩
      all_goals
        simp only [Stage.next, Stage.sees] at known
        split at known
      · exact .inl known
      next live =>
        split at known
        next found =>
          refine known.symm.imp id ?_
          rintro rfl
          obtain ⟨rec, found⟩ := Option.isSome_iff_exists.mp found
          exact ⟨_, ContextTable.stateOf_of_byInstance found, by simpa [found] using live⟩
        · exact .inl known
      · exact known
      · exact known
    | claimDispose k =>
      simp only [ContextAct.run] at same ⊢
      cases reply : (o.mem.contexts.claimDispose k).1 with
      | error e =>
        rw [reply] at same
        exact same rfl rfl
      | ok claim =>
        rw [reply] at same
        cases claim with
        | inFlight logical => exact same rfl rfl
        | fresh rec =>
          obtain ⟨mine, withdrawn⟩ := claimDispose_fresh reply
          simp only [Stage.next, mine, if_true]
          refine ⟨fun inst known => known.symm.imp id ?_, fun _ h => .inl h⟩
          rintro rfl
          exact withdrawn
    | markCleanupPending writer => cases writer <;> exact same rfl rfl
    | _ => exact same rfl rfl
  | calls a =>
    cases a with
    | pendingCount k =>
      cases b with
      | zero => exact ⟨fun _ h => .inl h, fun _ h => h.symm.imp id fun same => ⟨rfl, same.symm⟩⟩
      | succ live => exact same rfl rfl
    | tryClaimCleanup k => cases b <;> exact same rfl rfl
    | _ => exact same rfl rfl
  | journal entry =>
    refine same ?_ ?_
    all_goals
      simp only [Stage.next]
      split <;> rfl
  | _ => exact same rfl rfl

theorem Known.move {o' : KObs depth} {s : Stage} (h : Known st o)
    (later : ∀ inst, Withdrawn o.mem.contexts inst → Withdrawn o'.mem.contexts inst)
    (own : ∀ inst ∈ s.withdrawn, inst ∈ (st i).withdrawn ∨ Withdrawn o'.mem.contexts inst) :
    Known (update st i s) o' := by
  intro j inst known
  by_cases mine : j = i
  · subst mine
    rw [update_self] at known
    exact (own inst known).elim (fun known => later inst (h j inst known)) id
  · rw [update_of_ne mine] at known
    exact later inst (h j inst known)

theorem preserved {ok : KObs depth → KLabel depth → Prop} :
    (stages depth).Preserved ok Known where
  start _ h _ _ := h.move (fun _ h => h) fun _ none => none.elim
  act _ h _ enabled _ :=
    h.move (fun _ h => withdrawn_acted h enabled) (learns _ enabled).1
  done _ h _ _ := h.move (fun _ h => h) fun _ none => none.elim
  env {st o event} h _ := by cases event <;> exact h

/-- Every run parks and disposes withdrawn contexts only. -/
theorem run_inOrder {ok : KObs depth → KLabel depth → Prop} {m₀ : KState}
    {c : Config (kernel depth)} (run : Run ok (.boot m₀) c) :
    Run (fun o label => ok o label ∧ inOrder o label) (.boot m₀) c := by
  refine preserved.enforces UnloadedOnce.code_follows (fun {st o i β a reply} known allows => ?_)
    (fun o label quiet => ?_) (fun _ _ none => none.elim) run
  · cases a with
    | ctx a =>
      cases a with
      | markDisposed k => exact known i k allows.2.1
      | markCleanupPending writer k cause =>
        cases writer with
        | parked => exact known i k allows.2
        | failed => exact known i k allows.2
        | refreshed => exact known i k allows
      | _ => trivial
    | _ => trivial
  · cases label with
    | act i a b => exact absurd rfl (quiet i _ a b)
    | start | done | env => trivial

/-- Whatever the threads do, a withdrawn activation is not live again. -/
theorem withdrawn_for_good {c c' : Config (kernel depth)} (run : Run (fun _ _ => True) c c')
    (h : Withdrawn c.mem.contexts inst) : Withdrawn c'.mem.contexts inst := by
  refine run.invariant (P := fun c => Withdrawn c.mem.contexts inst) (fun c _ c' h _ step => ?_) h
  cases step with
  | start | done => exact h
  | act running enabled => exact withdrawn_acted (a := _) h enabled
  | env event => cases event <;> exact h

theorem disposed_for_good : ∃ c : Config (kernel 1),
    ∀ c', Run (fun _ _ => True) c c' → Withdrawn c'.mem.contexts 1 := by
  obtain ⟨c, -, disposed⟩ := Config.reaches_freely (.boot (KState.boot 1))
    (P := fun c : Config (kernel 1) => c.mem.contexts.stateOf 1 = some .disposed) 100
    [.start 0 (.loadManifest (.component "p" ["x"] [] none)), .finish 0,
      .start 0 (.disposeInstance 1), .finish 0] (by decide +kernel)
  exact ⟨c, fun _ run => withdrawn_for_good run ⟨_, disposed, rfl⟩⟩

end MatrixRuntime.ContextOrder
