import MatrixRuntime.FinalizationRuns
import MatrixRuntime.OperationFrame
import MatrixRuntime.ContextFrame
import MatrixRuntime.ThreadStates

/-! An activation is unloaded once. A dispose that claims a live context, and a closer that
claims a parked one, hold a permit to end it. The permit is spent on the entry that
reports the end, or given back when the context is parked. One thread at a time
holds the permit of an instance, as long as the closers that claim a context find
it still parked. -/

namespace MatrixRuntime.UnloadPermits

open KernelContexts KernelTickets KernelState KernelActions InterleavedMachine
open KernelOperations ContextFrame ThreadStates Function
open FinalizationInvariant (wins)

variable {depth : Nat} {cause : Option String} {state : Fsm}

/-- The entry reports the end of the instance. -/
def unloads (inst : InstanceId) (entry : JournalEntry) : Bool :=
  decide (entry.kind = .pluginUnloaded ∧ entry.subject = inst)

/-- How often the journal reports the end of the instance. -/
def unloadCount (s : KState) (inst : InstanceId) : Nat := s.journal.countP (unloads inst)

/-- A dispose obtains the fresh claim of the instance. -/
def freshClaim (inst : InstanceId) : Label (kernel depth) → Bool
  | .act _ (KAct.ctx (.claimDispose k)) (.ok (.fresh _)) => decide (k = inst)
  | _ => false

def freshClaims (inst : InstanceId) (trace : List (Label (kernel depth))) : Nat :=
  trace.countP (freshClaim inst)

/-- A fault fails the instance. -/
def failsContext (inst : InstanceId) : Label (kernel depth) → Bool
  | .act _ (KAct.ctx (.markFailed k _)) _ => decide (k = inst)
  | _ => false

/-- No fault has failed the instance. -/
def Unfailed (inst : InstanceId) (trace : List (Label (kernel depth))) : Prop :=
  ∀ label ∈ trace, failsContext inst label = false

/-- Disposed, or failed by a fault. -/
def Ended (t : ContextTable) (inst : InstanceId) : Prop :=
  t.stateOf inst = some .disposed ∨ t.stateOf inst = some .failed

/-- A closer that takes the cleanup claim finds the context still parked. -/
def claimsParked (o : Obs (kernel depth)) : Label (kernel depth) → Prop
  | .act _ (KAct.calls (.tryClaimCleanup inst)) _ => o.mem.calls.cleanupClaims inst = false →
    o.mem.contexts.stateOf inst = some .cleanupPending
  | _ => True

/-- A closer that refreshes the cause finds the context still parked. -/
def refreshesParked (o : Obs (kernel depth)) : Label (kernel depth) → Prop
  | .act _ (KAct.ctx (.markCleanupPending .refreshed inst _)) _ =>
    o.mem.contexts.stateOf inst = some .cleanupPending
  | _ => True

def closesParked (o : Obs (kernel depth)) (label : Label (kernel depth)) : Prop :=
  claimsParked o label ∧ refreshesParked o label

/-! ### Permits -/

/-- What a thread holds: the permit to end an instance, and whether it has ended it; the cleanup
claim of an instance; the instances it has found gone or withdrawn itself; those that it knows to be
withdrawn; and those it has counted no ticket for. -/
structure Stage where
  permit : Option InstanceId
  ended : Bool
  claim : Option InstanceId
  gone : Set InstanceId
  withdrawn : Set InstanceId
  counted : Set InstanceId

namespace Stage

def rest : Stage := ⟨none, false, none, ∅, ∅, ∅⟩

/-- The thread finds that an instance is not live. -/
def sees (s : Stage) (k : InstanceId) (r : Option ContextRecord) : Stage :=
  { s with
    gone := insert k s.gone
    withdrawn := if r.isSome then insert k s.withdrawn else s.withdrawn }

abbrev allows {β : Type} (s : Stage) : KAct β → Prop
  | .ctx (.create _ state _) => state = .waiting ∨ state = .active
  | .ctx (.claimDispose _) => s.permit = none ∧ s.claim = none
  | .ctx (.markDisposed k) => s.permit = some k ∧ k ∈ s.withdrawn ∧ k ∈ s.counted
  | .ctx (.markCleanupPending .parked k _) => s.permit = some k ∧ k ∈ s.withdrawn
  | .ctx (.markCleanupPending .failed k _) => s.permit = some k ∧ k ∈ s.withdrawn
  | .ctx (.markCleanupPending .refreshed k _) => k ∈ s.withdrawn
  | .calls (.pendingCount k) => k ∈ s.withdrawn
  | .calls (.tryClaimCleanup _) => s.permit = none ∧ s.claim = none
  | .calls (.releaseCleanupClaim k) => s.claim = some k ∧ s.permit = none
  | .journal entry => entry.kind = .pluginUnloaded →
    s.permit = some entry.subject ∧ s.ended = true
  | _ => True

/-- A dispose that claims a live context and a closer that claims a parked one get the permit;
parking the context or reporting its end spends it. -/
def next {β : Type} (s : Stage) : KAct β → β → Stage
  | .ctx (.get k), r => if r.any (·.state.live) then s else s.sees k r
  | .ctx (.claimDispose k), .ok (.fresh rec) =>
    { s with
      permit := some rec.instanceId
      ended := false
      gone := insert k s.gone
      -- a claim is answered with the record of its own instance
      withdrawn := if rec.instanceId = k then insert k s.withdrawn else Set.univ
      counted := if rec.instanceId = k then s.counted else Set.univ }
  | .ctx (.claimDispose k), _ => { s with gone := insert k s.gone }
  | .ctx (.markDisposed _), _ => { s with ended := true }
  | .ctx (.markCleanupPending .parked _ _), _ => { s with permit := none }
  | .ctx (.markCleanupPending .failed _ _), _ => { s with permit := none }
  | .calls (.pendingCount k), 0 => { s with counted := insert k s.counted }
  | .calls (.tryClaimCleanup k), true =>
    { s with permit := some k, ended := false, claim := some k }
  | .calls (.releaseCleanupClaim _), _ => { s with claim := none }
  | .journal entry, _ => if entry.kind = .pluginUnloaded then { s with permit := none } else s
  | _, _ => s

end Stage

/-- A dispose returns once it knows its instance to be gone. -/
def stages (depth : Nat) : Protocol (kernel depth) Stage where
  idle := .rest
  enter _ := .rest
  allows := Stage.allows
  next := Stage.next
  leaves op _ s := ∀ k, op = .disposeInstance k → k ∈ s.gone

/-- What a thread can rely on. -/
structure Holds (m₀ : KState) (s : Stage) (m : KState) : Prop where
  closed : ∀ k, s.permit = some k → Withdrawn m.contexts k ∧ unloadCount m k = 0
  barred : ∀ k, s.permit = some k → s.claim ≠ some k →
    m.contexts.stateOf k ≠ some .cleanupPending
  ended : ∀ k, s.permit = some k → s.ended = true → Ended m.contexts k
  held : ∀ k, s.claim = some k → m.calls.cleanupClaims k = true
  gone : ∀ k ∈ s.gone, m₀.contexts.stateOf k ≠ none → Withdrawn m.contexts k

structure Inv (m₀ : KState) (st : Nat → Stage) (o : KObs depth) : Prop where
  holds : ∀ i, Holds m₀ (st i) o.mem
  alone : ∀ i j k, (st i).permit = some k → (st j).permit = some k → i = j
  sole : ∀ i j k, (st i).claim = some k → (st j).claim = some k → i = j
  reported : ∀ k, unloadCount o.mem k ≤ 1 ∧ (0 < unloadCount o.mem k → Ended o.mem.contexts k)
  fresh : ∀ k, freshClaims k o.trace ≤ 1 ∧ (0 < freshClaims k o.trace → Withdrawn o.mem.contexts k)
  claimed : ∀ k, ¬ Withdrawn m₀.contexts k → Unfailed k o.trace → Withdrawn o.mem.contexts k →
    freshClaims k o.trace = 1
  known : ∀ k, m₀.contexts.stateOf k ≠ none → o.mem.contexts.stateOf k ≠ none
  returned : ∀ i k res, Label.done i (.disposeInstance k) res ∈ o.trace →
    m₀.contexts.stateOf k ≠ none → Withdrawn o.mem.contexts k

/-! ### Steps -/

def fails {β : Type} : KAct β → InstanceId → Prop
  | .ctx (.markFailed k _), inst => k = inst
  | _, _ => False

/-- What a step of a thread at stage `s` does. The context of an instance is ended or parked, and
its end reported, only with the permit for it. -/
structure Effect (s : Stage) {β : Type} (a : KAct β) (b : β) (m m' : KState) : Prop where
  withdrawn : ∀ k, Withdrawn m.contexts k → Withdrawn m'.contexts k
  newly : ∀ k, Withdrawn m'.contexts k → Withdrawn m.contexts k ∨ wins a b k ∨ fails a k
  won : ∀ k, wins a b k → ¬ Withdrawn m.contexts k ∧ Withdrawn m'.contexts k
  known : ∀ k, m.contexts.stateOf k ≠ none → m'.contexts.stateOf k ≠ none
  ended : ∀ k, Ended m.contexts k → s.permit ≠ some k → Ended m'.contexts k
  parked : ∀ k, m'.contexts.stateOf k = some .cleanupPending → s.permit ≠ some k →
    m.contexts.stateOf k = some .cleanupPending
  count : ∀ k, s.permit ≠ some k → unloadCount m' k = unloadCount m k
  claims : ∀ k, m.calls.cleanupClaims k = true → s.claim ≠ some k →
    m'.calls.cleanupClaims k = true

section Step

variable {m₀ : KState} {st : Nat → Stage} {o : KObs depth} {i : Nat} {β : Type}
  {a : KAct β} {b : β} {s s' : Stage} {m mem : KState} {t : ContextTable} {k : InstanceId}

theorem Ended.withdrawn (h : Ended t k) : Withdrawn t k := by
  rcases h with h | h
  · exact ⟨_, h, rfl⟩
  · exact ⟨_, h, rfl⟩

theorem Holds.rest (m₀ m : KState) : Holds m₀ .rest m := by
  refine ⟨fun _ h => ?_, fun _ h => ?_, fun _ h => ?_, fun _ h => ?_, fun _ h => h.elim⟩ <;> cases h

/-- What another thread relies on stays. -/
theorem Holds.foreign (h : Holds m₀ s' m) (effect : Effect s a b m mem)
    (permit : ∀ k, s'.permit = some k → s.permit ≠ some k)
    (claim : ∀ k, s'.claim = some k → s.claim ≠ some k) : Holds m₀ s' mem where
  closed k own := by
    rw [effect.count k (permit k own)]
    exact ⟨effect.withdrawn k (h.closed k own).1, (h.closed k own).2⟩
  barred k own free parked := h.barred k own free (effect.parked k parked (permit k own))
  ended k own ended := effect.ended k (h.ended k own ended) (permit k own)
  held k own := effect.claims k (h.held k own) (claim k own)
  gone k seen began := effect.withdrawn k (h.gone k seen began)

theorem freshClaim_act : freshClaim k (.act i a b : KLabel depth) = true ↔ wins a b k := by
  cases a with
  | ctx a =>
    cases a with
    | claimDispose inst =>
      cases b with
      | error e => simp [freshClaim, wins]
      | ok claim => cases claim <;> simp [freshClaim, wins]
    | _ => simp [freshClaim, wins]
  | _ => simp [freshClaim, wins]

theorem freshClaims_act (h : ¬ wins a b k) :
    freshClaims k (o.acted i a b mem).trace = freshClaims k o.trace := by
  rw [freshClaims, Obs.acted_trace, List.countP_cons_of_neg (by rwa [freshClaim_act])]
  rfl

theorem freshClaims_won (h : wins a b k) :
    freshClaims k (o.acted i a b mem).trace = freshClaims k o.trace + 1 := by
  rw [freshClaims, Obs.acted_trace, List.countP_cons_of_pos (freshClaim_act.mpr h)]
  rfl

theorem Unfailed.past {label : KLabel depth} {past : List (KLabel depth)}
    (h : Unfailed k (label :: past)) : Unfailed k past :=
  fun l hl => h l (List.mem_cons_of_mem _ hl)

theorem Unfailed.not_fails (h : Unfailed k (o.acted i a b mem).trace) : ¬ fails a k := by
  intro hf
  have := h (.act i a b) (List.mem_cons_self ..)
  cases a with
  | ctx a =>
    cases a with
    | markFailed inst cause =>
      simp only [failsContext, decide_eq_false_iff_not] at this
      exact this hf
    | _ => exact hf.elim
  | _ => exact hf.elim

/-- The claims of the dispose that withdraws an instance are counted with its first withdrawal. -/
theorem Effect.fresh (effect : Effect s a b o.mem mem) (inv : Inv m₀ st o) (k : InstanceId) :
    freshClaims k (o.acted i a b mem).trace ≤ 1 ∧
      (0 < freshClaims k (o.acted i a b mem).trace → Withdrawn mem.contexts k) ∧
      (¬ Withdrawn m₀.contexts k → Unfailed k (o.acted i a b mem).trace →
        Withdrawn mem.contexts k → freshClaims k (o.acted i a b mem).trace = 1) := by
  by_cases won : wins a b k
  · obtain ⟨before, after⟩ := effect.won k won
    have none : freshClaims k o.trace = 0 :=
      Nat.eq_zero_of_not_pos fun pos => before ((inv.fresh k).2 pos)
    rw [freshClaims_won won, none]
    exact ⟨Nat.le_refl 1, fun _ => after, fun _ _ _ => rfl⟩
  · rw [freshClaims_act won]
    refine ⟨(inv.fresh k).1, fun pos => effect.withdrawn k ((inv.fresh k).2 pos),
      fun began unfailed withdrawn => inv.claimed k began unfailed.past ?_⟩
    exact (effect.newly k withdrawn).resolve_right (not_or.mpr ⟨won, unfailed.not_fails⟩)

theorem Inv.acted (inv : Inv m₀ st o) (effect : Effect (st i) a b o.mem mem) (own : Holds m₀ s' mem)
    (mine : ∀ k, (st i).permit = some k →
      unloadCount mem k ≤ 1 ∧ (0 < unloadCount mem k → Ended mem.contexts k))
    (permit : ∀ k, s'.permit = some k → (st i).permit = some k ∨ ∀ j, (st j).permit ≠ some k)
    (claim : ∀ k, s'.claim = some k → (st i).claim = some k ∨ ∀ j, (st j).claim ≠ some k) :
    Inv m₀ (update st i s') (o.acted i a b mem) := by
  have others : ∀ {f : Stage → Option InstanceId}, (∀ i j k, f (st i) = some k →
      f (st j) = some k → i = j) → (∀ k, f s' = some k → f (st i) = some k ∨
        ∀ j, f (st j) ≠ some k) → ∀ j j' k, f (update st i s' j) = some k →
      f (update st i s' j') = some k → j = j' := by
    intro f alone gains j j' k hj hj'
    by_cases hi : j = i <;> by_cases hi' : j' = i
    · exact hi.trans hi'.symm
    · subst hi
      rw [update_self] at hj
      rw [update_of_ne hi'] at hj'
      exact (gains k hj).elim (fun h => alone j j' k h hj') fun h => absurd hj' (h j')
    · subst hi'
      rw [update_of_ne hi] at hj
      rw [update_self] at hj'
      exact (gains k hj').elim (fun h => alone j j' k hj h) fun h => absurd hj (h j)
    · rw [update_of_ne hi] at hj
      rw [update_of_ne hi'] at hj'
      exact alone j j' k hj hj'
  refine ⟨fun j => ?_, others inv.alone permit, others inv.sole claim, fun k => ?_,
    fun k => ⟨(effect.fresh inv k).1, (effect.fresh inv k).2.1⟩,
    fun k => (effect.fresh inv k).2.2, fun k began => effect.known k (inv.known k began), ?_⟩
  · by_cases hj : j = i
    · subst hj
      rwa [update_self]
    · rw [update_of_ne hj]
      exact (inv.holds j).foreign effect (fun k h h' => hj (inv.alone j i k h h'))
        fun k h h' => hj (inv.sole j i k h h')
  · by_cases own : (st i).permit = some k
    · exact mine k own
    · rw [Obs.acted_mem, effect.count k own]
      exact ⟨(inv.reported k).1, fun pos => effect.ended k ((inv.reported k).2 pos) own⟩
  · intro j k res done began
    rcases List.mem_cons.mp done with done | done
    · cases done
    · exact effect.withdrawn k (inv.returned j k res done began)

/-! ### Actions that move no context -/

theorem Effect.still (contexts : mem.contexts = m.contexts)
    (count : ∀ k, s.permit ≠ some k → unloadCount mem k = unloadCount m k)
    (claims : ∀ k, m.calls.cleanupClaims k = true → s.claim ≠ some k →
      mem.calls.cleanupClaims k = true) (lost : ∀ k, ¬ wins a b k) : Effect s a b m mem where
  withdrawn k h := by rwa [contexts]
  newly k h := .inl (by rwa [contexts] at h)
  won k h := absurd h (lost k)
  known k h := by rwa [contexts]
  ended k h _ := by rwa [contexts]
  parked k h _ := by rwa [contexts] at h
  count := count
  claims := claims

/-! ### Actions that need no permit -/

theorem rest_permit (k : InstanceId) : Stage.rest.permit ≠ some k := (Option.some_ne_none k).symm

theorem Effect.mono (h : Effect .rest a b m mem) : Effect s a b m mem :=
  { h with
    ended := fun k ended _ => h.ended k ended (rest_permit k)
    parked := fun k parked _ => h.parked k parked (rest_permit k)
    count := fun k _ => h.count k (rest_permit k)
    claims := fun k claimed _ => h.claims k claimed (rest_permit k) }

theorem Inv.plain (inv : Inv m₀ st o) (effect : Effect .rest a b o.mem mem)
    (permit : s'.permit = (st i).permit) (ended : s'.ended = (st i).ended)
    (claim : s'.claim = (st i).claim) (gone : ∀ k ∈ s'.gone, k ∈ (st i).gone ∨
      (m₀.contexts.stateOf k ≠ none → Withdrawn mem.contexts k)) :
    Inv m₀ (update st i s') (o.acted i a b mem) := by
  have own := (inv.holds i).foreign effect (fun k _ => rest_permit k) fun k _ => rest_permit k
  refine inv.acted effect.mono ⟨?_, ?_, ?_, ?_, fun k seen began => ?_⟩ (fun k mine => ?_)
    (fun k h => .inl (permit ▸ h)) fun k h => .inl (claim ▸ h)
  · rw [permit]
    exact own.closed
  · rw [permit, claim]
    exact own.barred
  · rw [permit, ended]
    exact own.ended
  · rw [claim]
    exact own.held
  · exact (gone k seen).elim (fun h => own.gone k h began) fun h => h began
  · simp [(own.closed k mine).2]

/-- A context is moved to a state that is not live. -/
theorem Effect.revise (dead : state.live = false)
    (newly : m.contexts.stateOf k ≠ none → Withdrawn m.contexts k ∨ wins a b k ∨ fails a k)
    (ended : s.permit = some k ∨ ¬ Ended m.contexts k ∨ state = .failed)
    (parked : s.permit = some k ∨ state ≠ .cleanupPending ∨
      m.contexts.stateOf k = some .cleanupPending)
    (won : ∀ k', wins a b k' → k' = k ∧ m.contexts.stateOf k ≠ none ∧ ¬ Withdrawn m.contexts k) :
    Effect s a b m { m with contexts := m.contexts.revise k state cause } := by
  have others : ∀ k', k' ≠ k →
      (m.contexts.revise k state cause).stateOf k' = m.contexts.stateOf k' := fun k' h =>
    (ContextTable.revise_stateOf ..).trans (if_neg h)
  have now : (m.contexts.revise k state cause).stateOf k =
      (m.contexts.stateOf k).map fun _ => state :=
    (ContextTable.revise_stateOf ..).trans (if_pos rfl)
  have after : m.contexts.stateOf k ≠ none →
      (m.contexts.revise k state cause).stateOf k = some state := by
    intro known
    obtain ⟨before, h⟩ := Option.ne_none_iff_exists'.mp known
    rw [now, h]
    rfl
  have known : ∀ {k'}, Withdrawn m.contexts k' → m.contexts.stateOf k' ≠ none := by
    rintro k' ⟨s, hs, -⟩
    simp [hs]
  refine ⟨fun k' h => ?_, fun k' h => ?_, fun k' h => ?_, fun k' h => ?_, fun k' h own => ?_,
    fun k' h own => ?_, fun _ _ => rfl, fun _ h _ => h⟩
  · by_cases hk : k' = k
    · subst hk
      exact ⟨state, after (known h), dead⟩
    · exact h.of_same (others k' hk)
  · by_cases hk : k' = k
    · subst hk
      refine newly fun unknown => ?_
      obtain ⟨s, hs, -⟩ := h
      rw [now, unknown] at hs
      cases hs
    · exact .inl (h.of_same (others k' hk).symm)
  · obtain ⟨rfl, known, before⟩ := won k' h
    exact ⟨before, state, after known, dead⟩
  · by_cases hk : k' = k
    · subst hk
      simp [after h]
    · rwa [others k' hk]
  · by_cases hk : k' = k
    · subst hk
      rcases ended with permit | unended | failed
      · exact absurd permit own
      · exact absurd h unended
      · exact .inr (failed ▸ after (known h.withdrawn))
    · rwa [Ended, others k' hk]
  · by_cases hk : k' = k
    · subst hk
      rcases parked with permit | other | parked
      · exact absurd permit own
      · rw [now] at h
        obtain ⟨_, _, hs⟩ := Option.map_eq_some_iff.mp h
        exact absurd hs other
      · exact parked
    · rwa [others k' hk] at h

/-- Contexts that are not withdrawn may become live. -/
theorem Effect.live (moved : ∀ k, t.stateOf k = m.contexts.stateOf k ∨
    ¬ Withdrawn m.contexts k ∧ ∃ state, t.stateOf k = some state ∧ state.live = true)
    (lost : ∀ k, ¬ wins a b k) : Effect s a b m { m with contexts := t } := by
  refine ⟨fun k h => ?_, fun k h => .inl ?_, fun k h => absurd h (lost k), fun k h => ?_,
    fun k h _ => ?_, fun k h _ => ?_, fun _ _ => rfl, fun _ h _ => h⟩
  all_goals rcases moved k with same | ⟨before, state, after, live⟩
  · exact h.of_same same
  · exact absurd h before
  · exact h.of_same same.symm
  · obtain ⟨s, hs, dead⟩ := h
    rw [after, Option.some.injEq] at hs
    simp [← hs, live] at dead
  · rwa [same]
  · simp [after]
  · rwa [Ended, same]
  · exact absurd h.withdrawn before
  · rwa [same] at h
  · rw [after, Option.some.injEq] at h
    subst h
    cases live

theorem awaiting_not_withdrawn (h : t.stateOf k = some state)
    (wait : state.awaiting = true) : ¬ Withdrawn t k := by
  rintro ⟨s', hs', dead⟩
  rw [h, Option.some.injEq] at hs'
  simp [← hs', Fsm.live_of_awaiting wait] at dead

/-! ### Every action -/

theorem Stage.next_stale {r : Except ContextError DisposeClaim}
    (stale : ∀ rec, r ≠ .ok (.fresh rec)) (s : Stage) :
    s.next (KAct.ctx (.claimDispose k)) r = { s with gone := insert k s.gone } := by
  cases r with
  | error e => rfl
  | ok claim =>
    cases claim with
    | fresh rec => exact absurd rfl (stale rec)
    | inFlight logical => rfl

theorem Inv.claimDispose (inv : Inv m₀ st o) (allows : (st i).allows (KAct.ctx (.claimDispose k))) :
    Inv m₀ (update st i ((st i).next (KAct.ctx (.claimDispose k))
        (o.mem.contexts.claimDispose k).1))
      (o.acted i (KAct.ctx (.claimDispose k)) (o.mem.contexts.claimDispose k).1
        { o.mem with contexts := (o.mem.contexts.claimDispose k).2 }) := by
  have gone : ∀ k' ∈ insert k (st i).gone, k' ∈ (st i).gone ∨ (m₀.contexts.stateOf k' ≠ none →
      Withdrawn (o.mem.contexts.claimDispose k).2 k') := by
    rintro k' (rfl | seen)
    · exact .inr fun began => claimDispose_withdraws (inv.known k' began)
    · exact .inl seen
  rcases o.mem.contexts.claimDispose_cases k with ⟨same, stale⟩ | ⟨rec, found, live, claim⟩
  · rw [Stage.next_stale stale]
    refine inv.plain (.still same (fun _ _ => rfl) (fun _ h _ => h) fun k' won => ?_) rfl rfl rfl
      gone
    cases reply : (o.mem.contexts.claimDispose k).1 with
    | error e =>
      rw [reply] at won
      exact won
    | ok claim =>
      rw [reply] at won
      cases claim with
      | fresh r => exact stale r reply
      | inFlight logical => exact won
  · have state := ContextTable.stateOf_of_byInstance found
    have before : ¬ Withdrawn o.mem.contexts k := by
      rintro ⟨s, hs, dead⟩
      rw [state, Option.some.injEq] at hs
      simp [← hs, live] at dead
    have reply : (o.mem.contexts.claimDispose k).1 =
      .ok (.fresh { rec with state := .quiescing, cause := none }) := by rw [claim]
    have mine : rec.instanceId = k := (claimDispose_fresh reply).1
    have after : (o.mem.contexts.claimDispose k).2.stateOf k = some .quiescing := by
      rw [claim, ContextTable.revise_stateOf, if_pos rfl, state]
      rfl
    have none : unloadCount o.mem k = 0 := Nat.eq_zero_of_not_pos fun pos =>
      before ((inv.reported k).2 pos).withdrawn
    have effect : Effect (st i) (KAct.ctx (.claimDispose k)) (o.mem.contexts.claimDispose k).1
        o.mem { o.mem with contexts := (o.mem.contexts.claimDispose k).2 } := by
      rw [claim]
      refine .revise rfl (fun _ => .inr (.inl rfl)) (.inr (.inl fun h => before h.withdrawn))
        (.inr (.inl (by simp))) fun k' won => ?_
      obtain rfl : k = k' := won
      exact ⟨rfl, by simp [state], before⟩
    have next : (st i).next (KAct.ctx (.claimDispose k)) (o.mem.contexts.claimDispose k).1 =
        ⟨some k, false, (st i).claim, insert k (st i).gone, insert k (st i).withdrawn,
          (st i).counted⟩ := by
      simp only [reply, Stage.next, mine, if_true]
    rw [next]
    refine inv.acted effect ⟨?_, ?_, fun _ _ h => (by cases h), ?_, ?_⟩ (fun k' h => ?_) ?_
      fun k' h => .inl h
    · rintro k' ⟨⟩
      exact ⟨⟨_, after, rfl⟩, none⟩
    · rintro k' ⟨⟩ -
      simp [after]
    · exact (inv.holds i).held
    · exact fun k' seen began => (gone k' seen).elim
        (fun h => effect.withdrawn k' ((inv.holds i).gone k' h began)) fun h => h began
    · rw [allows.1] at h
      cases h
    · rintro k' ⟨⟩
      exact .inr fun j h => before ((inv.holds j).closed k h).1

/-- The thread moves the context it has the permit for. -/
theorem Inv.spend {a : ContextAct Unit} (inv : Inv m₀ st o) (own : (st i).permit = some k)
    (dead : state.live = false)
    (lost : ∀ k', ¬ wins (KAct.ctx a) () k')
    (permit : s'.permit = none ∨ s'.permit = some k ∧ state = .disposed)
    (claim : s'.claim = (st i).claim) (gone : s'.gone = (st i).gone) :
    Inv m₀ (update st i s') (o.acted i (KAct.ctx a) ()
      { o.mem with contexts := o.mem.contexts.revise k state cause }) := by
  obtain ⟨closed, none⟩ := (inv.holds i).closed k own
  have effect : Effect (st i) (KAct.ctx a) () o.mem
      { o.mem with contexts := o.mem.contexts.revise k state cause } :=
    .revise dead (fun _ => .inl closed) (.inl own) (.inl own) fun k' won => absurd won (lost k')
  have disposed : ∀ k', s'.permit = some k' → k' = k ∧
      (o.mem.contexts.revise k state cause).stateOf k = some .disposed := by
    intro k' h
    rcases permit with none | ⟨same, rfl⟩
    · rw [none] at h
      cases h
    · rw [same, Option.some.injEq] at h
      obtain ⟨s, hs, -⟩ := closed
      refine ⟨h.symm, ?_⟩
      rw [ContextTable.revise_stateOf, if_pos rfl, hs]
      rfl
  refine inv.acted effect ⟨fun k' h => ?_, fun k' h _ => ?_, fun k' h _ => ?_, ?_, ?_⟩
    (fun k' h => ?_) (fun k' h => .inl ?_) fun k' h => .inl (claim ▸ h)
  · obtain ⟨rfl, -⟩ := disposed k' h
    exact ⟨effect.withdrawn _ closed, none⟩
  · obtain ⟨rfl, after⟩ := disposed k' h
    simp [after]
  · obtain ⟨rfl, after⟩ := disposed k' h
    exact .inl after
  · rw [claim]
    exact (inv.holds i).held
  · rw [gone]
    exact fun k' seen began => effect.withdrawn k' ((inv.holds i).gone k' seen began)
  · rw [own, Option.some.injEq] at h
    subst h
    have none : unloadCount { o.mem with contexts := o.mem.contexts.revise k state cause } k = 0 :=
      none
    simp [none]
  · exact (disposed k' h).1 ▸ own

theorem Inv.context {a : ContextAct β} (inv : Inv m₀ st o) (allows : (st i).allows (KAct.ctx a))
    (ok : refreshesParked o (.act i (KAct.ctx a) (a.run o.mem.contexts).1)) :
    Inv m₀ (update st i ((st i).next (KAct.ctx a) (a.run o.mem.contexts).1))
      (o.acted i (KAct.ctx a) (a.run o.mem.contexts).1
        { o.mem with contexts := (a.run o.mem.contexts).2 }) := by
  cases a with
  | epoch | current | currentAll | requireActive =>
    exact inv.plain (.still rfl (fun _ _ => rfl) (fun _ h _ => h) fun _ won => won) rfl rfl rfl
      fun _ h => .inl h
  | get inst =>
    have effect : Effect .rest (KAct.ctx (.get inst)) (o.mem.contexts.byInstance inst) o.mem
      o.mem := .still rfl (fun _ _ => rfl) (fun _ h _ => h) fun _ won => won
    by_cases live : (o.mem.contexts.byInstance inst).any (·.state.live) = true
    · have stays : (st i).next (KAct.ctx (.get inst)) (o.mem.contexts.byInstance inst) = st i :=
        if_pos live
      rw [ContextAct.run, stays]
      exact inv.plain effect rfl rfl rfl fun _ h => .inl h
    · have sees : (st i).next (KAct.ctx (.get inst)) (o.mem.contexts.byInstance inst) =
        (st i).sees inst (o.mem.contexts.byInstance inst) := if_neg live
      rw [ContextAct.run, sees]
      refine inv.plain effect rfl rfl rfl ?_
      rintro k (rfl | seen)
      · refine .inr fun began => ?_
        cases found : o.mem.contexts.byInstance k with
        | none =>
          refine absurd ?_ (inv.known k began)
          rw [ContextTable.stateOf, found]
          rfl
        | some rec =>
          refine ⟨_, ContextTable.stateOf_of_byInstance found, ?_⟩
          simpa [found] using live
      · exact .inl seen
  | create logical state cause =>
    refine inv.plain (.live (fun k => ?_) fun _ won => won) rfl rfl rfl fun _ h => .inl h
    simp only [ContextAct.run, ContextTable.createIn_stateOf]
    split
    next new =>
      refine .inr ⟨fun h => absurd h.lt (by simp [new]), state, rfl, ?_⟩
      rcases allows with rfl | rfl <;> rfl
    · exact .inl rfl
  | claimDispose inst => exact inv.claimDispose allows
  | markDisposed inst =>
    exact inv.spend allows.1 rfl (fun _ won => won) (.inr ⟨allows.1, rfl⟩) rfl rfl
  | markCleanupPending writer inst cause =>
    cases writer with
    | parked => exact inv.spend allows.1 rfl (fun _ won => won) (.inl rfl) rfl rfl
    | failed => exact inv.spend allows.1 rfl (fun _ won => won) (.inl rfl) rfl rfl
    | refreshed =>
      have parked : o.mem.contexts.stateOf inst = some .cleanupPending := ok
      refine inv.plain (.revise rfl (fun _ => .inl ⟨_, parked, rfl⟩) (.inr (.inl ?_))
        (.inr (.inr parked)) fun _ won => won.elim) rfl rfl rfl fun _ h => .inl h
      rintro (h | h) <;> simp [parked] at h
  | markFailed inst cause =>
    exact inv.plain (.revise rfl (fun _ => .inr (.inr rfl)) (.inr (.inr rfl)) (.inr (.inl (by simp)))
      fun _ won => won.elim) rfl rfl rfl fun _ h => .inl h
  | markActive inst =>
    refine inv.plain (.live (fun k => ?_) fun _ won => won) rfl rfl rfl fun _ h => .inl h
    rcases o.mem.contexts.markActive_stateOf inst k with same | ⟨now, s, hs, wait⟩
    · exact .inl same
    · exact .inr ⟨awaiting_not_withdrawn hs wait, _, now, rfl⟩
  | markWaiting inst cause =>
    refine inv.plain (.live (fun k => ?_) fun _ won => won) rfl rfl rfl fun _ h => .inl h
    rcases o.mem.contexts.markWaiting_stateOf inst k cause with same | ⟨now, s, hs, wait⟩
    · exact .inl same
    · exact .inr ⟨awaiting_not_withdrawn hs wait, _, now, rfl⟩

theorem Inv.tryClaim (inv : Inv m₀ st o) (allows : (st i).allows (KAct.calls (.tryClaimCleanup k)))
    (ok : o.mem.calls.cleanupClaims k = false → o.mem.contexts.stateOf k = some .cleanupPending) :
    Inv m₀ (update st i ((st i).next (KAct.calls (.tryClaimCleanup k))
        (o.mem.calls.tryClaimCleanup k).1))
      (o.acted i (KAct.calls (.tryClaimCleanup k)) (o.mem.calls.tryClaimCleanup k).1
        { o.mem with calls := (o.mem.calls.tryClaimCleanup k).2 }) := by
  have claims : ∀ k', o.mem.calls.cleanupClaims k' = true →
      (o.mem.calls.tryClaimCleanup k).2.cleanupClaims k' = true := by
    intro k' h
    by_cases hk : k' = k
    · simp [CallsTable.tryClaimCleanup, hk]
    · simpa [CallsTable.tryClaimCleanup, hk] using h
  have effect : ∀ s b, Effect s (KAct.calls (.tryClaimCleanup k)) b o.mem
      { o.mem with calls := (o.mem.calls.tryClaimCleanup k).2 } := fun s b =>
    .still rfl (fun _ _ => rfl) (fun k' h _ => claims k' h) fun _ won => won
  cases free : o.mem.calls.cleanupClaims k with
  | true =>
    have reply : (o.mem.calls.tryClaimCleanup k).1 = false := by
      simp [CallsTable.tryClaimCleanup, free]
    rw [reply]
    exact inv.plain (effect _ _) rfl rfl rfl fun _ h => .inl h
  | false =>
    have reply : (o.mem.calls.tryClaimCleanup k).1 = true := by
      simp [CallsTable.tryClaimCleanup, free]
    have parked := ok free
    have unclaimed : ∀ j, (st j).claim ≠ some k := by
      intro j hj
      simp [(inv.holds j).held k hj] at free
    have none : unloadCount o.mem k = 0 := by
      refine Nat.eq_zero_of_not_pos fun pos => ?_
      rcases (inv.reported k).2 pos with h | h <;> simp [parked] at h
    rw [reply]
    refine inv.acted (effect _ _) ⟨?_, ?_, fun _ _ h => (by cases h), ?_, (inv.holds i).gone⟩
      (fun k' h => ?_) ?_ ?_
    · rintro k' ⟨⟩
      exact ⟨⟨_, parked, rfl⟩, none⟩
    · rintro k' ⟨⟩ other
      exact absurd rfl other
    · rintro k' ⟨⟩
      simp [CallsTable.tryClaimCleanup]
    · rw [allows.1] at h
      cases h
    · rintro k' ⟨⟩
      exact .inr fun j h => (inv.holds j).barred k h (unclaimed j) parked
    · rintro k' ⟨⟩
      exact .inr unclaimed

theorem Inv.ticket {a : TicketAct β} (inv : Inv m₀ st o) (allows : (st i).allows (KAct.calls a))
    (ok : claimsParked o (.act i (KAct.calls a) (a.run o.mem.calls).1)) :
    Inv m₀ (update st i ((st i).next (KAct.calls a) (a.run o.mem.calls).1))
      (o.acted i (KAct.calls a) (a.run o.mem.calls).1
        { o.mem with calls := (a.run o.mem.calls).2 }) := by
  have calm : (a.run o.mem.calls).2.cleanupClaims = o.mem.calls.cleanupClaims →
      (st i).next (KAct.calls a) (a.run o.mem.calls).1 = st i →
      Inv m₀ (update st i ((st i).next (KAct.calls a) (a.run o.mem.calls).1))
        (o.acted i (KAct.calls a) (a.run o.mem.calls).1
          { o.mem with calls := (a.run o.mem.calls).2 }) := by
    intro claims same
    rw [same]
    refine inv.plain (.still rfl (fun _ _ => rfl) (fun k h _ => ?_) fun _ won => won) rfl rfl rfl
      fun _ h => .inl h
    rwa [claims]
  cases a with
  | tryClaimCleanup inst => exact inv.tryClaim allows ok
  | releaseCleanupClaim inst =>
    have permit : ∀ k, (st i).permit ≠ some k := fun k h => by
      rw [allows.2] at h
      cases h
    refine inv.acted (.still rfl (fun _ _ => rfl) (fun k h other => ?_) fun _ won => won)
      ⟨fun k h => absurd h (permit k), fun k h => absurd h (permit k),
        fun k h => absurd h (permit k), fun k h => (by cases h), (inv.holds i).gone⟩
      (fun k h => absurd h (permit k)) (fun k h => .inl h) fun k h => by cases h
    · have hk : k ≠ inst := fun hk => other (hk ▸ allows.1)
      simpa [TicketAct.run, CallsTable.releaseCleanupClaim, hk] using h
  | remove => exact calm rfl rfl
  | pendingCount k =>
    have counts : ∀ live : Nat, Inv m₀
        (update st i ((st i).next (KAct.calls (.pendingCount k)) live))
        (o.acted i (KAct.calls (.pendingCount k)) live o.mem) := by
      intro live
      have effect : Effect .rest (KAct.calls (.pendingCount k)) live o.mem o.mem :=
        .still rfl (fun _ _ => rfl) (fun _ h _ => h) fun _ won => won
      cases live <;> exact inv.plain effect rfl rfl rfl fun _ h => .inl h
    exact counts _
  | _ => exact calm (FinalizationInvariant.calmTicket_claims (by exact trivial) _) rfl

theorem unloadCount_journal (s : KState) (entry : JournalEntry) (k : InstanceId) :
    unloadCount { s with journal := s.journal ++ [entry] } k =
      unloadCount s k + if unloads k entry then 1 else 0 := by
  simp [unloadCount, List.countP_append, List.countP_singleton]

theorem Inv.journal {entry : JournalEntry} (inv : Inv m₀ st o)
    (allows : (st i).allows (KAct.journal entry)) :
    Inv m₀ (update st i ((st i).next (KAct.journal entry) ()))
      (o.acted i (KAct.journal entry) () { o.mem with journal := o.mem.journal ++ [entry] }) := by
  have count : ∀ s : Stage, (entry.kind = .pluginUnloaded → s.permit = some entry.subject) →
      Effect s (KAct.journal entry) () o.mem
        { o.mem with journal := o.mem.journal ++ [entry] } := by
    refine fun s own => .still rfl (fun k other => ?_) (fun _ h _ => h) fun _ won => won
    have quiet : ¬ unloads k entry = true := fun h =>
      other ((of_decide_eq_true h).2 ▸ own (of_decide_eq_true h).1)
    rw [unloadCount_journal, if_neg quiet]
    rfl
  by_cases kind : entry.kind = .pluginUnloaded
  · obtain ⟨own, ended⟩ := allows kind
    have spends : (st i).next (KAct.journal entry) () = { st i with permit := none } :=
      if_pos kind
    rw [spends]
    refine inv.acted (count _ fun _ => own) ⟨fun _ h => ?_, fun _ h => ?_, fun _ h => ?_,
      (inv.holds i).held, (inv.holds i).gone⟩ (fun k h => ?_) (fun _ h => ?_) fun _ h => .inl h
    · cases h
    · cases h
    · cases h
    · rw [unloadCount_journal, ((inv.holds i).closed k h).2]
      exact ⟨by split <;> omega, fun _ => (inv.holds i).ended k h ended⟩
    · cases h
  · have stays : (st i).next (KAct.journal entry) () = st i := if_neg kind
    rw [stays]
    exact inv.plain (count _ fun h => absurd h kind) rfl rfl rfl fun _ h => .inl h

theorem Inv.act (inv : Inv m₀ st o) (allows : (st i).allows a)
    (enabled : a.sem o.mem = some (b, mem)) (ok : closesParked o (.act i a b)) :
    Inv m₀ (update st i ((st i).next a b)) (o.acted i a b mem) := by
  have other : a.onTable = false → mem.journal = o.mem.journal → (∀ k, ¬ wins a b k) →
      (st i).next a b = st i →
      Inv m₀ (update st i ((st i).next a b)) (o.acted i a b mem) := by
    intro off journal lost same
    have tables := KAct.sem_sameTables enabled off
    rw [same]
    refine inv.plain (.still tables.contexts (fun k _ => ?_) (fun k h _ => ?_) lost) rfl rfl rfl
      fun _ h => .inl h
    · rw [unloadCount, journal]
      rfl
    · rwa [tables.calls]
  cases a with
  | ctx a =>
    cases enabled
    exact inv.context allows ok.2
  | calls a =>
    cases enabled
    exact inv.ticket allows ok.1
  | journal entry =>
    cases enabled
    exact inv.journal allows
  | res a | pub a | comp a =>
    cases enabled
    exact inv.plain (.still rfl (fun _ _ => rfl) (fun _ h _ => h) fun _ won => won) rfl rfl rfl
      fun _ h => .inl h
  | grant a =>
    refine other rfl ?_ (fun _ won => won) rfl
    cases a <;>
    · cases enabled
      rfl
  | lockAdmit | awaitSettled =>
    refine other rfl ?_ (fun _ won => won) rfl
    simp only [KAct.sem] at enabled
    split_ifs at enabled <;>
    · cases enabled
      rfl
  | _ =>
    refine other rfl ?_ (fun _ won => won) rfl
    cases enabled
    rfl

end Step

end MatrixRuntime.UnloadPermits
