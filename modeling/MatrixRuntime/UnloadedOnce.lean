import MatrixRuntime.UnloadPermits

/-! Every operation keeps the permits, so that in every run whose closers find the contexts
they claim still parked, one dispose of an instance wins and its end is reported at
most once. -/

namespace MatrixRuntime.UnloadedOnce

open KernelContexts KernelState KernelActions KernelReconcile InterleavedProgram
open InterleavedMachine KernelOperations ReconcileFrame ContextFrame
open UnloadPermits ThreadStates Function
open FinalizationRuns (twoCallsParked)
open OperationFrame (outer operation_settles)

variable {depth : Nat} {m₀ : KState} {o : KObs depth} {α : Type} {p : KProg α}
  {label : KLabel depth} {permit claim : Option InstanceId} {gone : Set InstanceId}
  {s : Stage} {inst : InstanceId}

/-- What the thread holds, and what it has seen to be gone; it knows what it has the permit for to
be withdrawn. -/
structure Has (permit claim : Option InstanceId) (gone : Set InstanceId) (s : Stage) : Prop where
  permit : s.permit = permit
  claim : s.claim = claim
  gone : gone ⊆ s.gone
  known : ∀ k, s.permit = some k → k ∈ s.withdrawn

abbrev Rest : Set InstanceId → Stage → Prop := Has none none

theorem Has.rest (permit : s.permit = none) (claim : s.claim = none) (seen : gone ⊆ s.gone) :
    Rest gone s :=
  ⟨permit, claim, seen, fun k mine => absurd (permit ▸ mine) (Option.some_ne_none k).symm⟩

theorem Has.weaken (h : Has permit claim (insert inst gone) s) : Has permit claim gone s :=
  ⟨h.permit, h.claim, (Set.subset_insert ..).trans h.gone, h.known⟩

theorem Has.sees (h : Has permit claim gone s) (inst : InstanceId) (r : Option ContextRecord) :
    Has permit claim (insert inst gone) (s.sees inst r) := by
  refine ⟨h.permit, h.claim, Set.insert_subset_insert h.gone, fun k mine => ?_⟩
  cases r with
  | none => exact h.known k mine
  | some r => exact .inr (h.known k mine)

theorem Has.get (h : Has permit claim gone s) (inst : InstanceId) (r : Option ContextRecord) :
    Has permit claim gone (s.next (KAct.ctx (.get inst)) r) := by
  simp only [Stage.next]
  split
  · exact h
  · exact (h.sees inst r).weaken

theorem Has.dead (h : Has permit claim gone s) {r : Option ContextRecord}
    (dead : r.any (·.state.live) = false) :
    Has permit claim (insert inst gone) (s.next (KAct.ctx (.get inst)) r) := by
  simp only [Stage.next, dead, Bool.false_eq_true, if_false]
  exact h.sees inst r

theorem knows_parked {rec : ContextRecord} (parked : rec.state.canonical = .cleanupPending)
    (s : Stage) (inst : InstanceId) :
    inst ∈ (s.next (KAct.ctx (.get inst)) (some rec)).withdrawn := by
  have state := Fsm.canonical_eq_cleanupPending.mp parked
  have dead : (some rec).any (·.state.live) = false := by
    rw [Option.any_some, state]
    rfl
  simp [Stage.next, dead, Stage.sees]

/-- Actions outside disposals and finalizations are allowed, and change nothing held. -/
theorem Has.outer {β : Type} {a : KAct β} (h : Has permit claim gone s) (ha : outer β a) :
    s.allows a ∧ ∀ b, Has permit claim gone (s.next a b) := by
  cases a with
  | ctx a =>
    cases a with
    | get inst => exact ⟨trivial, h.get inst⟩
    | _ => first | exact ha.elim | exact ⟨ha, fun _ => h⟩
  | calls a => cases a <;> first | exact ha.elim | exact ⟨trivial, fun _ => h⟩
  | journal entry =>
    have kind : entry.kind ≠ .pluginUnloaded := by
      intro kind
      simp only [OperationFrame.outer, kind] at ha
      exact ha
    refine ⟨fun h => absurd h kind, fun _ => ?_⟩
    simp only [Stage.next, if_neg kind]
    exact h
  | _ => exact ⟨trivial, fun _ => h⟩

theorem Has.count (h : Has permit claim gone s) (inst : InstanceId) (live : Nat) :
    Has permit claim gone (s.next (KAct.calls (.pendingCount inst)) live) := by
  cases live <;> exact ⟨h.permit, h.claim, h.gone, h.known⟩

theorem Has.composed (h : Has permit claim gone s)
    (hp : Composed OperationFrame.outer (fun _ _ => False) p) :
    (stages depth).Follows p (fun _ => Has permit claim gone) s :=
  .within hp (fun _ _ _ ha h => h.outer ha) (fun _ _ _ none => none.elim) h

theorem Has.withdraws (h : Has permit claim gone s) (hp : Withdraws p) :
    (stages depth).Follows p (fun _ => Has permit claim gone) s :=
  h.composed hp.relax

instance : Included releasing OperationFrame.outer where

theorem Has.releases (h : Has permit claim gone s) (hp : Releases p) :
    (stages depth).Follows p (fun _ => Has permit claim gone) s :=
  h.composed hp.relax

theorem next_keeps {β : Type} (s : Stage) (a : KAct β) (b : β) :
    s.withdrawn ⊆ (s.next a b).withdrawn ∧ s.counted ⊆ (s.next a b).counted := by
  cases a with
  | ctx a =>
    cases a with
    | get k =>
      simp only [Stage.next, Stage.sees]
      split_ifs <;> exact ⟨by simp, subset_rfl⟩
    | claimDispose k =>
      cases b with
      | error e => exact ⟨subset_rfl, subset_rfl⟩
      | ok claim =>
        cases claim with
        | inFlight => exact ⟨subset_rfl, subset_rfl⟩
        | fresh rec =>
          simp only [Stage.next]
          split_ifs <;> exact ⟨by simp, by simp⟩
    | markCleanupPending writer => cases writer <;> exact ⟨subset_rfl, subset_rfl⟩
    | _ => exact ⟨subset_rfl, subset_rfl⟩
  | calls a =>
    cases a with
    | pendingCount k =>
      cases b with
      | zero => exact ⟨subset_rfl, Set.subset_insert ..⟩
      | succ live => exact ⟨subset_rfl, subset_rfl⟩
    | tryClaimCleanup k => cases b <;> exact ⟨subset_rfl, subset_rfl⟩
    | _ => exact ⟨subset_rfl, subset_rfl⟩
  | journal entry =>
    simp only [Stage.next]
    split <;> exact ⟨subset_rfl, subset_rfl⟩
  | _ => exact ⟨subset_rfl, subset_rfl⟩

/-- Nothing makes a thread forget what it knows and has counted. -/
theorem follows_keeps {Q : α → Stage → Prop} (hp : (stages depth).Follows p Q s) :
    (stages depth).Follows p (fun value s' => Q value s' ∧ s.withdrawn ⊆ s'.withdrawn ∧
      s.counted ⊆ s'.counted) s := by
  suffices ∀ s₀ : Stage, s₀.withdrawn ⊆ s.withdrawn ∧ s₀.counted ⊆ s.counted →
      (stages depth).Follows p (fun value s' => Q value s' ∧ s₀.withdrawn ⊆ s'.withdrawn ∧
        s₀.counted ⊆ s'.counted) s from this s ⟨subset_rfl, subset_rfl⟩
  intro s₀ before
  induction p generalizing s with
  | pure value => exact ⟨hp, before⟩
  | act action rest ih =>
    refine ⟨hp.1, fun reply => ih reply (hp.2 reply) ?_⟩
    have kept := next_keeps s action reply
    exact ⟨before.1.trans kept.1, before.2.trans kept.2⟩
  | blocked => trivial

/-- The thread ends the context it has the permit for, reports it and goes on. -/
theorem Has.ends {next : KProg α} {Q : α → Stage → Prop} (h : Has (some inst) claim gone s)
    (counted : inst ∈ s.counted) (logical reason : String)
    (rest : ∀ s, Has none claim gone s → (stages depth).Follows next Q s) :
    (stages depth).Follows (do
      ctx (.markDisposed inst)
      comp (.markPlugin logical inst .disposed)
      journal logical .pluginUnloaded inst reason
      next) Q s :=
  ⟨⟨h.permit, h.known inst h.permit, counted⟩, fun _ => ⟨trivial, fun _ =>
    ⟨fun _ => ⟨h.permit, rfl⟩, fun _ => rest _ ⟨rfl, h.claim, h.gone, by rintro _ ⟨⟩⟩⟩⟩⟩

section Dispose

variable {again : KProg Unit}

theorem refreshCleanupCause_follows (h : Rest gone s) :
    (stages depth).Follows (refreshCleanupCause inst) (fun _ => Rest gone) s := by
  refine ⟨trivial, fun rec => ?_⟩
  have h := h.get inst rec
  cases rec with
  | none => exact h
  | some rec =>
    change (stages depth).Follows (if _ then _ else _) _ _
    split_ifs with parked
    · exact h
    · exact ⟨trivial, fun _ => ⟨knows_parked (not_not.mp parked) s inst, fun _ => h⟩⟩
    · exact h

theorem maybeFinalize_follows
    (hagain : ∀ s, Rest gone s → (stages depth).Follows again (fun _ => Rest gone) s)
    (inst : InstanceId) (h : Rest gone s) :
    (stages depth).Follows (maybeFinalize again inst) (fun _ => Rest gone) s := by
  refine ⟨trivial, fun rec => ?_⟩
  have h := h.get inst rec
  cases rec with
  | none => exact h
  | some rec =>
    change (stages depth).Follows (if _ then _ else _) _ _
    split_ifs with parked
    · exact h
    · have known := knows_parked (not_not.mp parked) s inst
      refine ⟨known, fun live => ?_⟩
      change (stages depth).Follows (if _ then _ else _) _ _
      cases live with
      | succ live =>
        have h := h.count inst (live + 1)
        exact refreshCleanupCause_follows h
      | zero =>
        refine ⟨⟨h.permit, h.claim⟩, fun claimed => ?_⟩
        cases claimed with
        | false => exact h.count inst 0
        | true =>
          have held : Has (some inst) (some inst) gone
            (((s.next (KAct.ctx (.get inst)) (some rec)).next (KAct.calls (.pendingCount inst))
              0).next (KAct.calls (.tryClaimCleanup inst)) true) := ⟨rfl, rfl, h.gone, by
            rintro _ ⟨⟩
            exact known⟩
          refine (follows_keeps (held.releases (releaseContextResources_releases rec))).bind
            fun failures s held => ?_
          obtain ⟨held, -, kept⟩ := held
          have counted := kept (Set.mem_insert inst _)
          change (stages depth).Follows (if _ then _ else _) _ _
          split_ifs
          · exact held.ends counted _ _ fun s h => ⟨⟨h.claim, h.permit⟩, fun _ =>
              hagain _ (.rest h.permit rfl h.gone)⟩
          · exact ⟨⟨held.permit, held.known _ held.permit⟩, fun _ => ⟨⟨held.claim, rfl⟩, fun _ =>
              .rest rfl rfl held.gone⟩⟩

theorem parkOutcome_follows (reason : String) (h : Rest gone s) :
    (stages depth).Follows (parkOutcome inst reason) (fun _ => Rest gone) s := by
  refine ⟨trivial, fun cur => ?_⟩
  have h := h.get inst cur
  cases cur with
  | none => exact ⟨trivial, h.get inst⟩
  | some cur =>
    change (stages depth).Follows (if _ then _ else _) _ _
    split_ifs
    · exact h
    · exact ⟨trivial, h.get inst⟩

theorem park_follows
    (hagain : ∀ s, Rest gone s → (stages depth).Follows again (fun _ => Rest gone) s)
    (rec : ContextRecord) (h : Has (some rec.instanceId) none gone s) :
    (stages depth).Follows (park again rec) (fun _ => Rest gone) s := by
  have known := h.known _ h.permit
  refine ⟨trivial, fun pending => ⟨⟨h.permit, known⟩, fun _ => ⟨trivial, fun _ =>
    ⟨fun kind => (by cases kind), fun _ => ⟨known, fun live => ?_⟩⟩⟩⟩⟩
  have parked : Rest gone { s with permit := none } := .rest rfl h.claim h.gone
  have parked := parked.count rec.instanceId live
  change (stages depth).Follows (if _ then _ else _) _
    (Stage.next { s with permit := none } (KAct.calls (.pendingCount rec.instanceId)) live)
  split_ifs
  · exact (maybeFinalize_follows hagain _ parked).bind fun _ s h => parkOutcome_follows _ h
  · exact parkOutcome_follows _ parked

theorem settleDispose_follows (rec : ContextRecord) (h : Has (some rec.instanceId) none gone s)
    (counted : rec.instanceId ∈ s.counted) :
    (stages depth).Follows (settleDispose rec) (fun _ => Rest gone) s := by
  refine (follows_keeps (h.releases (releaseContextResources_releases rec))).bind
    fun failures s h => ?_
  obtain ⟨h, -, kept⟩ := h
  have counted := kept counted
  change (stages depth).Follows (if _ then _ else _) _ _
  split_ifs
  · exact h.ends counted _ _ fun _ h => h
  · exact ⟨⟨h.permit, h.known _ h.permit⟩, fun _ => ⟨trivial, fun _ => ⟨fun kind => (by cases kind),
      fun _ => .rest rfl h.claim h.gone⟩⟩⟩

/-- A disposal leaves its instance gone. -/
theorem disposeInstanceInner_follows
    (hagain : ∀ s, Rest (insert inst gone) s →
      (stages depth).Follows again (fun _ => Rest (insert inst gone)) s) (h : Rest gone s) :
    (stages depth).Follows (disposeInstanceInner again inst)
      (fun _ => Rest (insert inst gone)) s := by
  simp only [disposeInstanceInner, ctx, Prog.bind_eq, perform_bind]
  refine ⟨trivial, fun rec => ?_⟩
  cases rec with
  | none =>
    have dead : (none : Option ContextRecord).any (·.state.live) = false := rfl
    exact h.dead dead
  | some rec =>
    have seen : ∀ {state : Fsm}, rec.state.canonical = state → state.live = false →
        Rest (insert inst gone) (s.next (KAct.ctx (.get inst)) (some rec)) := by
      rintro state rfl dead
      have dead : rec.state.live = false := by
        cases state : rec.state <;> rw [state] at dead <;> exact dead
      have dead : (some rec).any (·.state.live) = false := dead
      exact h.dead dead
    have h := h.get inst (some rec)
    dsimp only
    split
    next state => exact seen state rfl
    next state => exact seen state rfl
    next state => exact seen state rfl
    next =>
      refine ⟨⟨h.permit, h.claim⟩, fun claim => ?_⟩
      have stale : Rest (insert inst gone) { s.next (KAct.ctx (.get inst)) (some rec) with
          gone := insert inst (s.next (KAct.ctx (.get inst)) (some rec)).gone } :=
        .rest h.permit h.claim (Set.insert_subset_insert h.gone)
      cases claim with
      | error e => exact stale
      | ok claim =>
        cases claim with
        | inFlight logical => exact stale
        | fresh rec =>
          have won : ∀ {s : UnloadPermits.Stage}, Rest (insert inst gone) s → Has
              (some rec.instanceId) none (insert inst gone)
              { s with
                permit := some rec.instanceId
                ended := false
                withdrawn := if rec.instanceId = inst then insert inst s.withdrawn else Set.univ
                counted := if rec.instanceId = inst then s.counted else Set.univ } := by
            refine fun h => ⟨rfl, h.claim, h.gone, ?_⟩
            rintro _ ⟨⟩
            split <;> simp [*]
          refine (follows_keeps ((won stale).withdraws (quiesce_withdraws rec))).bind
            fun _ s h => ?_
          obtain ⟨h, known, kept⟩ := h
          have known : inst ∈ s.withdrawn := known (by dsimp only; split <;> simp)
          refine ⟨known, fun live => ?_⟩
          have h := h.count inst live
          cases live with
          | succ live => exact park_follows hagain rec h
          | zero =>
            refine settleDispose_follows rec h ?_
            by_cases same : rec.instanceId = inst
            · exact same ▸ Set.mem_insert ..
            · exact .inr (kept (by simp [same]))

instance : Included composing outer where

theorem reconcile_follows (n : Nat) (gone : Set InstanceId) (s : Stage) (h : Rest gone s) :
    (stages depth).Follows (reconcile n) (fun _ => Rest gone) s := by
  induction n generalizing gone s with
  | zero => trivial
  | succ n ih =>
    refine .within (reconcile_succ_composes n)
      (fun _ _ _ ha h => h.outer (KAct.within ha))
      (fun β q s whole h => ?_) h
    cases whole with
    | dispose inst =>
      exact (disposeInstanceInner_follows (ih _) h).mono fun _ _ h => h.weaken
    | release handle => exact h.releases (beginRelease_releases handle)
    | again => exact ih gone s h

theorem code_follows (op : Op) : (stages depth).Follows ((kernel depth).code op)
    ((stages depth).leaves op) .rest := by
  have start : Rest ∅ .rest := .rest rfl rfl (Set.empty_subset _)
  by_cases dispose : ∃ k, op = .disposeInstance k
  · obtain ⟨k, rfl⟩ := dispose
    refine .bind (Q := fun _ => Rest (insert k ∅))
      ((disposeInstanceInner_follows (reconcile_follows depth _) start).bind fun out s h =>
        (reconcile_follows depth _ s h).bind fun _ s h => h) fun _ s h => ?_
    rintro _ ⟨⟩
    exact h.gone (Set.mem_insert ..)
  · refine (Protocol.Follows.within (operation_settles op depth) (fun _ _ _ ha h => h.outer ha)
      (fun β q s part h => ?_) start).mono fun _ _ _ k here => absurd ⟨k, here⟩ dispose
    cases part with
    | finalize n inst => exact maybeFinalize_follows (reconcile_follows n _) inst h
    | dispose n inst =>
      exact (disposeInstanceInner_follows (reconcile_follows n _) h).mono fun _ _ h => h.weaken

end Dispose

/-! ### The runs -/

/-- Starting, returning and the environment move no context and report nothing. -/
theorem inv_log {st st' : Nat → UnloadPermits.Stage} (inv : Inv m₀ st o)
    (quiet : ∀ (i : Nat) (β : Type) (a : KAct β) b, label ≠ .act i a b)
    (stages : ∀ i, st' i = st i ∨ st' i = .rest)
    (returns : ∀ i k res, label = .done i (.disposeInstance k) res →
      m₀.contexts.stateOf k ≠ none → Withdrawn o.mem.contexts k) :
    Inv m₀ st' (o.log label) := by
  have counted : ∀ k, freshClaims k (o.log label).trace = freshClaims k o.trace := by
    intro k
    refine List.countP_cons_of_neg ?_
    cases label with
    | act i a b => exact absurd rfl (quiet i _ a b)
    | start | done | env => exact Bool.false_ne_true
  have before : ∀ {f : UnloadPermits.Stage → Option InstanceId}, f .rest = none → ∀ {i k},
      f (st' i) = some k → f (st i) = some k := by
    intro f none i k h
    rcases stages i with same | rest
    · rwa [same] at h
    · rw [rest, none] at h
      cases h
  refine ⟨fun i => ?_, fun i j k h h' => inv.alone i j k (before rfl h) (before rfl h'),
    fun i j k h h' => inv.sole i j k (before rfl h) (before rfl h'), inv.reported, ?_, ?_,
    inv.known, ?_⟩
  · rcases stages i with same | rest
    · rw [same]
      exact inv.holds i
    · rw [rest]
      exact .rest m₀ o.mem
  · intro k
    rw [counted]
    exact inv.fresh k
  · intro k began unfailed withdrawn
    rw [counted]
    exact inv.claimed k began unfailed.past withdrawn
  · intro j k res done began
    rcases List.mem_cons.mp done with now | done
    · exact returns j k res now.symm began
    · exact inv.returned j k res done began

theorem preserved : (stages depth).Preserved closesParked (Inv m₀) where
  start {st o i op} _ inv _ _ := by
    refine inv_log inv (by simp) (fun j => ?_) (by simp)
    by_cases hj : j = i
    · exact .inr (hj ▸ update_self ..)
    · exact .inl (update_of_ne hj ..)
  act _ inv allows enabled ok := inv.act allows enabled ok
  done {st o i op res} _ inv leaves _ := by
    refine inv_log inv (by simp) (fun j => ?_) ?_
    · by_cases hj : j = i
      · exact .inr (hj ▸ update_self ..)
      · exact .inl (update_of_ne hj ..)
    · rintro _ k _ ⟨⟩ began
      exact (inv.holds i).gone k (leaves k rfl) began
  env {st o event} inv _ := by
    have logged : Inv m₀ st (o.log (.env event)) :=
      inv_log inv (by simp) (fun _ => .inl rfl) (by simp)
    cases event <;>
      exact ⟨fun i => ⟨(logged.holds i).closed, (logged.holds i).barred, (logged.holds i).ended,
        (logged.holds i).held, (logged.holds i).gone⟩, logged.alone, logged.sole,
        logged.reported, logged.fresh, logged.claimed, logged.known, logged.returned⟩

/-- No finalization is going on, and what was reported as unloaded has ended. -/
def Settled (s : KState) : Prop :=
  (∀ k, s.calls.cleanupClaims k = false) ∧
    ∀ k, unloadCount s k ≤ 1 ∧ (0 < unloadCount s k → Ended s.contexts k)

theorem inv_boot (h : Settled m₀) :
    Inv m₀ (fun _ => .rest) (⟨m₀, []⟩ : KObs depth) where
  holds _ := .rest m₀ m₀
  alone _ _ _ h := by cases h
  sole _ _ _ h := by cases h
  reported := h.2
  fresh _ := ⟨Nat.zero_le _, fun hpos => absurd hpos (lt_irrefl 0)⟩
  claimed _ began _ hk := absurd hk began
  known _ hk := hk
  returned _ _ _ hdone := by simp at hdone

/-- A dispose of the instance has returned. -/
def disposeReturned (inst : InstanceId) : Label (kernel depth) → Bool
  | .done _ (.disposeInstance k) _ => decide (k = inst)
  | _ => false

theorem disposeReturned_done (h : disposeReturned inst label = true) :
    ∃ i res, label = .done i (.disposeInstance inst) res := by
  cases label with
  | done i op res =>
    cases op with
    | disposeInstance k => exact ⟨i, res, by rw [of_decide_eq_true h]⟩
    | _ => cases h
  | _ => cases h

/-- In every run whose closers find the contexts they claim still parked, at most one dispose
obtains the fresh claim of an instance and its end is reported at most once; and once a
dispose of an instance that was live has returned, exactly one has obtained the claim. -/
theorem unloaded_at_most_once (settled : Settled m₀) {c : Config (kernel depth)}
    (run : Run closesParked (.boot m₀) c) (inst : InstanceId) :
    freshClaims inst c.trace ≤ 1 ∧ unloadCount c.mem inst ≤ 1 ∧
      ∀ s, m₀.contexts.stateOf inst = some s → s.live = true →
        c.trace.any (disposeReturned inst) = true → Unfailed inst c.trace →
        freshClaims inst c.trace = 1 := by
  obtain ⟨st, -, hinv, -⟩ := preserved.run code_follows (inv_boot settled) run
  refine ⟨(hinv.fresh inst).1, (hinv.reported inst).1, fun s hs live hdone unfailed => ?_⟩
  obtain ⟨label, there, hdone⟩ := List.any_eq_true.mp hdone
  obtain ⟨i, res, rfl⟩ := disposeReturned_done hdone
  refine hinv.claimed inst ?_ unfailed (hinv.returned i inst res there (by simp [hs]))
  rintro ⟨s', hs', dead⟩
  rw [hs, Option.some.injEq] at hs'
  simp [← hs', live] at dead

/-- An active instance with a call that is being served. -/
def servingCall : KState :=
  { KState.boot 1 with
    contexts := ((KState.boot 1).contexts.createIn "p" .active none).2
    calls := ((KState.boot 1).calls.alloc ⟨"x", "p", 1, 1, 1, 1, ⟨.cancel, 0⟩, []⟩).2 }

/-- A check for schedules whose closers find the contexts they claim still parked. -/
def parkedStill (o : KObs depth) : KLabel depth → Bool
  | .act _ (KAct.calls (.tryClaimCleanup inst)) _ => o.mem.calls.cleanupClaims inst ||
    decide (o.mem.contexts.stateOf inst = some .cleanupPending)
  | .act _ (KAct.ctx (.markCleanupPending .refreshed inst _)) _ =>
    decide (o.mem.contexts.stateOf inst = some .cleanupPending)
  | _ => true

theorem closesParked_of_parkedStill (h : parkedStill o label = true) : closesParked o label := by
  cases label with
  | act i a reply =>
    cases a with
    | calls a =>
      cases a with
      | tryClaimCleanup inst =>
        refine ⟨fun free => ?_, trivial⟩
        have parked : (o.mem.calls.cleanupClaims inst ||
          decide (o.mem.contexts.stateOf inst = some .cleanupPending)) = true := h
        simpa [free] using parked
      | _ => exact ⟨trivial, trivial⟩
    | ctx a =>
      cases a with
      | markCleanupPending writer inst cause =>
        cases writer with
        | refreshed =>
          have parked : o.mem.contexts.stateOf inst = some .cleanupPending := of_decide_eq_true h
          exact ⟨trivial, parked⟩
        | _ => exact ⟨trivial, trivial⟩
      | _ => exact ⟨trivial, trivial⟩
    | _ => exact ⟨trivial, trivial⟩
  | _ => exact ⟨trivial, trivial⟩

theorem unloaded_once_by_close :
    ∃ c : Config (kernel 2), Settled servingCall ∧ Run closesParked (.boot servingCall) c ∧
      c.Quiescent ∧ 0 < unloadCount c.mem 1 ∧ unloadCount c.mem 1 ≤ 1 ∧
      freshClaims 1 c.trace = 1 := by
  have settled : Settled servingCall :=
    ⟨fun _ => rfl, fun _ => ⟨Nat.zero_le 1, fun hpos => absurd hpos (lt_irrefl 0)⟩⟩
  obtain ⟨c, run, quiet, reported, returned, unfailed⟩ := Config.plays servingCall parkedStill
    (P := fun c : Config (kernel 2) => 0 < unloadCount c.mem 1 ∧
      c.trace.any (disposeReturned 1) = true ∧ ∀ label ∈ c.trace, failsContext 1 label = false)
    (fun _ _ => closesParked_of_parkedStill) 200 2 [.start 0 (.disposeInstance 1),
      .start 1 (.disposeInstance 1), .steps 0 3, .steps 1 3, .finish 1, .finish 0,
      .start 1 (.callClose 1), .finish 1] (by decide +kernel)
  obtain ⟨-, once, fresh⟩ := unloaded_at_most_once settled run 1
  exact ⟨c, settled, run, quiet, reported, once, fresh .active rfl rfl returned unfailed⟩

/-- A close that stops after it counted no call, while another one finalizes, claims the disposed
context and reports its end again. -/
theorem late_claim_unloads_twice :
    ∃ c : Config (kernel 2), Run (fun _ _ => True) (.boot (KState.boot 1)) c ∧ c.Quiescent ∧
      unloadCount c.mem 1 = 2 :=
  Config.plays_freely 200 2 (twoCallsParked ++ [.start 0 (.callClose 1), .steps 0 4,
    .start 1 (.callClose 2), .steps 1 1, .steps 0 1, .finish 1, .finish 0]) (by decide +kernel)

end MatrixRuntime.UnloadedOnce
