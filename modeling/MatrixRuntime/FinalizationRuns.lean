import MatrixRuntime.FinalizationInvariant
import MatrixRuntime.CallFrame

/-! Every operation of the covered runs keeps the finalization discipline, so that a
disposed context stays disposed, and at quiescence no parked context is left
behind, in every run that meets the two timing conditions. -/

namespace MatrixRuntime.FinalizationRuns

open KernelContexts KernelTickets KernelResources KernelState KernelActions KernelReconcile
open InterleavedProgram InterleavedMachine KernelOperations ReconcileFrame TraceMarks KernelCalls
open DependencyAdmission FinalizationInvariant CallFrame RelyGuarantee.Discipline

variable {depth : Nat} {m₀ : KState} {strict : Bool} {i : Nat} {o : KObs depth}
  {owes holds owes' holds' : Set InstanceId} {β : Type} {P : KObs depth → Prop} {α : Type}
  (ticket : TicketId) (req : DepAdmit) (inst : InstanceId) (consumer cap : String)

/-! ### What a thread knows between its actions -/

/-- The thread owes finalizations and holds claims at most in these places. -/
structure Marked (i : Nat) (owes holds : Set InstanceId) (o : KObs depth) : Prop where
  duty : ∀ k, duty.On i k o.trace → k ∈ owes
  claim : ∀ k, finalizing.On i k o.trace → k ∈ holds

/-- The thread owes nothing and holds nothing. -/
abbrev Rest (i : Nat) : KObs depth → Prop := Marked i ∅ ∅

/-- What the program has to show to keep the discipline and end in `Q`. -/
abbrev Wp (m₀ : KState) (strict : Bool) (i : Nat) {α : Type} (p : KProg α)
    (Q : α → KObs depth → Prop) : KObs depth → Prop := (discipline depth m₀ strict).wp i p Q

/-- Seen parked by the thread: still so, or disposed with nothing that refused release. -/
def Seen (m₀ : KState) (k : InstanceId) (o : KObs depth) : Prop :=
  o.mem.contexts.stateOf k = some .cleanupPending ∨
    (o.mem.contexts.stateOf k = some .disposed ∧ ¬ FailsRelease m₀ k)

theorem Seen.parked {k : InstanceId} (h : Seen m₀ k o) : Parked k o :=
  h.imp_right And.left

/-- Actions that move no context, end no call and touch no claim. -/
abbrev calm (β : Type) : KAct β → Prop
  | .ctx (.create _ _ _) | .ctx (.get _) | .ctx (.claimDispose _) | .ctx (.markDisposed _)
  | .ctx (.markCleanupPending _ _ _) | .ctx (.markFailed _ _) | .ctx (.markActive _)
  | .ctx (.markWaiting _ _) => False
  | .calls a => calmTicket β a
  | .res (.handlesFor _) | .res (.record _) | .res (.inspectRelease _) => True
  | .res _ => False
  | _ => True

/-- An assertion of thread `i` that interference and its own calm actions keep. -/
structure Framed (depth : Nat) (m₀ : KState) (strict : Bool) (i : Nat)
    (P : KObs depth → Prop) : Prop where
  stable : (discipline depth m₀ strict).Stable i P
  kept : ∀ (o : KObs depth) {β : Type} (a : KAct β) b mem,
    mem.contexts = o.mem.contexts → (∀ k, ¬ incurs a b k ∧ ¬ takesClaim a b k) →
    P o → P (o.acted i a b mem)

theorem Framed.and {Q : KObs depth → Prop} (hP : Framed depth m₀ strict i P)
    (hQ : Framed depth m₀ strict i Q) : Framed depth m₀ strict i fun o => P o ∧ Q o where
  stable := hP.stable.and hQ.stable
  kept o _ a b mem hc hq h := ⟨hP.kept o a b mem hc hq h.1, hQ.kept o a b mem hc hq h.2⟩

theorem Marked.acted (h : Marked i owes holds o) {a : KAct β} {b : β} {mem : KState}
    (duty : ∀ k, incurs a b k ∨ (k ∈ owes ∧ ¬ discharges a b k) → k ∈ owes')
    (claim : ∀ k, takesClaim a b k ∨ (k ∈ holds ∧ ¬ dropsClaim a b k) → k ∈ holds') :
    Marked i owes' holds' (o.acted i a b mem) where
  duty k hk := by
    rcases Mark.on_own.mp hk with hin | ⟨hon, hdis⟩
    · exact duty k (.inl hin)
    · exact duty k (.inr ⟨h.duty k hon, hdis⟩)
  claim k hk := by
    rcases Mark.on_own.mp hk with hin | ⟨hon, hdrop⟩
    · exact claim k (.inl hin)
    · exact claim k (.inr ⟨h.claim k hon, hdrop⟩)

theorem Marked.mono (h : Marked i owes holds o) (hd : owes ⊆ owes') (hc : holds ⊆ holds') :
    Marked i owes' holds' o := ⟨fun k hk => hd (h.duty k hk), fun k hk => hc (h.claim k hk)⟩

theorem Marked.framed (owes holds : Set InstanceId) :
    Framed depth m₀ strict i (Marked i owes holds) where
  stable := by
    have duty := stable_own (D := discipline depth m₀ strict) (i := i)
      (P := fun tr => ∀ k, FinalizationInvariant.duty.On i k tr → k ∈ owes)
      fun label past hl => by simp only [Mark.on_foreign hl]
    have claim := stable_own (D := discipline depth m₀ strict) (i := i)
      (P := fun tr => ∀ k, finalizing.On i k tr → k ∈ holds)
      fun label past hl => by simp only [Mark.on_foreign hl]
    exact fun o o' hi h => ⟨duty o o' hi h.duty, claim o o' hi h.claim⟩
  kept o _ a b mem _ quiet h := by
    refine h.acted (fun k hk => ?_) fun k hk => ?_
    · exact (hk.resolve_left (quiet k).1).1
    · exact (hk.resolve_left (quiet k).2).1

theorem atRest : Framed depth m₀ strict i (Rest i) := Marked.framed ∅ ∅

theorem Won.framed (k : InstanceId) : Framed depth m₀ strict i (Won i k) where
  stable := by
    refine Stable.intro (fun o o' j label hinv _ other own logged guar h => ?_)
      fun o event _ h => ?_
    · refine ⟨?_, ?_⟩
      · rw [logged, Mark.on_other own other]
        exact h.1
      · rcases guar.quiescing k h.2 with hs | hwon
        · exact hs
        · exact absurd (hinv.once j i k hwon h.1) other
    · cases event <;> exact ⟨h.1, h.2⟩
  kept o _ a b mem hc _ h := ⟨winner_act.mpr (.inr h.1), by rw [Obs.acted_mem, hc]; exact h.2⟩

theorem Seen.framed (k : InstanceId) : Framed depth m₀ strict i (Seen m₀ k) where
  stable := by
    refine Stable.intro (fun o o' j label _ _ _ _ _ guar h => ?_) fun o event _ h => ?_
    · rcases h with hp | ⟨hd, hclean⟩
      · rcases guar.parked k hp with hp' | hd'
        · exact .inl hp'
        · refine .inr ⟨hd', ?_⟩
          rcases guar.clean k hd' with hd | hclean
          · exact absurd (hp.symm.trans hd) (by decide)
          · exact hclean
      · exact .inr ⟨guar.disposed k hd, hclean⟩
    · cases event <;> exact h
  kept o _ a b mem hc _ h := by rwa [Seen, Obs.acted_mem, hc]

theorem Framed.const (p : Prop) : Framed depth m₀ strict i fun _ => p :=
  ⟨Stable.const p, fun _ _ _ _ _ _ _ h => h⟩

section Calm

variable {β : Type} {a : KAct β}

theorem calm_guard (h : calm β a) (o : KObs depth) : guard m₀ i o a := by
  cases a with
  | ctx a => cases a <;> first | exact h.elim | exact trivial
  | calls a => cases a <;> first | exact h.elim | exact trivial
  | res a => cases a <;> first | exact h.elim | exact trivial
  | _ => exact trivial

theorem calm_quiet (h : calm β a) (b : β) (k : InstanceId) :
    ¬ incurs a b k ∧ ¬ takesClaim a b k := by
  cases a with
  | ctx a => cases a <;> first | exact h.elim | simp [incurs, takesClaim]
  | calls a => cases a <;> first | exact h.elim | simp [incurs, takesClaim]
  | _ => simp [incurs, takesClaim]

theorem calm_contexts (h : calm β a) {s s' : KState} {b : β} (sem : a.sem s = some (b, s')) :
    s'.contexts = s.contexts := by
  cases a with
  | ctx a => cases a <;> first | exact h.elim | (cases sem; rfl)
  | calls a | res a | pub a | comp a =>
    cases sem
    rfl
  | _ => exact (KAct.sem_sameTables sem rfl).contexts

variable {P : KObs depth → Prop}

theorem Framed.keeps (hP : Framed depth m₀ strict i P) (h : calm β a) :
    (discipline depth m₀ strict).Keeps i P a :=
  (guarded depth m₀ strict).keeps (fun o _ _ => calm_guard h o) fun o b mem ho acts =>
    hP.kept o a b mem (calm_contexts h acts.enabled) (calm_quiet h b) ho

/-- Nothing but calm actions. -/
abbrev Calm {α : Type} (p : KProg α) : Prop := Composed calm (fun _ _ => False) p

theorem Framed.calm {p : KProg α} (hP : Framed depth m₀ strict i P) (hp : Calm p)
    (ho : P o) :
    Wp m₀ strict i p (fun _ => P) o :=
  wp_composed hp hP.stable (fun _ _ => hP.keeps) (fun _ _ h => h.elim) ho

end Calm

theorem calm_comp (a : ComposeAct β) : Calm (comp a) := .once

theorem calm_journal (fiber : String) (kind : JournalKind) (subject : Nat) (reason : String) :
    Calm (journal fiber kind subject reason) := .once

theorem calm_calls {a : TicketAct β} (h : calmTicket β a) : Calm (calls a) := .perform h

instance : Included inspecting calm where

instance : Included withdrawing calm where

/-! ### Releasing -/

/-- The handle is a resource of the initial memory that refuses release. -/
def Refusing (m₀ : KState) (h : ResourceHandle) : Prop :=
  ∃ r, m₀.resources.records h = some r ∧ Failing r

def refused : Except ReleaseError ReleaseClaim → Prop
  | .error (.cleanupFailed _ _) => True
  | _ => False

theorem inspectRelease_refusing (hinv : Inv m₀ strict o) (h : ResourceHandle) :
    (∃ reason, (o.mem.resources.inspectRelease h).1 = .error (.cleanupFailed h reason)) ∧
        Refusing m₀ h ∨
      (∀ handle reason,
        (o.mem.resources.inspectRelease h).1 ≠ .error (.cleanupFailed handle reason)) ∧
        ¬ Refusing m₀ h := by
  have current : Refusing m₀ h → ∃ r, o.mem.resources.records h = some r ∧ Failing r :=
    fun ⟨r, hr, hf⟩ => ⟨r, (hinv.fails h r hf).mpr hr, hf⟩
  unfold ResourceTable.inspectRelease
  cases hrec : o.mem.resources.records h with
  | none =>
    refine .inr ⟨by simp, fun hr => ?_⟩
    obtain ⟨r, hr, -⟩ := current hr
    simp [hrec] at hr
  | some rec =>
    have failing : Refusing m₀ h → Failing rec := by
      intro hr
      obtain ⟨r, hr, hf⟩ := current hr
      rw [hrec, Option.some.injEq] at hr
      exact hr ▸ hf
    by_cases hrel : rec.state = .released
    · refine .inr ⟨by simp [hrel], fun hr => ?_⟩
      exact absurd (hrel.symm.trans (failing hr).1) (by decide)
    · have hactive : rec.state = .active := by
        cases hs : rec.state with
        | active => rfl
        | released => exact absurd hs hrel
      cases hkind : rec.kind with
      | failRelease label =>
        have hf : Failing rec := ⟨hactive, label, hkind⟩
        exact .inl ⟨⟨s!"resource '{label}' refused release", by simp [hrel, hkind]⟩, rec,
          (hinv.fails h rec hf).mp hrec, hf⟩
      | _ =>
        refine .inr ⟨by simp [hrel, hkind], fun hr => ?_⟩
        obtain ⟨label, hl⟩ := (failing hr).2
        simp [hkind] at hl

theorem claimRelease_not_refused (t : ResourceTable) (h : ResourceHandle) :
    ¬ refused (t.claimRelease h).1 := by
  unfold ResourceTable.claimRelease
  cases t.records h with
  | none => exact id
  | some rec =>
    dsimp only
    split_ifs <;> exact id

section Release

variable {P : KObs depth → Prop} {o : KObs depth}

theorem Framed.beginRelease (hP : Framed depth m₀ strict i P) (h : ResourceHandle) (ho : P o) :
    Wp m₀ strict i (beginRelease h)
      (fun r o => P o ∧ (refused r ↔ Refusing m₀ h)) o := by
  refine wp_seq ((guarded depth m₀ strict).perform (Q := fun r o => P o ∧
      ((∃ reason, r = .error (.cleanupFailed h reason)) ∧ Refusing m₀ h ∨
        (∀ handle reason, r ≠ .error (.cleanupFailed handle reason)) ∧ ¬ Refusing m₀ h))
    hP.stable ho (fun _ _ _ => trivial) fun o₁ r mem ho₁ acts => ?_) fun r o₁ h₁ => ?_
  · obtain ⟨hinv, -, enabled, -⟩ := acts
    cases enabled
    exact ⟨hP.kept o₁ _ _ _ rfl (by simp [incurs, takesClaim]) ho₁, inspectRelease_refusing hinv h⟩
  · obtain ⟨ho₁, hr⟩ := h₁
    cases r with
    | error e =>
      refine ⟨ho₁, ?_⟩
      rcases hr with ⟨⟨reason, he⟩, hr⟩ | ⟨hne, hr⟩
      · cases he
        exact ⟨fun _ => hr, fun _ => trivial⟩
      · refine ⟨fun hf => ?_, fun hr' => absurd hr' hr⟩
        cases e with
        | cleanupFailed handle reason => exact absurd rfl (hne handle reason)
        | _ => exact hf.elim
    | ok _ =>
      have hnot : ¬ Refusing m₀ h := by
        rcases hr with ⟨⟨reason, he⟩, -⟩ | ⟨-, hr⟩
        · cases he
        · exact hr
      refine (guarded depth m₀ strict).perform hP.stable ho₁ (fun _ _ _ r hr hf => hnot ⟨r, hr, hf⟩)
        fun o₂ r mem ho₂ acts => ?_
      have enabled := acts.enabled
      cases enabled
      exact ⟨hP.kept o₂ _ _ _ rfl (by simp [incurs, takesClaim]) ho₂,
        iff_of_false (claimRelease_not_refused _ h) hnot⟩

/-- The handle makes a finalization of `owner` fail. -/
def FailsFor (m₀ : KState) (owner : ContextId) (h : ResourceHandle) : Prop :=
  ∃ r, m₀.resources.records h = some r ∧ Failing r ∧ r.ownerContext = owner

theorem Framed.releaseOwned (hP : Framed depth m₀ strict i P) (rec : ContextRecord)
    (h : ResourceHandle) (ho : P o) :
    Wp m₀ strict i (releaseOwned rec h)
      (fun failures o => P o ∧ (failures = [] ↔ ¬ FailsFor m₀ rec.context h)) o := by
  refine wp_seq ((guarded depth m₀ strict).perform (Q := fun rr o => P o ∧
      ∀ r, m₀.resources.records h = some r → Failing r → rr = some r)
    hP.stable ho (fun _ _ _ => trivial) fun o₁ rr mem ho₁ acts => ?_) fun rr o₁ h₁ => ?_
  · obtain ⟨hinv, -, enabled, -⟩ := acts
    cases enabled
    exact ⟨hP.kept o₁ _ _ _ rfl (by simp [incurs, takesClaim]) ho₁,
      fun r hr hf => (hinv.fails h r hf).mpr hr⟩
  · obtain ⟨ho₁, hcur⟩ := h₁
    cases rr with
    | none =>
      refine ⟨ho₁, fun _ => ?_, fun _ => rfl⟩
      rintro ⟨r, hr, hf, -⟩
      cases hcur r hr hf
    | some rr =>
      dsimp only
      split_ifs with hskip
      · refine ⟨ho₁, fun _ => ?_, fun _ => rfl⟩
        rintro ⟨r, hr, hf, howner⟩
        cases hcur r hr hf
        exact hskip.elim (fun hs => hs hf.1) fun hs => hs howner
      · have howner : rr.ownerContext = rec.context := by
          by_contra hne
          exact hskip (.inr hne)
        have hfor : FailsFor m₀ rec.context h ↔ Refusing m₀ h := by
          constructor
          · rintro ⟨r, hr, hf, -⟩
            exact ⟨r, hr, hf⟩
          · rintro ⟨r, hr, hf⟩
            cases hcur r hr hf
            exact ⟨_, hr, hf, howner⟩
        rw [hfor]
        refine wp_seq (hP.beginRelease h ho₁) fun r o₂ h₂ => ?_
        obtain ⟨ho₂, hr⟩ := h₂
        cases r with
        | ok claim =>
          have hnot : ¬ Refusing m₀ h := fun hf => hr.mpr hf
          refine wp_seq (hP.calm (revokePublication_withdraws _ _).relax ho₂)
            fun _ o₃ ho₃ => ?_
          exact ⟨ho₃, iff_of_true rfl hnot⟩
        | error e =>
          cases e with
          | cleanupFailed handle reason =>
            exact ⟨ho₂, iff_of_false (by simp) (not_not.mpr (hr.mp trivial))⟩
          | unknownHandle handle => exact ⟨ho₂, iff_of_true rfl fun hf => hr.mpr hf⟩
          | alreadyReleased handle => exact ⟨ho₂, iff_of_true rfl fun hf => hr.mpr hf⟩

theorem Framed.releaseHandles (hP : Framed depth m₀ strict i P) (rec : ContextRecord)
    (hs : List ResourceHandle) (ho : P o) :
    Wp m₀ strict i (releaseHandles rec hs)
      (fun failures o => P o ∧ (failures = [] ↔ ∀ h ∈ hs, ¬ FailsFor m₀ rec.context h)) o := by
  induction hs generalizing o with
  | nil => exact ⟨ho, by simp⟩
  | cons h hs ih =>
    refine wp_seq (hP.releaseOwned rec h ho) fun failure o₁ h₁ => ?_
    refine wp_seq (ih h₁.1) fun rest o₂ h₂ => ⟨h₂.1, ?_⟩
    rw [List.append_eq_nil_iff, h₁.2, h₂.2, List.forall_mem_cons]

/-- A release fails exactly when the context owns something that refuses. -/
theorem Framed.releaseContextResources (hP : Framed depth m₀ strict i P) (rec : ContextRecord)
    (ho : P o) :
    Wp m₀ strict i (releaseContextResources rec)
      (fun failures o => P o ∧ (failures = [] ↔ ¬ FailsRelease m₀ rec.context)) o := by
  refine wp_seq ((guarded depth m₀ strict).perform (Q := fun handles o => P o ∧
      ∀ h, FailsFor m₀ rec.context h → h ∈ handles)
    hP.stable ho (fun _ _ _ => trivial) fun o₁ handles mem ho₁ acts => ?_) fun handles o₁ h₁ => ?_
  · obtain ⟨hinv, -, enabled, -⟩ := acts
    cases enabled
    refine ⟨hP.kept o₁ _ _ _ rfl (by simp [incurs, takesClaim]) ho₁, ?_⟩
    rintro h ⟨r, hr, hf, howner⟩
    exact (o₁.mem.resources.owned h r _ ((hinv.fails h r hf).mpr hr)).mpr howner
  · refine wp_mono (fun failures o₂ h₂ => ⟨h₂.1, h₂.2.trans ?_⟩)
      (hP.releaseHandles rec handles.reverse h₁.1)
    constructor
    · rintro hall ⟨h, r, hr, hf, howner⟩
      have hfor : FailsFor m₀ rec.context h := ⟨r, hr, hf, howner⟩
      exact hall h (List.mem_reverse.mpr (h₁.2 h hfor)) hfor
    · rintro hnone h - ⟨r, hr, hf, howner⟩
      exact hnone ⟨h, r, hr, hf, howner⟩

end Release

/-! ### Finalization and disposal -/

section Dispose

variable {o : KObs depth} {again : KProg Unit}

/-- A look at the context settles the duty unless it is parked. -/
theorem get_looks (hone : owes ⊆ {inst}) (ho : Marked i owes ∅ o) :
    Wp m₀ strict i (ctx (.get inst))
      (fun rec o => Marked i owes ∅ o ∧
        ((∀ r, rec = some r → r.state.canonical ≠ .cleanupPending) → Rest i o) ∧
        ∀ r, rec = some r → r.context = inst ∧
          (r.state.canonical = .cleanupPending → Seen m₀ inst o)) o := by
  refine (guarded depth m₀ strict).perform (Marked.framed owes ∅).stable ho
    (fun _ _ _ => trivial) fun o₁ rec mem ho₁ acts => ?_
  have enabled := acts.enabled
  cases enabled
  refine ⟨ho₁.acted (fun k hk => (hk.resolve_left (by simp [incurs])).1) (by simp [takesClaim]),
    fun hne => ?_, fun r hr => ⟨?_, ?_⟩⟩
  · refine ho₁.acted (fun k hk => ?_) (by simp [takesClaim])
    obtain ⟨hk, hdis⟩ := hk.resolve_left (by simp [incurs])
    refine absurd ⟨(hone hk).symm, fun hs => ?_⟩ hdis
    obtain ⟨r, hr, hstate⟩ := Option.map_eq_some_iff.mp hs
    exact hne r hr (Fsm.canonical_eq_cleanupPending.mpr hstate)
  · exact (o₁.mem.contexts.issued inst r hr).2.1
  · intro hstate
    rw [Fsm.canonical_eq_cleanupPending] at hstate
    exact .inl (by rw [← hstate]; exact ContextTable.stateOf_of_byInstance hr)

theorem refreshCleanupCause_rest (ho : Rest i o) :
    Wp m₀ strict i (refreshCleanupCause inst) (fun _ => Rest i) o := by
  refine wp_seq (get_looks inst (Set.empty_subset _) ho) fun rec o₁ h₁ => ?_
  obtain ⟨hrest, -, hrec⟩ := h₁
  cases rec with
  | none => exact hrest
  | some rec =>
    dsimp only
    split_ifs with hstate hcause
    · exact hrest
    · have seen : Seen m₀ inst o₁ := (hrec rec rfl).2 (not_not.mp hstate)
      have both : Framed depth m₀ strict i fun o => Rest i o ∧ Seen m₀ inst o :=
        atRest.and (Seen.framed inst)
      refine wp_seq (both.calm (calm_calls (by exact trivial)) ⟨hrest, seen⟩)
        fun pending o₂ h₂ => ?_
      refine (guarded depth m₀ strict).perform both.stable h₂ (fun _ _ h => h.2.parked)
        fun o₃ _ mem h₃ _ => h₃.1.acted (by simp [incurs]) (by simp [takesClaim])
    · exact hrest

/-- The finalizer's claim on `inst` is released and nothing is owed. -/
theorem releaseClaim_rest (ho : Marked i ∅ {inst} o) :
    Wp m₀ strict i (calls (.releaseCleanupClaim inst)) (fun _ => Rest i) o := by
  refine (guarded depth m₀ strict).perform (Marked.framed ∅ {inst}).stable ho
    (fun _ _ _ => trivial) fun o₁ _ mem ho₁ _ => ho₁.acted (by simp [incurs]) fun k hk => ?_
  obtain ⟨rfl, hdrop⟩ := hk.resolve_left (by simp [takesClaim])
  exact absurd rfl hdrop

/-- The part of a finalization under its claim. -/
theorem finalize_claimed {rec : ContextRecord} {inst : InstanceId} (hctx : rec.context = inst)
    (hagain : ∀ o : KObs depth, Rest i o → Wp m₀ strict i again (fun _ => Rest i) o)
    (ho : Marked i {inst} {inst} o) (seen : Seen m₀ inst o) :
    Wp m₀ strict i (do
      let failures ← releaseContextResources rec
      if failures.isEmpty then do
        ctx (.markDisposed inst)
        comp (.markPlugin rec.logical inst .disposed)
        journal rec.logical .pluginUnloaded inst "cleanup-settled"
        calls (.releaseCleanupClaim inst)
        again
      else do
        ctx (.markCleanupPending .failed inst ("; ".intercalate failures))
        calls (.releaseCleanupClaim inst)) (fun _ => Rest i) o := by
  have holding : Framed depth m₀ strict i fun o => Marked i {inst} {inst} o ∧ Seen m₀ inst o :=
    (Marked.framed {inst} {inst}).and (Seen.framed inst)
  have done : ∀ {o₁ : KObs depth} {β : Type} {a : KAct β} {b : β} {mem : KState},
      Marked i {inst} {inst} o₁ → discharges a b inst → (∀ k, ¬ incurs a b k ∧ ¬ takesClaim a b k) →
      Marked i ∅ {inst} (o₁.acted i a b mem) := by
    intro o₁ β a b mem h₁ hdis quiet
    refine h₁.acted (fun k hk => ?_) fun k hk => (hk.resolve_left (quiet k).2).1
    obtain ⟨rfl, hnot⟩ := hk.resolve_left (quiet k).1
    exact absurd hdis hnot
  have settled : Framed depth m₀ strict i (Marked i ∅ {inst}) := Marked.framed ∅ {inst}
  refine wp_seq (holding.releaseContextResources rec ⟨ho, seen⟩) fun failures o₁ h₁ => ?_
  obtain ⟨h₁, hfail⟩ := h₁
  rw [hctx] at hfail
  split_ifs with hempty
  · have hclean := hfail.mp (List.isEmpty_iff.mp hempty)
    refine wp_seq (R := fun _ => Marked i ∅ {inst})
      ((guarded depth m₀ strict).perform holding.stable
      h₁ (fun _ _ h => ⟨hclean, .inl h.2.parked⟩) fun o₂ _ mem h₂ _ => ?_) fun _ o₂ h₂ => ?_
    · exact done h₂.1 rfl (by simp [incurs, takesClaim])
    · refine wp_seq (settled.calm (calm_comp _) h₂) fun _ o₃ h₃ => ?_
      refine wp_seq (settled.calm (calm_journal ..) h₃) fun _ o₄ h₄ => ?_
      exact wp_seq (releaseClaim_rest inst h₄) fun _ o₅ h₅ => hagain o₅ h₅
  · have hfails : FailsRelease m₀ inst := by
      by_contra hclean
      exact hempty (List.isEmpty_iff.mpr (hfail.mpr hclean))
    refine wp_seq (R := fun _ => Marked i ∅ {inst})
      ((guarded depth m₀ strict).perform holding.stable
      h₁ (fun _ _ h => ⟨hfails, .inl ?_⟩) fun o₂ _ mem h₂ _ => ?_)
      fun _ o₂ h₂ => releaseClaim_rest inst h₂
    · exact h.2.resolve_right fun hd => hd.2 hfails
    · exact done h₂.1 rfl (by simp [incurs, takesClaim])

/-- A count of the tickets settles the duty when it finds one. -/
theorem pendingCount_looks (hone : owes ⊆ {inst})
    (hP : Framed depth m₀ strict i P) (ho : Marked i owes ∅ o) (hPo : P o) :
    Wp m₀ strict i (calls (.pendingCount inst))
      (fun live o => P o ∧ Marked i owes ∅ o ∧ (0 < live → Rest i o)) o := by
  have both : Framed depth m₀ strict i fun o => Marked i owes ∅ o ∧ P o :=
    (Marked.framed owes ∅).and hP
  refine (guarded depth m₀ strict).perform both.stable ⟨ho, hPo⟩ (fun _ _ h => h.1.claim inst)
    fun o₁ live mem h₁ acts => ?_
  have enabled := acts.enabled
  cases enabled
  refine ⟨hP.kept o₁ _ _ _ rfl (by simp [incurs, takesClaim]) h₁.2, ?_, fun hlive => ?_⟩
  · exact h₁.1.acted (fun k hk => (hk.resolve_left (by simp [incurs])).1) (by simp [takesClaim])
  · refine h₁.1.acted (fun k hk => ?_) (by simp [takesClaim])
    obtain ⟨hk, hdis⟩ := hk.resolve_left (by simp [incurs])
    exact absurd ⟨(hone hk).symm, hlive⟩ hdis

theorem tryClaim_looks (ho : Marked i {inst} ∅ o) (seen : Seen m₀ inst o) :
    Wp m₀ strict i (calls (.tryClaimCleanup inst))
      (fun claimed o => (claimed = true → Marked i {inst} {inst} o ∧ Seen m₀ inst o) ∧
        (claimed = false → Rest i o)) o := by
  have both : Framed depth m₀ strict i fun o => Marked i {inst} ∅ o ∧ Seen m₀ inst o :=
    (Marked.framed {inst} ∅).and (Seen.framed inst)
  refine (guarded depth m₀ strict).perform both.stable ⟨ho, seen⟩
    (fun _ _ h => ⟨h.1.claim inst, h.2.parked⟩) fun o₁ claimed mem h₁ acts => ?_
  have enabled := acts.enabled
  cases enabled
  refine ⟨fun _ => ⟨h₁.1.acted ?_ ?_, h₁.2⟩,
    fun hfree => h₁.1.acted (fun k hk => ?_) fun k hk => ?_⟩
  · rintro k (⟨-, rfl⟩ | ⟨hk, -⟩)
    · rfl
    · exact hk
  · rintro k (⟨-, rfl⟩ | ⟨hk, -⟩)
    · rfl
    · exact hk.elim
  · rcases hk with ⟨htrue, -⟩ | ⟨rfl, hdis⟩
    · exact absurd (htrue.symm.trans hfree) (by decide)
    · exact absurd ⟨hfree, rfl⟩ hdis
  · rcases hk with ⟨htrue, -⟩ | ⟨hk, -⟩
    · exact absurd (htrue.symm.trans hfree) (by decide)
    · exact hk

theorem maybeFinalize_rest
    (hagain : ∀ o : KObs depth, Rest i o → Wp m₀ strict i again (fun _ => Rest i) o)
    (inst : InstanceId) (ho : Marked i {inst} ∅ o) :
    Wp m₀ strict i (maybeFinalize again inst) (fun _ => Rest i) o := by
  refine wp_seq (get_looks inst subset_rfl ho) fun rec o₁ h₁ => ?_
  obtain ⟨ho₁, hrest, hrec⟩ := h₁
  cases rec with
  | none => exact hrest (by simp)
  | some rec =>
    dsimp only
    split_ifs with hstate
    · exact hrest (by simpa using hstate)
    · obtain ⟨hctx, hseen⟩ := hrec rec rfl
      refine wp_seq (pendingCount_looks inst subset_rfl (Seen.framed inst) ho₁
        (hseen (not_not.mp hstate))) fun live o₂ h₂ => ?_
      obtain ⟨seen, ho₂, hlive⟩ := h₂
      split_ifs with hpos
      · exact refreshCleanupCause_rest inst (hlive hpos)
      · refine wp_seq (tryClaim_looks inst ho₂ seen) fun claimed o₃ h₃ => ?_
        split_ifs with hclaimed
        · obtain ⟨ho₃, seen⟩ := h₃.1 hclaimed
          exact finalize_claimed hctx hagain ho₃ seen
        · exact h₃.2 (by simpa using hclaimed)

/-- Looking at a context keeps a thread that owes nothing at rest. -/
theorem get_rest (ho : Rest i o) : Wp m₀ strict i (ctx (.get inst)) (fun _ => Rest i) o :=
  wp_mono (fun _ _ h => h.1) (get_looks inst (Set.empty_subset _) ho)

theorem park_rest
    (hagain : ∀ o : KObs depth, Rest i o → Wp m₀ strict i again (fun _ => Rest i) o)
    (rec : ContextRecord) (ho : Rest i o) (won : Won i rec.instanceId o) :
    Wp m₀ strict i (park again rec) (fun _ => Rest i) o := by
  have own : Framed depth m₀ strict i fun o => Rest i o ∧ Won i rec.instanceId o :=
    atRest.and (Won.framed rec.instanceId)
  have owing : Framed depth m₀ strict i (Marked i {rec.instanceId} ∅) := Marked.framed _ _
  refine wp_seq (own.calm (calm_calls (by exact trivial)) ⟨ho, won⟩) fun pending o₁ h₁ => ?_
  dsimp only
  refine wp_seq (R := fun _ => Marked i {rec.instanceId} ∅)
    ((guarded depth m₀ strict).perform own.stable h₁ (fun _ _ h => h.2) fun o₂ _ mem h₂ _ => ?_)
    fun _ o₂ h₂ => ?_
  · refine h₂.1.acted (fun k hk => ?_) (by simp [takesClaim])
    rcases hk with hk | ⟨hk, -⟩
    · exact hk.symm
    · exact hk.elim
  · refine wp_seq (owing.calm (calm_comp _) h₂) fun _ o₃ h₃ => ?_
    refine wp_seq (owing.calm (calm_journal ..) h₃) fun _ o₄ h₄ => ?_
    refine wp_seq (pendingCount_looks _ subset_rfl (Framed.const True) h₄ trivial)
      fun live o₅ h₅ => ?_
    split_ifs with hzero
    · exact wp_seq (maybeFinalize_rest hagain _ h₅.2.1) fun _ o₆ h₆ =>
        wp_parkOutcome (fun _ => get_rest _) _ h₆
    · exact wp_parkOutcome (fun _ => get_rest _) _ (h₅.2.2 (Nat.pos_of_ne_zero hzero))

theorem settleDispose_rest (rec : ContextRecord) (hctx : rec.context = rec.instanceId)
    (ho : Rest i o) (won : Won i rec.instanceId o) :
    Wp m₀ strict i (settleDispose rec) (fun _ => Rest i) o := by
  have own : Framed depth m₀ strict i fun o => Rest i o ∧ Won i rec.instanceId o :=
    atRest.and (Won.framed rec.instanceId)
  refine wp_seq (own.releaseContextResources rec ⟨ho, won⟩) fun failures o₁ h₁ => ?_
  obtain ⟨h₁, hfail⟩ := h₁
  rw [hctx] at hfail
  dsimp only
  split_ifs with hempty
  · refine wp_seq (R := fun _ => Rest i) ((guarded depth m₀ strict).perform own.stable h₁
      (fun _ _ h => ⟨hfail.mp (List.isEmpty_iff.mp hempty), .inr h.2⟩) fun o₂ _ mem h₂ _ => ?_)
      fun _ o₂ h₂ => ?_
    · exact h₂.1.acted (by simp [incurs]) (by simp [takesClaim])
    · refine wp_seq (atRest.calm (calm_comp _) h₂) fun _ o₃ h₃ => ?_
      exact wp_seq (atRest.calm (calm_journal ..) h₃) fun _ o₄ h₄ => h₄
  · have hfails : FailsRelease m₀ rec.instanceId := by
      by_contra hclean
      exact hempty (List.isEmpty_iff.mpr (hfail.mpr hclean))
    refine wp_seq (R := fun _ => Rest i) ((guarded depth m₀ strict).perform own.stable h₁
      (fun _ _ h => ⟨hfails, .inr h.2⟩) fun o₂ _ mem h₂ _ => ?_) fun _ o₂ h₂ => ?_
    · exact h₂.1.acted (by simp [incurs]) (by simp [takesClaim])
    · refine wp_seq (atRest.calm (calm_comp _) h₂) fun _ o₃ h₃ => ?_
      exact wp_seq (atRest.calm (calm_journal ..) h₃) fun _ o₄ h₄ => h₄

theorem claimDispose_wins (ho : Rest i o) :
    Wp m₀ strict i (ctx (.claimDispose inst))
      (fun claim o => Rest i o ∧ ∀ rec, claim = .ok (.fresh rec) →
        rec.instanceId = inst ∧ rec.context = inst ∧ Won i inst o) o := by
  refine (guarded depth m₀ strict).perform atRest.stable ho (fun _ _ _ => trivial)
    fun o₁ claim mem ho₁ acts => ?_
  have enabled := acts.enabled
  cases enabled
  refine ⟨ho₁.acted (by simp [incurs]) (by simp [takesClaim]), fun rec hrec => ?_⟩
  rcases o₁.mem.contexts.claimDispose_cases inst with ⟨-, hne⟩ | ⟨rec', hrec', -, hclaim⟩
  · exact absurd hrec (hne rec)
  · have issued := o₁.mem.contexts.issued inst rec' hrec'
    simp only [ContextAct.run, hclaim] at hrec ⊢
    cases hrec
    refine ⟨issued.1, issued.2.1, .inl ⟨rfl, rfl⟩, ?_⟩
    simp [ContextTable.revise_stateOf, ContextTable.stateOf_of_byInstance hrec']

theorem disposeInstanceInner_rest
    (hagain : ∀ o : KObs depth, Rest i o → Wp m₀ strict i again (fun _ => Rest i) o)
    (inst : InstanceId) (ho : Rest i o) :
    Wp m₀ strict i (disposeInstanceInner again inst) (fun _ => Rest i) o := by
  refine wp_disposeInstanceInner (get_rest inst ho) (fun o₁ ho₁ => wp_mono
    (fun _ o₂ h₂ => ⟨fun rec fresh => And.intro h₂.1 (h₂.2 rec fresh), fun _ => h₂.1⟩)
    (claimDispose_wins inst ho₁)) ?_
  rintro rec o₂ ⟨ho₂, rfl, hctx, won⟩
  have own : Framed depth m₀ strict i fun o => Rest i o ∧ Won i rec.instanceId o :=
    atRest.and (Won.framed rec.instanceId)
  refine wp_seq (own.calm (quiesce_withdraws rec).relax ⟨ho₂, won⟩)
    fun _ o₃ h₃ => ?_
  refine wp_seq (pendingCount_looks _ (Set.empty_subset _) (Won.framed rec.instanceId) h₃.1 h₃.2)
    fun live o₄ h₄ => ?_
  split_ifs
  · exact park_rest hagain rec h₄.2.1 h₄.1
  · exact settleDispose_rest rec hctx h₄.2.1 h₄.1

end Dispose

/-! ### The operations -/

section Operations

variable {o : KObs depth} {again : KProg Unit}

theorem composing_keeps {a : KAct β} (h : composing β a) :
    (discipline depth m₀ strict).Keeps i (Rest i) a := by
  refine (guarded depth m₀ strict).keeps (fun o _ _ => ?_) fun o b mem ho _ => ?_
  · cases a with
    | ctx a => cases a <;> first | exact h.elim | exact h
    | calls a => exact h.elim
    | res a =>
      cases a with
      | insert owner kind =>
        intro label hkind
        rcases h with ⟨name, rfl⟩ | ⟨topic, rfl⟩ <;> cases hkind
      | handlesFor | record => exact trivial
      | _ => exact h.elim
    | _ => exact trivial
  · refine ho.acted (fun k hk => (hk.resolve_left ?_).1) fun k hk => (hk.resolve_left ?_).1
    · cases a with
      | ctx a => cases a <;> first | exact h.elim | simp [incurs]
      | calls a => exact h.elim
      | _ => simp [incurs]
    · cases a with
      | calls a => exact h.elim
      | _ => simp [takesClaim]

theorem reconcile_rest (n : Nat) (o : KObs depth) (ho : Rest i o) :
    Wp m₀ strict i (reconcile n) (fun _ => Rest i) o :=
  reconcile_keeps atRest.stable (fun _ _ => composing_keeps)
    (fun h _ ho => wp_mono (fun _ _ hr => hr.1) (atRest.beginRelease h ho))
    (fun _ hagain inst _ ho => disposeInstanceInner_rest hagain inst ho) n o ho

variable (hagain : ∀ o : KObs depth, Rest i o → Wp m₀ strict i again (fun _ => Rest i) o)

include hagain

/-- The end of a ticket the thread has taken out settles what that incurred. -/
theorem concludeTicket_rest (r : TicketRecord) (ho : Marked i {r.instanceId} ∅ o) :
    Wp m₀ strict i (concludeTicket again r) (fun _ => Rest i) o := by
  have owing : Framed depth m₀ strict i (Marked i {r.instanceId} ∅) := Marked.framed _ _
  refine wp_seq (owing.calm (revokeTicketDescendants_withdraws ..).relax ho)
    fun _ o₁ h₁ => ?_
  cases r.dep with
  | none => exact maybeFinalize_rest hagain _ h₁
  | some dep =>
    refine wp_seq (owing.calm (p := perform (.release dep.session)) (.once) h₁)
      fun _ o₂ h₂ => maybeFinalize_rest hagain _ h₂

omit hagain in
theorem remove_incurs (remover : Remover) (id : TicketId) (ho : Rest i o) :
    Wp m₀ strict i (calls (.remove remover id))
      (fun r o => (r = none → Rest i o) ∧ ∀ t, r = some t → Marked i {t.instanceId} ∅ o) o := by
  refine (guarded depth m₀ strict).perform atRest.stable ho (fun _ _ _ => trivial)
    fun o₁ r mem h₁ _ => ⟨?_, ?_⟩
  · rintro rfl
    exact h₁.acted (fun k hk => by cases remover <;> simp [incurs] at hk) (by simp [takesClaim])
  · rintro t rfl
    refine h₁.acted (fun k hk => ?_) (by simp [takesClaim])
    rcases hk with hk | ⟨hk, -⟩
    · cases remover with
      | close => exact hk.symm
      | settle => exact hk.symm
      | rollback => exact hk.elim
    · exact hk.elim

theorem settleTicket_rest (ho : Rest i o) :
    Wp m₀ strict i (settleTicket again ticket) (fun _ => Rest i) o := by
  refine wp_seq (remove_incurs .settle ticket ho) fun r o₁ h₁ => ?_
  cases r with
  | none => exact h₁.1 rfl
  | some r =>
    exact wp_seq (concludeTicket_rest hagain r (h₁.2 r rfl)) fun _ o₂ h₂ => h₂

omit hagain in
theorem journalDurable_calm (durable : Bool) (logical : String) (kind : JournalKind)
    (ticket : TicketId) (reason : String) :
    Calm (journalDurable durable logical kind ticket reason) :=
  .ite (calm_journal ..) (.pure _)

theorem refuseOpened_rest (durable : Bool) (logical : String) (ticket : TicketId) (why : String)
    (e : ErrorValue) (ho : Rest i o) :
    Wp m₀ strict i (refuseOpened again durable logical ticket why e)
      (fun _ => Rest i) o := by
  refine wp_seq (settleTicket_rest ticket hagain ho) fun _ o₁ h₁ => ?_
  exact atRest.calm (.map (journalDurable_calm ..)) h₁

theorem openTicket_rest (cap logical : String) (rec : ContextRecord) (policy : CallPolicy)
    (pins : List ResourceHandle) (durable : Bool) (ho : Rest i o) :
    Wp m₀ strict i (openTicket again cap logical rec policy pins durable)
      (fun _ => Rest i) o := by
  refine wp_seq (atRest.calm (calm_calls (by exact trivial)) ho) fun ticket o₁ h₁ => ?_
  refine wp_seq (atRest.calm (journalDurable_calm ..) h₁) fun _ o₂ h₂ => ?_
  refine wp_seq (atRest.calm (admissionRecord_inspects cap).relax h₂)
    fun admitted o₃ h₃ => ?_
  cases admitted with
  | error e => exact refuseOpened_rest hagain _ _ _ _ _ h₃
  | ok fresh =>
    dsimp only
    split_ifs
    · exact atRest.calm (.step (by exact trivial) fun _ => .pure _) h₃
    · exact refuseOpened_rest hagain _ _ _ _ _ h₃

theorem callOpen_rest (cap : String) (policy : Option CallPolicy) (pins : List ResourceHandle)
    (ho : Rest i o) :
    Wp m₀ strict i (callOpen again cap policy pins) (fun _ => Rest i) o := by
  refine wp_seq (atRest.calm (calm_calls (by exact trivial)) ho) fun inflight o₁ h₁ => ?_
  split_ifs
  · exact h₁
  · refine wp_seq (atRest.calm (admissionRecord_inspects cap).relax h₁)
      fun admitted o₂ h₂ => ?_
    cases admitted with
    | error e => exact h₂
    | ok found =>
      refine wp_seq (atRest.calm (invalidPin_inspects ..).relax h₂) fun pin o₃ h₃ => ?_
      cases pin with
      | some h => exact h₃
      | none =>
        cases policy with
        | some policy => exact openTicket_rest hagain _ _ _ _ _ _ h₃
        | none =>
          refine wp_seq (atRest.calm (policyFor_inspects ..).relax h₃)
            fun _ o₄ h₄ => ?_
          exact openTicket_rest hagain _ _ _ _ _ _ h₄

omit hagain in
theorem callCancel_calm (reason : String) : Calm (callCancel ticket reason) := by
  refine .bind (calm_calls trivial) fun r => ?_
  cases r with
  | none => exact .pure _
  | some r =>
    exact .bind (calm_calls trivial) fun _ => .ite (.bind (calm_journal ..) fun _ =>
      .map (revokeTicketDescendants_withdraws ..).relax) (.pure _)

theorem callClose_rest (ho : Rest i o) :
    Wp m₀ strict i (callClose again ticket) (fun _ => Rest i) o := by
  refine wp_seq (remove_incurs .close ticket ho) fun r o₁ h₁ => ?_
  cases r with
  | none => exact h₁.1 rfl
  | some r =>
    refine wp_seq ((Marked.framed {r.instanceId} ∅).calm (calm_journal ..) (h₁.2 r rfl))
      fun _ o₂ h₂ => ?_
    exact wp_seq (concludeTicket_rest hagain r h₂) fun _ o₃ h₃ => h₃

theorem callReap_rest (reason : String) (ho : Rest i o) :
    Wp m₀ strict i (callReap again ticket reason) (fun _ => Rest i) o := by
  refine wp_seq (atRest.calm (calm_calls (by exact trivial)) ho) fun r o₁ h₁ => ?_
  cases r with
  | none => exact h₁
  | some r =>
    dsimp only
    split_ifs
    · exact h₁
    · refine wp_seq (settleTicket_rest ticket hagain h₁) fun r o₂ h₂ => ?_
      cases r with
      | none => exact h₂
      | some r => exact atRest.calm (.map (calm_journal ..)) h₂

omit hagain in
theorem rollback_rest (id : TicketId) (ho : Rest i o) :
    Wp m₀ strict i (rollback req id) (fun _ => Rest i) o := by
  refine wp_seq (R := fun _ => Rest i) ((guarded depth m₀ strict).perform atRest.stable ho
    (fun _ _ _ => trivial) fun o₁ r mem h₁ _ => ?_) fun _ o₁ h₁ =>
      atRest.calm (.perform (by exact trivial)) h₁
  exact h₁.acted (by simp [incurs]) (by simp [takesClaim])

omit hagain in
theorem registerChild_rest (v : Validated) (ho : Rest i o) :
    Wp m₀ strict i (registerChild req v) (fun _ => Rest i) o := by
  refine wp_seq (atRest.calm (p := perform .now) (.once) ho) fun now o₁ h₁ => ?_
  refine wp_seq (atRest.calm (p := ctx .epoch) (.once) h₁) fun epoch o₂ h₂ => ?_
  refine wp_seq (atRest.calm (calm_calls (by exact trivial)) h₂) fun id o₃ h₃ => ?_
  refine wp_seq (atRest.calm (calm_calls (by exact trivial)) h₃) fun _ o₄ h₄ => ?_
  refine wp_seq (atRest.calm (calm_calls (by exact trivial)) h₄) fun attached o₅ h₅ => ?_
  split_ifs
  · refine wp_seq (atRest.calm (stillValid_inspects req v).relax h₅)
      fun valid o₆ h₆ => ?_
    split_ifs
    · exact atRest.calm (.map (calm_journal ..)) h₆
    · refine wp_seq (rollback_rest req id h₆) fun _ o₇ h₇ => ?_
      exact atRest.calm (.map (calm_journal ..)) h₇
  · exact wp_seq (rollback_rest req id h₅) fun _ o₆ h₆ => h₆

omit hagain in
theorem dependencyAdmit_rest (ho : Rest i o) :
    Wp m₀ strict i (dependencyAdmit req) (fun _ => Rest i) o := by
  unfold dependencyAdmit
  split_ifs
  · exact ho
  · exact ho
  · refine wp_seq (atRest.calm (p := perform .lockAdmit) (.once) ho) fun _ o₁ h₁ => ?_
    refine wp_seq (R := fun _ => Rest i) ?_ fun out o₂ h₂ => ?_
    · refine wp_seq (atRest.calm (validate_inspects req).relax h₁) fun v o₂ h₂ => ?_
      cases v with
      | error e => exact h₂
      | ok v =>
        refine wp_seq (atRest.calm (p := perform (.reserve req.session v.limits)) (.once)
          h₂)
          fun reserved o₃ h₃ => ?_
        cases reserved with
        | error reason => exact h₃
        | ok _ => exact registerChild_rest req v h₃
    · exact atRest.calm (.step (by exact trivial) fun _ => .pure _) h₂

end Operations

theorem grantOutbound_calm : Calm (grantOutbound consumer cap) :=
  .next fun _ => .next fun _ =>
    .bind (calm_calls trivial) fun _ => .map (journalRevoked_withdraws ..).relax

theorem revokeOutbound_calm : Calm (revokeOutbound consumer cap) :=
  .next fun _ => .bind (calm_calls trivial) fun _ =>
    .map (journalRevoked_withdraws ..).relax

/-- Every covered operation returns at atRest. -/
theorem covered_rest {op : Op} (hop : covered op = true) (o : KObs depth) (ho : Rest i o) :
    Wp m₀ strict i ((kernel depth).code op) (fun _ => Rest i) o := by
  have hagain : ∀ o : KObs depth, Rest i o →
      Wp m₀ strict i (reconcile depth) (fun _ => Rest i) o :=
    reconcile_rest depth
  by_cases hre : recomposes op = true
  · exact composes_keeps (recomposes_composes hre) atRest.stable (fun _ _ => composing_keeps)
      (fun h _ ho => wp_mono (fun _ _ hr => hr.1) (atRest.beginRelease h ho)) hagain
      (fun inst _ ho => disposeInstanceInner_rest hagain inst ho) ho
  cases op with
  | callOpen cap policy pins =>
    exact wp_seq (callOpen_rest hagain cap policy pins ho) fun _ _ h => h
  | callCancel ticket reason =>
    exact wp_seq (atRest.calm (callCancel_calm ticket reason) ho) fun _ _ h => h
  | callClose ticket => exact wp_seq (callClose_rest ticket hagain ho) fun _ _ h => h
  | callReap ticket reason => exact wp_seq (callReap_rest ticket hagain reason ho) fun _ _ h => h
  | settleTicket ticket => exact wp_seq (settleTicket_rest ticket hagain ho) fun _ _ h => h
  | maybeFinalize inst =>
    exact wp_seq (maybeFinalize_rest hagain inst (ho.mono (Set.empty_subset _) subset_rfl))
      fun _ _ h => h
  | dependencyAdmit req => exact wp_seq (dependencyAdmit_rest req ho) fun _ _ h => h
  | grantOutbound consumer cap =>
    exact wp_seq (atRest.calm (grantOutbound_calm consumer cap) ho) fun _ _ h => h
  | revokeOutbound consumer cap =>
    exact wp_seq (atRest.calm (revokeOutbound_calm consumer cap) ho) fun _ _ h => h
  | _ => exact absurd hop hre

/-- Starting, returning and the environment move no context and mark nothing. -/
theorem inv_log {label : KLabel depth} (h : Inv m₀ strict o)
    (quiet : ∀ (i : Nat) (β : Type) (a : KAct β) b, label ≠ .act i a b)
    (idle : ∀ i, inCall i (label :: o.trace) = none → inCall i o.trace = none ∨ Rest i o) :
    Inv m₀ strict (o.log label) where
  fails := h.fails
  withdrawn i inst hw := h.withdrawn i inst ((Mark.on_log quiet).mp hw)
  once i j inst hi hj := h.once i j inst ((Mark.on_log quiet).mp hi) ((Mark.on_log quiet).mp hj)
  idle i hidle inst := by
    have hrest : ¬ duty.On i inst o.trace ∧ ¬ finalizing.On i inst o.trace := by
      rcases idle i hidle with hidle | hrest
      · exact h.idle i hidle inst
      · exact ⟨hrest.duty inst, hrest.claim inst⟩
    exact ⟨fun hd => hrest.1 ((Mark.on_log quiet).mp hd),
      fun hf => hrest.2 ((Mark.on_log quiet).mp hf)⟩
  owed hs inst stranded := by
    obtain ⟨i, hi⟩ := h.owed hs inst stranded
    exact ⟨i, (Mark.on_log quiet).mpr hi⟩
  held hs inst hclaim := by
    obtain ⟨i, hi, hwhy⟩ := h.held hs inst hclaim
    refine ⟨i, (Mark.on_log quiet).mpr hi, hwhy.imp_right fun hp => ⟨hp.1, ?_⟩⟩
    exact hp.2.imp_left (Mark.on_log quiet).mpr

theorem verified : (discipline depth m₀ strict).Verified fun i _ _ => Rest i where
  stable i _ _ := atRest.stable
  start i op o hinv hidle ok := by
    refine ⟨inv_log hinv (by simp) fun j hj => .inl ?_, Guar.of_contexts fun _ => rfl, ?_⟩
    · rw [inCall_start] at hj
      split_ifs at hj
      exact hj
    · refine covered_rest ok.1 _ ⟨fun k hk => ?_, fun k hk => ?_⟩
      · exact (hinv.idle i hidle k).1 ((Mark.on_log (by simp)).mp hk)
      · exact (hinv.idle i hidle k).2 ((Mark.on_log (by simp)).mp hk)
  done i op res o hinv _ hrest _ := by
    refine ⟨inv_log hinv (by simp) fun j hj => ?_, Guar.of_contexts fun _ => rfl⟩
    rw [inCall_done] at hj
    split_ifs at hj with hij
    · exact .inr (hij ▸ hrest)
    · exact .inl hj
  env event o hinv _ := by
    have hlog : Inv m₀ strict (o.log (.env event)) := inv_log hinv (by simp) fun _ hj => .inl hj
    cases event <;>
      exact ⟨hlog.fails, hlog.withdrawn, hlog.once, hlog.idle, hlog.owed, hlog.held⟩

theorem inv_boot (h : strict = true → (∀ inst, ¬ Stranded m₀ inst) ∧
    ∀ inst, m₀.calls.cleanupClaims inst = false) :
    Inv m₀ strict (⟨m₀, []⟩ : KObs depth) where
  fails _ _ _ := Iff.rfl
  withdrawn _ _ hw := hw.elim
  once _ _ _ hi := hi.elim
  idle _ _ _ := ⟨id, id⟩
  owed hs inst stranded := absurd stranded ((h hs).1 inst)
  held hs inst hclaim := by simp [(h hs).2 inst] at hclaim

/-! ### The runs -/

/-- The timing a disposed context relies on. -/
def disposesInTime (o : Obs (kernel depth)) (label : Label (kernel depth)) : Prop :=
  startsCovered label = true ∧ refreshInTime o label

/-- The timing a parked context relies on to be finalized. -/
def finalizesInTime (o : Obs (kernel depth)) (label : Label (kernel depth)) : Prop :=
  startsCovered label = true ∧ refreshInTime o label ∧ rollbackInTime o label

instance (o : Obs (kernel depth)) (label : Label (kernel depth)) :
    Decidable (disposesInTime o label) := inferInstanceAs (Decidable (_ ∧ _))

instance (o : Obs (kernel depth)) (label : Label (kernel depth)) :
    Decidable (finalizesInTime o label) := inferInstanceAs (Decidable (_ ∧ _))

/-- A context that has reached `Disposed` stays there, in every run that refreshes in time. -/
theorem disposed_stays_disposed (m₀ : KState) {c c' : Config (kernel depth)}
    (run : Run disposesInTime (.boot m₀) c) (later : Run disposesInTime c c') (inst : InstanceId)
    (h : c.mem.contexts.stateOf inst = some .disposed) :
    c'.mem.contexts.stateOf inst = some .disposed := by
  have admits : ∀ (o : Obs (kernel depth)) label, disposesInTime o label →
      (discipline depth m₀ false).ok o label :=
    fun o label ok => ⟨ok.1, ok.2, fun strict => absurd strict Bool.false_ne_true⟩
  have good := verified.run (D := discipline depth m₀ false)
    (inv_boot fun strict => absurd strict Bool.false_ne_true) (run.mono admits)
  exact verified.persists (P := fun o => o.mem.contexts.stateOf inst = some .disposed)
    (fun i o o' guar => guar.disposed inst) (fun o event ho => by cases event <;> exact ho)
    good (later.mono admits) h

/-- A provider with two calls, which its dispose has to wait for. -/
def twoCallsParked : List (Turn (kernel 2)) :=
  [.start 0 (.loadManifest provider), .finish 0, .start 0 (.callOpen "x" none []), .finish 0,
    .start 0 (.callOpen "x" none []), .finish 0, .start 0 (.disposeInstance 1), .finish 0]

theorem disposed_stays_disposed_after_close :
    ∃ c c' : Config (kernel 2), Run disposesInTime (.boot (KState.boot 1)) c ∧
      Run disposesInTime c c' ∧ c'.Quiescent ∧ c'.mem.contexts.stateOf 1 = some .disposed := by
  obtain ⟨c, run, disposed, next⟩ := Config.reaches (.boot (KState.boot 1))
    (fun o label => decide (disposesInTime o label))
    (P := fun c : Config (kernel 2) => c.mem.contexts.stateOf 1 = some .disposed ∧
      (c.play (fun o label => decide (disposesInTime o label)) 200 [.start 0 (.disposeInstance 1),
        .start 1 (.maybeFinalize 1), .finish 1, .finish 0]).any
        (fun c' => decide (c'.quiet 2 = true)) = true) (fun _ _ => of_decide_eq_true) 200
    (twoCallsParked ++ [.start 0 (.callClose 1), .finish 0, .start 1 (.callClose 2), .finish 1])
    (by decide +kernel)
  obtain ⟨c', later, quiet⟩ := c.reaches _ (fun _ _ => of_decide_eq_true) 200 _ next
  have tracked := later.tracked (run.tracked (Config.boot_tracked _))
  exact ⟨c, c', run, later, Config.quiet_quiescent quiet tracked,
    disposed_stays_disposed _ run later 1 disposed⟩

/-- A close that stops before it writes the refreshed cause, while another one finalizes, parks
a disposed context again. -/
theorem late_refresh_undoes_disposed :
    ∃ c c' : Config (kernel 2), Run (fun _ label => startsCovered label = true)
        (.boot (KState.boot 1)) c ∧ c.mem.contexts.stateOf 1 = some .disposed ∧
      Run (fun _ label => startsCovered label = true) c c' ∧
      c'.mem.contexts.stateOf 1 = some .cleanupPending := by
  obtain ⟨c, run, disposed, next⟩ := Config.reaches (.boot (KState.boot 1))
    (fun _ => startsCovered)
    (P := fun c : Config (kernel 2) => c.mem.contexts.stateOf 1 = some .disposed ∧
      (c.play (fun _ => startsCovered) 200 [.finish 0]).any (fun c' =>
        decide (c'.mem.contexts.stateOf 1 = some .cleanupPending)) = true) (fun _ _ => id) 200
    (twoCallsParked ++ [.start 0 (.callClose 1), .steps 0 7, .start 1 (.callClose 2), .finish 1])
    (by decide +kernel)
  obtain ⟨c', later, parked⟩ := c.reaches _ (fun _ _ => id) 200 _ next
  exact ⟨c, c', run, disposed, later, parked⟩

/-- Nothing is left parked at quiescence, in every run that refreshes and rolls back in time. -/
theorem quiescent_not_stranded (m₀ : KState) (start : ∀ inst, ¬ Stranded m₀ inst)
    (unclaimed : ∀ inst, m₀.calls.cleanupClaims inst = false) {c : Config (kernel depth)}
    (run : Run finalizesInTime (.boot m₀) c) (quiet : c.Quiescent) (inst : InstanceId) :
    ¬ Stranded c.mem inst := by
  have good := verified.run (D := discipline depth m₀ true) (inv_boot fun _ => ⟨start, unclaimed⟩)
    (run.mono fun o label ok => ⟨ok.1, ok.2.1, fun _ => ok.2.2⟩)
  intro stranded
  obtain ⟨i, hi⟩ := good.inv.owed rfl inst stranded
  exact (good.inv.idle i (good.tracked.idle quiet i) inst).1 hi

theorem boot_not_stranded (epoch : Nat) (inst : InstanceId) :
    ¬ Stranded (KState.boot epoch) inst := by
  rintro ⟨parked, -⟩
  cases parked

theorem quiescent_not_stranded_after_child :
    ∃ c : Config (kernel 2), Run finalizesInTime (.boot (KState.boot 1)) c ∧ c.Quiescent ∧
      c.mem.contexts.stateOf 1 = some .disposed ∧ ¬ Stranded c.mem 1 := by
  obtain ⟨c, run, quiet, disposed⟩ := Config.plays (KState.boot 1)
    (fun o label => decide (finalizesInTime o label))
    (P := fun c : Config (kernel 2) => c.mem.contexts.stateOf 1 = some .disposed)
    (fun _ _ => of_decide_eq_true) 200 2 (consumerInCall ++
      [.start 0 (.dependencyAdmit childRequest), .finish 0, .start 1 (.disposeInstance 1),
        .steps 1 12, .start 0 (.callClose 2), .steps 0 3, .finish 1, .finish 0]) (by decide +kernel)
  exact ⟨c, run, quiet, disposed,
    quiescent_not_stranded _ (boot_not_stranded 1) (fun _ => rfl) run quiet 1⟩

/-- A child that is rolled back after the provider's dispose counted it leaves the provider
parked for good. -/
theorem late_rollback_strands :
    ∃ c : Config (kernel 2), Run (fun _ label => startsCovered label = true)
        (.boot (KState.boot 1)) c ∧ c.Quiescent ∧ Stranded c.mem 1 :=
  Config.plays (KState.boot 1) (fun _ => startsCovered) (fun _ _ => id) 200 2 (consumerInCall ++
    [.start 0 (.dependencyAdmit childRequest), .steps 0 15, .start 1 (.disposeInstance 1),
      .finish 1, .finish 0]) (by decide +kernel)

end MatrixRuntime.FinalizationRuns
