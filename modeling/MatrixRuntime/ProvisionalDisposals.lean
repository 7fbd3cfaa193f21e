import MatrixRuntime.ProvisionalResources

/-! Every operation answers for what it registers and publishes until the activation is
confirmed, so that between operations a context that has ended owns no active resource
and shows nothing. -/

namespace MatrixRuntime.ProvisionalDisposals

open KernelContexts KernelTickets KernelResources KernelState KernelActions KernelReconcile
open KernelOperations InterleavedProgram InterleavedMachine TraceMarks ContextFrame
open OwnedPublications ReconcileFrame RelyGuarantee.Discipline ProvisionalResources
open FinalizationInvariant (wins)

variable {depth : Nat} {i : Nat} {op : Op} {o : KObs depth} {rec : ContextRecord}
  {α : Type} {p : KProg α} {β : Type} {a : KAct β} {hs : List ResourceHandle}

/-- The thread is in the operation and has nothing to answer for but the publications of these
instances. -/
structure Visiting (i : Nat) (op : Op) (V : InstanceId → Prop) (o : KObs depth) :
    Prop where
  call : inCall i o.trace = some op
  hands : ∀ x, ¬ inHand.During i x o.trace
  shows : ∀ x, ¬ showing.During i x o.trace
  visits : ∀ k, unpublishing.During i k o.trace → V k

/-- The thread is in the operation and has nothing to answer for. -/
abbrev Rest (i : Nat) (op : Op) : KObs depth → Prop := Visiting i op fun _ => False

/-- What the program has to show to keep the discipline and end in `Q`. -/
abbrev Wp (i : Nat) {α : Type} (p : KProg α) (Q : α → KObs depth → Prop) : KObs depth → Prop :=
  (discipline depth).wp i p Q

variable {V : InstanceId → Prop}

theorem stable_call : (discipline depth).Stable i fun o => inCall i o.trace = some op :=
  stable_own (P := fun trace => inCall i trace = some op) fun label past hl => by
    rw [inCall_foreign hl]

theorem stable_marks {K : Type} {m : Mark KAct K} {P : (K → Prop) → Prop} :
    (discipline depth).Stable i fun o => P fun x => m.During i x o.trace :=
  stable_own (P := fun trace => P fun x => m.During i x trace) fun label past hl => by
    simp only [Mark.during_foreign hl]

theorem Visiting.stable : (discipline depth).Stable i (Visiting i op V) := fun o o' hi h =>
  ⟨stable_call o o' hi h.call,
    stable_marks (P := fun f => ∀ x, ¬ f x) o o' hi h.hands,
    stable_marks (P := fun f => ∀ x, ¬ f x) o o' hi h.shows,
    stable_marks (P := fun f => ∀ x, f x → V x) o o' hi h.visits⟩

theorem Visiting.clear (h : Visiting i op V o) (k : InstanceId) : Clear i k o :=
  ⟨fun _ => h.hands _, fun _ => h.shows _⟩

/-- Context actions that neither claim nor end an activation. -/
abbrev idleContext (β : Type) : ContextAct β → Prop
  | .create _ state _ => state = .waiting ∨ state = .active
  | .claimDispose _ | .markDisposed _ | .markCleanupPending _ _ _ => False
  | _ => True

/-- Actions that leave a thread with nothing to answer for as it is. -/
abbrev idle (β : Type) : KAct β → Prop
  | .ctx a => idleContext β a
  | .res (.insert _ _) | .res (.discard _ _) | .res (.rollbackRegister _) => False
  | .pub (.provideInstance _ _) | .pub (.subscribeInstance _ _ _) => False
  | _ => True

section Acted

variable {β : Type} {a : KAct β} {b : β} {mem : KState}

theorem Visiting.acted (h : Visiting i op V o) (registers : ∀ x, ¬ registers a b x)
    (publishes : ∀ x, ¬ publishes a x) (wins : ∀ k, ¬ wins a b k) :
    Visiting i op V (o.acted i a b mem) where
  call := h.call
  hands x hx := (Mark.during_own.mp hx).elim (registers x) fun before => h.hands x before.1
  shows x hx := (Mark.during_own.mp hx).elim (publishes x) fun before => h.shows x before.1
  visits k hk := h.visits k ((Mark.during_own.mp hk).resolve_left (wins k)).1

theorem Visiting.idle_acted (h : Visiting i op V o) (ha : idle β a) :
    Visiting i op V (o.acted i a b mem) := by
  cases a with
  | ctx a =>
    cases a <;> first | exact ha.elim | exact h.acted (fun _ => id) (fun _ => id) fun _ => id
  | res a =>
    cases a <;> first | exact ha.elim | exact h.acted (fun _ => id) (fun _ => id) fun _ => id
  | pub a =>
    cases a <;> first | exact ha.elim | exact h.acted (fun _ => id) (fun _ => id) fun _ => id
  | _ => exact h.acted (fun _ => id) (fun _ => id) fun _ => id

theorem Visiting.idle_guard (h : Visiting i op V o) (ha : idle β a)
    (elsewhere : ∀ k, visited a k → ¬ V k) : guard i o a := by
  cases a with
  | ctx a =>
    cases a with
    | create => exact ha
    | markActive k => exact .inr (h.clear k)
    | claimDispose | markDisposed | markCleanupPending => exact ha.elim
    | _ => exact trivial
  | res a => cases a <;> first | exact ha.elim | exact trivial
  | pub a => cases a <;> first | exact ha.elim | exact trivial
  | comp a =>
    cases a with
    | putPlugin logical p => exact .inr (h.clear _)
    | _ => exact trivial
  | calls a =>
    cases a with
    | pendingFor k => exact fun visiting => absurd (h.visits k visiting) (elsewhere k rfl)
    | _ => exact trivial
  | _ => exact trivial

theorem Visiting.keeps (ha : idle β a) (elsewhere : ∀ k, visited a k → ¬ V k) :
    (discipline depth).Keeps i (Visiting i op V) a :=
  (guarded depth).keeps (fun _ _ h => h.idle_guard ha elsewhere) fun _ _ _ h _ => h.idle_acted ha

theorem rest_keeps (ha : idle β a) : (discipline depth).Keeps i (Rest i op) a :=
  Visiting.keeps ha fun _ _ => id

end Acted

theorem rest_composed (hp : Composed idle (fun _ _ => False) p) (ho : Rest i op o) :
    Wp i p (fun _ => Rest i op) o :=
  wp_composed hp Visiting.stable (fun _ _ => rest_keeps) (fun _ _ h => h.elim) ho

theorem rest_perform (ha : idle β a) (ho : Rest i op o) : Wp i (perform a) (fun _ => Rest i op) o :=
  rest_composed (.perform ha) ho

instance : Included steering idle where

/-! ### What lasts of a withdrawn instance -/

theorem withdrawn_lasting (k : InstanceId) :
    (discipline depth).Lasting fun o => Withdrawn o.mem.contexts k where
  guar j o o' guar h := Guar.withdrawn guar k h
  env o event h := by cases event <;> exact h

/-- The instance is withdrawn, and each of its active resources is listed or in some hand. -/
structure Draining (k : InstanceId) (hs : List ResourceHandle) (o : KObs depth) : Prop where
  withdrawn : Withdrawn o.mem.contexts k
  listed : ∀ h r, o.mem.resources.records h = some r → r.ownerContext = k → r.state = .active →
    h ∈ hs ∨ ∃ j, inHand.During j (k, h) o.trace

theorem draining_lasting (k : InstanceId) (hs : List ResourceHandle) :
    (discipline depth).Lasting (Draining k hs) where
  guar j o o' := by
    intro (guar : Guar j o o') drains
    refine ⟨guar.withdrawn k drains.withdrawn, fun h r found own active => ?_⟩
    by_cases old : h < o.mem.resources.nextHandle
    · obtain ⟨r₀, found₀, -, owner, stays⟩ := guar.records.ages h old r found
      refine (drains.listed h r₀ found₀ (owner.symm.trans own) (stays active)).imp_right ?_
      rintro ⟨j', held⟩
      exact ⟨j', guar.hand held drains.withdrawn found active⟩
    · exact .inr ⟨j, own ▸ guar.records.fresh h r found (Nat.le_of_not_lt old)⟩
  env o event drains := by
    have same : ∀ j x, inHand.During j x (o.passed event).trace ↔ inHand.During j x o.trace :=
      fun j x => Mark.during_foreign (by simp [Label.thread])
    cases event <;> exact ⟨drains.withdrawn, fun h r found own active =>
      (drains.listed h r found own active).imp_right fun held => held.imp fun j => (same j _).mpr⟩

theorem Draining.drop {k : InstanceId} {h : ResourceHandle} (drains : Draining k (h :: hs) o)
    (spent : ∀ r, o.mem.resources.records h = some r →
      r.ownerContext = k → r.state ≠ .active) : Draining k hs o where
  withdrawn := drains.withdrawn
  listed h' r found own active := by
    rcases drains.listed h' r found own active with listed | held
    · rcases List.mem_cons.mp listed with rfl | listed
      · exact absurd active (spent r found own)
      · exact .inl listed
    · exact .inr held

/-- The instance is withdrawn, and behind what it shows is a listed record or some thread
answers for it. -/
structure Hiding (k : InstanceId) (hs : List ResourceHandle) (o : KObs depth) : Prop where
  withdrawn : Withdrawn o.mem.contexts k
  backed : ∀ l kind, shown o.mem.publications l k kind → (∃ h ∈ hs, Settled o k h kind) ∨
    ∃ j, showing.During j (k, kind) o.trace

theorem hiding_lasting (k : InstanceId) (hs : List ResourceHandle) :
    (discipline depth).Lasting (Hiding k hs) where
  guar j o o' := by
    intro (guar : Guar j o o') hides
    refine ⟨guar.withdrawn k hides.withdrawn, fun l kind there => ?_⟩
    rcases guar.shows.shown l k kind there with before | now
    · refine (hides.backed l kind before).imp (fun ⟨h, listed, settled⟩ => ?_) fun ⟨j', hj⟩ => ?_
      · exact ⟨h, listed, guar.settled settled⟩
      · exact ⟨j', guar.answer hj hides.withdrawn there⟩
    · exact .inr ⟨j, now⟩
  env o event hides := by
    have same : ∀ {K : Type} {m : Mark KAct K} (j : Nat) (x : K),
        m.During j x (o.passed event).trace ↔ m.During j x o.trace :=
      fun j x => Mark.during_foreign (by simp [Label.thread])
    have settled : ∀ h kind, Settled o k h kind → Settled (o.passed event) k h kind :=
      fun h kind hs => ⟨by cases event <;> exact hs.1, fun j hj => hs.2 j ((same _ _).mp hj)⟩
    refine ⟨by cases event <;> exact hides.withdrawn, fun l kind there => ?_⟩
    refine (hides.backed l kind (by cases event <;> exact there)).imp ?_ ?_
    · exact fun ⟨h, listed, hs⟩ => ⟨h, listed, settled h kind hs⟩
    · exact fun ⟨j, hj⟩ => ⟨j, (same _ _).mpr hj⟩

/-! ### Releasing what an instance owns -/

section Actions

variable {β : Type} {a : KAct β} {L : KObs depth → Prop} {Q : β → KObs depth → Prop}

/-- A thread takes an idle action and sees its reply. -/
theorem Visiting.observe (ho : Visiting i op V o) (ha : idle β a)
    (elsewhere : ∀ k, visited a k → ¬ V k) (lasting : (discipline depth).Lasting L) (hl : L o)
    (h : ∀ o₁ reply mem, ProvisionalResources.Inv o₁ → L o₁ → a.sem o₁.mem = some (reply, mem) →
      Visiting i op V (o₁.acted i a reply mem) → L (o₁.acted i a reply mem) →
      Q reply (o₁.acted i a reply mem)) :
    Wp i (InterleavedProgram.perform a) Q o :=
  (guarded depth).observe Visiting.stable lasting ⟨ho, hl⟩
    (fun _ _ h _ => h.idle_guard ha elsewhere)
    fun o₁ reply mem hr hL acts _ after => h o₁ reply mem acts.inv hL acts.enabled
      (hr.idle_acted ha) after

theorem rest_observe (ho : Rest i op o) (ha : idle β a) (lasting : (discipline depth).Lasting L)
    (hl : L o)
    (h : ∀ o₁ reply mem, ProvisionalResources.Inv o₁ → L o₁ → a.sem o₁.mem = some (reply, mem) →
      Rest i op (o₁.acted i a reply mem) → L (o₁.acted i a reply mem) →
      Q reply (o₁.acted i a reply mem)) :
    Wp i (InterleavedProgram.perform a) Q o :=
  ho.observe ha (fun _ _ => id) lasting hl h

/-- Programs of idle actions keep what lasts. -/
theorem rest_lasts (ho : Rest i op o) (hp : Composed idle (fun _ _ => False) p)
    (lasting : (discipline depth).Lasting L) (hl : L o) :
    Wp i p (fun _ o => Rest i op o ∧ L o) o :=
  lasting.wp (rest_composed hp ho) hl

end Actions

instance : Included releasing idle where

instance : Included withdrawing idle where

theorem idles_of_withdraws (hp : Withdraws p) :
    Composed idle (fun _ _ => False) p :=
  hp.relax

variable {k : InstanceId} {h : ResourceHandle} {hs : List ResourceHandle} {r : ResourceRecord}
  (t : ResourceTable)

theorem inspect_records (h : ResourceHandle) : (t.inspectRelease h).2.records = t.records := by
  unfold ResourceTable.inspectRelease
  repeat' split
  all_goals rfl

/-- A release that is refused although the resource can be released found it spent. -/
theorem inspect_spent {t : ResourceTable} {e : ReleaseError}
    (refused : (t.inspectRelease h).1 = .error e) (reason : ∀ h' s, e ≠ .cleanupFailed h' s)
    (found : t.records h = some r) : r.state ≠ .active := by
  intro active
  unfold ResourceTable.inspectRelease at refused
  simp only [found, active] at refused
  split at refused
  next impossible => cases impossible
  next =>
    split at refused
    · cases refused
      exact reason _ _ rfl
    · cases refused

theorem claim_spends (h : ResourceHandle)
    (found : (t.claimRelease h).2.records h = some r) : r.state ≠ .active := by
  unfold ResourceTable.claimRelease at found
  split at found
  next absent => cases absent.symm.trans found
  next rec there =>
    split at found
    next spent =>
      cases there.symm.trans found
      simp [spent]
    next =>
      simp only [ResourceTable.retire, Function.update_self, there] at found
      cases found
      simp

/-- What a release of the handle leaves of the list. -/
theorem beginRelease_drains (ho : Rest i op o) (drains : Draining k (h :: hs) o) :
    Wp i (beginRelease h) (fun claim o => Rest i op o ∧
      Withdrawn o.mem.contexts k ∧
      ((∀ h' s, claim ≠ .error (.cleanupFailed h' s)) → Draining k hs o)) o := by
  refine wp_seq (R := fun verdict o => Rest i op o ∧ Draining k (h :: hs) o ∧
      ∀ e, verdict = .error e → (∀ h' s, e ≠ .cleanupFailed h' s) → Draining k hs o)
    (rest_observe ho trivial (draining_lasting k (h :: hs)) drains ?_) fun verdict o₁ h₁ => ?_
  · intro o₁ verdict mem _ _ sem rest after
    refine ⟨rest, after, fun e refused reason => after.drop fun r found _ => ?_⟩
    cases sem
    rw [Obs.acted_mem] at found
    change (o₁.mem.resources.inspectRelease h).2.records h = some r at found
    rw [inspect_records] at found
    exact inspect_spent refused reason found
  obtain ⟨rest, after, spent⟩ := h₁
  cases verdict with
  | error e =>
    refine ⟨rest, after.withdrawn, fun reason => spent e rfl fun h' s same => ?_⟩
    exact reason h' s (by rw [same])
  | ok _ =>
    refine rest_observe rest trivial (draining_lasting k (h :: hs)) after ?_
    intro o₂ claim mem _ _ sem rest₂ after₂
    refine ⟨rest₂, after₂.withdrawn, fun _ => after₂.drop fun r found _ => ?_⟩
    cases sem
    exact claim_spends o₂.mem.resources h found

theorem releaseOwned_drains (own : rec.context = k) (ho : Rest i op o)
    (drains : Draining k (h :: hs) o) :
    Wp i (releaseOwned rec h) (fun failure o => Rest i op o ∧
      Withdrawn o.mem.contexts k ∧ (failure = [] → Draining k hs o)) o := by
  refine wp_seq (R := fun rr o => Rest i op o ∧ Draining k (h :: hs) o ∧
      ((∀ r, rr = some r → r.ownerContext = k → r.state ≠ .active) → Draining k hs o))
    (rest_observe ho trivial (draining_lasting k (h :: hs)) drains ?_) fun rr o₁ h₁ => ?_
  · intro o₁ rr mem _ _ sem rest after
    refine ⟨rest, after, fun spent => after.drop fun r found => ?_⟩
    cases sem
    exact spent r found
  obtain ⟨rest, after, spent⟩ := h₁
  cases rr with
  | none => exact ⟨rest, after.withdrawn, fun _ => spent fun r found => by cases found⟩
  | some rr =>
    dsimp only
    split_ifs with skip
    · refine ⟨rest, after.withdrawn, fun _ => spent fun r found own' active => ?_⟩
      cases found
      rcases skip with idle | foreign
      · exact idle active
      · exact foreign (own'.trans own.symm)
    · refine wp_seq (beginRelease_drains rest after) fun claim o₂ h₂ => ?_
      obtain ⟨rest₂, gone, drained⟩ := h₂
      cases claim with
      | ok claim =>
        refine wp_seq (rest_lasts rest₂ (revokePublication_releases ..).relax
          (draining_lasting k hs) (drained fun _ _ => by simp)) fun _ o₃ h₃ => ?_
        exact ⟨h₃.1, h₃.2.withdrawn, fun _ => h₃.2⟩
      | error e =>
        cases e with
        | cleanupFailed h' reason => exact ⟨rest₂, gone, fun none => by cases none⟩
        | unknownHandle => exact ⟨rest₂, gone, fun _ => drained fun _ _ => by simp⟩
        | alreadyReleased => exact ⟨rest₂, gone, fun _ => drained fun _ _ => by simp⟩

theorem releaseHandles_drains (own : rec.context = k) {p : Prop} (ho : Rest i op o)
    (gone : Withdrawn o.mem.contexts k) (drains : p → Draining k hs o) :
    Wp i (releaseHandles rec hs) (fun failures o => Rest i op o ∧
      Withdrawn o.mem.contexts k ∧ (p → failures = [] → Draining k [] o)) o := by
  induction hs generalizing o p with
  | nil => exact ⟨ho, gone, fun hp _ => drains hp⟩
  | cons h hs ih =>
    have first : Wp i (releaseOwned rec h) (fun failure o => Rest i op o ∧
        Withdrawn o.mem.contexts k ∧ (p ∧ failure = [] → Draining k hs o)) o := by
      by_cases hp : p
      · refine wp_mono (fun _ o h => ⟨h.1, h.2.1, fun q => h.2.2 q.2⟩)
          (releaseOwned_drains own ho (drains hp))
      · refine wp_mono (fun _ o h => ⟨h.1, h.2, fun q => absurd q.1 hp⟩)
          (rest_lasts ho (releaseOwned_releases rec h).relax (withdrawn_lasting k)
            gone)
    refine wp_seq first fun failure o₁ h₁ => ?_
    refine wp_seq (ih h₁.1 h₁.2.1 h₁.2.2) fun rest o₂ h₂ => ⟨h₂.1, h₂.2.1, fun hp none => ?_⟩
    obtain ⟨none, none'⟩ := List.append_eq_nil_iff.mp none
    exact h₂.2.2 ⟨hp, none⟩ none'

/-- A release that meets no failure leaves the instance nothing but what is in some hand. -/
theorem releaseContextResources_drains (own : rec.context = k) (ho : Rest i op o)
    (gone : Withdrawn o.mem.contexts k) :
    Wp i (releaseContextResources rec) (fun failures o => Rest i op o ∧
      Withdrawn o.mem.contexts k ∧ (failures = [] → Draining k [] o)) o := by
  refine wp_seq (R := fun handles o => Rest i op o ∧ Draining k handles.reverse o)
    (rest_observe ho trivial (withdrawn_lasting k) gone ?_) fun handles o₁ h₁ => ?_
  · intro o₁ handles mem _ _ sem rest after
    cases sem
    refine ⟨rest, after, fun h r found own' active => .inl ?_⟩
    rw [List.mem_reverse]
    exact (o₁.mem.resources.owned h r _ found).mpr (own'.trans own.symm)
  · exact wp_mono (fun _ o h => ⟨h.1, h.2.1, h.2.2 trivial⟩)
      (releaseHandles_drains own h₁.1 h₁.2.withdrawn fun _ : True => h₁.2)

/-! ### Ending an instance -/

variable {inst : InstanceId}

theorem get_sees (ho : Rest i op o) :
    Wp i (ctx (.get inst)) (fun rec o => Rest i op o ∧
      ∀ r, rec = some r → r.context = inst ∧ r.instanceId = inst ∧
        (r.state.live = false → Withdrawn o.mem.contexts inst)) o := by
  refine (guarded depth).perform Visiting.stable ho (fun _ _ _ => trivial)
    fun o₁ rec mem h₁ acts => ⟨h₁.idle_acted trivial, ?_⟩
  rintro r rfl
  have enabled := acts.enabled
  simp only [kernel, KAct.sem, ContextAct.run, Option.some.injEq, Prod.mk.injEq] at enabled
  obtain ⟨found, rfl⟩ := enabled
  obtain ⟨same, paired, -⟩ := o₁.mem.contexts.issued inst r found
  exact ⟨paired, same, fun dead => ⟨_, ContextTable.stateOf_of_byInstance found, dead⟩⟩

theorem markDisposed_rest (ho : Rest i op o) (drained : Draining inst [] o) :
    Wp i (ctx (.markDisposed inst)) (fun _ => Rest i op) o := by
  refine (guarded depth).observe Visiting.stable (draining_lasting inst []) ⟨ho, drained⟩
    (fun o₁ _ _ drained => ⟨drained.withdrawn, fun h r found own active => ?_⟩)
    fun o₁ _ mem rest _ _ _ _ => rest.acted (fun _ => id) (fun _ => id) fun _ => id
  exact (drained.listed h r found own active).resolve_left (by simp)

theorem markCleanupPending_rest (writer : CleanupWriter) (cause : String) (ho : Rest i op o)
    (gone : Withdrawn o.mem.contexts inst) :
    Wp i (ctx (.markCleanupPending writer inst cause)) (fun _ o =>
      Rest i op o ∧ Withdrawn o.mem.contexts inst) o :=
  (guarded depth).observe Visiting.stable (withdrawn_lasting inst) ⟨ho, gone⟩
    (fun _ _ _ gone => gone) fun _ _ _ rest _ _ _ after =>
      ⟨rest.acted (fun _ => id) (fun _ => id) fun _ => id, after⟩

theorem refreshCleanupCause_rest (ho : Rest i op o) :
    Wp i (refreshCleanupCause inst) (fun _ => Rest i op) o := by
  refine wp_seq (get_sees ho) fun rec o₁ h₁ => ?_
  cases rec with
  | none => exact h₁.1
  | some rec =>
    dsimp only
    split_ifs with other cited
    · exact h₁.1
    · have gone := (h₁.2 rec rfl).2.2 (by simp [Fsm.live, not_not.mp other])
      refine wp_seq (rest_lasts h₁.1 (.once) (withdrawn_lasting inst) gone)
        fun _ o₂ h₂ => ?_
      exact wp_mono (fun _ _ h => h.1) (markCleanupPending_rest _ _ h₂.1 h₂.2)
    · exact h₁.1

section Dispose

variable {again : KProg Unit}

theorem maybeFinalize_rest
    (hagain : ∀ o : KObs depth, Rest i op o → Wp i again (fun _ => Rest i op) o)
    (inst : InstanceId) (ho : Rest i op o) :
    Wp i (maybeFinalize again inst) (fun _ => Rest i op) o := by
  refine wp_seq (get_sees ho) fun rec o₁ h₁ => ?_
  cases rec with
  | none => exact h₁.1
  | some rec =>
    obtain ⟨own, -, dead⟩ := h₁.2 rec rfl
    dsimp only
    split_ifs with other
    · exact h₁.1
    · have gone := dead (by simp [Fsm.live, not_not.mp other])
      refine wp_seq (rest_lasts h₁.1 (.once) (withdrawn_lasting inst) gone)
        fun _ o₂ h₂ => ?_
      split_ifs
      · exact refreshCleanupCause_rest h₂.1
      · refine wp_seq (rest_lasts h₂.1 (.once) (withdrawn_lasting inst) h₂.2)
          fun claimed o₃ h₃ => ?_
        split_ifs
        · refine wp_seq (releaseContextResources_drains own h₃.1 h₃.2) fun failures o₄ h₄ => ?_
          split_ifs with none
          · refine wp_seq (markDisposed_rest h₄.1 (h₄.2.2 (List.isEmpty_iff.mp none)))
              fun _ o₅ h₅ => ?_
            refine wp_seq (rest_perform trivial h₅) fun _ o₆ h₆ => ?_
            refine wp_seq (rest_perform trivial h₆) fun _ o₇ h₇ => ?_
            exact wp_seq (rest_perform trivial h₇) fun _ => hagain
          · refine wp_seq (markCleanupPending_rest _ _ h₄.1 h₄.2.1) fun _ o₅ h₅ => ?_
            exact rest_perform trivial h₅.1
        · exact h₃.1

theorem park_rest
    (hagain : ∀ o : KObs depth, Rest i op o → Wp i again (fun _ => Rest i op) o)
    (rec : ContextRecord) (ho : Rest i op o) (gone : Withdrawn o.mem.contexts rec.instanceId) :
    Wp i (park again rec) (fun _ => Rest i op) o := by
  refine wp_seq (rest_lasts ho (.once) (withdrawn_lasting _) gone) fun _ o₁ h₁ => ?_
  refine wp_seq (markCleanupPending_rest _ _ h₁.1 h₁.2) fun _ o₂ h₂ => ?_
  refine wp_seq (rest_perform trivial h₂.1) fun _ o₃ h₃ => ?_
  refine wp_seq (rest_perform trivial h₃) fun _ o₄ h₄ => ?_
  refine wp_seq (rest_perform trivial h₄) fun live o₅ h₅ => ?_
  split_ifs
  · exact wp_seq (maybeFinalize_rest hagain _ h₅) fun _ o₆ h₆ =>
      wp_parkOutcome (fun _ => rest_perform (by exact trivial)) _ h₆
  · exact wp_parkOutcome (fun _ => rest_perform (by exact trivial)) _ h₅

theorem settleDispose_rest (rec : ContextRecord) (own : rec.context = rec.instanceId)
    (ho : Rest i op o) (gone : Withdrawn o.mem.contexts rec.instanceId) :
    Wp i (settleDispose rec) (fun _ => Rest i op) o := by
  refine wp_seq (releaseContextResources_drains own ho gone) fun failures o₁ h₁ => ?_
  dsimp only
  split_ifs with none
  · refine wp_seq (markDisposed_rest h₁.1 (h₁.2.2 (List.isEmpty_iff.mp none))) fun _ o₂ h₂ => ?_
    refine wp_seq (rest_perform trivial h₂) fun _ o₃ h₃ => ?_
    exact wp_seq (rest_perform trivial h₃) fun _ o₄ h₄ => h₄
  · refine wp_seq (markCleanupPending_rest _ _ h₁.1 h₁.2.1) fun _ o₂ h₂ => ?_
    refine wp_seq (rest_perform trivial h₂.1) fun _ o₃ h₃ => ?_
    exact wp_seq (rest_perform trivial h₃) fun _ o₄ h₄ => h₄

end Dispose

/-! ### Taking back what an instance shows -/

/-- Idle actions that end no visit. -/
def quiet (β : Type) (a : KAct β) : Prop := idle β a ∧ ∀ k, ¬ visited a k

theorem Visiting.lasts {L : KObs depth → Prop} (ho : Visiting i op V o)
    (hp : Composed quiet (fun _ _ => False) p) (lasting : (discipline depth).Lasting L) (hl : L o) :
    Wp i p (fun _ o => Visiting i op V o ∧ L o) o :=
  lasting.wp (wp_composed hp Visiting.stable
    (fun _ _ h => Visiting.keeps h.1 fun k seen => absurd seen (h.2 k)) (fun _ _ h => h.elim) ho) hl

theorem quiet_perform (h : idle β a) (elsewhere : ∀ k, ¬ visited a k) :
    Composed quiet (fun _ _ => False) (perform a) := .perform ⟨h, elsewhere⟩

/-- A record of this owner keeps its kind. -/
def Kept (k : InstanceId) (h : ResourceHandle) (kind : ResourceKind) (o : KObs depth) :
    Prop :=
  h < o.mem.resources.nextHandle ∧
    ∀ r, o.mem.resources.records h = some r → r.ownerContext = k → r.kind = kind

theorem kept_lasting (k : InstanceId) (h : ResourceHandle) (kind : ResourceKind) :
    (discipline depth).Lasting (Kept k h kind) where
  guar j o o' := by
    intro (guar : Guar j o o') ⟨old, kept⟩
    refine ⟨Nat.lt_of_lt_of_le old guar.records.next, fun r found own => ?_⟩
    obtain ⟨r₀, found₀, same, owner, -⟩ := guar.records.ages h old r found
    exact same.trans (kept r₀ found₀ (owner.symm.trans own))
  env o event h := by cases event <;> exact h

theorem Hiding.drop {k : InstanceId} {h : ResourceHandle} (hides : Hiding k (h :: hs) o)
    (gone : ∀ l kind, shown o.mem.publications l k kind → ¬ Settled o k h kind) :
    Hiding k hs o where
  withdrawn := hides.withdrawn
  backed l kind there := by
    rcases hides.backed l kind there with ⟨h', listed, settled⟩ | answered
    · rcases List.mem_cons.mp listed with rfl | listed
      · exact absurd settled (gone l kind there)
      · exact .inl ⟨h', listed, settled⟩
    · exact .inr answered

theorem revokePublication_hides {kind : ResourceKind} (ho : Visiting i op V o)
    (hides : Hiding k (h :: hs) o) (kept : Kept k h kind o) :
    Wp i (revokePublication k kind) (fun _ o => Visiting i op V o ∧
      Hiding k hs o) o := by
  have lasting : (discipline depth).Lasting fun o => Hiding k (h :: hs) o ∧ Kept k h kind o :=
    (hiding_lasting k (h :: hs)).and (kept_lasting k h kind)
  have dropped : ∀ {o : KObs depth}, Hiding k (h :: hs) o → Kept k h kind o →
      (∀ l, ¬ shown o.mem.publications l k kind) → Hiding k hs o := fun hides kept hidden =>
    hides.drop fun l kind' there settled => by
      obtain ⟨⟨r, found, own, rfl⟩, -⟩ := settled
      exact hidden l (kept.2 r found own ▸ there)
  cases kind with
  | cap name =>
    refine ho.observe trivial (fun _ => False.elim) lasting ⟨hides, kept⟩ ?_
    intro o₁ _ mem _ _ sem visiting after
    refine ⟨visiting, dropped after.1 after.2 fun l there => ?_⟩
    cases sem
    exact (shown_revokeCap there).2 ⟨rfl, rfl⟩
  | sub topic =>
    refine ho.observe trivial (fun _ => False.elim) lasting ⟨hides, kept⟩ ?_
    intro o₁ _ mem _ _ sem visiting after
    refine ⟨visiting, dropped after.1 after.2 fun l there => ?_⟩
    cases sem
    exact (shown_unsubscribe there).2 ⟨rfl, rfl⟩
  | _ => exact ⟨ho, dropped hides kept fun _ there => there.elim⟩

theorem unpublish_hides (own : rec.context = k) (same : rec.instanceId = k)
    (ho : Visiting i op V o) (hides : Hiding k (h :: hs) o) :
    Wp i (unpublish rec h) (fun _ o => Visiting i op V o ∧ Hiding k hs o) o := by
  refine wp_seq (R := fun rr o => Visiting i op V o ∧ Hiding k (h :: hs) o ∧
      ((∀ r, rr = some r → r.ownerContext ≠ k) → Hiding k hs o) ∧
      ∀ r, rr = some r → Kept k h r.kind o)
    (ho.observe trivial (fun _ => False.elim) (hiding_lasting k (h :: hs)) hides ?_)
    fun rr o₁ h₁ => ?_
  · intro o₁ rr mem _ _ sem visiting after
    cases sem
    refine ⟨visiting, after, fun foreign => after.drop fun l kind _ settled => ?_,
      fun r found => ?_⟩
    · obtain ⟨⟨r, found, own', -⟩, -⟩ := settled
      exact foreign r found own'
    · refine ⟨(o₁.mem.resources.issued h r found).2, fun r' found' _ => ?_⟩
      cases found.symm.trans found'
      rfl
  obtain ⟨visiting, after, foreign, kept⟩ := h₁
  cases rr with
  | none => exact ⟨visiting, foreign fun r found => by cases found⟩
  | some rr =>
    dsimp only
    split_ifs with other
    · refine ⟨visiting, foreign fun r found => ?_⟩
      cases found
      exact own ▸ other
    · rw [same]
      exact revokePublication_hides visiting after (kept rr rfl)

theorem unpublishAll_hides (own : rec.context = k) (same : rec.instanceId = k)
    (ho : Visiting i op V o) (hides : Hiding k hs o) :
    Wp i (forEach hs (unpublish rec)) (fun _ o => Visiting i op V o ∧
      Hiding k [] o) o := by
  induction hs generalizing o with
  | nil => exact ⟨ho, hides⟩
  | cons h hs ih =>
    exact wp_seq (unpublish_hides own same ho hides) fun _ o₁ h₁ => ih h₁.1 h₁.2

theorem handlesFor_hides (ho : Visiting i op V o) (gone : Withdrawn o.mem.contexts k) :
    Wp i (res (.handlesFor k)) (fun handles o => Visiting i op V o ∧
      Hiding k handles o) o := by
  refine ho.observe trivial (fun _ => False.elim) (withdrawn_lasting k) gone ?_
  intro o₁ handles mem hinv _ sem visiting after
  cases sem
  refine ⟨visiting, after, fun l kind there => ?_⟩
  -- A look at the table leaves the marks and the records as they are.
  have marks : ∀ {j x}, inHand.During j x (o₁.acted i (KAct.res (.handlesFor k))
      (o₁.mem.resources.byOwner k) o₁.mem).trace ↔ inHand.During j x o₁.trace :=
    Mark.during_quiet id (by rintro (h | h) <;> exact h)
  refine (hinv.backed l k kind there).imp (fun ⟨h, ⟨r, found, own, kinds⟩, free⟩ => ?_)
    fun ⟨j, hj⟩ => ⟨j, (Mark.during_quiet id (by rintro (h | h) <;> exact h)).mpr hj⟩
  exact ⟨h, (o₁.mem.resources.owned h r k found).mpr own, ⟨r, found, own, kinds⟩,
    fun j held => free j (marks.mp held)⟩

/-- The visit of the instance ends once nothing it shows is left unanswered for. -/
theorem pendingFor_rest (ho : Visiting i op (· = k) o) (hidden : Hiding k [] o) :
    Wp i (calls (.pendingFor k)) (fun _ o => Rest i op o ∧
      Withdrawn o.mem.contexts k) o := by
  refine (guarded depth).observe Visiting.stable (hiding_lasting k []) ⟨ho, hidden⟩
    (fun o₁ _ _ hidden _ l kind there => ?_) fun o₁ _ mem visiting _ _ _ after =>
      ⟨?_, after.withdrawn⟩
  · refine (hidden.backed l kind there).resolve_left ?_
    rintro ⟨h, listed, -⟩
    cases listed
  · refine ⟨visiting.call, fun x hx => ?_, fun x hx => ?_, fun k' hk => ?_⟩
    · exact visiting.hands x ((Mark.during_own.mp hx).resolve_left id).1
    · exact visiting.shows x ((Mark.during_own.mp hx).resolve_left id).1
    · obtain ⟨before, kept⟩ := (Mark.during_own.mp hk).resolve_left id
      exact kept (visiting.visits k' before).symm

theorem quiesce_rest (own : rec.context = k) (same : rec.instanceId = k)
    (ho : Visiting i op (· = k) o) (gone : Withdrawn o.mem.contexts k) :
    Wp i (quiesce rec) (fun _ o => Rest i op o ∧
      Withdrawn o.mem.contexts k) o := by
  have look : ∀ {β : Type} {a : KAct β} {o : KObs depth}, idle β a →
      (∀ k, ¬ visited a k) → Visiting i op (· = k) o ∧ Withdrawn o.mem.contexts k →
      Wp i (perform a) (fun _ o => Visiting i op (· = k) o ∧
        Withdrawn o.mem.contexts k) o := fun ha elsewhere h =>
    h.1.lasts (quiet_perform ha elsewhere) (withdrawn_lasting k) h.2
  refine wp_seq (look trivial (fun _ => id) ⟨ho, gone⟩) fun _ o₁ h₁ => ?_
  refine wp_seq (wp_seq (look trivial (fun _ => id) h₁) fun _ o₂ h₂ =>
    look trivial (fun _ => id) h₂) fun _ o₂ h₂ => ?_
  refine wp_seq (look trivial (fun _ => id) h₂) fun _ o₃ h₃ => ?_
  refine wp_seq (R := fun handles o => Visiting i op (· = k) o ∧ Hiding k handles o)
    (by rw [own]; exact handlesFor_hides h₃.1 h₃.2) fun handles o₄ h₄ => ?_
  refine wp_seq (unpublishAll_hides own same h₄.1 h₄.2) fun _ o₅ h₅ => ?_
  refine wp_seq (h₅.1.lasts (quiet_perform trivial fun _ => id) (hiding_lasting k []) h₅.2)
    fun now o₆ h₆ => ?_
  refine wp_seq (R := fun _ o => Rest i op o ∧ Withdrawn o.mem.contexts k)
    (by rw [same]; exact pendingFor_rest h₆.1 h₆.2) fun pending o₇ h₇ => ?_
  refine rest_lasts h₇.1 (idles_of_withdraws ?_) (withdrawn_lasting k) h₇.2
  exact .bind (withdrawTickets_signals ..).relax fun _ =>
    .bind (awaitDrain_signals ..).relax fun _ => .next fun _ =>
    .bind (journalRevoked_withdraws ..) fun _ => .next fun _ =>
    .next fun _ => .forEach _ fun _ => .next fun _ =>
    revokeTicketDescendants_withdraws ..

theorem claimDispose_visits (ho : Rest i op o) :
    Wp i (ctx (.claimDispose inst)) (fun claim o =>
      (∀ rec, claim = .ok (.fresh rec) → rec.context = inst ∧ rec.instanceId = inst ∧
        Visiting i op (· = inst) o ∧ Withdrawn o.mem.contexts inst) ∧
      ((∀ rec, claim ≠ .ok (.fresh rec)) → Rest i op o)) o := by
  refine (guarded depth).perform Visiting.stable ho (fun _ _ _ => trivial)
    fun o₁ claim mem h₁ acts => ?_
  have enabled := acts.enabled
  simp only [kernel, KAct.sem, ContextAct.run, Option.some.injEq, Prod.mk.injEq] at enabled
  obtain ⟨reply, rfl⟩ := enabled
  constructor
  · rintro rec rfl
    obtain ⟨same, gone⟩ := claimDispose_fresh reply
    refine ⟨?_, same, ⟨h₁.call, fun x hx => ?_, fun x hx => ?_, fun k hk => ?_⟩, gone⟩
    · rcases o₁.mem.contexts.claimDispose_cases inst with ⟨-, stale⟩ | ⟨rec', found, -, claim⟩
      · exact absurd reply (stale rec)
      · rw [claim] at reply
        cases reply
        exact (o₁.mem.contexts.issued inst rec' found).2.1
    · exact h₁.hands x ((Mark.during_own.mp hx).resolve_left id).1
    · exact h₁.shows x ((Mark.during_own.mp hx).resolve_left id).1
    · rcases Mark.during_own.mp hk with won | ⟨before, -⟩
      · exact Eq.symm won
      · exact (h₁.visits k before).elim
  · intro stale
    refine h₁.acted (fun _ => id) (fun _ => id) fun k won => ?_
    cases claim with
    | error e => exact won
    | ok claim =>
      cases claim with
      | fresh rec => exact stale rec rfl
      | inFlight logical => exact won

theorem disposeInstanceInner_rest {again : KProg Unit}
    (hagain : ∀ o : KObs depth, Rest i op o → Wp i again (fun _ => Rest i op) o)
    (inst : InstanceId) (ho : Rest i op o) :
    Wp i (disposeInstanceInner again inst) (fun _ => Rest i op) o := by
  refine wp_disposeInstanceInner (rest_perform trivial ho) (fun _ => claimDispose_visits) ?_
  rintro rec o₂ ⟨own, same, visiting, gone⟩
  refine wp_seq (quiesce_rest own same visiting gone) fun _ o₃ h₃ => ?_
  refine wp_seq (rest_lasts h₃.1 (.once) (withdrawn_lasting inst) h₃.2)
    fun live o₄ h₄ => ?_
  split_ifs
  · exact park_rest hagain rec h₄.1 (same ▸ h₄.2)
  · exact settleDispose_rest rec (own.trans same.symm) h₄.1 (same ▸ h₄.2)

end MatrixRuntime.ProvisionalDisposals
