import MatrixRuntime.PinnedResources

/-! Every operation takes away only resources that no ticket pins: it has registered them
itself, or it has looked at the tickets of their owner and found none. -/

namespace MatrixRuntime.PinnedOperations

open KernelContexts KernelTickets KernelResources KernelState KernelActions KernelReconcile
open KernelOperations InterleavedProgram InterleavedMachine RelyGuarantee.Discipline TraceMarks
open ReconcileFrame OperationFrame PinnedResources
open ProvisionalResources (takesBack)
open ProvisionalOperations (registering)

variable {depth i : Nat} {o o' : KObs depth} {α : Type} {p : KProg α}
  {P : KObs depth → Prop} {label : KLabel depth} {h : ResourceHandle}
  {rec : ContextRecord} {hs : List ResourceHandle} {r : ResourceRecord} {β : Type}
  (logical : String) (cur : ContextRecord) (kind : ResourceKind) (inst : InstanceId)
  (manifest : StoredManifest) {a : KAct β}

/-! ### What lasts while an operation does -/

/-- What a step of another thread, or one of its own that issues no ticket, leaves to a thread. -/
structure Later (i : Nat) (o o' : KObs depth) : Prop where
  next : o.mem.resources.nextHandle ≤ o'.mem.resources.nextHandle
  ages : ∀ h, h < o.mem.resources.nextHandle → ∀ r', o'.mem.resources.records h = some r' →
    ∃ r, o.mem.resources.records h = some r ∧ r'.ownerInstance = r.ownerInstance ∧
      (r'.state = .active → r.state = .active)
  pins : ∀ k h, Pins o'.mem.calls k h → Pins o.mem.calls k h ∨
    (Held o.mem.resources k h ∧ ¬ Minds i h o)
  registered : ∀ h, registering.During i h o.trace → registering.During i h o'.trace
  looked : ∀ k, looking.During i k o.trace → looking.During i k o'.trace

/-- What the program has to show to keep the discipline and end in `Q`. -/
abbrev Wp (i : Nat) {α : Type} (p : KProg α) (Q : α → KObs depth → Prop) : KObs depth → Prop :=
  (discipline depth).wp i p Q

def Sheltered (depth i : Nat) (P : KObs depth → Prop) : Prop :=
  ∀ o o', Later i o o' → P o → P o'

theorem Sheltered.and {Q : KObs depth → Prop} (hP : Sheltered depth i P)
    (hQ : Sheltered depth i Q) : Sheltered depth i fun o => P o ∧ Q o :=
  fun o o' later h => ⟨hP o o' later h.1, hQ o o' later h.2⟩

theorem Sheltered.const (p : Prop) : Sheltered depth i fun _ => p := fun _ _ _ => id

theorem Sheltered.all {ι : Type} {xs : List ι} {P : ι → KObs depth → Prop}
    (h : ∀ x, Sheltered depth i (P x)) : Sheltered depth i fun o => ∀ x ∈ xs, P x o :=
  fun o o' later all x hx => h x o o' later (all x hx)

theorem later_foreign {j : Nat} (other : j ≠ i) (own : label.thread = some j)
    (logged : o'.trace = label :: o.trace) (guar : Guar j o o') : Later i o o' where
  next := guar.next
  ages := guar.ages
  pins k h pinned := (guar.pins k h pinned).imp_right fun new => ⟨new.1, new.2 i (Ne.symm other)⟩
  registered h hr := by
    rw [logged]
    exact (Mark.during_foreign (by rw [own]; simpa using other)).mpr hr
  looked k hk := by
    rw [logged]
    exact (Mark.during_foreign (by rw [own]; simpa using other)).mpr hk

theorem later_passed (event : KEnv) : Later i o (o.passed event) where
  next := by cases event <;> exact le_rfl
  ages h _ r found := by cases event <;> exact ⟨r, found, rfl, id⟩
  pins k h pinned := by cases event <;> exact .inl pinned
  registered h := (Mark.during_foreign (by simp [Label.thread])).mpr
  looked k := (Mark.during_foreign (by simp [Label.thread])).mpr

theorem Sheltered.stable (hP : Sheltered depth i P) : (discipline depth).Stable i P :=
  .intro (fun o o' _ _ _ _ other own logged guar => hP o o' (later_foreign other own logged guar))
    fun o event _ => hP o _ (later_passed event)

section Acted

variable {β : Type} {a : KAct β} {b : β} {mem : KState}

theorem pins_calm (calm : ¬ issues a) (sem : a.sem o.mem = some (b, mem)) {k : InstanceId}
    {h : ResourceHandle} (pinned : Pins mem.calls k h) : Pins o.mem.calls k h := by
  cases a with
  | calls a =>
    cases sem
    exact pins_shrink calm pinned
  | ctx | res | pub | comp =>
    cases sem
    exact pinned
  | _ => exact (KAct.sem_sameTables sem rfl).calls ▸ pinned

theorem later_acted (calm : ¬ issues a) (sem : a.sem o.mem = some (b, mem))
    (guar : Guar i o (o.acted i a b mem)) : Later i o (o.acted i a b mem) where
  next := guar.next
  ages := guar.ages
  pins _ _ pinned := .inl (pins_calm calm sem pinned)
  registered _ hr := Mark.during_own.mpr (.inr ⟨hr, id⟩)
  looked _ hk := Mark.during_own.mpr (.inr ⟨hk, id⟩)

/-- An action that issues no ticket, and its reply. -/
theorem Sheltered.observe {Q : β → KObs depth → Prop} (hP : Sheltered depth i P)
    (ho : P o) (calm : ¬ issues a) (guards : ∀ o₁, PinnedResources.Inv o₁ → P o₁ → guard o₁ a)
    (h : ∀ o₁ reply mem, PinnedResources.Inv o₁ → a.sem o₁.mem = some (reply, mem) →
      PinnedResources.Inv (o₁.acted i a reply mem) → P (o₁.acted i a reply mem) →
      Q reply (o₁.acted i a reply mem)) : Wp i (perform a) Q o := by
  refine wp_act hP.stable ho fun o₁ reply mem hP₁ acts => ?_
  obtain ⟨inv, guar⟩ := sound (guards o₁ acts.inv hP₁) acts
  exact ⟨inv, guar, h o₁ reply mem acts.inv acts.enabled inv
    (hP _ _ (later_acted calm acts.enabled guar) hP₁)⟩

end Acted

/-- Actions that neither issue a ticket nor register or take back a resource. -/
abbrev calm (β : Type) : KAct β → Prop
  | .calls (.alloc _) => False
  | .res (.insert _ _) | .res (.discard _ _) | .res (.rollbackRegister _)
  | .res (.claimRelease _) => False
  | _ => True

theorem calm_guard (h : calm β a) : ¬ issues a ∧ guard o a := by
  cases a with
  | calls a => cases a <;> first | exact h.elim | exact ⟨id, trivial⟩
  | res a => cases a <;> first | exact h.elim | exact ⟨id, fun _ => False.elim⟩
  | _ => exact ⟨id, trivial⟩

theorem Sheltered.look {Q : β → KObs depth → Prop}
    (hP : Sheltered depth i P) (ho : P o) (ha : calm β a)
    (h : ∀ o₁ reply mem, PinnedResources.Inv o₁ → a.sem o₁.mem = some (reply, mem) →
      PinnedResources.Inv (o₁.acted i a reply mem) → P (o₁.acted i a reply mem) →
      Q reply (o₁.acted i a reply mem)) : Wp i (perform a) Q o :=
  hP.observe ho (calm_guard ha (o := o)).1 (fun _ _ _ => (calm_guard ha).2) h

theorem Sheltered.composed {S : ∀ β : Type, KProg β → Prop} (hP : Sheltered depth i P)
    (hp : Composed calm S p)
    (subs : ∀ β q, S β q → ∀ o, P o → Wp i q (fun _ => P) o) (ho : P o) :
    Wp i p (fun _ => P) o := by
  refine wp_composed hp hP.stable (fun β a ha o₁ reply mem h₁ acts => ?_) subs ho
  obtain ⟨quiet, guards⟩ := calm_guard (o := o₁) ha
  obtain ⟨inv, guar⟩ := sound guards acts
  exact ⟨inv, guar, hP _ _ (later_acted quiet acts.enabled guar) h₁⟩

/-- The program respects the discipline. -/
abbrev Safe (depth i : Nat) {α : Type} (p : KProg α) : Prop :=
  ∀ o : KObs depth, Wp i p (fun _ _ => True) o

theorem calm_safe {S : ∀ β : Type, KProg β → Prop} (hp : Composed calm S p)
    (subs : ∀ β q, S β q → Safe depth i q) : Safe depth i p := fun _ =>
  (Sheltered.const True).composed hp (fun β q hq o _ => subs β q hq o) trivial

theorem calm_alone (hp : Composed calm (fun _ _ => False) p) :
    Safe depth i p := calm_safe hp fun _ _ => False.elim

instance : Included withdrawing calm where

/-! ### Resources and instances free of pins -/

/-- No ticket pins the resource, and none will while the thread's operation lasts. -/
structure Loose (i : Nat) (h : ResourceHandle) (o : KObs depth) : Prop where
  old : h < o.mem.resources.nextHandle
  minded : registering.During i h o.trace ∨ ∃ k, looking.During i k o.trace ∧
    ∀ r, o.mem.resources.records h = some r → r.ownerInstance = k
  free : ∀ k, ¬ Pins o.mem.calls k h

theorem Loose.minds (loose : Loose i h o)
    (found : o.mem.resources.records h = some r) : Minds i h o := by
  rcases loose.minded with mine | ⟨k, looked, owner⟩
  · exact .inl mine
  · exact .inr ⟨r, found, (owner r found).symm ▸ looked⟩

theorem loose_sheltered (h : ResourceHandle) : Sheltered depth i (Loose i h) := by
  intro o o' later loose
  refine ⟨Nat.lt_of_lt_of_le loose.old later.next, ?_, fun k pinned => ?_⟩
  · refine loose.minded.imp (later.registered h) ?_
    rintro ⟨k, looked, owner⟩
    refine ⟨k, later.looked k looked, fun r' found => ?_⟩
    obtain ⟨r, before, same, -⟩ := later.ages h loose.old r' found
    exact same.trans (owner r before)
  · rcases later.pins k h pinned with before | ⟨⟨r, found, -⟩, unminded⟩
    · exact loose.free k before
    · exact unminded (loose.minds found)

/-- The instance has no ticket that pins a resource, and will have none while the thread's
operation lasts. -/
structure Vacant (i : Nat) (k : InstanceId) (o : KObs depth) : Prop where
  looked : looking.During i k o.trace
  free : ∀ h, ¬ Pins o.mem.calls k h

theorem vacant_sheltered (k : InstanceId) : Sheltered depth i (Vacant i k) := by
  intro o o' later vacant
  refine ⟨later.looked k vacant.looked, fun h pinned => ?_⟩
  rcases later.pins k h pinned with before | ⟨⟨r, found, -, own⟩, unminded⟩
  · exact vacant.free h before
  · exact unminded (.inr ⟨r, found, own.symm ▸ vacant.looked⟩)

/-- What a vacant instance owns is loose. -/
theorem Vacant.loose {k : InstanceId} (vacant : Vacant i k o)
    (hinv : PinnedResources.Inv o) (found : o.mem.resources.records h = some r)
    (own : r.ownerInstance = k) : Loose i h o where
  old := (o.mem.resources.issued h r found).2
  minded := .inr ⟨k, vacant.looked, fun r' found' => by
    cases found.symm.trans found'
    exact own⟩
  free k' pinned := by
    obtain ⟨r', found', -, own'⟩ := hinv.pinned k' h pinned
    cases found.symm.trans found'
    exact vacant.free h (own.symm.trans own' ▸ pinned)

variable {P : KObs depth → Prop} {h : ResourceHandle} {k : InstanceId}

/-- A look at the tickets of an instance that has none leaves it vacant. -/
theorem vacant_of_none {a : TicketAct β} {b : β} (looks : looks (KAct.calls a) b k)
    (same : (a.run o.mem.calls).2 = o.mem.calls) (none : o.mem.calls.pendingFor k = []) :
    Vacant i k (o.acted i (KAct.calls a) b { o.mem with calls := (a.run o.mem.calls).2 }) := by
  refine ⟨Mark.during_own.mpr (.inl looks), fun h pinned => ?_⟩
  rw [Obs.acted_mem] at pinned
  dsimp only at pinned
  rw [same] at pinned
  obtain ⟨id, t, there, own, -⟩ := pinned
  have listed : t ∈ o.mem.calls.pendingFor k :=
    List.mem_filter.mpr ⟨(CallsTable.get_eq_some.mp there).1, by simpa using own⟩
  rw [none] at listed
  cases listed

theorem pendingCount_vacant (hP : Sheltered depth i P) (ho : P o) :
    Wp i (calls (.pendingCount k)) (fun live o =>
      P o ∧ (live = 0 → Vacant i k o)) o := by
  refine hP.look ho trivial fun o₁ live mem _ sem _ after => ⟨after, fun none => ?_⟩
  cases sem
  exact vacant_of_none rfl rfl (List.length_eq_zero_iff.mp none)

theorem beginRelease_loose (hP : Sheltered depth i P) (ho : P o) (loose : Loose i h o) :
    Wp i (beginRelease h) (fun _ => P) o := by
  have both := hP.and (loose_sheltered h)
  refine wp_seq (R := fun _ o => P o ∧ Loose i h o)
    (both.look ⟨ho, loose⟩ trivial fun _ _ _ _ _ _ after => after) fun verdict o₁ h₁ => ?_
  cases verdict with
  | error e => exact h₁.1
  | ok _ =>
    refine both.observe h₁ id (fun o₂ _ h₂ x taken => ?_) fun _ _ _ _ _ _ after => after.1
    exact (show h = x from taken) ▸ h₂.2.free

theorem releaseOwned_vacant (own : rec.context = k) (ho : Vacant i k o) :
    Wp i (releaseOwned rec h) (fun _ => Vacant i k) o := by
  refine wp_seq (R := fun rr o => Vacant i k o ∧
      ∀ r, rr = some r → r.ownerContext = k → Loose i h o)
    ((vacant_sheltered k).look ho trivial fun o₁ rr mem _ sem inv after => ⟨after, ?_⟩)
    fun rr o₁ h₁ => ?_
  · rintro r found mine
    cases sem
    exact after.loose inv found ((inv.owners h r found).trans mine)
  cases rr with
  | none => exact h₁.1
  | some rr =>
    dsimp only
    split_ifs with skip
    · exact h₁.1
    · rw [not_or, not_not, not_not] at skip
      refine wp_seq (beginRelease_loose (vacant_sheltered k) h₁.1
        (h₁.2 rr rfl (skip.2.trans own))) fun claim o₂ h₂ => ?_
      cases claim with
      | ok claim =>
        refine (vacant_sheltered k).composed ?_ (fun _ _ => False.elim) h₂
        exact .map (revokePublication_withdraws ..).relax
      | error e => cases e <;> exact h₂

theorem releaseHandles_vacant (own : rec.context = k) (hs : List ResourceHandle)
    (ho : Vacant i k o) :
    Wp i (releaseHandles rec hs) (fun _ => Vacant i k) o := by
  induction hs generalizing o with
  | nil => exact ho
  | cons h hs ih =>
    exact wp_seq (releaseOwned_vacant own ho) fun _ o₁ h₁ => wp_seq (ih h₁) fun _ o₂ h₂ => h₂

theorem releaseContextResources_vacant (own : rec.context = k) (ho : Vacant i k o) :
    Wp i (releaseContextResources rec) (fun _ => Vacant i k) o :=
  wp_seq ((vacant_sheltered k).look ho trivial fun _ _ _ _ _ _ after => after)
    fun handles _ => releaseHandles_vacant own handles.reverse

/-! ### Disposals -/

theorem get_known :
    Wp i (ctx (.get inst)) (fun rec _ =>
      ∀ r, rec = some r → r.context = inst) o := by
  refine (Sheltered.const True).look trivial trivial fun o₁ rec mem _ sem _ _ r same => ?_
  subst same
  simp only [KAct.sem, ContextAct.run, Option.some.injEq, Prod.mk.injEq] at sem
  exact (o₁.mem.contexts.issued inst r sem.1).2.1

theorem claim_known :
    Wp i (ctx (.claimDispose inst)) (fun claim _ =>
      ∀ rec, claim = .ok (.fresh rec) → rec.context = inst ∧ rec.instanceId = inst) o := by
  refine (Sheltered.const True).look trivial trivial fun o₁ claim mem _ sem _ _ rec same => ?_
  subst same
  simp only [KAct.sem, ContextAct.run, Option.some.injEq, Prod.mk.injEq] at sem
  rcases o₁.mem.contexts.claimDispose_cases inst with ⟨-, stale⟩ | ⟨rec', found, -, claim⟩
  · exact absurd sem.1 (stale rec)
  · rw [claim] at sem
    cases sem.1
    have issued := o₁.mem.contexts.issued inst rec' found
    exact ⟨issued.2.1, issued.1⟩

theorem refreshCleanupCause_calm :
    Composed calm (fun _ _ => False) (refreshCleanupCause inst) := by
  refine .next fun rec => ?_
  cases rec with
  | none => exact .pure _
  | some rec =>
    exact .ite (.pure _) (.ite (.next fun _ => .once) (.pure _))

section Dispose

variable {again : KProg Unit} (hagain : Safe depth i again)

include hagain

theorem again_safe (hp : Composed calm (Again again) p) : Safe depth i p := by
  refine calm_safe hp fun β q hq => ?_
  cases hq
  exact hagain

theorem maybeFinalize_safe : Safe depth i (maybeFinalize again inst) := by
  intro o
  refine wp_seq (get_known inst) fun rec o₁ known => ?_
  cases rec with
  | none => trivial
  | some rec =>
    dsimp only
    split_ifs
    · trivial
    refine wp_seq (pendingCount_vacant (k := inst) (Sheltered.const True) trivial)
      fun live o₂ h₂ => ?_
    split_ifs with busy
    · exact calm_alone (refreshCleanupCause_calm inst) o₂
    refine wp_seq ((vacant_sheltered inst).look (h₂.2 (Nat.eq_zero_of_not_pos busy)) trivial
      fun _ _ _ _ _ _ after => after) fun claimed o₃ h₃ => ?_
    split_ifs
    · refine wp_seq (releaseContextResources_vacant (known rec rfl) h₃) fun failures o₄ _ => ?_
      refine again_safe hagain ?_ o₄
      split_ifs
      · exact .next fun _ => .next fun _ =>
          .next fun _ => .next fun _ => .whole .again
      · exact .next fun _ => .once
    · trivial

theorem park_safe (rec : ContextRecord) : Safe depth i (park again rec) := by
  have outcome : ∀ inst reason, Safe depth i (parkOutcome inst reason) :=
    fun inst reason o => wp_parkOutcome (P := fun _ => True)
      (fun o _ => calm_alone (.perform (by exact trivial)) o) reason trivial
  have step : ∀ {β : Type} (a : KAct β) (o : KObs depth), calm β a →
      Wp i (perform a) (fun _ _ => True) o := fun a o ha =>
    calm_alone (.perform ha) o
  intro o
  refine wp_seq (step _ o trivial) fun _ o₁ _ => wp_seq (step _ o₁ trivial) fun _ o₂ _ => ?_
  refine wp_seq (step _ o₂ trivial) fun _ o₃ _ => wp_seq (step _ o₃ trivial) fun _ o₄ _ => ?_
  refine wp_seq (step _ o₄ trivial) fun live o₅ _ => ?_
  split_ifs
  · exact wp_seq (maybeFinalize_safe _ hagain o₅) fun _ o₆ _ => outcome _ _ o₆
  · exact outcome _ _ o₅

theorem disposeInstanceInner_safe : Safe depth i (disposeInstanceInner again inst) := by
  intro o
  refine wp_disposeInstanceInner (P := fun _ => True) (wp_mono (fun _ _ _ => trivial)
    (get_known inst)) (fun o _ => wp_mono (fun _ _ h => ⟨h, fun _ => trivial⟩)
    (claim_known inst)) ?_
  rintro rec o₂ ⟨own, same⟩
  refine wp_seq (calm_alone (quiesce_withdraws rec).relax o₂) fun _ o₃ _ => ?_
  refine wp_seq (pendingCount_vacant (k := inst) (Sheltered.const True) trivial)
    fun live o₄ h₄ => ?_
  split_ifs with busy
  · exact park_safe hagain rec o₄
  · refine wp_seq (releaseContextResources_vacant own (h₄.2 (Nat.eq_zero_of_not_pos busy)))
      fun failures o₅ _ => calm_alone ?_ o₅
    dsimp only
    split_ifs
    · exact .next fun _ => .next fun _ => .map .once
    · exact .next fun _ => .next fun _ => .map .once

end Dispose

/-! ### Acquisitions -/

theorem current_known (hP : Sheltered depth i P) (ho : P o) (logical : String) :
    Wp i (ctx (.current logical)) (fun cur o =>
      P o ∧ ∀ r, cur = some r → r.instanceId = r.context) o := by
  refine hP.look ho trivial fun o₁ cur mem _ sem _ after => ⟨after, fun r same => ?_⟩
  subst same
  simp only [KAct.sem, ContextAct.run, Option.some.injEq, Prod.mk.injEq] at sem
  obtain ⟨inst, -, found⟩ := Option.bind_eq_some_iff.mp sem.1
  have issued := o₁.mem.contexts.issued inst r found
  exact issued.1.trans issued.2.1.symm

/-- What the thread registers it has to itself. -/
theorem insert_loose (hP : Sheltered depth i P) (ho : P o) {owner : Owner}
    (own : owner.instanceId = owner.context) (kind : ResourceKind) :
    Wp i (res (.insert owner kind)) (fun h o => P o ∧ Loose i h o) o := by
  refine hP.observe ho id (fun _ _ _ => own) fun o₁ h mem hinv sem _ after => ⟨after, ?_⟩
  cases sem
  refine ⟨Nat.lt_succ_self _, .inl (Mark.during_own.mpr (.inl rfl)), fun k pinned => ?_⟩
  obtain ⟨r, found, -⟩ := hinv.pinned k _ pinned
  exact absurd (o₁.mem.resources.issued _ r found).2 (Nat.lt_irrefl _)

/-- A resource that is loose may be taken back. -/
theorem takeBack_loose (hP : Sheltered depth i P) (ho : P o) (loose : Loose i h o)
    {a : ResourceAct Unit}
    (plain : ∀ o : KObs depth, (∀ k, ¬ Pins o.mem.calls k h) → guard o (KAct.res a)) :
    Wp i (res a) (fun _ => P) o :=
  (hP.and (loose_sheltered h)).observe ⟨ho, loose⟩ id (fun o₁ _ h₁ => plain o₁ h₁.2.free)
    fun _ _ _ _ _ _ after => after.1

theorem register_loose (hP : Sheltered depth i P) (ho : P o) {owner : Owner}
    (own : owner.instanceId = owner.context) (kind : ResourceKind) :
    Wp i (register owner kind) (fun r o =>
      P o ∧ ∀ h, r = .ok h → Loose i h o) o := by
  have thread : ∀ h what (o : KObs depth), P o → Loose i h o →
      Wp i (startThread h owner what) (fun r o =>
        P o ∧ ∀ h, r = .ok h → Loose i h o) o := by
    intro h what o ho loose
    refine wp_seq (R := fun _ o => P o ∧ Loose i h o)
      ((hP.and (loose_sheltered h)).look ⟨ho, loose⟩ trivial fun _ _ _ _ _ _ after => after)
      fun started o₁ h₁ => ?_
    split_ifs
    · exact ⟨h₁.1, fun h' same => by cases same; exact h₁.2⟩
    · refine wp_seq (takeBack_loose hP h₁.1 h₁.2 fun o free x taken => ?_) fun _ o₂ h₂ =>
        ⟨h₂, fun h' same => by cases same⟩
      exact (show h = x from taken) ▸ free
  unfold register
  cases validateKind kind with
  | error e => exact ⟨ho, fun h same => by cases same⟩
  | ok _ =>
    refine wp_seq (insert_loose hP ho own kind) fun h o₁ h₁ => ?_
    have kept : Wp i (pure (.ok h) : KProg (Except AcquireError ResourceHandle))
        (fun r o => P o ∧ ∀ h, r = .ok h → Loose i h o) o₁ :=
      ⟨h₁.1, fun h' same => by cases same; exact h₁.2⟩
    cases kind with
    | timer label interval => exact thread h "timer" o₁ h₁.1 h₁.2
    | task label => exact thread h "task" o₁ h₁.1 h₁.2
    | _ => exact kept

/-- Everything listed is loose. -/
def AllLoose (i : Nat) (hs : List ResourceHandle) (o : KObs depth) : Prop :=
  ∀ h ∈ hs, Loose i h o

theorem allLoose_sheltered (hs : List ResourceHandle) :
    Sheltered depth i (AllLoose i hs) := Sheltered.all loose_sheltered

theorem rollbackAcquired_safe {hs : List ResourceHandle}
    (ho : AllLoose i hs o) :
    Wp i (rollbackAcquired inst hs) (fun _ _ => True) o := by
  have loop : ∀ (xs : List ResourceHandle) (o : KObs depth), AllLoose i xs o →
      Wp i (rollbackAcquired inst xs.reverse) (fun _ _ => True) o := by
    intro xs
    simp only [rollbackAcquired, List.reverse_reverse]
    induction xs with
    | nil => exact fun _ _ => trivial
    | cons x xs ih =>
      intro o ho
      have rest : Sheltered depth i (AllLoose i xs) := allLoose_sheltered xs
      have tail : AllLoose i xs o := fun y hy => ho y (List.mem_cons_of_mem _ hy)
      refine wp_seq (R := fun _ => AllLoose i xs) (wp_seq (beginRelease_loose rest tail
        (ho x (List.mem_cons_self ..))) fun claim o₁ h₁ => ?_) fun _ => ih
      cases claim with
      | ok claim =>
        exact rest.composed (revokePublication_withdraws ..).relax
          (fun _ _ => False.elim) h₁
      | error e => exact h₁
  have rolls := loop hs.reverse o fun x hx => ho x (List.mem_reverse.mp hx)
  rwa [List.reverse_reverse] at rolls

theorem acquireItems_loose {cur : ContextRecord} (own : cur.instanceId = cur.context)
    (manifest : StoredManifest) {kind : String → ResourceKind} {publish : String → KProg Unit}
    (published : ∀ item, Composed calm (fun _ _ => False) (publish item)) (items : List String)
    {hs : List ResourceHandle} (ho : AllLoose i hs o) :
    Wp i (acquireItems cur manifest kind publish items hs) (fun r o =>
      ∀ acquired, r = .ok acquired → AllLoose i acquired o) o := by
  induction items generalizing hs o with
  | nil =>
    intro acquired same
    cases same
    exact ho
  | cons item items ih =>
    refine wp_seq (register_loose (allLoose_sheltered hs) ho own _) fun r o₁ h₁ => ?_
    cases r with
    | error e =>
      exact wp_seq (rollbackAcquired_safe _ h₁.1) fun _ _ _ _ same => by cases same
    | ok h =>
      have more : AllLoose i (hs ++ [h]) o₁ := by
        intro x hx
        rcases List.mem_append.mp hx with old | new
        · exact h₁.1 x old
        · rw [List.mem_singleton.mp new]
          exact h₁.2 h rfl
      exact wp_seq ((allLoose_sheltered _).composed (published item) (fun _ _ => False.elim) more)
        fun _ o₂ h₂ => ih h₂

theorem acquireDefinitionResources_loose {cur : ContextRecord}
    (own : cur.instanceId = cur.context) (manifest : StoredManifest) :
    Wp i (acquireDefinitionResources cur manifest) (fun r o =>
      ∀ acquired, r = .ok acquired → AllLoose i acquired o) o := by
  refine wp_seq (acquireItems_loose own manifest (fun _ => by exact .once) manifest.caps
    fun _ hx => absurd hx List.not_mem_nil) fun caps o₁ h₁ => ?_
  cases caps with
  | error e => exact fun _ same => by cases same
  | ok acquired =>
    exact acquireItems_loose own manifest (fun _ => by exact .once) manifest.subs
      (h₁ acquired rfl)

/-! ### The reconciler -/

instance : Included steering calm where

theorem promoteWaiting_safe : Safe depth i (promoteWaiting logical manifest) := by
  intro o
  refine wp_seq (current_known (Sheltered.const True) trivial logical) fun cur o₁ known => ?_
  cases cur with
  | none => trivial
  | some cur =>
    dsimp only
    split_ifs
    · trivial
    refine wp_seq (calm_alone (currentAllMerged_surveys.mono (fun β a ha => ?_)
      fun _ _ => False.elim) o₁) fun fresh o₂ _ => ?_
    · cases a with
      | calls | res => exact ha.elim
      | _ => exact trivial
    refine wp_seq (calm_alone (p := comp .definitions) (.once) o₂) fun defs o₃ _ => ?_
    have ensures : ∀ reason, Safe depth i
        (ensureWaiting logical defs reason >>= fun _ => pure false) := fun reason =>
      calm_alone (.map (ensureWaiting_steers ..).relax)
    cases resolveFor logical defs fresh with
    | error e => exact ensures _ o₃
    | ok bindings =>
      refine wp_seq (acquireDefinitionResources_loose (known.2 cur rfl) manifest) fun r o₄ h₄ => ?_
      cases r with
      | error e => exact ensures _ o₄
      | ok acquired =>
        refine wp_seq (R := fun _ => AllLoose i acquired) ((allLoose_sheltered acquired).look
          (h₄ acquired rfl) trivial fun _ _ _ _ _ _ after => after) fun committed o₅ h₅ => ?_
        split_ifs
        · refine calm_alone ?_ o₅
          exact .next fun active => .ite
            (.map (announceActive_steers ..).relax) (.pure _)
        · exact wp_seq (rollbackAcquired_safe _ h₅) fun _ _ _ => trivial

theorem create_known :
    Wp i (ctx (.create logical .active none)) (fun cur _ =>
      cur.instanceId = cur.context) o := by
  refine (Sheltered.const True).look trivial trivial fun o₁ cur mem _ sem _ _ => ?_
  cases sem
  exact o₁.mem.contexts.paired.symm

section Reconcile

variable {again : KProg Unit} (hagain : Safe depth i again)

include hagain

theorem createActive_safe (bindings : List DependencyGraph.Binding)
    (json : JsonValue.Json) : Safe depth i (createActive again manifest bindings json) := by
  intro o
  refine wp_seq (create_known manifest.id) fun cur o₁ own => ?_
  refine wp_seq (acquireDefinitionResources_loose own manifest) fun r o₂ _ => ?_
  cases r with
  | ok acquired =>
    refine calm_alone ?_ o₂
    exact .next fun _ =>
      .map (announceActive_steers ..).relax
  | error e =>
    refine wp_seq (disposeInstanceInner_safe cur.instanceId hagain o₂) fun _ o₃ _ => ?_
    refine calm_alone ?_ o₃
    exact .next fun defs =>
      .map (ensureWaiting_steers ..).relax

theorem steers_safe (hp : Steers again p) : Safe depth i p := by
  refine calm_safe (hp.widen fun _ _ => .whole) fun β q hq => ?_
  cases hq with
  | promote logical manifest => exact promoteWaiting_safe logical manifest
  | launch manifest bindings json => exact createActive_safe manifest hagain bindings json
  | dispose inst => exact disposeInstanceInner_safe inst hagain
  | again => exact hagain

end Reconcile

theorem reconcile_safe (n : Nat) : Safe depth i (reconcile n) := by
  induction n with
  | zero => exact fun _ => trivial
  | succ n ih => exact steers_safe ih (reconcile_succ_steers n)

/-! ### Single resources -/

theorem publishKind_calm :
    Composed calm (fun _ _ => False) (publishKind cur kind) := by
  cases kind with
  | cap name => exact .once
  | sub topic => exact .once
  | _ => exact .pure _

/-- An acquisition takes back its own resource only. -/
theorem rollback_safe (hp : Composed calm (fun _ _ => False) p) (loose : Loose i h o) :
    Wp i (res (.rollbackRegister h) >>= fun _ => p) (fun _ _ => True) o := by
  refine wp_seq (takeBack_loose (Sheltered.const True) trivial loose fun o free x taken => ?_)
    fun _ o₁ _ => calm_alone hp o₁
  exact (show h = x from taken) ▸ free

theorem publishAcquired_safe
    (loose : Loose i h o) :
    Wp i (publishAcquired logical cur kind h) (fun _ _ => True) o := by
  have mine : Sheltered depth i (Loose i h) := loose_sheltered h
  refine wp_seq (mine.composed (publishKind_calm cur kind) (fun _ _ => False.elim) loose)
    fun _ o₁ h₁ => ?_
  refine wp_seq (R := fun _ => Loose i h)
    (mine.look h₁ trivial fun _ _ _ _ _ _ after => after) fun _ o₂ h₂ => ?_
  refine wp_seq (current_known mine h₂ logical) fun now o₃ h₃ => ?_
  cases acquireRace cur now with
  | none =>
    refine calm_alone ?_ o₃
    exact .map .once
  | some err =>
    refine wp_seq (mine.composed (revokePublication_withdraws ..).relax
      (fun _ _ => False.elim) h₃.1) fun _ o₄ h₄ => ?_
    exact rollback_safe (.next fun _ => .next fun _ =>
      .pure _) h₄

theorem publishExternal_safe
    (loose : Loose i h o) :
    Wp i (publishExternal logical cur kind h) (fun _ _ => True) o := by
  have mine : Sheltered depth i (Loose i h) := loose_sheltered h
  refine wp_seq (R := fun _ => Loose i h)
    (mine.look loose trivial fun _ _ _ _ _ _ after => after) fun live o₁ h₁ => ?_
  split_ifs
  · exact rollback_safe (.pure _) h₁
  refine wp_seq (mine.composed (publishKind_calm cur kind) (fun _ _ => False.elim) h₁)
    fun _ o₂ h₂ => ?_
  refine wp_seq (current_known mine h₂ logical) fun now o₃ h₃ => ?_
  split_ifs
  · refine calm_alone ?_ o₃
    exact .next fun _ => .map .once
  · refine wp_seq (mine.composed (revokePublication_withdraws ..).relax
      (fun _ _ => False.elim) h₃.1) fun _ o₄ h₄ => ?_
    exact rollback_safe (.map .once) h₄

theorem acquire_safe : Safe depth i (acquire logical kind) := by
  intro o
  refine wp_seq (current_known (Sheltered.const True) trivial logical) fun cur o₁ known => ?_
  cases cur with
  | none => trivial
  | some cur =>
    refine wp_seq (calm_alone (p := ctx (.requireActive cur.instanceId)) (.once) o₁)
      fun verdict o₂ _ => ?_
    cases verdict with
    | error e => trivial
    | ok _ =>
      refine wp_seq (register_loose (Sheltered.const True) trivial (known.2 cur rfl) kind)
        fun r o₃ h₃ => ?_
      cases r with
      | error e => trivial
      | ok handle => exact publishAcquired_safe logical cur kind (h₃.2 handle rfl)

theorem acquireExternal_safe
    (generation : Nat) : Safe depth i (acquireExternal logical kind inst generation) := by
  intro o
  refine wp_seq (current_known (Sheltered.const True) trivial logical) fun cur o₁ known => ?_
  cases cur with
  | none => trivial
  | some cur =>
    dsimp only
    split_ifs
    · trivial
    refine wp_seq (calm_alone (p := ctx (.requireActive cur.instanceId)) (.once) o₁)
      fun verdict o₂ _ => ?_
    cases verdict with
    | error e => trivial
    | ok _ =>
      refine wp_seq (register_loose (Sheltered.const True) trivial (known.2 cur rfl) kind)
        fun r o₃ h₃ => ?_
      cases r with
      | error e => trivial
      | ok handle => exact publishExternal_safe logical cur kind (h₃.2 handle rfl)

/-- A record of this owner, if there is one. -/
def Owned (k : InstanceId) (h : ResourceHandle) (o : KObs depth) : Prop :=
  h < o.mem.resources.nextHandle ∧ ∀ r, o.mem.resources.records h = some r → r.ownerInstance = k

theorem owned_sheltered (k : InstanceId) (h : ResourceHandle) : Sheltered depth i (Owned k h) := by
  rintro o o' later ⟨old, owner⟩
  refine ⟨Nat.lt_of_lt_of_le old later.next, fun r' found => ?_⟩
  obtain ⟨r, before, same, -⟩ := later.ages h old r' found
  exact same.trans (owner r before)

/-- Not active, and never again. -/
def Spent (h : ResourceHandle) (o : KObs depth) : Prop :=
  h < o.mem.resources.nextHandle ∧ ∀ r, o.mem.resources.records h = some r → r.state ≠ .active

theorem spent_sheltered (h : ResourceHandle) : Sheltered depth i (Spent h) := by
  rintro o o' later ⟨old, spent⟩
  refine ⟨Nat.lt_of_lt_of_le old later.next, fun r' found active => ?_⟩
  obtain ⟨r, before, -, stays⟩ := later.ages h old r' found
  exact spent r before (stays active)

theorem beginRelease_spent (ho : Spent h o) : Wp i (beginRelease h) (fun _ _ => True) o := by
  refine wp_seq (R := fun _ => Spent h)
    ((spent_sheltered h).look ho trivial fun _ _ _ _ _ _ after => after) fun verdict o₁ h₁ => ?_
  cases verdict with
  | error e => trivial
  | ok _ =>
    refine (spent_sheltered h).observe h₁ id (fun o₂ hinv h₂ x taken k pinned => ?_)
      fun _ _ _ _ _ _ _ => trivial
    obtain ⟨r, found, active, -⟩ := hinv.pinned k x pinned
    exact h₂.2 r ((show h = x from taken) ▸ found) active

theorem releaseClaimed_safe (rec : ResourceRecord)
    (begins : Wp i (beginRelease h) (fun _ _ => True) o) :
    Wp i (releaseClaimed rec h) (fun _ _ => True) o := by
  refine wp_seq begins fun claim o₁ _ => ?_
  cases claim with
  | error e => trivial
  | ok claim =>
    refine calm_alone ?_ o₁
    exact .bind (revokePublication_withdraws ..).relax fun _ =>
      .map .once

/-- A look at the tickets of the owner that finds none with the resource leaves it loose. -/
theorem pendingFor_loose (ho : Owned k h o) :
    Wp i (calls (.pendingFor k)) (fun pending o =>
      (pending.any fun t => decide (h ∈ t.pins)) = false → Loose i h o) o := by
  refine (owned_sheltered k h).look ho trivial fun o₁ pending mem hinv sem _ after unpinned => ?_
  cases sem
  refine ⟨after.1, .inr ⟨k, Mark.during_own.mpr (.inl rfl), after.2⟩, fun k' pinned => ?_⟩
  obtain ⟨r, found, -, own⟩ := hinv.pinned k' h pinned
  obtain ⟨id, t, there, same, mine⟩ := pinned
  have listed : t ∈ o₁.mem.calls.pendingFor k := by
    refine List.mem_filter.mpr ⟨(CallsTable.get_eq_some.mp there).1, ?_⟩
    simpa using same.trans (own.symm.trans (after.2 r found))
  have := List.any_eq_false.mp unpinned t listed
  simp [mine] at this

theorem releaseHandle_safe (handle : ResourceHandle) : Safe depth i (releaseHandle handle) := by
  intro o
  refine wp_seq (R := fun rec o => ∀ r, rec = some r → Owned r.ownerInstance handle o ∧
      (r.state ≠ .active → Spent handle o))
    ((Sheltered.const True).look trivial trivial fun o₁ rec mem _ sem _ _ r same => ?_)
    fun rec o₁ known => ?_
  · subst same
    simp only [KAct.sem, ResourceAct.run, Option.some.injEq, Prod.mk.injEq] at sem
    obtain ⟨found, rfl⟩ := sem
    have old := (o₁.mem.resources.issued handle r found).2
    refine ⟨⟨old, fun r' found' => ?_⟩, fun idle => ⟨old, fun r' found' => ?_⟩⟩
    · cases found.symm.trans found'
      rfl
    · cases found.symm.trans found'
      exact idle
  cases rec with
  | none => trivial
  | some rec =>
    obtain ⟨owned, spent⟩ := known rec rfl
    dsimp only
    split_ifs with active
    · refine wp_seq (pendingFor_loose owned) fun pending o₂ loose => ?_
      split_ifs with pinned
      · trivial
      · exact releaseClaimed_safe rec (beginRelease_loose (Sheltered.const True) trivial
          (loose (by simpa using pinned)))
    · exact releaseClaimed_safe rec (beginRelease_spent (spent active))

theorem forEach_safe {ι : Type} {body : ι → KProg Unit} (h : ∀ x, Safe depth i (body x))
    (xs : List ι) : Safe depth i (forEach xs body) := by
  induction xs with
  | nil => exact fun _ => trivial
  | cons x xs ih => exact fun o => wp_seq (h x o) fun _ o₁ _ => ih o₁

theorem acquireBatch_safe (kinds : List ResourceKind) :
    ∀ out, Safe depth i (acquireBatch logical kinds out) := by
  induction kinds with
  | nil => exact fun _ _ => trivial
  | cons kind kinds ih =>
    intro out o
    refine wp_seq (acquire_safe logical kind o) fun r o₁ _ => ?_
    cases r with
    | ok h => exact ih _ o₁
    | error e =>
      refine wp_seq (forEach_safe (fun h o => ?_) out.reverse o₁) fun _ _ _ => trivial
      exact wp_seq (releaseHandle_safe h o) fun _ _ _ => trivial

theorem fault_calm (fiber mode : String) : Composed calm (fun _ _ => False) (fault fiber mode) :=
  fault_composed trivial (fun _ => trivial) trivial (fun _ _ => trivial) trivial trivial

/-! ### Opening a call -/

/-- The thread is in the operation and has vetted these of the resources it pins. -/
structure Vetted (i : Nat) (op : Op) (k : InstanceId) (hs : List ResourceHandle)
    (o : KObs depth) : Prop where
  call : inCall i o.trace = some op
  pins : ∀ h ∈ hs, h ∈ pinsOf op
  vets : ∀ h ∈ hs, vetting.During i h o.trace ∧ Held o.mem.resources k h

variable {op : Op} {hs : List ResourceHandle}

theorem vetted_nil (call : inCall i o.trace = some op) : Vetted i op k [] o :=
  ⟨call, fun _ hh => absurd hh List.not_mem_nil, fun _ hh => absurd hh List.not_mem_nil⟩

theorem Vetted.stable : (discipline depth).Stable i (Vetted i op k hs) := by
  refine .intro ?_ ?_
  · intro o o' j label _ _ other own logged guar vetted
    have foreign : label.thread ≠ some i := by
      rw [own]
      simpa using other
    have guar : Guar j o o' := guar
    refine ⟨?_, vetted.pins, fun h hh => ?_⟩
    · rw [logged, inCall_foreign foreign]
      exact vetted.call
    · obtain ⟨seen, held⟩ := vetted.vets h hh
      refine ⟨?_, (guar.kept k h held).resolve_right fun unvetted => ?_⟩
      · rw [logged]
        exact (Mark.during_foreign foreign).mpr seen
      · exact unvetted i (Ne.symm other) ⟨seen, op, vetted.call, vetted.pins h hh⟩
  · intro o event _ vetted
    have same : (o.passed event).mem.resources = o.mem.resources := by cases event <;> rfl
    refine ⟨vetted.call, vetted.pins, fun h hh => ?_⟩
    rw [same]
    exact ⟨(Mark.during_foreign (by simp [Label.thread])).mpr (vetted.vets h hh).1,
      (vetted.vets h hh).2⟩

theorem held_calm {b : β} {mem : KState} (ha : calm β a)
    (sem : a.sem o.mem = some (b, mem)) (held : Held o.mem.resources k h) :
    Held mem.resources k h := by
  cases a with
  | res a =>
    cases sem
    obtain ⟨r, found, state⟩ := held
    refine ⟨r, records_kept a found fun taken => ?_, state⟩
    cases a <;> first | exact ha.elim | exact taken.elim
  | ctx | calls | pub | comp =>
    cases sem
    exact held
  | _ => exact (KAct.sem_sameTables sem rfl).resources ▸ held

theorem Vetted.keeps (ha : calm β a) : (discipline depth).Keeps i (Vetted i op k hs) a :=
  (guarded depth).keeps (fun _ _ _ => (calm_guard ha).2) fun o₁ _ _ h₁ acts =>
    ⟨h₁.call, h₁.pins, fun h hh => ⟨Mark.during_own.mpr (.inr ⟨(h₁.vets h hh).1,
      (calm_guard ha (o := o₁)).1⟩), held_calm ha acts.enabled (h₁.vets h hh).2⟩⟩

theorem Vetted.composed (hp : Composed calm (fun _ _ => False) p) (ho : Vetted i op k hs o) :
    Wp i p (fun _ => Vetted i op k hs) o :=
  wp_composed hp Vetted.stable (fun _ _ => Vetted.keeps) (fun _ _ => False.elim) ho

theorem invalidPin_vets (generation : Nat) (rest : List ResourceHandle)
    (pinned : ∀ h ∈ rest, h ∈ pinsOf op) (ho : Vetted i op k hs o) :
    Wp i (KernelCalls.invalidPin k generation rest) (fun bad o =>
      bad = none → Vetted i op k (hs ++ rest) o) o := by
  induction rest generalizing hs o with
  | nil =>
    intro _
    rw [List.append_nil]
    exact ho
  | cons h rest ih =>
    have mine := pinned h (List.mem_cons_self ..)
    have look : Wp i (res (.record h)) (fun rec o => Vetted i op k hs o ∧
        ∀ r, rec = some r → r.state = .active → r.ownerInstance = k →
          Vetted i op k (hs ++ [h]) o) o := by
      refine (guarded depth).perform Vetted.stable ho (fun _ _ _ _ => False.elim)
        fun o₁ rec mem h₁ acts => ?_
      have before := (Vetted.keeps (a := KAct.res (.record h)) trivial o₁ rec mem h₁ acts).2.2
      refine ⟨before, fun r same active own => ⟨before.call, fun x hx => ?_, fun x hx => ?_⟩⟩
      · rcases List.mem_append.mp hx with old | new
        · exact before.pins x old
        · exact List.mem_singleton.mp new ▸ mine
      · rcases List.mem_append.mp hx with old | new
        · exact before.vets x old
        · subst same
          have enabled : (KAct.res (.record h)).sem o₁.mem = some (some r, mem) := acts.enabled
          simp only [KAct.sem, ResourceAct.run, Option.some.injEq, Prod.mk.injEq] at enabled
          obtain ⟨found, rfl⟩ := enabled
          rw [List.mem_singleton.mp new]
          exact ⟨Mark.during_own.mpr (.inl ⟨rfl, active⟩), r, found, active, own⟩
    refine wp_seq (R := fun valid o => valid = true → Vetted i op k (hs ++ [h]) o)
      (wp_seq look fun rec o₁ h₁ valid => ?_) fun valid o₁ h₁ => ?_
    · cases rec with
      | none => cases valid
      | some r =>
        have fits : r.state = .active ∧ r.ownerInstance = k ∧ r.generation = generation :=
          of_decide_eq_true valid
        exact h₁.2 r rfl fits.1 fits.2.1
    · cases valid with
      | false => exact fun none => by cases none
      | true =>
        have more := ih (fun x hx => pinned x (List.mem_cons_of_mem _ hx)) (h₁ rfl)
        rw [List.append_assoc] at more
        exact more

section Operations

variable {again : KProg Unit} (hagain : Safe depth i again)

include hagain

/-- Calls that pin nothing, and what follows the issue of a ticket. -/
theorem calls_safe (hp : Calls again [] p) : Safe depth i p := by
  intro o
  refine wp_composed hp (Stable.const True) (fun β a ha => ?_) (fun β q hq o _ => ?_) trivial
  · refine (guarded depth).keeps (fun o _ _ => ?_) fun _ _ _ _ _ => trivial
    cases a with
    | calls a =>
      cases a with
      | alloc admission =>
        intro h hh
        rw [ha.elim id id] at hh
        cases hh
      | _ => exact trivial
    | res a => cases a <;> first | exact ha.elim | exact fun _ => False.elim
    | _ => exact trivial
  · cases hq with
    | finalize inst => exact maybeFinalize_safe inst hagain o
    | fault fiber mode => exact calm_alone (fault_calm fiber mode) o

theorem openTicket_safe (cap logical : String) (rec : ContextRecord)
    (policy : KernelTickets.CallPolicy)
    (durable : Bool) (ho : Vetted i op rec.instanceId hs o) :
    Wp i (KernelCalls.openTicket again cap logical rec policy hs durable)
      (fun _ _ => True) o := by
  refine wp_seq (R := fun _ _ => True) ((guarded depth).perform Vetted.stable ho
    (fun _ _ h₁ x hx => (h₁.vets x hx).2) fun _ _ _ _ _ => trivial) fun ticket o₁ _ => ?_
  exact calls_safe hagain (.bind (journalDurable_calls ..) fun _ => confirmOpened_calls ..) o₁

instance : Included CallFrame.inspecting calm where

theorem callOpen_safe (cap : String) (policy : Option KernelTickets.CallPolicy)
    (pins : List ResourceHandle) (call : inCall i o.trace = some (.callOpen cap policy pins)) :
    Wp i (KernelCalls.callOpen again cap policy pins) (fun _ _ => True) o := by
  have inspects : ∀ {α : Type} {p : KProg α}, CallFrame.Inspects p →
      Composed calm (fun _ _ => False) p := by
    exact fun hp => hp.relax
  refine wp_seq ((vetted_nil (k := 0) call).composed (p := calls .inflightCount)
    (.once)) fun inflight o₁ h₁ => ?_
  split_ifs
  · trivial
  refine wp_seq (h₁.composed (inspects (CallFrame.admissionRecord_inspects cap)))
    fun admitted o₂ h₂ => ?_
  cases admitted with
  | error e => trivial
  | ok found =>
    obtain ⟨logical, rec⟩ := found
    refine wp_seq (invalidPin_vets rec.generation pins (fun _ => id)
      (vetted_nil (k := rec.instanceId) h₂.call)) fun bad o₃ h₃ => ?_
    cases bad with
    | some h => trivial
    | none =>
      have vetted : Vetted i (.callOpen cap policy pins) rec.instanceId pins o₃ := h₃ rfl
      cases policy with
      | some policy => exact openTicket_safe hagain cap logical rec policy true vetted
      | none =>
        exact wp_seq (vetted.composed (inspects (CallFrame.policyFor_inspects ..)))
          fun policy o₄ h₄ => openTicket_safe hagain cap logical rec policy true h₄

end Operations

theorem operation_safe (op : Op) (call : inCall i o.trace = some op) :
    Wp i ((kernel depth).code op) (fun _ _ => True) o := by
  have hagain : Safe depth i (reconcile depth) := reconcile_safe depth
  by_cases recomposing : recomposes op = true
  · exact steers_safe hagain (recomposes_steers recomposing) o
  by_cases opens : pinsOf op = [] ∧ calling op = true
  · exact calls_safe hagain (opens.1 ▸ calling_calls opens.2) o
  cases op with
  | callOpen cap policy pins =>
    exact wp_seq (callOpen_safe hagain cap policy pins call) fun _ _ _ => trivial
  | acquire logical kind => exact wp_seq (acquire_safe logical kind o) fun _ _ _ => trivial
  | acquireExternal logical kind inst generation =>
    exact wp_seq (acquireExternal_safe logical kind inst generation o) fun _ _ _ => trivial
  | acquireBatch logical kinds =>
    exact wp_seq (acquireBatch_safe logical kinds [] o) fun _ _ _ => trivial
  | release handle => exact wp_seq (releaseHandle_safe handle o) fun _ _ _ => trivial
  | _ => first | exact absurd rfl recomposing | exact absurd ⟨rfl, rfl⟩ opens

/-! ### Runs -/

theorem logged_guar : Guar i o (o.log label) :=
  ⟨le_rfl, fun _ _ r found => ⟨r, found, rfl, id⟩, fun _ _ => .inl, fun _ _ => .inl⟩

theorem verified : (discipline depth).Verified fun _ _ _ _ => True where
  stable _ _ _ := Stable.const True
  start i op o hinv _ _ := ⟨⟨hinv.pinned, hinv.owners⟩, logged_guar, operation_safe op (if_pos rfl)⟩
  done i op res o hinv _ _ _ := ⟨⟨hinv.pinned, hinv.owners⟩, logged_guar⟩
  env event o hinv _ := by cases event <;> exact ⟨hinv.pinned, hinv.owners⟩

/-- Every resource belongs to the instance of its context, and those that tickets pin are active
and belong to the instance that is called. -/
structure Sound (s : KState) : Prop where
  pinned : ∀ id t h, s.calls.get id = some t → h ∈ t.pins → ∃ r, s.resources.records h = some r ∧
    r.state = .active ∧ r.ownerInstance = t.instanceId
  owners : ∀ h r, s.resources.records h = some r → r.ownerInstance = r.ownerContext

theorem sound_boot (epoch : Nat) : Sound (KState.boot epoch) where
  pinned _ _ _ found := by cases found
  owners _ _ found := by cases found

/-- A ticket in the table pins active resources. -/
theorem pinned_active {m₀ : KState} (sound : Sound m₀) {c : Config (kernel depth)}
    (run : Run unraced (.boot m₀) c) {id : TicketId} {t : TicketRecord} {h : ResourceHandle}
    (there : c.mem.calls.get id = some t) (pinned : h ∈ t.pins) :
    ∃ r, c.mem.resources.records h = some r ∧ r.state = .active := by
  have boot : PinnedResources.Inv (⟨m₀, []⟩ : Obs (kernel depth)) := by
    refine ⟨?_, sound.owners⟩
    rintro k x ⟨id, t, found, rfl, mine⟩
    exact sound.pinned id t x found mine
  have hinv : PinnedResources.Inv c.toObs := (verified.run (D := discipline depth) boot run).inv
  obtain ⟨r, found, active, -⟩ := hinv.pinned _ h ⟨id, t, there, rfl, pinned⟩
  exact ⟨r, found, active⟩

/-- A check for schedules of one thread. -/
def solitary (o : KObs depth) (label : KLabel depth) : Bool :=
  o.solo 0 && decide (label.thread = some 0)

theorem unraced_of_solitary (h : solitary o label = true) : unraced o label := by
  rw [solitary, Bool.and_eq_true, decide_eq_true_eq] at h
  obtain ⟨solo, own⟩ := h
  have absent : ∀ {K : Type} (m : Mark KAct K) x j, j ≠ 0 → ¬ m.During j x o.trace :=
    fun m x j other => Mark.not_during_of_absent (Obs.solo_absent solo other)
  cases label with
  | act i a reply =>
    cases own
    cases a with
    | calls a =>
      cases a with
      | alloc admission =>
        rintro x _ j other (mine | ⟨r, _, looked⟩)
        · exact absent registering x j other mine
        · exact absent looking _ j other looked
      | _ => exact trivial
    | res a => exact fun x _ j other vets => absent vetting x j other vets.1
    | _ => exact trivial
  | _ => exact trivial

/-- A release of a resource that a call pins is refused. -/
theorem pinned_release_refused : ∃ c : Config (kernel 1), Sound (KState.boot 1) ∧
    Run unraced (.boot (KState.boot 1)) c ∧ c.Quiescent ∧
      (c.mem.calls.get 1).map (·.pins) = some [1] ∧
      ∃ r, c.mem.resources.records 1 = some r ∧ r.state = .active := by
  obtain ⟨c, run, quiet, pinned⟩ := Config.plays (KState.boot 1) solitary
    (P := fun c : Config (kernel 1) => (c.mem.calls.get 1).map (·.pins) = some [1])
    (fun _ _ => unraced_of_solitary) 200 1 [.start 0 (.loadManifest provider), .finish 0,
      .start 0 (.callOpen "x" none [1]), .finish 0, .start 0 (.release 1), .finish 0]
    (by decide +kernel)
  obtain ⟨t, there, pins⟩ := Option.map_eq_some_iff.mp pinned
  exact ⟨c, sound_boot 1, run, quiet, pinned,
    pinned_active (sound_boot 1) run there (pins ▸ List.mem_singleton.mpr rfl)⟩

/-- A release looks at the tickets and finds none, a call opens with the resource pinned, and
the release goes on. -/
theorem late_release_of_pinned : ∃ c : Config (kernel 1),
    Run (fun _ _ => True) (.boot (KState.boot 1)) c ∧ c.Quiescent ∧
      (c.mem.calls.get 1).map (·.pins) = some [1] ∧
      (c.mem.resources.records 1).map (·.state) = some .released :=
  Config.plays_freely 200 2 [.start 0 (.loadManifest provider), .finish 0, .start 1 (.release 1),
    .steps 1 2, .start 0 (.callOpen "x" none [1]), .finish 0, .finish 1] (by decide +kernel)

end MatrixRuntime.PinnedOperations
