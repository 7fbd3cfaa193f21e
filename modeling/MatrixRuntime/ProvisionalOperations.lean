import MatrixRuntime.ProvisionalAcquisitions

/-! The operations that acquire resources for an active instance, and what every operation
leaves: nothing to answer for, and after a refused acquisition no registration. -/

namespace MatrixRuntime.ProvisionalOperations

open KernelContexts KernelTickets KernelResources KernelState KernelActions KernelReconcile
open KernelOperations InterleavedProgram InterleavedMachine TraceMarks ContextFrame
open OwnedPublications ReconcileFrame RelyGuarantee.Discipline ProvisionalResources
open ProvisionalDisposals ProvisionalAcquisitions

variable {depth : Nat} {i : Nat} {op : Op} {o : KObs depth} {k : InstanceId}
  {hs : List (ResourceHandle × ResourceKind)} {ks : List ResourceKind} {kind : ResourceKind}
  {cur : ContextRecord} {owner : Owner}

/-! ### Acquiring for an active instance -/

/-- The action registers this handle. -/
def enters {β : Type} : KAct β → β → ResourceHandle → Prop
  | .res (.insert _ _), h, h' => h = h'
  | _, _, _ => False

/-- The thread's operation has registered the handle. -/
def registering : Mark KAct ResourceHandle := .ever enters

/-- The resource is not active, and never will be. -/
def Spent (h : ResourceHandle) (o : KObs depth) : Prop :=
  h < o.mem.resources.nextHandle ∧
    ∀ r, o.mem.resources.records h = some r → r.state ≠ .active

theorem spent_lasting (h : ResourceHandle) : (discipline depth).Lasting (Spent h) where
  guar j o o' := by
    intro (guar : Guar j o o') ⟨old, spent⟩
    refine ⟨Nat.lt_of_lt_of_le old guar.records.next, fun r found active => ?_⟩
    obtain ⟨r₀, found₀, -, -, stays⟩ := guar.records.ages h old r found
    exact spent r₀ found₀ (stays active)
  env o event h := by cases event <;> exact h

/-- What the operation has registered is spent, but for these handles. -/
def Clean (i : Nat) (S : ResourceHandle → Prop) (o : KObs depth) : Prop :=
  ∀ h, registering.During i h o.trace → S h ∨ Spent h o

variable {S : ResourceHandle → Prop}

theorem clean_stable : (discipline depth).Stable i (Clean i S) := by
  refine Stable.intro ?_ ?_
  · intro o o' j label _ _ other own logged guar clean h registered
    rw [logged, Mark.during_foreign (by rw [own]; simpa using other)] at registered
    exact (clean h registered).imp_right ((spent_lasting h).guar j o o' guar)
  · intro o event _ clean h registered
    rw [Obs.passed_trace, Mark.during_foreign (by simp [Label.thread])] at registered
    exact (clean h registered).imp_right ((spent_lasting h).env o event)

/-- Actions that register nothing. -/
def plain (β : Type) (a : KAct β) : Prop := ∀ b h, ¬ enters a b h

theorem Clean.acted {β : Type} {a : KAct β} {b : β} {mem : KState} (clean : Clean i S o)
    (quiet : plain β a) (guar : Guar i o (o.acted i a b mem)) :
    Clean i S (o.acted i a b mem) := by
  intro h registered
  have before := (Mark.during_quiet (quiet b h) id).mp registered
  exact (clean h before).imp_right ((spent_lasting h).guar i _ _ guar)

/-- A program that registers nothing leaves things clean. -/
theorem clean_wp {α : Type} {p : KProg α} {Q : α → KObs depth → Prop}
    (hp : Composed plain (fun _ _ => False) p) (h : Wp i p Q o)
    (clean : Clean i S o) : Wp i p (fun v o => Q v o ∧ Clean i S o) o := by
  induction hp generalizing o with
  | pure value => exact ⟨h, clean⟩
  | blocked => trivial
  | act allowed _ ih =>
    intro o₁ rely reply mem acts
    obtain ⟨inv, guar, rest⟩ := h o₁ rely reply mem acts
    exact ⟨inv, guar, ih reply rest ((clean_stable.rely rely clean).acted allowed guar)⟩
  | sub known => exact known.elim

/-- Registering for an active instance: a refusal leaves nothing. -/
theorem insert_clean (own : owner.context = k) (kind : ResourceKind) (ho : Holding i op k [] [] o)
    (clean : Clean i S o) :
    Wp i (res (.insert owner kind)) (fun h o =>
      Holding i op k [(h, kind)] [] o ∧ Clean i (fun h' => S h' ∨ h' = h) o) o := by
  have held : Wp i (res (.insert owner kind)) (fun h =>
      Holding i op k [(h, kind)] []) o := insert_holds own kind ho
  intro o₁ rely h mem acts
  obtain ⟨inv, guar, holding⟩ := held o₁ rely h mem acts
  refine ⟨inv, guar, holding, fun h' registered => ?_⟩
  have before := clean_stable.rely rely clean
  rcases Mark.during_own.mp registered with new | ⟨old, -⟩
  · exact .inl (.inr (Eq.symm new))
  · exact (before h' old).imp .inl ((spent_lasting h').guar i _ _ guar)

/-- The resource in hand is taken back for good. -/
theorem takeBack_rest {a : ResourceAct Unit} {h : ResourceHandle}
    (guards : ∀ o : KObs depth, Disposable i o h → guardResource i o a)
    (quiet : plain Unit (KAct.res a)) (registers : ∀ x, ¬ registers (KAct.res a) () x)
    (back : takesBack (KAct.res a) h)
    (next : ∀ t : ResourceTable, (a.run t).2.nextHandle = t.nextHandle)
    (gone : ∀ (t : ResourceTable) r, (a.run t).2.records h = some r → r.state ≠ .active)
    (ho : Holding i op k [(h, kind)] [] o) (clean : Clean i (fun h' => S h' ∨ h' = h) o) :
    Wp i (res a) (fun _ o => Rest i op o ∧ Clean i S o) o := by
  refine wp_act (Holding.stable.and clean_stable) ⟨ho, clean⟩ fun o₁ _ mem h₁ acts => ?_
  have hinv : ProvisionalResources.Inv o₁ := acts.inv
  obtain ⟨held, clean₁⟩ := h₁
  have mine := held.held _ (List.mem_singleton.mpr rfl)
  have disposable : Disposable i o₁ h := fun r found => by
    obtain ⟨r', found', own, -⟩ := held.records _ (List.mem_singleton.mpr rfl)
    cases found.symm.trans found'
    rw [own]
    exact ⟨mine, fun kind hk => by simpa using (held.shows _ hk).2⟩
  have guarded : guard i o₁ (KAct.res a) := guards o₁ disposable
  obtain ⟨inv, guar⟩ := sound guarded acts
  have enabled : (KAct.res a).sem o₁.mem = some ((), mem) := acts.enabled
  cases enabled
  refine ⟨inv, guar, ⟨held.call, fun x hx => ?_, fun x hx => ?_, fun k hk => ?_⟩,
    fun h' registered => ?_⟩
  · obtain ⟨before, kept⟩ := (Mark.during_own.mp hx).resolve_left (registers x)
    obtain ⟨-, here⟩ := held.hands x before
    rw [List.map_singleton, List.mem_singleton] at here
    exact kept (.inr (here ▸ back))
  · simpa using (held.shows x ((Mark.during_own.mp hx).resolve_left id).1).2
  · exact held.visits k ((Mark.during_own.mp hk).resolve_left id).1
  · rcases clean₁ h' ((Mark.during_quiet (quiet () h') id).mp registered) with (listed | rfl)
      | spent
    · exact .inl listed
    · refine .inr ⟨?_, fun r found => gone _ r found⟩
      rw [Obs.acted_mem]
      exact (next _).symm ▸ hinv.issued i k h' mine
    · exact .inr ((spent_lasting h').guar i _ _ guar spent)

theorem discard_rest {h : ResourceHandle} (owner : ContextId)
    (ho : Holding i op k [(h, kind)] [] o) (clean : Clean i (fun h' => S h' ∨ h' = h) o) :
    Wp i (res (.discard h owner)) (fun _ o => Rest i op o ∧ Clean i S o) o := by
  refine takeBack_rest (fun _ disposable => disposable) (fun _ _ => id) (fun _ => id) rfl
    (fun _ => rfl) (fun t r found => ?_) ho clean
  cases (Function.update_self ..).symm.trans found

theorem rollbackRegister_rest {h : ResourceHandle} (ho : Holding i op k [(h, kind)] [] o)
    (clean : Clean i (fun h' => S h' ∨ h' = h) o) :
    Wp i (res (.rollbackRegister h))
      (fun _ o => Rest i op o ∧ Clean i S o) o := by
  refine takeBack_rest (fun _ disposable => disposable) (fun _ _ => id) (fun _ => id) rfl
    (fun t => ?_) (fun t r found => ?_) ho clean
  · rw [ResourceAct.run]
    unfold ResourceTable.rollbackRegister
    split
    · split <;> rfl
    · rfl
  · rw [ResourceAct.run] at found
    unfold ResourceTable.rollbackRegister at found
    split at found
    next rec there =>
      split at found
      · cases (Function.update_self ..).symm.trans found
      next idle =>
        cases there.symm.trans found
        exact idle
    next absent => cases absent.symm.trans found

/-- A registration is in hand, or was refused and left nothing. -/
def Registered (i : Nat) (op : Op) (k : InstanceId) (S : ResourceHandle → Prop)
    (kind : ResourceKind) (r : Except AcquireError ResourceHandle)
    (o : KObs depth) : Prop :=
  match r with
  | .error _ => Rest i op o ∧ Clean i S o
  | .ok h => Holding i op k [(h, kind)] [] o ∧ Clean i (fun h' => S h' ∨ h' = h) o

theorem startThread_registered {h : ResourceHandle} (what : String)
    (ho : Holding i op k [(h, kind)] [] o) (clean : Clean i (fun h' => S h' ∨ h' = h) o) :
    Wp i (startThread h owner what) (Registered i op k S kind) o := by
  have held : Wp i (perform .spawn)
    (fun _ => Holding i op k [(h, kind)] []) o := by
    refine (guarded depth).perform Holding.stable ho (fun _ _ _ => trivial)
      fun o₁ b mem h₁ acts => ?_
    have enabled : KAct.spawn.sem o₁.mem = some (b, mem) := acts.enabled
    cases enabled
    exact h₁.acted (fun _ => id) (fun _ => id) (fun _ => id) ⟨id, fun _ => id⟩ (fun _ => id) rfl
  refine wp_seq (clean_wp (.perform fun _ _ => id) held clean) fun started o₁ h₁ => ?_
  split_ifs
  · exact h₁
  · exact wp_seq (discard_rest owner.context h₁.1 h₁.2) fun _ o₂ h₂ => h₂

theorem register_registered (own : owner.context = k) (kind : ResourceKind)
    (ho : Holding i op k [] [] o) (clean : Clean i S o) :
    Wp i (register owner kind) (Registered i op k S kind) o := by
  unfold register
  cases validateKind kind with
  | error e => exact ⟨ho.rest, clean⟩
  | ok _ =>
    refine wp_seq (insert_clean own kind ho clean) fun h o₁ h₁ => ?_
    cases kind with
    | timer label ms => exact startThread_registered "timer" h₁.1 h₁.2
    | task label => exact startThread_registered "task" h₁.1 h₁.2
    | _ => exact h₁

/-- What the thread may show of the one resource it has in hand. -/
def shownOf : ResourceKind → List ResourceKind
  | .cap name => [.cap name]
  | .sub topic => [.sub topic]
  | _ => []

theorem publishKind_holds {h : ResourceHandle} (ho : Holding i op cur.instanceId [(h, kind)] [] o) :
    Wp i (publishKind cur kind) (fun _ =>
      Holding i op cur.instanceId [(h, kind)] (shownOf kind)) o := by
  cases kind with
  | cap name =>
    exact publish_holds (List.mem_singleton.mpr rfl) (fun _ hx => hx) (fun _ backed => backed) ho
  | sub topic =>
    exact publish_holds (List.mem_singleton.mpr rfl) (fun _ hx => hx) (fun _ backed => backed) ho
  | _ => exact ho

theorem revokeKind_holds {h : ResourceHandle} (ho : Holding i op k [(h, kind)] (shownOf kind) o) :
    Wp i (revokePublication k kind) (fun _ =>
      Holding i op k [(h, kind)] []) o := by
  cases kind with
  | cap name => exact revokePublication_holds (.inl ⟨name, rfl⟩) ho
  | sub topic => exact revokePublication_holds (.inr ⟨topic, rfl⟩) ho
  | _ => exact ho

theorem dated_lasting (k : InstanceId) (g : Nat) :
    (discipline depth).Lasting fun o => Dated o.mem.contexts k g where
  guar j o o' guar h := Guar.dated guar k g h
  env o event h := by cases event <;> exact h

theorem race_confirms {now : Option ContextRecord} {logical : String}
    (settled : acquireRace cur now = none) :
    confirms (KAct.ctx (.current logical)) now cur.instanceId := by
  cases now with
  | none => simp [acquireRace] at settled
  | some now =>
    unfold acquireRace at settled
    dsimp only at settled
    split_ifs at settled with same active
    exact ⟨same.1, active⟩

/-- An instance seen active is the one the acquisition is for: its generation never changes. -/
theorem confirms_race {logical : String} (t : ContextTable)
    (dated : Dated t cur.instanceId cur.generation)
    (confirmed : confirms (KAct.ctx (.current logical)) (t.current logical) cur.instanceId) :
    acquireRace cur (t.current logical) = none := by
  cases found : t.current logical with
  | none => simp [found, confirms] at confirmed
  | some now =>
    rw [found] at confirmed
    obtain ⟨same, active⟩ := confirmed
    obtain ⟨inst, -, there⟩ := Option.bind_eq_some_iff.mp found
    obtain ⟨rec, found', generation⟩ := dated
    rw [← same, (t.issued inst now there).1, there] at found'
    cases found'
    simp [acquireRace, same, generation, active]

/-- The look that decides an acquisition: the instance is confirmed, or stays unconfirmed. -/
theorem current_decides (logical : String) (acquirer : acquires op = true)
    (ho : Holding i op cur.instanceId hs ks o)
    (dated : Dated o.mem.contexts cur.instanceId cur.generation) :
    Wp i (ctx (.current logical)) (fun now o =>
      (acquireRace cur now = none → Rest i op o) ∧
      (acquireRace cur now ≠ none → Holding i op cur.instanceId hs ks o)) o := by
  refine (guarded depth).observe Holding.stable (dated_lasting _ _) ⟨ho, dated⟩
    (fun _ _ _ _ => trivial) fun o₁ now mem h₁ dated acts _ _ => ?_
  have enabled : (KAct.ctx (.current logical)).sem o₁.mem = some (now, mem) := acts.enabled
  cases enabled
  refine ⟨fun settled => ?_, fun raced => ?_⟩
  · refine h₁.confirmed (fun _ => id) (fun _ => id) (fun _ => id) ?_
    exact race_confirms settled
  · refine h₁.acted (fun _ => id) (fun _ => id) (fun _ => id)
      ⟨fun confirmed => raced ?_, fun _ => id⟩
      (fun builds => by simp [acquirer] at builds) rfl
    exact confirms_race (o₁.mem.contexts) dated confirmed

theorem publishKind_plain (cur : ContextRecord) (kind : ResourceKind) :
    Composed plain (fun _ _ => False) (publishKind cur kind) := by
  cases kind with
  | cap name => exact .perform fun _ _ => id
  | sub topic => exact .perform fun _ _ => id
  | _ => exact .pure _

theorem revokePublication_plain (inst : InstanceId) (kind : ResourceKind) :
    Composed plain (fun _ _ => False) (revokePublication inst kind) := by
  cases kind with
  | cap name => exact .perform fun _ _ => id
  | sub topic => exact .perform fun _ _ => id
  | _ => exact .pure _

/-- A refused acquisition leaves nothing registered, and an acquisition nothing in hand. -/
def Acquired (i : Nat) (op : Op) (S : ResourceHandle → Prop) (r : Except String ResourceHandle)
    (o : KObs depth) : Prop :=
  Rest i op o ∧ ∀ e, r = .error e → Clean i S o

/-- What an acquisition takes back once it has lost the race. -/
theorem undo_acquired {α : Type} {h : ResourceHandle} {next : KProg α}
    {Q : α → KObs depth → Prop}
    (ho : Holding i op cur.instanceId [(h, kind)] (shownOf kind) o)
    (clean : Clean i (fun h' => S h' ∨ h' = h) o)
    (rest : ∀ o₁, Rest i op o₁ → Clean i S o₁ → Wp i next Q o₁) :
    Wp i (do
      revokePublication cur.instanceId kind
      res (.rollbackRegister h)
      next) Q o := by
  refine wp_seq (clean_wp (revokePublication_plain ..) (revokeKind_holds ho) clean)
    fun _ o₁ h₁ => ?_
  exact wp_seq (rollbackRegister_rest h₁.1 h₁.2) fun _ o₂ h₂ => rest o₂ h₂.1 h₂.2

theorem publishAcquired_acquired (acquirer : acquires op = true) (logical : String)
    {cur : ContextRecord} {h : ResourceHandle} {kind : ResourceKind}
    (ho : Holding i op cur.instanceId [(h, kind)] [] o)
    (clean : Clean i (fun h' => S h' ∨ h' = h) o)
    (dated : Dated o.mem.contexts cur.instanceId cur.generation) :
    Wp i (publishAcquired logical cur kind h) (Acquired i op S) o := by
  refine wp_seq ((dated_lasting _ _).wp (clean_wp (publishKind_plain ..) (publishKind_holds ho)
    clean)
    dated) fun _ o₁ h₁ => ?_
  refine wp_seq ((dated_lasting _ _).wp (clean_wp (.perform fun _ _ => id)
    (comp_holds (fun _ _ => id) (fun _ => trivial) h₁.1.1) h₁.1.2) h₁.2) fun _ o₂ h₂ => ?_
  refine wp_seq (clean_wp (.perform fun _ _ => id)
    (current_decides logical acquirer h₂.1.1 h₂.2) h₂.1.2) fun now o₃ h₃ => ?_
  cases raced : acquireRace cur now with
  | none =>
    dsimp only
    refine wp_seq (rest_perform trivial (h₃.1.1 raced)) fun _ o₄ h₄ => ?_
    exact ⟨h₄, fun e same => by cases same⟩
  | some err =>
    dsimp only
    refine undo_acquired (h₃.1.2 (by simp [raced])) h₃.2 fun o₄ h₄ clean₄ => ?_
    refine wp_mono (fun _ _ h => ⟨h.1, fun _ _ => h.2⟩) (clean_wp ?_ (rest_composed ?_ h₄) clean₄)
    · exact .step (fun _ _ => id) fun _ => .step (fun _ _ => id) fun _ => .pure _
    · exact .next fun _ => .map .once

/-- The first look of an acquisition. -/
theorem current_dated (logical : String) (ho : Rest i op o) (clean : Clean i S o) :
    Wp i (ctx (.current logical)) (fun cur o => (Rest i op o ∧ Clean i S o) ∧
      ∀ r, cur = some r → r.context = r.instanceId ∧
        Dated o.mem.contexts r.instanceId r.generation) o := by
  have seen : Wp i (ctx (.current logical)) (fun cur o => Rest i op o ∧
      ∀ r, cur = some r → r.context = r.instanceId ∧
        Dated o.mem.contexts r.instanceId r.generation) o := by
    refine (guarded depth).perform Visiting.stable ho (fun _ _ _ => trivial)
      fun o₁ cur mem h₁ acts => ⟨h₁.idle_acted trivial, ?_⟩
    rintro r rfl
    have enabled : (KAct.ctx (.current logical)).sem o₁.mem = some (some r, mem) := acts.enabled
    simp only [KAct.sem, ContextAct.run, Option.some.injEq, Prod.mk.injEq] at enabled
    obtain ⟨current, rfl⟩ := enabled
    obtain ⟨inst, -, found⟩ := Option.bind_eq_some_iff.mp current
    obtain ⟨same, paired, -⟩ := o₁.mem.contexts.issued inst r found
    refine ⟨paired.trans same.symm, r, ?_, rfl⟩
    rw [same]
    exact found
  exact wp_mono (fun _ _ h => ⟨⟨h.1.1, h.2⟩, h.1.2⟩) (clean_wp (.perform fun _ _ => id) seen clean)

/-- From a known activation: it is required to be active, and the resource is registered. -/
theorem require_registers (acquirer : acquires op = true) {cur : ContextRecord}
    (own : cur.context = cur.instanceId) (kind : ResourceKind)
    {publish : ResourceHandle → KProg (Except String ResourceHandle)}
    (published : ∀ h (o : KObs depth), Holding i op cur.instanceId [(h, kind)] [] o →
      Clean i (fun h' => S h' ∨ h' = h) o → Dated o.mem.contexts cur.instanceId cur.generation →
      Wp i (publish h) (Acquired i op S) o) (ho : Rest i op o)
    (clean : Clean i S o) (dated : Dated o.mem.contexts cur.instanceId cur.generation) :
    Wp i (do
      match ← ctx (.requireActive cur.instanceId) with
      | .error e => pure (.error (requireText e))
      | .ok _ => do
        let owner : Owner := ⟨cur.context, cur.instanceId, cur.logical, cur.generation⟩
        match ← register owner kind with
        | .error e => pure (.error e.text)
        | .ok handle => publish handle) (Acquired i op S) o := by
  refine wp_seq ((dated_lasting _ _).wp (clean_wp (.perform fun _ _ => id)
    (rest_perform trivial ho) clean) dated) fun verdict o₁ h₁ => ?_
  cases verdict with
  | error e => exact ⟨h₁.1.1, fun _ _ => h₁.1.2⟩
  | ok _ =>
    have idle : Holding i op cur.instanceId [] [] o₁ :=
      holding_of_rest h₁.1.1 fun builds => by simp [acquirer] at builds
    refine wp_seq ((dated_lasting _ _).wp (register_registered (S := S) own kind idle h₁.1.2) h₁.2)
      fun r o₂ h₂ => ?_
    cases r with
    | error e => exact ⟨h₂.1.1, fun _ _ => h₂.1.2⟩
    | ok h => exact published h o₂ h₂.1.1 h₂.1.2 h₂.2

theorem acquire_acquired (acquirer : acquires op = true) (logical : String) (kind : ResourceKind)
    (ho : Rest i op o) (clean : Clean i S o) :
    Wp i (acquire logical kind) (Acquired i op S) o := by
  refine wp_seq (current_dated logical ho clean) fun cur o₁ h₁ => ?_
  cases cur with
  | none => exact ⟨h₁.1.1, fun _ _ => h₁.1.2⟩
  | some cur =>
    obtain ⟨own, dated⟩ := h₁.2 cur rfl
    exact require_registers acquirer own kind
      (fun h o held clean dated => publishAcquired_acquired acquirer logical held clean dated)
      h₁.1.1 h₁.1.2 dated

theorem publishExternal_acquired (acquirer : acquires op = true) (logical : String)
    {cur : ContextRecord} {h : ResourceHandle} {kind : ResourceKind}
    (ho : Holding i op cur.instanceId [(h, kind)] [] o)
    (clean : Clean i (fun h' => S h' ∨ h' = h) o)
    (dated : Dated o.mem.contexts cur.instanceId cur.generation) :
    Wp i (publishExternal logical cur kind h) (Acquired i op S) o := by
  have counted : Wp i (res (.activeFor cur.context)) (fun _ =>
      Holding i op cur.instanceId [(h, kind)] []) o := by
    refine (guarded depth).perform Holding.stable ho (fun _ _ _ => trivial)
      fun o₁ b mem h₁ acts => ?_
    have enabled : (KAct.res (.activeFor cur.context)).sem o₁.mem = some (b, mem) := acts.enabled
    cases enabled
    exact h₁.acted (fun _ => id) (fun _ => id) (fun _ => id) ⟨id, fun _ => id⟩ (fun _ => id) rfl
  refine wp_seq ((dated_lasting _ _).wp (clean_wp (.perform fun _ _ => id) counted clean) dated)
    fun live o₁ h₁ => ?_
  split_ifs
  · refine wp_seq (rollbackRegister_rest h₁.1.1 h₁.1.2) fun _ o₂ h₂ => ?_
    exact ⟨h₂.1, fun _ _ => h₂.2⟩
  refine wp_seq ((dated_lasting _ _).wp (clean_wp (publishKind_plain ..)
    (publishKind_holds h₁.1.1) h₁.1.2) h₁.2) fun _ o₂ h₂ => ?_
  refine wp_seq (clean_wp (.perform fun _ _ => id)
    (current_decides logical acquirer h₂.1.1 h₂.2) h₂.1.2) fun now o₃ h₃ => ?_
  split_ifs with settled
  · refine wp_seq (rest_perform trivial (h₃.1.1 settled)) fun _ o₄ h₄ => ?_
    refine wp_seq (rest_perform trivial h₄) fun _ o₅ h₅ => ?_
    exact ⟨h₅, fun e same => by cases same⟩
  · refine undo_acquired (h₃.1.2 settled) h₃.2 fun o₄ h₄ clean₄ => ?_
    refine wp_mono (fun _ _ h => ⟨h.1, fun _ _ => h.2⟩) (clean_wp ?_ (rest_composed ?_ h₄) clean₄)
    · exact .step (fun _ _ => id) fun _ => .pure _
    · exact .map .once

theorem acquireExternal_acquired (acquirer : acquires op = true) (logical : String)
    (kind : ResourceKind) (callerInstance : InstanceId) (callerGeneration : Nat)
    (ho : Rest i op o) (clean : Clean i S o) :
    Wp i (acquireExternal logical kind callerInstance callerGeneration)
      (Acquired i op S) o := by
  refine wp_seq (current_dated logical ho clean) fun cur o₁ h₁ => ?_
  cases cur with
  | none => exact ⟨h₁.1.1, fun _ _ => h₁.1.2⟩
  | some cur =>
    obtain ⟨own, dated⟩ := h₁.2 cur rfl
    dsimp only
    split_ifs
    · exact ⟨h₁.1.1, fun _ _ => h₁.1.2⟩
    · exact require_registers acquirer own kind
        (fun h o held clean dated => publishExternal_acquired acquirer logical held clean dated)
        h₁.1.1 h₁.1.2 dated

theorem releaseClaimed_idles (rec : ResourceRecord) (handle : ResourceHandle) :
    Composed idle (fun _ _ => False) (releaseClaimed rec handle) := by
  refine .bind (beginRelease_releases handle).relax fun claim => ?_
  cases claim with
  | error e => exact .pure _
  | ok claim =>
    exact .bind (revokePublication_releases ..).relax fun _ =>
      .map .once

theorem releaseHandle_idles (handle : ResourceHandle) :
    Composed idle (fun _ _ => False) (releaseHandle handle) := by
  refine .next fun rec => ?_
  cases rec with
  | none => exact .pure _
  | some rec =>
    refine .ite (.next fun pending => .ite (.pure _) ?_) ?_
    · exact releaseClaimed_idles rec handle
    · exact releaseClaimed_idles rec handle

theorem acquireBatch_rest (acquirer : acquires op = true) (logical : String)
    (kinds : List ResourceKind) (out : List ResourceHandle) (ho : Rest i op o) :
    Wp i (acquireBatch logical kinds out) (fun _ => Rest i op) o := by
  induction kinds generalizing out o with
  | nil => exact ho
  | cons kind kinds ih =>
    have clean : Clean i (fun _ => True) o := fun _ _ => .inl trivial
    refine wp_seq (acquire_acquired acquirer logical kind ho clean) fun r o₁ h₁ => ?_
    cases r with
    | ok h => exact ih (out ++ [h]) h₁.1
    | error e =>
      exact rest_composed
        (.map (.forEach _ fun h => .map (releaseHandle_idles h))) h₁.1

/-! ### Every operation -/

theorem idle_of_still {β : Type} {a : KAct β} {pins : List ResourceHandle}
    (h : OperationFrame.still pins β a) : idle β a := by
  cases a with
  | ctx a => cases a <;> first | exact h.elim | exact trivial
  | res a => cases a <;> first | exact h.elim | exact trivial
  | pub a => cases a <;> first | exact h.elim | exact trivial
  | _ => exact trivial

theorem fault_idles (fiber mode : String) :
    Composed idle (fun _ _ => False) (fault fiber mode) :=
  OperationFrame.fault_composed trivial (fun _ => trivial) trivial (fun _ _ => trivial) trivial
    trivial

/-- The operations that acquire one resource. -/
def single : Op → Bool
  | .acquire _ _ | .acquireExternal _ _ _ _ => true
  | _ => false

/-- The operation has returned with nothing to answer for, and left nothing registered if it was
a refused acquisition. -/
def Returned (i : Nat) (op : Op) (r : Res) (o : KObs depth) : Prop :=
  Rest i op o ∧ ∀ e, single op = true → r = .acquired (.error e) → Clean i (fun _ => False) o

theorem returned_of_rest (plain : single op = false) {r : Res} (h : Rest i op o) :
    Returned i op r o :=
  ⟨h, fun e one => by simp [plain] at one⟩

theorem operation_returns (op : Op) (ho : Rest i op o) (clean : Clean i (fun _ => False) o) :
    Wp i ((kernel depth).code op) (Returned i op) o := by
  by_cases recomposing : recomposes op = true
  · have builder : acquires op = false := by cases op <;> first | rfl | cases recomposing
    have plain : single op = false := by cases op <;> first | rfl | cases recomposing
    exact wp_mono (fun _ _ => returned_of_rest plain)
      (steers_rest builder (reconcile_rest builder depth) (recomposes_steers recomposing) ho)
  by_cases calls : OperationFrame.calling op = true
  · have builder : acquires op = false := by cases op <;> first | rfl | cases calls
    have plain : single op = false := by cases op <;> first | rfl | cases calls
    refine wp_mono (fun _ _ => returned_of_rest plain) (wp_composed
      (OperationFrame.calling_calls calls) Visiting.stable
      (fun _ _ ha => rest_keeps (idle_of_still ha))
      (fun β q hq o ho => ?_) ho)
    cases hq with
    | finalize inst => exact maybeFinalize_rest (reconcile_rest builder depth) inst ho
    | fault fiber mode => exact rest_composed (fault_idles fiber mode) ho
  cases op with
  | acquire logical kind =>
    refine wp_seq (acquire_acquired rfl logical kind ho clean)
      fun r o₁ h₁ => ⟨h₁.1, fun e _ same => ?_⟩
    cases same
    exact h₁.2 e rfl
  | acquireExternal logical kind inst generation =>
    refine wp_seq (acquireExternal_acquired rfl logical kind inst generation ho clean)
      fun r o₁ h₁ => ⟨h₁.1, fun e _ same => ?_⟩
    cases same
    exact h₁.2 e rfl
  | acquireBatch logical kinds =>
    exact wp_seq (acquireBatch_rest rfl logical kinds [] ho) fun _ _ => returned_of_rest rfl
  | release handle =>
    exact wp_seq (rest_composed (releaseHandle_idles handle) ho) fun _ _ => returned_of_rest rfl
  | _ => first | exact absurd rfl recomposing | exact absurd rfl calls

/-! ### Between operations -/

/-- A thread with nothing to answer for starts an operation or returns from one. -/
structure Boundary (i : Nat) (o : KObs depth) (label : KLabel depth) : Prop where
  own : label.thread = some i
  hands : ∀ x, ¬ inHand.During i x o.trace
  shows : ∀ x, ¬ showing.During i x o.trace
  visits : ∀ k, ¬ unpublishing.During i k o.trace
  ends : ∀ {K : Type} (m : Mark KAct K) x, ¬ m.During i x (label :: o.trace)

namespace Boundary

variable {label : KLabel depth} (h : Boundary i o label)

include h

theorem foreign {K : Type} {m : Mark KAct K} {x : K} {j : Nat} (other : j ≠ i) :
    m.During j x (o.log label).trace ↔ m.During j x o.trace :=
  Mark.during_foreign (by rw [h.own]; simpa using Ne.symm other)

/-- The marks are those of the other threads, which are as before. -/
theorem marks {K : Type} {m : Mark KAct K} (none : ∀ x, ¬ m.During i x o.trace) {j : Nat} {x : K} :
    m.During j x (o.log label).trace ↔ m.During j x o.trace := by
  by_cases mine : j = i
  · subst mine
    exact iff_of_false (h.ends m x) (none x)
  · exact h.foreign mine

theorem guar : Guar i o (o.log label) where
  logged := ⟨label, h.own, rfl⟩
  withdrawn _ hk := hk
  active _ hk := .inl hk
  dated _ _ hk := hk
  records :=
    { next := le_rfl
      ages := fun _ _ r found => ⟨r, found, rfl, rfl, id⟩
      kept := fun _ _ r found _ free =>
        ⟨⟨r, found, rfl, rfl⟩, fun held => free ((h.marks h.hands).mp held)⟩
      fresh := fun x r found new =>
        absurd (o.mem.resources.issued x r found).2 (Nat.not_lt.mpr new)
      dropped := fun _ _ held => absurd held (h.hands _) }
  shows :=
    { shown := fun _ _ _ there => .inl there
      hidden := fun _ _ held => absurd held (h.shows _) }

theorem inv (hinv : ProvisionalResources.Inv o)
    (calls : ∀ j, j ≠ i → inCall j (label :: o.trace) = inCall j o.trace) :
    ProvisionalResources.Inv (o.log label) where
  owned x r found active ended := by
    obtain ⟨j, hj⟩ := hinv.owned x r found active ended
    exact ⟨j, (h.marks h.hands).mpr hj⟩
  shows l k kind there := by
    refine (hinv.shows l k kind there).imp_right fun answered => ?_
    exact answered.imp (fun ⟨j, hj⟩ => ⟨j, (h.marks h.shows).mpr hj⟩)
      fun ⟨j, hj⟩ => ⟨j, (h.marks h.visits).mpr hj⟩
  backed l k kind there := by
    refine (hinv.backed l k kind there).imp (fun ⟨x, settled⟩ => ?_)
      fun ⟨j, hj⟩ => ⟨j, (h.marks h.shows).mpr hj⟩
    exact ⟨x, settled.1, fun j hj => settled.2 j ((h.marks h.hands).mp hj)⟩
  answers j k kind hj := by
    obtain ⟨x, r, found, own, kinds, others⟩ := hinv.answers j k kind ((h.marks h.shows).mp hj)
    exact ⟨x, r, found, own, kinds,
      fun j' other held => others j' other ((h.marks h.hands).mp held)⟩
  attended j k builds hj := by
    by_cases mine : j = i
    · subst mine
      exact absurd hj (h.ends attending k)
    · exact hinv.attended j k (by rwa [Builds, ← calls j mine]) ((h.foreign mine).mp hj)
  issued j k x hj := hinv.issued j k x ((h.marks h.hands).mp hj)
  held j k x builds hj := by
    by_cases mine : j = i
    · subst mine
      exact absurd hj (h.ends inHand (k, x))
    · exact hinv.held j k x (by rwa [Builds, ← calls j mine]) ((h.foreign mine).mp hj)
  sole j j' k k' x hj hj' :=
    hinv.sole j j' k k' x ((h.marks h.hands).mp hj) ((h.marks h.hands).mp hj')
  idle j hj := by
    by_cases mine : j = i
    · subst mine
      exact ⟨h.ends inHand, h.ends showing, h.ends unpublishing⟩
    · obtain ⟨hands, shows, visits⟩ := hinv.idle j (by rwa [← calls j mine])
      exact ⟨fun x hx => hands x ((h.marks h.hands).mp hx),
        fun x hx => shows x ((h.marks h.shows).mp hx),
        fun k hk => visits k ((h.marks h.visits).mp hk)⟩

end Boundary

theorem inv_passed (hinv : ProvisionalResources.Inv o) (event : KEnv) :
    ProvisionalResources.Inv (o.passed event) := by
  have marks : ∀ {K : Type} {m : Mark KAct K} {j : Nat} {x : K},
      m.During j x (o.passed event).trace ↔ m.During j x o.trace :=
    Mark.during_foreign (by simp [Label.thread])
  have same : SameTables o.mem (o.passed event).mem := by
    cases event <;> exact ⟨rfl, rfl, rfl, rfl, rfl⟩
  refine ⟨?_, ?_, ?_, ?_, ?_, ?_, ?_, ?_, ?_⟩
  all_goals simp only [Settled, Builds, marks, same.contexts, same.resources, same.publications]
  · exact hinv.owned
  · exact hinv.shows
  · exact hinv.backed
  · exact hinv.answers
  · exact hinv.attended
  · exact hinv.issued
  · exact hinv.held
  · exact hinv.sole
  · exact hinv.idle

theorem verified : (discipline depth).Verified Returned where
  stable i op r :=
    Visiting.stable.and fun o o' hi h e one same => clean_stable o o' hi (h e one same)
  start i op o hinv idle _ := by
    obtain ⟨hands, shows, visits⟩ := ProvisionalResources.Inv.idle hinv i idle
    have boundary : Boundary i o (.start i op) :=
      ⟨rfl, hands, shows, visits, fun _ _ => Mark.not_during_start⟩
    refine ⟨boundary.inv hinv fun j other => inCall_foreign ?_, boundary.guar,
      operation_returns op ?_ fun h registered => absurd registered Mark.not_during_start⟩
    · simpa [Label.thread] using Ne.symm other
    · exact ⟨if_pos rfl, fun _ => Mark.not_during_start, fun _ => Mark.not_during_start,
        fun _ => Mark.not_during_start⟩
  done i op res o hinv _ hpost _ := by
    have boundary : Boundary i o (.done i op res) :=
      ⟨rfl, hpost.1.hands, hpost.1.shows, hpost.1.visits, fun _ _ => Mark.not_during_done⟩
    refine ⟨boundary.inv hinv fun j other => inCall_foreign ?_, boundary.guar⟩
    simpa [Label.thread] using Ne.symm other
  env event o hinv _ := inv_passed hinv event

/-- No context that has ended owns an active resource, and what is shown is that of an active
context with a record for it. -/
structure Sound (s : KState) : Prop where
  owned : ∀ h r, s.resources.records h = some r → r.state = .active →
    ¬ Ended s.contexts r.ownerContext
  shown : ∀ l k kind, shown s.publications l k kind → Active s.contexts k ∧
    ∃ h r, s.resources.records h = some r ∧ r.ownerContext = k ∧ r.kind = kind

theorem inv_boot {m₀ : KState} (h : Sound m₀) :
    ProvisionalResources.Inv (⟨m₀, []⟩ : KObs depth) where
  owned x r found active ended := absurd ended (h.owned x r found active)
  shows l k kind there := .inl (h.shown l k kind there).1
  backed l k kind there := by
    obtain ⟨x, r, found⟩ := (h.shown l k kind there).2
    exact .inl ⟨x, ⟨r, found⟩, fun _ => id⟩
  answers _ _ _ hj := hj.elim
  attended _ _ _ hj := hj.elim
  issued _ _ _ hj := hj.elim
  held _ _ _ _ hj := hj.elim
  sole _ _ _ _ _ hj := hj.elim
  idle _ _ := ⟨fun _ => id, fun _ => id, fun _ => id⟩

theorem sound_boot (epoch : Nat) : Sound (KState.boot epoch) where
  owned _ _ found := by cases found
  shown l k kind there := by
    cases kind with
    | cap name =>
      obtain ⟨_, found, -⟩ := there
      cases found
    | sub topic => cases there
    | _ => exact there.elim

end MatrixRuntime.ProvisionalOperations
