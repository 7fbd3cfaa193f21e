import MatrixRuntime.ProvisionalDisposals

/-! What an operation has in hand while it acquires resources for an activation, and that it
ends with nothing in hand: the activation is confirmed, or what was acquired is taken
back. -/

namespace MatrixRuntime.ProvisionalAcquisitions

open KernelContexts KernelTickets KernelResources KernelState KernelActions DependencyGraph
open KernelReconcile KernelOperations InterleavedProgram InterleavedMachine TraceMarks ContextFrame
open ReconcileFrame RelyGuarantee.Discipline ProvisionalResources ProvisionalDisposals Function

variable {depth : Nat} {i : Nat} {op : Op} {o : KObs depth} {k : InstanceId}
  {h : ResourceHandle} {kind : ResourceKind} {x : ResourceHandle × ResourceKind}

/-- The thread has exactly these resources of the instance in hand, and answers for
publications of these kinds at most. An operation that brings the instance up has found
it waiting or created it. -/
structure Holding (i : Nat) (op : Op) (k : InstanceId)
    (hs : List (ResourceHandle × ResourceKind)) (ks : List ResourceKind) (o : KObs depth) :
    Prop where
  call : inCall i o.trace = some op
  hands : ∀ x, inHand.During i x o.trace → x.1 = k ∧ x.2 ∈ hs.map Prod.fst
  held : ∀ x ∈ hs, inHand.During i (k, x.1) o.trace
  distinct : (hs.map Prod.fst).Nodup
  records : ∀ x ∈ hs, ∃ r, o.mem.resources.records x.1 = some r ∧ r.ownerContext = k ∧
    r.kind = x.2
  shows : ∀ x, showing.During i x o.trace → x.1 = k ∧ x.2 ∈ ks
  visits : ∀ k, ¬ unpublishing.During i k o.trace
  attends : acquires op = false → attending.During i k o.trace

variable {hs : List (ResourceHandle × ResourceKind)} {ks : List ResourceKind} {a : PublishAct Unit}
  {again : KProg Unit} {cur : ContextRecord} {ks' : List ResourceKind} {r : ResourceRecord}
  {t : ResourceTable} {α : Type}

theorem holding_of_rest (h : Rest i op o)
    (attends : acquires op = false → attending.During i k o.trace) : Holding i op k [] [] o where
  call := h.call
  hands x hx := absurd hx (h.hands x)
  held _ hx := absurd hx List.not_mem_nil
  distinct := List.nodup_nil
  records _ hx := absurd hx List.not_mem_nil
  shows x hx := absurd hx (h.shows x)
  visits := h.visits
  attends := attends

theorem Holding.rest (h : Holding i op k [] [] o) : Rest i op o :=
  ⟨h.call, fun x hx => by simpa using (h.hands x hx).2, fun x hx => by simpa using (h.shows x hx).2,
    h.visits⟩

theorem Holding.widen (h : Holding i op k hs ks o) (sub : ks ⊆ ks') : Holding i op k hs ks' o :=
  ⟨h.call, h.hands, h.held, h.distinct, h.records, fun x hx => ⟨(h.shows x hx).1,
    sub (h.shows x hx).2⟩, h.visits, h.attends⟩

theorem Holding.reverse (h : Holding i op k hs (hs.map Prod.snd) o) :
    Holding i op k hs.reverse (hs.reverse.map Prod.snd) o where
  call := h.call
  hands x hx := by simpa using h.hands x hx
  held x hx := h.held x (List.mem_reverse.mp hx)
  distinct := by
    rw [List.map_reverse, List.nodup_reverse]
    exact h.distinct
  records x hx := h.records x (List.mem_reverse.mp hx)
  shows x hx := by simpa using h.shows x hx
  visits := h.visits
  attends := h.attends

theorem Holding.stable : (discipline depth).Stable i (Holding i op k hs ks) := by
  refine Stable.intro ?_ ?_
  · intro o o' j label hinv _ other own logged (guar : Guar j o o') h
    have same : ∀ {K : Type} {m : Mark KAct K} {x : K},
        m.During i x o'.trace ↔ m.During i x o.trace := guar.foreign (Ne.symm other)
    refine ⟨?_, fun x hx => h.hands x (same.mp hx), fun x hx => same.mpr (h.held x hx), h.distinct,
      fun x hx => ?_, fun x hx => h.shows x (same.mp hx), fun k hk => h.visits k (same.mp hk),
      fun builds => same.mpr (h.attends builds)⟩
    · rw [logged, inCall_foreign (by rw [own]; simpa using other)]
      exact h.call
    · obtain ⟨r, found, owner, kinds⟩ := h.records x hx
      obtain ⟨⟨r', found', kinds', owner'⟩, -⟩ := guar.records.kept k x.1 r found owner
        fun held => other (ProvisionalResources.Inv.sole hinv j i k k x.1 held (h.held x hx))
      exact ⟨r', found', owner'.trans owner, kinds'.trans kinds⟩
  · intro o event _ h
    have same : ∀ {K : Type} {m : Mark KAct K} {x : K},
        m.During i x (o.passed event).trace ↔ m.During i x o.trace :=
      Mark.during_foreign (by simp [Label.thread])
    refine ⟨h.call, fun x hx => h.hands x (same.mp hx), fun x hx => same.mpr (h.held x hx),
      h.distinct, fun x hx => ?_, fun x hx => h.shows x (same.mp hx),
      fun k hk => h.visits k (same.mp hk), fun builds => same.mpr (h.attends builds)⟩
    cases event <;> exact h.records x hx

section Acted

variable {β : Type} {a : KAct β} {b : β} {mem : KState}

/-- An action that touches neither the hands nor the records. -/
theorem Holding.acted (h : Holding i op k hs ks o) (registers : ∀ x, ¬ registers a b x)
    (publishes : ∀ x, ¬ publishes a x) (wins : ∀ k, ¬ FinalizationInvariant.wins a b k)
    (keeps : ¬ confirms a b k ∧ ∀ h, ¬ takesBack a h)
    (looks : acquires op = false → ¬ turnsAway a k)
    (records : mem.resources.records = o.mem.resources.records) :
    Holding i op k hs ks (o.acted i a b mem) where
  call := h.call
  hands x hx := h.hands x ((Mark.during_own.mp hx).resolve_left (registers x)).1
  held x hx := Mark.during_own.mpr (.inr ⟨h.held x hx, fun c => c.elim keeps.1 (keeps.2 x.1)⟩)
  distinct := h.distinct
  records x hx := by
    rw [Obs.acted_mem, records]
    exact h.records x hx
  shows x hx := h.shows x ((Mark.during_own.mp hx).resolve_left (publishes x)).1
  visits k hk := h.visits k ((Mark.during_own.mp hk).resolve_left (wins k)).1
  attends builds := Mark.during_own.mpr (.inr ⟨h.attends builds, looks builds⟩)

/-- Confirming the activation empties the hands. -/
theorem Holding.confirmed (h : Holding i op k hs ks o) (registers : ∀ x, ¬ registers a b x)
    (publishes : ∀ x, ¬ publishes a x) (wins : ∀ k, ¬ FinalizationInvariant.wins a b k)
    (confirms : confirms a b k) : Rest i op (o.acted i a b mem) where
  call := h.call
  hands x hx := by
    obtain ⟨before, kept⟩ := (Mark.during_own.mp hx).resolve_left (registers x)
    exact kept (.inl ((h.hands x before).1 ▸ confirms))
  shows x hx := by
    obtain ⟨before, kept⟩ := (Mark.during_own.mp hx).resolve_left (publishes x)
    exact kept (.inl ((h.shows x before).1 ▸ confirms))
  visits k hk := h.visits k ((Mark.during_own.mp hk).resolve_left (wins k)).1

end Acted

theorem Holding.builds (h : Holding i op k hs ks o) (builder : acquires op = false) :
    Builds i o.trace := ⟨op, h.call, builder⟩

/-- What an operation that brings the instance up has in hand is active. -/
theorem Holding.active (h : Holding i op k hs ks o) (builder : acquires op = false)
    (hinv : ProvisionalResources.Inv o) {x : ResourceHandle × ResourceKind} (hx : x ∈ hs) :
    ∃ r, o.mem.resources.records x.1 = some r ∧ r.kind = x.2 ∧ r.state = .active := by
  obtain ⟨r, found, -, kinds⟩ := h.records x hx
  obtain ⟨r', found', active⟩ := hinv.held i k x.1 (h.builds builder) (h.held x hx)
  cases found.symm.trans found'
  exact ⟨r, found, kinds, active⟩

theorem Holding.live (h : Holding i op k hs ks o) (builder : acquires op = false)
    (hinv : ProvisionalResources.Inv o) : Live o.mem.contexts k :=
  hinv.attended i k (h.builds builder) (h.attends builder)

/-! ### Registering and publishing -/

theorem insert_holds {owner : Owner} (own : owner.context = k) (kind : ResourceKind)
    (ho : Holding i op k hs ks o) :
    Wp i (res (.insert owner kind)) (fun h =>
      Holding i op k (hs ++ [(h, kind)]) ks) o := by
  refine (guarded depth).perform Holding.stable ho (fun _ _ _ => trivial)
    fun o₁ h mem h₁ acts => ?_
  have hinv : ProvisionalResources.Inv o₁ := acts.inv
  have enabled : (KAct.res (.insert owner kind)).sem o₁.mem = some (h, mem) := acts.enabled
  cases enabled
  have fresh : ∀ x ∈ hs, x.1 ≠ o₁.mem.resources.nextHandle := fun x hx =>
    Nat.ne_of_lt (hinv.issued i k x.1 (h₁.held x hx))
  refine ⟨h₁.call, fun x hx => ?_, fun x hx => ?_, ?_, fun x hx => ?_, fun x hx => ?_,
    fun k hk => ?_, fun builds => ?_⟩
  · rw [List.map_append, List.mem_append]
    rcases Mark.during_own.mp hx with new | ⟨before, -⟩
    · cases new
      exact ⟨own, .inr (List.mem_singleton.mpr rfl)⟩
    · exact ⟨(h₁.hands x before).1, .inl (h₁.hands x before).2⟩
  · rcases List.mem_append.mp hx with old | new
    · exact Mark.during_own.mpr (.inr ⟨h₁.held x old, by rintro (h | h) <;> exact h⟩)
    · rw [List.mem_singleton.mp new]
      exact Mark.during_own.mpr (.inl (Prod.ext own.symm rfl))
  · rw [List.map_append, List.nodup_append]
    refine ⟨h₁.distinct, List.nodup_singleton _, fun h hh h' hh' => ?_⟩
    obtain ⟨x, hx, rfl⟩ := List.mem_map.mp hh
    rw [List.mem_singleton.mp hh']
    exact fresh x hx
  · rcases List.mem_append.mp hx with old | new
    · obtain ⟨r, found, rest⟩ := h₁.records x old
      exact ⟨r, (update_of_ne (fresh x old) _ _).trans found, rest⟩
    · rw [List.mem_singleton.mp new]
      exact ⟨_, update_self .., own, rfl⟩
  · exact h₁.shows x ((Mark.during_own.mp hx).resolve_left id).1
  · exact h₁.visits k ((Mark.during_own.mp hk).resolve_left id).1
  · exact Mark.during_own.mpr (.inr ⟨h₁.attends builds, id⟩)

/-- A publication or its revocation changes only what the thread shows. -/
theorem Holding.published {mem : KState}
    (h₁ : Holding i op k hs ks o) (enabled : (KAct.pub a).sem o.mem = some ((), mem))
    (shows : ∀ x, showing.During i x (o.acted i (.pub a) () mem).trace → x.1 = k ∧ x.2 ∈ ks') :
    Holding i op k hs ks' (o.acted i (.pub a) () mem) := by
  cases enabled
  refine ⟨h₁.call, fun x hx => ?_, fun x hx => ?_, h₁.distinct, h₁.records, shows,
    fun k hk => ?_, fun builds => ?_⟩
  · exact h₁.hands x ((Mark.during_own.mp hx).resolve_left id).1
  · exact Mark.during_own.mpr (.inr ⟨h₁.held x hx, by rintro (h | h) <;> exact h⟩)
  · exact h₁.visits k ((Mark.during_own.mp hk).resolve_left id).1
  · exact Mark.during_own.mpr (.inr ⟨h₁.attends builds, id⟩)

/-- Publishing what the thread has in hand. -/
theorem publish_holds (mine : (h, kind) ∈ hs)
    (publishes : ∀ x, publishes (KAct.pub a) x → x = (k, kind))
    (guards : ∀ o : KObs depth, Backed i o k kind → guardPublish i o a)
    (ho : Holding i op k hs ks o) :
    Wp i (pub a) (fun _ => Holding i op k hs (kind :: ks)) o := by
  refine (guarded depth).perform Holding.stable ho (fun o₁ hinv h₁ => guards o₁ ?_)
    fun o₁ _ mem h₁ acts => ?_
  · obtain ⟨r, found, own, kinds⟩ := h₁.records _ mine
    refine ⟨h, r, found, own, kinds, fun j other held => other ?_⟩
    exact ProvisionalResources.Inv.sole hinv j i k k h held (h₁.held _ mine)
  · refine h₁.published acts.enabled fun x hx => ?_
    rcases Mark.during_own.mp hx with new | ⟨before, -⟩
    · cases publishes x new
      exact ⟨rfl, List.mem_cons_self ..⟩
    · exact ⟨(h₁.shows x before).1, List.mem_cons_of_mem _ (h₁.shows x before).2⟩

/-! ### Taking back -/

/-- The kinds that are published. -/
def Publishable (kind : ResourceKind) : Prop :=
  (∃ name, kind = .cap name) ∨ ∃ topic, kind = .sub topic

theorem revokePublication_holds (publishable : Publishable kind)
    (ho : Holding i op k hs (kind :: ks) o) :
    Wp i (revokePublication k kind) (fun _ => Holding i op k hs ks) o := by
  have revoked : ∀ (a : PublishAct Unit),
      (∀ o : KObs depth, guardPublish i o a) → (∀ x, ¬ publishes (KAct.pub a) x) →
      revokes (KAct.pub a) (k, kind) →
      Wp i (pub a) (fun _ => Holding i op k hs ks) o := by
    intro a free silent revokes
    refine (guarded depth).perform Holding.stable ho (fun o₁ _ _ => free o₁)
      fun o₁ _ mem h₁ acts => h₁.published acts.enabled fun x hx => ?_
    obtain ⟨before, kept⟩ := (Mark.during_own.mp hx).resolve_left (silent x)
    obtain ⟨same, listed⟩ := h₁.shows x before
    refine ⟨same, (List.mem_cons.mp listed).resolve_left fun this => kept (.inr ?_)⟩
    rwa [show x = (k, kind) from Prod.ext same this]
  rcases publishable with ⟨name, rfl⟩ | ⟨topic, rfl⟩
  · exact revoked (.revokeCapIfOwned name k) (fun _ => trivial) (fun _ => id) rfl
  · exact revoked (.unsubscribeTopicIfOwned k topic) (fun _ => trivial) (fun _ => id) rfl

theorem inspect_ok (found : t.records h = some r)
    (active : r.state = .active) (publishable : Publishable r.kind) :
    t.inspectRelease h = (.ok (), t) := by
  unfold ResourceTable.inspectRelease
  rcases publishable with ⟨name, same⟩ | ⟨topic, same⟩ <;> simp [found, active, same]

theorem claim_ok (found : t.records h = some r) (active : r.state = .active) :
    t.claimRelease h = (.ok ⟨h, r.kind, r.ownerContext⟩, t.retire h) := by
  simp [ResourceTable.claimRelease, found, active]

/-- An operation that brings the instance up releases what it has in hand. -/
theorem beginRelease_holds (builder : acquires op = false) {x : ResourceHandle × ResourceKind}
    (publishable : Publishable x.2) (ho : Holding i op k (x :: hs) ks o) :
    Wp i (beginRelease x.1) (fun claim o =>
      (∃ c, claim = .ok c ∧ c.kind = x.2) ∧ Holding i op k hs ks o) o := by
  refine wp_seq (R := fun verdict o => verdict = .ok () ∧ Holding i op k (x :: hs) ks o)
    ((guarded depth).perform Holding.stable ho (fun _ _ _ => trivial) fun o₁ verdict mem h₁ acts =>
      ?_)
    fun verdict o₁ h₁ => ?_
  · obtain ⟨r, found, kinds, active⟩ := h₁.active builder acts.inv (List.mem_cons_self ..)
    have enabled : (KAct.res (.inspectRelease x.1)).sem o₁.mem = some (verdict, mem) := acts.enabled
    cases enabled
    have reply := inspect_ok found active (kinds ▸ publishable)
    refine ⟨by rw [ResourceAct.run, reply], ?_⟩
    refine h₁.acted (fun _ => id) (fun _ => id) (fun _ => id) ⟨id, fun _ => id⟩ (fun _ => id) ?_
    exact inspect_records _ _
  obtain ⟨rfl, h₁⟩ := h₁
  refine (guarded depth).perform Holding.stable h₁ (fun _ _ _ => trivial)
    fun o₂ claim mem h₂ acts => ?_
  obtain ⟨r, found, kinds, active⟩ := h₂.active builder acts.inv (List.mem_cons_self ..)
  have enabled : (KAct.res (.claimRelease x.1)).sem o₂.mem = some (claim, mem) := acts.enabled
  cases enabled
  have reply := claim_ok found active
  have apart : ∀ y ∈ hs, y.1 ≠ x.1 := fun y hy same =>
    (List.nodup_cons.mp h₂.distinct).1 (same ▸ List.mem_map_of_mem hy)
  refine ⟨⟨_, by rw [ResourceAct.run, reply], kinds⟩, h₂.call, fun y hy => ?_, fun y hy => ?_,
    (List.nodup_cons.mp h₂.distinct).2, fun y hy => ?_, fun y hy => ?_, fun k hk => ?_,
    fun builds => ?_⟩
  · obtain ⟨before, kept⟩ := (Mark.during_own.mp hy).resolve_left id
    obtain ⟨same, listed⟩ := h₂.hands y before
    exact ⟨same, (List.mem_cons.mp listed).resolve_left fun here => kept (.inr here.symm)⟩
  · refine Mark.during_own.mpr (.inr ⟨h₂.held y (List.mem_cons_of_mem _ hy), ?_⟩)
    rintro (h | h)
    · exact h
    · exact apart y hy (Eq.symm h)
  · obtain ⟨r', found', rest⟩ := h₂.records y (List.mem_cons_of_mem _ hy)
    refine ⟨r', ?_, rest⟩
    rw [Obs.acted_mem]
    change (o₂.mem.resources.claimRelease x.1).2.records y.1 = some r'
    rw [reply]
    exact (update_of_ne (apart y hy) _ _).trans found'
  · exact h₂.shows y ((Mark.during_own.mp hy).resolve_left id).1
  · exact h₂.visits k ((Mark.during_own.mp hk).resolve_left id).1
  · exact Mark.during_own.mpr (.inr ⟨h₂.attends builds, id⟩)

theorem rollbackAcquired_rest (builder : acquires op = false)
    (publishable : ∀ x ∈ hs, Publishable x.2) (ho : Holding i op k hs (hs.map Prod.snd) o) :
    Wp i (rollbackAcquired k (hs.map Prod.fst)) (fun _ => Rest i op) o := by
  have loop : ∀ (xs : List (ResourceHandle × ResourceKind)), (∀ x ∈ xs, Publishable x.2) →
      ∀ o : KObs depth, Holding i op k xs (xs.map Prod.snd) o →
      Wp i (rollbackAcquired k (xs.map Prod.fst).reverse)
        (fun _ => Rest i op) o := by
    intro xs
    simp only [rollbackAcquired, List.reverse_reverse]
    induction xs with
    | nil => exact fun _ o ho => ho.rest
    | cons x xs ih =>
      intro publishable o ho
      have here := publishable x (List.mem_cons_self ..)
      refine wp_seq (wp_seq (beginRelease_holds builder here ho) fun claim o₁ h₁ => ?_)
        fun _ => ih fun y hy => publishable y (List.mem_cons_of_mem _ hy)
      obtain ⟨⟨c, rfl, kinds⟩, h₁⟩ := h₁
      dsimp only
      rw [kinds]
      exact revokePublication_holds here h₁
  have rolls := loop hs.reverse (fun x hx => publishable x (List.mem_reverse.mp hx)) o ho.reverse
  rwa [List.map_reverse, List.reverse_reverse] at rolls

/-! ### The resources of a definition -/

theorem register_publishable {owner : Owner} (own : owner.context = k) {kind : ResourceKind}
    (publishable : Publishable kind) (ho : Holding i op k hs ks o) :
    Wp i (register owner kind) (fun r o =>
      (∀ e, r = .error e → Holding i op k hs ks o) ∧
      ∀ h, r = .ok h → Holding i op k (hs ++ [(h, kind)]) ks o) o := by
  unfold register
  cases validateKind kind with
  | error e => exact ⟨fun _ _ => ho, fun _ same => by cases same⟩
  | ok _ =>
    refine wp_seq (insert_holds own kind ho) fun h o₁ h₁ => ?_
    rcases publishable with ⟨name, rfl⟩ | ⟨topic, rfl⟩
    all_goals
      refine ⟨fun _ same => (by cases same), fun h' same => ?_⟩
      cases same
      exact h₁

/-- Everything acquired is in hand, or nothing is. -/
def Outcome (i : Nat) (op : Op) (k : InstanceId) (r : Except String (List ResourceHandle))
    (o : KObs depth) : Prop :=
  match r with
  | .error _ => Rest i op o
  | .ok acquired => ∃ hs : List (ResourceHandle × ResourceKind), acquired = hs.map Prod.fst ∧
    (∀ x ∈ hs, Publishable x.2) ∧ Holding i op k hs (hs.map Prod.snd) o

theorem acquireItems_outcome (builder : acquires op = false)
    (own : cur.context = k) (same : cur.instanceId = k) (manifest : StoredManifest)
    {kind : String → ResourceKind} {publish : String → KProg Unit}
    (publishable : ∀ item, Publishable (kind item))
    (published : ∀ item h hs ks (o : KObs depth), (h, kind item) ∈ hs →
      Holding i op k hs ks o → Wp i (publish item)
        (fun _ => Holding i op k hs (kind item :: ks)) o)
    (items : List String) (all : ∀ x ∈ hs, Publishable x.2)
    (ho : Holding i op k hs (hs.map Prod.snd) o) :
    Wp i (acquireItems cur manifest kind publish items (hs.map Prod.fst))
      (Outcome i op k) o := by
  induction items generalizing hs o with
  | nil => exact ⟨hs, rfl, all, ho⟩
  | cons item items ih =>
    refine wp_seq (register_publishable own (publishable item) ho) fun r o₁ h₁ => ?_
    cases r with
    | error e =>
      rw [same]
      exact wp_seq (rollbackAcquired_rest builder all (h₁.1 e rfl)) fun _ o₂ h₂ => h₂
    | ok h =>
      have mine : (h, kind item) ∈ hs ++ [(h, kind item)] := by simp
      refine wp_seq (published item h _ _ o₁ mine (h₁.2 h rfl)) fun _ o₂ h₂ => ?_
      have next : (∀ x ∈ hs ++ [(h, kind item)], Publishable x.2) →
          Holding i op k (hs ++ [(h, kind item)]) ((hs ++ [(h, kind item)]).map Prod.snd) o₂ →
          Wp i (acquireItems cur manifest kind publish items
            ((hs ++ [(h, kind item)]).map Prod.fst)) (Outcome i op k) o₂ := ih
      simp only [List.map_append] at next
      refine next (fun x hx => ?_) (h₂.widen fun x hx => ?_)
      · rcases List.mem_append.mp hx with old | new
        · exact all x old
        · rw [List.mem_singleton.mp new]
          exact publishable item
      · rw [List.mem_append]
        rcases List.mem_cons.mp hx with rfl | old
        · exact .inr (List.mem_singleton.mpr rfl)
        · exact .inl old

theorem acquireDefinitionResources_outcome (builder : acquires op = false)
    (own : cur.context = k) (same : cur.instanceId = k) (manifest : StoredManifest)
    (ho : Holding i op k [] [] o) :
    Wp i (acquireDefinitionResources cur manifest) (Outcome i op k) o := by
  refine wp_seq (acquireItems_outcome builder own same manifest (fun item => .inl ⟨item, rfl⟩)
    (fun item h hs ks o mine ho => publish_holds mine (fun x hx => ?_) (fun o backed => ?_) ho)
    manifest.caps (fun _ hx => absurd hx List.not_mem_nil) ho) fun caps o₁ h₁ => ?_
  · rw [← same]
    exact hx
  · rw [← same] at backed
    exact backed
  cases caps with
  | error e => exact h₁
  | ok acquired =>
    obtain ⟨hs, rfl, all, h₁⟩ := h₁
    refine acquireItems_outcome builder own same manifest (fun item => .inr ⟨item, rfl⟩)
      (fun item h hs ks o mine ho => publish_holds mine (fun x hx => ?_) (fun o backed => ?_) ho)
      manifest.subs all h₁
    · rw [← same]
      exact hx
    · rw [← same] at backed
      exact backed

/-! ### Bringing an activation up -/

theorem surveying_plain {β : Type} {a : KAct β} (h : surveying β a) :
    idle β a ∧ ¬ turnsAway a k := by
  cases a with
  | ctx a => cases a <;> first | exact h.elim | exact ⟨trivial, id⟩
  | comp => exact ⟨trivial, id⟩
  | _ => exact h.elim

/-- Surveying the system does not look away from the instance. -/
theorem Holding.surveys {p : KProg α} (ho : Holding i op k [] [] o)
    (hp : Composed surveying (fun _ _ => False) p) :
    Wp i p (fun _ => Holding i op k [] []) o := by
  refine wp_composed hp Holding.stable (fun β a ha => ?_) (fun _ _ h => h.elim) ho
  obtain ⟨idle, looks⟩ := surveying_plain (k := k) ha
  refine (guarded depth).keeps (fun o _ h => h.rest.idle_guard idle fun _ _ => id)
    fun o b mem h _ => holding_of_rest (h.rest.idle_acted idle) fun builds => ?_
  exact Mark.during_own.mpr (.inr ⟨h.attends builds, looks⟩)

theorem current_attends (logical : String) (ho : Rest i op o) :
    Wp i (ctx (.current logical)) (fun cur o => Rest i op o ∧
      ∀ r, cur = some r → r.context = r.instanceId ∧ (r.state.awaiting = true →
        attending.During i r.instanceId o.trace)) o := by
  refine (guarded depth).perform Visiting.stable ho (fun _ _ _ => trivial)
    fun o₁ cur mem h₁ acts => ⟨h₁.idle_acted trivial, ?_⟩
  rintro r rfl
  have enabled : (KAct.ctx (.current logical)).sem o₁.mem = some (some r, mem) := acts.enabled
  simp only [KAct.sem, ContextAct.run, Option.some.injEq, Prod.mk.injEq] at enabled
  obtain ⟨inst, -, found⟩ := Option.bind_eq_some_iff.mp enabled.1
  obtain ⟨same, paired, -⟩ := o₁.mem.contexts.issued inst r found
  exact ⟨paired.trans same.symm, fun wait => Mark.during_own.mpr (.inl ⟨rfl, wait⟩)⟩

/-- The composition is written while the hands are full. -/
theorem comp_holds {β : Type} {a : ComposeAct β} (h : ∀ b k, ¬ confirms (KAct.comp a) b k)
    (guards : ∀ o : KObs depth, guard i o (KAct.comp a)) (ho : Holding i op k hs ks o) :
    Wp i (comp a) (fun _ => Holding i op k hs ks) o := by
  refine (guarded depth).perform Holding.stable ho (fun o₁ _ _ => guards o₁)
    fun o₁ b mem h₁ acts => ?_
  have enabled : (KAct.comp a).sem o₁.mem = some (b, mem) := acts.enabled
  cases enabled
  exact h₁.acted (fun _ => id) (fun _ => id) (fun _ => id) ⟨h _ k, fun _ => id⟩ (fun _ => id) rfl

theorem markActive_rest (builder : acquires op = false) (ho : Holding i op k hs ks o) :
    Wp i (ctx (.markActive k)) (fun _ => Rest i op) o :=
  (guarded depth).perform Holding.stable ho (fun _ hinv h => .inl (h.live builder hinv))
    fun _ _ _ h _ => h.confirmed (fun _ => id) (fun _ => id) (fun _ => id) rfl

theorem promoteWaiting_rest (builder : acquires op = false) (logical : String)
    (manifest : StoredManifest) (ho : Rest i op o) :
    Wp i (promoteWaiting logical manifest) (fun _ => Rest i op) o := by
  refine wp_seq (current_attends logical ho) fun cur o₁ h₁ => ?_
  cases cur with
  | none => exact h₁.1
  | some cur =>
    obtain ⟨own, attends⟩ := h₁.2 cur rfl
    dsimp only
    split_ifs with other
    · exact h₁.1
    · have wait : cur.state.awaiting = true := by
        cases state : cur.state <;> simp_all [Fsm.awaiting, Fsm.canonical]
      have waits := holding_of_rest h₁.1 fun _ => attends wait
      refine wp_seq (waits.surveys currentAllMerged_surveys) fun fresh o₂ h₂ => ?_
      refine wp_seq (h₂.surveys (.once)) fun defs o₃ h₃ => ?_
      have ensures : ∀ reason (o : KObs depth), Rest i op o →
          Wp i (ensureWaiting logical defs reason >>= fun _ => pure false)
            (fun _ => Rest i op) o := fun reason o h =>
        rest_composed (.map (ensureWaiting_steers ..).relax) h
      cases resolveFor logical defs fresh with
      | error e => exact ensures _ _ h₃.rest
      | ok bindings =>
        refine wp_seq (acquireDefinitionResources_outcome builder own rfl manifest h₃)
          fun r o₄ h₄ => ?_
        cases r with
        | error e => exact ensures _ _ h₄
        | ok acquired =>
          obtain ⟨hs, rfl, all, h₄⟩ := h₄
          refine wp_seq (comp_holds (fun _ _ => id) (fun _ => trivial) h₄) fun committed o₅ h₅ => ?_
          split_ifs
          · refine wp_seq (markActive_rest builder h₅) fun active o₆ h₆ => ?_
            split_ifs
            · exact rest_composed (.map (announceActive_steers ..).relax) h₆
            · exact h₆
          · exact wp_seq (rollbackAcquired_rest builder all h₅) fun _ o₆ h₆ => h₆

/-- An active instance stays active until it is withdrawn. -/
theorem arrived_lasting (k : InstanceId) :
    (discipline depth).Lasting fun o => Active o.mem.contexts k ∨ Withdrawn o.mem.contexts k where
  guar j o o' := by
    rintro (guar : Guar j o o') (active | gone)
    · exact guar.active k active
    · exact .inr (guar.withdrawn k gone)
  env o event h := by cases event <;> exact h

theorem create_attends (logical : String) (ho : Rest i op o) :
    Wp i (ctx (.create logical .active none)) (fun cur o => Rest i op o ∧
      cur.context = cur.instanceId ∧ attending.During i cur.instanceId o.trace ∧
      Active o.mem.contexts cur.instanceId) o := by
  refine (guarded depth).perform Visiting.stable ho (fun _ _ _ => .inr rfl)
    fun o₁ cur mem h₁ acts => ?_
  have enabled : (KAct.ctx (.create logical .active none)).sem o₁.mem = some (cur, mem) :=
    acts.enabled
  cases enabled
  refine ⟨h₁.idle_acted (.inr rfl), o₁.mem.contexts.paired, Mark.during_own.mpr (.inl rfl),
    .active, ?_, rfl⟩
  exact (o₁.mem.contexts.createIn_stateOf logical .active none _).trans (if_pos rfl)

theorem putPlugin_rest (builder : acquires op = false) (logical : String) {p : Plugin}
    (same : p.instanceId = k) (ho : Holding i op k hs ks o)
    (arrived : Active o.mem.contexts k ∨ Withdrawn o.mem.contexts k) :
    Wp i (comp (.putPlugin logical p)) (fun _ => Rest i op) o := by
  refine (guarded depth).observe Holding.stable (arrived_lasting k) ⟨ho, arrived⟩
    (fun o₁ hinv h₁ arrived => .inl ?_)
    fun o₁ _ _ h _ _ _ _ => h.confirmed (fun _ => id) (fun _ => id) (fun _ => id) same
  rw [same]
  exact arrived.resolve_right (h₁.live builder hinv).not_withdrawn

theorem createActive_rest (builder : acquires op = false)
    (hagain : ∀ o : KObs depth, Rest i op o → Wp i again (fun _ => Rest i op) o)
    (manifest : StoredManifest) (bindings : List Binding) (json : JsonValue.Json)
    (ho : Rest i op o) :
    Wp i (createActive again manifest bindings json) (fun _ => Rest i op) o := by
  refine wp_seq (create_attends manifest.id ho) fun cur o₁ h₁ => ?_
  obtain ⟨rest, own, attends, active⟩ := h₁
  refine wp_seq ((arrived_lasting cur.instanceId).wp (acquireDefinitionResources_outcome builder own
    rfl manifest (holding_of_rest rest fun _ => attends)) (.inl active)) fun r o₂ h₂ => ?_
  cases r with
  | ok acquired =>
    obtain ⟨⟨hs, rfl, all, h₂⟩, arrived⟩ := h₂
    refine wp_seq (putPlugin_rest builder manifest.id rfl h₂ arrived) fun _ o₃ h₃ => ?_
    exact rest_composed (.map (announceActive_steers ..).relax) h₃
  | error e =>
    refine wp_seq (disposeInstanceInner_rest hagain cur.instanceId h₂.1) fun _ o₃ h₃ => ?_
    refine rest_composed (.next fun defs => ?_) h₃
    exact .map (ensureWaiting_steers ..).relax

theorem steers_rest (builder : acquires op = false)
    (hagain : ∀ o : KObs depth, Rest i op o → Wp i again (fun _ => Rest i op) o) {p : KProg α}
    (hp : Steers again p) (ho : Rest i op o) :
    Wp i p (fun _ => Rest i op) o := by
  refine wp_composed hp Visiting.stable (fun β a ha => rest_keeps (KAct.within ha))
    (fun β q hq o ho => ?_) ho
  cases hq with
  | promote logical manifest => exact promoteWaiting_rest builder logical manifest ho
  | launch manifest bindings json =>
      exact createActive_rest builder hagain manifest bindings json ho
  | dispose inst => exact disposeInstanceInner_rest hagain inst ho
  | again => exact hagain o ho

theorem reconcile_rest (builder : acquires op = false) (n : Nat) (o : KObs depth)
    (ho : Rest i op o) : Wp i (reconcile n) (fun _ => Rest i op) o := by
  induction n generalizing o with
  | zero => exact trivial
  | succ n ih => exact steers_rest builder ih (reconcile_succ_steers n) ho

end MatrixRuntime.ProvisionalAcquisitions
