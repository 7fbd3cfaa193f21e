import MatrixRuntime.ContextFrame
import MatrixRuntime.DefinitionGraph
import MatrixRuntime.KernelSequence
import MatrixRuntime.OperationFrame

/-! Where contexts are created. With one operation at a time, a context is created only for a
logical id without a live one: the kernel has just looked at the current one or disposed of it, or
saw none in a snapshot and has created none for that id since. -/

namespace MatrixRuntime.SoleContexts

open KernelContexts DependencyGraph KernelState JsonValue InterleavedProgram KernelActions
open KernelReconcile KernelOperations SequentialRuns.Reading KernelSequence ContextFrame
open ReconcileFrame CallFrame OperationFrame DefinitionGraph Function

/-! ### Live contexts -/

/-- No activation of the logical id is live. -/
def Free (t : ContextTable) (l : String) : Prop :=
  ∀ inst rec, t.byInstance inst = some rec → rec.logical = l → rec.state.live = false

/-- Every live context is the current one of its logical id. -/
def Sole (t : ContextTable) : Prop :=
  ∀ inst rec, t.byInstance inst = some rec → rec.state.live = true →
    t.currentByLogical rec.logical = some inst

/-- Every live context was live before, or belongs to one of these logical ids. -/
def Adds (L : String → Prop) (t t' : ContextTable) : Prop :=
  ∀ inst rec', t'.byInstance inst = some rec' → rec'.state.live = true → L rec'.logical ∨
    ∃ rec, t.byInstance inst = some rec ∧ rec.state.live = true ∧ rec.logical = rec'.logical

variable {t t' t'' : ContextTable} {L L' : String → Prop} {l : String} {inst : InstanceId}
  {cur : ContextRecord} {β : Type} {C : ∀ β : Type, KAct β → Prop}
  {S : ∀ β : Type, KProg β → Prop}

theorem current_found (h : t.current l = some cur) : t.byInstance cur.instanceId = some cur := by
  obtain ⟨inst, -, found⟩ := Option.bind_eq_some_iff.mp h
  rwa [(t.issued inst cur found).1]

theorem free_of_current (sole : Sole t)
    (idle : ∀ cur, t.current l = some cur → cur.state.live = false) : Free t l := by
  rintro inst rec found rfl
  by_contra live
  have listed := sole inst rec found (by simpa using live)
  exact live (idle rec (by simp [ContextTable.current, listed, found]))

theorem Adds.refl : Adds L t t := fun _ rec found live => .inr ⟨rec, found, live, rfl⟩

theorem Adds.trans (h : Adds L t t') (h' : Adds L t' t'') : Adds L t t'' := by
  intro inst rec found live
  rcases h' inst rec found live with own | ⟨rec', found', live', same⟩
  · exact .inl own
  · exact same ▸ h inst rec' found' live'

theorem Adds.mono (h : Adds L t t') (wider : ∀ l, L l → L' l) : Adds L' t t' :=
  fun inst rec found live => (h inst rec found live).imp_left (wider _)

theorem Adds.free (h : Adds L t t') (other : ¬ L l) (free : Free t l) : Free t' l := by
  intro inst rec found named
  by_contra live
  rcases h inst rec found (by simpa using live) with own | ⟨rec', found', live', same⟩
  · exact other (named ▸ own)
  · rw [free inst rec' found' (same.trans named)] at live'
    cases live'

/-- Once its current activation is withdrawn, the logical id is free. -/
theorem Adds.free_of_withdrawn (h : Adds (fun _ => False) t t') (sole : Sole t)
    (current : t.current l = some cur) (gone : Withdrawn t' cur.instanceId) : Free t' l := by
  rintro inst rec found rfl
  by_contra live
  rcases h inst rec found (by simpa using live) with own | ⟨rec', found', live', same⟩
  · exact own
  have listed := sole inst rec' found' live'
  rw [same] at listed
  rw [ContextTable.current, listed, Option.bind_some, found'] at current
  cases current
  obtain ⟨state, there, dead⟩ := gone
  rw [(t.issued inst _ found').1, ContextTable.stateOf_of_byInstance found] at there
  cases there
  exact live dead

/-- The table is the same, or a context changed its state without coming back to life. -/
def Moved (t t' : ContextTable) : Prop :=
  t' = t ∨ ∃ inst state cause, t' = t.revise inst state cause ∧
    (state.live = true → ∀ rec, t.byInstance inst = some rec → rec.state.live = true)

theorem Moved.adds (h : Moved t t') : Adds L t t' := by
  rcases h with rfl | ⟨inst, state, cause, rfl, alive⟩
  · exact .refl
  intro i rec found live
  rw [ContextTable.revise_byInstance] at found
  split at found
  next own =>
    obtain ⟨old, there, rfl⟩ := Option.map_eq_some_iff.mp found
    exact .inr ⟨old, own ▸ there, alive live old there, rfl⟩
  next => exact .inr ⟨rec, found, live, rfl⟩

theorem Moved.sole (h : Moved t t') (sole : Sole t) : Sole t' := by
  have same : t'.currentByLogical = t.currentByLogical := by
    rcases h with rfl | ⟨inst, state, cause, rfl, -⟩ <;> rfl
  intro inst rec found live
  rcases h.adds (L := fun _ => False) inst rec found live with none | ⟨old, found', live', named⟩
  · exact none.elim
  · rw [same, ← named]
    exact sole inst old found' live'

theorem moved_dead (inst : InstanceId) {state : Fsm} (cause : Option String)
    (dead : state.live = false) : Moved t (t.revise inst state cause) :=
  .inr ⟨inst, state, cause, rfl, fun live => by rw [dead] at live; cases live⟩

theorem moved_awaiting {state state' : Fsm} (cause : Option String)
    (found : t.stateOf inst = some state) (waiting : state.awaiting = true) :
    Moved t (t.revise inst state' cause) := by
  refine .inr ⟨inst, state', cause, rfl, fun _ rec there => ?_⟩
  rw [ContextTable.stateOf_of_byInstance there] at found
  cases found
  exact Fsm.live_of_awaiting waiting

def creating : ContextAct β → Bool
  | .create _ _ _ => true
  | _ => false

theorem moved_run {a : ContextAct β} (h : creating a = false) (t : ContextTable) :
    Moved t (a.run t).2 := by
  cases a with
  | epoch | get | current | currentAll | requireActive => exact .inl rfl
  | create => cases h
  | claimDispose k =>
    rcases t.claimDispose_cases k with ⟨kept, -⟩ | ⟨rec, -, -, claimed⟩
    · exact .inl kept
    · rw [ContextAct.run, claimed]
      exact moved_dead k none rfl
  | markDisposed k => exact moved_dead k none rfl
  | markCleanupPending writer k cause => exact moved_dead k _ rfl
  | markFailed k cause => exact moved_dead k _ rfl
  | markActive k =>
    rcases t.markActive_cases k with kept | ⟨state, found, waiting, marked⟩
    · exact .inl kept
    · rw [ContextAct.run, marked]
      exact moved_awaiting _ found waiting
  | markWaiting k cause =>
    rcases t.markWaiting_cases k cause with kept | ⟨state, found, waiting, marked⟩
    · exact .inl kept
    · rw [ContextAct.run, marked]
      exact moved_awaiting _ found waiting

theorem adds_createIn (own : L l) (state : Fsm) (cause : Option String) :
    Adds L t (t.createIn l state cause).2 := by
  intro i rec found live
  by_cases new : i = t.nextInstance
  · subst new
    simp only [ContextTable.createIn, update_self] at found
    cases found
    exact .inl own
  · simp only [ContextTable.createIn, update_of_ne new] at found
    exact .inr ⟨rec, found, live, rfl⟩

theorem Sole.createIn (h : Sole t) (free : Free t l) (state : Fsm) (cause : Option String) :
    Sole (t.createIn l state cause).2 := by
  intro i rec found live
  by_cases new : i = t.nextInstance
  · subst new
    simp only [ContextTable.createIn, update_self] at found ⊢
    cases found
    exact update_self ..
  · simp only [ContextTable.createIn, update_of_ne new] at found ⊢
    have other : rec.logical ≠ l := fun same => by
      rw [free i rec found same] at live
      cases live
    rw [update_of_ne other]
    exact h i rec found live

/-! ### Definitions and registrations -/

/-- Every definition is listed under its own id. -/
def Named (defs : Definitions) : Prop :=
    ∀ l manifest, defs.lookup l = some manifest → manifest.id = l

theorem issueAll_tables (c : Composition) (defs : Definitions) (bindings : List Binding) :
    (c.issueAll defs cur bindings).definitions = c.definitions ∧
      (c.issueAll defs cur bindings).remotes = c.remotes := by
  have issued : ∀ c' : Composition, (bindings.foldl (Composition.issue defs cur) c').definitions =
      c'.definitions ∧ (bindings.foldl (Composition.issue defs cur) c').remotes = c'.remotes := by
    induction bindings with
    | nil => exact fun _ => ⟨rfl, rfl⟩
    | cons b bindings ih =>
      intro c'
      obtain ⟨definitions, remotes⟩ := ih (Composition.issue defs cur c' b)
      rw [List.foldl_cons, definitions, remotes, Composition.issue]
      cases Composition.boundCap defs b <;> exact ⟨rfl, rfl⟩
  exact issued _

theorem Named.run {c : Composition} (h : Named c.definitions) (a : ComposeAct β) :
    Named (a.run c).2.definitions := by
  cases a with
  | putDefinition manifest =>
    intro l m found
    by_cases same : l = manifest.id
    · subst same
      rw [ComposeAct.run, AList.lookup_insert] at found
      cases found
      rfl
    · rw [ComposeAct.run, AList.lookup_insert_ne same] at found
      exact h l m found
  | removeDefinition logical =>
    intro l m found
    by_cases same : l = logical
    · rw [ComposeAct.run, same, AList.lookup_erase] at found
      cases found
    · rw [ComposeAct.run, AList.lookup_erase_ne same] at found
      exact h l m found
  | syncWaiting | promotePlugin =>
    simp only [ComposeAct.run, Composition.syncWaiting, Composition.promote]
    repeat' split
    all_goals exact h
  | issueBindings defs cur bindings =>
    rw [ComposeAct.run, (issueAll_tables ..).1]
    exact h
  | _ => exact h

def registering : ComposeAct β → Bool
  | .putRemote _ _ => true
  | _ => false

theorem remotes_run {a : ComposeAct β} (h : registering a = false) (c : Composition) :
    (a.run c).2.remotes.keys ⊆ c.remotes.keys := by
  cases a with
  | putRemote => cases h
  | removeRemote logical =>
    rw [ComposeAct.run, AList.keys_erase]
    exact List.erase_subset
  | syncWaiting | promotePlugin =>
    simp only [ComposeAct.run, Composition.syncWaiting, Composition.promote]
    repeat' split
    all_goals exact List.Subset.refl _
  | issueBindings defs cur bindings =>
    rw [ComposeAct.run, (issueAll_tables ..).2]
    exact List.Subset.refl _
  | _ => exact List.Subset.refl _

/-! ### Steps -/

/-- Where contexts are created for free logical ids only, live ones stay current. -/
def whereFree : Rules := ⟨fun l s => Free s.contexts l, fun _ _ => True, fun _ _ => True⟩

structure Neat (s : KState) : Prop where
  sole : Sole s.contexts
  named : Named s.composition.definitions

/-- Live contexts were added for these logical ids only, and no remote provider was registered. -/
structure Went (L : String → Prop) (s s' : KState) : Prop where
  neat : Neat s'
  adds : Adds L s.contexts s'.contexts
  remotes : s'.composition.remotes.keys ⊆ s.composition.remotes.keys

variable {α γ : Type} {s s' s'' : KState} {depth : Nat} {a : KAct β} {b : β}

theorem Went.refl (neat : Neat s) : Went L s s := ⟨neat, .refl, List.Subset.refl _⟩

theorem Went.trans (h : Went L s s') (h' : Went L s' s'') : Went L s s'' :=
  ⟨h'.neat, h.adds.trans h'.adds, fun _ there => h.remotes (h'.remotes there)⟩

theorem Went.mono (h : Went L s s') (wider : ∀ l, L l → L' l) : Went L' s s' :=
  ⟨h.neat, h.adds.mono wider, h.remotes⟩

/-- Actions that neither create a context nor register a remote provider. -/
abbrev modest (β : Type) : KAct β → Prop
  | .ctx a => creating a = false
  | .comp a => registering a = false
  | _ => True

theorem may_elsewhere (acts : may a s b s') (ctx : ∀ a', a ≠ .ctx a') (comp : ∀ a', a ≠ .comp a') :
    s'.contexts = s.contexts ∧ s'.composition = s.composition := by
  unfold KernelSequence.may at acts
  split at acts
  · subst acts
    exact ⟨rfl, rfl⟩
  · cases a with
    | ctx a => exact absurd rfl (ctx a)
    | comp a => exact absurd rfl (comp a)
    | calls | res | pub =>
      cases acts
      exact ⟨rfl, rfl⟩
    | _ =>
      have same := KAct.sem_sameTables acts rfl
      exact ⟨same.contexts, same.composition⟩

theorem allowed_of_modest (h : modest β a) (s : KState) : whereFree.allow a s := by
  cases a with
  | ctx a => cases a <;> first | exact trivial | cases h
  | calls a => cases a <;> exact trivial
  | _ => exact trivial

theorem neat_step (allowed : whereFree.allow a s) (acts : may a s b s') (neat : Neat s) :
    Neat s' := by
  cases a with
  | ctx a =>
    cases acts
    refine ⟨?_, neat.named⟩
    by_cases makes : creating a = true
    · cases a with
      | create l state cause => exact neat.sole.createIn allowed state cause
      | _ => cases makes
    · exact (moved_run (by simpa using makes) _).sole neat.sole
  | comp a =>
    cases acts
    exact ⟨neat.sole, neat.named.run a⟩
  | _ =>
    obtain ⟨contexts, composition⟩ := may_elsewhere acts (by simp) (by simp)
    exact ⟨contexts ▸ neat.sole, composition ▸ neat.named⟩

theorem went_step (h : modest β a) (acts : may a s b s') (neat : Neat s) : Went L s s' := by
  refine ⟨neat_step (allowed_of_modest h s) acts neat, ?_, ?_⟩
  · cases a with
    | ctx a =>
      cases acts
      exact (moved_run h _).adds
    | comp a =>
      cases acts
      exact .refl
    | _ => exact (may_elsewhere acts (by simp) (by simp)).1 ▸ .refl
  · cases a with
    | ctx a =>
      cases acts
      exact List.Subset.refl _
    | comp a =>
      cases acts
      exact remotes_run h _
    | _ => exact (may_elsewhere acts (by simp) (by simp)).2 ▸ List.Subset.refl _

theorem withdrawn_step (acts : may a s b s') (h : Withdrawn s.contexts inst) :
    Withdrawn s'.contexts inst := by
  cases a with
  | ctx a =>
    cases acts
    exact h.run a
  | comp a =>
    cases acts
    exact h
  | _ => exact (may_elsewhere acts (by simp) (by simp)).1 ▸ h

/-- The program creates contexts where it may, and adds live ones for these logical ids only. -/
abbrev Goes (depth : Nat) (L : String → Prop) (s : KState) (p : KProg α) : Prop :=
  (reading depth whereFree).After p (fun _ => Went L s) s

variable {p : KProg α} {f : α → KProg γ}

theorem Goes.bind (hp : Goes depth L s p)
    (hf : ∀ value s', Went L s s' → Goes depth L s' (f value)) :
    Goes depth L s (p.bind f) :=
  After.bind hp fun value s' went => (hf value s' went).mono fun _ _ => went.trans

theorem goes_of_modest (h : Composed C S p) (acts : ∀ β a, C β a → modest β a)
    (wholes : ∀ β q, S β q → ∀ s, Neat s → Goes depth L s q) (neat : Neat s) :
    Goes depth L s p := by
  refine Keeps.composed (P := Went L s) h
    (fun β a known s _ => allowed_of_modest (acts β a known) s)
    ?_ ?_ s (.refl neat)
  · exact fun β a known s₁ _ s₂ went step => went.trans (went_step (acts β a known) step went.neat)
  · exact fun β q known s₁ went => (wholes β q known s₁ went.neat).mono fun _ _ => went.trans

theorem goes_of_class (h : Composed C (fun _ _ => False) p) (acts : ∀ β a, C β a → modest β a)
    (neat : Neat s) : Goes depth L s p :=
  goes_of_modest h acts (fun _ _ none => none.elim) neat

theorem goes_act (h : modest β a) (neat : Neat s) : Goes depth L s (perform a) :=
  goes_of_class (C := modest) (.perform h) (fun _ _ => id) neat

instance : Included inspecting modest where

theorem goes_of_inspects (h : Inspects p) (neat : Neat s) : Goes depth L s p := by
  exact goes_of_class h (fun _ _ => KAct.within) neat

instance : Included finalizing modest where

theorem goes_of_finalizes (h : Finalizes .blocked p) (neat : Neat s) : Goes depth L s p := by
  refine goes_of_modest h (fun _ _ => KAct.within) (fun β q hq s _ => ?_) neat
  cases hq
  exact trivial

theorem goes_current {f : Option ContextRecord → KProg γ}
    (h : Goes depth L s (f (s.contexts.current l))) :
    Goes depth L s ((ctx (.current l)).bind f) :=
  After.bind (Q := fun cur s' => cur = s.contexts.current l ∧ s' = s)
    ((after_ctx _).mpr ⟨trivial, rfl, rfl⟩) (by rintro _ _ ⟨rfl, rfl⟩; exact h)

theorem goes_definitions {f : Definitions → KProg γ}
    (h : Goes depth L s (f s.composition.definitions)) :
    Goes depth L s ((comp .definitions).bind f) :=
  After.bind (Q := fun defs s' => defs = s.composition.definitions ∧ s' = s)
    ((after_comp _).mpr ⟨rfl, rfl⟩) (by rintro _ _ ⟨rfl, rfl⟩; exact h)

/-! ### Waiting and disposal -/

variable {again : KProg Unit} {defs : Definitions} {manifest : StoredManifest} {reason : String}
  {states : States}

theorem goes_create (neat : Neat s) (free : Free s.contexts l) (own : L l) (state : Fsm)
    (cause : Option String) : Goes depth L s (ctx (.create l state cause)) :=
  (after_ctx _).mpr ⟨free, ⟨neat.sole.createIn free state cause, neat.named⟩,
    adds_createIn own state cause, List.Subset.refl _⟩

theorem createWaitingInstance_goes (neat : Neat s) (free : Free s.contexts manifest.id)
    (own : L manifest.id) : Goes depth L s (createWaitingInstance manifest reason) :=
  (goes_create neat free own _ _).bind fun _ _ went => goes_of_class (C := modest)
    (.step rfl fun _ => .map .once) (fun _ _ => id) went.neat

theorem renewWaiting_goes (neat : Neat s) : Goes depth L s (renewWaiting l manifest cur reason) :=
  goes_of_class (C := modest) (.ite (.step rfl fun _ => .ite (.map (.perform rfl)) (.pure _))
    (.step rfl fun _ => .step rfl fun _ => .map .once)) (fun _ _ => id) neat

theorem ensureWaiting_goes (neat : Neat s) (named : Named defs) (own : L l) :
    Goes depth L s (ensureWaiting l defs reason) := by
  unfold ensureWaiting
  cases known : defs.lookup l with
  | none => exact .refl neat
  | some manifest =>
    obtain rfl := named l manifest known
    have waits : (∀ cur, s.contexts.current manifest.id = some cur → cur.state.live = false) →
        Goes depth L s ((createWaitingInstance manifest reason).bind fun _ => .pure true) :=
      fun idle => (createWaitingInstance_goes neat (free_of_current neat.sole idle) own).bind
        fun _ _ went => .refl went.neat
    refine goes_current ?_
    cases current : s.contexts.current manifest.id with
    | none => exact waits (by simp [current])
    | some cur =>
      dsimp only
      split
      · exact renewWaiting_goes neat
      · exact renewWaiting_goes neat
      · exact renewWaiting_goes neat
      next disposed =>
        refine waits fun cur' found => ?_
        cases current.symm.trans found
        simp [Fsm.live, disposed]
      · exact .refl neat

/-- No ticket is closed while a disposal parks, so it does not finalize what it parked. -/
theorem park_goes (neat : Neat s) (waits : 0 < s.calls.pendingCount cur.instanceId) :
    Goes depth L s (park again cur) := by
  have parks : Went L s { s with
      contexts := s.contexts.markCleanupPending cur.instanceId
        (inflightCause (s.calls.pendingFor cur.instanceId))
      composition := s.composition.mark cur.logical cur.instanceId .cleanupPending
      journal := s.journal ++ [⟨cur.logical, .pluginCleanupPending, cur.instanceId,
        inflightCause (s.calls.pendingFor cur.instanceId)⟩] } :=
    have moved : Moved s.contexts (s.contexts.markCleanupPending cur.instanceId
        (inflightCause (s.calls.pendingFor cur.instanceId))) := moved_dead cur.instanceId _ rfl
    ⟨⟨moved.sole neat.sole, neat.named⟩, moved.adds, List.Subset.refl _⟩
  simp only [Goes, park, Prog.bind_eq, after_bind, after_calls, after_ctx, after_comp,
    after_journal,
    TicketAct.run, ContextAct.run, ComposeAct.run, Rules.calls, Rules.ctx, true_and]
  refine After.neg (Nat.ne_of_gt waits) ?_
  exact After.mono (goes_of_finalizes (parkOutcome_finalizes ..) parks.neat) fun _ _ => parks.trans

instance : Included withdrawing modest where

theorem disposeInstanceInner_goes (inst : InstanceId) (neat : Neat s) :
    (reading depth whereFree).After (disposeInstanceInner again inst) (fun _ s' => Went L s s' ∧
      (s.contexts.stateOf inst ≠ none → Withdrawn s'.contexts inst)) s := by
  refine After.bind (Q := fun rec s' => rec = s.contexts.byInstance inst ∧ s = s')
    ((after_ctx _).mpr ⟨trivial, rfl, rfl⟩) ?_
  rintro _ _ ⟨rfl, rfl⟩
  cases found : s.contexts.byInstance inst with
  | none =>
    exact ⟨.refl neat, fun known => absurd (by simp [ContextTable.stateOf, found]) known⟩
  | some rec =>
    have state := ContextTable.stateOf_of_byInstance found
    dsimp only
    split
    next ended => exact ⟨.refl neat, fun _ => ⟨_, state, by simp [Fsm.live, ended]⟩⟩
    next ended => exact ⟨.refl neat, fun _ => ⟨_, state, by simp [Fsm.live, ended]⟩⟩
    next ended => exact ⟨.refl neat, fun _ => ⟨_, state, by simp [Fsm.live, ended]⟩⟩
    · have went : Went L s { s with contexts := (s.contexts.claimDispose inst).2 } :=
        went_step (a := .ctx (.claimDispose inst)) rfl rfl neat
      have gone : Withdrawn (s.contexts.claimDispose inst).2 inst :=
        claimDispose_withdraws (by simp [state])
      simp only [Prog.bind_eq, after_bind, after_ctx, ContextAct.run]
      refine ⟨trivial, ?_⟩
      -- the claim withdrew the instance, and it stays withdrawn
      suffices rest : Goes depth L { s with contexts := (s.contexts.claimDispose inst).2 } _ from
        (After.held rest gone fun _ => withdrawn_step).mono fun _ _ h =>
          ⟨went.trans h.1, fun _ => h.2⟩
      split
      next rec claimed =>
        obtain ⟨own, -⟩ := claimDispose_fresh claimed
        refine Goes.bind (goes_of_class (quiesce_withdraws rec) (fun _ _ => KAct.within)
          went.neat) ?_
        intro _ s₁ went₁
        refine After.bind (Q := fun live s' => live = s₁.calls.pendingCount inst ∧ s₁ = s')
          ((after_calls _).mpr ⟨trivial, rfl, rfl⟩) ?_
        rintro _ _ ⟨rfl, rfl⟩
        exact .ite (fun waits => park_goes went₁.neat (own ▸ waits))
          fun _ => goes_of_finalizes (settleDispose_finalizes rec) went₁.neat
      · exact .refl went.neat
      · exact .refl went.neat

theorem withdrawToWaiting_goes (neat : Neat s) (named : Named defs) (own : L l) :
    Goes depth L s (withdrawToWaiting again l defs reason) := by
  unfold withdrawToWaiting
  cases known : defs.lookup l with
  | none => exact .refl neat
  | some manifest =>
    obtain rfl := named l manifest known
    have waits : ∀ {s}, Neat s → Free s.contexts manifest.id →
        Goes depth L s ((createWaitingInstance manifest reason).bind fun _ => .pure true) :=
      fun neat free => (createWaitingInstance_goes neat free own).bind
        fun _ _ went => .refl went.neat
    refine goes_current ?_
    cases current : s.contexts.current manifest.id with
    | none => exact waits neat (free_of_current neat.sole (by simp [current]))
    | some cur =>
      have replaces : Goes depth L s ((disposeInstanceInner again cur.instanceId).bind fun _ =>
          (createWaitingInstance manifest reason).bind fun _ => .pure true) := by
        refine After.bind (disposeInstanceInner_goes (L := fun _ => False) _ neat) ?_
        rintro _ s₁ ⟨went, gone⟩
        have there := ContextTable.stateOf_of_byInstance (current_found current)
        refine After.mono (waits went.neat (went.adds.free_of_withdrawn neat.sole current
          (gone (by simp [there])))) fun _ _ => (went.mono fun _ => False.elim).trans
      dsimp only
      split
      · exact replaces
      · exact replaces
      · exact replaces
      · exact ensureWaiting_goes neat named own
      next disposed =>
        refine waits neat (free_of_current neat.sole fun cur' found => ?_)
        cases current.symm.trans found
        simp [Fsm.live, disposed]
      · exact .refl neat

/-! ### The reconciler -/

theorem parkMember_goes (neat : Neat s) (named : Named defs) (own : L l) :
    Goes depth L s (parkMember again defs reason l) := by
  refine goes_current ?_
  split <;> first
    | exact withdrawToWaiting_goes neat named own
    | exact ensureWaiting_goes neat named own
    | exact .refl neat

theorem parkCycle_goes (ms : List String) (changed : Bool) (neat : Neat s) (named : Named defs) :
    Goes depth (fun _ => True) s (parkCycle again defs reason ms changed) := by
  induction ms generalizing s changed with
  | nil => exact .refl neat
  | cons m ms ih =>
    refine .ite (fun _ => ih _ neat) fun _ => Goes.bind (parkMember_goes neat named trivial) ?_
    exact fun _ _ went => ih _ went.neat

theorem bindingsStale_goes (neat : Neat s) : Goes depth L s (bindingsStale l states) :=
  goes_of_inspects (bindingsStale_inspects l states) neat

theorem withdrawPass_goes (ls : List String) (withdrew : Bool) (neat : Neat s)
    (named : Named defs) :
    Goes depth (fun _ => True) s (withdrawPass again defs states ls withdrew) := by
  induction ls generalizing s withdrew with
  | nil => exact .refl neat
  | cons l ls ih =>
    refine .ite (fun _ => Goes.bind (Goes.bind (bindingsStale_goes neat) fun stale s₁ went => ?_)
      fun _ _ went => ih _ went.neat) fun _ => ih _ neat
    cases resolveFor l defs states with
    | error e => exact withdrawToWaiting_goes went.neat named trivial
    | ok bindings =>
      exact .ite (fun _ => withdrawToWaiting_goes went.neat named trivial) fun _ => .refl went.neat

instance : Included releasing modest where

instance : Included equipping modest where

theorem goes_of_equips (h : Equips p) (neat : Neat s) : Goes depth L s p := by
  refine goes_of_modest h (fun _ _ => KAct.within) (fun β q hq s neat => ?_) neat
  cases hq with
  | release handle =>
    exact goes_of_class (beginRelease_releases handle) (fun _ _ => KAct.within) neat

instance : Included announcing modest where

theorem announceActive_goes (bindings : List Binding) (neat : Neat s) :
    Goes depth L s (announceActive l cur bindings) := by
  exact goes_of_class (announceActive_announces l cur bindings) (fun _ _ => KAct.within) neat

theorem promoteWaiting_goes (neat : Neat s) (own : L l) :
    Goes depth L s (promoteWaiting l manifest) := by
  refine goes_current ?_
  cases s.contexts.current l with
  | none => exact .refl neat
  | some cur =>
    refine .ite (fun _ => .refl neat) fun _ =>
      Goes.bind (goes_of_inspects currentAllMerged_inspects neat) fun fresh s₁ went => ?_
    refine goes_definitions ?_
    have waits : ∀ {s₂} (reason : String), Went L s₁ s₂ → Goes depth L s₂
        ((ensureWaiting l s₁.composition.definitions reason).bind fun _ => .pure false) :=
      fun _ went₂ => Goes.bind (ensureWaiting_goes went₂.neat went.neat.named own)
        fun _ _ went => .refl went.neat
    cases resolveFor l s₁.composition.definitions fresh with
    | error e => exact waits _ (.refl went.neat)
    | ok bindings =>
      refine Goes.bind (goes_of_equips (acquireDefinitionResources_equips ..) went.neat)
        fun acquired s₂ went₂ => ?_
      cases acquired with
      | error e => exact waits _ went₂
      | ok acquired =>
        refine Goes.bind (goes_act rfl went₂.neat) fun committed s₃ went₃ => .ite (fun _ => ?_)
          fun _ => Goes.bind (goes_of_equips (rollbackAcquired_equips ..) went₃.neat)
            fun _ _ went₄ => .refl went₄.neat
        refine Goes.bind (goes_act rfl went₃.neat) fun active s₄ went₄ => .ite (fun _ => ?_)
          fun _ => .refl went₄.neat
        exact Goes.bind (announceActive_goes bindings went₄.neat) fun _ _ went₅ => .refl went₅.neat

theorem createActive_goes (bindings : List Binding) (json : Json) (neat : Neat s)
    (free : Free s.contexts manifest.id) (own : L manifest.id) :
    Goes depth L s (createActive again manifest bindings json) := by
  refine Goes.bind (goes_create neat free own _ _) fun cur s₁ went₁ =>
    Goes.bind (goes_of_equips (acquireDefinitionResources_equips ..) went₁.neat)
      fun acquired s₂ went₂ => ?_
  cases acquired with
  | ok acquired =>
    refine Goes.bind (goes_act rfl went₂.neat) fun _ _ went₃ =>
      Goes.bind (announceActive_goes bindings went₃.neat)
      fun _ _ went₄ => .refl went₄.neat
  | error e =>
    refine Goes.bind ((disposeInstanceInner_goes _ went₂.neat).mono fun _ _ h => h.1) ?_
    exact fun _ _ went₃ => goes_definitions (Goes.bind
      (ensureWaiting_goes went₃.neat went₃.neat.named own) fun _ _ went₄ => .refl went₄.neat)

/-- A local definition without a live context in the snapshot has none in the table. -/
def Unseen (defs : Definitions) (states : States) (t : ContextTable) (l : String) : Prop :=
  ∀ manifest, defs.lookup l = some manifest → manifest.remote = false →
    (∀ rec, states l = some rec → rec.state.live = false) → Free t l

theorem activate_goes (neat : Neat s) (named : Named defs)
    (known : defs.lookup l = some manifest) (here : manifest.remote = false)
    (unseen : Unseen defs states s.contexts l) :
    Goes depth (· = l) s (activate again defs states l manifest) := by
  unfold activate
  split
  · refine Goes.bind (bindingsStale_goes neat) fun stale s₁ went => ?_
    exact .ite (fun _ => withdrawToWaiting_goes went.neat named rfl) fun _ => .refl went.neat
  · exact .refl neat
  · exact .refl neat
  · exact .refl neat
  next active failed pending quiescing =>
    cases resolveFor l defs states with
    | error e => exact ensureWaiting_goes neat named rfl
    | ok bindings =>
      refine .ite (fun _ => promoteWaiting_goes neat rfl) fun idle => ?_
      have free : Free s.contexts l := by
        refine unseen manifest known here fun rec seen => ?_
        rw [seen] at active failed pending quiescing idle
        cases state : rec.state <;>
          simp_all [canonicalState, Fsm.canonical, Fsm.live]
      obtain rfl := named l manifest known
      have keeps : Inspects (preservedJsonState manifest.id manifest) :=
        .next fun p => by cases p <;> exact .pure _
      refine After.bind (goes_of_inspects (L := fun _ => False) keeps neat) fun json s₁ went => ?_
      exact (createActive_goes (L := (· = manifest.id)) bindings json went.neat
        (went.adds.free id free) rfl).mono fun _ _ => (went.mono fun _ => False.elim).trans

theorem activationPass_goes (ls : List String) (distinct : ls.Nodup) (neat : Neat s)
    (named : Named defs) (unseen : ∀ l ∈ ls, Unseen defs states s.contexts l) :
    Goes depth (fun _ => True) s (activationPass again defs states ls) := by
  induction ls generalizing s with
  | nil => exact .refl neat
  | cons l ls ih =>
    obtain ⟨fresh, distinct⟩ := List.nodup_cons.mp distinct
    have later : ∀ {s'}, Went (· = l) s s' → Goes depth (fun _ => True) s'
        (activationPass again defs states ls) := by
      refine fun went => ih distinct went.neat fun l' there manifest known here idle => ?_
      refine went.adds.free (fun same => fresh (same ▸ there)) ?_
      exact unseen l' (List.mem_cons_of_mem _ there) manifest known here idle
    unfold activationPass
    cases known : defs.lookup l with
    | none => exact later (.refl neat)
    | some manifest =>
      refine .ite (fun _ => later (.refl neat)) fun here => ?_
      refine After.bind (activate_goes neat named known (by simpa using here)
        (unseen l (List.mem_cons_self ..))) fun changed s₁ went => ?_
      have wide : Went (fun _ => True) s s₁ := went.mono fun _ _ => trivial
      exact .ite (fun _ => wide) fun _ => (later went).mono fun _ _ => wide.trans

/-- A snapshot is right about every logical id that no remote provider is registered for. -/
theorem currentAllMerged_after (s : KState) : (reading depth whereFree).After currentAllMerged
    (fun states s' => s' = s ∧ ∀ l, l ∉ s.composition.remotes.keys →
      states l = s.contexts.current l) s := by
  have state : ∀ l, (reading depth whereFree).After (remoteState l) (fun _ s' => s' = s) s := by
    intro l
    refine Keeps.composed (P := (· = s)) (remoteState_inspects l) (fun β a ha s _ => ?_) ?_
      (fun _ _ none => none.elim) s rfl
    · cases a with
      | ctx a => cases a <;> first | exact ha.elim | exact trivial
      | calls a => cases a <;> first | exact ha.elim | exact trivial
      | _ => exact trivial
    · intro β a ha s₁ b s' same acts
      subst same
      have acts : KernelSequence.may a s₁ b s' := acts
      unfold KernelSequence.may at acts
      split at acts
      · exact acts
      · exact inspecting_sem ha acts
  have merged : ∀ (ls : List String) (states : States), (reading depth whereFree).After
      (mergeRemotes ls states) (fun states' s' => s' = s ∧
        ∀ l, l ∉ ls → states' l = states l) s := by
    intro ls
    induction ls with
    | nil => exact fun states => ⟨rfl, fun _ _ => rfl⟩
    | cons l ls ih =>
      intro states
      refine After.bind (state l) ?_
      rintro rec _ rfl
      cases rec with
      | none => exact (ih _).mono fun _ _ h => ⟨h.1, fun l' out => h.2 l' (by simp_all)⟩
      | some rec =>
        refine (ih _).mono fun _ _ h => ⟨h.1, fun l' out => ?_⟩
        rw [List.mem_cons, not_or] at out
        rw [h.2 l' out.2, update_of_ne out.1]
  simp only [currentAllMerged, Prog.bind_eq, after_bind, after_ctx, after_comp, ContextAct.run,
    ComposeAct.run]
  exact ⟨trivial, merged _ _⟩

theorem reconcileStep_goes (neat : Neat s) :
    Goes depth (fun _ => True) s (reconcileStep again) := by
  refine goes_definitions (.ite (fun _ => .refl neat) fun _ => ?_)
  refine After.bind (Q := fun keys s' => keys = s.composition.remotes.keys ∧ s = s')
    ((after_comp _).mpr ⟨rfl, rfl⟩) ?_
  rintro _ _ ⟨rfl, rfl⟩
  refine .ite (fun _ => ?_) fun clean => ?_
  · exact goes_of_class (C := modest) (.map (.forEach _ fun _ => .step rfl fun _ =>
      .step rfl fun _ => .once)) (fun _ _ => id) neat
  have remote : ∀ l ∈ s.composition.remotes.keys,
      (s.composition.definitions.lookup l).any (·.remote) = true := by
    simpa [staleRemotes, List.isEmpty_iff] using clean
  dsimp only
  cases findCycle (graphOf s.composition.definitions) with
  | some path => exact parkCycle_goes _ _ neat neat.named
  | none =>
    refine Goes.bind (goes_of_inspects currentAllMerged_inspects neat) fun _ s₁ went₁ =>
      Goes.bind (withdrawPass_goes _ _ went₁.neat neat.named) fun _ s₂ went₂ =>
        .ite (fun _ => .refl went₂.neat) fun _ => ?_
    refine After.bind (currentAllMerged_after s₂) ?_
    rintro states _ ⟨rfl, seen⟩
    refine activationPass_goes _ (activationOrder_nodup _) went₂.neat neat.named ?_
    intro l _ manifest known here idle
    refine free_of_current went₂.neat.sole fun cur current => idle cur ?_
    rw [seen l fun registered => ?_, current]
    have := remote l (went₁.remotes (went₂.remotes registered))
    simp [known, here] at this

/-- The program keeps live contexts current and definitions under their own ids. -/
abbrev Tidies (depth : Nat) (p : KProg α) : Prop := (reading depth whereFree).Keeps Neat p

theorem reconcile_tidies (n : Nat) : Tidies depth (reconcile n) := by
  cases n with
  | zero => exact fun _ _ => trivial
  | succ n =>
    have loop : ∀ k, Tidies depth (reconcileLoop (reconcile n) k) := by
      intro k
      induction k with
      | zero => exact fun _ neat => neat
      | succ k ih =>
        refine fun s neat => After.bind (reconcileStep_goes neat) fun _ s₁ went => ?_
        exact .ite (fun _ => ih s₁ went.neat) fun _ => went.neat
    refine fun s neat => After.bind (Q := fun _ s' => s = s') ((after_comp _).mpr rfl) ?_
    rintro _ _ rfl
    exact loop _ s neat

/-! ### Operations -/

theorem tidies_of_modest (h : Composed C S p) (acts : ∀ β a, C β a → modest β a)
    (wholes : ∀ β q, S β q → Tidies depth q) : Tidies depth p :=
  Keeps.composed h (fun β a known s _ => allowed_of_modest (acts β a known) s)
    (fun β a known s _ _ neat step => neat_step (allowed_of_modest (acts β a known) s) step neat)
    wholes

/-- The parts of an operation that are not modest. -/
inductive Part (again : KProg Unit) : ∀ β : Type, KProg β → Prop
  | dispose (inst : InstanceId) : Part again _ (disposeInstanceInner again inst)
  | reload (manifest : StoredManifest) : Part again _ (awaitReload manifest)
  | register (l : String) (reg : RemoteProvider) : Part again _ (comp (.putRemote l reg))
  | again : Part again _ again

theorem part_tidies {q : KProg β} (hagain : Tidies depth again) (h : Part again β q) :
    Tidies depth q := by
  cases h with
  | dispose inst =>
    exact fun s neat => (disposeInstanceInner_goes (L := fun _ => False) inst neat).mono
      fun _ _ h => h.1.neat
  | register l reg => exact fun s neat => (after_comp _).mpr ⟨neat.sole, neat.named⟩
  | again => exact hagain
  | reload manifest =>
    refine fun s neat => After.mono (Q := fun _ => Went (fun _ => True) s) ?_
      fun _ _ went => went.neat
    refine goes_current (.ite (fun parked => goes_definitions ?_) fun _ => .refl neat)
    cases known : s.composition.definitions.lookup manifest.id with
    | none => exact .refl neat
    | some m =>
      refine Goes.bind (createWaitingInstance_goes neat ?_ trivial) fun _ _ went => .refl went.neat
      rw [neat.named _ m known]
      refine free_of_current neat.sole fun cur current => ?_
      simp only [current, canonicalState, Option.map_some, Option.some.injEq] at parked
      simp [Fsm.live, parked]

theorem recomposes_tidies {op : Op} (h : recomposes op = true) (hagain : Tidies depth again) :
    Tidies depth (op.code again) := by
  have parts : ∀ {α : Type} {p : KProg α}, Composed modest (Part again) p → Tidies depth p :=
    fun h => tidies_of_modest h (fun _ _ => id) fun _ _ => part_tidies hagain
  have drops : ∀ l reason, Composed modest (Part again) (dropRegistration l reason) :=
    fun l reason => .step rfl fun _ => .ite (.step rfl fun _ => .once) (.pure _)
  cases op with
  | loadManifest manifest =>
    refine parts (.map (.step rfl fun old => .step rfl fun _ => .bind (.step rfl fun cur => ?_)
      fun _ => .bind (.whole (.reload manifest)) fun _ => .bind (.whole .again) fun _ => .bind ?_
      fun _ => .map (.step rfl fun cur => ?_)))
    · cases cur with
      | none => exact .pure _
      | some cur =>
        dsimp only
        split
        · exact .pure _
        · exact .pure _
        · exact .pure _
        · exact .map (.whole (.dispose _))
    · unfold reapplyState
      cases reapplied manifest old with
      | none => exact .pure _
      | some json => exact .perform rfl
    · cases cur with
      | none => exact .pure _
      | some cur => exact .once
  | disposeInstance inst =>
    exact parts (.map (.bind (.whole (.dispose _)) fun _ => .map (.whole .again)))
  | disposePlugin id =>
    refine parts (.map (.bind (drops ..) fun _ => .step rfl fun _ => .next fun _ =>
      .bind (.step rfl fun cur => ?_) fun _ => .map (.whole .again)))
    cases cur with
    | none => exact .pure _
    | some cur => exact .whole (.dispose _)
  | registerRemoteProvider l inst generation peer =>
    exact parts (.map (.step rfl fun _ => .ite (.ite (.pure _) (.bind (.whole (.register ..))
      fun _ => .next fun _ => .map (.whole .again))) (.pure _)))
  | unregisterRemoteProvider l =>
    exact parts (.map (.step rfl fun _ => .ite (.step rfl fun _ => .next fun _ =>
      .map (.whole .again)) (.pure _)))
  | installRemoteDefinition manifest =>
    exact parts (.bind (.step rfl fun _ => .bind (drops ..) fun _ => .whole .again) fun _ =>
      .pure _)
  | reconcile => exact parts (.map (.whole .again))
  | _ => cases h

instance : Included acquiring modest where

theorem tidies_of_acquires (h : Acquires p) : Tidies depth p := by
  exact tidies_of_modest h (fun _ _ => KAct.within) fun _ _ none => none.elim

theorem fault_tidies (fiber mode : String) : Tidies depth (fault fiber mode) := by
  refine tidies_of_modest (C := modest) (S := fun _ _ => False) ?_ (fun _ _ => id)
    fun _ _ none => none.elim
  exact fault_composed trivial (fun _ => rfl) rfl (fun _ _ => rfl) rfl trivial

instance : Included (still (pinsOf op)) modest where

theorem calling_tidies {op : Op} (h : calling op = true) (hagain : Tidies depth again) :
    Tidies depth (op.code again) := by
  refine tidies_of_modest (calling_calls h) (fun _ _ => KAct.within) fun β q hq => ?_
  cases hq with
  | fault fiber mode => exact fault_tidies fiber mode
  | finalize inst =>
    refine tidies_of_modest (maybeFinalize_finalizes inst) (fun _ _ => KAct.within) fun β q hq => ?_
    cases hq
    exact hagain

theorem op_tidies (op : Op) : Tidies depth (op.code (reconcile depth)) := by
  have again : Tidies depth (reconcile depth) := reconcile_tidies depth
  by_cases composes : recomposes op = true
  · exact recomposes_tidies composes again
  by_cases calls : calling op = true
  · exact calling_tidies calls again
  cases op with
  | acquire => exact (tidies_of_acquires (acquire_acquires ..)).bind fun _ _ neat => neat
  | acquireExternal =>
    exact (tidies_of_acquires (acquireExternal_acquires ..)).bind fun _ _ neat => neat
  | acquireBatch => exact (tidies_of_acquires (acquireBatch_acquires ..)).bind fun _ _ neat => neat
  | release => exact (tidies_of_acquires (releaseHandle_acquires _)).bind fun _ _ neat => neat
  | _ => first | exact absurd rfl composes | exact absurd rfl calls

theorem tidies : (reading depth whereFree).Verified (fun _ _ => True) Neat fun _ _ _ => True where
  op op s neat _ := (op_tidies op s neat).mono fun _ _ neat => ⟨neat, trivial⟩

end MatrixRuntime.SoleContexts
