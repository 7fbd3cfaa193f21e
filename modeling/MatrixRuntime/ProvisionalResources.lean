import MatrixRuntime.FinalizationInvariant
import MatrixRuntime.OperationFrame
import MatrixRuntime.ContextFrame
import MatrixRuntime.OwnedPublications

/-! Resources that are registered for an activation before it is certain that the activation
stays. The operation that registers a resource has it in hand until it has confirmed the
activation or taken the resource back, and answers for what it has published until it has
confirmed the activation or revoked the publication. A disposal answers for what its
instance has published until it has visited every record of the instance. -/

namespace MatrixRuntime.ProvisionalResources

open KernelContexts KernelTickets KernelResources KernelPublications KernelState KernelActions
open KernelOperations InterleavedMachine RelyGuarantee TraceMarks ContextFrame OwnedPublications
open Discipline Function
open FinalizationInvariant (wins)

variable {depth : Nat} {k : InstanceId} {t : ContextTable} {handle : ResourceHandle} {j : Nat}
  {h : ResourceHandle} {kind : ResourceKind} {r : ResourceRecord} {x : ResourceHandle}

/-- The operations that acquire resources for an activation that is active already. -/
def acquires : Op → Bool
  | .acquire _ _ | .acquireExternal _ _ _ _ | .acquireBatch _ _ => true
  | _ => false

/-! ### Marks -/

/-- The action confirms the activation: it sees it active, marks it active or enters it. -/
def confirms {β : Type} : KAct β → β → InstanceId → Prop
  | .ctx (.current _), some cur, k => cur.instanceId = k ∧ cur.state.canonical = .active
  | .ctx (.markActive inst), _, k => inst = k
  | .comp (.putPlugin _ p), _, k => p.instanceId = k
  | _, _, _ => False

def registers {β : Type} : KAct β → β → InstanceId × ResourceHandle → Prop
  | .res (.insert owner _), h, x => x = (owner.context, h)
  | _, _, _ => False

def takesBack {β : Type} : KAct β → ResourceHandle → Prop
  | .res (.discard handle _), h => handle = h
  | .res (.rollbackRegister handle), h => handle = h
  | .res (.claimRelease handle), h => handle = h
  | _, _ => False

/-- The thread has registered the resource for the instance, and neither confirmed the instance
nor taken the resource back. -/
def inHand : Mark KAct (InstanceId × ResourceHandle) :=
  ⟨registers, fun a b x => confirms a b x.1 ∨ takesBack a x.2⟩

def publishes {β : Type} : KAct β → InstanceId × ResourceKind → Prop
  | .pub (.provideInstance name ref), x => x = (ref.instanceId, .cap name)
  | .pub (.subscribeInstance _ inst topic), x => x = (inst, .sub topic)
  | _, _ => False

def revokes {β : Type} : KAct β → InstanceId × ResourceKind → Prop
  | .pub (.revokeCapIfOwned name inst), x => x = (inst, .cap name)
  | .pub (.unsubscribeTopicIfOwned inst topic), x => x = (inst, .sub topic)
  | _, _ => False

/-- The thread has published for the instance, and neither confirmed it nor revoked the
publication. -/
def showing : Mark KAct (InstanceId × ResourceKind) :=
  ⟨fun a _ x => publishes a x, fun a b x => confirms a b x.1 ∨ revokes a x⟩

def visited {β : Type} : KAct β → InstanceId → Prop
  | .calls (.pendingFor inst), k => inst = k
  | _, _ => False

/-- The thread has claimed the instance and is taking back its publications. -/
def unpublishing : Mark KAct InstanceId := ⟨wins, fun a _ k => visited a k⟩

/-- The thread finds the instance waiting, or creates it. -/
def attends {β : Type} : KAct β → β → InstanceId → Prop
  | .ctx (.current _), some cur, k => cur.instanceId = k ∧ cur.state.awaiting = true
  | .ctx (.create _ _ _), cur, k => cur.instanceId = k
  | _, _, _ => False

def turnsAway {β : Type} : KAct β → InstanceId → Prop
  | .ctx (.current _), _ => True
  | .ctx (.create _ _ _), _ => True
  | .ctx (.claimDispose inst), k => inst = k
  | .ctx (.markFailed inst _), k => inst = k
  | _, _ => False

/-- The instance the thread found waiting, or created, when it last looked for one. -/
def attending : Mark KAct InstanceId := ⟨attends, fun a _ k => turnsAway a k⟩

/-- The thread is in an operation that brings activations up. -/
def Builds (j : Nat) (trace : List (Label (kernel depth))) : Prop :=
  ∃ op, inCall j trace = some op ∧ acquires op = false

/-- No other operation is bringing the instance up. -/
def Unattended (i : Nat) (k : InstanceId) (trace : List (Label (kernel depth))) : Prop :=
  ∀ j, j ≠ i → Builds j trace → ¬ attending.During j k trace

/-- The context owns no active resource and shows nothing. -/
def Bare (s : KState) (k : InstanceId) : Prop :=
  (∀ h r, s.resources.records h = some r → r.ownerContext = k → r.state ≠ .active) ∧
    ∀ l kind, ¬ shown s.publications l k kind

/-- No other operation that brings an activation up has the resource in hand. -/
def Unheld (i : Nat) (h : ResourceHandle) (trace : List (Label (kernel depth))) : Prop :=
  ∀ j, j ≠ i → Builds j trace → ∀ k, ¬ inHand.During j (k, h) trace

/-- An instance is claimed for disposal while no other operation brings it up, and fails while
moreover there is nothing to clean up; a resource is released by another operation once
the activation it was registered for is up. -/
def undisturbed (o : Obs (kernel depth)) : Label (kernel depth) → Prop
  | .act i (KAct.ctx (.claimDispose k)) (.ok (.fresh _)) => Unattended i k o.trace
  | .act i (KAct.ctx (.markFailed k _)) _ => Unattended i k o.trace ∧ Bare o.mem k
  | .act i (KAct.res (.claimRelease h)) _ => Unheld i h o.trace
  | _ => True

/-! ### The discipline -/

def Active (t : ContextTable) (k : InstanceId) : Prop :=
  ∃ s, t.stateOf k = some s ∧ s.canonical = .active

def Live (t : ContextTable) (k : InstanceId) : Prop := ∃ s, t.stateOf k = some s ∧ s.live = true

/-- Disposed, or failed. -/
def Ended (t : ContextTable) (k : InstanceId) : Prop :=
  t.stateOf k = some .disposed ∨ t.stateOf k = some .failed

/-- The record is that of a resource of this kind of the instance, and in nobody's hand. -/
def Settled (o : KObs depth) (k : InstanceId) (h : ResourceHandle) (kind : ResourceKind) :
    Prop :=
  (∃ r, o.mem.resources.records h = some r ∧ r.ownerContext = k ∧ r.kind = kind) ∧
    ∀ j, ¬ inHand.During j (k, h) o.trace

structure Inv (o : KObs depth) : Prop where
  owned : ∀ h r, o.mem.resources.records h = some r → r.state = .active →
    Ended o.mem.contexts r.ownerContext → ∃ j, inHand.During j (r.ownerContext, h) o.trace
  shows : ∀ l k kind, shown o.mem.publications l k kind → Active o.mem.contexts k ∨
    (∃ j, showing.During j (k, kind) o.trace) ∨ ∃ j, unpublishing.During j k o.trace
  backed : ∀ l k kind, shown o.mem.publications l k kind →
    (∃ h, Settled o k h kind) ∨ ∃ j, showing.During j (k, kind) o.trace
  answers : ∀ j k kind, showing.During j (k, kind) o.trace → ∃ h r,
    o.mem.resources.records h = some r ∧ r.ownerContext = k ∧ r.kind = kind ∧
      ∀ j', j' ≠ j → ¬ inHand.During j' (k, h) o.trace
  attended : ∀ j k, Builds j o.trace → attending.During j k o.trace → Live o.mem.contexts k
  issued : ∀ j k h, inHand.During j (k, h) o.trace → h < o.mem.resources.nextHandle
  held : ∀ j k h, Builds j o.trace → inHand.During j (k, h) o.trace →
    ∃ r, o.mem.resources.records h = some r ∧ r.state = .active
  sole : ∀ j j' k k' h, inHand.During j (k, h) o.trace → inHand.During j' (k', h) o.trace → j = j'
  idle : ∀ j, inCall j o.trace = none → (∀ x, ¬ inHand.During j x o.trace) ∧
    (∀ x, ¬ showing.During j x o.trace) ∧ ∀ k, ¬ unpublishing.During j k o.trace

/-- What a step leaves of the records and the hands of its thread. -/
structure Records (i : Nat) (o o' : KObs depth) : Prop where
  next : o.mem.resources.nextHandle ≤ o'.mem.resources.nextHandle
  ages : ∀ h, h < o.mem.resources.nextHandle → ∀ r', o'.mem.resources.records h = some r' →
    ∃ r, o.mem.resources.records h = some r ∧ r'.kind = r.kind ∧
      r'.ownerContext = r.ownerContext ∧ (r'.state = .active → r.state = .active)
  kept : ∀ k h r, o.mem.resources.records h = some r → r.ownerContext = k →
    ¬ inHand.During i (k, h) o.trace → (∃ r', o'.mem.resources.records h = some r' ∧
      r'.kind = r.kind ∧ r'.ownerContext = r.ownerContext) ∧ ¬ inHand.During i (k, h) o'.trace
  fresh : ∀ h r, o'.mem.resources.records h = some r → o.mem.resources.nextHandle ≤ h →
    inHand.During i (r.ownerContext, h) o'.trace
  dropped : ∀ k h, inHand.During i (k, h) o.trace → ¬ inHand.During i (k, h) o'.trace →
    (∀ r, o'.mem.resources.records h = some r → r.state ≠ .active) ∨ ¬ Withdrawn o.mem.contexts k

/-- What a step leaves of the publications and of those its thread answers for. -/
structure Shows (i : Nat) (o o' : KObs depth) : Prop where
  shown : ∀ l k kind, shown o'.mem.publications l k kind →
    shown o.mem.publications l k kind ∨ showing.During i (k, kind) o'.trace
  hidden : ∀ k kind, showing.During i (k, kind) o.trace → ¬ showing.During i (k, kind) o'.trace →
    (∀ l, ¬ OwnedPublications.shown o'.mem.publications l k kind) ∨ ¬ Withdrawn o.mem.contexts k

structure Guar (i : Nat) (o o' : KObs depth) : Prop where
  logged : ∃ label : KLabel depth, label.thread = some i ∧ o'.trace = label :: o.trace
  withdrawn : ∀ k, Withdrawn o.mem.contexts k → Withdrawn o'.mem.contexts k
  active : ∀ k, Active o.mem.contexts k → Active o'.mem.contexts k ∨ Withdrawn o'.mem.contexts k
  dated : ∀ k g, Dated o.mem.contexts k g → Dated o'.mem.contexts k g
  records : Records i o o'
  shows : Shows i o o'

def discipline (depth : Nat) : Discipline (kernel depth) where
  inv := Inv
  guar := Guar
  ok := undisturbed

/-! ### What a step has to show -/

/-- What a step of thread `i` adds to its guarantee. -/
structure Accounts (i : Nat) (o o' : KObs depth) : Prop where
  ended : ∀ k, Ended o'.mem.contexts k → Ended o.mem.contexts k ∨
    ∀ h r, o'.mem.resources.records h = some r → r.ownerContext = k → r.state = .active →
      ∃ j, inHand.During j (k, h) o'.trace
  left : ∀ k, Active o.mem.contexts k → Active o'.mem.contexts k ∨
    unpublishing.During i k o'.trace ∨ ∀ l kind, ¬ shown o.mem.publications l k kind
  live : ∀ k, Live o.mem.contexts k → Live o'.mem.contexts k ∨
    ∀ j, Builds j o'.trace → ¬ attending.During j k o'.trace
  attended : ∀ k, attending.During i k o'.trace → attending.During i k o.trace ∨
    Live o'.mem.contexts k
  confirmed : ∀ k kind, showing.During i (k, kind) o.trace → ¬ showing.During i (k, kind) o'.trace →
    (∀ l, ¬ shown o'.mem.publications l k kind) ∨ (Active o'.mem.contexts k ∧
      o'.mem.resources = o.mem.resources ∧ ∀ h, ¬ inHand.During i (k, h) o'.trace)
  answers : ∀ k kind, showing.During i (k, kind) o'.trace → ∃ h r,
    o'.mem.resources.records h = some r ∧ r.ownerContext = k ∧ r.kind = kind ∧
      ∀ j, j ≠ i → ¬ inHand.During j (k, h) o.trace
  visited : ∀ k, unpublishing.During i k o.trace → ¬ unpublishing.During i k o'.trace →
    ∀ l kind, shown o'.mem.publications l k kind → ∃ j, showing.During j (k, kind) o'.trace
  issued : ∀ k h, inHand.During i (k, h) o'.trace → h < o'.mem.resources.nextHandle
  held : ∀ j k h, Builds j o.trace → inHand.During j (k, h) o'.trace →
    ∃ r, o'.mem.resources.records h = some r ∧ r.state = .active
  taken : ∀ k h, inHand.During i (k, h) o'.trace →
    inHand.During i (k, h) o.trace ∨ o.mem.resources.nextHandle ≤ h

section Step

variable {o o' : KObs depth} {i : Nat}

/-- The marks of the other threads are as before. -/
theorem Guar.foreign (guar : Guar i o o') {K : Type} {m : Mark KAct K} {x : K} {j : Nat}
    (other : j ≠ i) : m.During j x o'.trace ↔ m.During j x o.trace := by
  obtain ⟨label, own, logged⟩ := guar.logged
  rw [logged, Mark.during_foreign (by rw [own]; simpa using Ne.symm other)]

/-- A resource in some hand is in the same one after the step, or has been dropped. -/
theorem Guar.hand (guar : Guar i o o') {j : Nat} {k : InstanceId}
    (hj : inHand.During j (k, h) o.trace) (withdrawn : Withdrawn o.mem.contexts k)
    (found : o'.mem.resources.records h = some r)
    (active : r.state = .active) : inHand.During j (k, h) o'.trace := by
  by_cases mine : j = i
  · subst mine
    by_contra lost
    rcases guar.records.dropped k h hj lost with gone | back
    · exact gone r found active
    · exact back withdrawn
  · exact (guar.foreign mine).mpr hj

theorem Guar.answer (guar : Guar i o o') {j : Nat} {l : String} {k : InstanceId}
    (hj : showing.During j (k, kind) o.trace)
    (withdrawn : Withdrawn o.mem.contexts k) (there : shown o'.mem.publications l k kind) :
    showing.During j (k, kind) o'.trace := by
  by_cases mine : j = i
  · subst mine
    by_contra lost
    rcases guar.shows.hidden k kind hj lost with gone | back
    · exact gone l there
    · exact back withdrawn
  · exact (guar.foreign mine).mpr hj

theorem Guar.settled (guar : Guar i o o') {k : InstanceId} (settled : Settled o k h kind) :
    Settled o' k h kind := by
  obtain ⟨⟨r, found, rfl, rfl⟩, free⟩ := settled
  obtain ⟨⟨r', found', kind, owner⟩, mine⟩ := guar.records.kept _ h r found rfl (free i)
  refine ⟨⟨r', found', owner, kind⟩, fun j => ?_⟩
  by_cases same : j = i
  · exact same ▸ mine
  · exact fun held => free j ((guar.foreign same).mp held)

theorem Ended.withdrawn (h : Ended t k) : Withdrawn t k :=
  h.elim (fun h => ⟨_, h, rfl⟩) fun h => ⟨_, h, rfl⟩

theorem Inv.step (hinv : Inv o) (guar : Guar i o o') (accounts : Accounts i o o')
    (calls : ∀ j, inCall j o'.trace = inCall j o.trace) (busy : inCall i o.trace ≠ none) :
    Inv o' where
  owned h r found active ended := by
    rcases accounts.ended _ ended with before | drained
    · by_cases new : h < o.mem.resources.nextHandle
      · obtain ⟨r₀, found₀, -, owner, stays⟩ := guar.records.ages h new r found
        rw [owner] at before ⊢
        obtain ⟨j, hj⟩ := hinv.owned h r₀ found₀ (stays active) before
        exact ⟨j, guar.hand hj before.withdrawn found active⟩
      · exact ⟨i, guar.records.fresh h r found (Nat.le_of_not_lt new)⟩
    · exact drained h r found rfl active
  shows l k kind there := by
    rcases guar.shows.shown l k kind there with before | mine
    · rcases hinv.shows l k kind before with active | ⟨j, hj⟩ | ⟨j, hj⟩
      · rcases accounts.left k active with stays | mine | silent
        · exact .inl stays
        · exact .inr (.inr ⟨i, mine⟩)
        · exact absurd before (silent l kind)
      · by_cases mine : j = i
        · subst mine
          by_cases still : showing.During j (k, kind) o'.trace
          · exact .inr (.inl ⟨j, still⟩)
          · rcases accounts.confirmed k kind hj still with gone | ⟨active, -⟩
            · exact absurd there (gone l)
            · exact .inl active
        · exact .inr (.inl ⟨j, (guar.foreign mine).mpr hj⟩)
      · by_cases mine : j = i
        · subst mine
          by_cases still : unpublishing.During j k o'.trace
          · exact .inr (.inr ⟨j, still⟩)
          · exact .inr (.inl (accounts.visited k hj still l kind there))
        · exact .inr (.inr ⟨j, (guar.foreign mine).mpr hj⟩)
    · exact .inr (.inl ⟨i, mine⟩)
  backed l k kind there := by
    rcases guar.shows.shown l k kind there with before | mine
    · rcases hinv.backed l k kind before with ⟨h, settled⟩ | ⟨j, hj⟩
      · exact .inl ⟨h, guar.settled settled⟩
      · by_cases mine : j = i
        · subst mine
          by_cases still : showing.During j (k, kind) o'.trace
          · exact .inr ⟨j, still⟩
          · rcases accounts.confirmed k kind hj still with gone | ⟨-, same, empty⟩
            · exact absurd there (gone l)
            · obtain ⟨h, r, found, owner, kinds, others⟩ := hinv.answers j k kind hj
              refine .inl ⟨h, ⟨r, by rw [same, found], owner, kinds⟩, fun j' => ?_⟩
              by_cases own' : j' = j
              · exact own' ▸ empty h
              · exact fun held => others j' own' ((guar.foreign own').mp held)
        · exact .inr ⟨j, (guar.foreign mine).mpr hj⟩
    · exact .inr ⟨i, mine⟩
  answers j k kind hj := by
    by_cases mine : j = i
    · subst mine
      obtain ⟨h, r, found, owner, kinds, others⟩ := accounts.answers k kind hj
      exact ⟨h, r, found, owner, kinds, fun j' other held =>
        others j' other ((guar.foreign other).mp held)⟩
    · obtain ⟨h, r, found, owner, kinds, others⟩ :=
        hinv.answers j k kind ((guar.foreign mine).mp hj)
      obtain ⟨⟨r', found', kinds', owner'⟩, free⟩ :=
        guar.records.kept k h r found owner (others i (Ne.symm mine))
      refine ⟨h, r', found', owner'.trans owner, kinds'.trans kinds, fun j' other held => ?_⟩
      by_cases same : j' = i
      · exact free (same ▸ held)
      · exact others j' other ((guar.foreign same).mp held)
  attended j k builds hj := by
    have before : attending.During j k o.trace → Live o'.mem.contexts k := fun hj' => by
      have builds' : Builds j o.trace := by rwa [Builds, ← calls j]
      exact (accounts.live k (hinv.attended j k builds' hj')).resolve_right
        fun none => none j builds hj
    by_cases mine : j = i
    · subst mine
      exact (accounts.attended k hj).elim before id
    · exact before ((guar.foreign mine).mp hj)
  issued j k h hj := by
    by_cases mine : j = i
    · exact accounts.issued k h (mine ▸ hj)
    · exact Nat.lt_of_lt_of_le (hinv.issued j k h ((guar.foreign mine).mp hj))
        guar.records.next
  held j k h builds hj := accounts.held j k h (by rwa [Builds, ← calls j]) hj
  sole j j' k k' h hj hj' := by
    have mine : ∀ {j k k'}, j ≠ i → inHand.During i (k, h) o'.trace →
        ¬ inHand.During j (k', h) o.trace := by
      intro j k k' other hi hj
      rcases accounts.taken k h hi with before | new
      · exact other (hinv.sole j i k' k h hj before)
      · exact absurd (hinv.issued j k' h hj) (Nat.not_lt.mpr new)
    by_cases same : j = i <;> by_cases same' : j' = i
    · rw [same, same']
    · subst same
      exact absurd ((guar.foreign same').mp hj') (mine same' hj)
    · subst same'
      exact absurd ((guar.foreign same).mp hj) (mine same hj')
    · exact hinv.sole j j' k k' h ((guar.foreign same).mp hj) ((guar.foreign same').mp hj')
  idle j hj := by
    rw [calls j] at hj
    have other : j ≠ i := fun same => busy (same ▸ hj)
    obtain ⟨hands, shows, visits⟩ := hinv.idle j hj
    exact ⟨fun x h => hands x ((guar.foreign other).mp h),
      fun x h => shows x ((guar.foreign other).mp h),
      fun k h => visits k ((guar.foreign other).mp h)⟩

end Step

section Acted

variable {o : KObs depth} {i : Nat} {β : Type} {a : KAct β} {b : β} {mem : KState}

theorem Inv.acted (hinv : Inv o) (busy : inCall i o.trace ≠ none)
    (guar : Guar i o (o.acted i a b mem)) (accounts : Accounts i o (o.acted i a b mem)) :
    Inv (o.acted i a b mem) ∧ Guar i o (o.acted i a b mem) :=
  ⟨hinv.step guar accounts (fun _ => rfl) busy, guar⟩

theorem foreign_act {K : Type} {m : Mark KAct K} {x : K} (other : j ≠ i) :
    m.During j x (o.acted i a b mem).trace ↔ m.During j x o.trace :=
  Mark.during_foreign (by simpa [Label.thread] using Ne.symm other)

/-- The thread has nothing to answer for at the instance. -/
def Clear (i : Nat) (k : InstanceId) (o : KObs depth) : Prop :=
  (∀ h, ¬ inHand.During i (k, h) o.trace) ∧ ∀ kind, ¬ showing.During i (k, kind) o.trace

/-- An action that registers nothing and publishes nothing, and takes neither back. -/
structure Neutral (a : KAct β) (b : β) : Prop where
  registers : ∀ x, ¬ registers a b x
  takesBack : ∀ h, ¬ takesBack a h
  publishes : ∀ x, ¬ publishes a x
  revokes : ∀ x, ¬ revokes a x

theorem Neutral.hand (h : Neutral a b) {x : InstanceId × ResourceHandle} :
    inHand.During i x (o.acted i a b mem).trace ↔ inHand.During i x o.trace ∧ ¬ confirms a b x.1 :=
  Mark.during_own.trans ((or_iff_right (h.registers x)).trans
    (and_congr_right fun _ => not_congr (or_iff_left (h.takesBack x.2))))

theorem Neutral.showing (h : Neutral a b) {x : InstanceId × ResourceKind} :
    showing.During i x (o.acted i a b mem).trace ↔
      showing.During i x o.trace ∧ ¬ confirms a b x.1 :=
  Mark.during_own.trans ((or_iff_right (h.publishes x)).trans
    (and_congr_right fun _ => not_congr (or_iff_left (h.revokes x))))

/-- What a step may do to the contexts. -/
structure Turns (i : Nat) (o : KObs depth) (a : KAct β) (b : β) (t : ContextTable) :
    Prop where
  withdrawn : ∀ k, Withdrawn o.mem.contexts k → Withdrawn t k
  active : ∀ k, Active o.mem.contexts k → Active t k ∨
    Withdrawn t k ∧ (wins a b k ∨ ∀ l kind, ¬ shown o.mem.publications l k kind)
  ended : ∀ k, Ended t k → Ended o.mem.contexts k ∨
    ∀ h r, o.mem.resources.records h = some r → r.ownerContext = k → r.state = .active →
      Withdrawn o.mem.contexts k ∧ ∃ j, inHand.During j (k, h) o.trace
  live : ∀ k, Live o.mem.contexts k → Live t k ∨
    turnsAway a k ∧ ¬ attends a b k ∧ Unattended i k o.trace
  attended : ∀ k, attends a b k → Live t k
  dated : ∀ k g, Dated o.mem.contexts k g → Dated t k g

theorem Turns.same (i : Nat) (o : KObs depth) {a : KAct β} {b : β}
    (none : ∀ k, attends a b k → Live o.mem.contexts k) : Turns i o a b o.mem.contexts :=
  ⟨fun _ h => h, fun _ h => .inl h, fun _ h => .inl h, fun _ h => .inl h, none, fun _ _ h => h⟩

theorem Turns.attendance (h : Turns i o a b t) (k : InstanceId) (live : Live o.mem.contexts k) :
    Live t k ∨ ∀ j, Builds j (o.acted i a b mem).trace →
      ¬ attending.During j k (o.acted i a b mem).trace := by
  rcases h.live k live with stays | ⟨away, unseen, alone⟩
  · exact .inl stays
  · refine .inr fun j builds hj => ?_
    by_cases mine : j = i
    · subst mine
      rcases Mark.during_own.mp hj with now | ⟨-, kept⟩
      · exact unseen now
      · exact kept away
    · exact alone j mine builds ((foreign_act mine).mp hj)

/-- Steps that leave the resources and the publications as they are. -/
theorem sound_tables (hinv : Inv o) (busy : inCall i o.trace ≠ none) (neutral : Neutral a b)
    (resources : mem.resources = o.mem.resources)
    (publications : mem.publications = o.mem.publications) (turns : Turns i o a b mem.contexts)
    (confirm : ∀ k, confirms a b k →
      Active mem.contexts k ∧ ¬ Withdrawn o.mem.contexts k ∨ Clear i k o)
    (visit : ∀ k, visited a k → (∀ k', ¬ confirms a b k') ∧ (unpublishing.During i k o.trace →
      ∀ l kind, shown o.mem.publications l k kind → ∃ j, showing.During j (k, kind) o.trace)) :
    Inv (o.acted i a b mem) ∧ Guar i o (o.acted i a b mem) := by
  have hand := @Neutral.hand depth o i β a b mem neutral
  have showing := @Neutral.showing depth o i β a b mem neutral
  have confirmed : ∀ k h, inHand.During i (k, h) o.trace →
      ¬ inHand.During i (k, h) (o.acted i a b mem).trace →
      Active mem.contexts k ∧ ¬ Withdrawn o.mem.contexts k := fun k h held lost => by
    refine (confirm k ?_).resolve_right fun clear => clear.1 h held
    by_contra still
    exact lost (hand.mpr ⟨held, still⟩)
  have answered : ∀ k kind, ProvisionalResources.showing.During i (k, kind) o.trace →
      ¬ ProvisionalResources.showing.During i (k, kind) (o.acted i a b mem).trace →
      confirms a b k ∧ Active mem.contexts k ∧ ¬ Withdrawn o.mem.contexts k :=
    fun k kind held lost => by
      have now : confirms a b k := by
        by_contra still
        exact lost (showing.mpr ⟨held, still⟩)
      exact ⟨now, (confirm k now).resolve_right fun clear => clear.2 kind held⟩
  refine hinv.acted busy ⟨⟨_, rfl, rfl⟩, turns.withdrawn, ?_, turns.dated, ⟨?_, ?_, ?_, ?_, ?_⟩,
    ⟨?_, ?_⟩⟩
    ⟨?_, ?_, fun k live => turns.attendance k live, ?_, ?_, ?_, ?_, ?_, ?_, ?_⟩
  · exact fun k active => (turns.active k active).imp_right And.left
  · rw [Obs.acted_mem, resources]
  · intro h _ r' found
    rw [Obs.acted_mem, resources] at found
    exact ⟨r', found, rfl, rfl, id⟩
  · intro k h r found _ free
    exact ⟨⟨r, by rw [Obs.acted_mem, resources, found], rfl, rfl⟩,
      fun held => free (hand.mp held).1⟩
  · intro h r found new
    rw [Obs.acted_mem, resources] at found
    exact absurd (o.mem.resources.issued h r found).2 (Nat.not_lt.mpr new)
  · exact fun k h held lost => .inr (confirmed k h held lost).2
  · intro l k kind there
    rw [Obs.acted_mem, publications] at there
    exact .inl there
  · exact fun k kind held lost => .inr (answered k kind held lost).2.2
  · intro k ended
    refine (turns.ended k ended).imp_right fun drained h r found own active => ?_
    rw [Obs.acted_mem, resources] at found
    obtain ⟨withdrawn, j, hj⟩ := drained h r found own active
    refine ⟨j, ?_⟩
    by_cases mine : j = i
    · subst mine
      by_contra lost
      exact (confirmed k h hj lost).2 withdrawn
    · exact (foreign_act mine).mpr hj
  · intro k active
    rcases turns.active k active with stays | ⟨-, won | silent⟩
    · exact .inl stays
    · exact .inr (.inl (Mark.during_own.mpr (.inl won)))
    · exact .inr (.inr silent)
  · intro k hk
    rcases Mark.during_own.mp hk with now | ⟨before, -⟩
    · exact .inr (turns.attended k now)
    · exact .inl before
  · intro k kind held lost
    obtain ⟨now, active, -⟩ := answered k kind held lost
    exact .inr ⟨active, resources, fun h hh => (hand.mp hh).2 now⟩
  · intro k kind held
    obtain ⟨h, r, found, rest⟩ := hinv.answers i k kind (showing.mp held).1
    exact ⟨h, r, by rw [Obs.acted_mem, resources, found], rest⟩
  · intro k before after l kind there
    rw [Obs.acted_mem, publications] at there
    have now : visited a k := by
      by_contra still
      exact after (Mark.during_own.mpr (.inr ⟨before, still⟩))
    obtain ⟨plain, seen⟩ := visit k now
    obtain ⟨j, hj⟩ := seen before l kind there
    refine ⟨j, ?_⟩
    by_cases mine : j = i
    · subst mine
      exact showing.mpr ⟨hj, plain k⟩
    · exact (foreign_act mine).mpr hj
  · intro k h held
    rw [Obs.acted_mem, resources]
    exact hinv.issued i k h (hand.mp held).1
  · intro j k h builds hj
    rw [Obs.acted_mem, resources]
    by_cases mine : j = i
    · subst mine
      exact hinv.held j k h builds (hand.mp hj).1
    · exact hinv.held j k h builds ((foreign_act mine).mp hj)
  · exact fun k h held => .inl (hand.mp held).1

/-! ### Resource actions -/

/-- Steps on the resources alone. -/
theorem sound_res {a : ResourceAct β} {t : ResourceTable} (hinv : Inv o)
    (busy : inCall i o.trace ≠ none)
    (records : Records i o (o.acted i (.res a) b { o.mem with resources := t }))
    (answers : ∀ k kind, showing.During i (k, kind) o.trace → ∃ h r, t.records h = some r ∧
      r.ownerContext = k ∧ r.kind = kind ∧ ∀ j, j ≠ i → ¬ inHand.During j (k, h) o.trace)
    (issued : ∀ k h, inHand.During i (k, h)
      (o.acted i (.res a) b { o.mem with resources := t }).trace → h < t.nextHandle)
    (held : ∀ j k h, Builds j o.trace →
      inHand.During j (k, h) (o.acted i (.res a) b { o.mem with resources := t }).trace →
        ∃ r, t.records h = some r ∧ r.state = .active)
    (taken : ∀ k h, inHand.During i (k, h)
      (o.acted i (.res a) b { o.mem with resources := t }).trace →
        inHand.During i (k, h) o.trace ∨ o.mem.resources.nextHandle ≤ h) :
    Inv (o.acted i (.res a) b { o.mem with resources := t }) ∧
      Guar i o (o.acted i (.res a) b { o.mem with resources := t }) := by
  have same : ∀ x, showing.During i x (o.acted i (.res a) b { o.mem with resources := t }).trace ↔
      showing.During i x o.trace := fun x => by
    refine Mark.during_quiet id ?_
    rintro (h | h) <;> exact h
  refine hinv.acted busy ⟨⟨_, rfl, rfl⟩, fun _ h => h, fun _ h => .inl h, fun _ _ h => h, records,
    ⟨fun _ _ _ h => .inl h, ?_⟩⟩
    ⟨fun _ h => .inl h, fun _ h => .inl h, fun _ h => .inl h, ?_, ?_, ?_, ?_, issued, held, taken⟩
  · exact fun k kind before after => absurd ((same _).mpr before) after
  · intro k h
    exact .inl ((Mark.during_quiet id id).mp h)
  · exact fun k kind before after => absurd ((same _).mpr before) after
  · exact fun k kind now => answers k kind ((same _).mp now)
  · exact fun k before after => absurd ((Mark.during_quiet id id).mpr before) after

theorem sound_insert (hinv : Inv o) (busy : inCall i o.trace ≠ none) (owner : Owner)
    (kind : ResourceKind) : Inv (o.acted i (.res (.insert owner kind)) o.mem.resources.nextHandle
      { o.mem with resources := (o.mem.resources.insert owner kind).2 }) ∧
    Guar i o (o.acted i (.res (.insert owner kind)) o.mem.resources.nextHandle
      { o.mem with resources := (o.mem.resources.insert owner kind).2 }) := by
  have kept : ∀ h, h ≠ o.mem.resources.nextHandle →
      (o.mem.resources.insert owner kind).2.records h = o.mem.resources.records h :=
    fun h other => update_of_ne other _ _
  have hand : ∀ k h, inHand.During i (k, h) (o.acted i (KAct.res (.insert owner kind))
      o.mem.resources.nextHandle
      { o.mem with resources := (o.mem.resources.insert owner kind).2 }).trace ↔
      (k, h) = (owner.context, o.mem.resources.nextHandle) ∨ inHand.During i (k, h) o.trace :=
    fun k h => Mark.during_own.trans (or_congr_right (and_iff_left (by rintro (h | h) <;> exact h)))
  refine sound_res hinv busy ⟨Nat.le_succ _, ?_, ?_, ?_, ?_⟩ ?_ ?_ ?_ ?_
  · intro h old r found
    exact ⟨r, (kept h (Nat.ne_of_lt old)).symm.trans found, rfl, rfl, id⟩
  · intro k h r found own free
    refine ⟨⟨r, (kept h (issued_ne_next found)).trans found, rfl, rfl⟩, fun held => ?_⟩
    rcases (hand k h).mp held with new | before
    · exact issued_ne_next found (Prod.ext_iff.mp new).2
    · exact free before
  · intro h r found new
    have here : h = o.mem.resources.nextHandle := by
      by_contra other
      exact absurd (o.mem.resources.issued h r ((kept h other).symm.trans found)).2
        (Nat.not_lt.mpr new)
    subst here
    have made := found.symm.trans (update_self ..)
    cases made
    exact (hand _ _).mpr (.inl rfl)
  · exact fun k h before after => absurd ((hand k h).mpr (.inr before)) after
  · intro k kind' now
    obtain ⟨h, r, found, rest⟩ := hinv.answers i k kind' now
    exact ⟨h, r, (kept h (issued_ne_next found)).trans found, rest⟩
  · intro k h held
    rcases (hand k h).mp held with new | before
    · cases new
      exact Nat.lt_succ_self _
    · exact Nat.lt_succ_of_lt (hinv.issued i k h before)
  · intro j k h builds hj
    have before : inHand.During j (k, h) o.trace → ∃ r,
        (o.mem.resources.insert owner kind).2.records h = some r ∧ r.state = .active := fun hj => by
      obtain ⟨r, found, active⟩ := hinv.held j k h builds hj
      exact ⟨r, (kept h (issued_ne_next found)).trans found, active⟩
    by_cases mine : j = i
    · subst mine
      rcases (hand k h).mp hj with new | old
      · cases new
        exact ⟨_, update_self .., rfl⟩
      · exact before old
    · exact before ((foreign_act mine).mp hj)
  · intro k h held
    rcases (hand k h).mp held with new | before
    · cases new
      exact .inr le_rfl
    · exact .inl before

/-- What a step that looks at one record, or takes it back, leaves of it. -/
structure Takes (i : Nat) (o : KObs depth) (a : ResourceAct β) (b : β)
    (handle : ResourceHandle) (t : ResourceTable) : Prop where
  plain : ∀ x, ¬ registers (.res a) b x
  only : ∀ h, takesBack (.res a) h → h = handle
  next : t.nextHandle = o.mem.resources.nextHandle
  others : ∀ h, h ≠ handle → t.records h = o.mem.resources.records h
  source : ∀ r', t.records handle = some r' → ∃ r, o.mem.resources.records handle = some r ∧
    r'.kind = r.kind ∧ r'.ownerContext = r.ownerContext ∧ (r'.state = .active → r.state = .active)
  taken : ∀ r, o.mem.resources.records handle = some r →
    (∃ r', t.records handle = some r' ∧ r'.kind = r.kind ∧ r'.ownerContext = r.ownerContext) ∨
      inHand.During i (r.ownerContext, handle) o.trace ∧
        ∀ kind, ¬ showing.During i (r.ownerContext, kind) o.trace
  gone : takesBack (.res a) handle → ∀ r', t.records handle = some r' → r'.state ≠ .active
  spared : takesBack (.res a) handle → Unheld i handle o.trace
  stays : ¬ takesBack (.res a) handle → t.records handle = o.mem.resources.records handle

theorem Takes.kept {a : ResourceAct β} {t : ResourceTable} (h : Takes i o a b handle t)
    (found : o.mem.resources.records x = some r) :
    (∃ r', t.records x = some r' ∧ r'.kind = r.kind ∧ r'.ownerContext = r.ownerContext) ∨
      inHand.During i (r.ownerContext, x) o.trace ∧
        ∀ kind, ¬ showing.During i (r.ownerContext, kind) o.trace := by
  by_cases same : x = handle
  · subst same
    exact h.taken r found
  · exact .inl ⟨r, (h.others x same).trans found, rfl, rfl⟩

theorem Takes.origin {a : ResourceAct β} {t : ResourceTable} (h : Takes i o a b handle t)
    {r' : ResourceRecord} (found : t.records x = some r') :
    ∃ r, o.mem.resources.records x = some r ∧ r'.kind = r.kind ∧ r'.ownerContext = r.ownerContext ∧
        (r'.state = .active → r.state = .active) := by
  by_cases same : x = handle
  · subst same
    exact h.source r' found
  · exact ⟨r', (h.others x same).symm.trans found, rfl, rfl, id⟩

theorem Takes.sound {a : ResourceAct β} {t : ResourceTable} (h : Takes i o a b handle t)
    (hinv : Inv o) (busy : inCall i o.trace ≠ none) :
    Inv (o.acted i (.res a) b { o.mem with resources := t }) ∧
      Guar i o (o.acted i (.res a) b { o.mem with resources := t }) := by
  have before : ∀ {k x}, inHand.During i (k, x)
      (o.acted i (.res a) b { o.mem with resources := t }).trace →
      inHand.During i (k, x) o.trace :=
    fun held => ((Mark.during_own.mp held).resolve_left (h.plain _)).1
  refine sound_res hinv busy ⟨h.next.ge, ?_, ?_, ?_, ?_⟩ ?_ ?_ ?_ ?_
  · exact fun x _ r' found => h.origin found
  · intro k x r found own free
    refine ⟨(h.kept found).resolve_right fun mine => free (own ▸ mine.1), fun held => ?_⟩
    exact free (before held)
  · intro x r found new
    obtain ⟨r₀, found₀, -⟩ := h.origin found
    exact absurd (o.mem.resources.issued x r₀ found₀).2 (Nat.not_lt.mpr new)
  · intro k x held lost
    left
    intro r found
    have back : takesBack (KAct.res a) x := by
      by_contra kept
      exact lost (Mark.during_own.mpr (.inr ⟨held, fun c => c.elim id kept⟩))
    obtain rfl := h.only x back
    exact h.gone back r found
  · intro k kind now
    obtain ⟨x, r, found, own, kinds, others⟩ := hinv.answers i k kind now
    obtain ⟨r', found', kinds', own'⟩ :=
      (h.kept found).resolve_right fun mine => mine.2 kind (own ▸ now)
    exact ⟨x, r', found', own'.trans own, kinds'.trans kinds, others⟩
  · intro k x held
    rw [h.next]
    exact hinv.issued i k x (before held)
  · intro j k x builds hj
    have old : inHand.During j (k, x) o.trace := by
      by_cases mine : j = i
      · subst mine
        exact before hj
      · exact (foreign_act mine).mp hj
    have same : t.records x = o.mem.resources.records x := by
      by_cases here : x = handle
      · subst here
        refine h.stays fun back => ?_
        by_cases mine : j = i
        · subst mine
          exact ((Mark.during_own.mp hj).resolve_left (h.plain _)).2 (.inr back)
        · exact h.spared back j mine builds k old
      · exact h.others x here
    rw [same]
    exact hinv.held j k x builds old
  · exact fun k x held => .inl (before held)

/-- The thread may take the record back for good. -/
def Disposable (i : Nat) (o : KObs depth) (handle : ResourceHandle) : Prop :=
  ∀ r, o.mem.resources.records handle = some r →
    inHand.During i (r.ownerContext, handle) o.trace ∧
      ∀ kind, ¬ showing.During i (r.ownerContext, kind) o.trace

theorem Disposable.unheld (h : Disposable i o handle) (hinv : Inv o) : Unheld i handle o.trace := by
  intro j other builds k hj
  obtain ⟨r, found, -⟩ := hinv.held j k handle builds hj
  exact other (hinv.sole j i k _ handle hj (h r found).1)

/-- A look that leaves every record as it is. -/
theorem takes_look {a : ResourceAct β} {t : ResourceTable} (plain : ∀ x, ¬ registers (.res a) b x)
    (back : ∀ h, ¬ takesBack (.res a) h) (next : t.nextHandle = o.mem.resources.nextHandle)
    (same : t.records = o.mem.resources.records) (handle : ResourceHandle) :
    Takes i o a b handle t where
  plain := plain
  only h taken := absurd taken (back h)
  next := next
  others h _ := by rw [same]
  source r' found := ⟨r', by rw [← same, found], rfl, rfl, id⟩
  taken r found := .inl ⟨r, by rw [same, found], rfl, rfl⟩
  gone taken := absurd taken (back handle)
  spared taken := absurd taken (back handle)
  stays _ := by rw [same]

theorem takes_discard (owner : ContextId) (hinv : Inv o) (disposable : Disposable i o handle)
    {a : ResourceAct Unit} (plain : ∀ x, ¬ registers (.res a) () x)
    (back : ∀ h, takesBack (.res a) h ↔ h = handle) :
    Takes i o a () handle (o.mem.resources.discard handle owner) where
  plain := plain
  only h := (back h).mp
  next := rfl
  others h other := update_of_ne other _ _
  source r' found := absurd (found.symm.trans (update_self ..)) (by simp)
  taken r found := .inr (disposable r found)
  gone _ r' found := absurd (found.symm.trans (update_self ..)) (by simp)
  spared _ := disposable.unheld hinv
  stays kept := absurd ((back handle).mpr rfl) kept

theorem takes_rollback (hinv : Inv o) (disposable : Disposable i o handle) :
    Takes i o (.rollbackRegister handle) () handle (o.mem.resources.rollbackRegister handle) := by
  have back : ∀ h, takesBack (KAct.res (.rollbackRegister handle)) h ↔ h = handle :=
    fun h => eq_comm
  have inactive : (∀ r, o.mem.resources.records handle = some r → r.state ≠ .active) →
      Takes i o (.rollbackRegister handle) () handle o.mem.resources := fun idle =>
    ⟨fun _ => id, fun h => (back h).mp, rfl, fun _ _ => rfl, fun r' found =>
      ⟨r', found, rfl, rfl, id⟩, fun r found => .inl ⟨r, found, rfl, rfl⟩, fun _ => idle,
      fun _ => disposable.unheld hinv, fun _ => rfl⟩
  unfold ResourceTable.rollbackRegister
  split
  next rec found =>
    split
    · exact takes_discard _ hinv disposable (fun _ => id) back
    next idle =>
      refine inactive fun r found' => ?_
      cases found.symm.trans found'
      exact idle
  next absent =>
    refine inactive fun r found => ?_
    cases absent.symm.trans found

theorem takes_claim (handle : ResourceHandle) (spared : Unheld i handle o.trace) :
    Takes i o (.claimRelease handle) (o.mem.resources.claimRelease handle).1 handle
      (o.mem.resources.claimRelease handle).2 := by
  have plain : ∀ b x, ¬ registers (KAct.res (.claimRelease handle)) b x := fun _ _ => id
  have only : ∀ h, takesBack (KAct.res (.claimRelease handle)) h → h = handle :=
    fun h taken => Eq.symm taken
  have idle : ∀ b (t : ResourceTable), t.nextHandle = o.mem.resources.nextHandle →
      t.records = o.mem.resources.records →
      (∀ r, o.mem.resources.records handle = some r → r.state ≠ .active) →
      Takes i o (.claimRelease handle) b handle t := fun b t next same spent =>
    ⟨plain b, only, next, fun _ _ => by rw [same], fun r' found =>
      ⟨r', by rw [← same, found], rfl, rfl, id⟩, fun r found =>
      .inl ⟨r, by rw [same, found], rfl, rfl⟩, fun _ r' found => spent r' (by rw [← same, found]),
      fun _ => spared, fun _ => by rw [same]⟩
  unfold ResourceTable.claimRelease
  split
  next absent =>
    refine idle _ _ rfl rfl fun r found => ?_
    cases absent.symm.trans found
  next rec found =>
    split
    next spent =>
      refine idle _ _ rfl rfl fun r found' => ?_
      cases found.symm.trans found'
      simp [spent]
    next live =>
      have retired : (o.mem.resources.retire handle).records handle =
          some { rec with state := .released } := by
        simp [ResourceTable.retire, found]
      refine ⟨plain _, only, rfl, fun h other => update_of_ne other _ _, ?_, ?_, ?_,
        fun _ => spared, fun kept => absurd rfl kept⟩
      · intro r' found'
        cases retired.symm.trans found'
        exact ⟨rec, found, rfl, rfl, fun active => by cases active⟩
      · intro r found'
        cases found.symm.trans found'
        exact .inl ⟨_, retired, rfl, rfl⟩
      · intro _ r' found'
        cases retired.symm.trans found'
        simp

theorem takes_inspect (handle : ResourceHandle) :
    Takes i o (.inspectRelease handle) (o.mem.resources.inspectRelease handle).1 handle
      (o.mem.resources.inspectRelease handle).2 := by
  refine takes_look (fun _ => id) (fun _ => id) ?_ ?_ handle
  all_goals
    unfold ResourceTable.inspectRelease
    split
    · rfl
    · split
      · rfl
      · split <;> rfl

/-! ### Publication actions -/

/-- A record of the instance stands behind what is published, and no other thread has it in
hand. -/
def Backed (i : Nat) (o : KObs depth) (k : InstanceId) (kind : ResourceKind) : Prop :=
  ∃ h r, o.mem.resources.records h = some r ∧ r.ownerContext = k ∧ r.kind = kind ∧
    ∀ j, j ≠ i → ¬ inHand.During j (k, h) o.trace

theorem sound_pub {a : PublishAct β} {p : Publications} (hinv : Inv o)
    (busy : inCall i o.trace ≠ none) (shows : ∀ l k kind, shown p l k kind →
      shown o.mem.publications l k kind ∨ publishes (KAct.pub a) (k, kind))
    (hidden : ∀ k kind, revokes (KAct.pub a) (k, kind) → ∀ l, ¬ shown p l k kind)
    (backed : ∀ k kind, publishes (KAct.pub a) (k, kind) → Backed i o k kind) :
    Inv (o.acted i (.pub a) b { o.mem with publications := p }) ∧
      Guar i o (o.acted i (.pub a) b { o.mem with publications := p }) := by
  have hand : ∀ x, inHand.During i x
      (o.acted i (.pub a) b { o.mem with publications := p }).trace ↔ inHand.During i x o.trace :=
    fun x => Mark.during_quiet id (by rintro (h | h) <;> exact h)
  have lost : ∀ k kind, showing.During i (k, kind) o.trace →
      ¬ showing.During i (k, kind) (o.acted i (.pub a) b { o.mem with publications := p }).trace →
      ∀ l, ¬ shown p l k kind := fun k kind before after => by
    refine hidden k kind ?_
    by_contra kept
    exact after (Mark.during_own.mpr (.inr ⟨before, fun c => c.elim id kept⟩))
  refine hinv.acted busy ⟨⟨_, rfl, rfl⟩, fun _ h => h, fun _ h => .inl h, fun _ _ h => h,
    ⟨le_rfl, ?_, ?_, ?_, ?_⟩, ⟨?_, ?_⟩⟩
    ⟨fun _ h => .inl h, fun _ h => .inl h, fun _ h => .inl h, ?_, ?_, ?_, ?_, ?_, ?_, ?_⟩
  · exact fun x _ r' found => ⟨r', found, rfl, rfl, id⟩
  · exact fun k x r found _ free => ⟨⟨r, found, rfl, rfl⟩, fun held => free ((hand _).mp held)⟩
  · intro x r found new
    exact absurd (o.mem.resources.issued x r found).2 (Nat.not_lt.mpr new)
  · exact fun k x before after => absurd ((hand _).mpr before) after
  · intro l k kind there
    exact (shows l k kind there).imp_right fun now => Mark.during_own.mpr (.inl now)
  · exact fun k kind before after => .inl (lost k kind before after)
  · intro k h
    exact .inl ((Mark.during_quiet id id).mp h)
  · exact fun k kind before after => .inl (lost k kind before after)
  · intro k kind now
    rcases Mark.during_own.mp now with new | ⟨before, -⟩
    · exact backed k kind new
    · exact hinv.answers i k kind before
  · exact fun k before after => absurd ((Mark.during_quiet id id).mpr before) after
  · exact fun k x held => hinv.issued i k x ((hand _).mp held)
  · intro j k x builds hj
    by_cases mine : j = i
    · subst mine
      exact hinv.held j k x builds ((hand _).mp hj)
    · exact hinv.held j k x builds ((foreign_act mine).mp hj)
  · exact fun k x held => .inl ((hand _).mp held)

/-- What the thread must have in order to publish. -/
def guardPublish (i : Nat) (o : KObs depth) : {β : Type} → PublishAct β → Prop
  | _, .provideInstance name ref => Backed i o ref.instanceId (.cap name)
  | _, .subscribeInstance _ inst topic => Backed i o inst (.sub topic)
  | _, _ => True

theorem sound_publish {a : PublishAct β} (hinv : Inv o) (busy : inCall i o.trace ≠ none)
    (guard : guardPublish i o a) :
    Inv (o.acted i (.pub a) b { o.mem with publications := (a.run o.mem.publications).2 }) ∧
      Guar i o (o.acted i (.pub a) b
        { o.mem with publications := (a.run o.mem.publications).2 }) := by
  cases a with
  | resolveRef =>
    exact sound_pub hinv busy (fun _ _ _ h => .inl h) (fun _ _ h => h.elim)
      fun _ _ h => h.elim
  | provideInstance name ref =>
    refine sound_pub hinv busy (fun l k kind there => ?_) (fun _ _ h => h.elim) ?_
    · change shown (display o.mem.publications ref (.cap name)) l k kind at there
      refine (shown_display there).imp_right fun new => ?_
      obtain ⟨rfl, -, rfl⟩ := new
      rfl
    · rintro k kind ⟨⟩
      exact guard
  | subscribeInstance logical inst topic =>
    refine sound_pub hinv busy (fun l k kind there => ?_) (fun _ _ h => h.elim) ?_
    · change shown (display o.mem.publications ⟨0, inst, 0, logical, 0⟩ (.sub topic)) l k kind
        at there
      refine (shown_display there).imp_right fun new => ?_
      obtain ⟨rfl, -, rfl⟩ := new
      rfl
    · rintro k kind ⟨⟩
      exact guard
  | revokeCapIfOwned name inst =>
    refine sound_pub hinv busy (fun l k kind there => .inl (shown_revokeCap there).1)
      (fun k kind gone l there => ?_) fun _ _ h => h.elim
    cases gone
    exact (shown_revokeCap there).2 ⟨rfl, rfl⟩
  | unsubscribeTopicIfOwned inst topic =>
    refine sound_pub hinv busy (fun l k kind there => .inl (shown_unsubscribe there).1)
      (fun k kind gone l there => ?_) fun _ _ h => h.elim
    cases gone
    exact (shown_unsubscribe there).2 ⟨rfl, rfl⟩

/-! ### Context actions -/

theorem Active.not_withdrawn (h : Active t k) : ¬ Withdrawn t k := by
  obtain ⟨s, hs, active⟩ := h
  rintro ⟨s', hs', dead⟩
  cases hs.symm.trans hs'
  simp [Fsm.live, active] at dead

theorem Live.not_withdrawn (h : Live t k) : ¬ Withdrawn t k := by
  obtain ⟨s, hs, live⟩ := h
  rintro ⟨s', hs', dead⟩
  cases hs.symm.trans hs'
  simp [live] at dead

/-- What a step of thread `i` does to the context of `k`. -/
inductive Shift (i : Nat) (o : KObs depth) (a : KAct β) (b : β) (t : ContextTable)
    (k : InstanceId) : Prop
  | same (after : t.stateOf k = o.mem.contexts.stateOf k)
  | rises (before : ¬ Withdrawn o.mem.contexts k) (idle : ¬ Active o.mem.contexts k) {s : Fsm}
      (after : t.stateOf k = some s) (live : s.live = true)
  | falls {s : Fsm} (after : t.stateOf k = some s) (dead : s.live = false)
      (active : Active o.mem.contexts k →
        wins a b k ∨ ∀ l kind, ¬ shown o.mem.publications l k kind)
      (live : Live o.mem.contexts k →
        turnsAway a k ∧ ¬ attends a b k ∧ Unattended i k o.trace)
      (ended : s = .disposed ∨ s = .failed →
        ∀ h r, o.mem.resources.records h = some r → r.ownerContext = k → r.state = .active →
          Withdrawn o.mem.contexts k ∧ ∃ j, inHand.During j (k, h) o.trace)

theorem Turns.of_shift (shift : ∀ k, Shift i o a b t k) (attended : ∀ k, attends a b k → Live t k)
    (dated : ∀ k g, Dated o.mem.contexts k g → Dated t k g) : Turns i o a b t where
  withdrawn k withdrawn := by
    cases shift k with
    | same after => exact withdrawn.of_same after
    | rises before => exact absurd withdrawn before
    | falls after dead => exact ⟨_, after, dead⟩
  active k active := by
    cases shift k with
    | same after => exact .inl (by rwa [Active, after])
    | rises _ idle => exact absurd active idle
    | falls after dead why => exact .inr ⟨⟨_, after, dead⟩, why active⟩
  ended k ended := by
    cases shift k with
    | same after => exact .inl (by rwa [Ended, ← after])
    | rises _ _ after live =>
      rcases ended with h | h
      all_goals
        cases after.symm.trans h
        cases live
    | falls after _ _ _ drained =>
      refine .inr (drained ?_)
      exact ended.imp (fun h => Option.some.inj (after.symm.trans h))
        fun h => Option.some.inj (after.symm.trans h)
  live k live := by
    cases shift k with
    | same after => exact .inl (by rwa [Live, after])
    | rises _ _ after live => exact .inl ⟨_, after, live⟩
    | falls _ _ _ why => exact .inr (why live)
  attended := attended
  dated := dated

theorem Shift.revise {k' : InstanceId} {s : Fsm} {cause : Option String}
    (here : o.mem.contexts.stateOf k' ≠ none →
      (o.mem.contexts.revise k' s cause).stateOf k' = some s →
        Shift i o a b (o.mem.contexts.revise k' s cause) k') :
    Shift i o a b (o.mem.contexts.revise k' s cause) k := by
  by_cases hk : k = k'
  · subst hk
    have after := o.mem.contexts.revise_stateOf k k s cause
    rw [if_pos rfl] at after
    cases known : o.mem.contexts.stateOf k with
    | none =>
      rw [known] at after
      exact .same (after.trans known.symm)
    | some s' =>
      rw [known] at after
      exact here (by simp [known]) after
  · exact .same (by rw [ContextTable.revise_stateOf, if_neg hk])

/-- What the thread must know of the contexts it moves. -/
def guardContext (i : Nat) (o : KObs depth) : {β : Type} → ContextAct β → Prop
  | _, .create _ state _ => state = .waiting ∨ state = .active
  | _, .markDisposed k => Withdrawn o.mem.contexts k ∧
    ∀ h r, o.mem.resources.records h = some r → r.ownerContext = k → r.state = .active →
      ∃ j, inHand.During j (k, h) o.trace
  | _, .markCleanupPending _ k _ => Withdrawn o.mem.contexts k
  | _, .markActive k => Live o.mem.contexts k ∨ Clear i k o
  | _, _ => True

theorem not_active_of_awaiting {s : Fsm} (hs : t.stateOf k = some s) (wait : s.awaiting = true) :
    ¬ Withdrawn t k ∧ ¬ Active t k := by
  refine ⟨Live.not_withdrawn ⟨s, hs, Fsm.live_of_awaiting wait⟩, ?_⟩
  rintro ⟨s', hs', active⟩
  cases hs.symm.trans hs'
  simp [Fsm.awaiting, active] at wait

theorem shift_ctx {a : ContextAct β} (guard : guardContext i o a)
    (ok : undisturbed o (.act i (KAct.ctx a) (a.run o.mem.contexts).1)) (k : InstanceId) :
    Shift i o (KAct.ctx a) (a.run o.mem.contexts).1 (a.run o.mem.contexts).2 k := by
  cases a with
  | epoch | get | current | currentAll | requireActive => exact .same rfl
  | create logical state cause =>
    have after := o.mem.contexts.createIn_stateOf logical state cause k
    by_cases new : k = o.mem.contexts.nextInstance
    · rw [if_pos new] at after
      have unknown : ∀ s, o.mem.contexts.stateOf k ≠ some s := fun s hs =>
        absurd (ContextTable.stateOf_lt hs) (by simp [new])
      refine .rises (fun h => ?_) (fun h => ?_) after ?_
      · obtain ⟨s, hs, -⟩ := h
        exact unknown s hs
      · obtain ⟨s, hs, -⟩ := h
        exact unknown s hs
      · rcases guard with rfl | rfl <;> rfl
    · exact .same (after.trans (if_neg new))
  | claimDispose k' =>
    rcases o.mem.contexts.claimDispose_cases k' with ⟨same, -⟩ | ⟨rec, -, -, claim⟩
    · exact .same (by rw [ContextAct.run, same])
    · rw [ContextAct.run, claim] at ok ⊢
      refine .revise fun _ after => ?_
      exact .falls after rfl (fun _ => .inl rfl) (fun _ => ⟨rfl, id, ok⟩)
        (by rintro (h | h) <;> cases h)
  | markDisposed k' =>
    refine .revise fun _ after => .falls after rfl (fun h => absurd guard.1 h.not_withdrawn)
      (fun h => absurd guard.1 h.not_withdrawn) fun _ h r found own active => ?_
    exact ⟨guard.1, guard.2 h r found own active⟩
  | markCleanupPending writer k' cause =>
    exact .revise fun _ after => .falls after rfl (fun h => absurd guard h.not_withdrawn)
      (fun h => absurd guard h.not_withdrawn) (by rintro (h | h) <;> cases h)
  | markFailed k' cause =>
    refine .revise fun _ after => .falls after rfl (fun _ => .inr ok.2.2)
      (fun _ => ⟨rfl, id, ok.1⟩) fun _ h r found own active => ?_
    exact absurd active (ok.2.1 h r found own)
  | markActive k' =>
    rcases o.mem.contexts.markActive_stateOf k' k with same | ⟨after, s, hs, wait⟩
    · exact .same same
    · obtain ⟨before, idle⟩ := not_active_of_awaiting hs wait
      exact .rises before idle after rfl
  | markWaiting k' cause =>
    rcases o.mem.contexts.markWaiting_stateOf k' k cause with same | ⟨after, s, hs, wait⟩
    · exact .same same
    · obtain ⟨before, idle⟩ := not_active_of_awaiting hs wait
      exact .rises before idle after rfl

theorem Live.markActive (h : Live t k) : Active (t.markActive k).2 k := by
  obtain ⟨s, hs, live⟩ := h
  obtain ⟨rec, found, rfl⟩ := Option.map_eq_some_iff.mp hs
  unfold ContextTable.markActive
  simp only [found]
  have revised : Active (t.revise k .active none) k :=
    ⟨.active, by rw [ContextTable.revise_stateOf, if_pos rfl, hs]; rfl, rfl⟩
  split
  · exact revised
  · exact revised
  · exact revised
  next active => exact ⟨_, hs, active⟩
  next => cases state : rec.state <;> simp_all [Fsm.live, Fsm.canonical]

theorem current_state {logical : String} {cur : ContextRecord} (h : t.current logical = some cur) :
    t.stateOf cur.instanceId = some cur.state := by
  obtain ⟨inst, -, found⟩ := Option.bind_eq_some_iff.mp h
  rw [(t.issued inst cur found).1]
  exact ContextTable.stateOf_of_byInstance found

theorem attended_ctx {a : ContextAct β} (guard : guardContext i o a) (k : InstanceId)
    (h : attends (KAct.ctx a) (a.run o.mem.contexts).1 k) : Live (a.run o.mem.contexts).2 k := by
  cases a with
  | current logical =>
    change attends (KAct.ctx (.current logical)) (o.mem.contexts.current logical) k at h
    change Live o.mem.contexts k
    cases found : o.mem.contexts.current logical with
    | none => simp [found, attends] at h
    | some cur =>
      rw [found] at h
      obtain ⟨rfl, wait⟩ := h
      exact ⟨_, current_state found, Fsm.live_of_awaiting wait⟩
  | create logical state cause =>
    have after := o.mem.contexts.createIn_stateOf logical state cause k
    have new : k = o.mem.contexts.nextInstance := Eq.symm h
    refine ⟨state, after.trans (if_pos new), ?_⟩
    rcases guard with rfl | rfl <;> rfl
  | _ => exact h.elim

theorem confirms_ctx {a : ContextAct β} (guard : guardContext i o a) (k : InstanceId)
    (h : confirms (KAct.ctx a) (a.run o.mem.contexts).1 k) :
    Active (a.run o.mem.contexts).2 k ∧ ¬ Withdrawn o.mem.contexts k ∨ Clear i k o := by
  cases a with
  | current logical =>
    left
    change confirms (KAct.ctx (.current logical)) (o.mem.contexts.current logical) k at h
    cases found : o.mem.contexts.current logical with
    | none => simp [found, confirms] at h
    | some cur =>
      rw [found] at h
      obtain ⟨rfl, active⟩ := h
      have here : Active o.mem.contexts cur.instanceId := ⟨_, current_state found, active⟩
      exact ⟨here, here.not_withdrawn⟩
  | markActive k' =>
    obtain rfl : k' = k := h
    exact guard.imp_left fun live => ⟨live.markActive, live.not_withdrawn⟩
  | _ => exact h.elim

/-! ### Every action -/

def guardResource (i : Nat) (o : KObs depth) : {β : Type} → ResourceAct β → Prop
  | _, .discard handle _ => Disposable i o handle
  | _, .rollbackRegister handle => Disposable i o handle
  | _, _ => True

def guard (i : Nat) (o : KObs depth) {β : Type} : KAct β → Prop
  | .ctx a => guardContext i o a
  | .res a => guardResource i o a
  | .pub a => guardPublish i o a
  | .comp (.putPlugin _ p) => Active o.mem.contexts p.instanceId ∨ Clear i p.instanceId o
  | .calls (.pendingFor k) => unpublishing.During i k o.trace → ∀ l kind,
    shown o.mem.publications l k kind → ∃ j, showing.During j (k, kind) o.trace
  | _ => True

theorem sound_resource {a : ResourceAct β} (hinv : Inv o) (busy : inCall i o.trace ≠ none)
    (guard : guardResource i o a)
    (ok : undisturbed o (.act i (KAct.res a) (a.run o.mem.resources).1)) :
    Inv (o.acted i (.res a) (a.run o.mem.resources).1
      { o.mem with resources := (a.run o.mem.resources).2 }) ∧
    Guar i o (o.acted i (.res a) (a.run o.mem.resources).1
      { o.mem with resources := (a.run o.mem.resources).2 }) := by
  cases a with
  | handlesFor | activeFor | record =>
    exact (takes_look (fun _ => id) (fun _ => id) rfl rfl 0).sound hinv busy
  | insert owner kind => exact sound_insert hinv busy owner kind
  | discard handle owner =>
    have back : ∀ h, takesBack (KAct.res (.discard handle owner)) h ↔ h = handle :=
      fun _ => eq_comm
    exact (takes_discard owner hinv guard (fun _ => id) back).sound hinv busy
  | rollbackRegister handle => exact (takes_rollback hinv guard).sound hinv busy
  | inspectRelease handle => exact (takes_inspect handle).sound hinv busy
  | claimRelease handle => exact (takes_claim handle ok).sound hinv busy

theorem sound (guarded : guard i o a) (acts : (discipline depth).Acts i o a b mem) :
    Inv (o.acted i a b mem) ∧ Guar i o (o.acted i a b mem) := by
  have hinv : Inv o := acts.inv
  have busy := acts.busy
  have enabled : a.sem o.mem = some (b, mem) := acts.enabled
  cases a with
  | ctx a =>
    cases enabled
    refine sound_tables hinv busy ⟨fun _ => id, fun _ => id, fun _ => id, fun _ => id⟩ rfl rfl
      (.of_shift (shift_ctx guarded acts.ok) (attended_ctx guarded) fun _ _ h => h.run a)
      (fun k => confirms_ctx guarded k) fun k h => h.elim
  | res a =>
    cases enabled
    exact sound_resource hinv busy guarded acts.ok
  | pub a =>
    cases enabled
    exact sound_publish hinv busy guarded
  | comp a =>
    cases enabled
    refine sound_tables hinv busy ⟨fun _ => id, fun _ => id, fun _ => id, fun _ => id⟩ rfl rfl
      (.same i o fun k h => h.elim) (fun k h => ?_) fun k h => h.elim
    cases a with
    | putPlugin logical p =>
      cases h
      exact guarded.imp_left fun active => ⟨active, active.not_withdrawn⟩
    | _ => exact h.elim
  | calls a =>
    cases enabled
    refine sound_tables hinv busy ⟨fun _ => id, fun _ => id, fun _ => id, fun _ => id⟩ rfl rfl
      (.same i o fun k h => h.elim) (fun k h => h.elim) fun k h => ⟨fun _ => id, ?_⟩
    cases a with
    | pendingFor k' =>
      cases h
      exact guarded
    | _ => exact h.elim
  | _ =>
    have tables := KAct.sem_sameTables enabled rfl
    exact sound_tables hinv busy ⟨fun _ => id, fun _ => id, fun _ => id,
      fun _ => id⟩ tables.resources
      tables.publications (by rw [tables.contexts]; exact .same i o fun k h => h.elim)
      (fun k h => h.elim) fun k h => h.elim

def guarded (depth : Nat) : (discipline depth).Guarded where
  guard i o _ a := guard i o a
  sound _ _ _ _ _ _ guarded acts := sound guarded acts

end Acted

end MatrixRuntime.ProvisionalResources
