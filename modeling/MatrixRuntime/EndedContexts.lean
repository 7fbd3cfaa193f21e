import MatrixRuntime.ProvisionalOperations

/-! What is left of a context that has ended. Once no operation is in progress, a disposed or
failed context owns no active resource and shows nothing, provided that no activation is
disposed of while another operation brings it up; for operations that follow each other
it is enough that no plugin goes over its fault budget. -/

namespace MatrixRuntime.EndedContexts

open KernelContexts KernelTickets KernelResources KernelState KernelActions KernelReconcile
open KernelOperations InterleavedProgram InterleavedMachine RelyGuarantee Discipline
open ReconcileFrame CallFrame OperationFrame OwnedPublications ProvisionalResources
open ProvisionalOperations

variable {depth : Nat} {m₀ : KState} {c : Config (kernel depth)} {label : KLabel depth}
  {o : KObs depth} {k : InstanceId}

/-! ### Interleaved operations -/

theorem quiescent_inCall (tracked : c.Tracked) (quiet : c.Quiescent) (i : Nat) :
    inCall i c.trace = none := by
  rw [← tracked i, quiet i]
  rfl

/-- Nothing in progress, nothing in hand. -/
theorem settled_owned (sound : Sound m₀) (run : Run undisturbed (.boot m₀) c)
    (quiet : c.Quiescent) {h : ResourceHandle} {r : ResourceRecord}
    (found : c.mem.resources.records h = some r) (active : r.state = .active) :
    ¬ Ended c.mem.contexts r.ownerContext := by
  intro ended
  have good := verified.run (D := discipline depth) (inv_boot sound) run
  have hinv : ProvisionalResources.Inv c.toObs := good.inv
  obtain ⟨j, held⟩ := hinv.owned h r found active ended
  exact (hinv.idle j (quiescent_inCall good.tracked quiet j)).1 _ held

theorem settled_shown (sound : Sound m₀) (run : Run undisturbed (.boot m₀) c)
    (quiet : c.Quiescent) {l : String} {k : InstanceId} {kind : ResourceKind}
    (there : shown c.mem.publications l k kind) : Active c.mem.contexts k := by
  have good := verified.run (D := discipline depth) (inv_boot sound) run
  have hinv : ProvisionalResources.Inv c.toObs := good.inv
  have idle := fun j => hinv.idle j (quiescent_inCall good.tracked quiet j)
  rcases hinv.shows l k kind there with active | ⟨j, hj⟩ | ⟨j, hj⟩
  · exact active
  · exact absurd hj ((idle j).2.1 _)
  · exact absurd hj ((idle j).2.2 _)

theorem not_active_of_ended {t : ContextTable} (ended : Ended t k) :
    ¬ Active t k := by
  rintro ⟨s, found, active⟩
  rcases ended with state | state
  · cases found.symm.trans state
    cases active
  · cases found.symm.trans state
    cases active

theorem bare_of_ended (sound : Sound m₀) (run : Run undisturbed (.boot m₀) c)
    (quiet : c.Quiescent) {k : InstanceId} (ended : Ended c.mem.contexts k) : Bare c.mem k := by
  refine ⟨fun h r found own active => ?_, fun l kind there => ?_⟩
  · subst own
    exact settled_owned sound run quiet found active ended
  · exact not_active_of_ended ended (settled_shown sound run quiet there)

/-- No other of the first `n` threads, which are all there are, is bringing activations up. -/
def lone (n i : Nat) (trace : List (KLabel depth)) : Bool :=
  trace.all (fun label => label.thread.all (· < n)) &&
    (List.range n).all fun j => j == i || (inCall j trace).all acquires

theorem unbuilt_of_lone {n i : Nat} {trace : List (KLabel depth)}
    (h : lone n i trace = true) : ∀ j, j ≠ i → ¬ Builds j trace := by
  rw [lone, Bool.and_eq_true] at h
  rintro j other ⟨op, running, builds⟩
  by_cases small : j < n
  · have checked := List.all_eq_true.mp h.2 j (List.mem_range.mpr small)
    simp [other, running, builds] at checked
  · have absent : inCall j trace = none := inCall_of_absent fun label there named => by
      have bound := List.all_eq_true.mp h.1 label there
      rw [named] at bound
      exact small (of_decide_eq_true bound)
    cases absent.symm.trans running

/-- The label is that of a context failing. -/
def failing : KLabel depth → Bool
  | .act _ (KAct.ctx (.markFailed _ _)) _ => true
  | _ => false

/-- The thread that claims an instance or a resource. -/
def claimant : KLabel depth → Option Nat
  | .act i (KAct.ctx (.claimDispose _)) _ => some i
  | .act i (KAct.res (.claimRelease _)) _ => some i
  | _ => none

theorem undisturbed_of_unbuilt (spared : failing label = false)
    (unbuilt : ∀ i, claimant label = some i → ∀ j, j ≠ i → ¬ Builds j o.trace) :
    undisturbed o label := by
  cases label with
  | act i a reply =>
    cases a with
    | ctx a =>
      cases a with
      | claimDispose k =>
        cases reply with
        | error e => exact trivial
        | ok claim =>
          cases claim with
          | fresh rec => exact fun j other builds => absurd builds (unbuilt i rfl j other)
          | inFlight logical => exact trivial
      | markFailed k cause => cases spared
      | _ => exact trivial
    | res a =>
      cases a with
      | claimRelease h => exact fun j other builds => absurd builds (unbuilt i rfl j other)
      | _ => exact trivial
    | _ => exact trivial
  | _ => exact trivial

/-- A check for schedules of `n` threads. -/
def lonely (n : Nat) (o : KObs depth) (label : KLabel depth) : Bool :=
  !failing label && (claimant label).all fun i => lone n i o.trace

theorem undisturbed_of_lonely {n : Nat} (h : lonely n o label = true) : undisturbed o label := by
  rw [lonely, Bool.and_eq_true, Bool.not_eq_true'] at h
  refine undisturbed_of_unbuilt h.1 fun i claims => unbuilt_of_lone (n := n) ?_
  simpa [claims] using h.2

/-- Once no operation is in progress, what is published is that of an active instance, and no
disposed instance owns an active resource. What a refused acquisition has registered is
not active when the refusal is returned, and never will be. -/
theorem acquisitions_end_clean (sound : Sound m₀) (run : Run undisturbed (.boot m₀) c) :
    (c.Quiescent →
      (∀ l k kind, shown c.mem.publications l k kind → Active c.mem.contexts k) ∧
      ∀ h r, c.mem.resources.records h = some r → r.state = .active →
        c.mem.contexts.stateOf r.ownerContext ≠ some .disposed) ∧
    ∀ i op e c₁ c₂, single op = true → Step c (.done i op (.acquired (.error e))) c₁ →
      Run undisturbed c₁ c₂ → ∀ h r, registering.During i h c.trace →
        c₂.mem.resources.records h = some r → r.state ≠ .active := by
  refine ⟨fun quiet => ⟨fun l k kind => settled_shown sound run quiet,
    fun h r found active disposed => settled_owned sound run quiet found active (.inl disposed)⟩,
    fun i op e c₁ c₂ one returns rest h r registered found => ?_⟩
  have good := verified.run (D := discipline depth) (inv_boot sound) run
  cases returns with
  | done finished =>
    obtain ⟨o, rely, returned⟩ := good.threads i op _ finished
    have now : Returned i op (.acquired (.error e)) c.toObs :=
      (verified.stable i op _).rely rely returned
    have spent : Spent h c.toObs := (now.2 e one rfl h registered).resolve_left id
    have later : Run undisturbed c c₂ :=
      .head ⟨.done i op (.acquired (.error e)), trivial, .done finished⟩ rest
    have spent' : Spent h c₂.toObs := verified.persists (D := discipline depth)
      (spent_lasting h).guar (spent_lasting h).env good later spent
    exact spent'.2 r found

/-- The thread's acquisition was refused. -/
def refusal (i : Nat) : Label (kernel depth) → Bool
  | .done j _ (.acquired (.error _)) => j == i
  | _ => false

/-- An acquisition that has published when its instance is disposed of is refused. -/
theorem acquisition_refused_clean : ∃ c : Config (kernel 1), Sound (KState.boot 1) ∧
    Run undisturbed (.boot (KState.boot 1)) c ∧ c.Quiescent ∧
      c.mem.contexts.stateOf 1 = some .disposed ∧ c.trace.any (refusal 0) = true ∧
      (∀ l k kind, shown c.mem.publications l k kind → Active c.mem.contexts k) ∧
      ∀ h r, c.mem.resources.records h = some r → r.state = .active →
        c.mem.contexts.stateOf r.ownerContext ≠ some .disposed := by
  obtain ⟨c, run, quiet, disposed, refused⟩ := Config.plays (KState.boot 1) (lonely 2)
    (P := fun c : Config (kernel 1) => c.mem.contexts.stateOf 1 = some .disposed ∧
      c.trace.any (refusal 0) = true) (fun _ _ => undisturbed_of_lonely) 200 2
    [.start 0 (.loadManifest provider), .finish 0, .start 0 (.acquire "p" (.cap "z")), .steps 0 4,
      .start 1 (.disposeInstance 1), .finish 1, .finish 0] (by decide +kernel)
  exact ⟨c, sound_boot 1, run, quiet, disposed, refused,
    (acquisitions_end_clean (sound_boot 1) run).1 quiet⟩

/-- Three disposals of the provider, each of which reconciles. The second is about to register
for the waiting consumer; the third activates it and the first, whose snapshot still has
the consumer without a provider, disposes of it. The second then finds that it cannot
activate it, and takes nothing back. -/
theorem stale_withdrawal_leaves_resource : ∃ c : Config (kernel 1),
    Run (fun _ _ => True) (.boot (KState.boot 1)) c ∧ c.Quiescent ∧
      c.trace.any (refusal 0) = true ∧ c.mem.contexts.stateOf 3 = some .disposed ∧
      (c.mem.resources.records 5).map (fun r => (r.ownerContext, r.state)) =
        some (3, .active) :=
  Config.plays_freely 200 4 [.start 0 (.loadManifest provider), .finish 0,
    .start 0 (.loadManifest consumer), .finish 0, .start 0 (.acquire "p" (.cap "z")),
    .start 1 (.disposeInstance 1), .start 2 (.disposeInstance 1), .start 3 (.disposeInstance 1),
    .steps 0 2, .steps 1 29, .steps 2 62, .finish 3, .steps 1 24, .finish 2, .finish 1,
    .finish 0] (by decide +kernel)

/-! ### Operations that follow each other -/

/-- Operations start while none is in progress, and no fault finds the budget of its plugin
spent. -/
def thrifty (o : Obs (kernel depth)) : Label (kernel depth) → Prop
  | .start _ _ => ∀ j, inCall j o.trace = none
  | .act _ (KAct.comp (.faultPlugin logical now)) _ =>
    (o.mem.composition.fault logical now).1 = false
  | _ => True

/-- Actions other than failing a context. -/
abbrev sparing (β : Type) : KAct β → Prop
  | .ctx (.markFailed _ _) => False
  | _ => True

inductive Faulting : ∀ β : Type, KProg β → Prop
  | fault (fiber mode : String) : Faulting _ (fault fiber mode)

abbrev Spares {α : Type} (p : KProg α) : Prop := Composed sparing (fun _ _ => False) p

variable {α : Type} {p : KProg α} {again : KProg Unit}

instance : Included finalizing sparing where

theorem maybeFinalize_spares (hagain : Spares again) (inst : InstanceId) :
    Spares (maybeFinalize again inst) := by
  refine (maybeFinalize_finalizes inst).widen fun β q hq => ?_
  cases hq
  exact hagain

instance : Included composing sparing where

instance : Included disposing sparing where

theorem spares_of_composes (h : Composes again p) (hagain : Spares again) : Spares p := by
  refine h.widen fun β q hq => ?_
  cases hq with
  | dispose inst =>
    refine (disposeInstanceInner_composed inst).widen fun β q hq => ?_
    cases hq
    exact hagain
  | release handle =>
    refine (beginRelease_releases handle).weaken fun β a ha => ?_
    cases a with
    | ctx => exact ha.elim
    | _ => exact trivial
  | again => exact hagain

theorem reconcile_spares (n : Nat) : Spares (reconcile n) := by
  induction n with
  | zero => exact .blocked
  | succ n ih => exact spares_of_composes (reconcile_succ_composes n) ih

instance : Included acquiring sparing where

/-- Contexts fail in faults only. -/
theorem operation_spares (op : Op) (n : Nat) :
    Composed sparing Faulting (op.code (reconcile n)) := by
  by_cases recomposing : recomposes op = true
  · exact (spares_of_composes (recomposes_composes recomposing) (reconcile_spares n)).weaken
      fun _ _ => id
  by_cases calls : calling op = true
  · refine (calling_calls calls).mono (fun β a ha => ?_) fun β q hq => ?_
    · cases a with
      | ctx a => cases a <;> first | exact trivial | exact ha.elim
      | _ => exact trivial
    · cases hq with
      | finalize inst =>
        exact (maybeFinalize_spares (reconcile_spares n) inst).weaken fun _ _ => id
      | fault fiber mode => exact .whole (.fault fiber mode)
  have spares : ∀ {β : Type} {q : KProg β}, Acquires q → Composed sparing Faulting q := by
    exact fun h => h.relax
  cases op with
  | acquire logical kind => exact .map (spares (acquire_acquires ..))
  | acquireExternal logical kind inst generation =>
    exact .map (spares (acquireExternal_acquires ..))
  | acquireBatch logical kinds => exact .map (spares (acquireBatch_acquires ..))
  | release handle => exact .map (spares (releaseHandle_acquires _))
  | _ => first | exact absurd rfl recomposing | exact absurd rfl calls

/-- The only operation in progress takes the step, and no context fails. -/
def InTurn (o : KObs depth) (label : KLabel depth) : Prop :=
  failing label = false ∧ ∀ i, label.thread = some i → ∀ j, j ≠ i → inCall j o.trace = none

/-- At most one operation is in progress, and no context fails. -/
def turns (depth : Nat) : Discipline (kernel depth) where
  inv o := ∀ i j, inCall i o.trace ≠ none → inCall j o.trace ≠ none → i = j
  guar _ o o' := ∀ label, o'.trace = label :: o.trace → InTurn o label
  ok := thrifty

theorem act_turns {i : Nat} {β : Type} {a : KAct β} (ha : sparing β a) :
    (turns depth).Keeps i (fun _ => True) a := by
  intro o reply mem _ acts
  refine ⟨acts.inv, fun label logged => ?_, trivial⟩
  cases (List.cons.inj logged).1
  refine ⟨?_, fun k own j other => ?_⟩
  · cases a with
    | ctx a => cases a <;> first | rfl | exact ha.elim
    | _ => rfl
  · cases own
    exact by_contra fun running => other (acts.inv j i running acts.busy)

/-- A fault within the budget fails nothing. -/
theorem fault_turns (i : Nat) (fiber mode : String) (o : KObs depth) :
    (turns depth).wp i (fault fiber mode) (fun _ _ => True) o := by
  have plain : ∀ {β : Type} {a : KAct β} (o : KObs depth), sparing β a →
      (turns depth).wp i (perform a) (fun _ _ => True) o := fun o ha =>
    wp_keeps (Stable.const True) (act_turns ha) trivial fun _ _ h => h
  have within : ∀ now (o : KObs depth), (turns depth).wp i (comp (.faultPlugin fiber now))
      (fun failed _ => failed = false) o := by
    intro now o
    refine wp_act (P := fun _ => True) (Stable.const True) trivial fun o₁ reply mem _ acts => ?_
    obtain ⟨inv, guar, -⟩ := act_turns (a := .comp (.faultPlugin fiber now)) trivial o₁ reply mem
      trivial acts
    have enabled : (KAct.comp (.faultPlugin fiber now)).sem o₁.mem = some (reply, mem) :=
      acts.enabled
    cases enabled
    exact ⟨inv, guar, acts.ok⟩
  refine wp_seq (plain o trivial) fun now o₁ _ => wp_seq (within now o₁) fun failed o₂ spent => ?_
  subst spent
  exact wp_seq (plain (a := .journal _) o₂ trivial) fun _ _ _ => trivial

theorem turns_verified : (turns depth).Verified fun _ _ _ _ => True where
  stable _ _ _ := Stable.const True
  start i op o hinv idle allowed := by
    refine ⟨fun j k hj hk => ?_, fun label logged => ?_, ?_⟩
    · have only : ∀ x, inCall x (o.log (.start i op)).trace ≠ none → i = x := fun x hx =>
        by_contra fun other => hx ((if_neg other).trans (allowed x))
      exact (only j hj).symm.trans (only k hk)
    · cases (List.cons.inj logged).1
      exact ⟨rfl, fun _ _ j _ => allowed j⟩
    · exact wp_composed (operation_spares op depth) (Stable.const True) (fun _ _ => act_turns)
        (fun β q hq o _ => by cases hq; exact fault_turns i _ _ o) trivial
  done i op res o hinv running _ _ := by
    have busy : inCall i o.trace ≠ none := by simp [running]
    refine ⟨fun j k hj _ => ?_, fun label logged => ?_⟩
    · -- the operation that ends was the only one
      have other : j ≠ i := fun same => hj (if_pos same.symm)
      exact absurd (hinv j i (fun none => hj ((if_neg (Ne.symm other)).trans none)) busy) other
    · cases (List.cons.inj logged).1
      refine ⟨rfl, fun k own j other => ?_⟩
      cases own
      exact by_contra fun running => other (hinv j i running busy)
  env event o hinv _ := hinv

theorem claimant_thread {i : Nat} (h : claimant label = some i) :
    label.thread = some i := by
  cases label with
  | act j a reply =>
    cases a with
    | ctx a => cases a <;> first | exact h | cases h
    | res a => cases a <;> first | exact h | cases h
    | _ => cases h
  | _ => cases h

theorem undisturbed_of_inTurn (h : InTurn o label) : undisturbed o label := by
  refine undisturbed_of_unbuilt h.1 fun i claims j other builds => ?_
  obtain ⟨op, running, -⟩ := builds
  cases (h.2 i (claimant_thread claims) j other).symm.trans running

/-- After operations that follow each other with every fault within its budget, a context that
has ended owns no active resource and shows nothing. -/
theorem ended_ends_bare (sound : Sound m₀) (run : Run thrifty (.boot m₀) c)
    (quiet : c.Quiescent) {k : InstanceId}
    (ended : c.mem.contexts.stateOf k = some .disposed ∨ c.mem.contexts.stateOf k = some .failed) :
    (∀ h r, c.mem.resources.records h = some r → r.ownerContext = k → r.state ≠ .active) ∧
      ∀ l kind, ¬ shown c.mem.publications l k kind := by
  have inTurn : Run (fun o label => thrifty o label ∧ InTurn o label) (.boot m₀) c :=
    turns_verified.enforces (D := turns depth) (fun _ _ => id)
      (fun _ _ _ label guar logged => guar label logged)
      (fun _ _ => ⟨rfl, fun _ own => by cases own⟩) (fun _ _ hi => absurd rfl hi) run
  exact bare_of_ended sound (inTurn.mono fun _ _ h => undisturbed_of_inTurn h.2) quiet ended

/-- A check for schedules of one thread. -/
def frugal (o : KObs depth) : KLabel depth → Bool
  | .start i _ => i == 0 && (inCall 0 o.trace).isNone && o.solo 0
  | .act _ (KAct.comp (.faultPlugin logical now)) _ => !(o.mem.composition.fault logical now).1
  | _ => true

theorem thrifty_of_frugal (h : frugal o label = true) : thrifty o label := by
  cases label with
  | start i op =>
    simp only [frugal, Bool.and_eq_true, Option.isNone_iff_eq_none] at h
    intro j
    by_cases first : j = 0
    · rw [first, h.1.2]
    · exact inCall_of_absent (Obs.solo_absent h.2 first)
  | act i a reply =>
    cases a with
    | comp a =>
      cases a with
      | faultPlugin logical now => exact (Bool.not_eq_true' _).mp h
      | _ => exact trivial
    | _ => exact trivial
  | _ => exact trivial

/-- A component whose reducer faults. -/
def crasher : StoredManifest := { StoredManifest.component "p" ["x"] [] none with
  reducer := "crasher" }

def crashes (n : Nat) : List (Turn (kernel depth)) :=
  [.start 0 (.loadManifest crasher), .finish 0] ++
    (List.replicate n [.start 0 (.invoke "x" .null none none), .finish 0]).flatten

/-- A component that has faulted within its budget is disposed of. -/
theorem crashed_then_bare : ∃ c : Config (kernel 1), Sound (KState.boot 1) ∧
    Run thrifty (.boot (KState.boot 1)) c ∧ c.Quiescent ∧
      c.mem.contexts.stateOf 1 = some .disposed ∧
      (∀ h r, c.mem.resources.records h = some r → r.ownerContext = 1 → r.state ≠ .active) ∧
      ∀ l kind, ¬ shown c.mem.publications l 1 kind := by
  obtain ⟨c, run, quiet, disposed⟩ := Config.plays (KState.boot 1) frugal
    (P := fun c : Config (kernel 1) => c.mem.contexts.stateOf 1 = some .disposed)
    (fun _ _ => thrifty_of_frugal) 200 1
    (crashes 2 ++ [.start 0 (.disposeInstance 1), .finish 0]) (by decide +kernel)
  exact ⟨c, sound_boot 1, run, quiet, disposed,
    ended_ends_bare (sound_boot 1) run quiet (.inl disposed)⟩

/-- With its sixth fault within ten seconds the context of a component fails, and keeps the
resource it owns and the capability it publishes. -/
theorem sixth_fault_leaves_resource : ∃ c : Config (kernel 1),
    Run (fun _ _ => True) (.boot (KState.boot 1)) c ∧ c.Quiescent ∧ c.toObs.solo 0 = true ∧
      c.mem.contexts.stateOf 1 = some .failed ∧
      (c.mem.resources.records 1).map (fun r => (r.ownerContext, r.state)) = some (1, .active) ∧
      (c.mem.publications.caps "x").map (·.instanceId) = some 1 :=
  Config.plays_freely 200 1 (crashes 6) (by decide +kernel)

end MatrixRuntime.EndedContexts
