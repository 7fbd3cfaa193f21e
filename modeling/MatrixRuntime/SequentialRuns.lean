import MatrixRuntime.InterleavedMachine

/-! Runs in which operations follow one another: none starts while another is in progress, and
only the environment acts between the actions of one. A reading of such a machine forgets the
part of the memory that the environment changes and says what each action may do to the rest, so
that a program is followed action by action and nothing else happens in between. It may also say
where an action is allowed; a verified operation takes it nowhere else. -/

namespace MatrixRuntime.SequentialRuns

open InterleavedProgram InterleavedMachine

variable {Mem : Type} {Act : Type → Type 1} {Op Res Env V : Type} {M : Machine Mem Act Op Res Env}
  {mem : Mem} {c : Config M}

structure Reading (M : Machine Mem Act Op Res Env) (V : Type) where
  view : Mem → V
  may : ∀ {β : Type}, Act β → V → β → V → Prop
  sound : ∀ {β : Type} {action : Act β} {mem mem' : Mem} {reply : β},
    M.sem action mem = some (reply, mem') → may action (view mem) reply (view mem')
  env : ∀ event mem, view (M.env event mem) = view mem
  safe : ∀ {β : Type}, Act β → V → Prop

namespace Reading

variable (R : Reading M V)

/-- Whatever its actions reply, the program takes them only where they are allowed, and returns
only with a value and a view as in `Q`. -/
def After {α : Type} : Prog Act α → (α → V → Prop) → V → Prop
  | .pure value, Q, v => Q value v
  | .act action next, Q, v =>
    R.safe action v ∧ ∀ reply v', R.may action v reply v' → After (next reply) Q v'
  | .blocked, _, _ => True

variable {R} {α β γ : Type} {p : Prog Act α} {Q Q' : α → V → Prop} {v : V}

@[simp] theorem after_pure {value : α} : R.After (.pure value) Q v ↔ Q value v := Iff.rfl

theorem after_act {action : Act β} {next : β → Prog Act α} : R.After (.act action next) Q v ↔
    R.safe action v ∧ ∀ reply v', R.may action v reply v' → R.After (next reply) Q v' := Iff.rfl

theorem After.mono (h : R.After p Q v) (weaker : ∀ value v', Q value v' → Q' value v') :
    R.After p Q' v := by
  induction p generalizing v with
  | pure value => exact weaker value v h
  | act action next ih => exact ⟨h.1, fun reply v' may => ih reply (h.2 reply v' may)⟩
  | blocked => trivial

@[simp] theorem after_bind {f : α → Prog Act γ} {Q : γ → V → Prop} :
    R.After (p.bind f) Q v ↔ R.After p (fun value => R.After (f value) Q) v := by
  induction p generalizing v with
  | pure value => rfl
  | act action next ih =>
    exact and_congr_right fun _ => forall_congr' fun reply => forall₂_congr fun v' _ => ih reply
  | blocked => rfl

theorem After.bind {f : α → Prog Act γ} {Q' : γ → V → Prop} (h : R.After p Q v)
    (rest : ∀ value v', Q value v' → R.After (f value) Q' v') : R.After (p.bind f) Q' v :=
  after_bind.mpr (h.mono rest)

theorem After.pos {c : Prop} [Decidable c] {q : Prog Act α} (hc : c) (h : R.After p Q v) :
    R.After (if c then p else q) Q v := by
  rw [if_pos hc]
  exact h

theorem After.neg {c : Prop} [Decidable c] {q : Prog Act α} (hc : ¬ c) (h : R.After q Q v) :
    R.After (if c then p else q) Q v := by
  rw [if_neg hc]
  exact h

theorem After.ite {c : Prop} [Decidable c] {q : Prog Act α} (h : c → R.After p Q v)
    (h' : ¬ c → R.After q Q v) : R.After (if c then p else q) Q v := by
  by_cases hc : c
  · exact .pos hc (h hc)
  · exact .neg hc (h' hc)

/-- The program leaves every view that satisfies `P` at one that does. -/
def Keeps (R : Reading M V) (P : V → Prop) (p : Prog Act α) : Prop :=
  ∀ v, P v → R.After p (fun _ => P) v

variable {P : V → Prop}

theorem Keeps.bind {f : α → Prog Act γ} (hp : R.Keeps P p) (hf : ∀ value, R.Keeps P (f value)) :
    R.Keeps P (p.bind f) :=
  fun v h => (hp v h).bind fun value v' => hf value v'

theorem Keeps.composed {C : ∀ β : Type, Act β → Prop} {S : ∀ β : Type, Prog Act β → Prop}
    (h : Composed C S p) (allowed : ∀ β action, C β action → ∀ v, P v → R.safe action v)
    (actions : ∀ β action, C β action → ∀ v reply v', P v → R.may action v reply v' → P v')
    (wholes : ∀ β q, S β q → R.Keeps P q) : R.Keeps P p := by
  induction h with
  | pure value => exact fun _ hP => hP
  | blocked => exact fun _ _ => trivial
  | act known _ ih =>
    exact fun v hP => ⟨allowed _ _ known v hP,
      fun reply v' may => ih reply v' (actions _ _ known v reply v' hP may)⟩
  | sub known _ ih => exact (wholes _ _ known).bind ih

/-- What every allowed action keeps, the program keeps. -/
theorem After.held {P : V → Prop} (h : R.After p Q v) (hP : P v)
    (step : ∀ {β : Type} {action : Act β} {v reply v'}, R.safe action v →
      R.may action v reply v' → P v → P v') :
    R.After p (fun value v' => Q value v' ∧ P v') v := by
  induction p generalizing v with
  | pure value => exact ⟨h, hP⟩
  | act action next ih =>
    exact ⟨h.1, fun reply v' may => ih reply (h.2 reply v' may) (step h.1 may hP)⟩
  | blocked => trivial

theorem After.forEach {ι : Type} {body : ι → Prog Act Unit} {P : List ι → V → Prop}
    (step : ∀ x xs v, P (x :: xs) v → R.After (body x) (fun _ => P xs) v) (xs : List ι)
    (h : P xs v) : R.After (forEach xs body) (fun _ => P []) v := by
  induction xs generalizing v with
  | nil => exact h
  | cons x xs ih => exact (step x xs v h).bind fun _ v' => ih

end Reading

/-! ### Programs run alone -/

/-- What a program returns and leaves when nothing else acts, if it is not kept waiting. -/
def alone (M : Machine Mem Act Op Res Env) {α : Type} : Prog Act α → Mem → Option (α × Mem)
  | .pure value, mem => some (value, mem)
  | .act action next, mem => (M.sem action mem).bind fun r => alone M (next r.1) r.2
  | .blocked, _ => none

@[simp] theorem alone_perform {β : Type} {action : Act β} :
    alone M (perform action) mem = M.sem action mem := by
  simp only [perform, alone]
  cases M.sem action mem <;> rfl

@[simp] theorem alone_bind {α β : Type} {p : Prog Act α} {f : α → Prog Act β} :
    alone M (p.bind f) mem = (alone M p mem).bind fun r => alone M (f r.1) r.2 := by
  induction p generalizing mem with
  | pure value => rfl
  | act action next ih =>
    simp only [Prog.act_bind, alone, ih]
    cases M.sem action mem <;> rfl
  | blocked => rfl

/-- What a program returns alone, it returns for some replies. -/
theorem alone_yields {α : Type} {p : Prog Act α} {P : α → Bool}
    (h : (alone M p mem).any (fun r => P r.1) = true) :
    ∃ value, p.Yields value ∧ P value = true := by
  induction p generalizing mem with
  | pure value => exact ⟨value, .pure value, h⟩
  | act action next ih =>
    simp only [alone] at h
    cases sem : M.sem action mem with
    | none => simp [sem] at h
    | some r =>
      rw [sem] at h
      obtain ⟨value, yields, holds⟩ := ih r.1 h
      exact ⟨value, .act r.1 yields, holds⟩
  | blocked => cases h

/-- What every action of a class keeps, a program made of them keeps. -/
theorem alone_kept {C : ∀ β : Type, Act β → Prop} {P : Mem → Prop} {α : Type} {p : Prog Act α}
    {value : α} {mem' : Mem} (h : Composed C (fun _ _ => False) p)
    (keeps : ∀ β (action : Act β), C β action → ∀ mem reply mem',
      M.sem action mem = some (reply, mem') → P mem → P mem')
    (runs : alone M p mem = some (value, mem')) (hP : P mem) : P mem' := by
  induction h generalizing mem with
  | pure value =>
    cases runs
    exact hP
  | blocked => cases runs
  | act known _ ih =>
    obtain ⟨⟨reply, mid⟩, sem, rest⟩ := Option.bind_eq_some_iff.mp runs
    exact ih reply rest (keeps _ _ known _ _ _ sem hP)
  | sub known => exact known.elim

/-! ### Runs -/

/-- Operations start only while none is in progress, and only where `ok` allows them. -/
def oneAtATime (R : Reading M V) (ok : V → Op → Prop) (o : Obs M) : Label M → Prop
  | .start _ op => (∀ j, inCall j o.trace = none) ∧ ok (R.view o.mem) op
  | _ => True

/-- A check for schedules of one thread, whose operations start where `ok` allows them. -/
def single (R : Reading M V) (ok : V → Op → Bool) (o : Obs M) : Label M → Bool
  | .start i op => decide (i = 0) && (inCall 0 o.trace).isNone &&
    o.trace.all (fun label => label.thread.all (· == 0)) && ok (R.view o.mem) op
  | _ => true

theorem oneAtATime_of_single {R : Reading M V} {ok : V → Op → Bool} {o : Obs M} {label : Label M}
    (h : single R ok o label = true) : oneAtATime R (fun v op => ok v op = true) o label := by
  cases label with
  | start i op =>
    simp only [single, Bool.and_eq_true, decide_eq_true_eq, Option.isNone_iff_eq_none] at h
    obtain ⟨⟨⟨rfl, idle⟩, own⟩, allowed⟩ := h
    refine ⟨fun j => ?_, allowed⟩
    by_cases first : j = 0
    · rw [first, idle]
    · refine inCall_of_absent fun label there named => first ?_
      have := List.all_eq_true.mp own label there
      rw [named] at this
      exact eq_of_beq this
  | _ => trivial

theorem oneAtATime_of_alone (R : Reading M V) (o : Obs M) (label : Label M)
    (h : single R (fun _ _ => true) o label = true) : oneAtATime R (fun _ _ => True) o label := by
  simpa using oneAtATime_of_single h

/-- Every operation keeps `inv`, and returns as `post` says. -/
structure Reading.Verified (R : Reading M V) (ok : V → Op → Prop) (inv : V → Prop)
    (post : Op → Res → V → Prop) : Prop where
  op : ∀ op v, inv v → ok v op → R.After (M.code op) (fun res v' => inv v' ∧ post op res v') v

namespace Reading

variable {R : Reading M V} {ok : V → Op → Prop} {inv : V → Prop} {post : Op → Res → V → Prop}

/-- Nothing runs and the invariant holds, or one operation runs and will return with it. -/
inductive InTurn (R : Reading M V) (inv : V → Prop) (post : Op → Res → V → Prop) (c : Config M) :
    Prop
  | idle (quiet : c.Quiescent) (holds : inv (R.view c.mem))
  | busy (i : Nat) (op : Op) (p : Prog Act Res) (running : c.threads i = some ⟨op, p⟩)
      (alone : ∀ j, j ≠ i → c.threads j = none)
      (goes : R.After p (fun res v => inv v ∧ post op res v) (R.view c.mem))

theorem Verified.step (V : R.Verified ok inv post) {c c' : Config M} {label : Label M}
    (tracked : c.Tracked) (h : InTurn R inv post c) (allowed : oneAtATime R ok c.toObs label)
    (step : Step c label c') : InTurn R inv post c' := by
  -- a step of a thread is one of the running thread, since no other has anything to do
  have mine : ∀ {i op p} {t : Nat} {th : Thread M}, c.threads i = some ⟨op, p⟩ →
      (∀ j, j ≠ i → c.threads j = none) → c.threads t = some th → t = i ∧ th = ⟨op, p⟩ := by
    intro i op p t th running alone found
    have own : t = i := by_contra fun other => by simp [alone t other] at found
    subst own
    exact ⟨rfl, Option.some.inj (found.symm.trans running)⟩
  cases step with
  | @start i op idle =>
    have quiet : c.Quiescent := fun j => by simpa [← tracked j] using allowed.1 j
    cases h with
    | idle _ holds =>
      exact .busy i op (M.code op) (by simp) (fun j other => by simp [other, quiet j])
        (V.op op _ holds allowed.2)
    | busy j op' p running => simp [quiet j] at running
  | @act i op β action next reply mem running enabled =>
    cases h with
    | idle quiet => simp [quiet i] at running
    | busy j op' p running' alone goes =>
      obtain ⟨rfl, same⟩ := mine running' alone running
      cases same
      exact .busy i op (next reply) (by simp) (fun k other => by simp [other, alone k other])
        (goes.2 reply _ (R.sound enabled))
  | @done i op res finished =>
    cases h with
    | idle quiet => simp [quiet i] at finished
    | busy j op' p running alone goes =>
      obtain ⟨rfl, same⟩ := mine running alone finished
      cases same
      refine .idle (fun k => ?_) goes.1
      by_cases own : k = i
      · simp [own]
      · simp [own, alone k own]
  | env event =>
    cases h with
    | idle quiet holds =>
      refine .idle quiet ?_
      rw [Obs.passed_mem, R.env]
      exact holds
    | busy i op p running alone goes =>
      refine .busy i op p running alone ?_
      rw [Obs.passed_mem, R.env]
      exact goes

theorem Verified.inTurn (V : R.Verified ok inv post) {mem : Mem} {c : Config M}
    (holds : inv (R.view mem)) (run : Run (oneAtATime R ok) (.boot mem) c) :
    InTurn R inv post c := by
  suffices c.Tracked ∧ InTurn R inv post c from this.2
  refine run.invariant (P := fun c => c.Tracked ∧ InTurn R inv post c) ?_
    ⟨Config.boot_tracked mem, .idle (fun _ => rfl) holds⟩
  exact fun _ _ _ h allowed step => ⟨step.tracked h.1, V.step h.1 h.2 allowed step⟩

/-- The invariant holds whenever nothing runs. -/
theorem Verified.quiescent (V : R.Verified ok inv post) {mem : Mem} {c : Config M}
    (holds : inv (R.view mem)) (run : Run (oneAtATime R ok) (.boot mem) c)
    (quiet : c.Quiescent) : inv (R.view c.mem) := by
  cases V.inTurn holds run with
  | idle _ holds => exact holds
  | busy i op p running => simp [quiet i] at running

/-- Every action is taken where it is allowed. -/
theorem Verified.allowed (V : R.Verified ok inv post) {mem : Mem} {c : Config M} {i : Nat}
    {op : Op} {action : Act β} {next : β → Prog Act Res} (holds : inv (R.view mem))
    (run : Run (oneAtATime R ok) (.boot mem) c)
    (running : c.threads i = some ⟨op, .act action next⟩) :
    R.safe action (R.view c.mem) := by
  cases V.inTurn holds run with
  | idle quiet => simp [quiet i] at running
  | busy j op' p running' alone goes =>
    have own : i = j := by_contra fun other => by simp [alone i other] at running
    subst own
    cases running.symm.trans running'
    exact goes.1

/-- What every allowed action keeps holds in the middle of an operation too. -/
theorem Verified.always (verified : R.Verified ok inv post) {P : V → Prop} {mem : Mem}
    {c : Config M} (holds : inv (R.view mem)) (run : Run (oneAtATime R ok) (.boot mem) c)
    (start : P (R.view mem))
    (step : ∀ {β : Type} {action : Act β} {v reply v'},
      R.safe action v → R.may action v reply v' → P v → P v') : P (R.view c.mem) := by
  induction run with
  | refl => exact start
  | tail past last ih =>
    obtain ⟨label, -, taken⟩ := last
    cases taken with
    | start | done => exact ih
    | act running enabled => exact step (verified.allowed holds past running) (R.sound enabled) ih
    | env event =>
      rw [Obs.passed_mem, R.env]
      exact ih

end Reading

end MatrixRuntime.SequentialRuns
