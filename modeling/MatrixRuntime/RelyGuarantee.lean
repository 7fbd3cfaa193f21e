import MatrixRuntime.InterleavedMachine

/-! Rely-guarantee reasoning for the interleaved machine.
A discipline names an invariant of the memory and the past, what each thread
guarantees of its own steps, and which steps a run may take. A thread's program
is verified against everything the other threads may do between two of its
actions; the soundness theorem turns verified operations into an invariant of
every run. -/

namespace MatrixRuntime.RelyGuarantee

open InterleavedProgram InterleavedMachine Function

variable {Mem : Type} {Act : Type → Type 1} {Op Res Env : Type} {M : Machine Mem Act Op Res Env}
  {P : Obs M → Prop} {o : Obs M} {post : Nat → Op → Res → Obs M → Prop} {c : Config M} {i : Nat}
  {ok : Obs M → Label M → Prop} {restart : Mem → Mem → Prop}

structure Discipline (M : Machine Mem Act Op Res Env) where
  inv : Obs M → Prop
  guar : Nat → Obs M → Obs M → Prop
  ok : Obs M → Label M → Prop

namespace Discipline

variable (D : Discipline M)

/-- A step of some other thread, which keeps its guarantee, or of the environment. -/
inductive Disturbs (i : Nat) (o o' : Obs M) : Prop
  | thread (j : Nat) (label : Label M) (other : j ≠ i) (own : label.thread = some j)
      (logged : o'.trace = label :: o.trace) (guar : D.guar j o o')
  | env (event : Env) (passed : o' = o.passed event)

/-- Such a step between two states of the invariant. -/
def Interferes (i : Nat) (o o' : Obs M) : Prop := D.inv o ∧ D.inv o' ∧ D.Disturbs i o o'

def Rely (i : Nat) : Obs M → Obs M → Prop := Relation.ReflTransGen (D.Interferes i)

/-- An assertion of thread `i` that no other thread can falsify. -/
def Stable (i : Nat) (P : Obs M → Prop) : Prop := ∀ o o', D.Interferes i o o' → P o → P o'

variable {D}

theorem Stable.rely (h : D.Stable i P) {o o' : Obs M} (rely : D.Rely i o o') (ho : P o) : P o' := by
  induction rely with
  | refl => exact ho
  | tail _ last ih => exact h _ _ last ih

theorem Stable.and {Q : Obs M → Prop} (hP : D.Stable i P) (hQ : D.Stable i Q) :
    D.Stable i fun o => P o ∧ Q o :=
  fun o o' step h => ⟨hP o o' step h.1, hQ o o' step h.2⟩

/-- Stability, one case for the other threads and one for the environment. -/
theorem Stable.intro
    (thread : ∀ o o' j label, D.inv o → D.inv o' → j ≠ i → label.thread = some j →
      o'.trace = label :: o.trace → D.guar j o o' → P o → P o')
    (env : ∀ o event, D.inv o → P o → P (o.passed event)) : D.Stable i P := by
  rintro o o' ⟨hinv, hinv', disturbs⟩ ho
  cases disturbs with
  | thread j label other own logged guar =>
    exact thread o o' j label hinv hinv' other own logged guar ho
  | env event passed =>
    subst passed
    exact env o event hinv ho

theorem Stable.const (p : Prop) : D.Stable i fun _ => p := fun _ _ _ h => h

variable (D)

/-- Thread `i`, in the middle of an operation, takes an allowed action from `o`. -/
structure Acts (i : Nat) (o : Obs M) {β : Type} (action : Act β) (reply : β) (mem : Mem) :
    Prop where
  inv : D.inv o
  busy : inCall i o.trace ≠ none
  enabled : M.sem action o.mem = some (reply, mem)
  ok : D.ok o (.act i action reply)

/-- Every execution of the program from `o`, with the others interfering, keeps the
invariant and the guarantee, and ends in `Q`. -/
def wp (i : Nat) {α : Type} : Prog Act α → (α → Obs M → Prop) → Obs M → Prop
  | .pure value, Q, o => Q value o
  | .act (β := β) action next, Q, o =>
    ∀ o₁, D.Rely i o o₁ → ∀ (reply : β) mem, D.Acts i o₁ action reply mem →
      D.inv (o₁.acted i action reply mem) ∧ D.guar i o₁ (o₁.acted i action reply mem) ∧
        wp i (next reply) Q (o₁.acted i action reply mem)
  | .blocked, _, _ => True

variable {D} {i : Nat} {α β : Type}

theorem wp_bind (p : Prog Act α) (f : α → Prog Act β) (Q : β → Obs M → Prop) (o : Obs M) :
    D.wp i (p.bind f) Q o = D.wp i p (fun value => D.wp i (f value) Q) o := by
  induction p generalizing o with
  | pure value => rfl
  | act action next ih => simp only [Prog.act_bind, wp, ih]
  | blocked => rfl

theorem wp_mono {p : Prog Act α} {Q Q' : α → Obs M → Prop} (h : ∀ value o, Q value o → Q' value o)
    {o : Obs M} (hp : D.wp i p Q o) : D.wp i p Q' o := by
  induction p generalizing o with
  | pure value => exact h value o hp
  | act action next ih =>
    intro o₁ rely reply mem acts
    obtain ⟨hinv, hguar, rest⟩ := hp o₁ rely reply mem acts
    exact ⟨hinv, hguar, ih reply rest⟩
  | blocked => trivial

theorem wp_returns {p : Prog Act α} {Q : α → Obs M → Prop} {R : α → Prop} (returns : p.Returns R)
    {o : Obs M} (hp : D.wp i p Q o) : D.wp i p (fun value o => Q value o ∧ R value) o := by
  induction p generalizing o with
  | pure value => exact ⟨hp, returns⟩
  | act action next ih =>
    intro o₁ rely reply mem acts
    obtain ⟨hinv, hguar, rest⟩ := hp o₁ rely reply mem acts
    exact ⟨hinv, hguar, ih reply (returns reply) rest⟩
  | blocked => trivial

/-- What every guarantee and the environment keep lasts through a program. -/
theorem wp_lasting {p : Prog Act α} {Q : α → Obs M → Prop}
    (guar : ∀ j o o', D.guar j o o' → P o → P o') (env : ∀ o event, P o → P (o.passed event))
    {o : Obs M} (hp : D.wp i p Q o) (ho : P o) : D.wp i p (fun value o => Q value o ∧ P o) o := by
  have stable : D.Stable i P :=
    .intro (fun o o' j _ _ _ _ _ _ h => guar j o o' h) fun o event _ => env o event
  induction p generalizing o with
  | pure value => exact ⟨hp, ho⟩
  | act action next ih =>
    intro o₁ rely reply mem acts
    obtain ⟨hinv, hguar, rest⟩ := hp o₁ rely reply mem acts
    exact ⟨hinv, hguar, ih reply rest (guar i _ _ hguar (stable.rely rely ho))⟩
  | blocked => trivial

/-- An assertion that every step keeps, whoever takes it. -/
structure Lasting (D : Discipline M) (P : Obs M → Prop) : Prop where
  guar : ∀ j o o', D.guar j o o' → P o → P o'
  env : ∀ o event, P o → P (o.passed event)

theorem Lasting.stable (h : D.Lasting P) : D.Stable i P :=
  .intro (fun o o' j _ _ _ _ _ _ => h.guar j o o') fun o event _ => h.env o event

theorem Lasting.and {Q : Obs M → Prop} (hP : D.Lasting P) (hQ : D.Lasting Q) :
    D.Lasting fun o => P o ∧ Q o where
  guar j o o' guar h := ⟨hP.guar j o o' guar h.1, hQ.guar j o o' guar h.2⟩
  env o event h := ⟨hP.env o event h.1, hQ.env o event h.2⟩

theorem Lasting.wp {p : Prog Act α} {Q : α → Obs M → Prop} (hP : D.Lasting P) {o : Obs M}
    (hp : D.wp i p Q o) (ho : P o) : D.wp i p (fun value o => Q value o ∧ P o) o :=
  wp_lasting hP.guar hP.env hp ho

theorem wp_seq {p : Prog Act α} {f : α → Prog Act β} {R : α → Obs M → Prop} {Q : β → Obs M → Prop}
    (hp : D.wp i p R o) (hf : ∀ value o₁, R value o₁ → D.wp i (f value) Q o₁) :
    D.wp i (p.bind f) Q o := by
  rw [wp_bind]
  exact wp_mono hf hp

/-- Perform one action from a stable assertion. -/
theorem wp_act {Q : α → Obs M → Prop} {action : Act β} {next : β → Prog Act α}
    (stable : D.Stable i P) (ho : P o)
    (h : ∀ o₁ reply mem, P o₁ → D.Acts i o₁ action reply mem →
      D.inv (o₁.acted i action reply mem) ∧ D.guar i o₁ (o₁.acted i action reply mem) ∧
        D.wp i (next reply) Q (o₁.acted i action reply mem)) :
    D.wp i (.act action next) Q o :=
  fun o₁ rely reply mem acts => h o₁ reply mem (stable.rely rely ho) acts

/-- An action keeps `P` from every state of the invariant. -/
def Keeps (D : Discipline M) (i : Nat) (P : Obs M → Prop) (action : Act β) : Prop :=
  ∀ o reply mem, P o → D.Acts i o action reply mem →
    D.inv (o.acted i action reply mem) ∧ D.guar i o (o.acted i action reply mem) ∧
      P (o.acted i action reply mem)

theorem wp_keeps {Q : α → Obs M → Prop} {action : Act β} {next : β → Prog Act α}
    (stable : D.Stable i P) (keeps : D.Keeps i P action) (ho : P o)
    (h : ∀ reply o₁, P o₁ → D.wp i (next reply) Q o₁) :
    D.wp i (.act action next) Q o := by
  refine wp_act stable ho fun o₁ reply mem hP acts => ?_
  obtain ⟨hinv, hguar, hP'⟩ := keeps o₁ reply mem hP acts
  exact ⟨hinv, hguar, h reply _ hP'⟩

/-- The frame rule: a program made of actions and subprograms that keep `P` keeps `P`. -/
theorem wp_composed {C : ∀ β : Type, Act β → Prop} {S : ∀ β : Type, Prog Act β → Prop}
    {p : Prog Act α} (h : Composed C S p) (stable : D.Stable i P)
    (acts : ∀ β action, C β action → D.Keeps i P action)
    (subs : ∀ β q, S β q → ∀ o, P o → D.wp i q (fun _ => P) o) {o : Obs M} (ho : P o) :
    D.wp i p (fun _ => P) o := by
  induction h generalizing o with
  | pure value => exact ho
  | blocked => trivial
  | act allowed _ ih => exact wp_keeps stable (acts _ _ allowed) ho fun reply o₁ => ih reply
  | sub known _ ih => exact wp_seq (subs _ _ known o ho) fun value o₁ => ih value

/-- A guard for every action under which a thread may take it: the step then keeps the
invariant and the thread's guarantee. -/
structure Guarded (D : Discipline M) where
  guard : Nat → Obs M → ∀ {β : Type}, Act β → Prop
  sound : ∀ i o {β : Type} (action : Act β) reply mem, guard i o action →
    D.Acts i o action reply mem →
    D.inv (o.acted i action reply mem) ∧ D.guar i o (o.acted i action reply mem)

namespace Guarded

variable (G : D.Guarded)

include G

theorem wp_act {Q : α → Obs M → Prop} {action : Act β} {next : β → Prog Act α}
    (stable : D.Stable i P) (ho : P o) (guard : ∀ o₁, D.inv o₁ → P o₁ → G.guard i o₁ action)
    (h : ∀ o₁ reply mem, P o₁ → D.Acts i o₁ action reply mem →
      D.inv (o₁.acted i action reply mem) →
      D.wp i (next reply) Q (o₁.acted i action reply mem)) :
    D.wp i (.act action next) Q o := by
  refine Discipline.wp_act stable ho fun o₁ reply mem hP acts => ?_
  obtain ⟨hinv, hguar⟩ := G.sound i o₁ action reply mem (guard o₁ acts.inv hP) acts
  exact ⟨hinv, hguar, h o₁ reply mem hP acts hinv⟩

theorem keeps {action : Act β} (guard : ∀ o, D.inv o → P o → G.guard i o action)
    (h : ∀ o reply mem, P o → D.Acts i o action reply mem → P (o.acted i action reply mem)) :
    D.Keeps i P action := by
  intro o reply mem hP acts
  obtain ⟨hinv, hguar⟩ := G.sound i o action reply mem (guard o acts.inv hP) acts
  exact ⟨hinv, hguar, h o reply mem hP acts⟩

end Guarded

/-- One action from a stable assertion, with its guard. -/
theorem Guarded.perform (G : D.Guarded) {P : Obs M → Prop} {Q : β → Obs M → Prop} {action : Act β}
    {o : Obs M} (stable : D.Stable i P) (ho : P o)
    (guard : ∀ o₁, D.inv o₁ → P o₁ → G.guard i o₁ action)
    (h : ∀ o₁ reply mem, P o₁ → D.Acts i o₁ action reply mem →
      Q reply (o₁.acted i action reply mem)) :
    D.wp i (perform action) Q o :=
  G.wp_act stable ho guard fun o₁ reply mem hP acts _ => h o₁ reply mem hP acts

/-- One action from a stable and a lasting assertion; what lasts holds after the action too. -/
theorem Guarded.observe (G : D.Guarded) {P L : Obs M → Prop} {Q : β → Obs M → Prop}
    {action : Act β} {o : Obs M} (stable : D.Stable i P) (lasting : D.Lasting L) (ho : P o ∧ L o)
    (guard : ∀ o₁, D.inv o₁ → P o₁ → L o₁ → G.guard i o₁ action)
    (h : ∀ o₁ reply mem, P o₁ → L o₁ → D.Acts i o₁ action reply mem →
      D.inv (o₁.acted i action reply mem) → L (o₁.acted i action reply mem) →
      Q reply (o₁.acted i action reply mem)) :
    D.wp i (InterleavedProgram.perform action) Q o := by
  refine Discipline.wp_act (stable.and lasting.stable) ho fun o₁ reply mem hP acts => ?_
  obtain ⟨hinv, hguar⟩ := G.sound i o₁ action reply mem (guard o₁ acts.inv hP.1 hP.2) acts
  exact ⟨hinv, hguar, h o₁ reply mem hP.1 hP.2 acts hinv (lasting.guar i _ _ hguar hP.2)⟩

/-- The obligations of a discipline: every operation is verified from its start, and
starting, returning and the environment keep the invariant and the guarantees. -/
structure Verified (D : Discipline M) (post : Nat → Op → Res → Obs M → Prop) : Prop where
  stable : ∀ i op res, D.Stable i (post i op res)
  start : ∀ i op o, D.inv o → inCall i o.trace = none → D.ok o (.start i op) →
    D.inv (o.log (.start i op)) ∧ D.guar i o (o.log (.start i op)) ∧
      D.wp i (M.code op) (post i op) (o.log (.start i op))
  done : ∀ i op res o, D.inv o → inCall i o.trace = some op → post i op res o →
    D.ok o (.done i op res) →
    D.inv (o.log (.done i op res)) ∧ D.guar i o (o.log (.done i op res))
  env : ∀ event o, D.inv o → D.ok o (.env event) → D.inv (o.passed event)

/-- A configuration whose threads all have their remaining program verified. -/
structure Good (D : Discipline M) (post : Nat → Op → Res → Obs M → Prop)
    (c : Config M) : Prop where
  inv : D.inv c.toObs
  tracked : c.Tracked
  threads : ∀ i op code, c.threads i = some ⟨op, code⟩ →
    ∃ o, D.Rely i o c.toObs ∧ D.wp i code (post i op) o

theorem Good.boot {mem : Mem} (h : D.inv ⟨mem, []⟩) : D.Good post (.boot mem) :=
  ⟨h, Config.boot_tracked mem, fun _ _ _ running => nomatch running⟩

/-- What a step of thread `i` leaves for the others. -/
theorem Good.others (h : D.Good post c) {o' : Obs M} {label : Label M} (inv : D.inv o')
    (guar : D.guar i c.toObs o') (own : label.thread = some i)
    (logged : o'.trace = label :: c.trace) {j : Nat} (hj : j ≠ i) {op : Op} {code : Prog Act Res}
    (running : c.threads j = some ⟨op, code⟩) :
    ∃ o, D.Rely j o o' ∧ D.wp j code (post j op) o := by
  obtain ⟨o, rely, hwp⟩ := h.threads j op code running
  exact ⟨o, rely.tail ⟨h.inv, inv, .thread i label hj.symm own logged guar⟩, hwp⟩

/-- A step keeps a good configuration good, and shows the others its thread's guarantee. -/
theorem Verified.step (V : D.Verified post) {c c' : Config M} {label : Label M}
    (h : D.Good post c) (ok : D.ok c.toObs label) (step : Step c label c') :
    D.Good post c' ∧
      ((∃ i, D.guar i c.toObs c'.toObs) ∨ ∃ event, c'.toObs = c.toObs.passed event) := by
  have tracked := step.tracked h.tracked
  cases step with
  | @start i op idle =>
    have hidle : inCall i c.trace = none := by rw [← h.tracked i, idle]; rfl
    obtain ⟨inv, guar, hwp⟩ := V.start i op c.toObs h.inv hidle ok
    refine ⟨⟨inv, tracked, fun j op' code running => ?_⟩, .inl ⟨i, guar⟩⟩
    by_cases hj : j = i
    · subst hj
      simp only [update_self] at running
      cases running
      exact ⟨_, .refl, hwp⟩
    · simp only [update_of_ne hj] at running
      exact h.others inv guar rfl rfl hj running
  | @act i op β action next reply mem running enabled =>
    obtain ⟨o, rely, hwp⟩ := h.threads i op _ running
    have busy : inCall i c.trace ≠ none := by
      rw [← h.tracked i, running]
      simp
    obtain ⟨inv, guar, rest⟩ := hwp c.toObs rely reply mem ⟨h.inv, busy, enabled, ok⟩
    refine ⟨⟨inv, tracked, fun j op' code running' => ?_⟩, .inl ⟨i, guar⟩⟩
    by_cases hj : j = i
    · subst hj
      simp only [update_self] at running'
      cases running'
      exact ⟨_, .refl, rest⟩
    · simp only [update_of_ne hj] at running'
      exact h.others inv guar rfl rfl hj running'
  | @done i op res finished =>
    obtain ⟨o, rely, hpost⟩ := h.threads i op _ finished
    have hop : inCall i c.trace = some op := by rw [← h.tracked i, finished]; rfl
    obtain ⟨inv, guar⟩ :=
      V.done i op res c.toObs h.inv hop ((V.stable i op res).rely rely hpost) ok
    refine ⟨⟨inv, tracked, fun j op' code running' => ?_⟩, .inl ⟨i, guar⟩⟩
    by_cases hj : j = i
    · subst hj
      simp at running'
    · simp only [update_of_ne hj] at running'
      exact h.others inv guar rfl rfl hj running'
  | env event =>
    have inv := V.env event c.toObs h.inv ok
    refine ⟨⟨inv, tracked, fun j op' code running => ?_⟩, .inr ⟨event, rfl⟩⟩
    obtain ⟨o, rely, hwp⟩ := h.threads j op' code running
    exact ⟨o, rely.tail ⟨h.inv, inv, .env event rfl⟩, hwp⟩

/-- Soundness: a verified discipline's invariant holds in every state of every run. -/
theorem Verified.run (V : D.Verified post) {mem : Mem} {c : Config M} (h : D.inv ⟨mem, []⟩)
    (run : Run D.ok (.boot mem) c) :
    D.Good post c :=
  run.invariant (fun _ _ _ good ok step => (V.step good ok step).1) (.boot h)

/-- What every guarantee and the environment keep, the rest of a run keeps. -/
theorem Verified.persists (V : D.Verified post) {P : Obs M → Prop}
    (guar : ∀ i o o', D.guar i o o' → P o → P o') (env : ∀ o event, P o → P (o.passed event))
    {c c' : Config M} (good : D.Good post c) (run : Run D.ok c c')
    (h : P c.toObs) : P c'.toObs := by
  suffices D.Good post c' ∧ P c'.toObs from this.2
  refine run.invariant (P := fun c => D.Good post c ∧ P c.toObs) ?_ ⟨good, h⟩
  rintro c₁ label c₂ ⟨good₁, h₁⟩ ok step
  obtain ⟨good₂, ⟨i, hguar⟩ | ⟨event, passed⟩⟩ := V.step good₁ ok step
  · exact ⟨good₂, guar i _ _ hguar h₁⟩
  · refine ⟨good₂, ?_⟩
    rw [passed]
    exact env _ event h₁

/-- A run of a verified discipline takes only steps of which its guarantees say `L`, so another
discipline may count on `L`. -/
theorem Verified.enforces (V : D.Verified post) {L ok : Obs M → Label M → Prop}
    (admits : ∀ o label, ok o label → D.ok o label)
    (guar : ∀ i o o' label, D.guar i o o' → o'.trace = label :: o.trace → L o label)
    (env : ∀ o event, L o (.env event)) {mem : Mem} {c : Config M} (h : D.inv ⟨mem, []⟩)
    (run : Run ok (.boot mem) c) : Run (fun o label => ok o label ∧ L o label) (.boot mem) c := by
  suffices Run (fun o label => ok o label ∧ L o label) (.boot mem) c ∧ D.Good post c from this.1
  refine run.invariant (P := fun c => Run (fun o label => ok o label ∧ L o label) (.boot mem) c ∧
    D.Good post c) (fun c₁ label c₂ h₁ hok step => ?_) ⟨.refl, .boot h⟩
  obtain ⟨good, hstep⟩ := V.step h₁.2 (admits _ _ hok) step
  refine ⟨h₁.1.tail ⟨label, ⟨hok, ?_⟩, step⟩, good⟩
  rcases hstep with ⟨i, hguar⟩ | ⟨event, passed⟩
  · exact guar i _ _ label hguar step.logged
  · have logged := step.logged
    rw [show c₂.trace = (c₁.toObs.passed event).trace from congrArg Obs.trace passed] at logged
    rw [← (List.cons.inj logged).1]
    exact env _ event

end Discipline

/-- The states of a system that runs, dies at any moment and is started again: a new run boots
from a memory that `restart` allows after the one the last run left. -/
inductive Lives (ok : Obs M → Label M → Prop) (init : Mem → Prop) (restart : Mem → Mem → Prop) :
    Config M → Prop
  | first {mem : Mem} {c : Config M} (fresh : init mem) (run : Run ok (.boot mem) c) :
      Lives ok init restart c
  | again {c : Config M} {mem : Mem} {c' : Config M} (past : Lives ok init restart c)
      (restarted : restart c.mem mem) (run : Run ok (.boot mem) c') : Lives ok init restart c'

theorem Lives.mono {ok' : Obs M → Label M → Prop} {init init' : Mem → Prop}
    {restart' : Mem → Mem → Prop} (hok : ∀ o label, ok o label → ok' o label)
    (hinit : ∀ mem, init mem → init' mem)
    (hrestart : ∀ mem mem', restart mem mem' → restart' mem mem')
    (lives : Lives ok init restart c) : Lives ok' init' restart' c := by
  induction lives with
  | first fresh run => exact .first (hinit _ fresh) (run.mono hok)
  | again _ restarted run ih => exact .again ih (hrestart _ _ restarted) (run.mono hok)

end MatrixRuntime.RelyGuarantee
