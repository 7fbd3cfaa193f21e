import MatrixRuntime.InterleavedProgram

/-! A machine whose threads run programs over one shared memory. Every action is
atomic and threads interleave between actions; an action that is not enabled
leaves its thread waiting. Each step leaves a label, so that facts about the past
of a run are functions of its trace. -/

namespace MatrixRuntime.InterleavedMachine

open InterleavedProgram Function

variable {Mem : Type} {Act : Type → Type 1} {Op Res Env : Type} {i : Nat}

/-- Atomic actions, what the environment does, and the program of every operation. -/
structure Machine (Mem : Type) (Act : Type → Type 1) (Op Res Env : Type) where
  sem : {β : Type} → Act β → Mem → Option (β × Mem)
  env : Env → Mem → Mem
  code : Op → Prog Act Res

inductive Label (M : Machine Mem Act Op Res Env) : Type 1 where
  | start (thread : Nat) (op : Op)
  | act (thread : Nat) {β : Type} (action : Act β) (reply : β)
  | done (thread : Nat) (op : Op) (res : Res)
  | env (event : Env)

variable {M : Machine Mem Act Op Res Env}

/-- The thread whose step it is; the environment's steps are nobody's. -/
def Label.thread : Label M → Option Nat
  | .start i _ => some i
  | .act i _ _ => some i
  | .done i _ _ => some i
  | .env _ => none

/-- What a property may speak about: the memory and the past, latest label first. -/
structure Obs (M : Machine Mem Act Op Res Env) where
  mem : Mem
  trace : List (Label M)

structure Thread (M : Machine Mem Act Op Res Env) where
  op : Op
  code : Prog Act Res

structure Config (M : Machine Mem Act Op Res Env) extends Obs M where
  threads : Nat → Option (Thread M)

def Obs.log (o : Obs M) (label : Label M) : Obs M :=
  { o with trace := label :: o.trace }

/-- The observation after an action that left the memory `mem`. -/
def Obs.acted (o : Obs M) (thread : Nat) {β : Type} (action : Act β) (reply : β)
    (mem : Mem) : Obs M :=
  ⟨mem, .act thread action reply :: o.trace⟩

def Obs.passed (o : Obs M) (event : Env) : Obs M :=
  ⟨M.env event o.mem, .env event :: o.trace⟩

@[simp] theorem Obs.log_mem (o : Obs M) (label : Label M) : (o.log label).mem = o.mem := rfl

@[simp] theorem Obs.log_trace (o : Obs M) (label : Label M) :
    (o.log label).trace = label :: o.trace := rfl

@[simp] theorem Obs.acted_mem (o : Obs M) (thread : Nat) {β : Type}
    (action : Act β) (reply : β) (mem : Mem) : (o.acted thread action reply mem).mem = mem := rfl

@[simp] theorem Obs.acted_trace (o : Obs M) (thread : Nat) {β : Type}
    (action : Act β) (reply : β) (mem : Mem) :
    (o.acted thread action reply mem).trace = .act thread action reply :: o.trace := rfl

@[simp] theorem Obs.passed_mem (o : Obs M) (event : Env) :
    (o.passed event).mem = M.env event o.mem := rfl

@[simp] theorem Obs.passed_trace (o : Obs M) (event : Env) :
    (o.passed event).trace = .env event :: o.trace := rfl

/-- Nothing running over a given memory, with no past. -/
def Config.boot (mem : Mem) : Config M := ⟨⟨mem, []⟩, fun _ => none⟩

def Config.Quiescent (c : Config M) : Prop := ∀ i, c.threads i = none

inductive Step : Config M → Label M → Config M → Prop
  | start {c : Config M} {i : Nat} (op : Op) (idle : c.threads i = none) :
      Step c (.start i op)
        ⟨c.toObs.log (.start i op), update c.threads i (some ⟨op, M.code op⟩)⟩
  | act {c : Config M} {i : Nat} {op : Op} {β : Type} {action : Act β}
      {next : β → Prog Act Res} {reply : β} {mem : Mem}
      (running : c.threads i = some ⟨op, .act action next⟩)
      (enabled : M.sem action c.mem = some (reply, mem)) :
      Step c (.act i action reply)
        ⟨c.toObs.acted i action reply mem, update c.threads i (some ⟨op, next reply⟩)⟩
  | done {c : Config M} {i : Nat} {op : Op} {res : Res}
      (finished : c.threads i = some ⟨op, .pure res⟩) :
      Step c (.done i op res) ⟨c.toObs.log (.done i op res), update c.threads i none⟩
  | env {c : Config M} (event : Env) : Step c (.env event) ⟨c.toObs.passed event, c.threads⟩

/-- Runs whose every step meets `ok`, which sees the state before the step and its label. -/
def Run (ok : Obs M → Label M → Prop) : Config M → Config M → Prop :=
  Relation.ReflTransGen fun c c' => ∃ label, ok c.toObs label ∧ Step c label c'

variable {c c' : Config M} {label : Label M}

theorem Step.logged (step : Step c label c') :
    c'.trace = label :: c.trace := by
  cases step <;> rfl

variable {ok : Obs M → Label M → Prop}

theorem Run.mono {ok' : Obs M → Label M → Prop} (h : ∀ o label, ok o label → ok' o label)
    (run : Run ok c c') : Run ok' c c' :=
  Relation.ReflTransGen.mono (fun _ _ ⟨label, hok, hstep⟩ => ⟨label, h _ _ hok, hstep⟩) _ _ run

variable {P : Config M → Prop}

/-- An invariant of the steps that meet `ok` holds in every state of such a run. -/
theorem Run.invariant (step : ∀ c label c', P c → ok c.toObs label → Step c label c' → P c')
    (run : Run ok c c') (h : P c) : P c' := by
  induction run with
  | refl => exact h
  | tail _ last ih =>
    obtain ⟨label, hok, hstep⟩ := last
    exact step _ label _ ih hok hstep

inductive Move (M : Machine Mem Act Op Res Env) where
  | start (thread : Nat) (op : Op)
  | step (thread : Nat)
  | env (event : Env)

/-- The step a scheduler's choice leads to, if it is enabled. -/
def Config.next (c : Config M) : Move M → Option (Label M × Config M)
  | .start i op =>
    match c.threads i with
    | none => some (.start i op,
        ⟨c.toObs.log (.start i op), update c.threads i (some ⟨op, M.code op⟩)⟩)
    | some _ => none
  | .step i =>
    match c.threads i with
    | some ⟨op, .act action next⟩ =>
      match M.sem action c.mem with
      | some (reply, mem) => some (.act i action reply,
          ⟨c.toObs.acted i action reply mem, update c.threads i (some ⟨op, next reply⟩)⟩)
      | none => none
    | some ⟨op, .pure res⟩ => some (.done i op res,
        ⟨c.toObs.log (.done i op res), update c.threads i none⟩)
    | _ => none
  | .env event => some (.env event, ⟨c.toObs.passed event, c.threads⟩)

theorem Config.next_step {move : Move M} (h : c.next move = some (label, c')) :
    Step c label c' := by
  cases move with
  | start i op =>
    simp only [Config.next] at h
    split at h
    next idle =>
      cases h
      exact .start op idle
    next => cases h
  | step i =>
    simp only [Config.next] at h
    split at h
    next op β action next running =>
      split at h
      next reply mem enabled =>
        cases h
        exact .act running enabled
      next => cases h
    next op res finished =>
      cases h
      exact .done finished
    next => cases h
  | env event =>
    cases h
    exact .env event

/-- Take a step that meets `ok`. -/
def Config.take (ok : Obs M → Label M → Bool) (c : Config M) (move : Move M) :
    Option (Config M) :=
  match c.next move with
  | some (label, c') => if ok c.toObs label then some c' else none
  | none => none

/-- Let thread `i` take `n` steps. -/
def Config.advance (ok : Obs M → Label M → Bool) (i : Nat) : Nat → Config M → Option (Config M)
  | 0, c => some c
  | n + 1, c => (c.take ok (.step i)).bind (Config.advance ok i n)

/-- Let thread `i` run until its operation returns. -/
def Config.finish (ok : Obs M → Label M → Bool) (i : Nat) : Nat → Config M → Option (Config M)
  | 0, _ => none
  | n + 1, c =>
    match c.threads i with
    | none => some c
    | some _ => (c.take ok (.step i)).bind (Config.finish ok i n)

/-- A schedule in turns: start an operation, let a thread take some steps or run to its
return, or let the environment act. -/
inductive Turn (M : Machine Mem Act Op Res Env) where
  | start (thread : Nat) (op : Op)
  | steps (thread count : Nat)
  | finish (thread : Nat)
  | env (event : Env)

def Config.turn (ok : Obs M → Label M → Bool) (fuel : Nat) (c : Config M) :
    Turn M → Option (Config M)
  | .start i op => c.take ok (.start i op)
  | .steps i n => c.advance ok i n
  | .finish i => c.finish ok i fuel
  | .env event => c.take ok (.env event)

def Config.play (ok : Obs M → Label M → Bool) (fuel : Nat) :
    Config M → List (Turn M) → Option (Config M)
  | c, [] => some c
  | c, turn :: turns => (c.turn ok fuel turn).bind fun c' => c'.play ok fuel turns

section Play

variable {ok : Obs M → Label M → Bool} {c c' : Config M}

theorem Config.take_run {move : Move M} (h : c.take ok move = some c') :
    Run (fun o label => ok o label = true) c c' := by
  simp only [Config.take] at h
  split at h
  next label c₁ hnext =>
    split at h
    next hok =>
      cases h
      exact .single ⟨label, hok, Config.next_step hnext⟩
    next => cases h
  next => cases h

theorem Config.advance_run {n : Nat} (h : c.advance ok i n = some c') :
    Run (fun o label => ok o label = true) c c' := by
  induction n generalizing c with
  | zero =>
    cases h
    exact .refl
  | succ n ih =>
    obtain ⟨c₁, h₁, h₂⟩ := Option.bind_eq_some_iff.mp h
    exact (Config.take_run h₁).trans (ih h₂)

theorem Config.finish_run {n : Nat} (h : c.finish ok i n = some c') :
    Run (fun o label => ok o label = true) c c' := by
  induction n generalizing c with
  | zero => cases h
  | succ n ih =>
    simp only [Config.finish] at h
    split at h
    next =>
      cases h
      exact .refl
    next =>
      obtain ⟨c₁, h₁, h₂⟩ := Option.bind_eq_some_iff.mp h
      exact (Config.take_run h₁).trans (ih h₂)

theorem Config.play_run {fuel : Nat} {turns : List (Turn M)}
    (h : c.play ok fuel turns = some c') : Run (fun o label => ok o label = true) c c' := by
  induction turns generalizing c with
  | nil =>
    cases h
    exact .refl
  | cons turn turns ih =>
    obtain ⟨c₁, h₁, h₂⟩ := Option.bind_eq_some_iff.mp h
    refine Relation.ReflTransGen.trans ?_ (ih h₂)
    cases turn with
    | start i op => exact Config.take_run h₁
    | steps i n => exact Config.advance_run h₁
    | finish i => exact Config.finish_run h₁
    | env event =>
      change c.take ok (.env event) = some c₁ at h₁
      exact Config.take_run h₁

variable {P : Config M → Prop} [DecidablePred P]

/-- A schedule that a check of its steps passes. -/
theorem Config.reaches {Q : Obs M → Label M → Prop} (c : Config M) (check : Obs M → Label M → Bool)
    (allowed : ∀ o label, check o label = true → Q o label) (fuel : Nat) (turns : List (Turn M))
    (played : (c.play check fuel turns).any (fun c => decide (P c)) = true) :
    ∃ c', Run Q c c' ∧ P c' := by
  cases hplay : c.play check fuel turns with
  | none => simp [hplay] at played
  | some c' => exact ⟨c', (Config.play_run hplay).mono allowed, by simpa [hplay] using played⟩

theorem Config.reaches_freely (c : Config M) (fuel : Nat) (turns : List (Turn M))
    (played : (c.play (fun _ _ => true) fuel turns).any (fun c => decide (P c)) = true) :
    ∃ c', Run (fun _ _ => True) c c' ∧ P c' :=
  c.reaches _ (fun _ _ _ => trivial) fuel turns played

end Play

/-- The program may run to its return, with only the environment in between, and leave a memory
that satisfies `P`. -/
inductive Machine.May (M : Machine Mem Act Op Res Env) (P : Mem → Prop) : Prog Act Res → Mem → Prop
  | done {res : Res} {mem : Mem} (holds : P mem) : M.May P (.pure res) mem
  | act {β : Type} {action : Act β} {next : β → Prog Act Res} {reply : β} {mem mem' : Mem}
      (enabled : M.sem action mem = some (reply, mem')) (rest : M.May P (next reply) mem') :
      M.May P (.act action next) mem
  | env {p : Prog Act Res} {mem : Mem} (event : Env) (rest : M.May P p (M.env event mem)) :
      M.May P p mem

/-- What a program may do, a thread that runs it may do. -/
theorem Machine.May.run {P : Mem → Prop} {op : Op} {p : Prog Act Res} {mem : Mem}
    (may : M.May P p mem) (running : c.threads i = some ⟨op, p⟩) (hmem : c.mem = mem) :
    ∃ c', Run (fun _ _ => True) c c' ∧ P c'.mem ∧
      c'.threads = update c.threads i none := by
  induction may generalizing c with
  | @done res mem holds =>
    subst hmem
    exact ⟨_, .single ⟨_, trivial, .done running⟩, holds, rfl⟩
  | @act β action next reply mem mem' enabled _ ih =>
    subst hmem
    obtain ⟨c', run, hP, hthreads⟩ := ih (c := ⟨c.toObs.acted i action reply mem',
      update c.threads i (some ⟨op, next reply⟩)⟩) (by simp) rfl
    refine ⟨c', .head ⟨_, trivial, .act running enabled⟩ run, hP, ?_⟩
    rw [hthreads, update_idem]
  | @env p mem event _ ih =>
    subst hmem
    obtain ⟨c', run, hP, hthreads⟩ := ih (c := ⟨c.toObs.passed event, c.threads⟩) running rfl
    exact ⟨c', .head ⟨_, trivial, .env event⟩ run, hP, hthreads⟩

/-- What an operation may do, an idle thread may call it for. -/
theorem Machine.May.call {P : Mem → Prop} {op : Op} (may : M.May P (M.code op) c.mem)
    (idle : c.threads i = none) :
    ∃ c', Run (fun _ _ => True) c c' ∧ P c'.mem ∧ c'.threads = c.threads := by
  let begun : Config M :=
    ⟨c.toObs.log (.start i op), update c.threads i (some ⟨op, M.code op⟩)⟩
  have running : begun.threads i = some ⟨op, M.code op⟩ := update_self ..
  obtain ⟨c', run, hP, hthreads⟩ := may.run running rfl
  refine ⟨c', .head ⟨_, trivial, .start op idle⟩ run, hP, ?_⟩
  rw [hthreads, update_idem, ← idle, update_eq_self]

/-- Thread `i`, alone, takes its program from one observation to another by actions that meet
`ok`. -/
inductive Walks (ok : Obs M → Label M → Prop) (i : Nat) :
    Obs M → Prog Act Res → Obs M → Prog Act Res → Prop
  | refl (o : Obs M) (p : Prog Act Res) : Walks ok i o p o p
  | act {o o' : Obs M} {β : Type} {action : Act β} {next : β → Prog Act Res} {reply : β}
      {mem : Mem} {p : Prog Act Res} (enabled : M.sem action o.mem = some (reply, mem))
      (allowed : ok o (.act i action reply))
      (rest : Walks ok i (o.acted i action reply mem) (next reply) o' p) :
      Walks ok i o (.act action next) o' p

theorem Walks.run {o o' : Obs M} {p p' : Prog Act Res} (walks : Walks ok i o p o' p') {op : Op}
    (here : c.toObs = o) (running : c.threads i = some ⟨op, p⟩) :
    ∃ c', Run ok c c' ∧ c'.toObs = o' ∧ c'.threads i = some ⟨op, p'⟩ := by
  induction walks generalizing c with
  | refl => exact ⟨c, .refl, here, running⟩
  | @act o o' β action next reply mem p enabled allowed rest ih =>
    subst here
    obtain ⟨c', run, there, running'⟩ := ih (c := ⟨c.toObs.acted i action reply mem,
      update c.threads i (some ⟨op, next reply⟩)⟩) rfl (update_self ..)
    exact ⟨c', .head ⟨_, allowed, .act running enabled⟩ run, there, running'⟩

/-- The operation a thread is in the middle of, read off the trace. -/
def inCall (i : Nat) : List (Label M) → Option Op
  | [] => none
  | .start j op :: past => if j = i then some op else inCall i past
  | .done j _ _ :: past => if j = i then none else inCall i past
  | .act .. :: past => inCall i past
  | .env _ :: past => inCall i past

@[simp] theorem inCall_start (i j : Nat) (op : Op) (past : List (Label M)) :
    inCall i (.start j op :: past) = if j = i then some op else inCall i past := rfl

@[simp] theorem inCall_done (i j : Nat) (op : Op) (res : Res) (past : List (Label M)) :
    inCall i (.done j op res :: past) = if j = i then none else inCall i past := rfl

@[simp] theorem inCall_act (i j : Nat) {β : Type} (action : Act β) (reply : β)
    (past : List (Label M)) : inCall i (.act j action reply :: past) = inCall i past := rfl

@[simp] theorem inCall_env (i : Nat) (event : Env) (past : List (Label M)) :
    inCall i (.env event :: past) = inCall i past := rfl

/-- The trace tells which threads run, and which operation. -/
def Config.Tracked (c : Config M) : Prop :=
  ∀ i, (c.threads i).map Thread.op = inCall i c.trace

theorem Config.boot_tracked (mem : Mem) : (Config.boot mem : Config M).Tracked := fun _ => rfl

theorem Step.tracked (h : c.Tracked) (step : Step c label c') : c'.Tracked := by
  intro j
  cases step with
  | @start i op idle =>
    by_cases hj : i = j
    · subst hj
      simp
    · simpa [hj, update_of_ne (Ne.symm hj)] using h j
  | @act i op β action next reply mem running enabled =>
    by_cases hj : i = j
    · subst hj
      simpa [running] using h i
    · simpa [update_of_ne (Ne.symm hj)] using h j
  | @done i op res finished =>
    by_cases hj : i = j
    · subst hj
      simp
    · simpa [hj, update_of_ne (Ne.symm hj)] using h j
  | env event => simpa using h j

theorem Config.Tracked.idle (h : c.Tracked) (quiet : c.Quiescent) (i : Nat) :
    inCall i c.trace = none := by
  rw [← h i, quiet i]
  rfl

theorem Run.tracked (run : Run ok c c') (h : c.Tracked) : c'.Tracked :=
  run.invariant (fun _ _ _ tracked _ step => step.tracked tracked) h

/-- Only the first `n` threads ever ran, and none of them is running. -/
def Config.quiet (n : Nat) (c : Config M) : Bool :=
  (List.range n).all (fun i => (c.threads i).isNone) &&
    c.trace.all fun label => label.thread.all fun i => decide (i < n)

/-- Only thread `i` has taken steps. -/
def Obs.solo (i : Nat) (o : Obs M) : Bool := o.trace.all fun label => decide (label.thread = some i)

theorem Obs.solo_absent {j : Nat} {o : Obs M} (h : o.solo i = true) (hj : j ≠ i) :
    ∀ label ∈ o.trace, label.thread ≠ some j := by
  intro label hl he
  have own := of_decide_eq_true (List.all_eq_true.mp h label hl)
  exact hj (Option.some.inj (he.symm.trans own))

theorem inCall_of_absent {past : List (Label M)} (h : ∀ label ∈ past, label.thread ≠ some i) :
    inCall i past = none := by
  induction past with
  | nil => rfl
  | cons label past ih =>
    have hne := h label (List.mem_cons_self ..)
    have hpast := ih fun l hl => h l (List.mem_cons_of_mem _ hl)
    cases label with
    | start j op => exact (if_neg fun e => hne (by rw [e]; rfl)).trans hpast
    | act j action reply => exact hpast
    | done j op res => exact (if_neg fun e => hne (by rw [e]; rfl)).trans hpast
    | env event => exact hpast

theorem Config.quiet_quiescent {n : Nat} (h : c.quiet n = true) (tracked : c.Tracked) :
    c.Quiescent := by
  simp only [Config.quiet, Bool.and_eq_true, List.all_eq_true, List.mem_range] at h
  intro i
  by_cases hi : i < n
  · simpa using h.1 i hi
  · have absent : inCall i c.trace = none := by
      refine inCall_of_absent fun label hl e => hi ?_
      have := h.2 label hl
      simpa [e] using this
    rw [← tracked i] at absent
    simpa using absent

/-- A schedule that a check of its steps passes and that leaves every thread idle. -/
theorem Config.plays (mem : Mem) (check : Obs M → Label M → Bool) [DecidablePred P]
    (allowed : ∀ o label, check o label = true → ok o label) (fuel n : Nat)
    (turns : List (Turn M))
    (played : ((Config.boot mem).play check fuel turns).any
      (fun c => c.quiet n && decide (P c)) = true) :
    ∃ c, Run ok (.boot mem) c ∧ c.Quiescent ∧ P c := by
  obtain ⟨c, run, quiet, holds⟩ := (Config.boot mem).reaches
    (P := fun c => c.quiet n = true ∧ P c) check allowed fuel turns (by simpa using played)
  exact ⟨c, run, Config.quiet_quiescent quiet (run.tracked (Config.boot_tracked _)), holds⟩

theorem Config.plays_freely {m : Mem} [DecidablePred P] (fuel n : Nat) (turns : List (Turn M))
    (played : ((Config.boot m).play (fun _ _ => true) fuel turns).any
      (fun c => c.quiet n && decide (P c)) = true) :
    ∃ c, Run (fun _ _ => True) (.boot m) c ∧ c.Quiescent ∧ P c :=
  Config.plays m _ (fun _ _ _ => trivial) fuel n turns played

end MatrixRuntime.InterleavedMachine
