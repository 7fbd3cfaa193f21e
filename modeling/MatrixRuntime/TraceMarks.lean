import MatrixRuntime.RelyGuarantee

/-! Marks a thread leaves on its own past. A mark on a key is set by some actions
of the thread and cleared by others; no other thread can change it, so what a
thread knows of its marks it knows through any interference. -/

namespace MatrixRuntime.TraceMarks

open InterleavedMachine RelyGuarantee

variable {Mem : Type} {Act : Type → Type 1} {Op Res Env : Type} {M : Machine Mem Act Op Res Env}
  {label : Label M} {past : List (Label M)}

structure Mark (Act : Type → Type 1) (K : Type) where
  sets : ∀ {β : Type}, Act β → β → K → Prop
  clears : ∀ {β : Type}, Act β → β → K → Prop

variable {K : Type}

namespace Mark

/-- Thread `j` has the mark on `k`: it set it and has not cleared it since. -/
def On (m : Mark Act K) (j : Nat) (k : K) : List (Label M) → Prop
  | [] => False
  | .act i action reply :: past =>
    (i = j ∧ m.sets action reply k) ∨ (On m j k past ∧ ¬ (i = j ∧ m.clears action reply k))
  | .start _ _ :: past => On m j k past
  | .done _ _ _ :: past => On m j k past
  | .env _ :: past => On m j k past

variable {m : Mark Act K} {i j : Nat} {k : K} {past : List (Label M)} {β : Type}

theorem on_act {action : Act β} {reply : β} :
    m.On j k (.act i action reply :: past) ↔
      (i = j ∧ m.sets action reply k) ∨ (m.On j k past ∧ ¬ (i = j ∧ m.clears action reply k)) :=
  Iff.rfl

theorem on_other (own : label.thread = some i) (other : i ≠ j) :
    m.On j k (label :: past) ↔ m.On j k past := by
  cases label with
  | act i' action reply =>
    cases own
    simp [on_act, other]
  | start => rfl
  | done => rfl
  | env => rfl

theorem on_own {action : Act β} {reply : β} :
    m.On i k (.act i action reply :: past) ↔
      m.sets action reply k ∨ (m.On i k past ∧ ¬ m.clears action reply k) := by
  simp [on_act]

theorem on_log (h : ∀ (i : Nat) (β : Type) (a : Act β) b, label ≠ .act i a b) :
    m.On j k (label :: past) ↔ m.On j k past := by
  cases label with
  | act i action reply => exact absurd rfl (h i _ action reply)
  | start => rfl
  | done => rfl
  | env => rfl

/-- A mark that is never cleared. -/
def ever (sets : ∀ {β : Type}, Act β → β → K → Prop) : Mark Act K := ⟨sets, fun _ _ _ => False⟩

theorem ever_act {sets : ∀ {β : Type}, Act β → β → K → Prop} {action : Act β} {reply : β} :
    (ever sets).On j k (.act i action reply :: past) ↔
      (i = j ∧ sets action reply k) ∨ (ever sets).On j k past := by
  simp [on_act, ever]

theorem ever_cons {sets : ∀ {β : Type}, Act β → β → K → Prop} (h : (ever sets).On j k past) :
    (ever sets).On j k (label :: past) := by
  cases label with
  | act i action reply => exact ever_act.mpr (.inr h)
  | start => exact h
  | done => exact h
  | env => exact h

/-- Thread `j` has set the mark on `k` in the operation it is in, and not cleared it since. -/
def During (m : Mark Act K) (j : Nat) (k : K) : List (Label M) → Prop
  | [] => False
  | .act i action reply :: past =>
    (i = j ∧ m.sets action reply k) ∨
      (During m j k past ∧ ¬ (i = j ∧ m.clears action reply k))
  | .start i _ :: past => During m j k past ∧ i ≠ j
  | .done i _ _ :: past => During m j k past ∧ i ≠ j
  | .env _ :: past => During m j k past

theorem during_own {action : Act β} {reply : β} :
    m.During i k (.act i action reply :: past) ↔
      m.sets action reply k ∨ (m.During i k past ∧ ¬ m.clears action reply k) := by
  simp [During]

theorem during_act {action : Act β} {reply : β} :
    m.During j k (.act i action reply :: past) ↔ (i = j ∧ m.sets action reply k) ∨
      (m.During j k past ∧ ¬ (i = j ∧ m.clears action reply k)) :=
  Iff.rfl

/-- An action that neither sets nor clears the mark leaves it as it is. -/
theorem during_quiet {action : Act β} {reply : β} (sets : ¬ m.sets action reply k)
    (clears : ¬ m.clears action reply k) :
    m.During j k (.act i action reply :: past) ↔ m.During j k past := by
  simp [during_act, sets, clears]

/-- A mark that is never cleared stays on through the thread's own actions. -/
theorem ever_during {sets : ∀ {β : Type}, Act β → β → K → Prop} {action : Act β} {reply : β}
    (h : (ever sets).During j k past) : (ever sets).During j k (.act i action reply :: past) :=
  .inr ⟨h, fun cleared => cleared.2⟩

theorem during_foreign (h : label.thread ≠ some j) :
    m.During j k (label :: past) ↔ m.During j k past := by
  cases label with
  | act i action reply =>
    have other : i ≠ j := fun e => h (by rw [e]; rfl)
    simp [During, other]
  | start i op => exact and_iff_left fun e => h (by rw [e]; rfl)
  | done i op res => exact and_iff_left fun e => h (by rw [e]; rfl)
  | env event => rfl

theorem not_during_of_absent (h : ∀ label ∈ past, label.thread ≠ some j) :
    ¬ m.During j k past := by
  induction past with
  | nil => exact id
  | cons label past ih =>
    rw [during_foreign (h label (List.mem_cons_self ..))]
    exact ih fun l hl => h l (List.mem_cons_of_mem _ hl)

theorem not_during_start {op : Op} : ¬ m.During j k (.start j op :: past) := fun h => h.2 rfl

theorem not_during_done {op : Op} {res : Res} : ¬ m.During j k (.done j op res :: past) :=
  fun h => h.2 rfl

end Mark

/-- Every action of the past was one of a thread in the middle of an operation. -/
def Sane : List (Label M) → Prop
  | [] => True
  | .act i _ _ :: past => inCall i past ≠ none ∧ Sane past
  | .start _ _ :: past => Sane past
  | .done _ _ _ :: past => Sane past
  | .env _ :: past => Sane past

variable {m : Mark Act K}

theorem Mark.during_busy {j : Nat} {k : K} (sane : Sane past) (h : m.During j k past) :
    inCall j past ≠ none := by
  induction past with
  | nil => exact h.elim
  | cons label past ih =>
    cases label with
    | act i action reply =>
      rcases h with ⟨rfl, -⟩ | ⟨before, -⟩
      · exact sane.1
      · exact ih sane.2 before
    | start i op =>
      rw [inCall_start, if_neg h.2]
      exact ih sane h.1
    | done i op res =>
      rw [inCall_done, if_neg h.2]
      exact ih sane h.1
    | env event => exact ih sane h

theorem sane_step {c c' : Config M} (tracked : c.Tracked) (sane : Sane c.trace)
    (step : Step c label c') : Sane c'.trace := by
  cases step with
  | @act i op β action next reply mem running enabled =>
    refine ⟨?_, sane⟩
    rw [← tracked i, running]
    simp
  | start => exact sane
  | done => exact sane
  | env => exact sane

theorem sane_run {ok : Obs M → Label M → Prop} {mem : Mem} {c : Config M}
    (run : Run ok (.boot mem) c) : Sane c.trace := by
  suffices c.Tracked ∧ Sane c.trace from this.2
  refine run.invariant (P := fun c => c.Tracked ∧ Sane c.trace) ?_
    ⟨Config.boot_tracked mem, trivial⟩
  exact fun _ _ _ h _ step => ⟨step.tracked h.1, sane_step h.1 h.2 step⟩

/-- A mark is on only if its thread has set it. -/
theorem Mark.during_set {j : Nat} {k : K} (h : m.During j k past) :
    ∃ (β : Type) (action : Act β) (reply : β),
      .act j action reply ∈ past ∧ m.sets action reply k := by
  induction past with
  | nil => exact h.elim
  | cons label past ih =>
    have older : m.During j k past → ∃ (β : Type) (action : Act β) (reply : β),
        .act j action reply ∈ label :: past ∧ m.sets action reply k := by
      intro before
      obtain ⟨β, action, reply, there, sets⟩ := ih before
      exact ⟨β, action, reply, List.mem_cons_of_mem _ there, sets⟩
    cases label with
    | act i action reply =>
      rcases h with ⟨rfl, sets⟩ | ⟨before, -⟩
      · exact ⟨_, action, reply, List.mem_cons_self .., sets⟩
      · exact older before
    | start i op => exact older h.1
    | done i op res => exact older h.1
    | env event => exact older h

/-- A value that a thread's own actions determine. -/
structure Gauge (Act : Type → Type 1) (V : Type) where
  init : V
  next : ∀ {β : Type}, Act β → β → V → V

namespace Gauge

variable {V : Type}

/-- What the gauge of thread `j` shows after a past. -/
def of (g : Gauge Act V) (j : Nat) : List (Label M) → V
  | [] => g.init
  | .act i action reply :: past => if i = j then g.next action reply (of g j past) else of g j past
  | .start _ _ :: past => of g j past
  | .done _ _ _ :: past => of g j past
  | .env _ :: past => of g j past

variable {g : Gauge Act V} {i j : Nat} {past : List (Label M)}

theorem of_own {β : Type} {action : Act β} {reply : β} :
    g.of i (.act i action reply :: past) = g.next action reply (g.of i past) := if_pos rfl

theorem of_foreign (h : label.thread ≠ some j) :
    g.of j (label :: past) = g.of j past := by
  cases label with
  | act i action reply => exact if_neg fun e => h (by rw [e]; rfl)
  | start | done | env => rfl

theorem of_log (h : ∀ (i : Nat) (β : Type) (a : Act β) b, label ≠ .act i a b) :
    g.of j (label :: past) = g.of j past := by
  cases label with
  | act i action reply => exact absurd rfl (h i _ action reply)
  | start | done | env => rfl

theorem of_absent (h : ∀ label ∈ past, label.thread ≠ some j) : g.of j past = g.init := by
  induction past with
  | nil => rfl
  | cons label past ih =>
    rw [of_foreign (h label (List.mem_cons_self ..))]
    exact ih fun l hl => h l (List.mem_cons_of_mem _ hl)

end Gauge

/-- An assertion about what a thread alone writes in the trace is stable. -/
theorem stable_own {D : Discipline M} {i : Nat} {P : List (Label M) → Prop}
    (others : ∀ label past, label.thread ≠ some i → (P (label :: past) ↔ P past)) :
    D.Stable i fun o => P o.trace := by
  refine Discipline.Stable.intro ?_ ?_
  · intro o o' j label _ _ other own logged _ h
    rw [logged, others]
    · exact h
    · rw [own]
      simpa using other
  · intro o event _ h
    exact (others _ _ (by simp [Label.thread])).mpr h

theorem Mark.on_foreign {i : Nat} {k : K} (h : label.thread ≠ some i) :
    m.On i k (label :: past) ↔ m.On i k past := by
  cases label with
  | act j action reply => exact Mark.on_other rfl fun e => h (by rw [e]; rfl)
  | start => rfl
  | done => rfl
  | env => rfl

theorem inCall_foreign {i : Nat} (h : label.thread ≠ some i) :
    inCall i (label :: past) = inCall i past := by
  cases label with
  | act j action reply => rfl
  | start j op => exact if_neg fun e => h (by rw [e]; rfl)
  | done j op res => exact if_neg fun e => h (by rw [e]; rfl)
  | env event => rfl

end MatrixRuntime.TraceMarks
