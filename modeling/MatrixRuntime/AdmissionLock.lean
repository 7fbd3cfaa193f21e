import MatrixRuntime.KernelOperations
import MatrixRuntime.TraceMarks

/-! The admission lock, seen from the threads: which of them holds it is written in its
own past, and no two hold it at once. -/

namespace MatrixRuntime.AdmissionLock

open KernelState KernelActions InterleavedMachine KernelOperations TraceMarks

variable {depth : Nat} {o : KObs depth} {i j : Nat} {β : Type} {a : KAct β} {b : β}
  {mem : KState}

def locks {β : Type} : KAct β → β → Unit → Prop
  | .lockAdmit, _, _ => True
  | _, _, _ => False

def unlocks {β : Type} : KAct β → β → Unit → Prop
  | .unlockAdmit, _, _ => True
  | _, _, _ => False

/-- The thread holds the admission lock. -/
def holds : Mark KAct Unit := ⟨locks, unlocks⟩

/-- The lock is taken while a thread holds it, and one thread at most does. -/
def Exclusive (o : KObs depth) : Prop := ∀ i, holds.On i () o.trace →
  o.mem.admitHeld = true ∧ ∀ j, holds.On j () o.trace → j = i

theorem holds_act : holds.On j () (o.acted i a b mem).trace ↔
    (i = j ∧ locks a b ()) ∨ (holds.On j () o.trace ∧ ¬ (i = j ∧ unlocks a b ())) := Iff.rfl

theorem admitHeld_same (hl : ¬ locks a b ()) (hu : ¬ unlocks a b ())
    (enabled : a.sem o.mem = some (b, mem)) : mem.admitHeld = o.mem.admitHeld := by
  cases a with
  | lockAdmit => exact absurd trivial hl
  | unlockAdmit => exact absurd trivial hu
  | grant a => cases a <;> cases enabled <;> rfl
  | awaitSettled =>
    simp only [KAct.sem] at enabled
    split_ifs at enabled <;> cases enabled <;> rfl
  | _ => cases enabled; rfl

/-- Only who holds the lock gives it back, so every action keeps it exclusive. -/
theorem Exclusive.acted (h : Exclusive o) (owner : unlocks a b () → holds.On i () o.trace)
    (enabled : a.sem o.mem = some (b, mem)) : Exclusive (o.acted i a b mem) := by
  intro j hj
  by_cases hl : locks a b ()
  · -- the lock was free, so nobody held it
    cases a with
    | lockAdmit =>
      simp only [KAct.sem] at enabled
      split_ifs at enabled with hfree
      cases enabled
      have only : ∀ k, holds.On k () (.act i .lockAdmit () :: o.trace) → k = i := by
        intro k hk
        rcases hk with ⟨rfl, -⟩ | ⟨hk, -⟩
        · rfl
        · exact absurd (h k hk).1 hfree
      exact ⟨rfl, fun k hk => (only k hk).trans (only j hj).symm⟩
    | _ => exact hl.elim
  · rcases holds_act.mp hj with ⟨-, hl'⟩ | ⟨hbefore, hkept⟩
    · exact absurd hl' hl
    · have hu : ¬ unlocks a b () := fun hu => hkept ⟨(h j hbefore).2 i (owner hu), hu⟩
      refine ⟨(admitHeld_same hl hu enabled).trans (h j hbefore).1, fun k hk => ?_⟩
      rcases holds_act.mp hk with ⟨-, hl'⟩ | ⟨hk, -⟩
      · exact absurd hl' hl
      · exact (h j hbefore).2 k hk

theorem Exclusive.log (h : Exclusive o) {label : KLabel depth}
    (quiet : ∀ (i : Nat) (β : Type) (a : KAct β) b, label ≠ .act i a b) :
    Exclusive (o.log label) := by
  intro i hi
  simp only [Obs.log_trace, Mark.on_log quiet] at hi ⊢
  exact h i hi

theorem Exclusive.passed (h : Exclusive o) (event : KEnv) : Exclusive (o.passed event) := by
  cases event <;> exact h

/-- While one thread holds the lock no other one does. -/
theorem Exclusive.alone (h : Exclusive o) (held : holds.On i () o.trace) (other : j ≠ i) :
    ¬ holds.On j () o.trace := fun hj => other ((h i held).2 j hj)

end MatrixRuntime.AdmissionLock
