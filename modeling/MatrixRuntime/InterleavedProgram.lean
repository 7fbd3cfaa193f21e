import Mathlib.Logic.Relation
import Mathlib.Logic.Function.Basic

/-! Programs over atomic actions, and their sequential execution.
A program is a well-founded tree: each node performs one action and branches on
its reply. Nothing is said about when the actions of two programs interleave;
that is the business of the machine that schedules them. -/

namespace MatrixRuntime.InterleavedProgram

inductive Prog (Act : Type → Type 1) (α : Type) : Type 1 where
  | pure (value : α)
  | act {β : Type} (action : Act β) (next : β → Prog Act α)
  | blocked

variable {Act : Type → Type 1} {α β γ : Type} {R : α → Prop}

namespace Prog

def bind : Prog Act α → (α → Prog Act β) → Prog Act β
  | .pure value, f => f value
  | .act action next, f => .act action fun reply => (next reply).bind f
  | .blocked, _ => .blocked

instance : Monad (Prog Act) where
  pure := .pure
  bind := bind

@[simp] theorem pure_eq (value : α) : (Pure.pure value : Prog Act α) = .pure value := rfl

@[simp] theorem bind_eq (p : Prog Act α) (f : α → Prog Act β) : p >>= f = p.bind f := rfl

@[simp] theorem pure_bind (value : α) (f : α → Prog Act β) :
    (Prog.pure value : Prog Act α).bind f = f value := rfl

@[simp] theorem act_bind (action : Act γ) (next : γ → Prog Act α) (f : α → Prog Act β) :
    (Prog.act action next).bind f = .act action fun reply => (next reply).bind f := rfl

theorem bind_pure (p : Prog Act α) : p.bind .pure = p := by
  induction p with
  | pure value => rfl
  | act action next ih => simp only [act_bind, ih]
  | blocked => rfl

theorem bind_assoc (p : Prog Act α) (f : α → Prog Act β) (g : β → Prog Act γ) :
    (p.bind f).bind g = p.bind fun value => (f value).bind g := by
  induction p with
  | pure value => rfl
  | act action next ih => simp only [act_bind, ih]
  | blocked => rfl

end Prog

/-- The program that performs one action and returns its reply. -/
def perform (action : Act α) : Prog Act α := .act action .pure

@[simp] theorem perform_bind (action : Act α) (f : α → Prog Act β) :
    (perform action).bind f = .act action f := rfl

/-- Run a program over each element in turn. -/
def forEach {ι : Type} : List ι → (ι → Prog Act Unit) → Prog Act Unit
  | [], _ => .pure ()
  | x :: xs, body => (body x).bind fun _ => forEach xs body

/-- Whatever the replies to its actions, the program returns a value that satisfies `R`. -/
def Prog.Returns (R : α → Prop) : Prog Act α → Prop
  | .pure value => R value
  | .act _ next => ∀ reply, (next reply).Returns R
  | .blocked => True

variable {f : α → Prog Act β}

variable {p : Prog Act α}

theorem Prog.Returns.all (every : ∀ value, R value) (p : Prog Act α) : p.Returns R := by
  induction p with
  | pure value => exact every value
  | act action next ih => exact ih
  | blocked => trivial

theorem Prog.Returns.andThen {R' : β → Prop} (hp : p.Returns R)
    (hf : ∀ value, R value → (f value).Returns R') : (p.bind f).Returns R' := by
  induction p with
  | pure value => exact hf value hp
  | act action next ih => exact fun reply => ih reply (hp reply)
  | blocked => trivial

theorem Prog.Returns.bind {R : β → Prop} (p : Prog Act α) (hf : ∀ value, (f value).Returns R) :
    (p.bind f).Returns R :=
  (all (fun _ => trivial) p).andThen fun value _ => hf value

theorem Prog.Returns.mono {R' : α → Prop} (h : p.Returns R)
    (weaker : ∀ value, R value → R' value) : p.Returns R' := by
  induction p with
  | pure value => exact weaker value h
  | act action next ih => exact fun reply => ih reply (h reply)
  | blocked => trivial

/-- For some replies to its actions, the program returns this value. -/
inductive Prog.Yields : Prog Act α → α → Prop
  | pure (value : α) : Yields (.pure value) value
  | act {δ : Type} {action : Act δ} {next : δ → Prog Act α} {value : α} (reply : δ)
      (rest : Yields (next reply) value) : Yields (.act action next) value

theorem Prog.Returns.yields {value : α} (h : p.Returns R) (yields : p.Yields value) : R value := by
  induction yields with
  | pure value => exact h
  | act reply _ ih => exact ih (h reply)

instance factTrue : Fact True := ⟨trivial⟩

instance factSelf {v : α} : Fact (v = v) := ⟨rfl⟩

/-- `Composed C S p`: every path of `p` is made of actions of `C` and of whole
subprograms of `S`. -/
inductive Composed (C : ∀ β : Type, Act β → Prop) (S : ∀ β : Type, Prog Act β → Prop) :
    ∀ {α : Type}, Prog Act α → Prop
  | pure {α : Type} (value : α) : Composed C S (.pure value)
  | blocked {α : Type} : Composed C S (.blocked : Prog Act α)
  | act {α β : Type} {action : Act β} {next : β → Prog Act α} (allowed : C β action)
      (rest : ∀ reply, Composed C S (next reply)) : Composed C S (.act action next)
  | sub {α β : Type} {p : Prog Act β} {f : β → Prog Act α} (known : S β p)
      (rest : ∀ value, Composed C S (f value)) : Composed C S (p.bind f)

namespace Composed

variable {C C' : ∀ β : Type, Act β → Prop} {S S' : ∀ β : Type, Prog Act β → Prop}

theorem bind (hp : Composed C S p) (hf : ∀ value, Composed C S (f value)) :
    Composed C S (p.bind f) := by
  induction hp with
  | pure value => exact hf value
  | blocked => exact .blocked
  | act allowed _ ih => exact .act allowed fun reply => ih reply
  | sub known _ ih =>
    rw [Prog.bind_assoc]
    exact .sub known fun value => ih value

theorem perform {action : Act α} (allowed : C α action) :
    Composed C S (InterleavedProgram.perform action) :=
  .act allowed fun reply => .pure reply

theorem step {action : Act α} (allowed : C α action) (rest : ∀ reply, Composed C S (f reply)) :
    Composed C S ((InterleavedProgram.perform action).bind f) :=
  .bind (.perform allowed) rest

theorem map {g : α → β} (hp : Composed C S p) :
    Composed C S (p.bind fun value => .pure (g value)) :=
  hp.bind fun _ => .pure _

/-- An action that the class has by definition. -/
theorem next {action : Act α} [allowed : Fact (C α action)]
    (rest : ∀ reply, Composed C S (f reply)) :
    Composed C S ((InterleavedProgram.perform action).bind f) := .step allowed.out rest

theorem once {action : Act α} [allowed : Fact (C α action)] :
    Composed C S (InterleavedProgram.perform action) := .perform allowed.out

theorem whole (known : S α p) : Composed C S p := by
  have h : Composed C S (p.bind .pure) := .sub known fun value => .pure value
  rwa [Prog.bind_pure] at h

theorem forEach {ι : Type} {body : ι → Prog Act Unit} (xs : List ι)
    (h : ∀ x, Composed C S (body x)) : Composed C S (InterleavedProgram.forEach xs body) := by
  induction xs with
  | nil => exact .pure ()
  | cons x xs ih => exact (h x).bind fun _ => ih

theorem ite {c : Prop} [Decidable c] {q : Prog Act α} (hp : Composed C S p) (hq : Composed C S q) :
    Composed C S (if c then p else q) := by
  split
  · exact hp
  · exact hq

theorem mono (h : Composed C S p) (hC : ∀ β action, C β action → C' β action)
    (hS : ∀ β q, S β q → Composed C' S' q) :
    Composed C' S' p := by
  induction h with
  | pure value => exact .pure value
  | blocked => exact .blocked
  | act allowed _ ih => exact .act (hC _ _ allowed) ih
  | sub known _ ih => exact (hS _ _ known).bind ih

theorem weaken (h : Composed C (fun _ _ => False) p) (hC : ∀ β action, C β action → C' β action) :
    Composed C' S p :=
  h.mono hC fun _ _ => False.elim

end Composed

end MatrixRuntime.InterleavedProgram
