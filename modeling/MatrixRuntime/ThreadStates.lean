import Mathlib.Data.Set.Card
import MatrixRuntime.RelyGuarantee

/-! Protocols that the threads of a machine follow. A protocol gives every thread a state, moved
by the thread's own actions and their replies; that each operation follows it is read off its
program alone, with no regard to interleaving. What holds of the memory and the states of all
threads is then shown step by step. -/

namespace MatrixRuntime.ThreadStates

open InterleavedProgram InterleavedMachine RelyGuarantee Function

variable {Mem : Type} {Act : Type → Type 1} {Op Res Env σ : Type}
  {M : Machine Mem Act Op Res Env} {α β : Type}

structure Protocol (M : Machine Mem Act Op Res Env) (σ : Type) where
  idle : σ
  enter : Op → σ
  allows : ∀ {β : Type}, σ → Act β → Prop
  next : ∀ {β : Type}, σ → Act β → β → σ
  leaves : Op → Res → σ → Prop

namespace Protocol

variable (P : Protocol M σ)

/-- Every path of the program takes only allowed actions, and ends in `Q`. -/
def Follows {α : Type} : Prog Act α → (α → σ → Prop) → σ → Prop
  | .pure value, Q, s => Q value s
  | .act action rest, Q, s =>
    P.allows s action ∧ ∀ reply, Follows (rest reply) Q (P.next s action reply)
  | .blocked, _, _ => True

variable {P} {p : Prog Act α} {Q Q' : α → σ → Prop} {s : σ}

theorem Follows.act {action : Act β} {rest : β → Prog Act α} (allows : P.allows s action)
    (follows : ∀ reply, P.Follows (rest reply) Q (P.next s action reply)) :
    P.Follows (.act action rest) Q s := ⟨allows, follows⟩

theorem Follows.mono (h : P.Follows p Q s) (weaker : ∀ value s, Q value s → Q' value s) :
    P.Follows p Q' s := by
  induction p generalizing s with
  | pure value => exact weaker value s h
  | act action rest ih => exact ⟨h.1, fun reply => ih reply (h.2 reply)⟩
  | blocked => trivial

theorem Follows.bind {f : α → Prog Act β} {R : β → σ → Prop} (hp : P.Follows p Q s)
    (hf : ∀ value s, Q value s → P.Follows (f value) R s) : P.Follows (p.bind f) R s := by
  induction p generalizing s with
  | pure value => exact hf value s hp
  | act action rest ih => exact ⟨hp.1, fun reply => ih reply (hp.2 reply)⟩
  | blocked => trivial

/-- A program whose actions and parts keep the thread within some states. -/
theorem Follows.within {C : ∀ β : Type, Act β → Prop} {S : ∀ β : Type, Prog Act β → Prop}
    {R : σ → Prop} (h : Composed C S p)
    (stays : ∀ β (action : Act β) s, C β action → R s →
      P.allows s action ∧ ∀ reply, R (P.next s action reply))
    (parts : ∀ β (q : Prog Act β) s, S β q → R s → P.Follows q (fun _ => R) s) (hs : R s) :
    P.Follows p (fun _ => R) s := by
  induction h generalizing s with
  | pure value => exact hs
  | blocked => trivial
  | act allowed _ ih =>
    obtain ⟨allows, stay⟩ := stays _ _ _ allowed hs
    exact ⟨allows, fun reply => ih reply (stay reply)⟩
  | sub known _ ih => exact (parts _ _ _ known hs).bind fun value s hs => ih value hs

/-- A program whose actions are allowed in a state and do not leave it. -/
theorem Follows.composed {C : ∀ β : Type, Act β → Prop} (h : Composed C (fun _ _ => False) p)
    (stays : ∀ β (action : Act β), C β action →
      P.allows s action ∧ ∀ reply, P.next s action reply = s) :
    P.Follows p (fun _ s' => s' = s) s := by
  refine .within h (fun β action s allowed here => ?_) (fun _ _ _ none => none.elim) rfl
  subst here
  exact stays β action allowed

variable (P)

/-- Only finitely many threads are not idle. -/
def Sparse (st : Nat → σ) : Prop := {i | st i ≠ P.idle}.Finite

/-- What every kind of step preserves of the thread states and the rest. -/
structure Preserved (ok : Obs M → Label M → Prop) (J : (Nat → σ) → Obs M → Prop) : Prop where
  start : ∀ {st o i op}, P.Sparse st → J st o → st i = P.idle → ok o (.start i op) →
    J (update st i (P.enter op)) (o.log (.start i op))
  act : ∀ {st o i β} {action : Act β} {reply mem}, P.Sparse st → J st o →
    P.allows (st i) action → M.sem action o.mem = some (reply, mem) → ok o (.act i action reply) →
    J (update st i (P.next (st i) action reply)) (o.acted i action reply mem)
  done : ∀ {st o i op res}, P.Sparse st → J st o → P.leaves op res (st i) → ok o (.done i op res) →
    J (update st i P.idle) (o.log (.done i op res))
  env : ∀ {st o event}, J st o → ok o (.env event) → J st (o.passed event)

/-- The threads are where their states say. -/
structure Tracks (st : Nat → σ) (c : Config M) : Prop where
  idle : ∀ i, c.threads i = none → st i = P.idle
  code : ∀ i op code, c.threads i = some ⟨op, code⟩ →
    P.Follows code (P.leaves op) (st i)

variable {P} {ok : Obs M → Label M → Prop} {J : (Nat → σ) → Obs M → Prop} {st : Nat → σ}
  {c c' : Config M} {label : Label M} {i : Nat}

theorem Tracks.move (tracks : P.Tracks st c) {thread : Option (Thread M)} {next : σ}
    {o : Obs M} (idle : thread = none → next = P.idle)
    (code : ∀ op code, thread = some ⟨op, code⟩ → P.Follows code (P.leaves op) next) :
    P.Tracks (update st i next) ⟨o, update c.threads i thread⟩ := by
  constructor
  · intro j none
    by_cases own : j = i
    · subst own
      simp only [update_self] at none ⊢
      exact idle none
    · simp only [update_of_ne own] at none ⊢
      exact tracks.idle j none
  · intro j op code' running
    by_cases own : j = i
    · subst own
      simp only [update_self] at running ⊢
      exact code op code' running
    · simp only [update_of_ne own] at running ⊢
      exact tracks.code j op code' running

theorem Sparse.update (sparse : P.Sparse st) (i : Nat) (s : σ) :
    P.Sparse (update st i s) := by
  refine (sparse.insert i).subset fun j busy => ?_
  by_cases own : j = i
  · exact .inl own
  · refine .inr ?_
    rwa [Set.mem_ofPred_eq, update_of_ne own] at busy

/-- If every operation follows the protocol, what its steps preserve goes on to hold. -/
theorem Preserved.onward (preserved : P.Preserved ok J)
    (follows : ∀ op, P.Follows (M.code op) (P.leaves op) (P.enter op))
    (now : ∃ st, P.Sparse st ∧ J st c.toObs ∧ P.Tracks st c) (run : Run ok c c') :
    ∃ st, P.Sparse st ∧ J st c'.toObs ∧ P.Tracks st c' := by
  refine run.invariant (P := fun c => ∃ st, P.Sparse st ∧ J st c.toObs ∧ P.Tracks st c) ?_ now
  rintro c label c' ⟨st, sparse, holds, tracks⟩ hok step
  cases step with
  | start op idle =>
    refine ⟨_, sparse.update .., preserved.start sparse holds (tracks.idle _ idle) hok,
      tracks.move (fun none => nomatch none) ?_⟩
    rintro op code ⟨⟩
    exact follows op
  | act running enabled =>
    obtain ⟨allows, rest⟩ := tracks.code _ _ _ running
    refine ⟨_, sparse.update .., preserved.act sparse holds allows enabled hok,
      tracks.move (fun none => nomatch none) ?_⟩
    rintro op code ⟨⟩
    exact rest _
  | done finished =>
    refine ⟨_, sparse.update .., preserved.done sparse holds (tracks.code _ _ _ finished) hok,
      tracks.move (fun _ => rfl) fun _ _ none => nomatch none⟩
  | env event => exact ⟨st, sparse, preserved.env holds hok, tracks.idle, tracks.code⟩

theorem Preserved.run (preserved : P.Preserved ok J)
    (follows : ∀ op, P.Follows (M.code op) (P.leaves op) (P.enter op)) {mem : Mem}
    (boot : J (fun _ => P.idle) ⟨mem, []⟩) (run : Run ok (.boot mem) c) :
    ∃ st, P.Sparse st ∧ J st c.toObs ∧ P.Tracks st c := by
  refine preserved.onward follows ?_ run
  exact ⟨fun _ => P.idle, by simp [Sparse], boot, fun _ _ => rfl, fun _ _ _ none => nomatch none⟩

/-- A run whose threads follow the protocol takes only steps that it allows, so another development
may count on what follows from that. -/
theorem Preserved.enforces {L : Obs M → Label M → Prop} (preserved : P.Preserved ok J)
    (follows : ∀ op, P.Follows (M.code op) (P.leaves op) (P.enter op))
    (acts : ∀ {st o i β} {action : Act β} {reply}, J st o → P.allows (st i) action →
      L o (.act i action reply))
    (others : ∀ o label, (∀ i β (action : Act β) reply, label ≠ .act i action reply) → L o label)
    {mem : Mem} (boot : J (fun _ => P.idle) ⟨mem, []⟩) (run : Run ok (.boot mem) c) :
    Run (fun o label => ok o label ∧ L o label) (.boot mem) c := by
  refine (run.invariant (P := fun c => Run ok (.boot mem) c ∧
    Run (fun o label => ok o label ∧ L o label) (.boot mem) c) ?_ ⟨.refl, .refl⟩).2
  rintro c label c' ⟨past, strong⟩ hok step
  refine ⟨past.tail ⟨label, hok, step⟩, strong.tail ⟨label, ⟨hok, ?_⟩, step⟩⟩
  obtain ⟨st, -, holds, tracks⟩ := preserved.run follows boot past
  cases step with
  | act running enabled => exact acts holds (tracks.code _ _ _ running).1
  | start | done | env => exact others _ _ (by simp)

/-- What every restart re-establishes holds over all the runs of a system. -/
theorem Preserved.lives (preserved : P.Preserved ok J)
    (follows : ∀ op, P.Follows (M.code op) (P.leaves op) (P.enter op))
    {init : Mem → Prop} {restart : Mem → Mem → Prop}
    (fresh : ∀ mem, init mem → J (fun _ => P.idle) ⟨mem, []⟩)
    (restarted : ∀ st o mem, J st o → restart o.mem mem → J (fun _ => P.idle) ⟨mem, []⟩)
    (h : Lives ok init restart c) : ∃ st, P.Sparse st ∧ J st c.toObs ∧ P.Tracks st c := by
  induction h with
  | first hinit run => exact preserved.run follows (fresh _ hinit) run
  | again _ hrestart run ih =>
    obtain ⟨st, -, holds, -⟩ := ih
    exact preserved.run follows (restarted st _ _ holds hrestart) run

/-! ### Counting -/

/-- How many threads are in a state of some kind. -/
noncomputable def count (p : σ → Bool) (st : Nat → σ) : Nat := {i | p (st i) = true}.ncard

variable {p q : σ → Bool}

theorem Sparse.finite (sparse : P.Sparse st) (out : p P.idle = false) :
    {i | p (st i) = true}.Finite := by
  refine sparse.subset fun i holds idle => ?_
  rw [Set.mem_ofPred_eq, idle, out] at holds
  cases holds

theorem ncard_apart {q : Nat → Bool} (finite : {j | q j = true}.Finite) (i : Nat) :
    {j | q j = true ∧ j ≠ i}.ncard + (q i).toNat = {j | q j = true}.ncard := by
  have apart : {j | q j = true ∧ j ≠ i} = {j | q j = true} \ {i} := rfl
  rw [apart]
  cases own : q i with
  | true => exact Set.ncard_sdiff_singleton_add_one own finite
  | false =>
    rw [Set.sdiff_singleton_eq_self (by simp [own])]
    rfl

/-- One thread moves. -/
theorem count_update (sparse : P.Sparse st) (out : p P.idle = false) (i : Nat) (s : σ) :
    count p (update st i s) + (p (st i)).toNat = count p st + (p s).toNat := by
  have others : {j | p (update st i s j) = true ∧ j ≠ i} =
      {j | p (st j) = true ∧ j ≠ i} := by
    ext j
    refine and_congr_left fun other => ?_
    rw [update_of_ne other]
  have before := ncard_apart (sparse.finite out) i
  have after := ncard_apart ((sparse.update i s).finite out) i
  rw [others, update_self] at after
  unfold count
  omega

theorem count_mono (sparse : P.Sparse st) (out : q P.idle = false)
    (weaker : ∀ s, p s = true → q s = true) : count p st ≤ count q st :=
  Set.ncard_le_ncard (fun i => weaker (st i)) (sparse.finite out)

end Protocol

end MatrixRuntime.ThreadStates
