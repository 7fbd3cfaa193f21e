import MatrixRuntime.KernelActions

/-! What context actions can do to the state of an activation, whoever takes them. -/

namespace MatrixRuntime.ContextFrame

open KernelContexts KernelActions

/-- The activation was withdrawn, failed or disposed: no action makes it live again. -/
def Withdrawn (t : ContextTable) (inst : InstanceId) : Prop :=
  ∃ s, t.stateOf inst = some s ∧ s.live = false

variable {t : ContextTable} {inst : InstanceId} {rec : ContextRecord} {β : Type}

theorem Withdrawn.lt (h : Withdrawn t inst) : inst < t.nextInstance := by
  obtain ⟨s, hs, -⟩ := h
  exact ContextTable.stateOf_lt hs

theorem Withdrawn.revise (h : Withdrawn t inst) (k : InstanceId) {s : Fsm} (cause : Option String)
    (hs : s.live = false) : Withdrawn (t.revise k s cause) inst := by
  obtain ⟨s₀, hs₀, hlive⟩ := h
  by_cases hk : inst = k
  · subst hk
    exact ⟨s, by rw [ContextTable.revise_stateOf, if_pos rfl, hs₀]; rfl, hs⟩
  · exact ⟨s₀, by rw [ContextTable.revise_stateOf, if_neg hk, hs₀], hlive⟩

theorem Withdrawn.of_same {t' : ContextTable} (h : Withdrawn t inst)
    (same : t'.stateOf inst = t.stateOf inst) : Withdrawn t' inst := by
  rwa [Withdrawn, same]

theorem Withdrawn.run (h : Withdrawn t inst) (a : ContextAct β) : Withdrawn (a.run t).2 inst := by
  cases a with
  | epoch | get | current | currentAll | requireActive => exact h
  | create logical state cause =>
    refine h.of_same ?_
    rw [ContextAct.run, ContextTable.createIn_stateOf, if_neg (Nat.ne_of_lt h.lt)]
  | claimDispose k =>
    rcases t.claimDispose_cases k with ⟨hsame, -⟩ | ⟨rec, -, -, hclaim⟩
    · exact h.of_same (by rw [ContextAct.run, hsame])
    · rw [ContextAct.run, hclaim]
      exact h.revise k none rfl
  | markDisposed k => exact h.revise k _ rfl
  | markCleanupPending writer k cause => exact h.revise k _ rfl
  | markFailed k cause => exact h.revise k _ rfl
  | markActive k =>
    rcases t.markActive_stateOf k inst with hsame | ⟨-, s, hs, hwait⟩
    · exact h.of_same hsame
    · obtain ⟨s₀, hs₀, hdead⟩ := h
      rw [hs, Option.some.injEq] at hs₀
      simp [← hs₀, Fsm.live_of_awaiting hwait] at hdead
  | markWaiting k cause =>
    rcases t.markWaiting_stateOf k inst cause with hsame | ⟨-, s, hs, hwait⟩
    · exact h.of_same hsame
    · obtain ⟨s₀, hs₀, hdead⟩ := h
      rw [hs, Option.some.injEq] at hs₀
      simp [← hs₀, Fsm.live_of_awaiting hwait] at hdead

/-- The activation is known, with this generation. -/
def Dated (t : ContextTable) (inst : InstanceId) (generation : Nat) : Prop :=
  ∃ rec, t.byInstance inst = some rec ∧ rec.generation = generation

theorem Dated.revise {generation : Nat} (h : Dated t inst generation) (k : InstanceId) (s : Fsm)
    (cause : Option String) : Dated (t.revise k s cause) inst generation := by
  obtain ⟨rec, found, rfl⟩ := h
  have after := t.revise_byInstance k inst s cause
  by_cases hk : inst = k
  · subst hk
    rw [if_pos rfl, found] at after
    exact ⟨_, after, rfl⟩
  · exact ⟨rec, after.trans ((if_neg hk).trans found), rfl⟩

theorem Dated.run {generation : Nat} (h : Dated t inst generation) (a : ContextAct β) :
    Dated (a.run t).2 inst generation := by
  cases a with
  | epoch | get | current | currentAll | requireActive => exact h
  | create logical state cause =>
    obtain ⟨rec, found, rfl⟩ := h
    refine ⟨rec, (Function.update_of_ne ?_ _ _).trans found, rfl⟩
    exact Nat.ne_of_lt (t.issued inst rec found).2.2
  | claimDispose k =>
    rcases t.claimDispose_cases k with ⟨hsame, -⟩ | ⟨rec, -, -, hclaim⟩
    · rwa [ContextAct.run, hsame]
    · rw [ContextAct.run, hclaim]
      exact h.revise k _ _
  | markDisposed k => exact h.revise k _ _
  | markCleanupPending writer k cause => exact h.revise k _ _
  | markFailed k cause => exact h.revise k _ _
  | markActive k =>
    rcases t.markActive_cases k with hsame | ⟨_, -, -, done⟩
    · rwa [ContextAct.run, hsame]
    · rw [ContextAct.run, done]
      exact h.revise k _ _
  | markWaiting k cause =>
    rcases t.markWaiting_cases k cause with hsame | ⟨_, -, -, done⟩
    · rwa [ContextAct.run, hsame]
    · rw [ContextAct.run, done]
      exact h.revise k _ _

/-- The actions that put `inst` in `Disposed`. -/
def disposes {β : Type} (inst : InstanceId) : ContextAct β → Prop
  | .markDisposed k => k = inst
  | .create _ state _ => state = .disposed
  | _ => False

theorem disposed_origin {a : ContextAct β} (h : (a.run t).2.stateOf inst = some .disposed) :
    t.stateOf inst = some .disposed ∨ disposes inst a := by
  have revised : ∀ {k : InstanceId} {s : Fsm} {cause : Option String}, s ≠ .disposed →
      (t.revise k s cause).stateOf inst = some .disposed → t.stateOf inst = some .disposed := by
    intro k s cause hne hs
    rw [ContextTable.revise_stateOf] at hs
    split_ifs at hs with hk
    · obtain ⟨_, -, rfl⟩ := Option.map_eq_some_iff.mp hs
      exact absurd rfl hne
    · exact hs
  cases a with
  | epoch | get | current | currentAll | requireActive => exact .inl h
  | create logical state cause =>
    rw [ContextAct.run, ContextTable.createIn_stateOf] at h
    split_ifs at h
    · exact .inr (Option.some.inj h)
    · exact .inl h
  | claimDispose k =>
    rcases t.claimDispose_cases k with ⟨hsame, -⟩ | ⟨rec, -, -, hclaim⟩
    · rw [ContextAct.run, hsame] at h
      exact .inl h
    · rw [ContextAct.run, hclaim] at h
      exact .inl (revised (by decide) h)
  | markDisposed k =>
    by_cases hk : inst = k
    · exact .inr hk.symm
    · simp only [ContextAct.run, ContextTable.markDisposed, ContextTable.revise_stateOf,
        if_neg hk] at h
      exact .inl h
  | markCleanupPending writer k cause => exact .inl (revised (by decide) h)
  | markFailed k cause => exact .inl (revised (by decide) h)
  | markActive k =>
    rcases t.markActive_stateOf k inst with hsame | ⟨hafter, -⟩
    · exact .inl (hsame.symm.trans h)
    · exact absurd (hafter.symm.trans h) (by decide)
  | markWaiting k cause =>
    rcases t.markWaiting_stateOf k inst cause with hsame | ⟨hafter, -⟩
    · exact .inl (hsame.symm.trans h)
    · exact absurd (hafter.symm.trans h) (by decide)

theorem requireActive_live (h : t.requireActive inst = .ok rec) :
    rec.instanceId = inst ∧ ¬ Withdrawn t inst := by
  unfold ContextTable.requireActive at h
  split at h
  next => cases h
  next r hr =>
    split at h
    next => cases h
    next hactive =>
      have hrec : r = rec := by
        split at h
        next =>
          split at h
          next => cases h
          next =>
            cases h
            rfl
        next =>
          cases h
          rfl
      subst hrec
      refine ⟨(t.issued inst r hr).1, ?_⟩
      rintro ⟨s, hs, hdead⟩
      rw [ContextTable.stateOf_of_byInstance hr, Option.some.injEq] at hs
      subst hs
      rw [Fsm.live, not_not.mp hactive] at hdead
      cases hdead

/-- A claim that is granted withdraws its instance. -/
theorem claimDispose_fresh (h : (t.claimDispose inst).1 = .ok (.fresh rec)) :
    rec.instanceId = inst ∧ Withdrawn (t.claimDispose inst).2 inst := by
  rcases t.claimDispose_cases inst with ⟨-, hne⟩ | ⟨rec', hrec', -, hclaim⟩
  · exact absurd h (hne rec)
  · simp only [hclaim] at h ⊢
    cases h
    refine ⟨(t.issued inst rec' hrec').1, .quiescing, ?_, rfl⟩
    simp [ContextTable.revise_stateOf, ContextTable.stateOf_of_byInstance hrec']

/-- After a claim, granted or not, a known instance is withdrawn. -/
theorem claimDispose_withdraws (known : t.stateOf inst ≠ none) :
    Withdrawn (t.claimDispose inst).2 inst := by
  obtain ⟨s, hs⟩ := Option.ne_none_iff_exists'.mp known
  obtain ⟨rec, hrec, rfl⟩ := Option.map_eq_some_iff.mp hs
  have revised : Withdrawn (t.revise inst .quiescing none) inst :=
    ⟨.quiescing, by rw [ContextTable.revise_stateOf, if_pos rfl, hs]; rfl, rfl⟩
  cases state : rec.state <;> rw [state] at hs <;>
    simp only [ContextTable.claimDispose, hrec, state, Fsm.canonical] <;>
    first
      | exact revised
      | exact ⟨_, hs, rfl⟩

/-! ### The current activation -/

/-- The current activation of `logical` is `inst`, and it is active. -/
def CurrentActive (t : ContextTable) (logical : String) (inst : InstanceId) : Prop :=
  (t.current logical).any (fun rec => decide (rec.instanceId = inst ∧
    rec.state.canonical = .active)) = true

variable {logical : String}

theorem currentActive_iff : CurrentActive t logical inst ↔ t.currentByLogical logical = some inst ∧
      ∃ s, t.stateOf inst = some s ∧ s.canonical = .active := by
  rw [CurrentActive, ContextTable.current]
  constructor
  · intro h
    obtain ⟨rec, hrec, hkey⟩ := (Option.any_eq_true ..).mp h
    obtain ⟨k, hk, hk'⟩ := Option.bind_eq_some_iff.mp hrec
    obtain ⟨hinst, hstate⟩ := of_decide_eq_true hkey
    rw [(t.issued k rec hk').1] at hinst
    subst hinst
    exact ⟨hk, rec.state, ContextTable.stateOf_of_byInstance hk', hstate⟩
  · rintro ⟨hcur, s, hs, hactive⟩
    obtain ⟨rec, hrec, rfl⟩ := Option.map_eq_some_iff.mp hs
    rw [hcur, Option.bind_some, hrec, Option.any_some]
    exact decide_eq_true ⟨(t.issued inst rec hrec).1, hactive⟩

theorem CurrentActive.not_withdrawn (h : CurrentActive t logical inst) : ¬ Withdrawn t inst := by
  rintro ⟨s, hs, hdead⟩
  obtain ⟨-, s', hs', hactive⟩ := currentActive_iff.mp h
  rw [hs, Option.some.injEq] at hs'
  subst hs'
  rw [Fsm.live, hactive] at hdead
  cases hdead

/-- The actions that can take `inst` away from being the active one of `logical`. -/
def replaces {β : Type} (logical : String) (inst : InstanceId) : ContextAct β → Prop
  | .create l _ _ => l = logical
  | .claimDispose k | .markDisposed k | .markCleanupPending _ k _ | .markFailed k _ => k = inst
  | _ => False

theorem CurrentActive.run {a : ContextAct β} (h : CurrentActive t logical inst)
    (stays : ¬ replaces logical inst a) : CurrentActive (a.run t).2 logical inst := by
  obtain ⟨hcur, s, hs, hactive⟩ := currentActive_iff.mp h
  have revised : ∀ (k : InstanceId) (state : Fsm) (cause : Option String), k ≠ inst →
      CurrentActive (t.revise k state cause) logical inst := by
    intro k state cause hk
    refine currentActive_iff.mpr ⟨hcur, s, ?_, hactive⟩
    rw [ContextTable.revise_stateOf, if_neg (Ne.symm hk), hs]
  have awake : ∀ {state : Fsm}, t.stateOf inst = some state → state.awaiting = true → False := by
    intro state hstate hwait
    rw [hs, Option.some.injEq] at hstate
    rw [← hstate, Fsm.awaiting, hactive] at hwait
    cases hwait
  cases a with
  | epoch | get | current | currentAll | requireActive => exact h
  | create l state cause =>
    have hne : inst ≠ t.nextInstance := Nat.ne_of_lt (ContextTable.stateOf_lt hs)
    refine currentActive_iff.mpr ⟨?_, s, ?_, hactive⟩
    · exact (Function.update_of_ne (Ne.symm stays) ..).trans hcur
    · rw [ContextAct.run, ContextTable.createIn_stateOf, if_neg hne, hs]
  | claimDispose k =>
    rcases t.claimDispose_cases k with ⟨hsame, -⟩ | ⟨rec, -, -, hclaim⟩
    · rw [ContextAct.run, hsame]
      exact h
    · rw [ContextAct.run, hclaim]
      exact revised k _ _ stays
  | markDisposed k => exact revised k _ _ stays
  | markCleanupPending writer k cause => exact revised k _ _ stays
  | markFailed k cause => exact revised k _ _ stays
  | markActive k =>
    rcases t.markActive_cases k with hsame | ⟨state, hstate, hwait, hmark⟩
    · rw [ContextAct.run, hsame]
      exact h
    · rw [ContextAct.run, hmark]
      exact revised k _ _ fun hk => awake (hk ▸ hstate) hwait
  | markWaiting k cause =>
    rcases t.markWaiting_cases k cause with hsame | ⟨state, hstate, hwait, hmark⟩
    · rw [ContextAct.run, hsame]
      exact h
    · rw [ContextAct.run, hmark]
      exact revised k _ _ fun hk => awake (hk ▸ hstate) hwait

/-- A dispose of an active instance gets the claim. -/
theorem CurrentActive.claimed (h : CurrentActive t logical inst) :
    ∃ rec, (t.claimDispose inst).1 = .ok (.fresh rec) := by
  rcases t.claimDispose_cases inst with ⟨-, hne⟩ | ⟨rec, -, -, hclaim⟩
  · obtain ⟨-, s, hs, hactive⟩ := currentActive_iff.mp h
    obtain ⟨rec, hrec, rfl⟩ := Option.map_eq_some_iff.mp hs
    refine absurd ?_ (hne { rec with state := .quiescing, cause := none })
    simp only [ContextTable.claimDispose, hrec]
    rw [hactive]
  · exact ⟨_, by rw [hclaim]⟩

end MatrixRuntime.ContextFrame
