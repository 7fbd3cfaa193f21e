import Mathlib.Logic.Function.Basic
import Mathlib.Tactic.SplitIfs

/-! The lifecycle states of an activation and the context table that issues
instances. Every table operation is one critical section of the source's mutex,
so each is one function on the table. -/

namespace MatrixRuntime.KernelContexts

open Function

abbrev InstanceId := Nat

abbrev ContextId := Nat

inductive Fsm where
  | registered
  | waiting
  | preparing
  | active
  | quiescing
  | cleanupPending
  | disposed
  | failed
  | pending
  | loading
  | unloading
  deriving DecidableEq, Repr

namespace Fsm

def asStr : Fsm → String
  | registered => "Registered"
  | waiting => "Waiting"
  | preparing => "Preparing"
  | active => "Active"
  | quiescing => "Quiescing"
  | cleanupPending => "CleanupPending"
  | disposed => "Disposed"
  | failed => "Failed"
  | pending => "Pending"
  | loading => "Loading"
  | unloading => "Unloading"

/-- The legacy aliases read as the normative states they stand for. -/
def canonical : Fsm → Fsm
  | pending => registered
  | loading => preparing
  | unloading => quiescing
  | s => s

/-- Not yet withdrawn: a dispose may still claim it. -/
def live (s : Fsm) : Bool :=
  match s.canonical with
  | quiescing | cleanupPending | disposed | failed => false
  | _ => true

/-- Waiting to be activated, under any of its names. -/
def awaiting (s : Fsm) : Bool :=
  match s.canonical with
  | waiting | preparing | registered => true
  | _ => false

theorem live_of_awaiting {s : Fsm} (h : s.awaiting = true) : s.live = true := by
  revert h
  cases s <;> decide

theorem canonical_eq_cleanupPending {s : Fsm} :
    s.canonical = .cleanupPending ↔ s = .cleanupPending := by
  cases s <;> decide

end Fsm

structure ContextRecord where
  context : ContextId
  instanceId : InstanceId
  logical : String
  generation : Nat
  epoch : Nat
  state : Fsm
  cause : Option String
  deriving DecidableEq, Repr

/-- The full reference of an activation. -/
structure InstanceRef where
  epoch : Nat
  instanceId : InstanceId
  context : ContextId
  logical : String
  generation : Nat
  deriving DecidableEq, Repr

def ContextRecord.reference (rec : ContextRecord) : InstanceRef :=
  ⟨rec.epoch, rec.instanceId, rec.context, rec.logical, rec.generation⟩

inductive ContextError where
  | unknownInstance (inst : InstanceId)
  | notActive (logical : String) (state : Fsm)
  | staleGeneration (logical : String) (expected got : Nat)
  | alreadyDisposed (logical : String)
  deriving DecidableEq, Repr

inductive DisposeClaim where
  | fresh (rec : ContextRecord)
  | inFlight (logical : String)
  deriving DecidableEq, Repr

/-- The table's records are those it issued, each context with its own instance. -/
structure ContextTable where
  epoch : Nat
  nextInstance : Nat
  nextContext : Nat
  byInstance : InstanceId → Option ContextRecord
  currentByLogical : String → Option InstanceId
  generations : String → Nat
  paired : nextContext = nextInstance
  issued : ∀ inst rec, byInstance inst = some rec →
    rec.instanceId = inst ∧ rec.context = inst ∧ inst < nextInstance
  current_issued : ∀ logical inst, currentByLogical logical = some inst →
    ∃ rec, byInstance inst = some rec ∧ rec.logical = logical

variable (t : ContextTable) (inst j : InstanceId)

namespace ContextTable

def new (epoch : Nat) : ContextTable where
  epoch := epoch
  nextInstance := 1
  nextContext := 1
  byInstance _ := none
  currentByLogical _ := none
  generations _ := 0
  paired := rfl
  issued _ _ h := nomatch h
  current_issued _ _ h := nomatch h

def created (t : ContextTable) (logical : String) (state : Fsm) (cause : Option String) :
    ContextRecord :=
  ⟨t.nextContext, t.nextInstance, logical, t.generations logical + 1, t.epoch, state, cause⟩

def createIn (t : ContextTable) (logical : String) (state : Fsm) (cause : Option String) :
    ContextRecord × ContextTable :=
  (t.created logical state cause,
    { t with
      nextInstance := t.nextInstance + 1
      nextContext := t.nextContext + 1
      byInstance := update t.byInstance t.nextInstance (t.created logical state cause)
      currentByLogical := update t.currentByLogical logical t.nextInstance
      generations := update t.generations logical (t.generations logical + 1)
      paired := by rw [t.paired]
      issued := by
        intro inst rec h
        by_cases hi : inst = t.nextInstance
        · subst hi
          rw [update_self] at h
          cases h
          exact ⟨rfl, t.paired, Nat.lt_succ_self _⟩
        · rw [update_of_ne hi] at h
          obtain ⟨h₁, h₂, h₃⟩ := t.issued inst rec h
          exact ⟨h₁, h₂, Nat.lt_succ_of_lt h₃⟩
      current_issued := by
        intro l inst h
        by_cases hl : l = logical
        · subst hl
          rw [update_self] at h
          cases h
          exact ⟨_, update_self .., rfl⟩
        · rw [update_of_ne hl] at h
          obtain ⟨rec, hrec, hlog⟩ := t.current_issued l inst h
          have hne : inst ≠ t.nextInstance := Nat.ne_of_lt (t.issued inst rec hrec).2.2
          exact ⟨rec, by rw [update_of_ne hne, hrec], hlog⟩ })

/-- The record of `inst`, if there is one, moved to another state. -/
def revise (t : ContextTable) (inst : InstanceId) (state : Fsm) (cause : Option String) :
    ContextTable :=
  { t with
    byInstance := update t.byInstance inst
      ((t.byInstance inst).map fun rec => { rec with state := state, cause := cause })
    issued := by
      intro i rec h
      by_cases hi : i = inst
      · subst hi
        rw [update_self, Option.map_eq_some_iff] at h
        obtain ⟨rec', hrec, rfl⟩ := h
        exact t.issued i rec' hrec
      · rw [update_of_ne hi] at h
        exact t.issued i rec h
    current_issued := by
      intro l i h
      obtain ⟨rec, hrec, hlog⟩ := t.current_issued l i h
      by_cases hi : i = inst
      · subst hi
        refine ⟨{ rec with state := state, cause := cause }, ?_, hlog⟩
        rw [update_self, hrec]
        rfl
      · exact ⟨rec, by rw [update_of_ne hi, hrec], hlog⟩ }

theorem revise_byInstance (state : Fsm)
    (cause : Option String) :
    (t.revise inst state cause).byInstance j = if j = inst then
      (t.byInstance inst).map fun rec => { rec with state := state, cause := cause }
      else t.byInstance j := by
  by_cases h : j = inst
  · subst h
    simp [revise]
  · simp [revise, h]

def stateOf (t : ContextTable) (inst : InstanceId) : Option Fsm :=
  (t.byInstance inst).map (·.state)

theorem stateOf_of_byInstance {t : ContextTable} {inst : InstanceId} {rec : ContextRecord}
    (h : t.byInstance inst = some rec) : t.stateOf inst = some rec.state := by
  rw [stateOf, h]
  rfl

theorem revise_stateOf (state : Fsm)
    (cause : Option String) :
    (t.revise inst state cause).stateOf j =
      if j = inst then (t.stateOf inst).map fun _ => state else t.stateOf j := by
  simp only [stateOf, revise_byInstance]
  split_ifs
  · simp [Function.comp_def]
  · rfl

theorem createIn_stateOf (logical : String) (state : Fsm) (cause : Option String) (j : InstanceId) :
    (t.createIn logical state cause).2.stateOf j =
      if j = t.nextInstance then some state else t.stateOf j := by
  by_cases h : j = t.nextInstance
  · subst h
    simp [createIn, stateOf, created]
  · simp [createIn, stateOf, h]

theorem stateOf_lt {t : ContextTable} {inst : InstanceId} {state : Fsm}
    (h : t.stateOf inst = some state) : inst < t.nextInstance := by
  obtain ⟨rec, hrec, -⟩ := Option.map_eq_some_iff.mp h
  exact (t.issued inst rec hrec).2.2

def current (t : ContextTable) (logical : String) : Option ContextRecord :=
  (t.currentByLogical logical).bind t.byInstance

def requireActive (t : ContextTable) (inst : InstanceId) : Except ContextError ContextRecord :=
  match t.byInstance inst with
  | none => .error (.unknownInstance inst)
  | some rec =>
    if rec.state.canonical ≠ .active then .error (.notActive rec.logical rec.state)
    else
      match t.currentByLogical rec.logical with
      | some cur =>
        if cur ≠ inst then
          .error (.staleGeneration rec.logical
            (((t.byInstance cur).map (·.generation)).getD rec.generation) rec.generation)
        else .ok rec
      | none => .ok rec

def claimDispose (t : ContextTable) (inst : InstanceId) :
    Except ContextError DisposeClaim × ContextTable :=
  match t.byInstance inst with
  | none => (.error (.unknownInstance inst), t)
  | some rec =>
    match rec.state.canonical with
    | .disposed => (.error (.alreadyDisposed rec.logical), t)
    | .failed => (.error (.alreadyDisposed rec.logical), t)
    | .quiescing => (.ok (.inFlight rec.logical), t)
    | .cleanupPending => (.ok (.inFlight rec.logical), t)
    | _ => (.ok (.fresh { rec with state := .quiescing, cause := none }),
        t.revise inst .quiescing none)

def markDisposed (t : ContextTable) (inst : InstanceId) : ContextTable :=
  t.revise inst .disposed none

def markCleanupPending (t : ContextTable) (inst : InstanceId) (cause : String) : ContextTable :=
  t.revise inst .cleanupPending (some cause)

def markFailed (t : ContextTable) (inst : InstanceId) (cause : String) : ContextTable :=
  t.revise inst .failed (some cause)

def markActive (t : ContextTable) (inst : InstanceId) : Bool × ContextTable :=
  match t.byInstance inst with
  | none => (false, t)
  | some rec =>
    match rec.state.canonical with
    | .waiting | .preparing | .registered => (true, t.revise inst .active none)
    | .active => (true, t)
    | _ => (false, t)

def markWaiting (t : ContextTable) (inst : InstanceId) (cause : String) : Bool × ContextTable :=
  match t.byInstance inst with
  | none => (false, t)
  | some rec =>
    match rec.state.canonical with
    | .waiting | .preparing | .registered => (true, t.revise inst .waiting (some cause))
    | _ => (false, t)

theorem claimDispose_cases (inst : InstanceId) :
    ((t.claimDispose inst).2 = t ∧ ∀ rec, (t.claimDispose inst).1 ≠ .ok (.fresh rec)) ∨
      ∃ rec, t.byInstance inst = some rec ∧ rec.state.live = true ∧ t.claimDispose inst =
          (.ok (.fresh { rec with state := .quiescing, cause := none }),
            t.revise inst .quiescing none) := by
  cases h : t.byInstance inst with
  | none => exact .inl (by simp [claimDispose, h])
  | some rec =>
    cases hl : rec.state.live with
    | false =>
      left
      cases hs : rec.state <;> simp_all [claimDispose, Fsm.canonical, Fsm.live]
    | true =>
      refine .inr ⟨rec, rfl, hl, ?_⟩
      cases hs : rec.state <;> simp_all [claimDispose, Fsm.canonical, Fsm.live]

theorem markActive_cases (inst : InstanceId) : (t.markActive inst).2 = t ∨
      ∃ state, t.stateOf inst = some state ∧ state.awaiting = true ∧
        t.markActive inst = (true, t.revise inst .active none) := by
  cases h : t.byInstance inst with
  | none => exact .inl (by simp [markActive, h])
  | some rec =>
    cases hw : rec.state.awaiting with
    | false =>
      left
      cases hs : rec.state <;> simp_all [markActive, Fsm.canonical, Fsm.awaiting]
    | true =>
      refine .inr ⟨rec.state, by simp [stateOf, h], hw, ?_⟩
      cases hs : rec.state <;> simp_all [markActive, Fsm.canonical, Fsm.awaiting]

theorem markWaiting_cases (inst : InstanceId) (cause : String) : (t.markWaiting inst cause).2 = t ∨
      ∃ state, t.stateOf inst = some state ∧ state.awaiting = true ∧
        t.markWaiting inst cause = (true, t.revise inst .waiting (some cause)) := by
  cases h : t.byInstance inst with
  | none => exact .inl (by simp [markWaiting, h])
  | some rec =>
    cases hw : rec.state.awaiting with
    | false =>
      left
      cases hs : rec.state <;> simp_all [markWaiting, Fsm.canonical, Fsm.awaiting]
    | true =>
      refine .inr ⟨rec.state, by simp [stateOf, h], hw, ?_⟩
      cases hs : rec.state <;> simp_all [markWaiting, Fsm.canonical, Fsm.awaiting]

/-- Moving towards `Active` touches only a waiting instance. -/
theorem markActive_stateOf : (t.markActive inst).2.stateOf j = t.stateOf j ∨
      ((t.markActive inst).2.stateOf j = some .active ∧
        ∃ state, t.stateOf j = some state ∧ state.awaiting = true) := by
  rcases t.markActive_cases inst with h | ⟨state, hstate, hwait, h⟩
  · exact .inl (by rw [h])
  · rw [h]
    by_cases hj : j = inst
    · subst hj
      exact .inr ⟨by rw [revise_stateOf, if_pos rfl, hstate]; rfl, state, hstate, hwait⟩
    · exact .inl (by rw [revise_stateOf, if_neg hj])

theorem markWaiting_stateOf (cause : String) :
    (t.markWaiting inst cause).2.stateOf j = t.stateOf j ∨
      ((t.markWaiting inst cause).2.stateOf j = some .waiting ∧
        ∃ state, t.stateOf j = some state ∧ state.awaiting = true) := by
  rcases t.markWaiting_cases inst cause with h | ⟨state, hstate, hwait, h⟩
  · exact .inl (by rw [h])
  · rw [h]
    by_cases hj : j = inst
    · subst hj
      exact .inr ⟨by rw [revise_stateOf, if_pos rfl, hstate]; rfl, state, hstate, hwait⟩
    · exact .inl (by rw [revise_stateOf, if_neg hj])

end ContextTable

end MatrixRuntime.KernelContexts
