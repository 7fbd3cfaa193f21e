import Mathlib
import MatrixRuntime.RuntimeService

/-! The restart budget of a supervised component, by the nanosecond. -/

namespace MatrixRuntime.RestartWindows

open RuntimeService

def millis (n : Nat) : Nat := n * 1000000

def saturate (n : Nat) : Nat := min n (2 ^ 64 - 1)

/-- The pause before the restart that follows this many attempts in the window. -/
def backoff (p : RestartPolicy) (attempts : Nat) : Nat :=
  min (saturate (saturate (p.backoffMs * 2 ^ min attempts 10) + attempts * 37 % p.backoffMs)) 60000

def reserve (b : RestartBudget) (now : Nat) (p : RestartPolicy) : Option Nat × RestartBudget :=
  if p.windowMs = 0 ∨ p.backoffMs = 0 ∨ 100 < p.maxRestarts then (none, b)
  else
    let attempts := b.attempts.dropWhile fun t => decide (millis p.windowMs ≤ now - t)
    if p.maxRestarts ≤ attempts.length then (none, ⟨attempts⟩)
    else (some (now + millis (backoff p attempts.length)), ⟨attempts ++ [now]⟩)

variable (b : RestartBudget) (p : RestartPolicy)

theorem backoff_eq (attempts : Nat) : backoff p attempts =
    min (p.backoffMs * 1 <<< min attempts 10 + attempts * 37 % p.backoffMs) 60000 := by
  rw [Nat.one_shiftLeft]
  unfold backoff saturate
  omega

/-- The service's model of the budget is this one, on a clock that shows whole milliseconds. -/
theorem reserve_millis (now : Nat) (p : RestartPolicy) :
    reserve ⟨b.attempts.map millis⟩ (millis now) p =
      ((b.reserve now p).1.map millis, ⟨(b.reserve now p).2.attempts.map millis⟩) := by
  have aged : (fun t => decide (millis p.windowMs ≤ millis now - t)) ∘ millis =
      fun t => decide (p.windowMs ≤ now - t) := by
    -- on an applied composition the kernel would compute with the factor
    change (fun t => decide (millis p.windowMs ≤ millis now - millis t)) = _
    funext t
    refine decide_eq_decide.mpr ?_
    unfold millis
    omega
  unfold reserve RestartBudget.reserve
  split_ifs with off
  · rfl
  simp only [List.dropWhile_map, aged, List.length_map, backoff_eq]
  split_ifs
  · rfl
  · simp [millis, Nat.add_mul]

/-- The granted calls of a sequence of calls, with the restart times they were given. -/
def grants (p : RestartPolicy) (b : RestartBudget) : List Nat → List (Nat × Nat)
  | [] => []
  | now :: later =>
    let (reply, b) := reserve b now p
    match reply with
    | none => grants p b later
    | some next => (now, next) :: grants p b later

theorem backoff_bounds {p : RestartPolicy} (pause : p.backoffMs ≠ 0) (attempts : Nat) :
    0 < backoff p attempts ∧ backoff p attempts ≤ 60000 := by
  have product : 0 < p.backoffMs * 2 ^ min attempts 10 := by positivity
  rw [backoff_eq, Nat.one_shiftLeft]
  omega

/-- What a call does: it forgets attempts that are a window old, and grants only while fewer than
the allowed number are left. -/
theorem reserve_cases (now : Nat) (p : RestartPolicy) :
    ∃ old kept, b.attempts = old ++ kept ∧ (∀ t ∈ old, t + millis p.windowMs ≤ now) ∧
      (reserve b now p = (none, ⟨kept⟩) ∨ kept.length < p.maxRestarts ∧ p.backoffMs ≠ 0 ∧
        reserve b now p = (some (now + millis (backoff p kept.length)), ⟨kept ++ [now]⟩)) := by
  unfold reserve
  split_ifs with off
  · exact ⟨[], b.attempts, rfl, by simp, .inl rfl⟩
  obtain ⟨window, pause, -⟩ : p.windowMs ≠ 0 ∧ p.backoffMs ≠ 0 ∧ _ := by
    simpa only [not_or] using off
  refine ⟨_, _, (List.takeWhile_append_dropWhile
    (p := fun t => decide (millis p.windowMs ≤ now - t))).symm, fun t old => ?_, ?_⟩
  · have aged := List.mem_takeWhile_imp old
    rw [decide_eq_true_eq] at aged
    unfold millis at aged ⊢
    omega
  · simp only
    split_ifs with full
    · exact .inl rfl
    · exact .inr ⟨not_le.mp full, pause, rfl⟩

/-- At most the allowed number of these times lie in any window. -/
def Spaced (p : RestartPolicy) (times : List Nat) : Prop :=
  ∀ a, times.countP (fun t => a ≤ t ∧ t < a + millis p.windowMs) ≤ p.maxRestarts

/-- A time that comes after all that is a window old, with few others, keeps the spacing. -/
theorem Spaced.snoc {p : RestartPolicy} {old kept : List Nat} {now : Nat}
    (spaced : Spaced p (old ++ kept)) (aged : ∀ t ∈ old, t + millis p.windowMs ≤ now)
    (few : kept.length < p.maxRestarts) : Spaced p (old ++ kept ++ [now]) := by
  intro a
  by_cases inside : a ≤ now ∧ now < a + millis p.windowMs
  · have gone : old.countP (fun t => a ≤ t ∧ t < a + millis p.windowMs) = 0 := by
      refine List.countP_eq_zero.mpr fun t there => ?_
      have := aged t there
      simp only [decide_eq_true_eq]
      omega
    rw [List.append_assoc, List.countP_append, gone, Nat.zero_add]
    refine List.countP_le_length.trans ?_
    simpa using few
  · rw [List.countP_append, List.countP_singleton]
    simpa [inside] using spaced a

theorem grants_spaced (times : List Nat) (sorted : times.Pairwise (· ≤ ·))
    (b : RestartBudget) (old : List Nat) (spaced : Spaced p (old ++ b.attempts))
    (aged : ∀ now ∈ times, ∀ t ∈ old, t + millis p.windowMs ≤ now) :
    Spaced p (old ++ b.attempts ++ (grants p b times).map Prod.fst) := by
  induction times generalizing b old with
  | nil => simpa [grants] using spaced
  | cons now later ih =>
    obtain ⟨first, sorted⟩ := List.pairwise_cons.mp sorted
    obtain ⟨forgot, kept, split, ago, step⟩ := reserve_cases b now p
    rw [split, ← List.append_assoc] at spaced ⊢
    have aged' : ∀ at' ∈ later, ∀ t ∈ old ++ forgot, t + millis p.windowMs ≤ at' := by
      intro at' there t member
      rcases List.mem_append.mp member with before | now'
      · exact aged at' (List.mem_cons_of_mem _ there) t before
      · exact (ago t now').trans (first at' there)
    rcases step with refused | ⟨few, -, granted⟩
    · simp only [grants, refused]
      exact ih sorted ⟨kept⟩ (old ++ forgot) spaced aged'
    · have more : Spaced p (old ++ forgot ++ (kept ++ [now])) := by
        rw [← List.append_assoc]
        refine spaced.snoc (fun t member => ?_) few
        rcases List.mem_append.mp member with before | now'
        · exact aged now List.mem_cons_self t before
        · exact ago t now'
      simp only [grants, granted, List.map_cons]
      simpa using ih sorted ⟨kept ++ [now]⟩ (old ++ forgot) more aged'

theorem grants_soon (times : List Nat) (b : RestartBudget) :
    ∀ g ∈ grants p b times, g.1 < g.2 ∧ g.2 ≤ g.1 + millis 60000 := by
  induction times generalizing b with
  | nil => simp [grants]
  | cons now later ih =>
    obtain ⟨forgot, kept, -, -, step⟩ := reserve_cases b now p
    rcases step with refused | ⟨-, pause, granted⟩
    · simpa only [grants, refused] using ih _
    · have bounds := backoff_bounds pause kept.length
      simp only [grants, granted, List.mem_cons, forall_eq_or_imp]
      refine ⟨?_, ih _⟩
      unfold millis
      omega

/-- However calls come, no window has more restarts than allowed, and a restart comes after its
call and within a minute of it. -/
theorem restarts_bounded (p : RestartPolicy) (times : List Nat) (sorted : times.Pairwise (· ≤ ·)) :
    Spaced p ((grants p {} times).map Prod.fst) ∧
      ∀ g ∈ grants p {} times, g.1 < g.2 ∧ g.2 ≤ g.1 + millis 60000 := by
  refine ⟨?_, grants_soon p times {}⟩
  simpa using grants_spaced p times sorted {} [] (by simp [Spaced]) (by simp)

/-- One restart a second, asked for three times. -/
theorem restarts_bounded_of_one :
    Spaced ⟨1, 1000, 100⟩ ((grants ⟨1, 1000, 100⟩ {} [0, 5, 2000000000]).map Prod.fst) ∧
      ∀ g ∈ grants ⟨1, 1000, 100⟩ {} [0, 5, 2000000000], g.1 < g.2 ∧ g.2 ≤ g.1 + millis 60000 :=
  restarts_bounded ⟨1, 1000, 100⟩ [0, 5, 2000000000] (by decide)

end MatrixRuntime.RestartWindows
