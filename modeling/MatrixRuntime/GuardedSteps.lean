import Mathlib.Logic.Relation

/-! Systems that move by a partial next state, with the runs whose moves are all allowed where
they are taken and the schedules that evaluate to such runs. -/

namespace MatrixRuntime.GuardedSteps

variable {S M : Type} {next : S → M → Option S} {ok : S → M → Prop} {P : S → Prop} {s s' : S}

def Reaches (next : S → M → Option S) (ok : S → M → Prop) : S → S → Prop :=
  Relation.ReflTransGen fun s s' => ∃ m, ok s m ∧ next s m = some s'

theorem Reaches.invariant (run : Reaches next ok s s') (start : P s)
    (step : ∀ s m s', P s → ok s m → next s m = some s' → P s') : P s' := by
  induction run with
  | refl => exact start
  | tail _ move ih =>
    obtain ⟨m, allowed, taken⟩ := move
    exact step _ m _ ih allowed taken

def play (next : S → M → Option S) (ok : S → M → Prop) [∀ s m, Decidable (ok s m)] :
    List M → S → Option S
  | [], s => some s
  | m :: moves, s => if ok s m then (next s m).bind (play next ok moves) else none

theorem play_reaches [∀ s m, Decidable (ok s m)] {moves : List M}
    (h : play next ok moves s = some s') : Reaches next ok s s' := by
  induction moves generalizing s with
  | nil =>
    cases h
    exact .refl
  | cons m moves ih =>
    simp only [play] at h
    split at h
    · next allowed =>
      obtain ⟨mid, taken, rest⟩ := Option.bind_eq_some_iff.mp h
      exact .head ⟨m, allowed, taken⟩ (ih rest)
    · cases h

theorem reaches_of_play (next : S → M → Option S) (ok : S → M → Prop) (P : S → Prop)
    [∀ s m, Decidable (ok s m)] [DecidablePred P] (s : S) (moves : List M)
    (h : (play next ok moves s).any (fun s' => decide (P s')) = true) :
    ∃ s', Reaches next ok s s' ∧ P s' := by
  cases ended : play next ok moves s with
  | none => simp [ended] at h
  | some s' => exact ⟨s', play_reaches ended, by simpa [ended] using h⟩

end MatrixRuntime.GuardedSteps
