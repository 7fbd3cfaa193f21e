import Mathlib.Data.List.Basic
import MatrixRuntime.GuardedSteps
import MatrixRuntime.JsonValue

/-! The waiter records of the C client: a caller lists a record under the number of its request,
waits on it and frees it; the reader takes it off the list for a result in one critical section
and completes it in another. Every critical section is a move. -/

namespace MatrixRuntime.WaiterRecords

open JsonValue GuardedSteps

inductive Reply where
  | output (value : Json)
  | error (code msg : String)

def strOr (value : Option Json) (text : String) : String := (value.bind Json.asStr).getD text

def succeeded (body : Json) : Bool := strOr (body.get "status") "" == "ok"

/-- What `route_dep_result` writes into the record. -/
def depReply (body : Json) : Reply :=
  if succeeded body then .output ((body.get "output").getD .null)
  else
    let err := (body.get "error").getD .null
    .error (strOr (err.get "code") "internal") (strOr (err.get "message") "remote error")

/-- What `route_res_result` writes: every field but two. -/
def resReply (body : Json) : Reply :=
  if succeeded body then
    match body with
    | .obj fields => .output (.obj (fields.filter fun p => p.1 ≠ "operation_id" ∧ p.1 ≠ "status"))
    | _ => .output (.obj [])
  else .error (strOr (body.get "code") "internal") (strOr (body.get "message") "remote error")

inductive Caller where
  | absent
  | waiting
  | leaving
  | detached
  | released
  deriving DecidableEq

/-- A record with where its caller is, whether the reader took it and what the caller got. -/
structure Record where
  caller : Caller := .absent
  taken : Bool := false
  done : Bool := false
  reply : Option Reply := none
  delivered : Option Reply := none

structure Client where
  waiters : List Nat := []
  record : Nat → Record := fun _ => {}
  reader : Option (Nat × Reply) := none

def Client.set (s : Client) (rid : Nat) (r : Record) : Client :=
  { s with record := Function.update s.record rid r }

inductive Leave where
  | expired
  | cancelled
  | transport
  deriving DecidableEq

inductive Move where
  | add (rid : Nat)
  | route (dep : Bool) (rid : Nat) (body : Json)
  | complete
  | signalled (rid : Nat)
  | leave (rid : Nat) (how : Leave)
  | detach (rid : Nat)
  | free (rid : Nat)

/-- A wait gives up only after it saw the record not done; a request that was not sent is not
waited for. -/
def next (s : Client) : Move → Option Client
  | .add rid =>
    let r := s.record rid
    if r.caller = .absent then
      some { s.set rid { r with caller := .waiting } with waiters := rid :: s.waiters }
    else none
  | .route dep rid body =>
    if s.reader.isSome then none
    else if rid ∈ s.waiters then
      let reply := if dep then depReply body else resReply body
      some { s.set rid { s.record rid with taken := true } with
        waiters := s.waiters.erase rid, reader := some (rid, reply) }
    else some s
  | .complete =>
    s.reader.map fun (rid, reply) =>
      { s.set rid { s.record rid with reply := some reply, done := true } with reader := none }
  | .signalled rid =>
    let r := s.record rid
    if r.caller = .waiting ∧ r.done = true then
      some (s.set rid { r with caller := .leaving, delivered := r.reply, reply := none })
    else none
  | .leave rid how =>
    let r := s.record rid
    if r.caller = .waiting ∧ (how = .transport ∨ r.done = false) then
      some (s.set rid { r with caller := .leaving })
    else none
  | .detach rid =>
    let r := s.record rid
    if r.caller = .leaving then
      some { s.set rid { r with caller := .detached } with waiters := s.waiters.erase rid }
    else none
  | .free rid =>
    let r := s.record rid
    if r.caller = .detached then some (s.set rid { r with caller := .released, reply := none })
    else none

/-- The list and the reader hold no released record, and none both; a record released after the
reader took it was completed before, and what it held was delivered or freed with it. -/
structure Owned (s : Client) : Prop where
  listed : ∀ rid ∈ s.waiters, (s.record rid).caller ≠ .released
  held : ∀ rid reply, s.reader = some (rid, reply) →
    (s.record rid).caller ≠ .released ∧ rid ∉ s.waiters
  settled : ∀ rid, (s.record rid).caller = .released →
    ((s.record rid).taken = true → (s.record rid).done = true) ∧ (s.record rid).reply = none

/-- The reader does not hold a record that is freed. -/
def Patient (s : Client) : Move → Prop
  | .free rid => s.reader.all fun p => p.1 ≠ rid
  | _ => True

instance : ∀ s m, Decidable (Patient s m)
  | _, .free _ => inferInstanceAs (Decidable (_ = true))
  | _, .add _ | _, .route .. | _, .complete | _, .signalled _ | _, .leave .. | _, .detach _ =>
    .isTrue ⟨⟩

/-- The reader takes a record; its caller times out and frees it; the reader writes into it. -/
theorem completes_released : ∃ s, Reaches next (fun _ _ => True) {} s ∧ ¬ Owned s := by
  obtain ⟨s, run, holds, freed⟩ := reaches_of_play next (fun _ _ => True)
    (fun s => s.reader.any (fun p => p.1 == 0) = true ∧ (s.record 0).caller = .released) {}
    [.add 0, .route true 0 .null, .leave 0 .expired, .detach 0, .free 0] (by decide)
  refine ⟨s, run, fun owned => ?_⟩
  cases reader : s.reader with
  | none => simp [reader] at holds
  | some p =>
    have own : p.1 = 0 := by simpa [reader] using holds
    exact (owned.held p.1 p.2 reader).1 (own ▸ freed)

/-- Only a record whose caller is still in its call is listed, and none that the reader took. -/
structure Inv (s : Client) : Prop where
  nodup : s.waiters.Nodup
  listed : ∀ rid ∈ s.waiters, (s.record rid).taken = false ∧
    ((s.record rid).caller = .waiting ∨ (s.record rid).caller = .leaving)
  held : ∀ rid reply, s.reader = some (rid, reply) →
    (s.record rid).taken = true ∧ (s.record rid).caller ≠ .released
  taken : ∀ rid, (s.record rid).taken = true → (s.record rid).caller ≠ .absent ∧
    ((s.record rid).done = true ∨ ∃ reply, s.reader = some (rid, reply))
  freed : ∀ rid, (s.record rid).caller = .released → (s.record rid).reply = none

theorem Inv.owned {s : Client} (h : Inv s) : Owned s where
  listed rid there := by
    rcases (h.listed rid there).2 with at_ | at_ <;> simp [at_]
  held rid reply reader := by
    obtain ⟨taken, kept⟩ := h.held rid reply reader
    refine ⟨kept, fun there => ?_⟩
    simp [(h.listed rid there).1] at taken
  settled rid freed := by
    refine ⟨fun taken => ?_, h.freed rid freed⟩
    obtain ⟨-, done | ⟨reply, reader⟩⟩ := h.taken rid taken
    · exact done
    · exact absurd freed (h.held rid reply reader).2

theorem Inv.step {s s' : Client} {m : Move} (h : Inv s) (patient : Patient s m)
    (moved : next s m = some s') : Inv s' := by
  obtain ⟨nodup, listed, held, taken, freed⟩ := h
  cases m with
  | route dep rid body =>
    simp only [next, Client.set] at moved
    split at moved
    · cases moved
    · next idle =>
      have none : s.reader = none := by simpa using idle
      split at moved
      · cases moved
        refine ⟨?_, ?_, ?_, fun other was => ?_, ?_⟩
        case refine_4 =>
          by_cases same : other = rid
          · exact ⟨by grind, .inr ⟨_, by rw [same]⟩⟩
          · grind [Function.update_apply]
        all_goals grind [Function.update_apply]
      · cases moved
        exact ⟨nodup, listed, held, taken, freed⟩
  | complete =>
    obtain ⟨⟨rid, reply⟩, reader, rfl⟩ := Option.map_eq_some_iff.mp moved
    have kept := held rid reply reader
    simp only [Client.set]
    constructor <;> grind [Function.update_apply]
  | free rid =>
    have apart : ∀ other reply, s.reader = some (other, reply) → other ≠ rid := fun _ _ reader => by
      simpa [Patient, reader] using patient
    simp only [next, Client.set] at moved
    split at moved
    · cases moved
      constructor <;> grind [Function.update_apply]
    · cases moved
  | add rid | signalled rid | leave rid how | detach rid =>
    simp only [next, Client.set] at moved
    split at moved
    · cases moved
      constructor <;> grind [Function.update_apply]
    · cases moved

/-- In every run in which no record is freed in the reader's hands, every record has one owner. -/
theorem owned_of_patient (s : Client) (run : Reaches next Patient {} s) : Owned s :=
  Inv.owned (run.invariant (by constructor <;> simp) fun _ _ _ h patient => h.step patient)

theorem released_owned : ∃ s, (s.record 0).caller = .released ∧ (s.record 0).taken = true ∧
    Owned s := by
  obtain ⟨s, run, freed, taken⟩ := reaches_of_play next Patient
    (fun s => (s.record 0).caller = .released ∧ (s.record 0).taken = true) {}
    [.add 0, .route true 0 .null, .leave 0 .expired, .detach 0, .complete, .free 0] (by decide)
  exact ⟨s, freed, taken, owned_of_patient s run⟩

end MatrixRuntime.WaiterRecords
