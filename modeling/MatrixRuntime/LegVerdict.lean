import MatrixRuntime.CompactJson
import MatrixRuntime.RouteExecutor
import MatrixRuntime.StoreCalls

/-! The verdict on a leg: what the ledger holds after a bounded invocation, and how the
executor and the service read the code of a result. -/

namespace MatrixRuntime.LegVerdict

open JsonValue KeyedTable StoreLedger StoreCalls RouteExecutor

variable {text : JsonText} {principal operation : String} {db : Db}

/-- The result a leg goes on with: what the kernel returned, or the timeout. -/
def outcomeResult (outcome : Option (Json × Bool)) : Json × Bool := outcome.getD timedOut

/-- The ledger after a leg has recorded its verdict. -/
def verdictLedger (text : JsonText) (principal operation : String)
    (outcome : Option (Json × Bool)) (wasCancelled current : Bool) (db : Db) : Stored Unit :=
  let (value, ok) := outcomeResult outcome
  finish text principal operation (legResult value ok wasCancelled current)
    (legUnknown value current || wasCancelled) db

/-- The ledger holds a completed operation only with what the kernel returned; when no result
came in time it holds it as unknown; and both paths classify the code alike. -/
structure RecordsTruly (text : JsonText) (principal operation : String)
    (outcome : Option (Json × Bool)) (wasCancelled current : Bool) (db : Db) : Prop where
  completed : ∀ row, (verdictLedger text principal operation outcome wasCancelled current
      db).2.operations.get (principal, operation) = some row → row.state = .completed →
    ∃ value ok, outcome = some (value, ok) ∧ row.result = some (text.encode (durable ok value))
  unknown : outcome = none →
    (verdictLedger text principal operation outcome wasCancelled current db).1 = .ok () →
    ∀ row, (verdictLedger text principal operation outcome wasCancelled current
      db).2.operations.get (principal, operation) = some row → row.state = .unknown
  alike : executorUnknown (codeOf (outcomeResult outcome).1) =
    serviceUnknown (codeOf (outcomeResult outcome).1)

theorem classify_alike_iff (code : String) : executorUnknown code = serviceUnknown code ↔
    code ≠ "deadline-exceeded" ∧ code ≠ "deadline-exhausted" := by
  unfold executorUnknown serviceUnknown
  by_cases hx : code = "deadline-exceeded"
  · subst hx
    simp
  · by_cases hh : code = "deadline-exhausted"
    · subst hh
      simp
    · simp [beq_eq_false_iff_ne.mpr hx, beq_eq_false_iff_ne.mpr hh, hx, hh]

/-- The row of an operation after a finish. -/
theorem finish_row (result : Json) (unknown : Bool) {row : OpRow}
    (there : db.operations.get (principal, operation) = some row)
    (pending : row.state = .admitted) :
    (finish text principal operation result unknown db).2.operations.get (principal, operation) =
      some row ∨
    (finish text principal operation result unknown db).2.operations.get (principal, operation) =
      some ⟨row.request, if unknown then .unknown else .completed, some (text.encode result)⟩ := by
  cases h : (finish text principal operation result unknown db).1 with
  | error e =>
    rw [finish_error h]
    exact .inl there
  | ok u =>
    refine .inr ?_
    rw [(finish_ok h).2, Table.modify_get, there]
    simp [pending]

/-- A completed row that was admitted before holds what the kernel returned in time. -/
theorem completed_returned {value : Json} {ok wasCancelled current : Bool} {row row' : OpRow}
    (there : db.operations.get (principal, operation) = some row) (pending : row.state = .admitted)
    (after : (verdictLedger text principal operation (some (value, ok)) wasCancelled current
      db).2.operations.get (principal, operation) = some row')
    (done : row'.state = .completed) : row'.result = some (text.encode (durable ok value)) := by
  rcases @finish_row text _ _ _ (legResult value ok wasCancelled current)
    (legUnknown value current || wasCancelled) _ there pending with same | recorded
  · rw [show (verdictLedger text principal operation (some (value, ok)) wasCancelled current
      db).2.operations.get (principal, operation) = some row from same] at after
    cases after
    rw [pending] at done
    cases done
  · rw [show (verdictLedger text principal operation (some (value, ok)) wasCancelled current
      db).2.operations.get (principal, operation) = _ from recorded] at after
    cases after
    cases wasCancelled <;> cases current <;> simp_all [legResult, legUnknown]

/-- A leg's verdict on an admitted operation is true to the kernel exactly when the result it
goes on with carries neither of the two deadline codes. -/
theorem records_truly_iff (outcome : Option (Json × Bool)) (wasCancelled current : Bool)
    {row : OpRow} (there : db.operations.get (principal, operation) = some row)
    (pending : row.state = .admitted) :
    RecordsTruly text principal operation outcome wasCancelled current db ↔
      codeOf (outcomeResult outcome).1 ≠ "deadline-exceeded" ∧
        codeOf (outcomeResult outcome).1 ≠ "deadline-exhausted" := by
  constructor
  · intro h
    exact (classify_alike_iff _).mp h.alike
  · intro h
    cases outcome with
    | none => exact absurd (by decide +kernel) h.1
    | some result =>
      obtain ⟨value, ok⟩ := result
      refine ⟨fun row' after done => ⟨value, ok, rfl, ?_⟩, fun hnone => absurd hnone (by simp),
        (classify_alike_iff _).mpr h⟩
      exact completed_returned there pending after done

/-- A ledger with one operation admitted. -/
def admittedLedger : Db :=
  (admitOperation CompactJson.compact "peer" "op-1" (.obj [("cap", .str "echo")]) .fresh).2

theorem admittedLedger_row : admittedLedger.operations.get ("peer", "op-1") =
    some ⟨CompactJson.compact.encode (.obj [("cap", .str "echo")]), .admitted, none⟩ := by
  decide +kernel

theorem records_truly_returned : RecordsTruly CompactJson.compact "peer" "op-1"
    (some (.obj [("echo", .num 1)], true)) false true admittedLedger :=
  (records_truly_iff (some (.obj [("echo", .num 1)], true)) false true admittedLedger_row rfl).mpr
    (by decide +kernel)

/-- The budget runs out: the ledger takes the operation for completed. -/
theorem timeout_recorded_completed :
    (verdictLedger CompactJson.compact "peer" "op-1" none false true admittedLedger).1.isOk ∧
    ((verdictLedger CompactJson.compact "peer" "op-1" none false true
      admittedLedger).2.operations.get ("peer", "op-1")).map OpRow.state = some .completed ∧
    serviceUnknown (codeOf timedOut.1) = true ∧
    ¬ RecordsTruly CompactJson.compact "peer" "op-1" none false true admittedLedger := by
  refine ⟨by decide +kernel, by decide +kernel, by decide +kernel, fun h => ?_⟩
  have alike := h.alike
  exact absurd alike (by decide +kernel)

end MatrixRuntime.LegVerdict
