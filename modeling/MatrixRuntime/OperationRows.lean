import MatrixRuntime.ExecutorRuns
import MatrixRuntime.LegVerdict
import MatrixRuntime.SequentialRuns

/-! The ledger row of an operation after `Service::invoke`. Between the admission and the finish
stand a check that returns early and a finish that can refuse, and neither settles the row. -/

namespace MatrixRuntime.OperationRows

open KernelContexts JsonValue StoreLedger StoreCalls RouteExecutor ExecutorRuns InterleavedProgram
open InterleavedMachine SequentialRuns

/-- What an invocation is told on its way: by the leases, the kernel and the clock, and what others
do to the store while the kernel works. -/
structure Answers where
  authorized : Except String (String × InstanceRef)
  now : Option InstanceRef
  value : Json
  ok : Bool
  live : Bool
  meanwhile : Db → Db

/-- The store under an invocation that gets these answers; SQLite itself works. -/
def told (text : JsonText) (w : Answers) : Machine Db EAct Unit Unit Empty where
  sem
    | .authorize _ _ _ _, db => some (w.authorized, db)
    | .admitOperation principal id request, db =>
      some (StoreLedger.admitOperation text principal id request db)
    | .instanceRefOf _, db => some (w.now, db)
    | .callKernel _ _ _ _, db => some (0, db)
    | .awaitReturn _, db => some ((w.value, w.ok), w.meanwhile db)
    | .leaseLive _ _ _ _, db => some (w.live, db)
    | .finish principal id result unknown, db =>
      some (StoreLedger.finish text principal id result unknown db)
    | _, _ => none
  env event := nomatch event
  code _ := .pure ()

section Invoke

variable {text : JsonText} {w : Answers} {principal token operation cap logical : String}
  {fence : Nat} {input : Json} {owner : InstanceRef} {db : Db}

/-- A step of the executor, with SQLite working, leaves the store as the step above does. -/
theorem told_executor {β : Type} {a : EAct β} {s s' : ExecState} {reply : β}
    (works : s.disk = none) (sem : a.sem text s = some (reply, s'))
    (invoked : (told text w).sem a s.db ≠ none) (undisturbed : w.meanwhile = id) :
    ∃ answer, (told text w).sem a s.db = some (answer, s'.db) := by
  cases a with
  | authorize | instanceRefOf | leaseLive | callKernel =>
    cases sem
    exact ⟨_, rfl⟩
  | admitOperation | finish =>
    simp only [EAct.sem, ExecState.stored, works, Option.some.injEq, Prod.mk.injEq] at sem
    obtain ⟨-, rfl⟩ := sem
    exact ⟨_, rfl⟩
  | awaitReturn worker =>
    simp only [EAct.sem] at sem
    split at sem
    · split at sem <;> cases sem
      exact ⟨(w.value, w.ok), by simp only [told, undisturbed, id]⟩
    · cases sem
  | _ => exact absurd rfl invoked

/-- No row of the operation is left admitted. -/
def Settled (principal operation : String) (db : Db) : Prop :=
  ∀ row, db.operations.get (principal, operation) = some row → row.state ≠ .admitted

def invokeRequest (logical cap : String) (input : Json) : Json :=
  .obj [("cap", .str cap), ("input", input), ("logical", .str logical)]

def invokeResult (w : Answers) : Json :=
  if !w.live then durable false (coded "outcome-unknown") else durable w.ok w.value

/-- A finish settles the row when the result fits. -/
theorem finish_settles_iff (result : Json) (unknown : Bool) :
    Settled principal operation (finish text principal operation result unknown db).2 ↔
      Settled principal operation db ∨ (text.encode result).utf8ByteSize ≤ maxBody := by
  by_cases small : maxBody < (text.encode result).utf8ByteSize
  · have same : (finish text principal operation result unknown db).2 = db := by
      unfold finish
      rw [if_pos small]
    rw [same]
    exact (or_iff_left (Nat.not_le.mpr small)).symm
  · refine iff_of_true (fun row there => ?_) (.inr (Nat.le_of_not_lt small))
    rw [finish_eq small] at there
    simp only [finished, KeyedTable.Table.modify_get, Option.map_eq_some_iff] at there
    obtain ⟨old, -, rfl⟩ := there
    split
    · cases unknown <;> simp
    next kept => simpa using kept

/-- The rest of an invocation after a new admission. -/
theorem invoke_told {db₁ : Db} (authorized : w.authorized = .ok (logical, owner))
    (entered : admitOperation text principal operation (invokeRequest logical cap input) db =
      (.ok .new, db₁)) :
    alone (told text w) (serviceInvoke principal token fence operation cap input) db =
      if w.now ≠ some owner then some (.error "stale-generation", db₁)
      else
        let recorded := finish text principal operation (invokeResult w)
          (!w.live || serviceUnknown (codeOf w.value)) (w.meanwhile db₁)
        some (recorded.1.map fun _ => invokeResult w, recorded.2) := by
  unfold invokeRequest at entered
  simp only [serviceInvoke, Prog.bind_eq, Prog.pure_eq, alone_bind, alone_perform, told, authorized,
    entered, Option.bind_some]
  split
  · rfl
  · simp only [alone_bind, alone_perform, Option.bind_some]
    generalize finished : finish text principal operation _ _ _ = recorded
    rw [show finish text principal operation (invokeResult w) _ _ = recorded from finished]
    obtain ⟨verdict, db₂⟩ := recorded
    cases verdict <;> rfl

/-- After a new admission the row is settled exactly when the instance is still current at the
check and the result fits, or somebody else settled it while the kernel worked. -/
theorem invoke_settles_iff (authorized : w.authorized = .ok (logical, owner))
    (admitted : (admitOperation text principal operation (invokeRequest logical cap input) db).1 =
      .ok .new) :
    ∃ result db', alone (told text w) (serviceInvoke principal token fence operation cap input) db =
        some (result, db') ∧
      (Settled principal operation db' ↔ w.now = some owner ∧
        (Settled principal operation (w.meanwhile
            (admitOperation text principal operation (invokeRequest logical cap input) db).2) ∨
          (text.encode (invokeResult w)).utf8ByteSize ≤ maxBody)) := by
  have entered := Prod.eta (admitOperation text principal operation
    (invokeRequest logical cap input) db)
  rw [admitted] at entered
  rw [invoke_told authorized entered.symm]
  by_cases current : w.now = some owner
  · rw [if_neg (not_not_intro current)]
    refine ⟨_, _, rfl, ?_⟩
    rw [finish_settles_iff, and_iff_right current]
  · rw [if_pos current]
    refine ⟨_, _, rfl, iff_of_false (fun settled => ?_) fun h => current h.1⟩
    obtain ⟨old, there, replays, -⟩ | ⟨-, -, -, operations, inserted, same⟩ := admit_ok admitted
    · simp only [replay] at replays
      split at replays
      · cases replays
      split at replays
      · split at replays
        · cases decoded : text.decode _ <;> rw [decoded] at replays <;> cases replays
        · cases replays
      · cases replays
    · have there := (KeyedTable.Table.insert_get inserted (principal, operation)).trans (if_pos rfl)
      rw [same] at settled
      exact settled _ there rfl

end Invoke

/-- The kernel answers a call of the current instance in time. -/
def answered : Answers := ⟨.ok ("echo", provider), some provider, .obj [], true, true, id⟩

theorem answered_row_settled : ∃ result db', alone (told CompactJson.compact answered)
    (serviceInvoke "peer" "lease" 1 "op-1" "echo.say" .null) .fresh = some (result, db') ∧
      Settled "peer" "op-1" db' := by
  obtain ⟨result, db', runs, settled⟩ := @invoke_settles_iff CompactJson.compact answered "peer"
    "lease" "op-1" "echo.say" "echo" 1 .null provider .fresh rfl rfl
  exact ⟨result, db', runs, settled.mpr ⟨rfl, .inr (by decide +kernel)⟩⟩

/-- The instance has been superseded. -/
def superseded : Authority :=
    { granted with current := [("echo", { provider with instanceId := 2 })] }

/-- The instance is superseded between the authorization and the check: the row stays admitted. -/
theorem superseded_row_left : ∃ c : Config demo,
    Run (fun _ _ => True) (.boot (booted .fresh [] [])) c ∧ c.Quiescent ∧
      (c.mem.db.operations.get ("peer", "op-1")).map OpRow.state = some .admitted :=
  Config.plays_freely 60 1
    [.start 0 (.invoke "peer" "lease" 1 "op-1" "echo.say" .null), .steps 0 2,
      .env (.authority superseded), .finish 0] (by decide +kernel)

end MatrixRuntime.OperationRows
