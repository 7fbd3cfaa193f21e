import MatrixRuntime.StoreRuns

/-! The operation ledger over whole runs: what becomes of a row, and what the ledger
answers under an id it knows. -/

namespace MatrixRuntime.LedgerRuns

open JsonValue KeyedTable StoreLedger StoreCalls StoreRuns

variable {text : JsonText} {db₀ db : Db} {log : List Entry} {e : Entry} {key : OpKey}
  {row : OpRow} {principal id request : String} {value : Json}

/-- The checks of `admit` that come before it looks at the ledger. -/
def admissible (text : JsonText) (principal id : String) (request : Json) : Bool :=
  !(id.isEmpty || 128 < id.utf8ByteSize || 256 < principal.utf8ByteSize) &&
    !(maxBody < (text.encode request).utf8ByteSize)

/-- The checks of `commit_effect` that come before it looks at the ledger. -/
def committable (text : JsonText) (id resource : String) (epoch : Nat) (key : String)
    (value : Json) (db : Db) : Bool :=
  !(id.isEmpty || 128 < id.utf8ByteSize || 256 < key.utf8ByteSize ||
    maxBody < (effectRequest text resource key value).utf8ByteSize) &&
    !(i64Max < epoch) && decide (db.fences.get resource = some epoch)

/-- The request a call makes under an operation's id. -/
def asks (text : JsonText) : Call → Option (OpKey × String)
  | .admitOperation principal id request => some ((principal, id), text.encode request)
  | .commitEffect principal id resource _ key value =>
    some ((principal, id), effectRequest text resource key value)
  | _ => none

/-- The checks a request passes before its id is looked up. -/
def checked (text : JsonText) (db : Db) : Call → Bool
  | .admitOperation principal id request => admissible text principal id request
  | .commitEffect _ id resource epoch key value => committable text id resource epoch key value db
  | _ => true

structure LedgerKept (text : JsonText) (log : List Entry) (db : Db) : Prop where
  requests : ∀ e ∈ log, ∀ key request, e.entered text = some (key, request) →
    ∃ row, db.operations.get key = some row ∧ row.request = request
  moves : ∀ e ∈ log, ∀ key row, e.before.operations.get key = some row →
    ∃ row', e.after.operations.get key = some row' ∧ row'.request = row.request ∧
      (row' = row ∨ row.state = .admitted ∧ (row'.state = .completed ∨ row'.state = .unknown))
  granted : ∀ key, (log.countP fun e => decide (e.granted text = some key)) ≤ 1
  finished : ∀ key, (log.countP fun e => decide ((e.completed text).map Prod.fst = some key)) ≤ 1
  recorded : ∀ later e past, log = later ++ e :: past → ∀ principal id request value,
    e.call = .admitOperation principal id request →
    e.answer text = some (.ok (.admission (.completed value))) →
    ∃ f ∈ past, ∃ result, f.completed text = some ((principal, id), result) ∧
      text.decode (text.encode result) = .ok value
  conflicts : ∀ e ∈ log, ∀ key request row, asks text e.call = some (key, request) →
    e.before.operations.get key = some row → row.request ≠ request →
    e.after = e.before ∧ (∀ answer, e.answer text = some answer →
      ∃ message, answer = .error message) ∧
      (e.ending = .returned → checked text e.before e.call = true →
        e.answer text = some (.error "operation-id-conflict"))
  bounded : db.operations.size ≤ maxOps ∧ ∀ e ∈ log, e.before.operations.size ≤ maxOps

theorem runs_requests (run : Runs text db₀ log db) : ∀ e ∈ log, ∀ key request,
    e.entered text = some (key, request) →
    ∃ row, db.operations.get key = some row ∧ row.request = request := by
  induction log generalizing db with
  | nil => exact fun e he => absurd he List.not_mem_nil
  | cons last log ih =>
    obtain ⟨past, rfl, change⟩ := run.cons
    intro e he key request hent
    rcases List.mem_cons.mp he with rfl | he
    · exact (entered_fresh change hent).2
    · obtain ⟨row, hrow, hreq⟩ := ih past e he key request hent
      obtain ⟨row', hrow', moved⟩ := change_kept change key row hrow
      exact ⟨row', hrow', moved.1.trans hreq⟩

theorem granted_entered (h : e.granted text = some key) :
    (e.entered text).map Prod.fst = some key := by
  unfold Entry.granted at h
  unfold Entry.entered
  split at h
  next hcall heff =>
    rw [hcall, heff]
    exact h
  next => cases h

/-- A completion leaves its row completed with the value's text, and found it open. -/
theorem completed_row {result : Json}
    (change : Change text e.before e.call (e.effected text) e.after)
    (h : e.completed text = some (key, result)) :
    (∀ row, e.before.operations.get key = some row → row.state = .admitted) ∧
      ∃ row, e.after.operations.get key = some row ∧ row.state = .completed ∧
        row.result = some (text.encode result) := by
  obtain ⟨before, call, ending, after⟩ := e
  unfold Entry.completed at h
  generalize Entry.effected text ⟨before, call, ending, after⟩ = reply at change h
  dsimp only at change h ⊢
  cases change with
  | @finished principal id result' unknown row there pending =>
    cases unknown with
    | true => cases h
    | false =>
      cases h
      refine ⟨fun row' hrow' => ?_, ⟨row.request, .completed, some (text.encode result)⟩, ?_, rfl,
        rfl⟩
      · rw [there] at hrow'
        cases hrow'
        exact pending
      · rw [Table.modify_get, there]
        simp [pending]
  | committed current fresh room entered =>
    cases h
    refine ⟨fun row hrow => ?_, _, (Table.insert_get entered _).trans (if_pos rfl), rfl, rfl⟩
    rw [fresh] at hrow
    cases hrow
  | refused call =>
    cases call with
    | finish principal id result unknown => cases unknown <;> cases h
    | _ => cases h
  | _ => cases h

/-- A row that is completed after an entry which did not complete it was there before. -/
theorem completed_before {row' : OpRow}
    (change : Change text e.before e.call (e.effected text) e.after)
    (other : (e.completed text).map Prod.fst ≠ some key)
    (hrow' : e.after.operations.get key = some row') (hstate : row'.state = .completed) :
    e.before.operations.get key = some row' := by
  obtain ⟨before, call, ending, after⟩ := e
  unfold Entry.completed at other
  generalize Entry.effected text ⟨before, call, ending, after⟩ = reply at change other
  dsimp only at change other hrow' ⊢
  cases change with
  | reopened =>
    rw [Table.modify_get] at hrow'
    obtain ⟨row, hrow, rfl⟩ := Option.map_eq_some_iff.mp hrow'
    by_cases hs : row.state = .admitted
    · simp [hs] at hstate
    · simpa [hs] using hrow
  | @admitted principal id request operations fresh room entered =>
    rw [Table.insert_get entered] at hrow'
    by_cases hk : key = (principal, id)
    · rw [if_pos hk] at hrow'
      cases hrow'
      cases hstate
    · rwa [if_neg hk] at hrow'
  | @finished principal id result unknown row there pending =>
    rw [Table.modify_get] at hrow'
    obtain ⟨old, hold, rfl⟩ := Option.map_eq_some_iff.mp hrow'
    by_cases hk : key = (principal, id)
    · subst hk
      rw [there] at hold
      cases hold
      cases unknown with
      | true => simp [pending] at hstate
      | false => exact absurd rfl other
    · simpa [hk] using hold
  | @committed principal id resource key' epoch value operations current fresh room entered =>
    rw [Table.insert_get entered] at hrow'
    by_cases hk : key = (principal, id)
    · exact absurd (congrArg some hk.symm) other
    · rwa [if_neg hk] at hrow'
  | _ => exact hrow'

/-- A completed row was completed by some entry, which recorded its result. -/
theorem runs_results (run : Runs text .fresh log db) : ∀ key row,
    db.operations.get key = some row → row.state = .completed →
    ∃ f ∈ log, ∃ result, f.completed text = some (key, result) ∧
      row.result = some (text.encode result) := by
  induction log generalizing db with
  | nil =>
    cases run
    intro key row hrow
    cases hrow
  | cons e log ih =>
    obtain ⟨past, rfl, change⟩ := run.cons
    intro key row' hrow' hstate
    by_cases hcomp : (e.completed text).map Prod.fst = some key
    · obtain ⟨⟨key', result⟩, hsome, rfl⟩ := Option.map_eq_some_iff.mp hcomp
      obtain ⟨-, row, hrow, -, hresult⟩ := completed_row change hsome
      rw [hrow] at hrow'
      cases hrow'
      exact ⟨e, List.mem_cons_self .., result, hsome, hresult⟩
    · have before := completed_before change hcomp hrow' hstate
      obtain ⟨f, hf, found⟩ := ih past key row' before hstate
      exact ⟨f, List.mem_cons_of_mem _ hf, found⟩

/-- How often a run completed an operation. -/
def completions (text : JsonText) (key : OpKey) (log : List Entry) : Nat :=
  log.countP fun e => decide ((e.completed text).map Prod.fst = some key)

/-- An operation is completed at most once, and stays completed. -/
theorem runs_completed_once (run : Runs text db₀ log db) (key : OpKey) :
    completions text key log ≤ 1 ∧
      (completions text key log = 1 →
        ∃ row, db.operations.get key = some row ∧ row.state = .completed) := by
  induction log generalizing db with
  | nil => exact ⟨Nat.zero_le 1, fun h => absurd h (by simp [completions])⟩
  | cons e log ih =>
    obtain ⟨past, rfl, change⟩ := run.cons
    obtain ⟨le_one, stays⟩ := ih past
    simp only [completions, List.countP_cons] at le_one stays ⊢
    by_cases hcomp : (e.completed text).map Prod.fst = some key
    · obtain ⟨⟨key', result⟩, hsome, rfl⟩ := Option.map_eq_some_iff.mp hcomp
      obtain ⟨pending, row, hrow, hstate, -⟩ := completed_row change hsome
      have zero : completions text key' log = 0 := by
        by_contra hne
        have one : completions text key' log = 1 := by
          unfold completions at hne ⊢
          dsimp only at le_one
          omega
        obtain ⟨old, hold, hdone⟩ := stays one
        rw [pending old hold] at hdone
        cases hdone
      unfold completions at zero
      exact ⟨by rw [zero, hcomp]; simp, fun _ => ⟨row, hrow, hstate⟩⟩
    · have off : decide ((e.completed text).map Prod.fst = some key) = false :=
        decide_eq_false hcomp
      rw [off]
      refine ⟨by simpa using le_one, fun one => ?_⟩
      obtain ⟨row, hrow, hdone⟩ := stays (by simpa using one)
      obtain ⟨row', hrow', -, same | ⟨pending, -⟩⟩ := change_kept change key row hrow
      · exact ⟨row', hrow', by rw [same]; exact hdone⟩
      · rw [pending] at hdone
        cases hdone

theorem admit_conflict {request : Json} (there : db.operations.get (principal, id) = some row)
    (differs : row.request ≠ text.encode request) :
    ∃ message, (admitOperation text principal id request db).1 = .error message ∧
      (admissible text principal id request = true → message = "operation-id-conflict") := by
  unfold admitOperation admissible
  split
  next bad => exact ⟨_, rfl, fun h => by simp [bad] at h⟩
  next named =>
    split
    next large => exact ⟨_, rfl, fun h => by simp [large] at h⟩
    next small =>
      refine ⟨"operation-id-conflict", ?_, fun _ => rfl⟩
      simp [immediate, there, replay, differs, Except.map]

theorem commitEffect_conflict {resource key : String} (epoch : Nat) {value : Json} {row : OpRow}
    (there : db.operations.get (principal, id) = some row)
    (differs : row.request ≠ effectRequest text resource key value) :
    ∃ message, (commitEffectOutcome text principal id resource epoch key value db).1 =
        .error message ∧
      (committable text id resource epoch key value db = true →
        message = "operation-id-conflict") := by
  unfold commitEffectOutcome committable
  split
  next bad => exact ⟨_, rfl, fun h => by simp [bad] at h⟩
  next sized =>
    by_cases fits : i64Max < epoch
    · refine ⟨"out of range integral type conversion attempted", ?_, fun h => by simp [fits] at h⟩
      simp [immediate, commitEffectTx, fits]
    · by_cases current : db.fences.get resource = some epoch
      · refine ⟨"operation-id-conflict", ?_, fun _ => rfl⟩
        simp [immediate, commitEffectTx, fits, current, there, differs]
      · refine ⟨"stale-generation", ?_, fun h => by simp [current] at h⟩
        simp [immediate, commitEffectTx, fits, current]

theorem exec_conflict {call : Call} (asked : asks text call = some (key, request))
    (there : db.operations.get key = some row) (differs : row.request ≠ request) :
    ∃ message, (exec text call db).1 = .error message ∧
      (checked text db call = true → message = "operation-id-conflict") := by
  cases call with
  | admitOperation principal id request =>
    cases asked
    obtain ⟨message, refused, conflict⟩ := admit_conflict there differs
    exact ⟨message, by simp [exec, answered, refused, Except.map], conflict⟩
  | commitEffect principal id resource epoch key value =>
    cases asked
    obtain ⟨message, refused, conflict⟩ := commitEffect_conflict epoch there differs
    exact ⟨message, by simp [exec, answered, refused, Except.map], conflict⟩
  | _ => cases asked

/-- The run up to an entry. -/
theorem runs_split {later past : List Entry} (run : Runs text db₀ (later ++ e :: past) db) :
    Runs text db₀ past e.before := by
  induction later generalizing db with
  | nil => exact run.cons.1
  | cons last later ih => exact ih run.cons.1

theorem runs_bounded (run : Runs text .fresh log db) : db.operations.size ≤ maxOps :=
  run.preserves (P := fun db => db.operations.size ≤ maxOps)
    (fun _ _ _ _ change fits => change_size change fits) (Nat.zero_le _)

/-- What `admit` reports as completed is what the row holds. -/
theorem replay_completed {old : OpRow} (h : replay text old request = .ok (.completed value)) :
    old.state = .completed ∧ ∃ result, old.result = some result ∧
      text.decode result = .ok value := by
  unfold replay at h
  split at h
  · cases h
  split at h
  next hstate =>
    refine ⟨hstate, ?_⟩
    split at h
    next result hresult =>
      refine ⟨result, hresult, ?_⟩
      cases hd : text.decode result with
      | error e =>
        rw [hd] at h
        cases h
      | ok v =>
        rw [hd] at h
        cases h
        rfl
    next => cases h
  next => cases h

theorem answer_ok {reply : Reply} (h : e.answer text = some (.ok reply)) :
    e.effected text = some reply := by
  obtain ⟨before, call, ending, after⟩ := e
  cases ending with
  | returned =>
    have told : (exec text call before).1 = .ok reply := Option.some.inj h
    exact congrArg Except.toOption told
  | refused message => cases h
  | lost => cases h

theorem runs_recorded {later past : List Entry} {request : Json}
    (run : Runs text .fresh (later ++ e :: past) db)
    (asked : e.call = .admitOperation principal id request)
    (told : e.answer text = some (.ok (.admission (.completed value)))) :
    ∃ f ∈ past, ∃ result, f.completed text = some ((principal, id), result) ∧
      text.decode (text.encode result) = .ok value := by
  have change := run.change e (List.mem_append_right _ (List.mem_cons_self ..))
  have past_run := runs_split run
  rw [answer_ok told] at change
  obtain ⟨before, call, ending, after⟩ := e
  dsimp only at asked change past_run
  subst asked
  cases change with
  | replayed there replied =>
    obtain ⟨hstate, result, hresult, decoded⟩ := replay_completed replied
    obtain ⟨f, hf, recorded, hcomp, htext⟩ := runs_results past_run _ _ there hstate
    rw [hresult] at htext
    cases htext
    exact ⟨f, hf, recorded, hcomp, decoded⟩

theorem runs_conflicts (run : Runs text db₀ log db) (he : e ∈ log)
    (asked : asks text e.call = some (key, request))
    (there : e.before.operations.get key = some row) (differs : row.request ≠ request) :
    e.after = e.before ∧
      (∀ answer, e.answer text = some answer → ∃ message, answer = .error message) ∧
      (e.ending = .returned → checked text e.before e.call = true →
        e.answer text = some (.error "operation-id-conflict")) := by
  obtain ⟨message, refused, conflict⟩ := exec_conflict asked there differs
  have change := run.change e he
  obtain ⟨before, call, ending, after⟩ := e
  have unmoved : Entry.effected text ⟨before, call, ending, after⟩ = none := by
    cases ending with
    | refused message => rfl
    | _ => exact congrArg Except.toOption refused
  rw [unmoved] at change
  refine ⟨change_refused change, fun answer h => ?_, fun returned passed => ?_⟩
  · cases ending with
    | returned => exact ⟨message, (Option.some.inj h).symm.trans refused⟩
    | refused message => exact ⟨message, (Option.some.inj h).symm⟩
    | lost => cases h
  · subst returned
    rw [← conflict passed]
    exact congrArg some refused

/-- In every run of the ledger from an empty file, with the file opened again any number of
times: a row keeps its request and moves only from admitted to completed or unknown; an
operation is granted as new at most once and finished at most once; a completed answer is
the value recorded when the operation finished; another request under the same id is
refused and changes nothing, as a conflict when it passes the checks that come first; and
the ledger never holds more than `maxOps` rows. -/
theorem ledger_kept (run : Runs text .fresh log db) : LedgerKept text log db where
  requests := runs_requests run
  moves e he key row hrow := by
    obtain ⟨row', hrow', request, same | ⟨pending, moved⟩⟩ :=
      change_kept (run.change e he) key row hrow
    · exact ⟨row', hrow', request, .inl same⟩
    · refine ⟨row', hrow', request, .inr ⟨pending, ?_⟩⟩
      cases hs : row'.state with
      | admitted => exact absurd hs moved
      | completed => exact .inl rfl
      | unknown => exact .inr rfl
  granted key := by
    refine Nat.le_trans (List.countP_mono_left fun e _ h => ?_) (run.entered_once key).1
    exact decide_eq_true (granted_entered (of_decide_eq_true h))
  finished key := (runs_completed_once run key).1
  recorded later e past split principal id request value asked told := by
    subst split
    exact runs_recorded run asked told
  conflicts e he key request row asked there differs := runs_conflicts run he asked there differs
  bounded := by
    refine ⟨runs_bounded run, fun e he => ?_⟩
    obtain ⟨later, past, rfl⟩ := List.append_of_mem he
    exact runs_bounded (runs_split run)

/-- An admission, its finish, the file opened again, and the same admission once more. -/
theorem ledger_kept_after_replay :
    let calls : List Call := [.admitOperation "ops" "a" (.num 1), .reopen,
      .finish "ops" "a" (.str "done") false, .admitOperation "ops" "a" (.num 1)]
    let run := played CompactJson.compact .fresh calls
    (run.2.operations.get ("ops", "a")).map OpRow.result = some (some "\"done\"") ∧
      LedgerKept CompactJson.compact run.1 run.2 :=
  ⟨by decide +kernel, ledger_kept (played_runs CompactJson.compact .fresh
    [.admitOperation "ops" "a" (.num 1), .reopen, .finish "ops" "a" (.str "done") false,
      .admitOperation "ops" "a" (.num 1)])⟩

/-- What a call answers in error. -/
def complaint (answer : Option (Except String Reply)) : Option String :=
  match answer with
  | some (.error message) => some message
  | _ => none

/-- Another request under an id that is taken is not always told of the conflict: an effect
whose fence is stale, and an admission whose principal is too long, are refused first. -/
theorem other_refusals_come_first :
    (∃ log db e, Runs CompactJson.compact .fresh log db ∧ e ∈ log ∧
      ∃ key request row, asks CompactJson.compact e.call = some (key, request) ∧
        e.before.operations.get key = some row ∧ row.request ≠ request ∧
        e.answer CompactJson.compact ≠ some (.error "operation-id-conflict") ∧
        e.call = .commitEffect "ops" "a" "disk" 1 "size" (.num 7)) ∧
    ∃ log db e, Runs CompactJson.compact .fresh log db ∧ e ∈ log ∧
      ∃ key request row, asks CompactJson.compact e.call = some (key, request) ∧
        e.before.operations.get key = some row ∧ row.request ≠ request ∧
        e.answer CompactJson.compact ≠ some (.error "operation-id-conflict") ∧
        e.call = .admitOperation (String.ofList (List.replicate 257 'p')) "a" (.num 1) := by
  have told {answer : Option (Except String Reply)} (message : String)
      (h : complaint answer = some message) (hne : message ≠ "operation-id-conflict") :
      answer ≠ some (.error "operation-id-conflict") := by
    intro he
    rw [he] at h
    exact hne (Option.some.inj h).symm
  constructor
  · refine ⟨_, _, _, played_runs CompactJson.compact .fresh
      [.commitEffect "ops" "a" "disk" 1 "size" (.num 7), .admitOperation "ops" "a" (.num 1)],
      List.mem_cons_self .., ("ops", "a"), _, ⟨"1", .admitted, none⟩, rfl, ?_, ?_, ?_, rfl⟩
    · decide +kernel
    · decide +kernel
    · exact told "stale-generation" (by decide +kernel) (by decide)
  · refine ⟨_, _, _, played_runs CompactJson.compact .fresh
      [.admitOperation (String.ofList (List.replicate 257 'p')) "a" (.num 1),
        .commitEffect (String.ofList (List.replicate 257 'p')) "a" "disk" 1 "size" (.num 7),
        .nextFence "disk"], List.mem_cons_self .., (String.ofList (List.replicate 257 'p'), "a"), _,
      ⟨effectRequest CompactJson.compact "disk" "size" (.num 7), .completed,
        some (CompactJson.compact.encode (effectResult 1))⟩, rfl, ?_, ?_, ?_, rfl⟩
    · decide +kernel
    · decide +kernel
    · exact told "invalid operation identity" (by decide +kernel) (by decide)

end MatrixRuntime.LedgerRuns
