import MatrixRuntime.CompactJson
import MatrixRuntime.StoreCalls

/-! Runs of the store. Every call is one step; SQLite may refuse a call, which changes
nothing, and the process may die after a call has committed and before it answers. The
file is opened again any number of times. -/

namespace MatrixRuntime.StoreRuns

open JsonValue KeyedTable StoreLedger StoreCalls

/-- How a call ended: it returned, SQLite refused a statement, or its answer was lost. -/
inductive Ending where
  | returned
  | refused (message : String)
  | lost

structure Entry where
  before : Db
  call : Call
  ending : Ending
  after : Db

/-- What the caller is told. -/
def Entry.answer (text : JsonText) (e : Entry) : Option (Except String Reply) :=
  match e.ending with
  | .returned => some (exec text e.call e.before).1
  | .refused message => some (.error message)
  | .lost => none

/-- What the database did, whether or not the caller heard of it. -/
def Entry.effected (text : JsonText) (e : Entry) : Option Reply :=
  match e.ending with
  | .refused _ => none
  | _ => (exec text e.call e.before).1.toOption

/-- Entries of a run, the latest first. -/
inductive Runs (text : JsonText) (db₀ : Db) : List Entry → Db → Prop
  | boot : Runs text db₀ [] db₀
  | step {log : List Entry} {db : Db} (past : Runs text db₀ log db) (call : Call)
      (ending : Ending) (finished : ∀ message, ending ≠ .refused message) :
      Runs text db₀ (⟨db, call, ending, (exec text call db).2⟩ :: log) (exec text call db).2
  | refused {log : List Entry} {db : Db} (past : Runs text db₀ log db) (call : Call)
      (message : String) : Runs text db₀ (⟨db, call, .refused message, db⟩ :: log) db

/-- An effect on its way to its resource, with the fence it was sent under. -/
structure Effect where
  op : OpKey
  resource : String
  epoch : Nat
  key : String
  value : Json

/-- The effect an entry wrote. -/
def Entry.wrote (text : JsonText) (e : Entry) : Option Effect :=
  match e.call, e.effected text with
  | .commitEffect principal id resource epoch key value, some (.committed (.written _)) =>
    some ⟨(principal, id), resource, epoch, key, value⟩
  | _, _ => none

/-- The operation an entry was granted as new. -/
def Entry.granted (text : JsonText) (e : Entry) : Option OpKey :=
  match e.call, e.effected text with
  | .admitOperation principal id _, some (.admission .new) => some (principal, id)
  | _, _ => none

/-- The row an entry put in the ledger, with its request. -/
def Entry.entered (text : JsonText) (e : Entry) : Option (OpKey × String) :=
  match e.call, e.effected text with
  | .admitOperation principal id request, some (.admission .new) =>
    some ((principal, id), text.encode request)
  | .commitEffect principal id resource _ key value, some (.committed (.written _)) =>
    some ((principal, id), effectRequest text resource key value)
  | _, _ => none

/-- The operation an entry completed, with the value it recorded. -/
def Entry.completed (text : JsonText) (e : Entry) : Option (OpKey × Json) :=
  match e.call, e.effected text with
  | .finish principal id result false, some .done => some ((principal, id), result)
  | .commitEffect principal id _ epoch _ _, some (.committed (.written _)) =>
    some ((principal, id), effectResult epoch)
  | _, _ => none

section Changes

variable {text : JsonText} {db db' : Db} {call : Call} {reply : Option Reply}

/-- A row after a step: its request stays, and only an admitted row moves. -/
def Moved (row row' : OpRow) : Prop :=
  row'.request = row.request ∧ (row' = row ∨ row.state = .admitted ∧ row'.state ≠ .admitted)

theorem Moved.refl (row : OpRow) : Moved row row := ⟨rfl, .inl rfl⟩

/-- Every row stays, with its request. -/
def Kept (before after : Db) : Prop :=
  ∀ key row, before.operations.get key = some row →
    ∃ row', after.operations.get key = some row' ∧ Moved row row'

theorem kept_insert {operations : Table OpKey OpRow} {key : OpKey} {row : OpRow}
    (fresh : db.operations.get key = none) (hi : db.operations.insert key row = some operations)
    (h : db'.operations = operations) : Kept db db' := by
  intro key' row' hrow
  have other : key' ≠ key := by
    intro he
    rw [he, fresh] at hrow
    cases hrow
  refine ⟨row', ?_, .refl row'⟩
  rw [h, Table.insert_get hi, if_neg other]
  exact hrow

theorem change_kept (h : Change text db call reply db') : Kept db db' := by
  cases h with
  | reopened =>
    intro key row hrow
    rw [Table.modify_get, hrow]
    refine ⟨_, rfl, ?_⟩
    by_cases hs : row.state = .admitted
    · simp [Moved, hs]
    · simp [Moved, hs]
  | admitted fresh room entered => exact kept_insert fresh entered rfl
  | @finished principal id result unknown row' there pending =>
    intro key row hrow
    rw [Table.modify_get, hrow]
    refine ⟨_, rfl, ?_⟩
    by_cases hs : row.state = .admitted
    · by_cases hk : key = (principal, id)
      · cases unknown <;> simp [Moved, hs, hk]
      · simp [Moved, hk]
    · simp [Moved, hs]
  | committed current fresh room entered => exact kept_insert fresh entered rfl
  | _ => exact fun key row hrow => ⟨row, hrow, .refl row⟩

/-- Every fence stays or grows. -/
def Raised (before after : Db) : Prop :=
  ∀ resource n, before.fences.get resource = some n →
    ∃ m, n ≤ m ∧ after.fences.get resource = some m

theorem change_raised (h : Change text db call reply db') : Raised db db' := by
  intro resource n hn
  cases h with
  | @raised r epoch fences others own =>
    by_cases he : resource = r
    · subst he
      exact ⟨n + 1, Nat.le_succ n, own n hn⟩
    · exact ⟨n, Nat.le_refl n, (others resource he).trans hn⟩
  | @fenced r epoch fences others own =>
    by_cases he : resource = r
    · subst he
      exact ⟨epoch, (own n hn).1, (own n hn).2⟩
    · exact ⟨n, Nat.le_refl n, (others resource he).trans hn⟩
  | _ => exact ⟨n, Nat.le_refl n, hn⟩

theorem change_size (h : Change text db call reply db') (fits : db.operations.size ≤ maxOps) :
    db'.operations.size ≤ maxOps := by
  cases h with
  | reopened =>
    rw [Table.modify_size]
    exact fits
  | admitted fresh room entered =>
    have grown := Table.insert_size entered
    dsimp only
    omega
  | finished there pending =>
    rw [Table.modify_size]
    exact fits
  | committed current fresh room entered =>
    have grown := Table.insert_size entered
    dsimp only
    omega
  | _ => exact fits

end Changes

variable {e : Entry}

section Runs

variable {text : JsonText} {db₀ db : Db} {log : List Entry}

/-- The latest entry of a run, and the run before it. -/
theorem Runs.cons (run : Runs text db₀ (e :: log) db) : Runs text db₀ log e.before ∧ db = e.after ∧
      Change text e.before e.call (e.effected text) e.after := by
  cases run with
  | @step _ before past call ending finished =>
    refine ⟨past, rfl, ?_⟩
    have effected : Entry.effected text ⟨before, call, ending, (exec text call before).2⟩ =
        (exec text call before).1.toOption := by
      cases ending with
      | refused message => exact absurd rfl (finished message)
      | returned => rfl
      | lost => rfl
    rw [effected]
    exact exec_change call
  | refused past call message => exact ⟨past, rfl, .refused call⟩

theorem Runs.change (run : Runs text db₀ log db) :
    ∀ e ∈ log, Change text e.before e.call (e.effected text) e.after := by
  induction log generalizing db with
  | nil => exact fun e he => absurd he List.not_mem_nil
  | cons last log ih =>
    obtain ⟨past, -, change⟩ := run.cons
    intro e he
    rcases List.mem_cons.mp he with rfl | he
    · exact change
    · exact ih past e he

/-- What every change keeps, a run keeps. -/
theorem Runs.preserves {P : Db → Prop} (run : Runs text db₀ log db)
    (step : ∀ db call reply db', Change text db call reply db' → P db → P db') (h : P db₀) :
    P db := by
  induction log generalizing db with
  | nil =>
    cases run
    exact h
  | cons last log ih =>
    obtain ⟨past, rfl, change⟩ := run.cons
    exact step _ _ _ _ change (ih past)

theorem Runs.raised (run : Runs text db₀ log db) : Raised db₀ db := by
  refine run.preserves (P := fun db => Raised db₀ db) (fun db call reply db' change h => ?_)
    fun resource n hn => ⟨n, Nat.le_refl n, hn⟩
  intro resource n hn
  obtain ⟨m, hle, hm⟩ := h resource n hn
  obtain ⟨k, hle', hk⟩ := change_raised change resource m hm
  exact ⟨k, Nat.le_trans hle hle', hk⟩

/-- An entry for an operation that was not there. -/
theorem entered_fresh {key : OpKey} {request : String}
    (change : Change text e.before e.call (e.effected text) e.after)
    (h : e.entered text = some (key, request)) : e.before.operations.get key = none ∧
      ∃ row, e.after.operations.get key = some row ∧ row.request = request := by
  obtain ⟨before, call, ending, after⟩ := e
  unfold Entry.entered at h
  generalize Entry.effected text ⟨before, call, ending, after⟩ = reply at change h
  dsimp only at change h ⊢
  cases change with
  | admitted fresh room entered =>
    cases h
    exact ⟨fresh, _, (Table.insert_get entered _).trans (if_pos rfl), rfl⟩
  | committed current fresh room entered =>
    cases h
    exact ⟨fresh, _, (Table.insert_get entered _).trans (if_pos rfl), rfl⟩
  | refused call => cases call <;> cases h
  | @replayed principal id request' old answer there told =>
    cases answer with
    | new => exact absurd told replay_ne_new
    | completed v => cases h
    | unknown => cases h
  | _ => cases h

/-- How often a run entered an operation. -/
def entries (text : JsonText) (key : OpKey) (log : List Entry) : Nat :=
  log.countP fun e => decide ((e.entered text).map Prod.fst = some key)

theorem Runs.entered_once (run : Runs text db₀ log db) (key : OpKey) :
    entries text key log ≤ 1 ∧ (db.operations.get key = none → entries text key log = 0) := by
  induction log generalizing db with
  | nil => exact ⟨Nat.zero_le 1, fun _ => rfl⟩
  | cons e log ih =>
    obtain ⟨past, rfl, change⟩ := run.cons
    obtain ⟨le_one, none_before⟩ := ih past
    have gone : e.after.operations.get key = none → e.before.operations.get key = none := by
      intro hnone
      cases hb : e.before.operations.get key with
      | none => rfl
      | some row =>
        obtain ⟨row', hrow', -⟩ := change_kept change key row hb
        rw [hnone] at hrow'
        cases hrow'
    simp only [entries, List.countP_cons] at le_one none_before ⊢
    by_cases hent : (e.entered text).map Prod.fst = some key
    · obtain ⟨⟨key', request⟩, hsome, rfl⟩ := Option.map_eq_some_iff.mp hent
      obtain ⟨fresh, row, hrow, -⟩ := entered_fresh change hsome
      have zero := none_before fresh
      refine ⟨by rw [zero, hent]; simp, fun hnone => ?_⟩
      rw [hnone] at hrow
      cases hrow
    · have off : decide ((e.entered text).map Prod.fst = some key) = false := decide_eq_false hent
      rw [off]
      exact ⟨by simpa using le_one, fun hnone => by simpa using none_before (gone hnone)⟩

theorem change_refused {call : Call} {db' : Db} (h : Change text db call none db') : db' = db := by
  cases h
  rfl

theorem answer_error {message : String} (h : e.answer text = some (.error message)) :
    e.effected text = none := by
  obtain ⟨before, call, ending, after⟩ := e
  cases ending with
  | returned =>
    have failed : (exec text call before).1 = .error message := Option.some.inj h
    exact congrArg Except.toOption failed
  | refused message => rfl
  | lost => cases h

theorem wrote_fenced {w : Effect}
    (change : Change text e.before e.call (e.effected text) e.after) (h : e.wrote text = some w) :
    e.before.fences.get w.resource = some w.epoch ∧ e.after.fences = e.before.fences ∧
      e.after.effects.get (w.resource, w.key) = some (text.encode w.value) := by
  obtain ⟨before, call, ending, after⟩ := e
  unfold Entry.wrote at h
  generalize Entry.effected text ⟨before, call, ending, after⟩ = reply at change h
  dsimp only at change h ⊢
  cases change with
  | @committed principal id resource key epoch value operations current fresh room entered =>
    cases h
    refine ⟨current, rfl, ?_⟩
    cases old : before.effects.get (resource, key) with
    | none => exact ((Table.upsert_fresh _ _ old).2 _).trans (if_pos rfl)
    | some prior => exact ((Table.upsert_there _ _ old).2 _).trans (if_pos rfl)
  | refused call => cases call <;> cases h
  | _ => cases h

theorem unwritten_effects
    (change : Change text e.before e.call (e.effected text) e.after) (h : e.wrote text = none) :
    e.after.effects = e.before.effects := by
  obtain ⟨before, call, ending, after⟩ := e
  unfold Entry.wrote at h
  generalize Entry.effected text ⟨before, call, ending, after⟩ = reply at change h
  dsimp only at change h ⊢
  cases change with
  | committed current fresh room entered => cases h
  | _ => rfl

theorem wrote_entered {op : OpKey} (h : (e.wrote text).map Effect.op = some op) :
    (e.entered text).map Prod.fst = some op := by
  unfold Entry.wrote at h
  unfold Entry.entered
  split at h
  next hcall heff =>
    rw [hcall, heff]
    exact h
  next => cases h

/-- In every run, with the file opened again any number of times: an effect is written only
under the current fence of its resource and at most once for an operation, nothing else
changes the effects, no fence goes down, and a call that answers with an error changes
nothing. -/
theorem effects_fenced (run : Runs text db₀ log db) :
    (∀ e ∈ log, ∀ w, e.wrote text = some w →
      e.before.fences.get w.resource = some w.epoch ∧
      e.after.fences.get w.resource = some w.epoch ∧
      e.after.effects.get (w.resource, w.key) = some (text.encode w.value)) ∧
    (∀ e ∈ log, e.wrote text = none → e.after.effects = e.before.effects) ∧
    (∀ op, (log.countP fun e => decide ((e.wrote text).map Effect.op = some op)) ≤ 1) ∧
    (∀ e ∈ log, Raised e.before e.after) ∧ Raised db₀ db ∧
    ∀ e ∈ log, ∀ message, e.answer text = some (.error message) → e.after = e.before := by
  refine ⟨fun e he w hw => ?_, fun e he hw => unwritten_effects (run.change e he) hw, fun op => ?_,
    fun e he => change_raised (run.change e he), run.raised, fun e he message h => ?_⟩
  · obtain ⟨current, same, written⟩ := wrote_fenced (run.change e he) hw
    exact ⟨current, by rw [same]; exact current, written⟩
  · refine Nat.le_trans (List.countP_mono_left fun e _ hw => ?_) (run.entered_once op).1
    exact decide_eq_true (wrote_entered (of_decide_eq_true hw))
  · have change := run.change e he
    rw [answer_error h] at change
    exact change_refused change

/-- The run that makes some calls one after the other. -/
def played (text : JsonText) (db₀ : Db) : List Call → List Entry × Db
  | [] => ([], db₀)
  | call :: past =>
    let (log, db) := played text db₀ past
    (⟨db, call, .returned, (exec text call db).2⟩ :: log, (exec text call db).2)

theorem played_runs (text : JsonText) (db₀ : Db) (calls : List Call) :
    Runs text db₀ (played text db₀ calls).1 (played text db₀ calls).2 := by
  induction calls with
  | nil => exact .boot
  | cons call past ih => exact .step ih call .returned (by simp)

theorem effects_fenced_after_commit :
    let calls : List Call := [.commitEffect "ops" "a" "disk" 1 "size" (.num 7), .nextFence "disk"]
    let run := played CompactJson.compact .fresh calls
    run.2.effects.get ("disk", "size") = some "7" ∧ Raised .fresh run.2 ∧
      (run.1.countP fun e => decide ((e.wrote CompactJson.compact).map Effect.op =
        some ("ops", "a"))) ≤ 1 := by
  obtain ⟨-, -, once, -, raised, -⟩ := effects_fenced (played_runs CompactJson.compact .fresh
    [.commitEffect "ops" "a" "disk" 1 "size" (.num 7), .nextFence "disk"])
  exact ⟨by decide +kernel, raised, once ("ops", "a")⟩

end Runs

end MatrixRuntime.StoreRuns
