import MatrixRuntime.StoreLedger

/-! The store's calls as one function, and everything a call can do. -/

namespace MatrixRuntime.StoreCalls

open JsonValue KeyedTable StoreLedger

inductive Call where
  | reopen
  | admitOperation (principal id : String) (request : Json)
  | finish (principal id : String) (result : Json) (unknown : Bool)
  | nextFence (resource : String)
  | fence (resource : String) (epoch : Nat)
  | commitEffect (principal id resource : String) (epoch : Nat) (key : String) (value : Json)

inductive Reply where
  | opened (epoch : Nat)
  | admission (answer : Admission)
  | done
  | fenced (epoch : Nat)
  | committed (outcome : Commit)

def answered {α : Type} (reply : α → Reply) (stored : Stored α) : Stored Reply :=
  (stored.1.map reply, stored.2)

def exec (text : JsonText) : Call → Db → Stored Reply
  | .reopen, db => answered .opened (reopen db)
  | .admitOperation principal id request, db =>
    answered .admission (admitOperation text principal id request db)
  | .finish principal id result unknown, db =>
    answered (fun _ => .done) (finish text principal id result unknown db)
  | .nextFence resource, db => answered .fenced (nextFence resource db)
  | .fence resource epoch, db => answered (fun _ => .done) (fence resource epoch db)
  | .commitEffect principal id resource epoch key value, db =>
    answered .committed (commitEffectOutcome text principal id resource epoch key value db)

section Calls

variable {text : JsonText} {db db' : Db}

variable {e : String} {α : Type} {body : Db → Except String (α × Db)}

theorem immediate_error (h : (immediate body db).1 = .error e) : (immediate body db).2 = db := by
  unfold immediate at h ⊢
  split
  next hb =>
    rw [hb] at h
    cases h
  next => rfl

theorem immediate_ok {value : α} (h : (immediate body db).1 = .ok value) :
    body db = .ok (value, (immediate body db).2) := by
  unfold immediate at h ⊢
  split
  next v db' hb =>
    rw [hb] at h ⊢
    cases h
    rfl
  next e hb =>
    rw [hb] at h
    cases h

theorem reopen_ok {n : Nat} (h : (reopen db).1 = .ok n) :
    n = db.epoch + 1 ∧ (reopen db).2 = { db with
      epoch := db.epoch + 1
      operations := (db.operations.modify (fun _ row => decide (row.state = .admitted))
        fun row => { row with state := .unknown }).2 } := by
  have hb := immediate_ok h
  split at hb
  · have pair := Except.ok.inj hb
    exact ⟨(congrArg Prod.fst pair).symm, (congrArg Prod.snd pair).symm⟩
  · cases hb

variable {principal id : String} {request : Json}

/-- An admission that succeeds answers from the row that is there, or enters a new one. -/
theorem admit_ok {answer : Admission}
    (h : (admitOperation text principal id request db).1 = .ok answer) :
    (∃ old, db.operations.get (principal, id) = some old ∧
      replay text old (text.encode request) = .ok answer ∧
      (admitOperation text principal id request db).2 = db) ∨
    (db.operations.get (principal, id) = none ∧ db.operations.size < maxOps ∧ answer = .new ∧
      ∃ operations, db.operations.insert (principal, id) ⟨text.encode request, .admitted, none⟩ =
          some operations ∧
        (admitOperation text principal id request db).2 = { db with operations }) := by
  unfold admitOperation at h ⊢
  split at h
  · cases h
  rename_i named
  split at h
  · cases h
  rename_i small
  rw [if_neg named, if_neg small]
  have hb := immediate_ok h
  split at hb
  next old hold =>
    cases hr : replay text old (text.encode request) with
    | error e =>
      rw [hr] at hb
      cases hb
    | ok a =>
      rw [hr] at hb
      have pair := Except.ok.inj hb
      have same : a = answer := congrArg Prod.fst pair
      subst same
      exact .inl ⟨old, hold, hr, (congrArg Prod.snd pair).symm⟩
  next hnone =>
    split at hb
    · cases hb
    rename_i room
    split at hb
    next operations hi =>
      have pair := Except.ok.inj hb
      exact .inr ⟨hnone, Nat.lt_of_not_le room, (congrArg Prod.fst pair).symm, operations, hi,
        (congrArg Prod.snd pair).symm⟩
    next => cases hb

/-- The identity under which `admit` enters an operation. -/
def identified (key : OpKey) : Bool :=
  !(key.2.isEmpty || 128 < key.2.utf8ByteSize || 256 < key.1.utf8ByteSize)

theorem admit_identified {answer : Admission}
    (h : (admitOperation text principal id request db).1 = .ok answer) :
    identified (principal, id) = true ∧ (text.encode request).utf8ByteSize ≤ maxBody := by
  unfold admitOperation at h
  split at h
  · cases h
  next named =>
    split at h
    · cases h
    next small => exact ⟨by simpa [identified] using named, Nat.le_of_not_lt small⟩

/-- What `admit` answers under an id that is there. -/
theorem admit_there {old : OpRow} (named : identified (principal, id) = true)
    (there : db.operations.get (principal, id) = some old) :
    (admitOperation text principal id request db).1 =
      if maxBody < (text.encode request).utf8ByteSize then .error "resource-exhausted"
      else replay text old (text.encode request) := by
  have passes : ¬ (id.isEmpty || 128 < id.utf8ByteSize || 256 < principal.utf8ByteSize) = true := by
    simpa [identified] using named
  unfold admitOperation
  rw [if_neg passes]
  split
  · rfl
  · cases hr : replay text old (text.encode request) <;> simp [immediate, there, hr, Except.map]

/-- A row that is there never answers as new. -/
theorem replay_ne_new {old : OpRow} {request : String} : replay text old request ≠ .ok .new := by
  intro told
  unfold replay at told
  split at told
  · cases told
  split at told
  · split at told
    next result hr => cases hd : text.decode result <;> simp [hd, Except.map] at told
    next => cases told
  · cases told

theorem admit_error (h : (admitOperation text principal id request db).1 = .error e) :
    (admitOperation text principal id request db).2 = db := by
  unfold admitOperation at h ⊢
  split
  · rfl
  rename_i named
  split
  · rfl
  rename_i small
  rw [if_neg named, if_neg small] at h
  exact immediate_error h

/-- The update of a finish. -/
abbrev finished (text : JsonText) (principal id : String) (result : Json) (unknown : Bool)
    (db : Db) : Nat × Table OpKey OpRow :=
  db.operations.modify
    (fun key row => decide (key = (principal, id)) && decide (row.state = .admitted))
    fun row => { row with
      state := if unknown then .unknown else .completed
      result := some (text.encode result) }

theorem finished_count (principal id : String) (result : Json) (unknown : Bool) :
    (finished text principal id result unknown db).1 =
      ((db.operations.get (principal, id)).any fun row =>
        decide (row.state = .admitted)).toNat := by
  rw [Table.modify_count (k := (principal, id))
    fun _ _ hp => of_decide_eq_true (Bool.and_eq_true_iff.mp hp).1]
  simp

variable {result : Json} {unknown : Bool}

theorem finish_eq (small : ¬ maxBody < (text.encode result).utf8ByteSize) :
    finish text principal id result unknown db =
      (if (finished text principal id result unknown db).1 ≠ 1 then
        .error "operation not admitted" else .ok (),
      { db with operations := (finished text principal id result unknown db).2 }) := by
  unfold finish
  exact if_neg small

theorem finish_error (h : (finish text principal id result unknown db).1 = .error e) :
    (finish text principal id result unknown db).2 = db := by
  by_cases small : maxBody < (text.encode result).utf8ByteSize
  · unfold finish
    rw [if_pos small]
  · rw [finish_eq small] at h ⊢
    -- The update is not rolled back: it changed nothing because at most one row has the key.
    have count_le : (finished text principal id result unknown db).1 ≤ 1 := by
      rw [finished_count]
      exact Bool.toNat_le _
    have count_ne : (finished text principal id result unknown db).1 ≠ 1 := by
      intro one
      rw [if_neg (not_not_intro one)] at h
      cases h
    have none_changed : (finished text principal id result unknown db).1 = 0 := by omega
    have same : (finished text principal id result unknown db).2 = db.operations :=
      Table.modify_none none_changed
    rw [same]

theorem finish_ok (h : (finish text principal id result unknown db).1 = .ok ()) :
    (∃ row, db.operations.get (principal, id) = some row ∧ row.state = .admitted) ∧
      (finish text principal id result unknown db).2 =
        { db with operations := (finished text principal id result unknown db).2 } := by
  by_cases small : maxBody < (text.encode result).utf8ByteSize
  · unfold finish at h
    rw [if_pos small] at h
    cases h
  · rw [finish_eq small] at h ⊢
    refine ⟨?_, rfl⟩
    have one : (finished text principal id result unknown db).1 = 1 := by
      by_contra hne
      rw [if_pos hne] at h
      cases h
    rw [finished_count] at one
    cases hrow : db.operations.get (principal, id) with
    | none =>
      rw [hrow] at one
      cases one
    | some row =>
      rw [hrow] at one
      refine ⟨row, rfl, ?_⟩
      by_contra hne
      simp [hne] at one

variable {resource : String} {epoch : Nat}

/-- An effect that is committed meets the fence; it was entered before or is entered now. -/
theorem commitEffect_ok {key : String} {value : Json} {outcome : Commit}
    (h : (commitEffectOutcome text principal id resource epoch key value db).1 = .ok outcome) :
    db.fences.get resource = some epoch ∧
    ((∃ v, outcome = .replayed v ∧
      (commitEffectOutcome text principal id resource epoch key value db).2 = db) ∨
    (db.operations.get (principal, id) = none ∧ db.operations.size < maxOps ∧
      outcome = .written (effectResult epoch) ∧
      ∃ operations, db.operations.insert (principal, id) ⟨effectRequest text resource key value,
          .completed, some (text.encode (effectResult epoch))⟩ = some operations ∧
        (commitEffectOutcome text principal id resource epoch key value db).2 = { db with
          effects := (db.effects.upsert (resource, key) (text.encode value)
            fun _ => some (text.encode value)).2
          operations })) := by
  unfold commitEffectOutcome at h ⊢
  split at h
  · cases h
  rename_i sized
  rw [if_neg sized]
  have hb := immediate_ok h
  generalize (immediate (commitEffectTx text principal id resource epoch key value) db).2 = db'
    at hb ⊢
  unfold commitEffectTx at hb
  split at hb
  · cases hb
  split at hb
  · cases hb
  rename_i current
  refine ⟨not_not.mp current, ?_⟩
  split at hb
  next old hold =>
    split at hb
    · cases hb
    split at hb
    · cases hb
    split at hb
    next result hr =>
      cases hd : text.decode result with
      | error e =>
        rw [hd] at hb
        cases hb
      | ok v =>
        rw [hd] at hb
        have pair := Except.ok.inj hb
        exact .inl ⟨v, (congrArg Prod.fst pair).symm, (congrArg Prod.snd pair).symm⟩
    next => cases hb
  next hnone =>
    split at hb
    · cases hb
    rename_i room
    simp only at hb
    split at hb
    next operations hi =>
      have pair := Except.ok.inj hb
      exact .inr ⟨hnone, Nat.lt_of_not_le room, (congrArg Prod.fst pair).symm, operations, hi,
        (congrArg Prod.snd pair).symm⟩
    next => cases hb

theorem commitEffect_error {key : String} {value : Json}
    (h : (commitEffectOutcome text principal id resource epoch key value db).1 = .error e) :
    (commitEffectOutcome text principal id resource epoch key value db).2 = db := by
  unfold commitEffectOutcome at h ⊢
  split
  · rfl
  rename_i sized
  rw [if_neg sized] at h
  exact immediate_error h

/-- The next fence of a resource: one, or one more than its fence. -/
theorem nextFence_ok (h : (nextFence resource db).1 = .ok epoch) :
    ∃ fences, (nextFence resource db).2 = { db with fences } ∧
      (∀ r, r ≠ resource → fences.get r = db.fences.get r) ∧
      (∀ n, db.fences.get resource = some n → fences.get resource = some (n + 1)) ∧
      fences.get resource = some epoch := by
  have hb := immediate_ok h
  generalize hdb : (nextFence resource db).2 = db'
  rw [show (immediate _ db).2 = db' from hdb] at hb
  simp only at hb
  split at hb
  · cases hb
  rename_i touched
  split at hb
  next found hfound =>
    refine ⟨_, (congrArg Prod.snd (Except.ok.inj hb)).symm, fun r hr => ?_, fun n hn => ?_,
      hfound.trans (congrArg some (congrArg Prod.fst (Except.ok.inj hb)))⟩
    · cases hold : db.fences.get resource with
      | none => exact ((Table.upsert_fresh 1 _ hold).2 r).trans (if_neg hr)
      | some n => exact ((Table.upsert_there 1 _ hold).2 r).trans (if_neg hr)
    · obtain ⟨count, rows⟩ := Table.upsert_there 1
        (fun epoch => if epoch < i64Max then some (epoch + 1) else none) hn
      rw [count] at touched
      by_cases room : n < i64Max
      · rw [rows resource, if_pos rfl, if_pos room]
        rfl
      · simp [room] at touched
  next => cases hb

/-- A fence that is set is at least the one before. -/
theorem fence_ok (h : (fence resource epoch db).1 = .ok ()) :
    ∃ fences, (fence resource epoch db).2 = { db with fences } ∧
      (∀ r, r ≠ resource → fences.get r = db.fences.get r) ∧
      ∀ n, db.fences.get resource = some n → n ≤ epoch ∧ fences.get resource = some epoch := by
  unfold fence at h ⊢
  split at h
  · cases h
  rename_i fits
  rw [if_neg fits]
  simp only at h ⊢
  refine ⟨_, rfl, fun r hr => ?_, fun n hn => ?_⟩
  · cases hold : db.fences.get resource with
    | none => exact ((Table.upsert_fresh epoch _ hold).2 r).trans (if_neg hr)
    | some n => exact ((Table.upsert_there epoch _ hold).2 r).trans (if_neg hr)
  · obtain ⟨count, rows⟩ := Table.upsert_there epoch
      (fun current => if current ≤ epoch then some epoch else none) hn
    rw [count] at h
    by_cases le : n ≤ epoch
    · refine ⟨le, ?_⟩
      rw [rows resource, if_pos rfl, if_pos le]
      rfl
    · simp [le] at h

theorem fence_error (h : (fence resource epoch db).1 = .error e) :
    (fence resource epoch db).2 = db := by
  unfold fence at h ⊢
  split
  · rfl
  rename_i fits
  rw [if_neg fits] at h
  simp only at h ⊢
  -- The upsert is not rolled back either; it touched no row.
  have untouched : (db.fences.upsert resource epoch
      fun current => if current ≤ epoch then some epoch else none).1 = 0 := by
    by_contra hne
    rw [if_neg hne] at h
    cases h
  rw [Table.upsert_none untouched]

/-- Everything a call can do: what it answers when it succeeds, and the database it leaves. -/
inductive Change (text : JsonText) (db : Db) : Call → Option Reply → Db → Prop
  | refused (call : Call) : Change text db call none db
  | reopened : Change text db .reopen (some (.opened (db.epoch + 1))) { db with
      epoch := db.epoch + 1
      operations := (db.operations.modify (fun _ row => decide (row.state = .admitted))
        fun row => { row with state := .unknown }).2 }
  | replayed {principal id : String} {request : Json} {old : OpRow} {answer : Admission}
      (there : db.operations.get (principal, id) = some old)
      (told : replay text old (text.encode request) = .ok answer) :
      Change text db (.admitOperation principal id request) (some (.admission answer)) db
  | admitted {principal id : String} {request : Json} {operations : Table OpKey OpRow}
      (fresh : db.operations.get (principal, id) = none) (room : db.operations.size < maxOps)
      (entered : db.operations.insert (principal, id) ⟨text.encode request, .admitted, none⟩ =
        some operations) :
      Change text db (.admitOperation principal id request) (some (.admission .new))
        { db with operations }
  | finished {principal id : String} {result : Json} {unknown : Bool} {row : OpRow}
      (there : db.operations.get (principal, id) = some row) (pending : row.state = .admitted) :
      Change text db (.finish principal id result unknown) (some .done)
        { db with operations := (finished text principal id result unknown db).2 }
  | raised {resource : String} {epoch : Nat} {fences : Table String Nat}
      (others : ∀ r, r ≠ resource → fences.get r = db.fences.get r)
      (own : ∀ n, db.fences.get resource = some n → fences.get resource = some (n + 1)) :
      Change text db (.nextFence resource) (some (.fenced epoch)) { db with fences }
  | fenced {resource : String} {epoch : Nat} {fences : Table String Nat}
      (others : ∀ r, r ≠ resource → fences.get r = db.fences.get r)
      (own : ∀ n, db.fences.get resource = some n → n ≤ epoch ∧
        fences.get resource = some epoch) :
      Change text db (.fence resource epoch) (some .done) { db with fences }
  | recommitted {principal id resource key : String} {epoch : Nat} {value : Json} (v : Json)
      (current : db.fences.get resource = some epoch) :
      Change text db (.commitEffect principal id resource epoch key value)
        (some (.committed (.replayed v))) db
  | committed {principal id resource key : String} {epoch : Nat} {value : Json}
      {operations : Table OpKey OpRow} (current : db.fences.get resource = some epoch)
      (fresh : db.operations.get (principal, id) = none) (room : db.operations.size < maxOps)
      (entered : db.operations.insert (principal, id) ⟨effectRequest text resource key value,
        .completed, some (text.encode (effectResult epoch))⟩ = some operations) :
      Change text db (.commitEffect principal id resource epoch key value)
        (some (.committed (.written (effectResult epoch)))) { db with
          effects := (db.effects.upsert (resource, key) (text.encode value)
            fun _ => some (text.encode value)).2
          operations }

theorem Change.of_error {call : Call} {reply : α → Reply} {stored : Stored α}
    (h : stored.1 = .error e) (same : stored.2 = db) :
    Change text db call (answered reply stored).1.toOption (answered reply stored).2 := by
  unfold answered
  rw [h, same]
  exact .refused call

theorem Change.of_ok {call : Call} {reply : α → Reply} {stored : Stored α} {value : α}
    (h : stored.1 = .ok value)
    (change : Change text db call (some (reply value))
      stored.2) :
    Change text db call (answered reply stored).1.toOption (answered reply stored).2 := by
  unfold answered
  rw [h]
  exact change

theorem exec_change (call : Call) :
    Change text db call (exec text call db).1.toOption (exec text call db).2 := by
  cases call with
  | reopen =>
    cases h : (reopen db).1 with
    | error e => exact .of_error h (immediate_error h)
    | ok n =>
      obtain ⟨rfl, after⟩ := reopen_ok h
      refine .of_ok h ?_
      rw [after]
      exact .reopened
  | admitOperation principal id request =>
    cases h : (admitOperation text principal id request db).1 with
    | error e => exact .of_error h (admit_error h)
    | ok answer =>
      refine .of_ok h ?_
      rcases admit_ok h with ⟨old, there, told, same⟩ | ⟨fresh, room, rfl, operations, hi, after⟩
      · rw [same]
        exact .replayed there told
      · rw [after]
        exact .admitted fresh room hi
  | finish principal id result unknown =>
    cases h : (finish text principal id result unknown db).1 with
    | error e => exact .of_error h (finish_error h)
    | ok u =>
      obtain ⟨⟨row, there, hstate⟩, after⟩ := finish_ok h
      refine .of_ok h ?_
      rw [after]
      exact .finished there hstate
  | nextFence resource =>
    cases h : (nextFence resource db).1 with
    | error e => exact .of_error h (immediate_error h)
    | ok epoch =>
      obtain ⟨fences, after, others, own, -⟩ := nextFence_ok h
      refine .of_ok h ?_
      rw [after]
      exact .raised others own
  | fence resource epoch =>
    cases h : (fence resource epoch db).1 with
    | error e => exact .of_error h (fence_error h)
    | ok u =>
      obtain ⟨fences, after, others, own⟩ := fence_ok h
      refine .of_ok h ?_
      rw [after]
      exact .fenced others own
  | commitEffect principal id resource epoch key value =>
    cases h : (commitEffectOutcome text principal id resource epoch key value db).1 with
    | error e => exact .of_error h (commitEffect_error h)
    | ok outcome =>
      obtain ⟨current, hcases⟩ := commitEffect_ok h
      refine .of_ok h ?_
      rcases hcases with ⟨v, rfl, same⟩ | ⟨fresh, room, rfl, operations, hi, after⟩
      · rw [same]
        exact .recommitted v current
      · rw [after]
        exact .committed current fresh room hi

end Calls

end MatrixRuntime.StoreCalls
