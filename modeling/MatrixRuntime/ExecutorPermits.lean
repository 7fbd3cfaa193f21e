import MatrixRuntime.RouteExecutor
import MatrixRuntime.StoreCalls

/-! What an admission permits, and what is told of it. The ledger answers `New` once, and the
thread that got it may start the kernel call once and record its result once. -/

namespace MatrixRuntime.ExecutorPermits

open JsonValue KeyedTable StoreLedger StoreCalls RouteExecutor InterleavedMachine

variable {text : JsonText} {peer : Nat → String} {key : OpKey} {principal id : String}
  {operations : Table OpKey OpRow}

def row (s : ExecState) (key : OpKey) : Option OpRow := s.db.operations.get key

/-- A thread was admitted under the key and has not recorded a result; while the permit is fresh,
it has not started the kernel call. -/
structure Permit where
  key : OpKey
  request : Json
  fresh : Bool

/-- What a leg handed to the ledger under its key, and whether the ledger took it. -/
structure Settlement where
  key : OpKey
  request : Json
  result : Json
  unknown : Bool
  stored : Bool

/-! ### What is counted and what is told -/

def Worker.pending (key : OpKey) (w : Worker) : Bool :=
  match w.state with
  | .waiting => decide (w.key = key)
  | _ => false

/-- The kernel calls under a key that have begun, and those that are about to. -/
def begun (s : ExecState) (key : OpKey) : Nat :=
  s.started.count key + s.workers.countP (Worker.pending key)

def staleResult : Json := .obj [("ok", .bool false), ("value", coded "stale-generation")]

def staleTerminal : Terminal := .error "stale-generation" "activation superseded"

/-- What the ledger holds of a leg that has been answered: its result when it took one, and
otherwise nothing complete, or that the activation was superseded. -/
def Told (text : JsonText) (db : Db) (a : Answer) (recorded : Option Json) : Prop :=
  ∃ request old, a.request = some request ∧ db.operations.get a.key = some old ∧
    old.request = text.encode request ∧
    match recorded with
    | some done => old.state = .completed ∧ old.result = some (text.encode done) ∧
        a.terminal = ledgerTerminal text done
    | none => old.state ≠ .completed ∨
        (old.result = some (text.encode staleResult) ∧ a.terminal = staleTerminal)

/-- The terminals sent since thread `i` began its call. -/
def sentSince (i : Nat) : List (Label (executor text peer)) → Nat
  | [] => 0
  | .start j _ :: past => if j = i then 0 else sentSince i past
  | .act _ (.terminal rid _) _ :: past =>
    if rid.isEmpty then sentSince i past else sentSince i past + 1
  | _ :: past => sentSince i past

/-- The terminals that had been sent when the call of thread `i` arrived. -/
def answeredBefore (i : Nat) (o : Obs (executor text peer)) : List Answer :=
  o.mem.answers.drop (sentSince i o.trace)

def exhausted : Terminal := .error "resource-exhausted" "admission refused"

def conflict : Terminal := .error "operation-id-conflict" "admission refused"

def unknownYet : Terminal := .error "outcome-unknown" "operation unknown; query later"

/-- The ledger's answer to a redelivered call agrees with what the first leg was told. -/
def Agrees (text : JsonText) (first : Answer) (recorded : Option Json) (request : Json)
    (t : Terminal) : Prop :=
  ∀ r, first.request = some r →
    (text.encode r ≠ text.encode request →
      t = conflict ∨ (t = exhausted ∧ maxBody < (text.encode request).utf8ByteSize)) ∧
    (text.encode r = text.encode request →
      match recorded with
      | some done => text.decode (text.encode done) = .ok done → t = first.terminal
      | none => t = unknownYet ∨ (first.terminal = staleTerminal ∧
          (text.decode (text.encode staleResult) = .ok staleResult →
            t = ledgerTerminal text staleResult)))

/-- The ledger's answer agrees with every leg that had been answered under its key. -/
def AgreesBefore (i : Nat) (o : Obs (executor text peer)) (key : OpKey) (request : Json)
    (t : Terminal) : Prop :=
  ∀ first ∈ answeredBefore i o, ∀ recorded, first.source = .leg recorded → first.key = key →
    Agrees text first recorded request t

/-- The terminal that an admission which grants nothing leads to. -/
def admissionTerminal (text : JsonText) : Except String Admission → Terminal
  | .ok (.completed done) => ledgerTerminal text done
  | .ok _ => unknownYet
  | .error e => if e == "operation-id-conflict" then conflict else exhausted

/-- What the ledger holds once a result was handed to it. -/
def Settlement.Recorded (x : Settlement) (text : JsonText) (new : OpRow) : Prop :=
  if x.stored then new.state = (if x.unknown then .unknown else .completed) ∧
    new.result = some (text.encode x.result)
  else new.state = .admitted

/-- A terminal that a leg may send after the settlement. -/
def Settlement.Backs (x : Settlement) (text : JsonText) (recorded : Option Json)
    (t : Terminal) : Prop :=
  match recorded with
  | some done => x.stored = true ∧ x.unknown = false ∧ x.result = done ∧
      t = ledgerTerminal text done
  | none => x.unknown = true ∨ x.stored = false ∨ (x.result = staleResult ∧ t = staleTerminal)

/-- SQLite serves every statement. -/
abbrev serving : Label (executor text peer) → Prop
  | .env (.disk complaint) => complaint = none
  | _ => True

/-! ### What actions leave alone -/

def touches {β : Type} : EAct β → Prop
  | .admitOperation _ _ _ => True
  | .finish _ _ _ _ => True
  | .submit _ _ _ _ => True
  | .callKernel _ _ _ _ => True
  | .terminal _ _ => True
  | _ => False

variable {o : Obs (executor text peer)} {i j : Nat} {β : Type} {action : EAct β} {reply : β}
  {mem : ExecState}

/-- The part of the state the permits are about. -/
structure Same (s s' : ExecState) : Prop where
  db : s'.db = s.db
  disk : s'.disk = s.disk
  workers : s'.workers = s.workers
  started : s'.started = s.started
  answers : s'.answers = s.answers

theorem Same.refl (s : ExecState) : Same s s := ⟨rfl, rfl, rfl, rfl, rfl⟩

theorem sem_same (enabled : action.sem text o.mem = some (reply, mem)) (free : ¬ touches action) :
    Same o.mem mem := by
  cases action with
  | admitOperation | finish | submit | callKernel | terminal => exact absurd trivial free
  | operation =>
    simp only [EAct.sem] at enabled
    split at enabled <;> cases enabled <;> exact .refl _
  | spawnLeg =>
    simp only [EAct.sem] at enabled
    split at enabled <;> cases enabled <;> exact ⟨rfl, rfl, rfl, rfl, rfl⟩
  | awaitBudget =>
    simp only [EAct.sem] at enabled
    repeat' split at enabled
    all_goals cases enabled <;> exact .refl _
  | awaitReturn =>
    simp only [EAct.sem] at enabled
    repeat' split at enabled
    all_goals cases enabled <;> exact .refl _
  | _ => cases enabled; exact ⟨rfl, rfl, rfl, rfl, rfl⟩

theorem sentSince_acted (k : Nat) (past : List (Label (executor text peer)))
    (free : ¬ touches action) :
    sentSince k (.act i action reply :: past) = sentSince k past := by
  cases action with
  | terminal => exact absurd trivial free
  | _ => rfl

/-- An action of any thread leaves alone what had been sent when a call arrived. -/
theorem answeredBefore_acted (k : Nat) (enabled : action.sem text o.mem = some (reply, mem)) :
    answeredBefore k (o.acted i action reply mem) = answeredBefore k o := by
  unfold answeredBefore
  cases action with
  | terminal rid a =>
    simp only [EAct.sem] at enabled
    split at enabled
    next empty =>
      cases enabled
      simp [sentSince, empty]
    next named =>
      cases enabled
      simp [sentSince, named]
  | admitOperation principal id request =>
    have answers : mem.answers = o.mem.answers := by
      simp only [EAct.sem, ExecState.stored] at enabled
      split at enabled <;> cases enabled <;> rfl
    simp [sentSince, answers]
  | finish principal id result unknown =>
    have answers : mem.answers = o.mem.answers := by
      simp only [EAct.sem, ExecState.stored] at enabled
      split at enabled <;> cases enabled <;> rfl
    simp [sentSince, answers]
  | submit =>
    cases enabled
    rfl
  | callKernel =>
    cases enabled
    rfl
  | _ =>
    rw [Obs.acted_mem, Obs.acted_trace, (sem_same enabled id).answers,
      sentSince_acted _ _ id]

theorem begun_same (h : Same o.mem mem) (key : OpKey) : begun mem key = begun o.mem key := by
  unfold begun
  rw [h.started, h.workers]

/-! ### What the ledger does -/

/-- What `admit` did: nothing but answer, or grant a new row. -/
theorem admit_effect {request : Json} {answer : Except String Admission}
    (enabled : EAct.sem text (.admitOperation principal id request) o.mem = some (answer, mem)) :
    (Same o.mem mem ∧ answer ≠ .ok .new) ∨
    (answer = .ok .new ∧ row o.mem (principal, id) = none ∧
      (identified (principal, id) = true ∧ (text.encode request).utf8ByteSize ≤ maxBody) ∧
      ∃ operations, o.mem.db.operations.insert (principal, id)
          ⟨text.encode request, .admitted, none⟩ = some operations ∧
        mem = { o.mem with db := { o.mem.db with operations } }) := by
  simp only [EAct.sem, ExecState.stored] at enabled
  split at enabled
  · cases enabled
    exact .inl ⟨.refl _, by simp⟩
  · cases enabled
    cases h : (admitOperation text principal id request o.mem.db).1 with
    | error e =>
      exact .inl ⟨⟨admit_error h, rfl, rfl, rfl, rfl⟩, by simp⟩
    | ok answer =>
      rcases admit_ok h with ⟨old, there, replied, same⟩ | ⟨fresh, _, rfl, operations, hi, hdb⟩
      · refine .inl ⟨⟨same, rfl, rfl, rfl, rfl⟩, fun hnew => ?_⟩
        cases hnew
        exact replay_ne_new replied
      · exact .inr ⟨rfl, fresh, admit_identified h, operations, hi, by rw [hdb]⟩

/-- A row that is there stays what it is when another is entered. -/
theorem entered_there {new : OpKey} {fresh old : OpRow} {db : Db}
    (absent : db.operations.get new = none)
    (entered : db.operations.insert new fresh = some operations)
    (there : db.operations.get key = some old) : operations.get key = some old := by
  have other : key ≠ new := by
    rintro rfl
    rw [absent] at there
    cases there
  rw [Table.insert_get entered, if_neg other, there]

theorem Told.there {db db' : Db} {a : Answer} {recorded : Option Json}
    (h : Told text db a recorded) (same : ∀ old, db.operations.get a.key = some old →
      db'.operations.get a.key = some old) : Told text db' a recorded := by
  obtain ⟨request, old, hr, there, hreq, rest⟩ := h
  exact ⟨request, old, hr, same old there, hreq, rest⟩

/-- What `finish` did: nothing, or the admitted row got its result. -/
theorem finish_effect {result : Json} {unknown : Bool} {answer : Except String Unit}
    (enabled : EAct.sem text (.finish principal id result unknown) o.mem = some (answer, mem)) :
    (Same o.mem mem ∧ answer.isOk = false) ∨
    (answer = .ok () ∧ ∃ old, row o.mem (principal, id) = some old ∧ old.state = .admitted ∧
      (∀ key, row mem key = if key = (principal, id) then
        some { old with
          state := if unknown then .unknown else .completed
          result := some (text.encode result) } else row o.mem key) ∧
      mem = { o.mem with db := mem.db }) := by
  simp only [EAct.sem, ExecState.stored] at enabled
  split at enabled
  · cases enabled
    exact .inl ⟨.refl _, rfl⟩
  · cases enabled
    cases h : (finish text principal id result unknown o.mem.db).1 with
    | error e => exact .inl ⟨⟨finish_error h, rfl, rfl, rfl, rfl⟩, rfl⟩
    | ok _ =>
      obtain ⟨⟨old, there, hold⟩, hdb⟩ := finish_ok h
      refine .inr ⟨rfl, old, there, hold, fun key => ?_, rfl⟩
      simp only [row, hdb, Table.modify_get]
      by_cases same : key = (principal, id)
      · subst same
        rw [if_pos rfl, there]
        simp [hold]
      · rw [if_neg same]
        cases o.mem.db.operations.get key <;> simp [same]

theorem Settlement.told {x : Settlement} {new : OpRow} {db : Db} {a : Answer}
    {recorded : Option Json} (there : db.operations.get x.key = some new)
    (request : new.request = text.encode x.request) (holds : x.Recorded text new)
    (key : a.key = x.key) (asked : a.request = some x.request)
    (backs : x.Backs text recorded a.terminal) : Told text db a recorded := by
  refine ⟨x.request, new, asked, key ▸ there, request, ?_⟩
  unfold Settlement.Recorded at holds
  cases recorded with
  | some done =>
    obtain ⟨stored, known, rfl, terminal⟩ := backs
    rw [if_pos stored, known] at holds
    exact ⟨holds.1, holds.2, terminal⟩
  | none =>
    split at holds
    next stored =>
      rcases backs with unknown | refused | ⟨stale, terminal⟩
      · rw [unknown] at holds
        exact .inl (by simp [holds.1])
      · rw [refused] at stored
        cases stored
      · exact .inr ⟨stale ▸ holds.2, terminal⟩
    next => exact .inl (by simp [holds])

end MatrixRuntime.ExecutorPermits
