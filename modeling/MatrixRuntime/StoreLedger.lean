import MatrixRuntime.JsonValue
import MatrixRuntime.KeyedTable

/-! The durable store: the operation ledger, the fences and the effects of one SQLite
database, and the calls that read and change them. A transaction that is not committed
is rolled back, so a call is a function from the database to an answer and a database. -/

namespace MatrixRuntime.StoreLedger

open JsonValue KeyedTable

def maxOps : Nat := 100000

def maxBody : Nat := 1024 * 1024

def i64Max : Nat := 9223372036854775807

inductive OpState where
  | admitted
  | completed
  | unknown
  deriving DecidableEq

structure OpRow where
  request : String
  state : OpState
  result : Option String
  deriving DecidableEq

/-- An operation is known by its principal and its id. -/
abbrev OpKey : Type := String × String

/-- The tables the calls below use, and the boot counter of `meta`. -/
structure Db where
  epoch : Nat
  operations : Table OpKey OpRow
  fences : Table String Nat
  effects : Table (String × String) String

/-- A database file that was just created. -/
def Db.fresh : Db := ⟨0, .empty, .empty, .empty⟩

inductive Admission where
  | new
  | completed (value : Json)
  | unknown

/-- A call's result and the database it leaves. -/
abbrev Stored (α : Type) : Type := Except String α × Db

/-- An immediate transaction: what its body wrote stays when it succeeds, and is rolled back
when it returns early with an error. -/
def immediate {α : Type} (body : Db → Except String (α × Db)) (db : Db) : Stored α :=
  match body db with
  | .ok (value, db') => (.ok value, db')
  | .error e => (.error e, db)

/-- `Store::open` on the file of an earlier run: the boot counter goes up, and what was
admitted and not finished becomes unknown. -/
def reopen : Db → Stored Nat :=
  immediate fun db =>
    if db.epoch < i64Max then
      .ok (db.epoch + 1, { db with
        epoch := db.epoch + 1
        operations := (db.operations.modify (fun _ row => decide (row.state = .admitted))
          fun row => { row with state := .unknown }).2 })
    else .error "epoch exhausted"

section Calls

variable (text : JsonText)

/-- What the ledger answers under an id that is there. -/
def replay (old : OpRow) (request : String) : Except String Admission :=
  if old.request ≠ request then .error "operation-id-conflict"
  else if old.state = .completed then
    match old.result with
    | some result => (text.decode result).map .completed
    | none => .error "missing result"
  else .ok .unknown

def admitOperation (principal id : String) (request : Json) (db : Db) : Stored Admission :=
  if id.isEmpty || 128 < id.utf8ByteSize || 256 < principal.utf8ByteSize then
    (.error "invalid operation identity", db)
  else if maxBody < (text.encode request).utf8ByteSize then (.error "resource-exhausted", db)
  else
    immediate (fun db =>
      match db.operations.get (principal, id) with
      | some old => (replay text old (text.encode request)).map fun answer => (answer, db)
      | none =>
        if maxOps ≤ db.operations.size then
          .error "resource-exhausted: durable dedup ledger full; archive/rotate explicitly"
        else
          match db.operations.insert (principal, id) ⟨text.encode request, .admitted, none⟩ with
          | some operations => .ok (.new, { db with operations })
          | none => .error "UNIQUE constraint failed: operations.principal, operations.id") db

/-- The update of `finish` runs outside a transaction: it stays whatever is answered. -/
def finish (principal id : String) (result : Json) (unknown : Bool) (db : Db) : Stored Unit :=
  let body := text.encode result
  if maxBody < body.utf8ByteSize then (.error "result too large; operation remains unknown", db)
  else
    let (n, operations) := db.operations.modify
      (fun key row => decide (key = (principal, id)) && decide (row.state = .admitted))
      fun row => { row with
        state := if unknown then .unknown else .completed
        result := some body }
    (if n ≠ 1 then .error "operation not admitted" else .ok (), { db with operations })

/-- `Store::operation`: the state and the result of a row. -/
def operation (principal id : String) (db : Db) : Except String (OpState × Option Json) :=
  match db.operations.get (principal, id) with
  | none => .error "no-such-operation"
  | some row =>
    match row.result with
    | none => .ok (row.state, none)
    | some result => (text.decode result).map fun value => (row.state, some value)

/-- The request text under which an effect is entered in the ledger. -/
def effectRequest (resource key : String) (value : Json) : String :=
  text.encode (.obj [("key", .str key), ("resource", .str resource), ("value", value)])

def effectResult (epoch : Nat) : Json :=
  .obj [("committed", .bool true), ("fence", .str (toString epoch))]

/-- How `commit_effect` succeeded: the effect was entered before, or is written now. -/
inductive Commit where
  | replayed (value : Json)
  | written (value : Json)

def commitEffectTx (principal id resource : String) (epoch : Nat) (key : String) (value : Json)
    (db : Db) : Except String (Commit × Db) :=
  if i64Max < epoch then .error "out of range integral type conversion attempted"
  else if db.fences.get resource ≠ some epoch then .error "stale-generation"
  else
    match db.operations.get (principal, id) with
    | some old =>
      if old.request ≠ effectRequest text resource key value then .error "operation-id-conflict"
      else if old.state ≠ .completed then .error "outcome-unknown"
      else
        match old.result with
        | some result => (text.decode result).map fun value => (.replayed value, db)
        | none => .error "missing result"
    | none =>
      if maxOps ≤ db.operations.size then .error "resource-exhausted"
      else
        let effects := (db.effects.upsert (resource, key) (text.encode value)
          fun _ => some (text.encode value)).2
        match db.operations.insert (principal, id) ⟨effectRequest text resource key value,
            .completed, some (text.encode (effectResult epoch))⟩ with
        | some operations => .ok (.written (effectResult epoch), { db with effects, operations })
        | none => .error "UNIQUE constraint failed: operations.principal, operations.id"

def commitEffectOutcome (principal id resource : String) (epoch : Nat) (key : String)
    (value : Json) (db : Db) : Stored Commit :=
  if id.isEmpty || 128 < id.utf8ByteSize || 256 < key.utf8ByteSize ||
      maxBody < (effectRequest text resource key value).utf8ByteSize then
    (.error "resource-exhausted", db)
  else immediate (commitEffectTx text principal id resource epoch key value) db

end Calls

def nextFence (resource : String) : Db → Stored Nat :=
  immediate fun db =>
    let (n, fences) := db.fences.upsert resource 1
      fun epoch => if epoch < i64Max then some (epoch + 1) else none
    if n ≠ 1 then .error "fence exhausted"
    else
      match fences.get resource with
      | some epoch => .ok (epoch, { db with fences })
      | none => .error "Query returned no rows"

/-- The update of `fence` runs outside a transaction. -/
def fence (resource : String) (epoch : Nat) (db : Db) : Stored Unit :=
  if i64Max < epoch then (.error "out of range integral type conversion attempted", db)
  else
    let (n, fences) := db.fences.upsert resource epoch
      fun current => if current ≤ epoch then some epoch else none
    (if n = 0 then .error "stale-generation" else .ok (), { db with fences })

end MatrixRuntime.StoreLedger
