import MatrixRuntime.KernelOperations
import MatrixRuntime.StoreLedger

/-! The runtime service: it activates components under leases, rotates their tokens and supervises
what runs outside the process. An operation holds the service's lock throughout, so it is a program
over the kernel that turns one service state into the next. -/

namespace MatrixRuntime.RuntimeService

open KernelContexts KernelState KernelActions KernelReconcile KernelOperations KeyedTable
open StoreLedger

structure Grant where
  components : List String
  capabilities : List String
  deriving DecidableEq

/-! ### Restart budget -/

structure RestartPolicy where
  maxRestarts : Nat := 5
  windowMs : Nat := 10000
  backoffMs : Nat := 100

/-- The restarts that still count. -/
structure RestartBudget where
  attempts : List Nat := []

/-- When the next restart may happen, if the policy allows one. -/
def RestartBudget.reserve (b : RestartBudget) (now : Nat) (p : RestartPolicy) :
    Option Nat × RestartBudget :=
  if p.windowMs = 0 ∨ p.backoffMs = 0 ∨ 100 < p.maxRestarts then (none, b)
  else
    let attempts := b.attempts.dropWhile fun t => decide (p.windowMs ≤ now - t)
    if p.maxRestarts ≤ attempts.length then (none, ⟨attempts⟩)
    else
      let exp := 1 <<< min attempts.length 10
      let jitter := attempts.length * 37 % p.backoffMs
      (some (now + min (p.backoffMs * exp + jitter) 60000), ⟨attempts ++ [now]⟩)

/-! ### State -/

structure Lease where
  principal : String
  logical : String
  token : String
  fence : Nat
  deadline : Nat
  owner : InstanceRef
  external : Bool
  started : Nat
  retry : Option Nat
  failed : Bool
  budget : RestartBudget
  renewSeq : Nat

/-- `issued` records the past: every token that was handed out. -/
structure Svc where
  leases : Table String Lease
  grants : Table String Grant
  revoked : List String
  db : Db
  restart : String → Option RestartPolicy
  issued : List String

/-- What the service cannot decide during an operation: the time, the random token, whether the
store takes an event or a revocation, which children the host runs, and what was provisioned. -/
structure Outside where
  now : Nat
  token : Except String String
  recorded : Except String Unit
  durable : Except String Unit
  childRunning : String → Bool
  materialized : String → Except String Unit
  parsed : String → Except String StoredManifest
  named : ∀ logical m, parsed logical = .ok m → m.id = logical

structure Activated where
  lease : String
  fence : Nat
  ttlMs : Nat
  owner : InstanceRef
  epoch : Nat

structure Renewed where
  lease : String
  fence : Nat
  ttlMs : Nat
  replay : Bool
  deriving DecidableEq

structure Retired where
  clean : Bool
  kernel : DisposeOutcome
  auditDurable : Bool

/-! ### Operations -/

def Svc.authorized (s : Svc) (principal : String) : Bool :=
  (s.grants.get principal).isSome && !s.revoked.contains principal

def Svc.grantCovers (s : Svc) (principal cap : String) : Bool :=
  !s.revoked.contains principal &&
    (s.grants.get principal).any fun g => g.capabilities.contains cap

def validTtl (ttlMs : Nat) : Bool := decide (100 ≤ ttlMs ∧ ttlMs ≤ 30000)

/-- `load_manifest`, from the file that was materialized. -/
def loadMaterialized (out : Outside) (again : KProg Unit) (logical : String) :
    KProg (Except String Unit) :=
  match out.parsed logical with
  | .error e => pure (.error e)
  | .ok manifest => do
    let _ ← loadManifest again manifest
    pure (.ok ())

def instanceRefOf (logical : String) : KProg (Option InstanceRef) := do
  let cur ← ctx (.current logical)
  pure (cur.map ContextRecord.reference)

def isExternal (logical : String) : KProg Bool := do
  let defs ← comp .definitions
  pure ((defs.lookup logical).any fun d => decide (d.execution ≠ .inProcess))

/-- The checks of `activate` that come before anything is changed, and the token. -/
def Svc.clear (s : Svc) (out : Outside) (principal logical : String) (ttlMs : Nat) :
    Except String String :=
  if !validTtl ttlMs then .error "invalid lease duration"
  else if s.revoked.contains principal ||
      !(s.grants.get principal).any (fun g => g.components.contains logical) then
    .error "permission-denied"
  else if s.leases.entries.any fun row => decide (row.2.logical = logical) then
    .error "component-already-leased"
  else if 128 ≤ s.leases.size then .error "resource-exhausted"
  else
    match out.materialized logical with
    | .error e => .error e
    | .ok _ => out.token

/-- The lease of a component that was just activated. -/
def newLease (out : Outside) (principal logical token : String) (fence ttlMs : Nat)
    (owner : InstanceRef) (external : Bool) : Lease where
  principal := principal
  logical := logical
  token := token
  fence := fence
  deadline := out.now + ttlMs
  owner := owner
  external := external
  started := out.now
  retry := none
  failed := false
  budget := {}
  renewSeq := 0

/-- The kernel's part of `activate`: who runs the component now. -/
def activateKernel (out : Outside) (again : KProg Unit) (logical : String) :
    KProg (Except String (InstanceRef × Bool)) := do
  match ← loadMaterialized out again logical with
  | .error e => do
    let _ ← disposePlugin again logical
    pure (.error e)
  | .ok _ => do
    match ← instanceRefOf logical with
    | none => pure (.error "activation failed")
    | some owner => do
      let external ← isExternal logical
      pure (.ok (owner, external))

def activate (out : Outside) (again : KProg Unit) (principal logical : String) (ttlMs : Nat)
    (s : Svc) : KProg (Except String Activated × Svc) :=
  match s.clear out principal logical ttlMs with
  | .error e => pure (.error e, s)
  | .ok token =>
    match nextFence logical s.db with
    | (.error e, db) => pure (.error e, { s with db })
    | (.ok fence, db) =>
      match out.recorded with
      | .error e => pure (.error e, { s with db })
      | .ok _ => do
        match ← activateKernel out again logical with
        | .error e => pure (.error e, { s with db })
        | .ok (owner, external) =>
          pure (.ok ⟨token, fence, ttlMs, owner, db.epoch⟩, { s with
            db := db
            issued := token :: s.issued
            leases := s.leases.put token
              (newLease out principal logical token fence ttlMs owner external) })

def Svc.validate (s : Svc) (out : Outside) (principal token : String) (fence : Nat) :
    Except String Lease :=
  if s.revoked.contains principal then .error "permission-denied"
  else
    match s.leases.get token with
    | none => .error "stale-generation"
    | some l =>
      if l.principal ≠ principal then .error "permission-denied"
      else if l.fence ≠ fence ∨ l.deadline ≤ out.now then .error "stale-generation"
      else if l.failed ∨ l.retry.isSome then .error "context-not-active"
      else .ok l

/-- The lease moves to a new token and gets a new deadline. -/
def Svc.rotate (s : Svc) (out : Outside) (token new : String) (l : Lease) (ttlMs renewSeq : Nat) :
    Svc :=
  { s with
    issued := new :: s.issued
    leases := (s.leases.erase token).put new
      { l with token := new, deadline := out.now + ttlMs, renewSeq := renewSeq } }

def renew (out : Outside) (principal token : String) (fence ttlMs : Nat) (s : Svc) :
    Except String Renewed × Svc :=
  if !validTtl ttlMs then (.error "invalid lease duration", s)
  else
    match s.validate out principal token fence, out.token with
    | .error e, _ => (.error e, s)
    | .ok _, .error e => (.error e, s)
    | .ok l, .ok new => (.ok ⟨new, fence, ttlMs, false⟩, s.rotate out token new l ttlMs l.renewSeq)

/-- A sequence number that the lease has already served. -/
def Lease.replays (l : Lease) (out : Outside) (principal : String) (fence seq : Nat) : Bool :=
  decide (l.principal = principal ∧ l.fence = fence ∧ l.renewSeq = seq ∧ out.now < l.deadline ∧
    l.failed = false ∧ l.retry = none)

/-- `renew_seq` past its replays. -/
def renewNext (out : Outside) (principal token : String) (fence seq ttlMs : Nat) (s : Svc) :
    Except String Renewed × Svc :=
  match s.validate out principal token fence with
  | .error e => (.error e, s)
  | .ok l =>
    if seq < l.renewSeq then (.error "stale-generation", s)
    else
      match out.token with
      | .error e => (.error e, s)
      | .ok new => (.ok ⟨new, fence, ttlMs, false⟩, s.rotate out token new l ttlMs seq)

def renewSeq (out : Outside) (principal token : String) (fence seq ttlMs : Nat) (s : Svc) :
    Except String Renewed × Svc :=
  if !validTtl ttlMs then (.error "invalid lease duration", s)
  else if seq = 0 then (.error "invalid-message", s)
  else
    match (s.leases.get token).filter fun l => l.replays out principal fence seq with
    | some l => (.ok ⟨l.token, fence, ttlMs, true⟩, s)
    | none => renewNext out principal token fence seq ttlMs s

def activeResourcesFor (logical : String) : KProg Nat := do
  match ← ctx (.current logical) with
  | none => pure 0
  | some cur => res (.activeFor cur.context)

def isPending : DisposeOutcome → Bool
  | .cleanupPending _ => true
  | _ => false

/-- The host has killed the child by the time it is asked whether one runs. -/
def retire (out : Outside) (again : KProg Unit) (l : Lease) : KProg Retired := do
  let outcome ← disposePlugin again l.logical
  let live ← activeResourcesFor l.logical
  pure ⟨!isPending outcome && !out.childRunning l.logical && decide (live = 0), outcome,
    out.recorded.isOk⟩

def release (out : Outside) (again : KProg Unit) (principal token : String) (fence : Nat)
    (s : Svc) : KProg (Except String Retired × Svc) :=
  match s.leases.get token with
  | none => pure (.error "stale-generation", s)
  | some l =>
    if l.principal ≠ principal then pure (.error "permission-denied", s)
    else if l.fence ≠ fence then pure (.error "stale-generation", s)
    else do
      let retired ← retire out again l
      pure (.ok retired, { s with leases := s.leases.erase token })

/-- Take the leases under some tokens away, and retire each. -/
def retireAll (out : Outside) (again : KProg Unit) : List String → Svc → KProg Svc
  | [], s => pure s
  | key :: keys, s =>
    match s.leases.get key with
    | none => retireAll out again keys s
    | some l => do
      let _ ← retire out again l
      retireAll out again keys { s with leases := s.leases.erase key }

/-- The tokens of the leases that meet a condition. -/
def Svc.tokensOf (s : Svc) (p : Lease → Bool) : List String :=
  (s.leases.entries.filter fun row => p row.2).map Prod.fst

def grant (out : Outside) (principal : String) (g : Grant) (s : Svc) : Except String Unit × Svc :=
  match out.durable with
  | .error e => (.error e, s)
  | .ok _ => (.ok (), { s with
      revoked := s.revoked.filter fun p => p != principal
      grants := s.grants.put principal g })

def revoke (out : Outside) (again : KProg Unit) (principal : String) (s : Svc) :
    KProg (Except String Unit × Svc) := do
  let marked := { s with revoked := s.revoked.insert principal }
  let s ← retireAll out again (marked.tokensOf fun l => decide (l.principal = principal)) marked
  pure (out.durable, s)

/-- A restart that is due: load the component again, and follow its new activation. -/
def restartLease (out : Outside) (again : KProg Unit) (l : Lease) : KProg Lease :=
  let begun := { l with retry := none, started := out.now }
  match out.materialized l.logical with
  | .error _ => pure begun
  | .ok _ => do
    match ← loadMaterialized out again l.logical with
    | .error _ => pure begun
    | .ok _ => do
      let owner ← instanceRefOf l.logical
      pure { begun with owner := owner.getD l.owner }

/-- What a crash costs a lease: a restart later on, or its health. -/
def Lease.charged (l : Lease) (now : Nat) : Option RestartPolicy → Lease
  | none => { l with retry := none, failed := true }
  | some p =>
    let (retry, budget) := l.budget.reserve now p
    { l with retry := retry, budget := budget, failed := l.failed || retry.isNone }

/-- The lease's component counts as crashed. -/
def Lease.crashed (l : Lease) (out : Outside) : Bool :=
  l.external && !l.failed && l.retry.isNone && !out.childRunning l.logical &&
    decide (250 ≤ out.now - l.started)

/-- One lease of a tick. -/
def supervise (out : Outside) (again : KProg Unit) (restart : String → Option RestartPolicy)
    (l : Lease) : KProg Lease :=
  if !l.external || l.failed then pure l
  else
    match l.retry with
    | some due => if out.now < due then pure l else restartLease out again l
    | none =>
      if l.crashed out then do
        let _ ← disposePlugin again l.logical
        pure (l.charged out.now (restart l.logical))
      else pure l

def superviseAll (out : Outside) (again : KProg Unit) : List String → Svc → KProg Svc
  | [], s => pure s
  | key :: keys, s =>
    match s.leases.get key with
    | none => superviseAll out again keys s
    | some l => do
      let l' ← supervise out again s.restart l
      superviseAll out again keys { s with leases := s.leases.put key l' }

def tick (out : Outside) (again : KProg Unit) (s : Svc) : KProg Svc := do
  let s ← retireAll out again (s.tokensOf fun l => decide (l.deadline ≤ out.now)) s
  superviseAll out again (s.tokensOf fun _ => true) s

inductive SvcOp where
  | activate (principal logical : String) (ttlMs : Nat)
  | renew (principal token : String) (fence ttlMs : Nat)
  | renewSeq (principal token : String) (fence seq ttlMs : Nat)
  | release (principal token : String) (fence : Nat)
  | grant (principal : String) (g : Grant)
  | revoke (principal : String)
  | tick

/-- The service state an operation leaves. -/
def SvcOp.code (out : Outside) (again : KProg Unit) (s : Svc) : SvcOp → KProg Svc
  | .activate principal logical ttlMs => do
    pure (← RuntimeService.activate out again principal logical ttlMs s).2
  | .renew principal token fence ttlMs =>
    pure (RuntimeService.renew out principal token fence ttlMs s).2
  | .renewSeq principal token fence seq ttlMs =>
    pure (RuntimeService.renewSeq out principal token fence seq ttlMs s).2
  | .release principal token fence => do
    pure (← RuntimeService.release out again principal token fence s).2
  | .grant principal g => pure (RuntimeService.grant out principal g s).2
  | .revoke principal => do pure (← RuntimeService.revoke out again principal s).2
  | .tick => RuntimeService.tick out again s

/-- A service that was just opened. -/
def Svc.opened (grants : Table String Grant) (revoked : List String) (db : Db)
    (restart : String → Option RestartPolicy) : Svc where
  leases := .empty
  grants := grants
  revoked := revoked
  db := db
  restart := restart
  issued := []

end MatrixRuntime.RuntimeService
