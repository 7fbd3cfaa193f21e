import Mathlib.Tactic.SplitIfs

/-! One round of a route controller's link: it opens a session to the executor, obtains a lease,
waits for the provider and registers it. -/

namespace MatrixRuntime.AttachRound

structure RouteLease where
  token : String
  fence : Nat
  ttlMs : Nat
  seq : Nat

/-- What a round meets, step by step. A status says whether the provider is ready and what instance
and generation it names; the deadline has passed after the last of them. -/
structure Answers where
  closed : Bool
  clientConfig : Except String Unit
  connect : Except String (List String)
  routeProvider : Option String
  leaseStatus : String → Except String Bool
  activate : String → Nat → Except String (Option String × Option Nat)
  statuses : List (Except String (Bool × Option (Nat × Nat)))
  reconcileLink : Except String Unit
  registerRemoteProvider : String → Nat × Nat → Except String Unit

inductive Session where
  | unopened
  | live
  | shut
  deriving DecidableEq

/-- The round's session, the link's lease, and the leases that the executor activated and that were
given back in the round. An activation's answer may lack its token. -/
structure World where
  session : Session := .unopened
  lease : Option RouteLease
  activated : List (Option String) := []
  released : List String := []

def activateProvider (a : Answers) (provider : String) (ttlMs : Nat) (w : World) :
    Except String (String × Nat) × World :=
  match a.activate provider ttlMs with
  | .error e => (.error ("activate: " ++ e), w)
  | .ok (token, fence) =>
    let w := { w with activated := token :: w.activated }
    match token, fence with
    | none, _ => (.error "activate without lease", w)
    | some _, none => (.error "activate without fence", w)
    | some token, some fence => (.ok (token, fence), w)

/-- A lease of an earlier round is used again while it is ready. -/
def obtainLease (a : Answers) (provider : String) (ttlMs : Nat) (w : World) :
    Except String (String × Nat) × World :=
  match w.lease with
  | none => activateProvider a provider ttlMs w
  | some l =>
    match a.leaseStatus l.token with
    | .ok true => (.ok (l.token, l.fence), w)
    | _ => activateProvider a provider ttlMs w

/-- Nothing when the deadline passes first. -/
def awaitReady : List (Except String (Bool × Option (Nat × Nat))) →
    Except String (Option (Nat × Nat))
  | [] => .ok none
  | .error e :: _ => .error ("status: " ++ e)
  | .ok (true, some attested) :: _ => .ok (some attested)
  | .ok _ :: statuses => awaitReady statuses

/-- The round once its session is open. -/
def attach (a : Answers) (ttlMs : Nat) (w : World) : Except String Unit × World :=
  match a.routeProvider with
  | none => (.error "no route for peer", w)
  | some provider =>
    match obtainLease a provider ttlMs w with
    | (.error e, w) => (.error e, w)
    | (.ok (token, fence), w) =>
      match awaitReady a.statuses with
      | .error e => (.error e, w)
      | .ok none =>
        (.error "executor provider never ready", { w with released := token :: w.released })
      | .ok (some attested) =>
        let w := { w with lease := some ⟨token, fence, ttlMs, 0⟩ }
        match a.reconcileLink with
        | .error e => (.error e, w)
        | .ok _ =>
          match a.registerRemoteProvider provider attested with
          | .error e => (.error ("register: " ++ e), w)
          | .ok _ => (.ok (), w)

def attachRound (a : Answers) (leaseTtlMs : Nat) (lease : Option RouteLease) :
    Except String Unit × World :=
  if a.closed then (.error "closed", { lease })
  else match a.clientConfig with
    | .error e => (.error e, { lease })
    | .ok _ =>
      match a.connect with
      | .error e => (.error ("connect: " ++ e), { lease })
      | .ok features =>
        if "remote-calls/1" ∈ features then
          attach a (max 100 (min leaseTtlMs 30000)) { lease, session := .live }
        else (.error "executor lacks remote-calls/1", { lease, session := .shut })

/-! ### What a failed round leaves behind -/

variable (a : Answers) (provider : String) (ttlMs : Nat) (w : World)

theorem activateProvider_session : (activateProvider a provider ttlMs w).2.session = w.session := by
  unfold activateProvider
  cases a.activate provider ttlMs with
  | error e => rfl
  | ok answer =>
    obtain ⟨token, fence⟩ := answer
    cases token <;> cases fence <;> rfl

theorem obtainLease_session : (obtainLease a provider ttlMs w).2.session = w.session := by
  unfold obtainLease
  split
  · exact activateProvider_session ..
  · split
    · rfl
    · exact activateProvider_session ..

/-- Nothing after the session is kept shuts it down. -/
theorem attach_session : (attach a ttlMs w).2.session = w.session := by
  unfold attach
  cases a.routeProvider with
  | none => rfl
  | some provider =>
    have same := obtainLease_session a provider ttlMs w
    simp only
    generalize obtainLease a provider ttlMs w = lent at same ⊢
    obtain ⟨_ | ⟨token, fence⟩, w'⟩ := lent
    · exact same
    cases awaitReady a.statuses with
    | error e => exact same
    | ok attested =>
      cases attested with
      | none => exact same
      | some attested =>
        cases a.reconcileLink with
        | error e => exact same
        | ok _ =>
          simp only
          cases a.registerRemoteProvider provider attested <;> exact same

/-- The round's session is shut down, and a lease it activated is remembered or released. -/
def Clean (w : World) : Prop :=
  w.session ≠ .live ∧ ∀ token ∈ w.activated, ∃ known, token = some known ∧
    (w.lease.map (·.token) = some known ∨ known ∈ w.released)

/-- The round opens a session to an executor that serves calls. -/
def Opens (a : Answers) : Prop :=
  a.closed = false ∧ a.clientConfig = .ok () ∧
    ∃ features, a.connect = .ok features ∧ "remote-calls/1" ∈ features

end MatrixRuntime.AttachRound
