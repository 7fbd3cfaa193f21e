import Mathlib.Data.List.Basic
import MatrixRuntime.KernelContexts
import MatrixRuntime.JsonValue

/-! Admission tickets and the ledger of committed effects. The table keeps its
tickets in the order it issued them, which is the order of their ids. Instants
are milliseconds of the kernel's clock. -/

namespace MatrixRuntime.KernelTickets

open KernelContexts JsonValue

abbrev TicketId := Nat

abbrev ResourceHandle := Nat

def maxInflightCalls : Nat := 256

def maxEffects : Nat := 1024

inductive WithdrawPolicy where
  | drain
  | cancel
  deriving DecidableEq, Repr

structure CallPolicy where
  onWithdraw : WithdrawPolicy := .cancel
  drainMs : Nat := 0
  deriving DecidableEq, Repr

inductive TicketState where
  | admitted
  | committed
  | cancelled
  | expired
  deriving DecidableEq, Repr

def TicketState.asStr : TicketState → String
  | admitted => "Admitted"
  | committed => "Committed"
  | cancelled => "Cancelled"
  | expired => "Expired"

/-- The link of a dependency child to its parent and to the grant it was admitted under. -/
structure DepChild where
  parent : TicketId
  binding : String
  consumer : InstanceId
  session : String
  grantConsumer : String
  grantCap : String
  grantRev : Nat
  depth : Nat
  remotePeer : Option String
  deriving DecidableEq, Repr

structure TicketRecord where
  id : TicketId
  cap : String
  logical : String
  instanceId : InstanceId
  generation : Nat
  context : ContextId
  epoch : Nat
  policy : CallPolicy
  state : TicketState
  cancel : Bool
  pins : List ResourceHandle
  drainUntil : Option Nat
  cancelReason : Option String
  dep : Option DepChild
  deriving DecidableEq, Repr

def TicketRecord.isOpen (t : TicketRecord) : Bool := t.state = .admitted

structure CommittedEffect where
  seq : Nat
  ticket : TicketId
  logical : String
  instanceId : InstanceId
  generation : Nat
  kind : String
  payload : Json

structure CallsTable where
  nextTicket : TicketId
  nextEffect : Nat
  tickets : List TicketRecord
  effects : List CommittedEffect
  cleanupClaims : InstanceId → Bool
  issued : ∀ t ∈ tickets, t.id < nextTicket
  ordered : tickets.Pairwise fun a b => a.id < b.id

namespace CallsTable

def new : CallsTable where
  nextTicket := 1
  nextEffect := 1
  tickets := []
  effects := []
  cleanupClaims _ := false
  issued _ h := nomatch h
  ordered := .nil

def get (c : CallsTable) (id : TicketId) : Option TicketRecord :=
  c.tickets.find? fun t => decide (t.id = id)

/-- What `alloc` is told about the call. -/
structure Admission where
  cap : String
  logical : String
  instanceId : InstanceId
  generation : Nat
  context : ContextId
  epoch : Nat
  policy : CallPolicy
  pins : List ResourceHandle

def allocated (c : CallsTable) (a : Admission) : TicketRecord :=
  ⟨c.nextTicket, a.cap, a.logical, a.instanceId, a.generation, a.context, a.epoch, a.policy,
    .admitted, false, a.pins, none, none, none⟩

def alloc (c : CallsTable) (a : Admission) : TicketId × CallsTable :=
  (c.nextTicket,
    { c with
      nextTicket := c.nextTicket + 1
      tickets := c.tickets ++ [c.allocated a]
      issued := by
        intro t ht
        rcases List.mem_append.mp ht with ht | ht
        · exact Nat.lt_succ_of_lt (c.issued t ht)
        · rw [List.mem_singleton.mp ht]
          exact Nat.lt_succ_self _
      ordered := by
        refine List.pairwise_append.mpr ⟨c.ordered, List.pairwise_singleton _ _, ?_⟩
        intro a ha b hb
        rw [List.mem_singleton.mp hb]
        exact c.issued a ha })

/-- Change the tickets `sel` picks out by `f`, which may not renumber them. -/
def amend (c : CallsTable) (sel : TicketRecord → Bool) (f : TicketRecord → TicketRecord)
    (hf : ∀ t, (f t).id = t.id) : CallsTable :=
  { c with
    tickets := c.tickets.map fun t => if sel t then f t else t
    issued := by
      intro t ht
      obtain ⟨t₀, ht₀, rfl⟩ := List.mem_map.mp ht
      have := c.issued t₀ ht₀
      split_ifs
      · rwa [hf]
      · exact this
    ordered := by
      refine c.ordered.map _ fun a b h => ?_
      split_ifs <;> simpa only [hf] using h }

def setDepMeta (c : CallsTable) (id : TicketId) (dep : DepChild) : Bool × CallsTable :=
  ((c.get id).isSome,
    c.amend (fun t => t.id = id) (fun t => { t with dep := some dep }) fun _ => rfl)

def openChildrenOf (c : CallsTable) (parent : TicketId) : List TicketRecord :=
  c.tickets.filter fun t => t.dep.any (fun d => d.parent = parent) && t.isOpen

/-- The ticket after a revocation: marked and signalled, its execution not assumed over. -/
def revoked (reason : String) (t : TicketRecord) : TicketRecord :=
  { t with state := .cancelled, cancel := true, cancelReason := some reason }

/-- Revoke the open dependency children that `mine` picks out. -/
def revoke (c : CallsTable) (mine : DepChild → Bool) (reason : String) :
    List TicketRecord × CallsTable :=
  ((c.tickets.filter fun t => t.dep.any mine && t.isOpen).map (revoked reason),
    c.amend (fun t => t.dep.any mine && t.isOpen) (revoked reason) fun _ => rfl)

def revokeDescendants (c : CallsTable) (parent : TicketId) (reason : String) :
    List TicketRecord × CallsTable :=
  c.revoke (fun d => d.parent = parent) reason

def revokeChildrenOfConsumer (c : CallsTable) (consumer : InstanceId) (reason : String) :
    List TicketRecord × CallsTable :=
  c.revoke (fun d => d.consumer = consumer) reason

def revokeGrantChildren (c : CallsTable) (consumer cap : String) (keepRev : Option Nat)
    (reason : String) : List TicketRecord × CallsTable :=
  c.revoke (fun d => d.grantConsumer = consumer && d.grantCap = cap && some d.grantRev ≠ keepRev)
    reason

/-- Change ticket `id` by `f` if it is still admitted; says whether it was. -/
def ifAdmitted (c : CallsTable) (id : TicketId) (f : TicketRecord → TicketRecord)
    (hf : ∀ t, (f t).id = t.id) : Bool × CallsTable :=
  ((c.get id).any (·.isOpen), c.amend (fun t => t.id = id && t.isOpen) f hf)

def markCommittedIfAdmitted (c : CallsTable) (id : TicketId) : Bool × CallsTable :=
  c.ifAdmitted id (fun t => { t with state := .committed }) fun _ => rfl

def expired (reason : String) (t : TicketRecord) : TicketRecord :=
  { t with state := .expired, cancel := true, cancelReason := some reason }

def expireTicket (c : CallsTable) (id : TicketId) : Bool × CallsTable :=
  c.ifAdmitted id (expired "deadline-exceeded") fun _ => rfl

def cancel (c : CallsTable) (id : TicketId) (reason : String) : Bool × CallsTable :=
  c.ifAdmitted id (revoked reason) fun _ => rfl

def setState (c : CallsTable) (id : TicketId) (state : TicketState) : Bool × CallsTable :=
  ((c.get id).isSome,
    c.amend (fun t => t.id = id) (fun t => { t with state := state }) fun _ => rfl)

def setDrainUntil (c : CallsTable) (id : TicketId) (instant : Nat) : Bool × CallsTable :=
  ((c.get id).isSome,
    c.amend (fun t => t.id = id && t.isOpen) (fun t => { t with drainUntil := some instant })
      fun _ => rfl)

def overdue (now : Nat) (t : TicketRecord) : Bool :=
  t.isOpen && t.drainUntil.any fun u => decide (u ≤ now)

def expireOverdue (c : CallsTable) (now : Nat) : List TicketId × CallsTable :=
  ((c.tickets.filter (overdue now)).map (·.id),
    c.amend (overdue now) (expired "drain-exceeded") fun _ => rfl)

def remove (c : CallsTable) (id : TicketId) : Option TicketRecord × CallsTable :=
  (c.get id,
    { c with
      tickets := c.tickets.filter fun t => decide (t.id ≠ id)
      issued := fun t ht => c.issued t (List.mem_of_mem_filter ht)
      ordered := c.ordered.filter _ })

def pendingFor (c : CallsTable) (inst : InstanceId) : List TicketRecord :=
  c.tickets.filter fun t => t.instanceId = inst

def pendingCount (c : CallsTable) (inst : InstanceId) : Nat := (c.pendingFor inst).length

def inflightCount (c : CallsTable) : Nat := c.tickets.length

def pushEffect (c : CallsTable) (ticket : TicketId) (logical : String) (inst : InstanceId)
    (generation : Nat) (kind : String) (payload : Json) : CommittedEffect × CallsTable :=
  let e : CommittedEffect := ⟨c.nextEffect, ticket, logical, inst, generation, kind, payload⟩
  let ring := c.effects ++ [e]
  (e, { c with nextEffect := c.nextEffect + 1, effects := ring.drop (ring.length - maxEffects) })

def tryClaimCleanup (c : CallsTable) (inst : InstanceId) : Bool × CallsTable :=
  (!c.cleanupClaims inst, { c with cleanupClaims := Function.update c.cleanupClaims inst true })

def releaseCleanupClaim (c : CallsTable) (inst : InstanceId) : CallsTable :=
  { c with cleanupClaims := Function.update c.cleanupClaims inst false }

variable {t : TicketRecord}

private theorem find_id {l : List TicketRecord} (ordered : l.Pairwise fun a b => a.id < b.id)
    {t : TicketRecord} (ht : t ∈ l) : l.find? (fun u => decide (u.id = t.id)) = some t := by
  induction l with
  | nil => cases ht
  | cons a l ih =>
    obtain ⟨ha, hl⟩ := List.pairwise_cons.mp ordered
    rcases List.mem_cons.mp ht with rfl | ht
    · simp
    · have : a.id ≠ t.id := Nat.ne_of_lt (ha t ht)
      rw [List.find?_cons_of_neg (by simpa using this)]
      exact ih hl ht

variable {c : CallsTable} {id : TicketId}

theorem get_eq_some :
    c.get id = some t ↔ t ∈ c.tickets ∧ t.id = id := by
  constructor
  · intro h
    exact ⟨List.mem_of_find?_eq_some h, by simpa using List.find?_some h⟩
  · rintro ⟨ht, rfl⟩
    exact find_id c.ordered ht

theorem get_id (h : c.get id = some t) :
    t.id = id := (get_eq_some.mp h).2

theorem get_of_mem (h : t ∈ c.tickets) :
    c.get t.id = some t := get_eq_some.mpr ⟨h, rfl⟩

theorem get_lt (h : c.get id = some t) :
    id < c.nextTicket := by
  obtain ⟨ht, rfl⟩ := get_eq_some.mp h
  exact c.issued t ht

theorem get_nextTicket (c : CallsTable) : c.get c.nextTicket = none := by
  cases h : c.get c.nextTicket with
  | none => rfl
  | some t => exact absurd (get_lt h) (Nat.lt_irrefl _)

theorem amend_get (c : CallsTable) (sel : TicketRecord → Bool) (f : TicketRecord → TicketRecord)
    (hf : ∀ t, (f t).id = t.id) (id : TicketId) :
    (c.amend sel f hf).get id = (c.get id).map fun t => if sel t then f t else t := by
  have hid : (fun t => decide (t.id = id)) ∘ (fun t => if sel t then f t else t) =
      fun t : TicketRecord => decide (t.id = id) := by
    funext t
    by_cases h : sel t <;> simp [h, hf]
  simp only [get, amend, List.find?_map, hid]

theorem alloc_get (c : CallsTable) (a : Admission) (id : TicketId) :
    (c.alloc a).2.get id = if id = c.nextTicket then some (c.allocated a) else c.get id := by
  simp only [get, alloc, List.find?_append]
  split_ifs with h
  · subst h
    rw [show List.find? _ c.tickets = none from c.get_nextTicket]
    simp [allocated]
  · have : ¬ (c.allocated a).id = id := fun e => h e.symm
    simp [this]

theorem remove_get (c : CallsTable) (id j : TicketId) :
    (c.remove id).2.get j = if j = id then none else c.get j := by
  simp only [get, remove, List.find?_filter]
  split_ifs with h
  · subst h
    rw [List.find?_eq_none]
    simp
  · congr 1
    funext t
    by_cases hj : t.id = j
    · simp [hj, h]
    · simp [hj]

theorem pendingCount_eq_zero {inst : InstanceId} :
    c.pendingCount inst = 0 ↔ ∀ id t, c.get id = some t → t.instanceId ≠ inst := by
  simp only [pendingCount, pendingFor, List.length_eq_zero_iff, List.filter_eq_nil_iff,
    decide_eq_true_eq]
  constructor
  · intro h id t ht
    exact h t (get_eq_some.mp ht).1
  · intro h t ht
    exact h t.id t (get_of_mem ht)

end CallsTable

end MatrixRuntime.KernelTickets
