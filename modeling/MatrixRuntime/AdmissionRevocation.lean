import MatrixRuntime.AdmissionLock
import MatrixRuntime.RevocationPayments

/-! Admission against revocation. An admission returns a child only after it has seen,
with the child registered, the parent, the consumer, the provider and the grant; from
then on whoever takes one of them away owes the child's revocation. So when nothing
runs, an open child that was returned has them all. -/

namespace MatrixRuntime.AdmissionRevocation

open KernelContexts KernelTickets KernelState KernelActions KernelCalls
open DependencyAdmission KernelOperations InterleavedMachine
open TicketFrame TicketCounts TraceMarks ContextFrame AdmissionLock CallFrame RevocationDebts
open RevocationPayments Function
open ContextOrder (inOrder run_inOrder)

variable {depth : Nat} {o : KObs depth} {id : TicketId} {d : DepChild}
  {label : KLabel depth} {t : TicketRecord} {ds : Nat → Dues} {old : KState}

def issues {β : Type} : KAct β → β → TicketId → Prop
  | .calls (.alloc _), b, id => b = id
  | _, _, _ => False

/-- The thread registered this ticket. -/
def issued : Mark KAct TicketId := .ever issues

def reserves {β : Type} : KAct β → β → Unit → Prop
  | .reserve _ _, .ok _, _ => True
  | _, _, _ => False

def gives {β : Type} : KAct β → β → Unit → Prop
  | .release _, _, _ => True
  | _, _, _ => False

/-- The thread has a reservation that it has not given back. -/
def reservation : Mark KAct Unit := ⟨reserves, gives⟩

/-! ### An admission under the lock -/

section Admission

variable {s : Place} {reserved : Bool} {known : List (TicketId × InstanceId)} {α β : Type}
  {a : KAct β} {p : KProg α} {req : DepAdmit} {v : Validated} {call : CallsTable.Admission}
  {seen : Set Clause}

/-- A look changes nothing but what is known. -/
theorem look_next (ha : inspecting β a) (clear : s.dues = .clear) (held : s.adm.held = true) :
    s.allows a ∧ ∀ b, (s.next a b).dues = .clear ∧ s.listed ⊆ (s.next a b).listed ∧
      ((s.next a b).adm = s.adm ∨
        (s.next a b).adm = { s.adm with child := s.adm.child.map (Child.sees a b) }) := by
  obtain ⟨due, listed, adm⟩ := s
  cases clear
  cases a with
  | ctx c =>
    cases c with
    | current => exact ⟨trivial, fun _ => ⟨rfl, List.Subset.refl _, .inr (if_pos held)⟩⟩
    | _ => first | exact ha.elim | exact ⟨trivial, fun _ => ⟨rfl, List.Subset.refl _, .inl rfl⟩⟩
  | calls c =>
    cases c with
    | get id =>
      refine ⟨trivial, fun t => ⟨rfl, ?_, .inr (if_pos held)⟩⟩
      cases t with
      | none => exact List.Subset.refl _
      | some t => exact List.subset_cons_self ..
    | _ => first | exact ha.elim | exact ⟨trivial, fun _ => ⟨rfl, List.Subset.refl _, .inl rfl⟩⟩
  | grant c =>
    cases c with
    | grant => exact ⟨trivial, fun _ => ⟨rfl, List.Subset.refl _, .inr (if_pos held)⟩⟩
    | _ => exact ha.elim
  | reserve | release | lockAdmit | unlockAdmit => exact ha.elim
  | _ => exact ⟨trivial, fun _ => ⟨rfl, List.Subset.refl _, .inl rfl⟩⟩

/-- The lock is held, nothing is registered and these tickets are known. -/
structure Ready (reserved : Bool) (known : List (TicketId × InstanceId)) (s : Place) : Prop where
  dues : s.dues = .clear
  adm : s.adm = ⟨true, true, reserved, none⟩
  listed : known ⊆ s.listed

theorem Ready.look (h : Ready reserved known s) (ha : inspecting β a) :
    s.allows a ∧ ∀ b, Ready reserved known (s.next a b) := by
  obtain ⟨allows, next⟩ := look_next ha h.dues (by rw [h.adm])
  refine ⟨allows, fun b => ?_⟩
  obtain ⟨dues, more, adm⟩ := next b
  refine ⟨dues, ?_, List.Subset.trans h.listed more⟩
  rcases adm with adm | adm
  all_goals
    rw [adm, h.adm]
    try rfl

theorem Ready.follows (h : Ready reserved known s) (hp : Inspects p) :
    (payments depth).Follows p (fun _ => Ready reserved known) s :=
  .within hp (fun _ _ _ ha h => h.look ha) (fun _ _ _ none => none.elim) h

/-- A parent that passes the validation runs as the caller. -/
theorem validate_follows (h : Ready false [] s) :
    (payments depth).Follows (validate req) (fun r s => Ready false [] s ∧
      ∀ v, r = .ok v → (req.parent, req.callerInstance) ∈ s.listed) s := by
  have denied : ∀ {s : Place} {known}, Ready false known s → ∀ e : DepDeny, Ready false [] s ∧
      ∀ v : Validated, (Except.error e : Except DepDeny Validated) = .ok v →
        (req.parent, req.callerInstance) ∈ s.listed :=
    fun h _ => ⟨⟨h.dues, h.adm, List.nil_subset _⟩, fun _ ok => by cases ok⟩
  refine .act trivial fun parent => ?_
  have ready := (h.look (a := .calls (.get req.parent)) trivial).2 parent
  cases parent with
  | none => exact denied ready _
  | some parent =>
    change (payments depth).Follows (if _ then _ else if _ then _ else _) _ _
    split_ifs with _ owner
    · exact denied ready _
    · exact denied ready _
    have ready : Ready false [(req.parent, req.callerInstance)]
        (s.next (KAct.calls (.get req.parent)) (some parent)) := by
      refine ⟨ready.dues, ready.adm, List.cons_subset.mpr ⟨?_, List.nil_subset _⟩⟩
      have same : parent.instanceId = req.callerInstance := by
        by_contra other
        exact owner (.inr (.inl other))
      exact same ▸ List.mem_cons_self ..
    refine .act trivial fun b => ?_
    have ready := (ready.look (a := .comp (.binding req.binding)) trivial).2 b
    cases b with
    | none => exact denied ready _
    | some b =>
      change (payments depth).Follows (if _ then _ else _) _ _
      split_ifs
      · exact denied ready _
      · exact (ready.follows (validateBound_inspects req parent b)).mono fun _ s ready =>
          ⟨⟨ready.dues, ready.adm, List.nil_subset _⟩, fun _ _ =>
            ready.listed (List.mem_singleton_self _)⟩

/-- The child is registered and linked, and these clauses were seen. -/
structure Checked (id : TicketId) (call : CallsTable.Admission) (d : DepChild)
    (seen : Set Clause) (s : Place) : Prop where
  dues : s.dues = .clear
  child : ∃ earlier sure, s.adm = ⟨true, true, true, some ⟨id, call, earlier, some d, sure⟩⟩ ∧
    seen ⊆ sure

theorem Checked.held (h : Checked id call d seen s) : s.adm.held = true := by
  obtain ⟨_, _, adm, -⟩ := h.child
  rw [adm]

theorem Checked.look (h : Checked id call d seen s) (ha : inspecting β a) :
    s.allows a ∧ ∀ b, Checked id call d seen (s.next a b) := by
  obtain ⟨allows, next⟩ := look_next ha h.dues h.held
  refine ⟨allows, fun b => ?_⟩
  obtain ⟨dues, -, adm⟩ := next b
  obtain ⟨earlier, sure, before, known⟩ := h.child
  rw [before] at adm
  rcases adm with adm | adm
  · exact ⟨dues, earlier, sure, adm, known⟩
  · exact ⟨dues, earlier, _, adm, known.trans Set.subset_union_left⟩

/-- What a look shows is known from then on. -/
theorem Checked.shown (h : Checked id call d seen s) {b : β} {k : Clause}
    (next : (s.next a b).dues = .clear ∧ (s.next a b).adm = s.adm.sees a b)
    (shows : ∀ earlier sure, Child.shows ⟨id, call, earlier, some d, sure⟩ a b k) :
    Checked id call d (insert k seen) (s.next a b) := by
  obtain ⟨earlier, sure, adm, known⟩ := h.child
  refine ⟨next.1, earlier, _, next.2.trans (by rw [adm]; rfl), ?_⟩
  exact Set.insert_subset (.inr (shows earlier sure)) (known.trans Set.subset_union_left)

theorem Checked.weaken {fewer : Set Clause} (h : Checked id call d seen s) (sub : fewer ⊆ seen) :
    Checked id call d fewer s := by
  obtain ⟨earlier, sure, adm, known⟩ := h.child
  exact ⟨h.dues, earlier, sure, adm, sub.trans known⟩

theorem providerStillLive_follows (logical : call.logical = v.binding.providerLogical)
    (inst : call.instanceId = v.binding.providerInstance)
    (h : Checked id call (childMeta req v) {k | k = .provider ∧ v.remotePeer ≠ none} s) :
    (payments depth).Follows (providerStillLive v)
      (fun live => Checked id call (childMeta req v) {k | k = .provider ∧ live = true}) s := by
  unfold providerStillLive
  cases peer : v.remotePeer with
  | some peer =>
    refine .mono (.within (remoteLive_inspects ..) (fun _ _ _ ha h => h.look ha)
      (fun _ _ _ none => none.elim) h) fun live s h => h.weaken ?_
    rintro _ ⟨rfl, -⟩
    exact ⟨rfl, by simp [peer]⟩
  | none =>
    refine .act trivial fun cur => ?_
    by_cases live : runs v.binding.providerInstance cur
    · refine (h.shown (a := .ctx (.current v.binding.providerLogical)) (b := cur) (k := .provider)
        ⟨h.dues, rfl⟩ fun _ _ => ?_).weaken ?_
      · exact ⟨Option.some_ne_none _, logical, inst ▸ live⟩
      · rintro _ ⟨rfl, -⟩
        exact .inl rfl
    · refine ((h.look (a := .ctx (.current v.binding.providerLogical)) trivial).2 cur).weaken ?_
      rintro _ ⟨-, now⟩
      exact absurd now live

theorem stillValid_follows (logical : call.logical = v.binding.providerLogical)
    (inst : call.instanceId = v.binding.providerInstance)
    (h : Checked id call (childMeta req v) {k | k = .provider ∧ v.remotePeer ≠ none} s) :
    (payments depth).Follows (stillValid req v) (fun valid s => ∃ seen,
      Checked id call (childMeta req v) seen s ∧ (valid = true → ∀ k, k ∈ seen)) s := by
  refine (providerStillLive_follows logical inst h).bind fun live s h =>
    .act trivial fun parent => ?_
  change (payments depth).Follows (if _ then _ else _) _ _
  split
  case isFalse =>
    exact ⟨_, (h.look (a := .calls (.get req.parent)) trivial).2 parent, fun no => by cases no⟩
  rename_i isOpen
  have h := h.shown (a := .calls (.get req.parent)) (b := parent) (k := .parent) ⟨h.dues, rfl⟩
    fun _ _ => ⟨_, rfl, rfl, isOpen⟩
  refine .act trivial fun cur => ?_
  change (payments depth).Follows (if _ then _ else _) _ _
  split
  case isFalse =>
    exact ⟨_, (h.look (a := .ctx (.current req.callerLogical)) trivial).2 cur,
      fun no => by cases no⟩
  rename_i active
  have h := h.shown (a := .ctx (.current req.callerLogical)) (b := cur) (k := .consumer)
    ⟨h.dues, rfl⟩ fun _ _ => ⟨_, rfl, rfl, active⟩
  split
  case isFalse => exact ⟨_, h, fun no => by cases no⟩
  rename_i provider
  refine .act trivial fun rev => ?_
  by_cases granted : rev = some v.rev
  · have h := h.shown (a := .grant (.grant req.callerLogical v.binding.capability)) (b := rev)
      (k := .grant) ⟨h.dues, rfl⟩ fun _ _ => ⟨_, rfl, rfl, rfl, granted⟩
    refine ⟨_, h, fun _ k => ?_⟩
    cases k <;> simp [provider]
  · exact ⟨_, (h.look (a := .grant (.grant req.callerLogical v.binding.capability)) trivial).2 rev,
      fun valid => absurd (of_decide_eq_true valid) granted⟩

/-- The ticket is taken back, and the reservation given up. -/
theorem rollback_follows (h : Checked id call d seen s) :
    (payments depth).Follows (rollback req id)
      (fun _ s => s.dues = .clear ∧ s.adm = ⟨true, true, false, none⟩) s := by
  obtain ⟨due, listed, adm⟩ := s
  obtain ⟨⟨⟩, earlier, sure, ⟨⟩, -⟩ := h
  refine .act ⟨_, rfl, rfl, rfl⟩ fun removed => .act trivial fun _ => ?_
  cases removed <;> exact ⟨rfl, rfl⟩

/-- The lock is still held, and the answer is right. -/
def Answering (r : Except DepDeny TicketId) (s : Place) : Prop :=
  s.dues = .clear ∧ s.adm.held = true ∧ s.answers r

theorem registerChild_follows (h : Ready true [(req.parent, req.callerInstance)] s) :
    (payments depth).Follows (registerChild req v) Answering s := by
  obtain ⟨due, listed, adm⟩ := s
  obtain ⟨⟨⟩, ⟨⟩, known⟩ := h
  refine .act trivial fun now => .act trivial fun epoch => .act (fun _ => ⟨rfl, rfl⟩) fun id =>
    .act trivial fun _ => .act ⟨_, ⟨rfl, rfl, rfl⟩, rfl, rfl, known (List.mem_singleton_self _)⟩
      fun attached => ?_
  generalize linked : (payments depth).next _ _ attached = s
  have checked : Checked id ⟨v.binding.capability, v.binding.providerLogical,
      v.binding.providerInstance, v.binding.providerGeneration, v.ticketContext, epoch, {}, []⟩
      (childMeta req v) {k | k = .provider ∧ v.remotePeer ≠ none} s := by
    subst linked
    exact ⟨rfl, listed, _, rfl, subset_rfl⟩
  have undone : ∀ {s : Place} (e : DepDeny), s.dues = .clear ∧ s.adm = ⟨true, true, false, none⟩ →
      Answering (.error e) s := by
    rintro ⟨due, listed, adm⟩ e ⟨⟨⟩, ⟨⟩⟩
    exact ⟨rfl, rfl, rfl, rfl, rfl⟩
  change (payments depth).Follows (if _ then _ else _) _ _
  split
  · refine (stillValid_follows rfl rfl checked).bind fun valid s h => ?_
    obtain ⟨seen, h, all⟩ := h
    change (payments depth).Follows (if _ then _ else _) _ _
    split
    · rename_i hvalid
      obtain ⟨dues, earlier, sure, adm, sub⟩ := h
      obtain ⟨due, listed, _⟩ := s
      cases dues
      cases adm
      exact .act trivial fun _ => ⟨rfl, rfl, _, rfl, rfl, fun k => sub (all hvalid k)⟩
    · exact (rollback_follows h).bind fun _ s h => .act trivial fun _ => undone _ h
  · exact (rollback_follows checked).bind fun _ s h => undone _ h

theorem dependencyAdmit_follows (req : DepAdmit) :
    (payments depth).Follows (dependencyAdmit req)
      (fun r s => s.dues = .clear ∧ s.answers r)
      { adm := { admits := true } } := by
  unfold dependencyAdmit
  split_ifs
  · exact ⟨rfl, rfl, rfl, rfl⟩
  · exact ⟨rfl, rfl, rfl, rfl⟩
  refine .act rfl fun _ => ?_
  have body : (payments depth).Follows (admitLocked req) Answering
      { adm := ⟨true, true, false, none⟩ } := by
    refine (validate_follows ⟨rfl, rfl, List.nil_subset _⟩).bind fun r s h => ?_
    obtain ⟨due, listed, adm⟩ := s
    obtain ⟨⟨⟨⟩, ⟨⟩, -⟩, known⟩ := h
    cases r with
    | error e => exact ⟨rfl, rfl, rfl, rfl, rfl⟩
    | ok v =>
      refine .act trivial fun r => ?_
      cases r with
      | error reason => exact ⟨rfl, rfl, rfl, rfl, rfl⟩
      | ok u =>
        exact registerChild_follows
          ⟨rfl, rfl, List.cons_subset.mpr ⟨known v rfl, List.nil_subset _⟩⟩
  refine body.bind fun r s h => ?_
  obtain ⟨dues, held, answers⟩ := h
  refine .act held fun _ => ⟨dues, ?_⟩
  cases r <;> exact answers

end Admission

/-- Every operation follows the protocol. -/
theorem code_follows (op : Op) : (payments depth).Follows ((kernel depth).code op)
    ((payments depth).leaves op) ((payments depth).enter op) := by
  by_cases admission : ∃ req, op = .dependencyAdmit req
  · obtain ⟨req, rfl⟩ := admission
    refine (dependencyAdmit_follows req).bind fun r s h => ⟨h.1, ?_⟩
    rintro _ _ _ ⟨⟩
    exact h.2
  · have other : ∀ req, op ≠ .dependencyAdmit req := fun req same => admission ⟨req, same⟩
    have plain : (payments depth).enter op = {} := by
      cases op <;> first | rfl | exact absurd rfl (other _)
    refine (operation_pays other depth _ (plain ▸ ⟨rfl, rfl⟩)).mono fun res s h => ?_
    exact ⟨h.dues, fun req _ same => absurd same (other req)⟩

/-! ### What holds of a thread -/

/-- Ticket `id` is out of the table for good. -/
structure Gone (id : TicketId) (s : KState) : Prop where
  issued : id < s.calls.nextTicket
  absent : s.calls.get id = none

/-- The ticket is or was one for this instance. -/
structure Names (id : TicketId) (inst : InstanceId) (s : KState) : Prop where
  issued : id < s.calls.nextTicket
  owner : ∀ t, s.calls.get id = some t → t.instanceId = inst

/-- The child of a thread that holds the lock is as the thread left it. -/
structure Alone (c : Child) (s : KState) : Prop where
  issued : c.id < s.calls.nextTicket
  call : ∀ t, s.calls.get c.id = some t → t.logical = c.call.logical ∧
    t.instanceId = c.call.instanceId ∧ t.policy = c.call.policy
  link : ∀ t, s.calls.get c.id = some t → t.dep = c.link
  childless : Childless c.id s
  earlier : ∀ x ∈ c.earlier, x.1 < c.id ∧ Names x.1 x.2 s

/-- A child whose clause was seen stays backed. -/
structure Sure (ds : Nat → Dues) (s : KState) (id : TicketId) (k : Clause) : Prop where
  attached : Attached id s
  backed : Backed ds s id k

structure Holds (ds : Nat → Dues) (o : KObs depth) (i : Nat) (s : Place) : Prop where
  held : s.adm.held = true → holds.On i () o.trace
  listed : ∀ x ∈ s.listed, Names x.1 x.2 o.mem
  alone : ∀ c, s.adm.child = some c → s.adm.held = true → Alone c o.mem
  sure : ∀ c, s.adm.child = some c → ∀ k ∈ c.sure, Sure ds o.mem c.id k
  tickets : s.adm.admits = true → ∀ k, issued.During i k o.trace →
    (∃ c, s.adm.child = some c ∧ c.id = k) ∨ Gone k o.mem
  quota : s.adm.admits = true → reservation.During i () o.trace → s.adm.reserved = true

section Step

variable {ds ds' : Nat → Dues} {i j : Nat} {β : Type} {a : KAct β} {b : β} {mem : KState}
  {s s' : Place} {c : Child} {inst : InstanceId} {k : Clause}

theorem Gone.acted (h : Gone id old) (enabled : a.sem old = some (b, mem)) : Gone id mem := by
  refine ⟨lt_of_lt_of_le h.issued (issued_acted enabled), ?_⟩
  by_contra there
  obtain ⟨t', there⟩ := Option.ne_none_iff_exists'.mp there
  obtain ⟨t, found, -⟩ := origin_acted enabled there h.issued
  cases h.absent.symm.trans found

theorem Names.acted (h : Names id inst old) (enabled : a.sem old = some (b, mem)) :
    Names id inst mem := by
  refine ⟨lt_of_lt_of_le h.issued (issued_acted enabled), fun t' there => ?_⟩
  obtain ⟨t, found, same⟩ := origin_acted enabled there h.issued
  rw [same.instanceId]
  exact h.owner t found

theorem Sure.acted (h : Sure ds o.mem id k) (takes : Takes o ds ds' i a b mem) :
    Sure ds' mem id k :=
  ⟨attached_acted takes.guard takes.enabled h.attached, backed_acted takes h.attached h.backed⟩

/-- An action that attaches nothing leaves the child as it is. -/
theorem Alone.acted (h : Alone c old) (enabled : a.sem old = some (b, mem))
    (off : ∀ k, ¬ links k a) : Alone c mem := by
  refine ⟨lt_of_lt_of_le h.issued (issued_acted enabled), fun t' there => ?_, fun t' there => ?_,
    fun k t' d there dep => ?_,
    fun x mem => ⟨(h.earlier x mem).1, (h.earlier x mem).2.acted enabled⟩⟩
  · obtain ⟨t, found, same⟩ := origin_acted enabled there h.issued
    rw [same.logical, same.instanceId, same.policy]
    exact h.call t found
  · obtain ⟨t, found, dep⟩ := dep_acted enabled (off c.id) there h.issued
    rw [← dep]
    exact h.link t found
  · obtain ⟨t, found, -, before | now⟩ := child_acted enabled there dep
    · exact h.childless k t d found before
    · refine absurd ?_ (off k)
      cases a with
      | calls c => cases c <;> first | exact now.elim | exact now.1
      | _ => exact now.elim

theorem Alone.attached (h : Alone c old) (linked : c.link = some d) : Attached c.id old :=
  ⟨h.issued, fun t found => by rw [h.link t found, linked]; exact Option.some_ne_none d⟩

theorem Alone.meta {d' : DepChild} (h : Alone c old) (linked : c.link = some d)
    (link : OpenLink old.calls c.id t d') : d' = d :=
  Option.some.inj (link.dep.symm.trans ((h.link t link.get).trans linked))

theorem lists_named (enabled : a.sem o.mem = some (b, mem)) (x : TicketId × InstanceId)
    (h : x ∈ Place.lists a b s.listed) : x ∈ s.listed ∨ Names x.1 x.2 mem := by
  cases a with
  | calls c =>
    cases c with
    | pendingFor inst =>
      cases enabled
      obtain ⟨t, found, rfl⟩ := List.mem_map.mp h
      obtain ⟨found, owner⟩ := List.mem_filter.mp found
      refine .inr ⟨o.mem.calls.issued t found, fun t' there => ?_⟩
      cases (CallsTable.get_of_mem found).symm.trans there
      exact of_decide_eq_true owner
    | get id =>
      have reply : o.mem.calls.get id = b := by
        cases enabled
        rfl
      cases enabled
      rw [← reply] at h
      cases found : o.mem.calls.get id with
      | none =>
        rw [found] at h
        exact .inl h
      | some t =>
        rw [found] at h
        refine (List.mem_cons.mp h).symm.imp_right ?_
        rintro rfl
        refine ⟨CallsTable.get_lt found, fun t' there => ?_⟩
        cases found.symm.trans there
        rfl
    | _ => exact .inl h
  | _ => exact .inl h

/-- A step that registers, links and takes back nothing of the thread's keeps what it holds. -/
theorem Holds.keep (h : Holds ds o j s) (takes : Takes o ds ds' i a b mem)
    (listed : ∀ x ∈ s'.listed, x ∈ s.listed ∨ Names x.1 x.2 mem)
    (lock : s'.adm.held = true → holds.On j () (o.acted i a b mem).trace)
    (child : s'.adm.child = s.adm.child) (admits : s'.adm.admits = s.adm.admits)
    (held : ∀ c, s.adm.child = some c → s'.adm.held = true → s.adm.held = true ∧ ∀ k, ¬ links k a)
    (issue : s.adm.admits = true → ∀ k, issued.During j k (o.acted i a b mem).trace →
      issued.During j k o.trace)
    (quota : s.adm.admits = true → reservation.During j () (o.acted i a b mem).trace →
      s'.adm.reserved = true) : Holds ds' (o.acted i a b mem) j s' where
  held := lock
  listed x there := (listed x there).elim (fun there => (h.listed x there).acted takes.enabled)
    fun names => names
  alone c mine now := by
    rw [child] at mine
    obtain ⟨held, off⟩ := held c mine now
    exact (h.alone c mine held).acted takes.enabled off
  sure c mine k there := (h.sure c (child ▸ mine) k there).acted takes
  tickets now k there := by
    rw [child]
    rw [admits] at now
    exact (h.tickets now k (issue now k there)).imp_right fun gone => gone.acted takes.enabled
  quota now := quota (admits ▸ now)

/-- What a look shows of the child holds. -/
theorem shown_sure (alone : Alone c o.mem) (enabled : a.sem o.mem = some (b, mem))
    (shows : c.shows a b k) : Sure ds mem c.id k := by
  have of_link : ∀ {d}, c.link = some d → mem = o.mem →
      (∀ t, OpenLink o.mem.calls c.id t d → Backs ds o.mem c.id t d k) → Sure ds mem c.id k := by
    rintro d linked rfl backs
    refine ⟨alone.attached linked, fun t d' link => ?_⟩
    cases alone.meta linked link
    exact backs t link
  cases a with
  | calls e =>
    cases e with
    | get id =>
      cases k with
      | parent =>
        obtain ⟨d, linked, rfl, isOpen⟩ := shows
        cases enabled
        exact of_link linked rfl fun _ _ => .inl isOpen
      | _ => exact shows.elim
    | _ => exact shows.elim
  | ctx e =>
    cases e with
    | current logical =>
      cases k with
      | consumer =>
        obtain ⟨d, linked, rfl, active⟩ := shows
        cases enabled
        exact of_link linked rfl fun _ _ => .inl active
      | provider =>
        obtain ⟨linked, rfl, active⟩ := shows
        obtain ⟨d, linked⟩ := Option.ne_none_iff_exists'.mp linked
        cases enabled
        refine of_link linked rfl fun t link _ => .inl ?_
        obtain ⟨logical, inst, -⟩ := alone.call t link.get
        rw [logical, inst]
        exact active
      | _ => exact shows.elim
    | _ => exact shows.elim
  | grant e =>
    cases e with
    | grant consumer cap =>
      cases k with
      | grant =>
        obtain ⟨d, linked, rfl, rfl, same⟩ := shows
        cases enabled
        exact of_link linked rfl fun _ _ => .inl same
      | _ => exact shows.elim
    | _ => exact shows.elim
  | _ => exact shows.elim

/-- The lock is held from its taking to its release. -/
theorem held_next (mem : KState) (h : s.adm.held = true → holds.On i () o.trace)
    (now : (s.next a b).adm.held = true) : holds.On i () (o.acted i a b mem).trace := by
  have still : s.adm.held = true → ¬ unlocks a b () → holds.On i () (o.acted i a b mem).trace :=
    fun held off => holds_act.mpr (.inr ⟨h held, fun un => off un.2⟩)
  have sees : ∀ {γ : Type} (e : KAct γ) c, (s.adm.sees e c).held = s.adm.held := by
    intro γ e c
    unfold Registering.sees
    split <;> rfl
  cases a with
  | lockAdmit => exact holds_act.mpr (.inl ⟨rfl, trivial⟩)
  | unlockAdmit => cases now
  | reserve => cases b <;> exact still now fun un => un
  | ctx c =>
    cases c <;> first | exact still now fun un => un | exact still (sees .. ▸ now) fun un => un
  | grant c =>
    cases c <;> first | exact still now fun un => un | exact still (sees .. ▸ now) fun un => un
  | calls c =>
    cases c with
    | get => exact still (sees .. ▸ now) fun un => un
    | alloc call =>
      refine still ?_ fun un => un
      simp only [Place.next, Place.registers] at now
      split at now <;> exact now
    | remove remover => cases remover <;> exact still now fun un => un
    | _ => exact still now fun un => un
  | _ => exact still now fun un => un

/-- A look keeps what the thread holds and adds what it shows. -/
theorem Holds.look (h : Holds ds o i s) (takes : Takes o ds ds' i a b mem)
    (adm : (s.next a b).adm = s.adm.sees a b) (ha : inspecting β a) :
    Holds ds' (o.acted i a b mem) i (s.next a b) := by
  have off : ¬ unlocks a b () ∧ (∀ k, ¬ links k a) ∧ (∀ k, ¬ issues a b k) ∧ ¬ reserves a b () := by
    cases a with
    | calls c => cases c <;> first | exact ha.elim | exact ⟨id, fun _ => id, fun _ => id, id⟩
    | unlockAdmit | reserve => exact ha.elim
    | _ => exact ⟨id, fun _ => id, fun _ => id, id⟩
  obtain ⟨locked, off, issue, quota⟩ := off
  have kept : Holds ds' (o.acted i a b mem) i ⟨(s.next a b).dues, (s.next a b).listed, s.adm⟩ :=
    h.keep takes (lists_named takes.enabled)
      (fun held => holds_act.mpr (.inr ⟨h.held held, fun un => locked un.2⟩)) rfl rfl
      (fun _ _ held => ⟨held, off⟩)
      (fun _ k now => ((Mark.during_own.mp now).resolve_left (issue k)).1)
      fun admits now => h.quota admits ((Mark.during_own.mp now).resolve_left quota).1
  by_cases held : s.adm.held = true
  · have grown := adm.trans (if_pos held)
    refine ⟨held_next mem h.held, kept.listed, fun c' mine _ => ?_, fun c' mine k there => ?_,
      fun admits k now => ?_, ?_⟩
    · rw [grown] at mine
      obtain ⟨c, found, rfl⟩ := Option.map_eq_some_iff.mp mine
      have alone := kept.alone c found held
      exact ⟨alone.issued, alone.call, alone.link, alone.childless, alone.earlier⟩
    · rw [grown] at mine
      obtain ⟨c, found, rfl⟩ := Option.map_eq_some_iff.mp mine
      exact there.elim (kept.sure c found k) (shown_sure (h.alone c found held) takes.enabled)
    · rw [grown] at admits ⊢
      refine (kept.tickets admits k now).imp_left ?_
      rintro ⟨c, mine, rfl⟩
      exact ⟨_, Option.map_eq_some_iff.mpr ⟨c, mine, rfl⟩, rfl⟩
    · rw [grown]
      exact kept.quota
  · have same := adm.trans (if_neg held)
    exact ⟨same ▸ kept.held, kept.listed, same ▸ kept.alone, same ▸ kept.sure,
      same ▸ kept.tickets, same ▸ kept.quota⟩

theorem Alone.allocated (linked : Linked o.mem) (call : CallsTable.Admission)
    {known : List (TicketId × InstanceId)} (names : ∀ x ∈ known, Names x.1 x.2 o.mem)
    (enabled : (KAct.calls (.alloc call)).sem o.mem = some (id, mem)) :
    Alone ⟨id, call, known, none, ∅⟩ mem := by
  have later : ∀ x ∈ known, Names x.1 x.2 mem := fun x there => (names x there).acted enabled
  cases enabled
  have get : ∀ t, (o.mem.calls.alloc call).2.get o.mem.calls.nextTicket = some t →
      t = o.mem.calls.allocated call := by
    intro t found
    rw [CallsTable.alloc_get, if_pos rfl] at found
    exact (Option.some.inj found).symm
  refine ⟨Nat.lt_succ_self _, fun t found => ?_, fun t found => ?_, fun k t d found dep => ?_,
    fun x there => ⟨(names x there).issued, later x there⟩⟩
  · rw [get t found]
    exact ⟨rfl, rfl, rfl⟩
  · rw [get t found]
    rfl
  · have found : (o.mem.calls.alloc call).2.get k = some t := found
    rw [CallsTable.alloc_get] at found
    split_ifs at found
    · cases found
      cases dep
    · exact Nat.ne_of_lt (linked.parent k t d found dep)

/-- Attaching the child to a parent issued before it. -/
theorem Alone.linked {dep : DepChild} {attached : Bool} (h : Alone c o.mem) (sure : Set Clause)
    (older : dep.parent < c.id)
    (enabled : (KAct.calls (.setDepMeta c.id dep)).sem o.mem = some (attached, mem)) :
    Alone { c with link := some dep, sure := sure } mem := by
  refine ⟨lt_of_lt_of_le h.issued (issued_acted enabled), fun t' there => ?_, fun t' there => ?_,
    fun k t' d there isDep => ?_,
    fun x mem => ⟨(h.earlier x mem).1, (h.earlier x mem).2.acted enabled⟩⟩
  · obtain ⟨t, found, same⟩ := origin_acted enabled there h.issued
    rw [same.logical, same.instanceId, same.policy]
    exact h.call t found
  · cases enabled
    exact setDepMeta_get there rfl
  · obtain ⟨t, found, -, before | now⟩ := child_acted enabled there isDep
    · exact h.childless k t d found before
    · obtain ⟨rfl, rfl⟩ := now
      exact Nat.ne_of_lt older

theorem Holds.own (h : Holds ds o i s) (takes : Takes o ds ds' i a b mem) (allows : s.allows a) :
    Holds ds' (o.acted i a b mem) i (s.next a b) := by
  have enabled := takes.enabled
  have named := lists_named (s := s) enabled
  have lock := held_next (a := a) (b := b) mem h.held
  have issue : (∀ k, ¬ issues a b k) → s.adm.admits = true → ∀ k,
      issued.During i k (o.acted i a b mem).trace → issued.During i k o.trace :=
    fun none _ k now => ((Mark.during_own.mp now).resolve_left (none k)).1
  have quota : ¬ reserves a b () → s.adm.admits = true →
      reservation.During i () (o.acted i a b mem).trace → s.adm.reserved = true :=
    fun none admits now => h.quota admits ((Mark.during_own.mp now).resolve_left none).1
  have same : (s.next a b).adm = s.adm → (∀ k, ¬ links k a) → (∀ k, ¬ issues a b k) →
      ¬ reserves a b () → Holds ds' (o.acted i a b mem) i (s.next a b) :=
    fun adm off issues reserves => h.keep takes named lock (by rw [adm]) (by rw [adm])
      (fun _ _ held => ⟨adm ▸ held, off⟩) (issue issues) (by rw [adm]; exact quota reserves)
  cases a with
  | ctx e =>
    cases e with
    | current => exact h.look takes rfl trivial
    | _ => exact same rfl (fun _ no => no) (fun _ no => no) fun no => no
  | grant e =>
    cases e with
    | grant => exact h.look takes rfl trivial
    | _ => exact same rfl (fun _ no => no) (fun _ no => no) fun no => no
  | lockAdmit =>
    exact h.keep takes named lock rfl rfl (fun c mine => by cases mine.symm.trans allows)
      (issue fun _ no => no) (quota fun no => no)
  | unlockAdmit =>
    exact h.keep takes named lock rfl rfl (fun _ _ held => by cases held) (issue fun _ no => no)
      (quota fun no => no)
  | reserve session limits =>
    cases b with
    | error e => exact same rfl (fun _ no => no) (fun _ no => no) fun no => no
    | ok u =>
      exact h.keep takes named lock rfl rfl (fun _ _ held => ⟨held, fun _ no => no⟩)
        (issue fun _ no => no) fun _ _ => rfl
  | release session =>
    refine h.keep takes named lock rfl rfl (fun _ _ held => ⟨held, fun _ no => no⟩)
      (issue fun _ no => no) fun _ now => ?_
    exact ((Mark.during_own.mp now).elim (fun no => no.elim) fun now => absurd trivial now.2)
  | calls e =>
    cases e with
    | get => exact h.look takes rfl trivial
    | alloc call =>
      by_cases held : s.adm.held = true
      · have adm : (s.next (KAct.calls (.alloc call)) b).adm =
          { s.adm with child := some ⟨b, call, s.listed, none, ∅⟩ } := if_pos held
        have alone := Alone.allocated takes.linked call h.listed enabled
        refine ⟨lock, fun x there => (h.listed x there).acted enabled, ?_, ?_, ?_, ?_⟩
        all_goals rw [adm]
        · rintro _ ⟨⟩ -
          exact alone
        · rintro _ ⟨⟩ k ⟨⟩
        · refine fun admits k now => (Mark.during_own.mp now).imp (fun now => ⟨_, rfl, now⟩) ?_
          rintro ⟨before, -⟩
          refine ((h.tickets admits k before).resolve_left ?_).acted enabled
          rintro ⟨c, mine, -⟩
          cases mine.symm.trans (allows admits).2
        · exact quota fun no => no
      · have adm : (s.next (KAct.calls (.alloc call)) b).adm = s.adm := if_neg held
        exact h.keep takes named lock (by rw [adm]) (by rw [adm])
          (fun _ _ now => absurd (adm ▸ now) held) (fun admits => absurd (allows admits).1 held)
          (by rw [adm]; exact quota fun no => no)
    | setDepMeta id dep =>
      obtain ⟨c, ⟨held, mine, rfl⟩, -, -, earlier⟩ := allows
      have adm : (s.next (KAct.calls (.setDepMeta c.id dep)) b).adm = { s.adm with
          child := some { c with
            link := some dep
            sure := {k | k = .provider ∧ dep.remotePeer ≠ none} } } := by
        simp only [Place.next, Place.registers, mine, Option.map_some]
      have before := h.alone c mine held
      have alone := before.linked {k | k = .provider ∧ dep.remotePeer ≠ none}
        (before.earlier _ earlier).1 enabled
      refine ⟨lock, fun x there => (h.listed x there).acted enabled, ?_, ?_, ?_, ?_⟩
      all_goals rw [adm]
      · rintro _ ⟨⟩ -
        exact alone
      · rintro _ ⟨⟩ k ⟨rfl, remote⟩
        refine ⟨alone.attached rfl, fun t d link isLocal => absurd ?_ remote⟩
        rw [← alone.meta rfl link]
        exact isLocal
      · refine fun admits k now => (h.tickets admits k (issue (fun _ no => no) admits k now)).imp ?_
          fun gone => gone.acted enabled
        rintro ⟨c', mine', rfl⟩
        cases mine.symm.trans mine'
        exact ⟨_, rfl, rfl⟩
      · exact quota fun no => no
    | remove remover id =>
      cases remover with
      | rollback =>
        obtain ⟨c, held, mine, rfl⟩ := allows
        refine ⟨lock, fun x there => (h.listed x there).acted enabled,
          fun _ none => (by cases none),
          fun _ none => (by cases none), fun admits k now => .inr ?_, quota fun no => no⟩
        rcases h.tickets admits k (issue (fun _ no => no) admits k now) with ⟨c', mine', rfl⟩ | gone
        · cases mine.symm.trans mine'
          refine ⟨lt_of_lt_of_le (h.alone c mine held).issued (issued_acted enabled), ?_⟩
          cases enabled
          exact (CallsTable.remove_get ..).trans (if_pos rfl)
        · exact gone.acted enabled
      | _ => exact same rfl (fun _ no => no) (fun _ no => no) fun no => no
    | _ => exact same rfl (fun _ no => no) (fun _ no => no) fun no => no
  | _ => exact same rfl (fun _ no => no) (fun _ no => no) fun no => no

end Step

/-! ### Runs -/

def debts (st : Nat → Place) (j : Nat) : Dues := (st j).dues

structure Inv (st : Nat → Place) (o : KObs depth) : Prop where
  linked : Linked o.mem
  locked : Exclusive o
  holds : ∀ i, Holds (debts st) o i (st i)
  returned : ∀ i req id, Label.done i (.dependencyAdmit req) (.admitted (.ok id)) ∈ o.trace →
    ∀ k, Sure (debts st) o.mem id k

section Runs

variable {st : Nat → Place} {i j : Nat} {β : Type} {a : KAct β} {b : β} {mem : KState} {s : Place}

theorem debts_same (same : s.dues = (st i).dues) : debts (update st i s) = debts st := by
  funext j
  by_cases mine : j = i
  · subst mine
    rw [debts, update_self, same]
    rfl
  · rw [debts, update_of_ne mine]
    rfl

theorem owes_eq (enabled : a.sem old = some (b, mem)) (due : Dues) :
    Place.owes a b due = duesAfter a b due := by
  cases a with
  | ctx c =>
    cases c with
    | claimDispose k =>
      have reply : (old.contexts.claimDispose k).1 = b := by
        cases enabled
        rfl
      cases b with
      | error e => rfl
      | ok claim =>
        cases claim with
        | inFlight logical => rfl
        | fresh rec =>
          obtain rfl := (claimDispose_fresh reply).1
          rfl
    | _ => rfl
  | calls c =>
    cases c with
    | remove remover k =>
      have reply : old.calls.get k = b := by
        cases enabled
        rfl
      cases b with
      | none => cases remover <;> rfl
      | some r =>
        obtain rfl := CallsTable.get_id reply
        cases remover <;> rfl
    | _ => rfl
  | _ => rfl

theorem Inv.guard (inv : Inv st o) (allows : (st i).allows a) : guard (st i).dues o.mem a := by
  cases a with
  | ctx c => cases c <;> exact allows
  | calls c =>
    cases c with
    | cancel id reason =>
      refine allows.imp_right ?_
      rintro ⟨inst, ids, stage, listed⟩
      exact ⟨inst, ids, stage, ((inv.holds i).listed _ listed).owner⟩
    | revokeChildrenOfConsumer | setState => exact allows
    | setDepMeta id dep =>
      obtain ⟨c, ⟨held, mine, rfl⟩, link, policy, earlier⟩ := allows
      have alone := (inv.holds i).alone c mine held
      have names := (alone.earlier _ earlier).2
      exact ⟨fun t found => ⟨(alone.link t found).trans link, (alone.call t found).2.2 ▸ policy⟩,
        names.issued, names.owner⟩
    | remove remover id =>
      cases remover with
      | rollback =>
        obtain ⟨c, held, mine, rfl⟩ := allows
        exact ((inv.holds i).alone c mine held).childless
      | _ => trivial
    | _ => trivial
  | _ => trivial

theorem Inv.acted (inv : Inv st o) (allows : (st i).allows a)
    (enabled : a.sem o.mem = some (b, mem))
    (ok : revokesWhole o (.act i a b) ∧ inOrder o (.act i a b)) :
    Inv (update st i ((st i).next a b)) (o.acted i a b mem) := by
  have takes : Takes o (debts st) (debts (update st i ((st i).next a b))) i a b mem := by
    refine ⟨enabled, ok.1, ok.2, inv.linked, inv.guard allows, ?_, fun j other => ?_⟩
    · rw [debts, update_self]
      exact owes_eq enabled _
    · rw [debts, update_of_ne other]
      rfl
  refine ⟨linked_acted inv.linked takes.guard enabled, inv.locked.acted (fun un => ?_) enabled,
    fun j => ?_, fun j req id done k => ?_⟩
  · cases a with
    | unlockAdmit => exact (inv.holds i).held allows
    | _ => exact un.elim
  · by_cases mine : j = i
    · subst mine
      rw [update_self]
      exact (inv.holds j).own takes allows
    · have foreign : (Label.act i a b : KLabel depth).thread ≠ some j := fun same =>
        mine (Option.some.inj same).symm
      rw [update_of_ne mine]
      refine (inv.holds j).keep takes (fun _ there => .inl there)
        (fun held => holds_act.mpr (.inr ⟨(inv.holds j).held held, fun un => mine un.1.symm⟩))
        rfl rfl
        (fun _ _ held => ⟨held, fun k link => ?_⟩) (fun _ k => (Mark.during_foreign foreign).mp)
        fun admits now => (inv.holds j).quota admits ((Mark.during_foreign foreign).mp now)
      cases a with
      | calls c =>
        cases c with
        | setDepMeta =>
          obtain ⟨c, ⟨held', -⟩, -⟩ := allows
          exact mine ((inv.locked i ((inv.holds i).held held')).2 j ((inv.holds j).held held))
        | _ => exact link
      | _ => exact link
  · exact (inv.returned j req id (by simpa using done) k).acted takes

/-- A thread starts or returns. -/
theorem Inv.log (inv : Inv st o) (own : label.thread = some i) (dues : s.dues = (st i).dues)
    (quiet : ∀ (i : Nat) (β : Type) (a : KAct β) b, label ≠ .act i a b)
    (holds : Holds (debts st) (o.log label) i s)
    (returned : ∀ i req id, label = .done i (.dependencyAdmit req) (.admitted (.ok id)) →
      ∀ k, Sure (debts st) o.mem id k) : Inv (update st i s) (o.log label) := by
  refine ⟨inv.linked, inv.locked.log quiet, fun j => ?_, fun j req id done k => ?_⟩
  · rw [debts_same dues]
    by_cases mine : j = i
    · subst mine
      rwa [update_self]
    · have foreign : label.thread ≠ some j := fun same =>
        mine (Option.some.inj (same.symm.trans own))
      rw [update_of_ne mine]
      have h := inv.holds j
      exact ⟨fun held => (Mark.on_log quiet).mpr (h.held held), h.listed, h.alone, h.sure,
        fun admits k now => h.tickets admits k ((Mark.during_foreign foreign).mp now),
        fun admits now => h.quota admits ((Mark.during_foreign foreign).mp now)⟩
  · rw [debts_same dues]
    exact (List.mem_cons.mp done).elim (fun now => returned j req id now.symm k)
      fun before => inv.returned j req id before k

theorem Sure.passed {event : KEnv} {k : Clause} (h : Sure ds o.mem id k) :
    Sure ds (o.passed event).mem id k := by
  refine ⟨?_, fun t d link => ?_⟩
  · cases event <;> exact ⟨h.attached.issued, h.attached.link⟩
  · have backs := h.backed t d (by cases event <;> exact link)
    cases event <;> cases k <;> exact backs

/-- What holds of a thread at its start, and of one that does nothing. -/
theorem Holds.fresh {admits : Bool} (past : admits = true →
      (∀ k, ¬ issued.During i k o.trace) ∧ ¬ reservation.During i () o.trace) :
    Holds ds o i { adm := { admits := admits } } where
  held no := by cases no
  listed _ no := by cases no
  alone _ no := by cases no
  sure _ no := by cases no
  tickets now k there := absurd there ((past now).1 k)
  quota now there := absurd there (past now).2

theorem preserved : (payments depth).Preserved
    (fun o label => revokesWhole o label ∧ inOrder o label) Inv where
  start {st o i op} _ inv idle _ :=
    inv.log rfl (by rw [idle]; rfl) (by simp)
      (.fresh fun _ => ⟨fun _ => Mark.not_during_start, Mark.not_during_start⟩) (by simp)
  act _ inv allows enabled ok := inv.acted allows enabled ok
  done {st o i op res} _ inv leaves _ := by
    refine inv.log rfl leaves.1.symm (by simp) (.fresh fun no => by cases no)
      fun j req id same k => ?_
    cases same
    obtain ⟨c, mine, rfl, all⟩ := leaves.2 req _ rfl rfl
    exact (inv.holds i).sure c mine k (all k)
  env {st o event} inv _ := by
    refine ⟨?_, inv.locked.passed event, fun i => ?_, fun i req id done k => ?_⟩
    · cases event <;> exact ⟨inv.linked.parent, inv.linked.consumer, inv.linked.policy⟩
    · have h := inv.holds i
      have foreign : (Label.env event : KLabel depth).thread ≠ some i := by simp [Label.thread]
      refine ⟨h.held, fun x there => ?_, fun c mine held => ?_,
        fun c mine k there => (h.sure c mine k there).passed, fun admits k now => ?_,
        fun admits now => h.quota admits ((Mark.during_foreign foreign).mp now)⟩
      · have names := h.listed x there
        cases event <;> exact ⟨names.issued, names.owner⟩
      · have alone := h.alone c mine held
        have names := fun x there => (alone.earlier x there).2
        cases event <;> exact ⟨alone.issued, alone.call, alone.link, alone.childless, fun x there =>
          ⟨(alone.earlier x there).1, (names x there).issued, (names x there).owner⟩⟩
      · refine (h.tickets admits k ((Mark.during_foreign foreign).mp now)).imp_right fun gone => ?_
        cases event <;> exact ⟨gone.issued, gone.absent⟩
    · exact (inv.returned i req id (by simpa using done) k).passed

theorem inv_boot {m₀ : KState} (linked : Linked m₀) :
    Inv (fun _ => {}) (⟨m₀, []⟩ : KObs depth) where
  linked := linked
  locked _ held := held.elim
  holds _ := .fresh fun no => by cases no
  returned _ _ _ done := by cases done

end Runs

/-- Nobody owes anything when nothing runs. -/
theorem quiet_backs {s : KState} (quiet : ∀ j, ds j = .clear) (h : ∀ k, Backs ds s id t d k) :
    Open s.calls d.parent ∧ CurrentActive s.contexts d.grantConsumer d.consumer ∧
      (d.remotePeer = none → CurrentActive s.contexts t.logical t.instanceId) ∧
      s.grants (d.grantConsumer, d.grantCap) = some d.grantRev := by
  have parent := h .parent
  have consumer := h .consumer
  have provider := h .provider
  have grant := h .grant
  simp only [Backs, Ended, Leaving, Withdrawing, Regranting, quiet, Dues.clear, Stage.leaves,
    Stage.withdraws, List.not_mem_nil, and_false, exists_false, or_false]
    at parent consumer provider grant
  exact ⟨parent, consumer, provider, grant⟩

theorem boot_linked (epoch : Nat) : Linked (KState.boot epoch) where
  parent _ _ _ h := nomatch h
  consumer _ _ _ _ h := nomatch h
  policy _ _ _ h := nomatch h

/-- The label returns child `id` from an admission. -/
def returns (id : TicketId) : KLabel depth → Bool
  | .done _ (.dependencyAdmit _) (.admitted (.ok k)) => decide (k = id)
  | _ => false

theorem returns_done (h : returns id label = true) :
    ∃ i req, label = .done i (.dependencyAdmit req) (.admitted (.ok id)) := by
  unfold returns at h
  split at h
  · exact ⟨_, _, by rw [of_decide_eq_true h]⟩
  · cases h

/-- The link of an open child, read off the table. -/
def openLinkOf (c : CallsTable) (id : TicketId) : Option (TicketRecord × DepChild) :=
  (c.get id).bind fun t => if t.state = .admitted then t.dep.map fun d => (t, d) else none

theorem openLinkOf_some {c : CallsTable} (h : openLinkOf c id = some (t, d)) :
    OpenLink c id t d := by
  obtain ⟨t₀, ht₀, hif⟩ := Option.bind_eq_some_iff.mp h
  split_ifs at hif with hstate
  obtain ⟨d₀, hd₀, hpair⟩ := Option.map_eq_some_iff.mp hif
  cases hpair
  exact ⟨ht₀, hd₀, hstate⟩

end MatrixRuntime.AdmissionRevocation
