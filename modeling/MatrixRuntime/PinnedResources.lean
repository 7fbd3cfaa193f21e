import MatrixRuntime.ProvisionalOperations

/-! Resources pinned by calls. A call vets the resources it pins before its ticket is in the
table, and who releases a resource looks at the tickets of its owner before it does. A
ticket pins active resources as long as the two do not overlap. -/

namespace MatrixRuntime.PinnedResources

open KernelContexts KernelTickets KernelResources KernelState KernelActions KernelOperations
open InterleavedMachine RelyGuarantee Discipline TraceMarks TicketFrame Function
open OperationFrame (pinsOf)
open ProvisionalResources (takesBack)
open ProvisionalDisposals (inspect_records)
open ProvisionalOperations (registering)

variable {depth : Nat} {h : ResourceHandle} {admission : CallsTable.Admission}

/-! ### Marks -/

def looks {β : Type} : KAct β → β → InstanceId → Prop
  | .calls (.pendingFor inst), _, k => inst = k
  | .calls (.pendingCount inst), _, k => inst = k
  | _, _, _ => False

/-- The thread's operation has looked at the tickets of the instance. -/
def looking : Mark KAct InstanceId := .ever looks

def sees {β : Type} : KAct β → β → ResourceHandle → Prop
  | .res (.record handle), some r, h => handle = h ∧ r.state = .active
  | _, _, _ => False

def issues {β : Type} : KAct β → Prop
  | .calls (.alloc _) => True
  | _ => False

/-- The thread has seen the resource active, and issued no ticket since. -/
def vetting : Mark KAct ResourceHandle := ⟨sees, fun a _ _ => issues a⟩

/-- The thread is opening a call that pins the resource, and has vetted it. -/
def Vets (j : Nat) (h : ResourceHandle) (trace : List (Label (kernel depth))) : Prop :=
  vetting.During j h trace ∧ ∃ op, inCall j trace = some op ∧ h ∈ pinsOf op

/-- The thread's operation has registered the resource or looked at the tickets of its owner, as
those do that go on to take it away. -/
def Minds (j : Nat) (h : ResourceHandle) (o : Obs (kernel depth)) : Prop :=
  registering.During j h o.trace ∨
    ∃ r, o.mem.resources.records h = some r ∧ looking.During j r.ownerInstance o.trace

/-- A ticket that pins resources is issued while no other operation minds them, and a resource is
taken away while no other operation has vetted it for a call. -/
def unraced (o : Obs (kernel depth)) : Label (kernel depth) → Prop
  | .act i (KAct.calls (.alloc admission)) _ =>
    ∀ h ∈ admission.pins, ∀ j, j ≠ i → ¬ Minds j h o
  | .act i (KAct.res a) _ => ∀ h, takesBack (KAct.res a) h → ∀ j, j ≠ i → ¬ Vets j h o.trace
  | _ => True

/-! ### The discipline -/

/-- A ticket of the instance pins the resource. -/
def Pins (c : CallsTable) (k : InstanceId) (h : ResourceHandle) : Prop :=
  ∃ id t, c.get id = some t ∧ t.instanceId = k ∧ h ∈ t.pins

/-- The resource is active and owned by the instance. -/
def Held (t : ResourceTable) (k : InstanceId) (h : ResourceHandle) : Prop :=
  ∃ r, t.records h = some r ∧ r.state = .active ∧ r.ownerInstance = k

structure Inv (o : KObs depth) : Prop where
  pinned : ∀ k h, Pins o.mem.calls k h → Held o.mem.resources k h
  owners : ∀ h r, o.mem.resources.records h = some r → r.ownerInstance = r.ownerContext

structure Guar (i : Nat) (o o' : KObs depth) : Prop where
  next : o.mem.resources.nextHandle ≤ o'.mem.resources.nextHandle
  ages : ∀ h, h < o.mem.resources.nextHandle → ∀ r', o'.mem.resources.records h = some r' →
    ∃ r, o.mem.resources.records h = some r ∧ r'.ownerInstance = r.ownerInstance ∧
      (r'.state = .active → r.state = .active)
  pins : ∀ k h, Pins o'.mem.calls k h → Pins o.mem.calls k h ∨
    (Held o.mem.resources k h ∧ ∀ j, j ≠ i → ¬ Minds j h o)
  kept : ∀ k h, Held o.mem.resources k h → Held o'.mem.resources k h ∨
    ∀ j, j ≠ i → ¬ Vets j h o.trace

def discipline (depth : Nat) : Discipline (kernel depth) := ⟨Inv, Guar, unraced⟩

/-! ### What the actions do to the tables -/

theorem pins_shrink {β : Type} {a : TicketAct β} (calm : ¬ issues (KAct.calls a)) {c : CallsTable}
    {k : InstanceId} {h : ResourceHandle} (pins : Pins (a.run c).2 k h) : Pins c k h := by
  obtain ⟨id, t, there, own, pinned⟩ := pins
  have old : id < c.nextTicket := by
    by_cases hs : steady β a
    · exact steady_nextTicket hs c ▸ CallsTable.get_lt there
    · cases a with
      | alloc => exact absurd trivial calm
      | remove remover k => exact CallsTable.get_lt (c := (c.remove k).2) there
      | _ => exact absurd trivial hs
  obtain ⟨t₀, before, same⟩ := get_origin there old
  exact ⟨id, t₀, before, same.instanceId ▸ own, same.pins ▸ pinned⟩

theorem pins_alloc {c : CallsTable} {k : InstanceId} (pins : Pins (c.alloc admission).2 k h) :
    Pins c k h ∨ (admission.instanceId = k ∧ h ∈ admission.pins) := by
  obtain ⟨id, t, there, own, pinned⟩ := pins
  rw [CallsTable.alloc_get] at there
  split_ifs at there with new
  · cases there
    exact .inr ⟨own, pinned⟩
  · exact .inl ⟨id, t, there, own, pinned⟩

section Records

variable {β : Type} {t : ResourceTable} {h : ResourceHandle} {r : ResourceRecord}

/-- Only what is taken back changes. -/
theorem records_kept (a : ResourceAct β) (found : t.records h = some r)
    (spared : ¬ takesBack (KAct.res a) h) : (a.run t).2.records h = some r := by
  cases a with
  | handlesFor | activeFor | record => exact found
  | insert owner kind =>
    exact (update_of_ne (Nat.ne_of_lt (t.issued h r found).2) ..).trans found
  | discard handle owner => exact (update_of_ne (Ne.symm spared) ..).trans found
  | rollbackRegister handle =>
    have other : h ≠ handle := Ne.symm spared
    simp only [ResourceAct.run, ResourceTable.rollbackRegister]
    repeat' split
    all_goals first | exact found | exact (update_of_ne other ..).trans found
  | inspectRelease handle => exact (congrFun (inspect_records t handle) h).trans found
  | claimRelease handle =>
    have other : h ≠ handle := Ne.symm spared
    simp only [ResourceAct.run, ResourceTable.claimRelease]
    repeat' split
    all_goals first | exact found | exact (update_of_ne other ..).trans found

/-- A record of a handle that was issued before comes from one of the same owner. -/
theorem records_origin (a : ResourceAct β) (old : h < t.nextHandle)
    (found : (a.run t).2.records h = some r) : ∃ r₀, t.records h = some r₀ ∧
      r.ownerInstance = r₀.ownerInstance ∧ r.ownerContext = r₀.ownerContext ∧
      (r.state = .active → r₀.state = .active) := by
  have same : t.records h = some r → ∃ r₀, t.records h = some r₀ ∧
      r.ownerInstance = r₀.ownerInstance ∧ r.ownerContext = r₀.ownerContext ∧
      (r.state = .active → r₀.state = .active) := fun there => ⟨r, there, rfl, rfl, id⟩
  have dropped : ∀ handle, update t.records handle none h = some r →
      t.records h = some r := by
    intro handle there
    by_cases here : h = handle
    · rw [here, update_self] at there
      cases there
    · rwa [update_of_ne here] at there
  cases a with
  | handlesFor | activeFor | record => exact same found
  | insert owner kind => exact same ((update_of_ne (Nat.ne_of_lt old) ..).symm.trans found)
  | discard handle owner => exact same (dropped handle found)
  | rollbackRegister handle =>
    simp only [ResourceAct.run, ResourceTable.rollbackRegister] at found
    repeat' split at found
    all_goals first | exact same found | exact same (dropped handle found)
  | inspectRelease handle => exact same ((congrFun (inspect_records t handle) h).symm.trans found)
  | claimRelease handle =>
    simp only [ResourceAct.run, ResourceTable.claimRelease] at found
    split at found
    · exact same found
    · split at found
      · exact same found
      · by_cases here : h = handle
        · subst here
          simp only [ResourceTable.retire, update_self] at found
          obtain ⟨r₀, there, rfl⟩ := Option.map_eq_some_iff.mp found
          exact ⟨r₀, there, rfl, rfl, fun active => by cases active⟩
        · exact same ((update_of_ne here ..).symm.trans found)

def inserts (β : Type) : ResourceAct β → Prop
  | .insert _ _ => True
  | _ => False

theorem nextHandle_eq {a : ResourceAct β} (plain : ¬ inserts β a) (t : ResourceTable) :
    (a.run t).2.nextHandle = t.nextHandle := by
  cases a with
  | insert => exact absurd trivial plain
  | handlesFor | activeFor | record | discard => rfl
  | rollbackRegister handle =>
    simp only [ResourceAct.run, ResourceTable.rollbackRegister]
    repeat' split
    all_goals rfl
  | inspectRelease handle =>
    simp only [ResourceAct.run, ResourceTable.inspectRelease]
    repeat' split
    all_goals rfl
  | claimRelease handle =>
    simp only [ResourceAct.run, ResourceTable.claimRelease]
    repeat' split
    all_goals rfl

theorem nextHandle_le (a : ResourceAct β) (t : ResourceTable) :
    t.nextHandle ≤ (a.run t).2.nextHandle := by
  by_cases plain : inserts β a
  · cases a with
    | insert => exact Nat.le_succ _
    | _ => exact plain.elim
  · exact (nextHandle_eq plain t).ge

end Records

/-! ### Guards -/

def guard (o : KObs depth) {β : Type} : KAct β → Prop
  | .calls (.alloc admission) =>
    ∀ h ∈ admission.pins, Held o.mem.resources admission.instanceId h
  | .res (.insert owner _) => owner.instanceId = owner.context
  | .res a => ∀ h, takesBack (KAct.res a) h → ∀ k, ¬ Pins o.mem.calls k h
  | _ => True

section Sound

variable {i : Nat} {o : KObs depth} {β : Type} {b : β} {mem : KState}

/-- Actions that change neither the resources nor which of them are pinned. -/
theorem sound_still {a : KAct β} (hinv : Inv o) (same : mem.resources = o.mem.resources)
    (pins : ∀ k h, Pins mem.calls k h → Pins o.mem.calls k h) :
    Inv (o.acted i a b mem) ∧ Guar i o (o.acted i a b mem) := by
  refine ⟨⟨fun k h pinned => ?_, fun h r found => ?_⟩, ⟨?_, fun h _ r found => ?_,
    fun k h pinned => .inl (pins k h pinned), fun k h held => .inl ?_⟩⟩
  all_goals simp only [Obs.acted_mem, same] at *
  · exact hinv.pinned k h (pins k h pinned)
  · exact hinv.owners h r found
  · exact le_rfl
  · exact ⟨r, found, rfl, id⟩
  · exact held

theorem sound_alloc {ticket : TicketId} (hinv : Inv o)
    (vetted : ∀ h ∈ admission.pins, Held o.mem.resources admission.instanceId h)
    (unminded : ∀ h ∈ admission.pins, ∀ j, j ≠ i → ¬ Minds j h o) :
    Inv (o.acted i (KAct.calls (.alloc admission)) ticket
      { o.mem with calls := (o.mem.calls.alloc admission).2 }) ∧
    Guar i o (o.acted i (KAct.calls (.alloc admission)) ticket
      { o.mem with calls := (o.mem.calls.alloc admission).2 }) := by
  refine ⟨⟨fun k h pinned => ?_, hinv.owners⟩, ⟨le_rfl, fun h _ r found => ⟨r, found, rfl, id⟩,
    fun k h pinned => ?_, fun k h held => .inl held⟩⟩
  · rcases pins_alloc pinned with before | ⟨rfl, new⟩
    · exact hinv.pinned k h before
    · exact vetted h new
  · rcases pins_alloc pinned with before | ⟨rfl, new⟩
    · exact .inl before
    · exact .inr ⟨vetted h new, unminded h new⟩

theorem sound_res {a : ResourceAct β} (hinv : Inv o)
    (free : ∀ h, takesBack (KAct.res a) h → ∀ k, ¬ Pins o.mem.calls k h)
    (unvetted : ∀ h, takesBack (KAct.res a) h → ∀ j, j ≠ i → ¬ Vets j h o.trace)
    (fresh : ∀ h r, o.mem.resources.nextHandle ≤ h → (a.run o.mem.resources).2.records h = some r →
      r.ownerInstance = r.ownerContext) :
    Inv (o.acted i (KAct.res a) b { o.mem with resources := (a.run o.mem.resources).2 }) ∧
    Guar i o (o.acted i (KAct.res a) b
      { o.mem with resources := (a.run o.mem.resources).2 }) := by
  have kept : ∀ {k h}, Held o.mem.resources k h → ¬ takesBack (KAct.res a) h →
      Held (a.run o.mem.resources).2 k h := by
    rintro k h ⟨r, found, state⟩ spared
    exact ⟨r, records_kept a found spared, state⟩
  refine ⟨⟨fun k h pinned => ?_, fun h r found => ?_⟩, ⟨nextHandle_le a _, fun h old r found => ?_,
    fun k h pinned => .inl pinned, fun k h held => ?_⟩⟩
  · exact kept (hinv.pinned k h pinned) fun taken => free h taken k pinned
  · by_cases old : h < o.mem.resources.nextHandle
    · obtain ⟨r₀, before, inst, context, -⟩ := records_origin a old found
      exact inst.trans ((hinv.owners h r₀ before).trans context.symm)
    · exact fresh h r (Nat.le_of_not_lt old) found
  · obtain ⟨r₀, before, inst, -, active⟩ := records_origin a old found
    exact ⟨r₀, before, inst, active⟩
  · by_cases taken : takesBack (KAct.res a) h
    · exact .inr (unvetted h taken)
    · exact .inl (kept held taken)

/-- Actions that register nothing leave no record of a handle to come. -/
theorem nothing_fresh {a : ResourceAct β} (plain : ¬ inserts β a) {t : ResourceTable} {P : Prop}
    {h : ResourceHandle} {r : ResourceRecord} (new : t.nextHandle ≤ h)
    (found : (a.run t).2.records h = some r) : P := by
  have issued := ((a.run t).2.issued h r found).2
  rw [nextHandle_eq plain] at issued
  exact absurd issued (Nat.not_lt.mpr new)

theorem sound {a : KAct β} (guarded : guard o a)
    (acts : (discipline depth).Acts i o a b mem) :
    Inv (o.acted i a b mem) ∧ Guar i o (o.acted i a b mem) := by
  have hinv : Inv o := acts.inv
  have enabled : a.sem o.mem = some (b, mem) := acts.enabled
  have allowed : unraced o (.act i a b) := acts.ok
  cases a with
  | calls a =>
    cases enabled
    cases a with
    | alloc admission => exact sound_alloc hinv guarded allowed
    | _ => exact sound_still hinv rfl fun k h => pins_shrink id
  | res a =>
    cases enabled
    cases a with
    | insert owner kind =>
      refine sound_res hinv (fun h => False.elim) (fun h => False.elim) fun h r new found => ?_
      by_cases here : h = o.mem.resources.nextHandle
      · rw [here] at found
        change update _ _ _ _ = _ at found
        rw [update_self] at found
        cases found
        exact guarded
      · have issued := (((ResourceAct.insert owner kind).run o.mem.resources).2.issued h r found).2
        exact absurd (Nat.le_antisymm (Nat.le_of_lt_succ issued) new) here
    | _ => exact sound_res hinv guarded allowed fun h r => nothing_fresh id
  | ctx | pub | comp =>
    cases enabled
    exact sound_still hinv rfl fun _ _ => id
  | _ =>
    have same := KAct.sem_sameTables enabled rfl
    exact sound_still hinv same.resources fun k h pinned => same.calls ▸ pinned

end Sound

def guarded (depth : Nat) : (discipline depth).Guarded where
  guard _ o _ a := guard o a
  sound _ _ _ _ _ _ := sound

end MatrixRuntime.PinnedResources
