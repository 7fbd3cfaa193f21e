import MatrixRuntime.KernelReconcile
import MatrixRuntime.ThreadStates

/-! The views of the resource table: its records, the handles listed by owner, the counters and
the claims that were given out. A registration whose thread cannot be started takes its record
back in a second critical section. -/

namespace MatrixRuntime.ResourceViews

open KernelContexts KernelTickets KernelResources KernelState KernelActions
open InterleavedMachine ThreadStates Function

inductive TableOp where
  | register (owner : Owner) (kind : ResourceKind)
  | beginRelease (handle : ResourceHandle)
  | rollbackRegister (handle : ResourceHandle)
  | finishRelease (claim : ReleaseClaim)

/-- The operations of the table alone; finishing a release only joins threads. -/
def table : Machine KState KAct TableOp Unit KEnv where
  sem := KAct.sem
  env := KEnv.apply
  code
    | .register owner kind => (KernelReconcile.register owner kind).bind fun _ => .pure ()
    | .beginRelease handle => (KernelReconcile.beginRelease handle).bind fun _ => .pure ()
    | .rollbackRegister handle => res (.rollbackRegister handle)
    | .finishRelease _ => .pure ()

/-- The handle a claim was given out for. -/
def claims {β : Type} : KAct β → β → Option ResourceHandle
  | .res (.claimRelease h), .ok _ => some h
  | _, _ => none

def claimed : List (Label table) → List ResourceHandle
  | [] => []
  | .act _ action reply :: past => (claims action reply).toList ++ claimed past
  | _ :: past => claimed past

def released (t : ResourceTable) : Set ResourceHandle :=
  {h | ∃ r, t.records h = some r ∧ r.state = .released}

def activeOf (t : ResourceTable) (c : ContextId) : Set ResourceHandle :=
  {h | ∃ r, t.records h = some r ∧ r.ownerContext = c ∧ r.state = .active}

/-- The views agree with the records, and no handle was claimed twice. -/
structure Agree (t : ResourceTable) (given : List ResourceHandle) : Prop where
  owner : ∀ c h, h ∈ t.byOwner c ↔ ∃ r, t.records h = some r ∧ r.ownerContext = c
  distinct : ∀ c, (t.byOwner c).Nodup
  active : ∀ c, t.activeFor c = (activeOf t c).ncard
  once : given.Nodup
  total : t.totalReleases = (released t).ncard

/-- A failed registration takes back a record that nobody has released. -/
def unreleased (o : Obs table) : Label table → Prop
  | .act _ (.res (.discard h _)) _ => h ∉ released o.mem.resources
  | _ => True

structure Views (t : ResourceTable) (given : List ResourceHandle) : Prop where
  backed : ∀ c h, h ∈ t.byOwner c → ∃ r, t.records h = some r
  distinct : ∀ c, (t.byOwner c).Nodup
  once : given.Nodup
  spent : ∀ h ∈ given, h < t.nextHandle ∧ ∀ r, t.records h = some r → r.state = .released
  total : t.totalReleases = (released t).ncard

variable {t : ResourceTable} {given : List ResourceHandle} {h : ResourceHandle} {c : ContextId}

theorem released_finite (t : ResourceTable) : (released t).Finite :=
  (Set.finite_lt_nat t.nextHandle).subset fun h ⟨r, found, _⟩ => (t.issued h r found).2

theorem Views.agree (v : Views t given) : Agree t given where
  owner c h := by
    constructor
    · intro listed
      obtain ⟨r, found⟩ := v.backed c h listed
      exact ⟨r, found, (t.owned h r c found).1 listed⟩
    · rintro ⟨r, found, owner⟩
      exact (t.owned h r c found).2 owner
  distinct := v.distinct
  active c := by
    rw [ResourceTable.activeFor, ← List.toFinset_card_of_nodup ((v.distinct c).filter _),
      ← Set.ncard_coe_finset]
    congr 1
    ext h
    simp only [List.coe_toFinset, List.mem_filter, Option.any_eq_true,
      decide_eq_true_eq, activeOf]
    constructor
    · rintro ⟨listed, r, found, active⟩
      exact ⟨r, found, (t.owned h r c found).1 listed, active⟩
    · rintro ⟨r, found, owner, active⟩
      exact ⟨(t.owned h r c found).2 owner, r, found, active⟩
  once := v.once
  total := v.total

/-! ### The operations of the table -/

theorem Views.insert (v : Views t given) (owner : Owner) (kind : ResourceKind) :
    Views (t.insert owner kind).2 given := by
  have older : ∀ {h}, h < t.nextHandle → h ≠ t.nextHandle := Nat.ne_of_lt
  have same : released (t.insert owner kind).2 = released t := by
    ext h
    simp only [released, ResourceTable.insert, update_apply, Set.mem_ofPred_eq]
    split
    next new =>
      subst new
      constructor
      · rintro ⟨r, ⟨⟩, done⟩
        cases done
      · rintro ⟨r, found, -⟩
        exact absurd rfl (older (t.issued _ r found).2)
    next => rfl
  refine ⟨fun c h listed => ?_, fun c => ?_, v.once, fun h mem => ?_, ?_⟩
  · simp only [ResourceTable.insert, update_apply] at listed ⊢
    split
    next => exact ⟨_, rfl⟩
    next old =>
      split at listed
      next here =>
        simp only [List.mem_append, List.mem_singleton, old, or_false] at listed
        exact v.backed _ h listed
      next => exact v.backed c h listed
  · simp only [ResourceTable.insert, update_apply]
    split
    · rw [List.nodup_append]
      refine ⟨v.distinct _, List.nodup_singleton _, fun a listed b new => ?_⟩
      rw [List.mem_singleton.1 new]
      exact older (t.listed _ a listed)
    · exact v.distinct c
  · obtain ⟨issued, done⟩ := v.spent h mem
    refine ⟨Nat.lt_succ_of_lt issued, fun r found => done r ?_⟩
    simpa only [ResourceTable.insert, update_of_ne (older issued)] using found
  · rw [same]
    exact v.total

theorem Views.discard (v : Views t given) (kept : h ∉ released t)
    (owner : ∀ r, t.records h = some r → r.ownerContext = c) : Views (t.discard h c) given := by
  have same : released (t.discard h c) = released t := by
    ext k
    simp only [released, ResourceTable.discard, update_apply, Set.mem_ofPred_eq]
    split
    next here =>
      subst here
      refine ⟨?_, fun done => absurd done kept⟩
      rintro ⟨r, none, -⟩
      cases none
    next => rfl
  refine ⟨fun d k listed => ?_, fun d => ?_, v.once, fun k mem => ?_, ?_⟩
  · have before : k ∈ t.byOwner d ∧ k ≠ h := by
      simp only [ResourceTable.discard, update_apply] at listed
      split at listed
      next here => simpa [here] using listed
      next other =>
        refine ⟨listed, ?_⟩
        rintro rfl
        obtain ⟨r, found⟩ := v.backed d k listed
        exact other (((t.owned k r d found).1 listed).symm.trans (owner r found))
    simpa only [ResourceTable.discard, update_of_ne before.2] using v.backed d k before.1
  · simp only [ResourceTable.discard, update_apply]
    split
    · exact (v.distinct c).filter _
    · exact v.distinct d
  · obtain ⟨issued, done⟩ := v.spent k mem
    refine ⟨issued, fun r found => ?_⟩
    simp only [ResourceTable.discard, update_apply] at found
    split at found
    · cases found
    · exact done r found
  · rw [same]
    exact v.total

theorem Views.rollbackRegister (v : Views t given) (h : ResourceHandle) :
    Views (t.rollbackRegister h) given := by
  unfold ResourceTable.rollbackRegister
  split
  next r found =>
    split
    next active =>
      refine v.discard (fun done => ?_) fun r' found' => ?_
      · obtain ⟨r', found', state⟩ := done
        rw [found] at found'
        cases found'
        rw [active] at state
        cases state
      · rw [found] at found'
        cases found'
        rfl
    next => exact v
  next => exact v

theorem Views.inspectRelease (v : Views t given) (h : ResourceHandle) :
    Views (t.inspectRelease h).2 given := by
  unfold ResourceTable.inspectRelease
  split
  · exact v
  · split
    · exact ⟨v.backed, v.distinct, v.once, v.spent, v.total⟩
    · split <;> exact v

/-- A claim is given out for a record that is not released, and marks it. -/
theorem Views.claimRelease (v : Views t given) (h : ResourceHandle) :
    Views (t.claimRelease h).2
      ((claims (.res (.claimRelease h)) (t.claimRelease h).1).toList ++ given) := by
  unfold ResourceTable.claimRelease
  split
  · exact v
  next r found =>
    split
    · exact ⟨v.backed, v.distinct, v.once, v.spent, v.total⟩
    next open' =>
      have unspent : h ∉ released t := by
        rintro ⟨r', found', state⟩
        rw [found] at found'
        cases found'
        exact open' state
      have more : released (t.retire h) = Insert.insert h (released t) := by
        ext k
        simp only [released, ResourceTable.retire, update_apply, Set.mem_insert_iff,
          Set.mem_ofPred_eq]
        split
        next here =>
          subst here
          simp [found]
        next other => simp [other]
      refine ⟨fun c k listed => ?_, v.distinct, ?_, fun k mem => ?_, ?_⟩
      · obtain ⟨r', found'⟩ := v.backed c k listed
        simp only [ResourceTable.retire, update_apply]
        split
        next here =>
          subst here
          simp [found]
        next => exact ⟨r', found'⟩
      · refine List.nodup_cons.2 ⟨fun mem => unspent ?_, v.once⟩
        exact ⟨r, found, (v.spent h mem).2 r found⟩
      · simp only [ResourceTable.retire, update_apply]
        rcases List.mem_cons.1 mem with rfl | earlier
        · refine ⟨(t.issued k r found).2, fun r' found' => ?_⟩
          rw [if_pos rfl, found] at found'
          cases found'
          rfl
        · obtain ⟨issued, done⟩ := v.spent k earlier
          refine ⟨issued, fun r' found' => ?_⟩
          split at found'
          next here =>
            rw [found] at found'
            cases found'
            rfl
          next => exact done r' found'
      · rw [more, Set.ncard_insert_of_notMem unspent (released_finite t), ← v.total]
        rfl

/-! ### Runs -/

/-- A thread remembers the handle it has registered, and for whom. -/
abbrev Stage := Option (ResourceHandle × ContextId)

abbrev Stage.allows {β : Type} (s : Stage) : KAct β → Prop
  | .res (.discard h c) => s = some (h, c)
  | .res _ => True
  | .spawn => True
  | _ => False

def Stage.next {β : Type} (s : Stage) : KAct β → β → Stage
  | .res (.insert owner _), handle => some (handle, owner.context)
  | _, _ => s

def stages : Protocol table Stage where
  idle := none
  enter _ := none
  allows := Stage.allows
  next := Stage.next
  leaves _ _ _ := True

theorem code_follows (op : TableOp) : stages.Follows (table.code op) (fun _ _ => True) none := by
  cases op with
  | register owner kind =>
    refine Protocol.Follows.bind (Q := fun _ _ => True) ?_ fun _ _ _ => trivial
    unfold KernelReconcile.register
    split
    · exact trivial
    · refine ⟨trivial, fun handle => ?_⟩
      have thread : ∀ what, stages.Follows (KernelReconcile.startThread handle owner what)
          (fun _ _ => True) (some (handle, owner.context)) := by
        refine fun what => ⟨trivial, fun started => ?_⟩
        cases started with
        | true => exact trivial
        | false => exact ⟨rfl, fun _ => trivial⟩
      cases kind with
      | timer | task => exact thread _
      | _ => exact trivial
  | beginRelease h =>
    refine Protocol.Follows.bind (Q := fun _ _ => True) ?_ fun _ _ _ => trivial
    refine ⟨trivial, fun seen => ?_⟩
    cases seen with
    | error e => exact trivial
    | ok => exact ⟨trivial, fun _ => trivial⟩
  | rollbackRegister h => exact ⟨trivial, fun _ => trivial⟩
  | finishRelease claim => exact trivial

variable {β : Type}

/-- No operation changes the owner of a record, and only a new handle gets a record. -/
structure Owned (t t' : ResourceTable) : Prop where
  next : t.nextHandle ≤ t'.nextHandle
  owner : ∀ h r', h < t.nextHandle → t'.records h = some r' →
    ∃ r, t.records h = some r ∧ r'.ownerContext = r.ownerContext

theorem Owned.refl (t : ResourceTable) : Owned t t :=
  ⟨Nat.le_refl _, fun _ r _ found => ⟨r, found, rfl⟩⟩

theorem Owned.updated {t' : ResourceTable} {k : ResourceHandle} {entry : Option ResourceRecord}
    (next : t.nextHandle ≤ t'.nextHandle) (records : t'.records = update t.records k entry)
    (own : ∀ r', k < t.nextHandle → entry = some r' →
      ∃ r, t.records k = some r ∧ r'.ownerContext = r.ownerContext) : Owned t t' := by
  refine ⟨next, fun h r' issued found => ?_⟩
  rw [records, update_apply] at found
  split at found
  next here =>
    subst here
    exact own r' issued found
  next => exact ⟨r', found, rfl⟩

theorem owned_run (a : ResourceAct β) (t : ResourceTable) : Owned t (a.run t).2 := by
  cases a with
  | handlesFor | activeFor | record => exact .refl t
  | insert owner kind =>
    exact .updated (Nat.le_succ _) rfl fun _ issued => absurd issued (Nat.lt_irrefl _)
  | discard h c => exact .updated (Nat.le_refl _) rfl (by rintro _ _ ⟨⟩)
  | rollbackRegister h =>
    simp only [ResourceAct.run, ResourceTable.rollbackRegister]
    split
    · split
      · exact .updated (Nat.le_refl _) rfl (by rintro _ _ ⟨⟩)
      · exact .refl t
    · exact .refl t
  | inspectRelease h =>
    simp only [ResourceAct.run, ResourceTable.inspectRelease]
    split
    · exact .refl t
    · split
      · exact ⟨Nat.le_refl _, (Owned.refl t).owner⟩
      · split <;> exact .refl t
  | claimRelease h =>
    simp only [ResourceAct.run, ResourceTable.claimRelease]
    split
    · exact .refl t
    · split
      · exact ⟨Nat.le_refl _, (Owned.refl t).owner⟩
      · refine .updated (Nat.le_refl _) rfl fun r' _ marked => ?_
        obtain ⟨r, found, rfl⟩ := Option.map_eq_some_iff.1 marked
        exact ⟨r, found, rfl⟩

/-- What a thread remembers stays true of the table. -/
def Mine (s : Stage) (t : ResourceTable) : Prop :=
  ∀ h c, s = some (h, c) → h < t.nextHandle ∧ ∀ r, t.records h = some r → r.ownerContext = c

theorem Mine.kept {s : Stage} {t' : ResourceTable} (mine : Mine s t) (owned : Owned t t') :
    Mine s t' := by
  intro h c remembered
  obtain ⟨issued, owner⟩ := mine h c remembered
  refine ⟨Nat.lt_of_lt_of_le issued owned.next, fun r' found => ?_⟩
  obtain ⟨r, before, same⟩ := owned.owner h r' issued found
  exact same.trans (owner r before)

structure Inv (st : Nat → Stage) (o : Obs table) : Prop where
  views : Views o.mem.resources (claimed o.trace)
  mine : ∀ i, Mine (st i) o.mem.resources

variable {st : Nat → Stage} {o : Obs table} {i : Nat}

theorem Inv.move {o' : Obs table} {s : Stage} (inv : Inv st o)
    (views : Views o'.mem.resources (claimed o'.trace))
    (owned : Owned o.mem.resources o'.mem.resources)
    (own : Mine s o'.mem.resources) : Inv (update st i s) o' := by
  refine ⟨views, fun j => ?_⟩
  by_cases here : j = i
  · subst here
    rwa [update_self]
  · rw [update_of_ne here]
    exact (inv.mine j).kept owned

theorem views_run {a : ResourceAct β} (inv : Inv st o) (allows : Stage.allows (st i) (.res a))
    (ok : unreleased o (.act i (.res a) (a.run o.mem.resources).1)) :
    Views (a.run o.mem.resources).2
      ((claims (.res a) (a.run o.mem.resources).1).toList ++ claimed o.trace) := by
  cases a with
  | handlesFor | activeFor | record => exact inv.views
  | insert owner kind => exact inv.views.insert owner kind
  | discard h c => exact inv.views.discard ok (inv.mine i h c allows).2
  | rollbackRegister h => exact inv.views.rollbackRegister h
  | inspectRelease h => exact inv.views.inspectRelease h
  | claimRelease h => exact inv.views.claimRelease h

theorem mine_next {a : ResourceAct β} (mine : Mine (st i) t) :
    Mine (Stage.next (st i) (.res a) (a.run t).1) (a.run t).2 := by
  cases a with
  | insert owner kind =>
    rintro h c ⟨⟩
    refine ⟨Nat.lt_succ_self _, fun r found => ?_⟩
    simp only [ResourceAct.run, ResourceTable.insert, update_self] at found
    cases found
    rfl
  | _ => exact mine.kept (owned_run _ t)

theorem mine_none (t : ResourceTable) : Mine none t := fun _ _ none => nomatch none

theorem preserved : stages.Preserved unreleased Inv where
  start := by
    intro st o i op _ inv idle _
    exact inv.move inv.views (.refl _) (mine_none _)
  act := by
    intro st o i β action reply mem _ inv allows sem ok
    cases action with
    | res a =>
      cases sem
      exact inv.move (views_run inv allows ok) (owned_run a _) (mine_next (inv.mine i))
    | spawn =>
      cases sem
      exact inv.move inv.views (.refl _) (inv.mine i)
    | _ => exact allows.elim
  done := by
    intro st o i op res _ inv _ _
    exact inv.move inv.views (.refl _) (mine_none _)
  env := by
    intro st o event inv _
    cases event <;> exact ⟨inv.views, inv.mine⟩

/-- In every run in which failed registrations take back only what is not released, the views
agree with the records. -/
theorem views_agree (epoch : Nat) {c : Config table}
    (run : Run unreleased (.boot (.boot epoch)) c) :
    Agree c.mem.resources (claimed c.trace) := by
  have empty : released (KState.boot epoch).resources = ∅ :=
    Set.eq_empty_of_forall_notMem fun h done => by
      obtain ⟨r, found, -⟩ := done
      cases found
  have boot : Inv (fun _ => none) ⟨KState.boot epoch, []⟩ := by
    refine ⟨⟨fun _ _ none => (nomatch none), fun _ => List.nodup_nil, List.nodup_nil,
      fun _ none => (nomatch none), ?_⟩, fun _ => mine_none _⟩
    change _ = (released (KState.boot epoch).resources).ncard
    rw [empty, Set.ncard_empty]
    rfl
  obtain ⟨st, -, inv, -⟩ := preserved.run code_follows boot run
  exact inv.views.agree

def owner : Owner := ⟨1, 1, "p", 1⟩

/-- A check for schedules without failed registrations. -/
def undiscarded (_ : Obs table) : Label table → Bool
  | .act _ (.res (.discard _ _)) _ => false
  | _ => true

theorem unreleased_of_undiscarded (o : Obs table) (label : Label table)
    (h : undiscarded o label = true) : unreleased o label := by
  unfold undiscarded at h
  split at h
  · cases h
  next other =>
    unfold unreleased
    split
    · exact absurd rfl (other _ _ _ _)
    · trivial

theorem views_agree_after_release : ∃ c : Config table,
    Run unreleased (.boot (.boot 1)) c ∧ Agree c.mem.resources (claimed c.trace) ∧
      claimed c.trace = [1] := by
  obtain ⟨c, run, -, once⟩ := Config.plays (KState.boot 1) undiscarded unreleased_of_undiscarded
    (P := fun c => claimed c.trace = [1]) 9 2
    [.start 0 (.register owner (.task "t")), .finish 0, .start 1 (.beginRelease 1), .finish 1]
    (by decide +kernel)
  exact ⟨c, run, views_agree 1 run, once⟩

/-- A release between the registration and the failure of its thread is still counted. -/
theorem released_record_discarded : ∃ c : Config table,
    Run (fun _ _ => True) (.boot (.boot 1)) c ∧ c.Quiescent ∧
      ¬ Agree c.mem.resources (claimed c.trace) := by
  have played := Config.plays_freely (M := table) (m := KState.boot 1)
    (P := fun c => c.mem.resources.totalReleases = 1 ∧ c.mem.resources.nextHandle = 2 ∧
      c.mem.resources.records 0 = none ∧ c.mem.resources.records 1 = none) 9 2
    [.start 0 (.register owner (.task "t")), .steps 0 1, .start 1 (.beginRelease 1), .finish 1,
      .env (.spawn false), .finish 0] (by decide +kernel)
  obtain ⟨c, run, quiet, total, next, zero, one⟩ := played
  refine ⟨c, run, quiet, fun agree => ?_⟩
  have none : released c.mem.resources = ∅ := by
    refine Set.eq_empty_of_forall_notMem ?_
    rintro h ⟨r, found, -⟩
    have issued : h < 2 := next ▸ (c.mem.resources.issued h r found).2
    obtain rfl | rfl : h = 0 ∨ h = 1 :=
      Nat.le_one_iff_eq_zero_or_eq_one.1 (Nat.le_of_lt_succ issued)
    · rw [zero] at found
      cases found
    · rw [one] at found
      cases found
  have := agree.total
  rw [total, none, Set.ncard_empty] at this
  cases this

end MatrixRuntime.ResourceViews
