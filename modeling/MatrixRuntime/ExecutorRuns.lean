import MatrixRuntime.CompactJson
import MatrixRuntime.ExecutorStages

/-! Runs of the executor over any number of sessions and processes: a kernel call is begun at
most once under a key, and the ledger answers a redelivered call as its leg was answered. -/

namespace MatrixRuntime.ExecutorRuns

open JsonValue KeyedTable StoreLedger StoreCalls RouteExecutor ExecutorPermits ExecutorStages
open InterleavedMachine RelyGuarantee ThreadStates.Protocol Function

variable {text : JsonText} {peer : Nat → String} {reliable : Prop} {st st' : Nat → Stage}
  {o o' : Obs (executor text peer)} {i : Nat} {β : Type} {action : EAct β} {reply : β}
  {mem : ExecState} {key : OpKey} {request : Json} {principal rid id : String} {route : Nat}
  {place : Place} {permit : Permit} {α : Type} {old : OpRow} {t : Terminal} {a : Answer}
  {recorded : Option Json} {label : Label (executor text peer)} {answer : Except String Admission}
  {stored : Except String Unit} (event : EEnv) (s : ExecState)

theorem sem_disk (enabled : action.sem text o.mem = some (reply, mem)) : mem.disk = o.mem.disk := by
  cases action with
  | admitOperation =>
    simp only [EAct.sem, ExecState.stored] at enabled
    split at enabled <;> cases enabled <;> rfl
  | finish =>
    simp only [EAct.sem, ExecState.stored] at enabled
    split at enabled <;> cases enabled <;> rfl
  | terminal =>
    simp only [EAct.sem] at enabled
    split at enabled <;> cases enabled <;> rfl
  | submit | callKernel => cases enabled; rfl
  | _ => exact (sem_same enabled id).disk

/-! ### The invariant -/

/-- The row of a permit is admitted with its request, and no kernel call has been handed out
while the permit is fresh. -/
def Held (text : JsonText) (s : ExecState) (permit : Permit) : Prop :=
  (∃ old, row s permit.key = some old ∧ old.state = .admitted ∧
    old.request = text.encode permit.request) ∧ (permit.fresh = true → begun s permit.key = 0)

/-- Nobody may record under the key. -/
def Free (st : Nat → Stage) (key : OpKey) : Prop :=
  ∀ i place permit, st i = .holding place permit → permit.key ≠ key

def Entered (text : JsonText) (s : ExecState) (x : Settlement) : Prop :=
  ∃ new, row s x.key = some new ∧ new.request = text.encode x.request ∧ x.Recorded text new

structure Inv (reliable : Prop) (st : Nat → Stage) (o : Obs (executor text peer)) : Prop where
  disk : reliable → o.mem.disk = none
  held : ∀ i place permit, st i = .holding place permit → Held text o.mem permit
  alone : ∀ i j place place' p q, st i = .holding place p → st j = .holding place' q →
    p.key = q.key → i = j
  settled : ∀ i route x kept, st i = .settled route x kept →
    Entered text o.mem x ∧ Free st x.key
  agrees : reliable → ∀ i route key request t, st i = .told route key request t →
    AgreesBefore i o key request t
  once : ∀ key, begun o.mem key ≤ 1
  absent : ∀ key, row o.mem key = none → begun o.mem key = 0
  told : ∀ a ∈ o.mem.answers, ∀ recorded, a.source = .leg recorded →
    Told text o.mem.db a recorded ∧ Free st a.key
  named : ∀ key old, row o.mem key = some old →
    identified key = true ∧ old.request.utf8ByteSize ≤ maxBody

/-- A stage at which a thread has nothing it did not have before. -/
structure Fades (s s' : Stage) : Prop where
  holding : ∀ place permit, s' = .holding place permit → ∃ place', s = .holding place' permit
  settled : ∀ route x kept, s' = .settled route x kept → ∃ kept', s = .settled route x kept'

theorem Fades.refl (s : Stage) : Fades s s :=
  ⟨fun place _ h => ⟨place, h⟩, fun _ _ kept h => ⟨kept, h⟩⟩

theorem Fades.bare {s s' : Stage} (unheld : ∀ place permit, s' ≠ .holding place permit)
    (open_ : ∀ route x kept, s' ≠ .settled route x kept) : Fades s s' :=
  ⟨fun place permit h => absurd h (unheld place permit),
    fun route x kept h => absurd h (open_ route x kept)⟩

theorem Fades.moved {place' : Place} : Fades (.holding place permit) (.holding place' permit) := by
  refine ⟨fun _ _ h => ?_, fun _ _ _ h => nomatch h⟩
  cases h
  exact ⟨place, rfl⟩

theorem Fades.kept {x : Settlement} {kept kept' : Bool} :
    Fades (.settled route x kept) (.settled route x kept') := by
  refine ⟨fun _ _ h => (nomatch h), fun _ _ _ h => ?_⟩
  cases h
  exact ⟨kept, rfl⟩

theorem Fades.update {s : Stage} (fades : Fades (st i) s) (j : Nat) :
    Fades (st j) (update st i s j) := by
  by_cases own : j = i
  · subst own
    rwa [update_self]
  · rw [update_of_ne own]
    exact .refl _

theorem Free.fades (fades : ∀ j, Fades (st j) (st' j)) (free : Free st key) : Free st' key := by
  intro j place permit holds
  obtain ⟨place', held⟩ := (fades j).holding place permit holds
  exact free j place' permit held

theorem agreesBefore_congr (same : answeredBefore i o' = answeredBefore i o)
    (h : AgreesBefore i o key request t) : AgreesBefore i o' key request t := by
  unfold AgreesBefore
  rw [same]
  exact h

/-- Nothing that concerns the permits has changed, and threads have no more than before. -/
theorem Inv.fade (h : Inv reliable st o) (disk : reliable → o'.mem.disk = none)
    (db : o'.mem.db = o.mem.db) (answers : o'.mem.answers = o.mem.answers)
    (begun_same : ∀ key, begun o'.mem key = begun o.mem key) (fades : ∀ j, Fades (st j) (st' j))
    (agrees : reliable → ∀ j route key request t, st' j = .told route key request t →
      AgreesBefore j o' key request t) : Inv reliable st' o' where
  disk := disk
  held j place permit holds := by
    obtain ⟨place', before⟩ := (fades j).holding place permit holds
    obtain ⟨there, unbegun⟩ := h.held j place' permit before
    refine ⟨?_, fun fresh => (begun_same _).trans (unbegun fresh)⟩
    simpa [row, db] using there
  alone j k place place' p q hj hk keys := by
    obtain ⟨_, before⟩ := (fades j).holding place p hj
    obtain ⟨_, before'⟩ := (fades k).holding place' q hk
    exact h.alone j k _ _ p q before before' keys
  settled j route x kept hj := by
    obtain ⟨_, before⟩ := (fades j).settled route x kept hj
    obtain ⟨entered, free⟩ := h.settled j route x _ before
    exact ⟨by simpa [Entered, row, db] using entered, free.fades fades⟩
  agrees := agrees
  once key := (begun_same key).symm ▸ h.once key
  absent key none_there := by
    refine (begun_same key).trans (h.absent key ?_)
    simpa [row, db] using none_there
  told a ha recorded source := by
    rw [answers] at ha
    obtain ⟨told, free⟩ := h.told a ha recorded source
    exact ⟨db.symm ▸ told, free.fades fades⟩
  named key old there := h.named key old (by simpa [row, db] using there)

theorem update_eq {s x : Stage} {j : Nat} (h : update st i s j = x) :
    (j = i ∧ s = x) ∨ (j ≠ i ∧ st j = x) := by
  by_cases own : j = i
  · subst own
    rw [update_self] at h
    exact .inl ⟨rfl, h⟩
  · rw [update_of_ne own] at h
    exact .inr ⟨own, h⟩

/-- A thread goes to a stage with no more than it had, or is told what agrees. -/
theorem Inv.move {s : Stage} (h : Inv reliable st o) (same : Same o.mem mem)
    (enabled : action.sem text o.mem = some (reply, mem)) (fades : Fades (st i) s)
    (agrees : reliable → ∀ route key request t, s = .told route key request t →
      AgreesBefore i o key request t) :
    Inv reliable (update st i s) (o.acted i action reply mem) := by
  refine h.fade (fun served => same.disk.trans (h.disk served)) same.db same.answers
    (begun_same same) fades.update fun served j route key request t hj => ?_
  refine agreesBefore_congr (answeredBefore_acted j enabled) ?_
  rcases update_eq hj with ⟨rfl, own⟩ | ⟨-, before⟩
  · exact agrees served _ _ _ _ own
  · exact h.agrees served j _ _ _ _ before

/-- A thread whose permit is for another key, or that has none, leaves a key free. -/
theorem Free.update {s : Stage} (free : Free st key)
    (other : ∀ place permit, s = .holding place permit → permit.key ≠ key) :
    Free (update st i s) key := by
  intro j place permit holds
  rcases update_eq holds with ⟨-, own⟩ | ⟨-, before⟩
  · exact other place permit own
  · exact free j place permit before

/-- The entry of a new row, with its permit. -/
theorem Inv.granted {operations : Table OpKey OpRow} (h : Inv reliable st o)
    (absent : row o.mem (principal, id) = none)
    (named : identified (principal, id) = true ∧ (text.encode request).utf8ByteSize ≤ maxBody)
    (entered : o.mem.db.operations.insert (principal, id)
      ⟨text.encode request, .admitted, none⟩ = some operations)
    (enabled : EAct.sem text (.admitOperation principal id request) o.mem =
      some (.ok .new, { o.mem with db := { o.mem.db with operations } })) :
    Inv reliable (update st i (.holding place ⟨(principal, id), request, true⟩))
      (o.acted i (.admitOperation principal id request) (.ok .new)
        { o.mem with db := { o.mem.db with operations } }) := by
  have stays {key : OpKey} {old : OpRow} (there : row o.mem key = some old) :
      key ≠ (principal, id) ∧ operations.get key = some old := by
    refine ⟨?_, entered_there absent entered there⟩
    rintro rfl
    rw [absent] at there
    cases there
  have unheld : Free st (principal, id) := by
    intro j place permit holds
    obtain ⟨⟨old, there, -⟩, -⟩ := h.held j place permit holds
    exact (stays there).1
  have frees {key : OpKey} {old : OpRow} (there : row o.mem key = some old) (free : Free st key) :
      Free (update st i (.holding place ⟨(principal, id), request, true⟩)) key := by
    refine free.update fun place' permit' same => ?_
    cases same
    exact (stays there).1.symm
  refine ⟨h.disk, fun j place' permit' holds => ?_, fun j k _ _ p q hj hk keys => ?_,
    fun j route x kept hj => ?_, fun served j route key' request' t hj => ?_, h.once,
    fun key' none_there => ?_, fun a ha recorded source => ?_, fun key' old there => ?_⟩
  · rcases update_eq holds with ⟨-, same⟩ | ⟨-, before⟩
    · cases same
      refine ⟨⟨_, (Table.insert_get entered _).trans (if_pos rfl), rfl, rfl⟩, fun _ => ?_⟩
      exact h.absent _ absent
    · obtain ⟨⟨old, there, rest⟩, unbegun⟩ := h.held j place' permit' before
      exact ⟨⟨old, (stays there).2, rest⟩, unbegun⟩
  · rcases update_eq hj with ⟨rfl, same⟩ | ⟨-, before⟩ <;>
      rcases update_eq hk with ⟨rfl, same'⟩ | ⟨-, before'⟩
    · rfl
    · cases same
      exact absurd keys.symm (unheld k _ q before')
    · cases same'
      exact absurd keys (unheld j _ p before)
    · exact h.alone j k _ _ p q before before' keys
  · rcases update_eq hj with ⟨-, same⟩ | ⟨-, before⟩
    · cases same
    · obtain ⟨⟨new, there, rest⟩, free⟩ := h.settled j route x kept before
      exact ⟨⟨new, (stays there).2, rest⟩, frees there free⟩
  · rcases update_eq hj with ⟨-, same⟩ | ⟨-, before⟩
    · cases same
    · exact agreesBefore_congr (answeredBefore_acted j enabled) (h.agrees served j _ _ _ _ before)
  · have none_before : row o.mem key' = none := by
      cases there : row o.mem key' with
      | none => rfl
      | some old => exact absurd ((stays there).2.symm.trans none_there) (by simp)
    exact h.absent key' none_before
  · obtain ⟨told, free⟩ := h.told a ha recorded source
    refine ⟨told.there fun old there => (stays there).2, ?_⟩
    obtain ⟨-, old, -, there, -⟩ := told
    exact frees there free
  · have there' : operations.get key' = some old := there
    rw [Table.insert_get entered] at there'
    split at there'
    next same =>
      cases there'
      rw [same]
      exact named
    next => exact h.named key' old there'

/-- What `finish` leaves under the key of an admitted row. -/
theorem finish_rows {result : Json} {unknown : Bool}
    (enabled : EAct.sem text (.finish principal id result unknown) o.mem = some (stored, mem))
    (there : row o.mem (principal, id) = some old) (pending : old.state = .admitted) :
    ((∀ key, begun mem key = begun o.mem key) ∧ mem.answers = o.mem.answers) ∧
      (∀ key, key ≠ (principal, id) → row mem key = row o.mem key) ∧
      ∃ new, row mem (principal, id) = some new ∧ new.request = old.request ∧
        ∀ request, Settlement.Recorded ⟨(principal, id), request, result, unknown, stored.isOk⟩
          text new := by
  rcases finish_effect enabled with ⟨same, failed⟩ | ⟨rfl, old', there', -, rows, rest⟩
  · refine ⟨⟨begun_same same, same.answers⟩, fun key _ => by simp [row, same.db], old,
      by simpa [row, same.db] using there, rfl, fun request => ?_⟩
    unfold Settlement.Recorded
    rw [failed]
    exact pending
  · rw [there] at there'
    cases there'
    refine ⟨?_, fun key other => ?_, _, (rows _).trans (if_pos rfl), rfl, fun _ => ⟨rfl, rfl⟩⟩
    · rw [rest]
      exact ⟨fun _ => rfl, rfl⟩
    · rw [rows, if_neg other]

/-- A result is handed to the ledger, and the permit is spent. -/
theorem Inv.finished {result : Json} {unknown : Bool} {s : Stage}
    (h : Inv reliable st o) (holds : st i = .holding place permit)
    (own : permit.key = (principal, id)) (after : s = .off ∨ ∃ route, s = .settled route
      ⟨permit.key, permit.request, result, unknown, stored.isOk⟩ false)
    (enabled : EAct.sem text (.finish principal id result unknown) o.mem = some (stored, mem)) :
    Inv reliable (update st i s)
      (o.acted i (.finish principal id result unknown) stored mem) := by
  obtain ⟨_, request, fresh⟩ := permit
  obtain rfl : _ = (principal, id) := own
  obtain ⟨⟨old, there, pending, asked⟩, -⟩ := h.held i place _ holds
  obtain ⟨⟨begun_kept, answers⟩, rows, new, there', kept, taken⟩ :=
    finish_rows enabled there pending
  have spent (place' : Place) (permit' : Permit) : s ≠ .holding place' permit' := by
    rcases after with rfl | ⟨route, rfl⟩ <;> simp
  have frees {key : OpKey} (free : Free st key) : Free (update st i s) key :=
    free.update fun place' permit' same => absurd same (spent place' permit')
  have unheld : Free (update st i s) (principal, id) := by
    intro j place' permit' hj same
    rcases update_eq hj with ⟨-, now⟩ | ⟨other, before⟩
    · exact spent place' permit' now
    · exact other (h.alone j i _ _ _ _ before holds same)
  refine ⟨fun served => ?_, fun j place' permit' hj => ?_, fun j k _ _ p q hj hk keys => ?_,
    fun j route x kept hj => ?_, fun served j route key' request' t hj => ?_, fun key' => ?_,
    fun key' none_there => ?_, fun a ha recorded source => ?_, fun key' old' old_there => ?_⟩
  · exact (sem_disk enabled).trans (h.disk served)
  · rcases update_eq hj with ⟨-, now⟩ | ⟨other, before⟩
    · exact absurd now (spent place' permit')
    · obtain ⟨⟨old', there₁, rest⟩, unbegun⟩ := h.held j place' permit' before
      have differs := unheld j place' permit' hj
      exact ⟨⟨old', (rows _ differs).trans there₁, rest⟩,
        fun fresh => (begun_kept _).trans (unbegun fresh)⟩
  · rcases update_eq hj with ⟨-, now⟩ | ⟨-, before⟩
    · exact absurd now (spent _ p)
    rcases update_eq hk with ⟨-, now⟩ | ⟨-, before'⟩
    · exact absurd now (spent _ q)
    · exact h.alone j k _ _ p q before before' keys
  · rcases update_eq hj with ⟨-, now⟩ | ⟨-, before⟩
    · obtain rfl | ⟨route', rfl⟩ := after
      · cases now
      · cases now
        exact ⟨⟨new, there', kept.trans asked, taken request⟩, unheld⟩
    · obtain ⟨⟨new', there₁, rest⟩, free⟩ := h.settled j route x _ before
      have differs : x.key ≠ (principal, id) := (free i place _ holds).symm
      exact ⟨⟨new', (rows _ differs).trans there₁, rest⟩, frees free⟩
  · rcases update_eq hj with ⟨-, now⟩ | ⟨-, before⟩
    · obtain rfl | ⟨route', rfl⟩ := after <;> cases now
    · exact agreesBefore_congr (answeredBefore_acted j enabled) (h.agrees served j _ _ _ _ before)
  · exact (begun_kept key').symm ▸ h.once key'
  · refine (begun_kept key').trans (h.absent key' ?_)
    by_cases same : key' = (principal, id)
    · subst same
      rw [Obs.acted_mem, there'] at none_there
      cases none_there
    · exact (rows key' same).symm.trans none_there
  · rw [Obs.acted_mem, answers] at ha
    obtain ⟨told, free⟩ := h.told a ha recorded source
    have differs : a.key ≠ (principal, id) := (free i place _ holds).symm
    exact ⟨told.there fun old' there₁ => (rows _ differs).trans there₁, frees free⟩
  · by_cases same : key' = (principal, id)
    · subst same
      rw [Obs.acted_mem, there'] at old_there
      cases old_there
      obtain ⟨named, small⟩ := h.named _ old there
      exact ⟨named, kept ▸ small⟩
    · exact h.named key' old' ((rows key' same).symm.trans old_there)

/-- A kernel call is handed to a worker, and the permit is no longer fresh. -/
theorem Inv.started {w : Worker} (h : Inv reliable st o) (holds : st i = .holding place permit)
    (fresh : permit.fresh = true) (own : w.key = permit.key) (enabled : action.sem text o.mem =
      some (reply, { o.mem with workers := o.mem.workers ++ [w] })) :
    Inv reliable (update st i (.holding place { permit with fresh := false }))
      (o.acted i action reply { o.mem with workers := o.mem.workers ++ [w] }) := by
  have begun_next (k : OpKey) : begun { o.mem with workers := o.mem.workers ++ [w] } k =
      begun o.mem k + (Worker.pending k w).toNat := by
    simp only [begun, List.countP_append, List.countP_singleton, Nat.add_assoc]
    cases Worker.pending k w <;> simp
  have begun_other {k : OpKey} (other : k ≠ permit.key) :
      begun { o.mem with workers := o.mem.workers ++ [w] } k = begun o.mem k := by
    have idle : Worker.pending k w = false := by
      unfold Worker.pending
      split
      · simpa [own] using other.symm
      · rfl
    rw [begun_next, idle]
    rfl
  have before {j : Nat} {place' : Place} {p : Permit} (hj : update st i (.holding place
      { permit with fresh := false }) j = .holding place' p) :
      ∃ q, st j = .holding place' q ∧ q.key = p.key ∧ q.request = p.request ∧
        (p.fresh = true → j ≠ i ∧ q = p) := by
    rcases update_eq hj with ⟨rfl, same⟩ | ⟨other, before⟩
    · cases same
      exact ⟨permit, holds, rfl, rfl, fun fresh => by cases fresh⟩
    · exact ⟨p, before, rfl, rfl, fun _ => ⟨other, rfl⟩⟩
  have frees {key : OpKey} (free : Free st key) : Free (update st i
      (.holding place { permit with fresh := false })) key := by
    refine free.update fun place' permit' same => ?_
    cases same
    exact free i place permit holds
  obtain ⟨⟨old, there, -⟩, unbegun⟩ := h.held i place permit holds
  refine ⟨h.disk, fun j place' p hj => ?_, fun j k _ _ p q hj hk keys => ?_,
    fun j route x kept hj => ?_, fun served j route key' request' t hj => ?_, fun key' => ?_,
    fun key' none_there => ?_, fun a ha recorded source => ?_, h.named⟩
  · obtain ⟨q, held, hkey, hrequest, unspent⟩ := before hj
    obtain ⟨there', unbegun'⟩ := h.held j place' q held
    refine ⟨hkey ▸ hrequest ▸ there', fun fresh' => ?_⟩
    obtain ⟨other, rfl⟩ := unspent fresh'
    refine (begun_other fun same => ?_).trans (unbegun' fresh')
    exact other (h.alone j i _ _ _ _ held holds same)
  · obtain ⟨p', held, hp, -⟩ := before hj
    obtain ⟨q', held', hq, -⟩ := before hk
    exact h.alone j k _ _ p' q' held held' (hp.trans (keys.trans hq.symm))
  · rcases update_eq hj with ⟨-, same⟩ | ⟨-, was⟩
    · cases same
    · obtain ⟨entered, free⟩ := h.settled j route x kept was
      exact ⟨entered, frees free⟩
  · rcases update_eq hj with ⟨-, same⟩ | ⟨-, was⟩
    · cases same
    · exact agreesBefore_congr (answeredBefore_acted j enabled) (h.agrees served j _ _ _ _ was)
  · by_cases same : key' = permit.key
    · subst same
      rw [Obs.acted_mem, begun_next, unbegun fresh]
      cases Worker.pending permit.key w <;> simp
    · exact (begun_other same).symm ▸ h.once key'
  · refine (begun_other fun same => ?_).trans (h.absent key' none_there)
    rw [same, Obs.acted_mem] at none_there
    exact absurd (there.symm.trans none_there) (by simp)
  · obtain ⟨told, free⟩ := h.told a ha recorded source
    exact ⟨told, frees free⟩

/-- Another terminal is sent. -/
theorem Inv.sent (h : Inv reliable st o) (tells : (st i).tells text a)
    (enabled : EAct.sem text (.terminal rid a) o.mem = some ((), mem)) :
    Inv reliable st (o.acted i (.terminal rid a) () mem) := by
  have answered (j : Nat) := answeredBefore_acted (i := i) j enabled
  simp only [EAct.sem] at enabled
  split at enabled <;> cases enabled
  · refine h.fade h.disk rfl rfl (fun _ => rfl) (fun _ => .refl _) fun served j _ _ _ _ hj => ?_
    exact agreesBefore_congr (answered j) (h.agrees served j _ _ _ _ hj)
  · refine ⟨h.disk, h.held, h.alone, h.settled, fun served j _ _ _ _ hj => ?_, h.once, h.absent,
      fun a' ha recorded source => ?_, h.named⟩
    · exact agreesBefore_congr (answered j) (h.agrees served j _ _ _ _ hj)
    · rcases List.mem_cons.mp ha with rfl | before
      · rw [Stage.tells, source] at tells
        obtain ⟨route, x, kept, there, keyed, asked, backs⟩ := tells
        obtain ⟨⟨new, entered, request, holds⟩, free⟩ := h.settled i route x kept there
        exact ⟨Settlement.told entered request holds keyed asked backs, keyed ▸ free⟩
      · exact h.told a' before recorded source

/-! ### The answers of the ledger -/

/-- A row that a leg was told of answers a redelivered call as the leg was answered. -/
theorem replay_agrees {r : Json} (asked : a.request = some r) (hreq : old.request = text.encode r)
    (small : old.request.utf8ByteSize ≤ maxBody)
    (holds : match recorded with
      | some done => old.state = .completed ∧ old.result = some (text.encode done) ∧
          a.terminal = ledgerTerminal text done
      | none => old.state ≠ .completed ∨
          (old.result = some (text.encode staleResult) ∧ a.terminal = staleTerminal)) :
    Agrees text a recorded request (admissionTerminal text
      (if maxBody < (text.encode request).utf8ByteSize then .error "resource-exhausted"
        else replay text old (text.encode request))) := by
  intro r' asked'
  rw [asked] at asked'
  cases asked'
  refine ⟨fun differs => ?_, fun same => ?_⟩
  · by_cases large : maxBody < (text.encode request).utf8ByteSize
    · exact .inr ⟨by rw [if_pos large]; rfl, large⟩
    · refine .inl ?_
      rw [if_neg large, replay, if_pos (by rw [hreq]; exact differs)]
      rfl
  · rw [← same, ← hreq, if_neg (Nat.not_lt.mpr small), replay, if_neg (by simp)]
    cases recorded with
    | some done =>
      obtain ⟨completed, hresult, told⟩ := holds
      intro lossless
      rw [if_pos completed, hresult, told]
      simp [lossless, Except.map, admissionTerminal]
    | none =>
      by_cases completed : old.state = .completed
      · obtain ⟨hresult, told⟩ := holds.resolve_left (absurd completed)
        refine .inr ⟨told, fun lossless => ?_⟩
        rw [if_pos completed, hresult]
        simp [lossless, Except.map, admissionTerminal]
      · rw [if_neg completed]
        exact .inl rfl

/-- What an admission that grants nothing tells agrees with what was told before. -/
theorem admission_agrees (inv : Inv reliable st o) (served : o.mem.disk = none)
    (enabled : EAct.sem text (.admitOperation principal id request) o.mem = some (answer, mem)) :
    AgreesBefore i o (principal, id) request (admissionTerminal text answer) := by
  intro first before recorded source hkey
  obtain ⟨⟨r, old, asked, there, hreq, holds⟩, -⟩ :=
    inv.told first (List.mem_of_mem_drop before) recorded source
  rw [hkey] at there
  obtain ⟨named, small⟩ := inv.named _ old there
  simp only [EAct.sem, ExecState.stored, served] at enabled
  cases enabled
  rw [admit_there named there]
  exact replay_agrees asked hreq small holds

/-! ### Steps -/

/-- An admission that grants nothing. -/
theorem Inv.refused (h : Inv reliable st o) (same : Same o.mem mem) (refused : answer ≠ .ok .new)
    (allows : (st i).allows text peer (.admitOperation principal id request))
    (enabled : EAct.sem text (.admitOperation principal id request) o.mem = some (answer, mem)) :
    Inv reliable (update st i
        ((st i).next text (.admitOperation principal id request) answer))
      (o.acted i (.admitOperation principal id request) answer mem) := by
  rcases allows with there | ⟨route, there, -⟩
  · have stays : Stage.next text (.admitOperation principal id request) answer .off = .off := by
      rcases answer with e | ⟨_ | _ | _⟩ <;> first | rfl | exact absurd rfl refused
    rw [there, stays]
    exact h.move same enabled (.bare nofun nofun) fun _ _ _ _ _ told => nomatch told
  · have told : Stage.next text (.admitOperation principal id request) answer (.serving route) =
        .told route (principal, id) request (admissionTerminal text answer) := by
      rcases answer with e | ⟨_ | _ | _⟩ <;> first | rfl | exact absurd rfl refused
    rw [there, told]
    refine h.move same enabled (.bare nofun nofun) fun served _ _ _ _ same => ?_
    cases same
    exact admission_agrees h (h.disk served) enabled

theorem Inv.act (h : Inv reliable st o) (allows : (st i).allows text peer action)
    (enabled : action.sem text o.mem = some (reply, mem)) :
    Inv reliable (update st i ((st i).next text action reply))
      (o.acted i action reply mem) := by
  cases action with
  | admitOperation principal id request =>
    rcases admit_effect enabled with
      ⟨same, refused⟩ | ⟨rfl, absent, named, operations, entered, rfl⟩
    · exact h.refused same refused allows enabled
    · rcases allows with there | ⟨route, there, -⟩ <;> rw [there] <;>
        exact h.granted absent named entered enabled
  | finish principal id result unknown =>
    obtain ⟨place, permit, there, own, rfl | ⟨route, rfl⟩⟩ := allows <;> rw [there]
    · exact h.finished there own (.inl rfl) enabled
    · exact h.finished there own (.inr ⟨route, rfl⟩) enabled
  | submit key owner cap input =>
    obtain ⟨place, permit, there, rfl, fresh⟩ := allows
    cases enabled
    rw [there]
    exact h.started there fresh rfl rfl
  | callKernel key owner cap input =>
    obtain ⟨place, permit, there, rfl, fresh⟩ := allows
    cases enabled
    rw [there]
    exact h.started there fresh rfl rfl
  | terminal rid a =>
    have sent := h.sent allows enabled
    rwa [show (st i).next text (.terminal rid a) reply = st i from rfl, update_eq_self]
  | insertOpening route rid operation =>
    obtain ⟨permit, there, -⟩ := allows
    refine h.move (sem_same enabled id) enabled ?_ ?_ <;> rw [there]
    · exact .moved
    · exact fun _ _ _ _ _ told => nomatch told
  | spawnLeg route =>
    obtain ⟨permit, there⟩ := allows
    refine h.move (sem_same enabled id) enabled ?_ ?_ <;> rw [there] <;> cases reply
    · exact .bare nofun nofun
    · exact .moved
    · exact fun _ _ _ _ _ told => nomatch told
    · exact fun _ _ _ _ _ told => nomatch told
  | insertLeg route operation =>
    obtain ⟨x, there, -⟩ := allows
    refine h.move (sem_same enabled id) enabled ?_ ?_ <;> rw [there]
    · exact .kept
    · exact fun _ _ _ _ _ told => nomatch told
  | legEnds route =>
    obtain ⟨x, kept, there⟩ := allows
    refine h.move (sem_same enabled id) enabled ?_ ?_ <;> rw [there]
    · exact .bare nofun nofun
    · exact fun _ _ _ _ _ told => nomatch told
  | _ => exact h.move (sem_same enabled id) enabled (.refl _) fun served => h.agrees served i

/-- An operation starts or ends. -/
theorem Inv.log {s : Stage} (h : Inv reliable st o) (own : label.thread = some i)
    (quiet : ∀ (i : Nat) (β : Type) (a : EAct β) b, label ≠ .act i a b)
    (bare : s = .off ∨ ∃ route, s = .serving route) :
    Inv reliable (update st i s) (o.log label) := by
  refine h.fade h.disk rfl rfl (fun _ => rfl) (Fades.update (.bare ?_ ?_))
    fun served j route key request t hj => ?_
  · rcases bare with rfl | ⟨route, rfl⟩ <;> exact nofun
  · rcases bare with rfl | ⟨route, rfl⟩ <;> exact nofun
  · rcases update_eq hj with ⟨-, same⟩ | ⟨other, before⟩
    · rcases bare with rfl | ⟨route, rfl⟩ <;> cases same
    · refine agreesBefore_congr ?_ (h.agrees served j _ _ _ _ before)
      cases label with
      | start k op =>
        cases own
        simp [answeredBefore, sentSince, other.symm]
      | act k a b => exact absurd rfl (quiet k _ a b)
      | done => rfl
      | env => rfl

/-! ### The environment and restarts -/

theorem env_db : (event.run s).db = s.db := by
  cases event with
  | begins worker =>
    simp only [EEnv.run, ExecState.begins]
    split <;> rfl
  | _ => rfl

theorem env_answers : (event.run s).answers = s.answers := by
  cases event with
  | begins worker =>
    simp only [EEnv.run, ExecState.begins]
    split <;> rfl
  | _ => rfl

theorem countP_modify {p : α → Bool} {f : α → α} {xs : List α} {n : Nat} {x : α}
    (h : xs[n]? = some x) :
    (xs.modify n f).countP p + (p x).toNat = xs.countP p + (p (f x)).toNat := by
  induction xs generalizing n with
  | nil => simp at h
  | cons y ys ih =>
    cases n with
    | zero =>
      cases h
      simp only [List.modify_zero_cons, List.countP_cons]
      cases p x <;> cases p (f x) <;> simp
    | succ n =>
      have rest := ih (n := n) (by simpa using h)
      simp only [List.modify_succ_cons, List.countP_cons]
      omega

theorem countP_modify_same {p : α → Bool} {f : α → α} (xs : List α) (n : Nat)
    (same : ∀ x, p (f x) = p x) : (xs.modify n f).countP p = xs.countP p := by
  cases h : xs[n]? with
  | none =>
    rw [List.modify_eq_self (List.getElem?_eq_none_iff.mp h)]
  | some x =>
    have count := countP_modify (p := p) (f := f) h
    rw [same] at count
    omega

theorem begun_begins (worker : Nat) (key : OpKey) : begun (s.begins worker) key = begun s key := by
  unfold ExecState.begins
  split
  next k owner cap input expired there =>
    have count := countP_modify (p := Worker.pending key)
      (f := fun w : Worker => { w with state := .running }) there
    simp only [begun, ExecState.editWorker, List.count_cons]
    simp only [Worker.pending] at count ⊢
    by_cases own : k = key
    · simp [own] at count ⊢
      omega
    · simp [own] at count ⊢
      omega
  next => rfl

theorem begun_passed (key : OpKey) : begun (event.run s) key = begun s key := by
  cases event with
  | begins worker => exact begun_begins s worker key
  | returns worker value ok =>
    simp only [EEnv.run, ExecState.returns, ExecState.editWorker, begun]
    rw [countP_modify_same]
    intro w
    obtain ⟨k, owner, cap, input, state, expired⟩ := w
    cases state <;> rfl
  | dies worker =>
    simp only [EEnv.run, ExecState.dies, ExecState.editWorker, begun]
    rw [countP_modify_same]
    intro w
    obtain ⟨k, owner, cap, input, state, expired⟩ := w
    cases state <;> rfl
  | expires worker =>
    simp only [EEnv.run, ExecState.editWorker, begun]
    rw [countP_modify_same]
    exact fun _ => rfl
  | _ => rfl

theorem Inv.env (h : Inv reliable st o) (event : EEnv)
    (ok : reliable → serving (.env event : Label (executor text peer))) :
    Inv reliable st (o.passed event) := by
  refine h.fade (fun served => ?_) (env_db event o.mem) (env_answers event o.mem)
    (begun_passed event o.mem) (fun _ => .refl _) fun served j _ _ _ _ hj => ?_
  · have before := h.disk served
    cases event with
    | disk complaint => exact ok served
    | begins worker =>
      rw [Obs.passed_mem]
      simp only [executor, EEnv.run, ExecState.begins]
      split <;> exact before
    | _ => exact before
  · refine agreesBefore_congr ?_ (h.agrees served j _ _ _ _ hj)
    unfold answeredBefore
    rw [show (o.passed event).mem.answers = o.mem.answers from env_answers event o.mem]
    rfl

theorem preserved (text : JsonText) (peer : Nat → String) (reliable : Prop) :
    (stages text peer).Preserved (fun _ label => reliable → serving label) (Inv reliable) where
  start {st o i op} _ h _ _ := by
    refine h.log rfl (by simp) ?_
    cases op with
    | callOpen route env => exact .inr ⟨route, rfl⟩
    | _ => exact .inl rfl
  act _ h allows enabled _ := h.act allows enabled
  done _ h _ _ := h.log rfl (by simp) (.inl rfl)
  env h ok := h.env _ ok

/-- A process that has just been started: no sessions, nothing running. -/
structure Booted (s : ExecState) : Prop where
  routes : s.routes = fun _ => .empty
  workers : s.workers = []
  executing : s.executing = fun _ => 0

/-- The first process, over a new database. -/
structure Fresh (s : ExecState) : Prop extends Booted s where
  db : s.db = .fresh
  started : s.started = []
  answers : s.answers = []

/-- A new process over the database the last one left. -/
structure Restarted (s s' : ExecState) : Prop extends Booted s' where
  opened : ∃ epoch, (reopen s.db).1 = .ok epoch
  db : s'.db = (reopen s.db).2
  started : s'.started = s.started
  answers : s'.answers = s.answers

theorem Fresh.inv {s : ExecState} (h : Fresh s) (disk : reliable → s.disk = none) :
    Inv reliable (fun _ => .off) (⟨s, []⟩ : Obs (executor text peer)) := by
  have none_begun : ∀ key, begun s key = 0 := by
    intro key
    simp [begun, h.started, h.workers]
  have none_there : ∀ key, row s key = none := by
    intro key
    simp [row, h.db, Db.fresh]
  refine ⟨disk, ?_, ?_, ?_, ?_, fun key => ?_, fun key _ => none_begun key, fun a ha => ?_,
    fun key old there => ?_⟩
  · rintro i place permit ⟨⟩
  · rintro i j place place' p q ⟨⟩
  · rintro i route x kept ⟨⟩
  · rintro _ i route key request t ⟨⟩
  · exact (none_begun key).symm ▸ Nat.zero_le 1
  · rw [show (⟨s, []⟩ : Obs (executor text peer)).mem.answers = [] from h.answers] at ha
    exact absurd ha List.not_mem_nil
  · rw [none_there] at there
    cases there

/-- What a row has become when the store is opened again. -/
def reopened (old : OpRow) : OpRow :=
  if old.state = .admitted then { old with state := .unknown } else old

theorem reopen_row {db : Db} {epoch : Nat} (opened : (reopen db).1 = .ok epoch) (key : OpKey) :
    (reopen db).2.operations.get key = (db.operations.get key).map reopened := by
  rw [(reopen_ok opened).2]
  simp only [Table.modify_get]
  cases db.operations.get key with
  | none => rfl
  | some old =>
    by_cases pending : old.state = .admitted <;> simp [reopened, pending]

theorem reopened_request (old : OpRow) : (reopened old).request = old.request := by
  unfold reopened
  split <;> rfl

theorem told_reopened {db db' : Db}
    (rows : ∀ key, db'.operations.get key = (db.operations.get key).map reopened)
    (h : Told text db a recorded) : Told text db' a recorded := by
  obtain ⟨request, old, asked, there, hreq, holds⟩ := h
  refine ⟨request, reopened old, asked, by rw [rows, there]; rfl,
    (reopened_request old).trans hreq, ?_⟩
  by_cases pending : old.state = .admitted
  · have left_open : reopened old = { old with state := .unknown } := if_pos pending
    rw [left_open]
    cases recorded with
    | some done =>
      rw [pending] at holds
      exact absurd holds.1 (by simp)
    | none => exact .inl (by simp)
  · have kept : reopened old = old := if_neg pending
    rw [kept]
    exact holds

theorem Restarted.inv {s : ExecState} (h : Inv reliable st o) (restarted : Restarted o.mem s)
    (disk : reliable → s.disk = none) :
    Inv reliable (fun _ => .off) (⟨s, []⟩ : Obs (executor text peer)) := by
  obtain ⟨epoch, opened⟩ := restarted.opened
  have rows : ∀ key, row s key = (row o.mem key).map reopened := by
    intro key
    rw [row, restarted.db]
    exact reopen_row opened key
  have fewer : ∀ key, begun s key ≤ begun o.mem key := by
    intro key
    simp [begun, restarted.started, restarted.workers]
  refine ⟨disk, ?_, ?_, ?_, ?_, fun key => ?_, fun key none_there => ?_,
    fun a ha recorded source => ?_, fun key old there => ?_⟩
  · rintro i place permit ⟨⟩
  · rintro i j place place' p q ⟨⟩
  · rintro i route x kept ⟨⟩
  · rintro _ i route key request t ⟨⟩
  · exact Nat.le_trans (fewer key) (h.once key)
  · have before : row o.mem key = none := by simpa [rows] using none_there
    exact Nat.le_zero.mp (h.absent key before ▸ fewer key)
  · rw [show (⟨s, []⟩ : Obs (executor text peer)).mem.answers = o.mem.answers from
      restarted.answers] at ha
    refine ⟨told_reopened rows (h.told a ha recorded source).1, ?_⟩
    rintro i place permit ⟨⟩
  · rw [rows, Option.map_eq_some_iff] at there
    obtain ⟨old', there', rfl⟩ := there
    rw [reopened_request]
    exact h.named key old' there'

/-! ### Schedules -/

def provider : KernelContexts.InstanceRef := ⟨1, 1, 1, "echo", 1⟩

/-- A lease, a grant and an activation for one capability. -/
def granted : Authority where
  now := 0
  leases := [("lease", ⟨"peer", "echo", 1, 100, provider, false, false⟩)]
  grants := [("peer", ["echo.say"])]
  revoked := []
  caps := [("echo", ["echo.say"])]
  current := [("echo", provider)]

def booted (db : Db) (started : List OpKey) (answers : List Answer) : ExecState where
  db := db
  disk := none
  authority := granted
  spawns := true
  routes := fun _ => .empty
  workers := []
  started := started
  answers := answers
  executing := fun _ => 0

/-- A `call.open` under an operation id. -/
def callOpenFrame (operation : String) (input : Json) : Json :=
  .obj [("body", .obj [("cap", .str "echo.say"), ("input", input), ("lease", .str "lease"),
    ("operation_id", .str operation)]), ("request_id", .str "r-1")]

def callCancelFrame (operation : String) : Json :=
  .obj [("body", .obj [("operation_id", .str operation)])]

abbrev demo := executor CompactJson.compact fun _ => "peer"

theorem booted_fresh : Fresh (booted .fresh [] []) := ⟨⟨rfl, rfl, rfl⟩, rfl, rfl, rfl⟩

def serves : Label demo → Bool
  | .env (.disk complaint) => complaint.isNone
  | _ => true

/-- A schedule, and after a restart another one. -/
def played (first second : List (Turn demo)) : Option (Config demo) :=
  ((Config.boot (booted .fresh [] [])).play (fun _ => serves) 60 first).bind fun c =>
    if (reopen c.mem.db).1.isOk then
      (Config.boot (booted (reopen c.mem.db).2 c.mem.started c.mem.answers)).play
        (fun _ => serves) 60 second
    else none

theorem serves_serving {label : Label demo} (h : serves label = true) : serving label := by
  unfold serves at h
  split at h
  next complaint => exact Option.isNone_iff_eq_none.mp h
  next plain =>
    unfold serving
    split
    next complaint => exact absurd rfl (plain complaint)
    next => trivial

theorem played_lives {first second : List (Turn demo)} {c : Config demo}
    (h : played first second = some c) :
    Lives (fun _ => serving) (fun s => Fresh s ∧ s.disk = none)
      (fun s s' => Restarted s s' ∧ s'.disk = none) c := by
  obtain ⟨c₁, h₁, h₂⟩ := Option.bind_eq_some_iff.mp h
  split at h₂
  next opened =>
    have run₁ := (Config.play_run h₁).mono fun _ _ served => serves_serving served
    have run₂ := (Config.play_run h₂).mono fun _ _ served => serves_serving served
    refine .again (.first ⟨booted_fresh, rfl⟩ run₁) ?_ run₂
    refine ⟨⟨⟨rfl, rfl, rfl⟩, ?_, rfl, rfl, rfl⟩, rfl⟩
    cases hopen : (reopen c₁.mem.db).1 with
    | error e =>
      rw [hopen] at opened
      cases opened
    | ok epoch => exact ⟨epoch, rfl⟩
  next => cases h₂

/-- Over every order of frames, sessions and restarts the kernel call of an operation is begun
at most once. -/
theorem kernel_call_begun_once {c : Config (executor text peer)}
    (lives : Lives (fun _ _ => True) Fresh Restarted c) (key : OpKey) :
    c.mem.started.count key ≤ 1 := by
  obtain ⟨st, -, inv, -⟩ := (preserved text peer False).lives code_follows
    (fun _ fresh => fresh.inv False.elim) (fun _ _ _ inv restarted => restarted.inv inv False.elim)
    (lives.mono (fun _ _ _ never => never.elim) (fun _ h => h) fun _ _ h => h)
  have once := inv.once key
  unfold begun at once
  omega

/-- The call is begun, the process dies, and the call is delivered again. -/
theorem kernel_call_begun_once_after_restart : ∃ c : Config demo,
    Lives (fun _ _ => True) Fresh Restarted c ∧ c.mem.started = [("peer", "op-1")] ∧
      c.mem.answers.length = 1 ∧ ∀ key, c.mem.started.count key ≤ 1 := by
  have plays : (played
      [.start 0 (.callOpen 0 (callOpenFrame "op-1" .null)), .steps 0 13, .env (.begins 0)]
      [.start 0 (.callOpen 0 (callOpenFrame "op-1" .null)), .finish 0]).any
      (fun c => decide (c.mem.started = [("peer", "op-1")] ∧ c.mem.answers.length = 1)) = true := by
    decide +kernel
  obtain ⟨c, hc, holds⟩ := (Option.any_eq_true _ _).mp plays
  have lives := (played_lives hc).mono (fun _ _ _ => trivial) (fun _ h => h.1) fun _ _ h => h.1
  exact ⟨c, lives, (of_decide_eq_true holds).1, (of_decide_eq_true holds).2,
    kernel_call_begun_once lives⟩

/-- The terminal a label sends. -/
def sends : Label demo → Option (Nat × String × Answer)
  | .act i (.terminal rid a) _ => some (i, rid, a)
  | _ => none

theorem sends_eq {label : Label demo} (h : sends label = some (i, rid, a)) :
    label = .act i (.terminal rid a) () := by
  unfold sends at h
  split at h
  · cases h
    rfl
  · cases h

/-- Thread 0 is about to send `a`, and `firsts` had been sent when its call arrived. -/
def about (a : Answer) (firsts : List Answer) (c : Config demo) : Bool :=
  (c.next (.step 0)).any (fun next => decide (sends next.1 = some (0, "r-1", a))) &&
    decide (answeredBefore 0 c.toObs = firsts)

theorem about_step {firsts : List Answer} {c : Config demo} (h : about a firsts c = true) :
    (∃ c', Step c (.act 0 (.terminal "r-1" a) ()) c') ∧ answeredBefore 0 c.toObs = firsts := by
  simp only [about, Bool.and_eq_true, decide_eq_true_eq] at h
  obtain ⟨⟨label, c'⟩, hnext, hsends⟩ := (Option.any_eq_true _ _).mp h.1
  refine ⟨⟨c', ?_⟩, h.2⟩
  rw [← sends_eq (of_decide_eq_true hsends)]
  exact Config.next_step hnext

def saying (input : Json) : Json :=
  .obj [("cap", .str "echo.say"), ("input", input), ("logical", .str "echo")]

end MatrixRuntime.ExecutorRuns
