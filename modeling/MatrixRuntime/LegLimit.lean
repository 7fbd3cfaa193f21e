import MatrixRuntime.ExecutorRuns

/-! The leg limit of a route. The table it is read from holds the legs that were answered, and
nothing leaves it, so it bounds neither the legs that run nor only them. -/

namespace MatrixRuntime.LegLimit

open JsonValue KeyedTable StoreLedger StoreCalls RouteExecutor ExecutorRuns ExecutorStages
open InterleavedProgram InterleavedMachine ThreadStates.Protocol Function

variable {text : JsonText} {peer : Nat → String} {op : EOp}
  {rid operation : String} {s : ExecState} {n : Nat} {res : Option (Except String Json)}
  {f : RouteTables → RouteTables}

/-! ### Calls in progress -/

/-- The `call.open` frames of a route that are being served. -/
def openCalls (route : Nat) : List (Label (executor text peer)) → Nat
  | [] => 0
  | .start _ (.callOpen r _) :: past =>
    if r = route then openCalls route past + 1 else openCalls route past
  | .done _ (.callOpen r _) _ :: past =>
    if r = route then openCalls route past - 1 else openCalls route past
  | _ :: past => openCalls route past

/-- A call arrives on a route only while the calls in progress and the legs in its table
together leave room for two more. -/
def roomy (o : Obs (executor text peer)) : Label (executor text peer) → Prop
  | .start _ (.callOpen route _) =>
    openCalls route o.trace + (o.mem.routes route).legs.length + 1 < maxLegs
  | _ => True

instance (o : Obs (executor text peer)) (label : Label (executor text peer)) :
    Decidable (roomy o label) :=
  match label with
  | .start _ (.callOpen route _) => inferInstanceAs (Decidable
      (openCalls route o.trace + (o.mem.routes route).legs.length + 1 < maxLegs))
  | .start _ (.callCancel _ _) => .isTrue trivial
  | .start _ (.invoke _ _ _ _ _ _) => .isTrue trivial
  | .act _ _ _ => .isTrue trivial
  | .done _ _ _ => .isTrue trivial
  | .env _ => .isTrue trivial

/-! ### What the stages of the threads say -/

/-- The thread serves a call of the route. -/
def calling (route : Nat) : Stage → Bool
  | .serving r | .told r _ _ _ | .settled r _ _ | .ended r => r == route
  | .holding (.admitted r) _ | .holding (.opened r) _ | .holding (.leg r) _ => r == route
  | .off | .holding .invoke _ => false

/-- The thread runs a leg of the route. -/
def running (route : Nat) : Stage → Bool
  | .holding (.leg r) _ | .settled r _ _ => r == route
  | _ => false

/-- The thread serves a call of the route that may still put a leg into the table. -/
def owing (route : Nat) : Stage → Bool
  | .serving r | .settled r _ false => r == route
  | .holding (.admitted r) _ | .holding (.opened r) _ | .holding (.leg r) _ => r == route
  | _ => false

structure Inv (st : Nat → Stage) (o : Obs (executor text peer)) : Prop where
  calls : ∀ route, openCalls route o.trace = count (calling route) st
  within : ∀ route, openCalls route o.trace ≤ maxLegs
  executing : ∀ route, o.mem.executing route = count (running route) st
  legs : ∀ route, (o.mem.routes route).legs.length + count (owing route) st < maxLegs

variable {st : Nat → Stage} {o : Obs (executor text peer)} {i : Nat} {β : Type} {action : EAct β}
  {reply : β} {mem : ExecState} {route : Nat}

theorem editRoute_legs {r : Nat} (same : ∀ t, (f t).legs = t.legs) :
    ((s.editRoute r f).routes route).legs = (s.routes route).legs := by
  unfold ExecState.editRoute
  by_cases own : route = r
  · subst own
    simp [same]
  · simp [update_of_ne own]

/-- A thread goes to another stage of its call. -/
theorem Inv.move {now later : Stage} (h : Inv st o) (sparse : (stages text peer).Sparse st)
    (there : st i = now) (call : ∀ r, calling r later = calling r now)
    (executing : ∀ r, mem.executing r + (running r now).toNat =
      o.mem.executing r + (running r later).toNat)
    (legs : ∀ r, (mem.routes r).legs.length + (owing r later).toNat ≤
      (o.mem.routes r).legs.length + (owing r now).toNat) :
    Inv (update st i later) (o.acted i action reply mem) := by
  subst there
  refine ⟨fun r => ?_, h.within, fun r => ?_, fun r => ?_⟩
  · have moved := count_update sparse (p := calling r) rfl i later
    rw [call r] at moved
    exact (h.calls r).trans (Nat.add_right_cancel moved).symm
  · have moved := count_update sparse (p := running r) rfl i later
    have before := h.executing r
    have changed := executing r
    rw [Obs.acted_mem]
    omega
  · have moved := count_update sparse (p := owing r) rfl i later
    have before := h.legs r
    have changed := legs r
    rw [Obs.acted_mem]
    omega

/-- The actions that run, keep or end a leg. -/
def moves {β : Type} : EAct β → Prop
  | .spawnLeg _ => True
  | .insertLeg _ _ => True
  | .legEnds _ => True
  | _ => False

/-- Other actions leave the running legs and the leg tables alone. -/
theorem sem_legs (enabled : action.sem text o.mem = some (reply, mem)) (other : ¬ moves action) :
    mem.executing = o.mem.executing ∧
      ∀ route, (mem.routes route).legs = (o.mem.routes route).legs := by
  cases action with
  | spawnLeg | legEnds | insertLeg => exact absurd trivial other
  | admitOperation | finish =>
    simp only [EAct.sem, ExecState.stored] at enabled
    split at enabled <;> cases enabled <;> exact ⟨rfl, fun _ => rfl⟩
  | operation | terminal =>
    simp only [EAct.sem] at enabled
    split at enabled <;> cases enabled <;> exact ⟨rfl, fun _ => rfl⟩
  | awaitBudget | awaitReturn =>
    simp only [EAct.sem] at enabled
    repeat' split at enabled
    all_goals cases enabled <;> exact ⟨rfl, fun _ => rfl⟩
  | insertOpening | removeOpening | insertCancelled | removeCancelled | insertProvider =>
    cases enabled
    exact ⟨rfl, fun _ => editRoute_legs fun _ => rfl⟩
  | _ =>
    cases enabled
    exact ⟨rfl, fun _ => rfl⟩

/-- Other actions change nothing that is counted, but that a call may be answered without a leg. -/
theorem next_counts {s : Stage} (allows : s.allows text peer action) (other : ¬ moves action)
    (reply : β) (r : Nat) : calling r (s.next text action reply) = calling r s ∧
      running r (s.next text action reply) = running r s ∧
      (owing r (s.next text action reply)).toNat ≤ (owing r s).toNat := by
  cases action with
  | spawnLeg | legEnds | insertLeg => exact absurd trivial other
  | admitOperation =>
    rcases allows with rfl | ⟨route, rfl, -⟩ <;> rcases reply with e | ⟨_ | _ | _⟩ <;>
      exact ⟨rfl, rfl, by simp [Stage.next, owing]⟩
  | insertOpening =>
    obtain ⟨permit, rfl, -⟩ := allows
    exact ⟨rfl, rfl, Nat.le_refl _⟩
  | submit | callKernel =>
    obtain ⟨place, permit, rfl, -⟩ := allows
    cases place <;> exact ⟨rfl, rfl, Nat.le_refl _⟩
  | finish =>
    obtain ⟨place, permit, rfl, -, rfl | ⟨route, rfl⟩⟩ := allows <;>
      exact ⟨rfl, rfl, Nat.le_refl _⟩
  | _ => exact ⟨rfl, rfl, Nat.le_refl _⟩

theorem Inv.act (h : Inv st o) (sparse : (stages text peer).Sparse st)
    (allows : (st i).allows text peer action)
    (enabled : action.sem text o.mem = some (reply, mem)) :
    Inv (update st i ((st i).next text action reply)) (o.acted i action reply mem) := by
  have rest (other : ¬ moves action) :
      Inv (update st i ((st i).next text action reply))
        (o.acted i action reply mem) := by
    obtain ⟨executing, legs⟩ := sem_legs enabled other
    have counts := next_counts allows other reply
    refine h.move sparse rfl (fun r => (counts r).1) (fun r => ?_) fun r => ?_
    · rw [executing, (counts r).2.1]
    · rw [legs r]
      exact Nat.add_le_add_left (counts r).2.2 _
  cases action with
  | spawnLeg r =>
    obtain ⟨permit, there⟩ := allows
    rw [there]
    simp only [EAct.sem] at enabled
    split at enabled <;> cases enabled
    · change Inv (update st i (.holding (.leg r) permit)) _
      refine h.move sparse there (fun _ => rfl) (fun r' => ?_) fun _ => Nat.le_refl _
      by_cases own : r' = r
      · simp [own, running]
      · simp [own, Ne.symm own, running]
    · exact h.move sparse there (fun _ => rfl) (fun _ => rfl) fun _ => Nat.le_add_right _ _
  | insertLeg r operation =>
    obtain ⟨x, there, -⟩ := allows
    cases enabled
    rw [there]
    refine h.move sparse there (fun _ => rfl) (fun _ => rfl) fun r' => ?_
    by_cases own : r' = r
    · subst own
      simp only [ExecState.editRoute, update_self, List.length_insert]
      split <;> simp [Stage.next, owing]
    · simp [ExecState.editRoute, own, Stage.next, owing]
  | legEnds r =>
    obtain ⟨x, kept, there⟩ := allows
    cases enabled
    rw [there]
    change Inv (update st i (.ended r)) _
    refine h.move sparse there (fun _ => rfl) (fun r' => ?_) fun _ => Nat.le_add_right _ _
    have left := count_update sparse (p := running r') rfl i (.ended r)
    rw [there, ← h.executing r'] at left
    by_cases own : r' = r
    · subst own
      simp only [update_self, running, beq_self_eq_true, Bool.toNat_true,
        Bool.toNat_false] at left ⊢
      omega
    · simp [own, Ne.symm own, running]
  | _ => exact rest id

theorem apart_counts {s : Stage} (apart : s.apart) (r : Nat) :
    calling r s = false ∧ running r s = false ∧ owing r s = false := by
  cases s with
  | off => exact ⟨rfl, rfl, rfl⟩
  | holding place permit =>
    cases place with
    | invoke => exact ⟨rfl, rfl, rfl⟩
    | _ => exact apart.elim
  | _ => exact apart.elim

theorem ends_counts {s : Stage} (ends : s.ends route) (r : Nat) :
    calling r s = (route == r) ∧ running r s = false := by
  cases s with
  | serving | told | ended =>
    cases ends
    exact ⟨rfl, rfl⟩
  | _ => exact ends.elim

/-- Other operations start and end outside of every call. -/
theorem Inv.idle {past : List (Label (executor text peer))} (h : Inv st o)
    (sparse : (stages text peer).Sparse st) (apart : (st i).apart)
    (calls : ∀ r, openCalls r past = openCalls r o.trace) :
    Inv (update st i .off) ⟨o.mem, past⟩ := by
  have outside := apart_counts apart
  have kept (p : Stage → Bool) (out : p .off = false) (was : p (st i) = false) :
      count p (update st i .off) = count p st := by
    have moved := count_update sparse out i .off
    rwa [was, out] at moved
  refine ⟨fun r => ?_, fun r => ?_, fun r => ?_, fun r => ?_⟩
  · rw [kept _ rfl (outside r).1]
    exact (calls r).trans (h.calls r)
  · exact (calls r).symm ▸ h.within r
  · rw [kept _ rfl (outside r).2.1]
    exact h.executing r
  · rw [kept _ rfl (outside r).2.2]
    exact h.legs r

theorem Inv.start (h : Inv st o) (sparse : (stages text peer).Sparse st) (idle : st i = .off)
    (ok : roomy o (.start i op)) :
    Inv (update st i (Stage.enter op)) (o.log (.start i op)) := by
  cases op with
  | callOpen route env =>
    have room : openCalls route o.trace + (o.mem.routes route).legs.length + 1 < maxLegs := ok
    have fewer : count (owing route) st ≤ count (calling route) st := by
      refine count_mono sparse rfl fun s owes => ?_
      unfold owing at owes
      split at owes <;> first | exact owes | cases owes
    have counted (r : Nat) : openCalls r (.start i (.callOpen route env) :: o.trace) =
        openCalls r o.trace + (route == r).toNat := by
      by_cases own : route = r <;> simp [openCalls, own]
    have moved {p : Stage → Bool} (out : p .off = false) :=
      count_update sparse out i (.serving route)
    rw [idle] at moved
    change Inv (update st i (.serving route)) _
    refine ⟨fun r => ?_, fun r => ?_, fun r => ?_, fun r => ?_⟩
    · have enters : count (calling r) (update st i (.serving route)) =
        count (calling r) st + (route == r).toNat := moved (p := calling r) rfl
      rw [Obs.log_trace, counted, enters, h.calls r]
    · rw [Obs.log_trace, counted]
      by_cases own : route = r
      · simp only [← own, beq_self_eq_true, Bool.toNat_true]
        omega
      · simpa [beq_false_of_ne own] using h.within r
    · exact (h.executing r).trans (moved (p := running r) rfl).symm
    · have enters : count (owing r) (update st i (.serving route)) =
        count (owing r) st + (route == r).toNat := moved (p := owing r) rfl
      rw [Obs.log_mem, enters]
      by_cases own : route = r
      · have calls := h.calls route
        simp only [← own, beq_self_eq_true, Bool.toNat_true]
        omega
      · simpa [beq_false_of_ne own] using h.legs r
  | _ => exact h.idle sparse (idle ▸ trivial) fun _ => rfl

theorem Inv.done (h : Inv st o) (sparse : (stages text peer).Sparse st)
    (leaves : Stage.leaves op (st i)) :
    Inv (update st i .off) (o.log (.done i op res)) := by
  cases op with
  | callOpen route env =>
    have counted (r : Nat) : openCalls r (.done i (.callOpen route env) res :: o.trace) =
        openCalls r o.trace - (route == r).toNat := by
      by_cases own : route = r
      · simp [openCalls, own]
      · simp [openCalls, own, beq_false_of_ne own]
    have served := ends_counts leaves
    refine ⟨fun r => ?_, fun r => ?_, fun r => ?_, fun r => ?_⟩
    · have leaves := count_update sparse (p := calling r) rfl i .off
      have calls := h.calls r
      rw [(served r).1] at leaves
      rw [Obs.log_trace, counted]
      simp only [calling, Bool.toNat_false] at leaves
      omega
    · rw [Obs.log_trace, counted]
      exact (Nat.sub_le _ _).trans (h.within r)
    · have leaves := count_update sparse (p := running r) rfl i .off
      rw [(served r).2] at leaves
      exact (h.executing r).trans leaves.symm
    · have leaves := count_update sparse (p := owing r) rfl i .off
      have legs := h.legs r
      simp only [owing, Bool.toNat_false] at leaves
      rw [Obs.log_mem]
      omega
  | _ => exact h.idle sparse leaves fun _ => rfl

theorem Inv.env (h : Inv st o) (event : EEnv) : Inv st (o.passed event) := by
  have same : (event.run o.mem).executing = o.mem.executing ∧
      (event.run o.mem).routes = o.mem.routes := by
    cases event with
    | begins worker =>
      simp only [EEnv.run, ExecState.begins]
      split <;> exact ⟨rfl, rfl⟩
    | _ => exact ⟨rfl, rfl⟩
  refine ⟨h.calls, h.within, fun r => ?_, fun r => ?_⟩
  · exact (congrFun same.1 r).trans (h.executing r)
  · exact (congrFun same.2 r).symm ▸ h.legs r

theorem preserved (text : JsonText) (peer : Nat → String) :
    (stages text peer).Preserved roomy Inv where
  start sparse h idle ok := h.start sparse idle ok
  act sparse h allows enabled _ := h.act sparse allows enabled
  done sparse h leaves _ := h.done sparse leaves
  env h _ := h.env _

theorem booted_inv (booted : Booted s) :
    Inv (fun _ => .off) (⟨s, []⟩ : Obs (executor text peer)) := by
  have none_of {p : Stage → Bool} (out : p .off = false) : count p (fun _ => .off) = 0 := by
    simp [count, out]
  refine ⟨fun r => ?_, fun r => Nat.zero_le _, fun r => ?_, fun r => ?_⟩
  · exact (none_of rfl).symm
  · simp [booted.executing, none_of (p := running r) rfl]
  · simp [booted.routes, RouteTables.empty, none_of (p := owing r) rfl, maxLegs]

/-- When no call arrives on a route whose calls in progress and remembered legs leave no room for
two more, the legs that run stay within the limit and the table never fills up. -/
theorem legs_within_limit {s : ExecState} {c : Config (executor text peer)} (booted : Booted s)
    (run : Run roomy (.boot s) c) (route : Nat) :
    c.mem.executing route ≤ maxLegs ∧ (c.mem.routes route).legs.length < maxLegs := by
  obtain ⟨st, sparse, inv, -⟩ := (preserved text peer).run code_follows (booted_inv booted) run
  have bound : count (running route) st ≤ count (calling route) st := by
    refine count_mono sparse rfl fun s runs => ?_
    unfold running at runs
    split at runs
    · exact runs
    · exact runs
    · cases runs
  have executing := inv.executing route
  have calls := inv.calls route
  have within := inv.within route
  have legs := inv.legs route
  omega

/-- Two calls arrive while there is room, and both run. -/
theorem legs_within_limit_of_two : ∃ c : Config demo,
    Run roomy (.boot (booted .fresh [] [])) c ∧ c.mem.executing 0 = 2 ∧
      ∀ route, c.mem.executing route ≤ maxLegs ∧ (c.mem.routes route).legs.length < maxLegs := by
  obtain ⟨c, run, two⟩ := Config.reaches (.boot (booted .fresh [] []))
    (fun o label => decide (roomy o label)) (P := fun c : Config demo => c.mem.executing 0 = 2)
    (fun _ _ => of_decide_eq_true) 60
    [.start 0 (.callOpen 0 (callOpenFrame "op-1" .null)), .steps 0 12,
      .start 1 (.callOpen 0 (callOpenFrame "op-2" .null)), .steps 1 12] (by decide +kernel)
  exact ⟨c, run, two, legs_within_limit booted_fresh.toBooted run⟩

/-! ### A route that serves no more calls -/

def callName (n : Nat) : String := String.ofList [Char.ofNat (n + 48)]

theorem callName_inj {m : Nat} (hm : m ≤ maxLegs) (hn : n ≤ maxLegs) (h : callName m = callName n) :
    m = n := by
  have chars : Char.ofNat (m + 48) = Char.ofNat (n + 48) := by
    simpa [callName] using h
  have valid : ∀ k, k ≤ maxLegs → (Char.ofNat (k + 48)).toNat = k + 48 := by
    intro k hk
    unfold maxLegs at hk
    have code : (k + 48).isValidChar := .inl (by omega)
    unfold Char.ofNat
    rw [dif_pos code]
    rfl
  have codes := congrArg Char.toNat chars
  rw [valid m hm, valid n hn] at codes
  omega

theorem callName_identified (n : Nat) : identified ("peer", callName n) = true := by
  have size : (callName n).utf8ByteSize ≤ 4 := by
    simpa [callName] using Char.utf8Size_le_four (Char.ofNat (n + 48))
  have some_text : (callName n).isEmpty = false := by simp [callName]
  have principal : ¬ 256 < "peer".utf8ByteSize := by decide +kernel
  simp only [identified, some_text, principal]
  simp
  omega

/-- What `on_call_open` does with a call of these names. -/
theorem onCallOpen_eq (n : Nat) :
    onCallOpen CompactJson.compact 0 "peer" (callOpenFrame (callName n) .null) =
      .act (.hasLeg 0 (callName n)) fun known =>
        if known then replayLeg 0 "r-1" "peer" (callName n)
        else .act (.legCount 0) fun legs =>
          if maxLegs ≤ legs then refuse 0 "r-1" "peer" (callName n) none "resource-exhausted"
            "too many remote legs"
          else authorizeLeg CompactJson.compact 0 "r-1" "peer" (callName n)
            (((callOpenFrame (callName n) .null).get "body").getD .null) := by
  have passes : ((callName n).isEmpty || decide (128 < (callName n).utf8ByteSize)) = false := by
    have named := callName_identified n
    simp only [identified, Bool.not_eq_true', Bool.or_eq_false_iff] at named
    rw [Bool.or_eq_false_iff]
    exact named.1
  simp only [onCallOpen]
  rw [show strField (((callOpenFrame (callName n) .null).get "body").getD .null) "operation_id" =
    callName n from rfl, passes]
  rfl

/-- Route 0 remembers `legs` legs and runs `running`, the ledger has `rows` rows and there were
`workers` kernel calls; names from there on are new. -/
structure Stage (legs rows workers running : Nat) (s : ExecState) : Prop where
  disk : s.disk = none
  authority : s.authority = granted
  spawns : s.spawns = true
  count : (s.routes 0).legs.length = legs
  newLegs : ∀ k, legs ≤ k → k ≤ maxLegs → callName k ∉ (s.routes 0).legs
  cancelled : (s.routes 0).cancelled = []
  calls : s.workers.length = workers
  newRows : ∀ k, rows ≤ k → k ≤ maxLegs → s.db.operations.get ("peer", callName k) = none
  size : s.db.operations.size = rows
  executing : s.executing 0 = running

/-- The operation is in the ledger and not finished. -/
def Pending (n : Nat) (s : ExecState) : Prop :=
  ∃ old, s.db.operations.get ("peer", callName n) = some old ∧ old.state = .admitted

section Steps

variable {legs rows workers running n : Nat} {s : ExecState}

theorem Stage.edit (h : Stage legs rows workers running s) (same : ∀ t, (f t).legs = t.legs)
    (kept : ∀ t, t.cancelled = [] → (f t).cancelled = []) :
    Stage legs rows workers running (s.editRoute 0 f) where
  disk := h.disk
  authority := h.authority
  spawns := h.spawns
  count := by
    rw [editRoute_legs same]
    exact h.count
  newLegs := by
    rw [editRoute_legs same]
    exact h.newLegs
  cancelled := by
    simp only [ExecState.editRoute, update_self]
    exact kept _ h.cancelled
  calls := h.calls
  newRows := h.newRows
  size := h.size
  executing := h.executing

theorem may_admit (h : Stage n n workers running s) (room : n < maxLegs) :
    ∃ s', demo.sem (.admitOperation "peer" (callName n) (saying .null)) s = some (.ok .new, s') ∧
      Stage n (n + 1) workers running s' ∧ Pending n s' := by
  have absent := h.newRows n (Nat.le_refl n) room.le
  cases entry : s.db.operations.insert ("peer", callName n)
      ⟨CompactJson.compact.encode (saying .null), .admitted, none⟩ with
  | none => exact absurd absent (Table.insert_eq_none.mp entry)
  | some operations =>
    have named : ¬ ((callName n).isEmpty || 128 < (callName n).utf8ByteSize ||
        256 < "peer".utf8ByteSize) = true := by simpa [identified] using callName_identified n
    have small : ¬ maxBody < (CompactJson.compact.encode (saying .null)).utf8ByteSize := by
      decide +kernel
    have ledger : ¬ maxOps ≤ s.db.operations.size := by
      rw [h.size]
      unfold maxLegs at room
      unfold maxOps
      omega
    have result : admitOperation CompactJson.compact "peer" (callName n) (saying .null) s.db =
        (.ok .new, { s.db with operations }) := by
      rw [admitOperation, if_neg named, if_neg small]
      simp [immediate, absent, ledger, entry]
    refine ⟨{ s with db := { s.db with operations } }, ?_, ?_, ?_⟩
    · simp [executor, EAct.sem, ExecState.stored, h.disk, result]
    · refine { h with newRows := fun k hk hm => ?_, size := ?_ }
      · have other : ("peer", callName k) ≠ ("peer", callName n) := by
          intro same
          have := callName_inj hm room.le (Prod.ext_iff.mp same).2
          omega
        rw [Table.insert_get entry, if_neg other]
        exact h.newRows k (by omega) hm
      · rw [Table.insert_size entry, h.size]
    · exact ⟨_, (Table.insert_get entry _).trans (if_pos rfl), rfl⟩

theorem may_spawn (h : Stage legs rows workers running s) :
    ∃ s', demo.sem (.spawnLeg 0) s = some (true, s') ∧
      Stage legs rows workers (running + 1) s' ∧ s'.db = s.db :=
  ⟨_, if_pos h.spawns, { h with executing := by simp [h.executing] }, rfl⟩

theorem modify_last {α : Type} (xs : List α) (x : α) (f : α → α) :
    (xs ++ [x]).modify xs.length f = xs ++ [f x] := by
  induction xs with
  | nil => rfl
  | cons y ys ih => simpa using ih

/-- The kernel call is handed out, begins and returns. -/
theorem may_call (h : Stage legs rows workers running s) (operation : String) :
    ∃ s' s'', demo.sem (.submit ("peer", operation) provider "echo.say" .null) s =
        some (workers, s') ∧
      demo.env (.returns workers .null true) (demo.env (.begins workers) s') = s'' ∧
      demo.sem (.awaitBudget workers) s'' = some (some (.null, true), s'') ∧
      Stage legs rows (workers + 1) running s'' ∧ s''.db = s.db := by
  obtain rfl := h.calls
  let w (state : WorkerState) : Worker :=
    ⟨("peer", operation), provider, "echo.say", .null, state, false⟩
  have began : demo.env (.begins s.workers.length)
      { s with workers := s.workers ++ [w .waiting] } = { s with
        workers := s.workers ++ [w .running], started := ("peer", operation) :: s.started } := by
    simp [executor, EEnv.run, ExecState.begins, ExecState.editWorker, w, modify_last]
  have returned : demo.env (.returns s.workers.length .null true) { s with
        workers := s.workers ++ [w .running], started := ("peer", operation) :: s.started } =
      { s with
        workers := s.workers ++ [w (.returned .null true)]
        started := ("peer", operation) :: s.started } := by
    simp [executor, EEnv.run, ExecState.returns, ExecState.editWorker, w, modify_last]
  refine ⟨{ s with workers := s.workers ++ [w .waiting] }, _, ?_,
    (congrArg (demo.env _) began).trans returned, ?_, { h with calls := by simp }, rfl⟩
  · simp [executor, EAct.sem, h.spawns, w]
  · simp [executor, EAct.sem, w]

theorem may_finish (h : Stage legs rows workers running s) (pending : Pending n s) :
    ∃ s', demo.sem (.finish "peer" (callName n) (durable true .null) false) s = some (.ok (), s') ∧
      Stage legs rows workers running s' := by
  obtain ⟨old, there, admitted⟩ := pending
  have small : ¬ maxBody < (CompactJson.compact.encode (durable true .null)).utf8ByteSize := by
    decide +kernel
  have one : (finished CompactJson.compact "peer" (callName n) (durable true .null) false
      s.db).1 = 1 := by
    rw [finished_count, there]
    simp [admitted]
  refine ⟨{ s with db := { s.db with operations := (finished CompactJson.compact "peer"
    (callName n) (durable true .null) false s.db).2 } }, ?_, ?_⟩
  · simp only [executor, EAct.sem, ExecState.stored, h.disk, finish_eq small, one]
    rfl
  · refine { h with newRows := fun k hk hm => ?_, size := ?_ }
    · rw [Table.modify_get, h.newRows k hk hm]
      rfl
    · rw [Table.modify_size]
      exact h.size

theorem may_keep (h : Stage n rows workers running s) (room : n < maxLegs) :
    ∃ s', demo.sem (.insertLeg 0 (callName n)) s = some ((), s') ∧
      Stage (n + 1) rows workers running s' := by
  have fresh := h.newLegs n (Nat.le_refl n) room.le
  refine ⟨_, rfl, { h with count := ?_, newLegs := fun k hk hm => ?_, cancelled := ?_ }⟩
  · simp [ExecState.editRoute, List.insert, fresh, h.count]
  · have other : callName k ≠ callName n := by
      intro same
      have := callName_inj hm room.le same
      omega
    simpa [ExecState.editRoute, List.mem_insert_iff, other] using h.newLegs k (by omega) hm
  · simpa [ExecState.editRoute] using h.cancelled

end Steps

theorem may_settle (h : Stage n (n + 1) (n + 1) 1 s) (pending : Pending n s) (room : n < maxLegs) :
    demo.May (Stage (n + 1) (n + 1) (n + 1) 0)
      (((settleLeg CompactJson.compact 0 "r-1" "peer" (callName n) "echo" provider 1
        (saying .null) .null true).bind fun _ => perform (.legEnds 0)).bind fun _ => .pure none)
      s := by
  have uncancelled : demo.sem (.isCancelled 0 (callName n)) s = some (false, s) := by
    simp [executor, EAct.sem, h.cancelled]
  have live : demo.sem (.leaseLive "peer" "echo" 1 provider) s = some (true, s) := by
    have lives : granted.leaseLive "peer" "echo" 1 provider = true := by decide +kernel
    simp only [executor, EAct.sem, h.authority, lives]
  obtain ⟨s₁, recorded, h₁⟩ := may_finish h pending
  refine .act uncancelled (.act live (.act recorded ?_))
  obtain ⟨s₂, closed, h₂⟩ : ∃ s₂, demo.sem (.removeOpening 0 "r-1") s₁ = some ((), s₂) ∧
      Stage n (n + 1) (n + 1) 1 s₂ := ⟨_, rfl, h₁.edit (fun _ => rfl) fun _ kept => kept⟩
  obtain ⟨s₃, cleared, h₃⟩ : ∃ s₃, demo.sem (.removeCancelled 0 (callName n)) s₂ = some ((), s₃) ∧
      Stage n (n + 1) (n + 1) 1 s₃ :=
    ⟨_, rfl, h₂.edit (fun _ => rfl) fun t kept => by simp [kept]⟩
  obtain ⟨s₄, remembered, h₄⟩ := may_keep h₃ room
  refine .act closed (.act cleared (.act remembered ?_))
  refine .act rfl (.act rfl (.done ?_))
  exact { h₄ with executing := by simp [h₄.executing] }

/-- One more call is served to its end. -/
theorem may_serve (h : Stage n n n 0 s) (room : n < maxLegs) :
    demo.May (Stage (n + 1) (n + 1) (n + 1) 0)
      (demo.code (.callOpen 0 (callOpenFrame (callName n) .null))) s := by
  have unknown : demo.sem (.hasLeg 0 (callName n)) s = some (false, s) := by
    simpa [executor, EAct.sem] using h.newLegs n (Nat.le_refl n) room.le
  have counted : demo.sem (.legCount 0) s = some (n, s) := by
    simp [executor, EAct.sem, h.count]
  have leased : demo.sem (.leaseByToken "peer" "lease") s =
      some (some ("echo", provider, 1), s) := by
    simp only [executor, EAct.sem, h.authority]
    rfl
  have covered : demo.sem (.grantCovers "peer" "echo.say") s = some (true, s) := by
    have covers : granted.grantCovers "peer" "echo.say" = true := by decide +kernel
    simp only [executor, EAct.sem, h.authority, covers]
  have provided : demo.sem (.provides "echo" "echo.say") s = some (true, s) := by
    simp only [executor, EAct.sem, h.authority]
    rfl
  change demo.May _ ((onCallOpen _ 0 "peer" _).bind _) s
  rw [onCallOpen_eq]
  refine .act unknown (.act counted ?_)
  beta_reduce
  rw [if_neg (by omega)]
  obtain ⟨s₁, admitted, h₁, pending₁⟩ := may_admit h room
  refine .act leased (.act covered (.act provided (.act admitted ?_)))
  refine .act rfl ?_
  obtain ⟨s₂, opening, h₂, same₂⟩ : ∃ s₂, demo.sem (.insertOpening 0 "r-1" (callName n)) s₁ =
      some ((), s₂) ∧ Stage n (n + 1) n 0 s₂ ∧ s₂.db = s₁.db :=
    ⟨_, rfl, h₁.edit (fun _ => rfl) fun _ kept => kept, rfl⟩
  refine .act opening ?_
  obtain ⟨s₃, mapped, h₃, same₃⟩ : ∃ s₃, demo.sem (.insertProvider 0 (callName n)
      ⟨"echo", provider, 1⟩) s₂ = some ((), s₃) ∧ Stage n (n + 1) n 0 s₃ ∧ s₃.db = s₂.db :=
    ⟨_, rfl, h₂.edit (fun _ => rfl) fun _ kept => kept, rfl⟩
  refine .act mapped ?_
  obtain ⟨s₄, spawned, h₄, same₄⟩ := may_spawn h₃
  refine .act spawned ?_
  have current : demo.sem (.instanceRefOf "echo") s₄ = some (some provider, s₄) := by
    simp only [executor, EAct.sem, h₄.authority]
    rfl
  have uncancelled : ∀ {s'}, Stage n (n + 1) n 1 s' →
      demo.sem (.isCancelled 0 (callName n)) s' = some (false, s') := by
    intro s' h'
    simp [executor, EAct.sem, h'.cancelled]
  refine .act current (.act (uncancelled h₄) ?_)
  obtain ⟨s₅, s₆, submitted, returned, awaited, h₆, same₆⟩ := may_call h₄ (callName n)
  refine .act submitted (.env (.begins n) (.env (.returns n .null true) ?_))
  rw [returned]
  refine .act awaited (may_settle h₆ ?_ room)
  unfold Pending at pending₁ ⊢
  rw [same₆, same₄, same₃, same₂]
  exact pending₁

/-- After any number of calls up to the limit, each served to its end, nothing runs. -/
theorem reaches_served (fits : n ≤ maxLegs) : ∃ c : Config demo,
    Run (fun _ _ => True) (.boot (booted .fresh [] [])) c ∧ c.Quiescent ∧
      Stage n n n 0 c.mem := by
  induction n with
  | zero =>
    refine ⟨_, .refl, fun _ => rfl, rfl, rfl, rfl, rfl, fun k _ _ => ?_, rfl, rfl,
      fun k _ _ => ?_, rfl, rfl⟩
    · exact List.not_mem_nil
    · exact Table.empty_get _
  | succ n ih =>
    obtain ⟨c, run, quiet, stage⟩ := ih (by omega)
    obtain ⟨c', run', stage', threads⟩ := (may_serve stage (by omega)).call (quiet 0)
    exact ⟨c', run.trans run', fun i => by rw [threads]; exact quiet i, stage'⟩

/-- A route that has served as many calls as the limit, none of which runs any more, refuses
the next one. -/
theorem served_route_refuses : ∃ c c' : Config demo,
    Run (fun _ _ => True) (.boot (booted .fresh [] [])) c ∧ c.Quiescent ∧
    c.mem.executing 0 = 0 ∧ Run (fun _ _ => True) c c' ∧ c'.Quiescent ∧
    (c'.mem.answers.head?).map Answer.terminal =
      some (.error "resource-exhausted" "too many remote legs") := by
  obtain ⟨c, run, quiet, stage⟩ := reaches_served (Nat.le_refl maxLegs)
  have unknown : demo.sem (.hasLeg 0 (callName maxLegs)) c.mem = some (false, c.mem) := by
    simpa [executor, EAct.sem] using stage.newLegs maxLegs (Nat.le_refl _) (Nat.le_refl _)
  have counted : demo.sem (.legCount 0) c.mem = some (maxLegs, c.mem) := by
    simp [executor, EAct.sem, stage.count]
  have refuses : demo.May (fun s => (s.answers.head?).map Answer.terminal =
      some (.error "resource-exhausted" "too many remote legs"))
      (demo.code (.callOpen 0 (callOpenFrame (callName maxLegs) .null))) c.mem := by
    change demo.May _ ((onCallOpen _ 0 "peer" _).bind _) c.mem
    rw [onCallOpen_eq]
    refine .act unknown (.act counted ?_)
    beta_reduce
    rw [if_pos (Nat.le_refl _)]
    exact .act rfl (.act rfl (.done rfl))
  obtain ⟨c', run', refused, threads⟩ := refuses.call (quiet 0)
  exact ⟨c, c', run, quiet, stage.executing, run', fun i => by rw [threads]; exact quiet i, refused⟩

end MatrixRuntime.LegLimit
