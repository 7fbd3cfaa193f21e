import MatrixRuntime.SessionRuns

/-! Which session may answer a call. The host keeps the awaited replies of all sessions in one
table and takes an entry out by the request id of a frame alone. -/

namespace MatrixRuntime.ReplyRouting

open JsonValue KeyedTable HostSessions InterleavedProgram InterleavedMachine
open ThreadStates Function
open SessionRuns (blank trusting idleHost component activated)

variable {text : JsonText} {policy : HostPolicy} {env : Envelope} {waiter : Pending}
  {past : List (Label (host text policy))} {answer : Except String Unit}
  {label : Label (host text policy)}

/-- Every reply frame that arrives on a session carries a request id the host sent there. -/
def honest (o : Obs (host text policy)) : Label (host text policy) → Prop
  | .env (.arrives sid env) =>
    isReply env.ty = true → ∀ rid, env.requestId = some rid → (sid, rid) ∈ o.mem.sent
  | _ => True

/-- Every reply so far was taken from the session it was awaited from. -/
def Routed (past : List (Label (host text policy))) : Prop :=
  ∀ i sid rid waiter, .act i (.resolve sid rid) (some waiter) ∈ past → waiter.session = sid

/-! ### The stages of a request -/

/-- A thread has made a request id, has registered it, or serves a frame. -/
inductive Stage where
  | off
  | asked (rid : String)
  | waits (rid sid : String)
  | frame (sid : String) (env : Envelope)

namespace Stage

abbrev allows {β : Type} (s : Stage) : HAct β → Prop
  | .insertPending rid _ => s = .asked rid
  | .write sid (some rid) => s = .asked rid ∨ s = .waits rid sid
  | .resolve sid rid => ∃ env, s = .frame sid env ∧ isReply env.ty = true ∧
      env.requestId = some rid
  | _ => True

/-- The request is out, and nobody waits for its reply. -/
def wrote (rid : String) : Stage → Stage
  | .asked rid' => if rid' = rid then .off else .asked rid'
  | s => s

def next {β : Type} (s : Stage) : HAct β → β → Stage
  | .freshId kind, rid => if kind = "req" then .asked rid else s
  | .insertPending rid waiter, _ => .waits rid waiter.session
  | .write _ (some rid), _ => s.wrote rid
  | .receive sid, some env => .frame sid env
  | _, _ => s

/-- The request id is the thread's. -/
def has (rid : String) : Stage → Prop
  | .asked rid' => rid' = rid
  | .waits rid' _ => rid' = rid
  | _ => False

end Stage

def stages (text : JsonText) (policy : HostPolicy) : Protocol (host text policy) Stage where
  idle := .off
  enter _ := .off
  allows := Stage.allows
  next := Stage.next
  leaves _ _ _ := True

/-! ### What the actions change -/

/-- Requests and frames are only taken out. -/
structure Shrinks (s s' : HostState) : Prop where
  pending : ∀ rid waiter, s'.pending.get rid = some waiter → s.pending.get rid = some waiter
  sent : s'.sent = s.sent
  nextId : s.nextId ≤ s'.nextId
  inbox : ∀ sid env, env ∈ s'.inbox sid → env ∈ s.inbox sid

theorem Shrinks.refl (s : HostState) : Shrinks s s :=
  ⟨fun _ _ => id, rfl, Nat.le_refl _, fun _ _ => id⟩

theorem Shrinks.trans {s s' s'' : HostState} (h : Shrinks s s') (h' : Shrinks s' s'') :
    Shrinks s s'' :=
  ⟨fun rid waiter there => h.pending rid waiter (h'.pending rid waiter there),
    h'.sent.trans h.sent, Nat.le_trans h.nextId h'.nextId,
    fun sid env there => h.inbox sid env (h'.inbox sid env there)⟩

theorem erase_pending (t : Table String Pending) (rid : String) {rid' : String}
    (h : (t.erase rid).get rid' = some waiter) : t.get rid' = some waiter := by
  rw [Table.erase_get] at h
  split at h
  · cases h
  · exact h

theorem orphan_shrinks (s : HostState) (sid : String) (session : Session) :
    Shrinks s (s.orphan sid session) := by
  unfold HostState.orphan
  generalize s.owned sid = rids
  induction rids generalizing s with
  | nil => exact .refl s
  | cons rid rids ih =>
    refine Shrinks.trans ?_ (ih _)
    exact ⟨fun _ _ => erase_pending _ rid, rfl, Nat.le_succ _, fun _ _ => id⟩

/-- Actions that make, send and answer no request. -/
abbrev plain {β : Type} : HAct β → Prop
  | .insertPending _ _ => False
  | .write _ (some _) => False
  | .resolve _ _ => False
  | _ => True

variable {o : Obs (host text policy)} {i j : Nat} {β : Type} {action : HAct β} {reply : β}
  {mem : HostState} {sid rid : String}

theorem sem_shrinks (h : plain action) (enabled : action.sem o.mem = some (reply, mem)) :
    Shrinks o.mem mem := by
  have same : ∀ {s s' : HostState}, s'.pending = s.pending → s'.sent = s.sent →
      s.nextId ≤ s'.nextId → s'.inbox = s.inbox → Shrinks s s' :=
    fun pending sent nextId inbox =>
      ⟨fun _ _ there => pending ▸ there, sent, nextId, fun _ _ there => inbox ▸ there⟩
  cases action with
  | insertPending | resolve => exact h.elim
  | write sid rid =>
    cases rid with
    | some rid => exact h.elim
    | none =>
      simp only [HAct.sem] at enabled
      split at enabled <;> cases enabled <;> exact .refl _
  | removePending rid =>
    cases enabled
    exact ⟨fun _ _ => erase_pending _ rid, rfl, Nat.le_refl _, fun _ _ => id⟩
  | orphan sid session =>
    cases enabled
    exact orphan_shrinks _ _ _
  | freshId kind =>
    cases enabled
    exact same rfl rfl (Nat.le_succ _) rfl
  | receive sid =>
    simp only [HAct.sem] at enabled
    split at enabled
    next env rest hinbox =>
      cases enabled
      refine ⟨fun _ _ => id, rfl, Nat.le_refl _, fun sid' env' there => ?_⟩
      by_cases own : sid' = sid
      · subst own
        simp only [update_self] at there
        rw [hinbox]
        exact List.mem_cons_of_mem _ there
      · simpa only [update_of_ne own] using there
    next =>
      split at enabled
      · cases enabled
        exact .refl _
      · cases enabled
  | enterCall | chargeSend | dedup | recvWithin | lockChildren | forgetChild | beginReader
  | takeEvent | endEvent =>
    simp only [HAct.sem] at enabled
    repeat' split at enabled
    all_goals cases enabled
    all_goals exact same rfl rfl (Nat.le_refl _) rfl
  | _ =>
    cases enabled
    exact same rfl rfl (Nat.le_refl _) rfl

/-! ### Programs -/

variable {α γ : Type} {p : HProg α} {s : Stage} {st : Nat → Stage} {logical ty : String}
  {inst generation : Nat} {body : Json} {next : Stage} (req : ForwardRequest) (conn : Connection)

theorem plain_allows (h : plain action) : s.allows action := by
  cases action with
  | insertPending | resolve => exact h.elim
  | write sid rid =>
    cases rid with
    | none => trivial
    | some rid => exact h.elim
  | _ => trivial

/-- Programs of plain actions and of parts that may run at any time. -/
abbrev Fine (text : JsonText) (policy : HostPolicy) {α : Type} (p : HProg α) : Prop :=
  Composed (fun _ action => plain action)
    (fun _ q => ∀ s, (stages text policy).Follows q (fun _ _ => True) s) p

theorem sendTo_follows (ours : s = .asked rid ∨ s = .waits rid sid) :
    (stages text policy).Follows (sendTo text sid logical inst generation ty (some rid) body)
      (fun _ _ => True) s := by
  simp only [sendTo, Prog.bind_eq, perform_bind]
  refine .act trivial fun messageId => ?_
  have stays : s.next (.freshId "msg") messageId = s := by simp [Stage.next]
  change (stages text policy).Follows _ _ (s.next (.freshId "msg") messageId)
  rw [stays]
  split
  · trivial
  · refine .act trivial fun sink => ?_
    split
    · trivial
    · split
      · trivial
      · exact .act ours fun _ => trivial

theorem asks_follows {f : String → HProg α} {Q : α → Stage → Prop}
    (h : ∀ rid, (stages text policy).Follows (f rid) Q (.asked rid)) :
    (stages text policy).Follows (.act (.freshId "req") f) Q s := by
  refine .act trivial fun rid => ?_
  have asked : s.next (.freshId "req") rid = .asked rid := by simp [Stage.next]
  change (stages text policy).Follows _ _ (s.next (.freshId "req") rid)
  rw [asked]
  exact h rid

namespace Fine

theorem follows (h : Fine text policy p) (s : Stage) :
    (stages text policy).Follows p (fun _ _ => True) s :=
  .within h (fun _ _ _ hplain _ => ⟨plain_allows hplain, fun _ => trivial⟩)
    (fun _ _ s known _ => known s) trivial

theorem of_housekeeping (h : Housekeeping p) : Fine text policy p :=
  h.weaken fun _ action house => by cases action <;> first | exact house.elim | trivial

/-- A message under a new request id that nobody waits for. -/
theorem notice {f : String → Except String Unit → HProg α}
    (h : ∀ rid answer, Fine text policy (f rid answer)) :
    Fine text policy (.act (.freshId "req") fun rid =>
      (sendTo text sid logical inst generation ty (some rid) body).bind (f rid)) := by
  refine .whole fun _ => asks_follows fun rid => ?_
  exact (sendTo_follows (.inl rfl)).bind fun answer s _ => (h rid answer).follows s

/-- A message whose reply is awaited from the session it goes to. -/
theorem request {kind : PendingKind} {f : String → Except String Unit → HProg α}
    (h : ∀ rid answer, Fine text policy (f rid answer)) :
    Fine text policy (.act (.freshId "req") fun rid => .act (.insertPending rid ⟨sid, kind⟩)
      fun _ => (sendTo text sid logical inst generation ty (some rid) body).bind (f rid)) := by
  refine .whole fun _ => asks_follows fun rid => .act rfl fun _ => ?_
  exact (sendTo_follows (.inr rfl)).bind fun answer s _ => (h rid answer).follows s

end Fine

theorem transact_fine (sid logical : String) (inst generation : Nat) (ty : String) (body : Json) :
    Fine text policy (transact text sid logical inst generation ty body) := by
  refine .next fun live => .ite (.pure _) ?_
  refine .next fun waiting => .ite (.pure _) ?_
  refine Fine.request fun rid answer => ?_
  split
  · exact .map .once
  · refine .next fun reply => ?_
    split
    · exact .pure _
    · exact .map .once

theorem awaitCall_fine (sid rid : String) (rounds : Nat) :
    Fine text policy (awaitCall text req sid rid rounds) := by
  induction rounds with
  | zero => exact .blocked
  | succ rounds ih =>
    refine .next fun cancelled => .ite ?_ ?_
    · exact Fine.notice fun notice _ => .map .once
    · refine .next fun late => .ite ?_ ?_
      · exact .map .once
      · refine .next fun reply => ?_
        split
        · exact .pure _
        · exact ih

theorem exchange_fine (sid : String) (rounds : Nat) :
    Fine text policy (exchange text req sid rounds) := by
  refine Fine.request fun rid answer => ?_
  split
  · exact .map .once
  · exact awaitCall_fine ..

theorem forwardCall_fine (rounds : Nat) : Fine text policy (forwardCall text req rounds) := by
  refine .next fun waiting => .ite (.pure _) ?_
  refine .next fun found => ?_
  split
  · exact .pure _
  · refine .next fun same => .ite (.pure _) ?_
    refine .next fun entered => ?_
    split
    · exact .pure _
    · exact .pure _
    · refine .next fun charged => .ite ?_ ?_
      · exact .map .once
      · refine .bind (exchange_fine ..) fun out => .next fun _ => ?_
        exact .map .once

theorem cancelSessionCalls_fine (sid reason : String) :
    Fine text policy (cancelSessionCalls text sid reason) := by
  refine .next fun jobs => .forEach jobs fun job => ?_
  refine .next fun messageId => .whole fun s => ?_
  simp only [Prog.bind_eq, perform_bind]
  refine asks_follows fun rid => ?_
  split
  · trivial
  · exact .act (.inl rfl) fun _ => trivial

theorem dropSession_fine (sid : String) : Fine text policy (dropSession sid) := by
  refine .next fun found => ?_
  split
  · exact .pure _
  · exact .next fun _ => .next fun _ => .once

theorem killChild_fine (logical : String) : Fine text policy (killChild logical) :=
  .of_housekeeping (killChild_housekeeping logical)

theorem reapFinished_fine : Fine text policy reapFinished :=
  .of_housekeeping reapFinished_housekeeping

theorem quiesceSession_fine (logical : String) (inst generation : Nat) :
    Fine text policy (quiesceSession text logical inst generation) := by
  refine .next fun found => ?_
  dsimp only
  split
  · exact .map (killChild_fine logical)
  · refine .bind (cancelSessionCalls_fine ..) fun _ => .next fun _ => ?_
    refine .bind (transact_fine ..) fun _ => .next fun _ => ?_
    refine .bind (transact_fine ..) fun _ => .bind (dropSession_fine _) fun _ => ?_
    exact .map (killChild_fine logical)

theorem handleEvent_fine (event : LifecycleEvent) :
    Fine text policy (handleEvent text policy event) := by
  cases event with
  | activated logical inst generation =>
    exact .bind (killChild_fine logical) fun _ =>
      .bind (Fine.of_housekeeping (spawnChild_housekeeping ..)) fun _ => reapFinished_fine
  | withdrawn logical inst generation =>
    exact .bind (quiesceSession_fine ..) fun _ => reapFinished_fine
  | removed logical =>
    have rest : Fine text policy (.act (.removeActivation logical) fun _ =>
        (killChild logical).bind fun _ => reapFinished) :=
      .next fun _ => .bind (killChild_fine logical) fun _ => reapFinished_fine
    refine .next fun c => ?_
    dsimp only
    split
    · exact .bind (quiesceSession_fine ..) fun _ => rest
    · exact rest

theorem eventTurn_fine : Fine text policy (eventTurn text policy) := by
  refine .next fun event => ?_
  dsimp only
  split
  · exact .bind (handleEvent_fine _) fun _ => .once
  · exact .bind reapFinished_fine fun _ => .once

theorem handshake_fine (sid child : String) (inst generation : Nat) (body : Json) :
    Fine text policy (handshake text sid child inst generation body) := by
  refine .bind (transact_fine ..) fun answer => ?_
  split
  · exact .pure _
  · exact .bind (dropSession_fine sid) fun _ => .map (killChild_fine child)

theorem bindSession_fine (sid child : String) (inst generation : Nat) :
    Fine text policy (bindSession text conn sid child inst generation) := by
  refine .next fun queued => .next fun _ => ?_
  refine .next fun _ => .next fun _ => ?_
  refine .ite (dropSession_fine sid) (.ite (dropSession_fine sid) ?_)
  refine .next fun _ => .next fun op => ?_
  exact .ite (.next fun bindings => handshake_fine ..) (handshake_fine ..)

theorem register_fine (sid : String) (reg : Envelope) (child : String) (inst generation : Nat) :
    Fine text policy (register text conn sid reg child inst generation) := by
  refine .next fun taken => .ite (.pure _) ?_
  refine .next fun verdict => ?_
  exact .ite (.pure _) (.ite (.pure _) (bindSession_fine ..))

theorem serveConn_fine : Fine text policy (serveConn text policy conn) := by
  refine .next fun sid => ?_
  split
  · exact .pure _
  · refine .ite (.pure _) (.ite (.pure _) ?_)
    refine .next fun found => ?_
    split
    · exact .pure _
    · refine .ite (.next fun valid => ?_) (register_fine ..)
      exact .ite (.pure _) (register_fine ..)

theorem heartbeat_fine (sid : String) : Fine text policy (heartbeat sid) := by
  refine .next fun _ => .next fun sink => ?_
  split
  · exact .pure _
  · exact .map .once

theorem dispatch_follows {env : Envelope} :
    (stages text policy).Follows (dispatch sid env) (fun _ _ => True) (.frame sid env) := by
  rw [dispatch]
  split
  next isR =>
    rw [resolveReply]
    split
    · trivial
    next rid hrid =>
      refine .act ⟨env, rfl, isR, hrid⟩ fun found => ?_
      cases found with
      | none => trivial
      | some waiter => exact .act trivial fun _ => trivial
  next =>
    exact Fine.follows (.ite (heartbeat_fine sid) (.ite (dropSession_fine sid) (.pure _))) _

theorem onPluginFrame_follows {env : Envelope} :
    (stages text policy).Follows (onPluginFrame text sid env) (fun _ _ => True)
      (.frame sid env) := by
  simp only [onPluginFrame, Prog.bind_eq, perform_bind]
  refine .act trivial fun ours => ?_
  split
  · trivial
  · refine .act trivial fun verdict => ?_
    split
    · exact dispatch_follows
    · trivial

theorem readFrames_fine (sid : String) (frames : Nat) :
    Fine text policy (readFrames text sid frames) := by
  induction frames with
  | zero => exact .blocked
  | succ frames ih =>
    refine .whole fun s => ?_
    simp only [readFrames, Prog.bind_eq, perform_bind]
    refine .act trivial fun found => ?_
    cases found with
    | none => exact (dropSession_fine sid).follows s
    | some env => exact onPluginFrame_follows.bind fun _ s _ => ih.follows s

theorem code_follows (op : HOp) : (stages text policy).Follows ((host text policy).code op)
    (fun _ _ => True) ((stages text policy).enter op) := by
  have fine : Fine text policy ((host text policy).code op) := by
    cases op with
    | connect conn => exact .map (serveConn_fine conn)
    | read sid frames =>
      exact .map (.next fun _ => readFrames_fine sid frames)
    | event => exact .map eventTurn_fine
    | forward req rounds => exact .map (forwardCall_fine req rounds)
  exact fine.follows _

/-! ### What holds of the requests -/

/-- What a thread at its stage can rely on. -/
def Holds (s : HostState) : Stage → Prop
  | .off => True
  | .asked rid => s.pending.get rid = none ∧ ∀ sid, (sid, rid) ∉ s.sent
  | .waits rid sid => ∀ waiter, s.pending.get rid = some waiter → waiter.session = sid
  | .frame sid env =>
    isReply env.ty = true → ∀ rid, env.requestId = some rid → (sid, rid) ∈ s.sent

structure Inv (st : Nat → Stage) (o : Obs (host text policy)) : Prop where
  routed : Routed o.trace
  sent : ∀ rid waiter, o.mem.pending.get rid = some waiter → ∀ sid, (sid, rid) ∈ o.mem.sent →
    sid = waiter.session
  issued : ∀ rid, o.mem.pending.get rid ≠ none ∨ (∃ sid, (sid, rid) ∈ o.mem.sent) ∨
    (∃ i, (st i).has rid) → ∃ n < o.mem.nextId, rid = HostState.idText "req" n
  own : ∀ i j rid, (st i).has rid → (st j).has rid → i = j
  inbox : ∀ sid env, env ∈ o.mem.inbox sid → isReply env.ty = true →
    ∀ rid, env.requestId = some rid → (sid, rid) ∈ o.mem.sent
  holds : ∀ i, Holds o.mem (st i)

/-- An action that answers nothing keeps the past replies routed. -/
theorem routed_act (h : Routed past)
    (ours : ∀ sid rid waiter, (.act i action reply : Label (host text policy)) =
      .act i (.resolve sid rid) (some waiter) → waiter.session = sid) :
    Routed (.act i action reply :: past) := by
  intro k sid rid waiter there
  rcases List.mem_cons.mp there with now | before
  · have thread : k = i := by
      have := congrArg Label.thread now
      simpa [Label.thread] using this
    subst thread
    exact ours sid rid waiter now.symm
  · exact h k sid rid waiter before

/-- The action takes a waiter out for a frame. -/
def resolves {β : Type} : HAct β → Bool
  | .resolve _ _ => true
  | _ => false

def answers : Label (host text policy) → Bool
  | .act _ action _ => resolves action
  | _ => false

theorem unanswered {sid' rid' : String} (h : resolves action = false) :
    (.act i action reply : Label (host text policy)) ≠
      .act i (.resolve sid' rid') (some waiter) := by
  intro same
  have both : resolves action = true := congrArg answers same
  rw [h] at both
  cases both

theorem Inv.unrouted (inv : Inv st o) (h : resolves action = false) :
    Routed (.act i action reply :: o.trace) :=
  routed_act inv.routed fun _ _ _ same => absurd same (unanswered h)

/-- A request id is one thread's. -/
theorem Inv.apart (inv : Inv st o) (mine : (st i).has rid) (other : j ≠ i) {rid' : String}
    (has : (st j).has rid') : rid' ≠ rid :=
  fun same => other (inv.own j i rid (same ▸ has) mine)

theorem Holds.shrinks {m m' : HostState} (h : Holds m s) (shrinks : Shrinks m m') : Holds m' s := by
  cases s with
  | off => trivial
  | asked rid =>
    refine ⟨by_contra fun waits => ?_, fun sid => shrinks.sent ▸ h.2 sid⟩
    obtain ⟨waiter, there⟩ := Option.ne_none_iff_exists'.mp waits
    cases h.1.symm.trans (shrinks.pending rid waiter there)
  | waits rid sid => exact fun waiter there => h waiter (shrinks.pending rid waiter there)
  | frame sid env => exact fun isR rid hrid => shrinks.sent ▸ h isR rid hrid

/-- What the threads have after one has moved on. -/
theorem has_update (keeps : ∀ rid, next.has rid → (st i).has rid)
    (h : (update st i next j).has rid) : (st j).has rid := by
  by_cases own : j = i
  · subst own
    rw [update_self] at h
    exact keeps rid h
  · rwa [update_of_ne own] at h

theorem holds_update {m : HostState} (others : ∀ j, j ≠ i → Holds m (st j))
    (mine : Holds m next) (j : Nat) : Holds m (update st i next j) := by
  by_cases own : j = i
  · subst own
    rwa [update_self]
  · rw [update_of_ne own]
    exact others j own

/-- Requests and frames were taken out, and the thread has no new request id. -/
theorem Inv.shrunk (inv : Inv st o) (routed : Routed (.act i action reply :: o.trace))
    (shrinks : Shrinks o.mem mem)
    (keeps : ∀ rid, next.has rid → (st i).has rid) (mine : Holds mem next) :
    Inv (update st i next) (o.acted i action reply mem) where
  routed := routed
  sent rid waiter there sid hsent := by
    simp only [Obs.acted_mem, shrinks.sent] at there hsent
    exact inv.sent rid waiter (shrinks.pending rid waiter there) sid hsent
  issued rid reason := by
    obtain ⟨n, hn, same⟩ := inv.issued rid <| by
      rcases reason with waits | ⟨sid, hsent⟩ | ⟨j, has⟩
      · obtain ⟨waiter, there⟩ := Option.ne_none_iff_exists'.mp waits
        exact .inl (by simp [shrinks.pending rid waiter there])
      · exact .inr (.inl ⟨sid, shrinks.sent ▸ hsent⟩)
      · exact .inr (.inr ⟨j, has_update keeps has⟩)
    exact ⟨n, Nat.lt_of_lt_of_le hn shrinks.nextId, same⟩
  own j k rid hj hk := inv.own j k rid (has_update keeps hj) (has_update keeps hk)
  inbox sid env there isR rid hrid := by
    simp only [Obs.acted_mem, shrinks.sent]
    exact inv.inbox sid env (shrinks.inbox sid env there) isR rid hrid
  holds := holds_update (fun j _ => (inv.holds j).shrinks shrinks) mine

/-- The next request id is nobody's. -/
theorem Inv.unasked (inv : Inv st o) : Holds o.mem (.asked (HostState.idText "req" o.mem.nextId)) ∧
      ∀ j, ¬ (st j).has (HostState.idText "req" o.mem.nextId) := by
  have never : ¬ ∃ n < o.mem.nextId,
      HostState.idText "req" o.mem.nextId = HostState.idText "req" n :=
    fun ⟨n, hn, same⟩ => Nat.ne_of_gt hn (HostState.idText_injective same)
  exact ⟨⟨by_contra fun waits => never (inv.issued _ (.inl waits)),
    fun sid hsent => never (inv.issued _ (.inr (.inl ⟨sid, hsent⟩)))⟩,
    fun j has => never (inv.issued _ (.inr (.inr ⟨j, has⟩)))⟩

theorem Inv.asked (inv : Inv st o) : Inv
    (update st i (.asked (HostState.idText "req" o.mem.nextId)))
    (o.acted i (.freshId "req") (HostState.idText "req" o.mem.nextId)
      { o.mem with nextId := o.mem.nextId + 1 }) := by
  obtain ⟨fresh, unasked⟩ := inv.unasked
  have split : ∀ {j rid}, (update st i
      (.asked (HostState.idText "req" o.mem.nextId)) j).has rid →
      (j = i ∧ rid = HostState.idText "req" o.mem.nextId) ∨ (st j).has rid := by
    intro j rid has
    by_cases own : j = i
    · subst own
      rw [update_self] at has
      exact .inl ⟨rfl, has.symm⟩
    · rw [update_of_ne own] at has
      exact .inr has
  refine ⟨inv.unrouted rfl, inv.sent, fun rid reason => ?_, fun j k rid hj hk => ?_, inv.inbox,
    holds_update (fun j _ => inv.holds j) fresh⟩
  · have earlier : _ → ∃ n < o.mem.nextId + 1, rid = HostState.idText "req" n :=
      fun reason => (inv.issued rid reason).imp fun n => And.imp_left Nat.lt_succ_of_lt
    rcases reason with waits | hsent | ⟨j, has⟩
    · exact earlier (.inl waits)
    · exact earlier (.inr (.inl hsent))
    · rcases split has with ⟨-, rfl⟩ | had
      · exact ⟨o.mem.nextId, Nat.lt_succ_self _, rfl⟩
      · exact earlier (.inr (.inr ⟨j, had⟩))
  · rcases split hj with ⟨rfl, rfl⟩ | had <;> rcases split hk with ⟨rfl, same⟩ | had'
    · rfl
    · exact absurd had' (unasked k)
    · exact absurd (same ▸ had) (unasked j)
    · exact inv.own j k rid had had'

/-- A request is registered under a thread's new id. -/
theorem Inv.registered (inv : Inv st o) (asks : st i = .asked rid) : Inv
    (update st i (.waits rid waiter.session)) (o.acted i (.insertPending rid waiter) ()
      { o.mem with pending := o.mem.pending.put rid waiter }) := by
  obtain ⟨-, unsent⟩ : Holds o.mem (.asked rid) := asks ▸ inv.holds i
  have mine : (st i).has rid := asks ▸ rfl
  have keeps : ∀ rid', (Stage.waits rid waiter.session).has rid' → (st i).has rid' :=
    fun _ same => asks ▸ same
  have other : ∀ {rid' waiter'}, (o.mem.pending.put rid waiter).get rid' = some waiter' →
      rid' ≠ rid → o.mem.pending.get rid' = some waiter' := by
    intro rid' waiter' there ne
    rwa [Table.put_get, if_neg ne] at there
  refine ⟨inv.unrouted rfl, fun rid' waiter' there sid hsent => ?_, fun rid' reason => ?_,
    fun j k rid' hj hk => inv.own j k rid' (has_update keeps hj) (has_update keeps hk), inv.inbox,
    holds_update (fun j ne => ?_) fun waiter' there => ?_⟩
  · by_cases same : rid' = rid
    · subst same
      exact absurd hsent (unsent sid)
    · exact inv.sent rid' waiter' (other there same) sid hsent
  · by_cases same : rid' = rid
    · subst same
      exact inv.issued rid' (.inr (.inr ⟨i, mine⟩))
    · refine inv.issued rid' (reason.imp (fun waits => ?_)
        (.imp_right fun ⟨j, has⟩ => ⟨j, has_update keeps has⟩))
      obtain ⟨waiter', there⟩ := Option.ne_none_iff_exists'.mp waits
      simp [other there same]
  · have claim := inv.holds j
    have apart := @inv.apart _ _ _ _ _ _ _ mine ne
    cases stage : st j with
    | off => trivial
    | asked rid' =>
      rw [stage] at claim apart
      exact ⟨(Table.put_get ..).trans ((if_neg (apart rfl)).trans claim.1), claim.2⟩
    | waits rid' sid =>
      rw [stage] at claim apart
      exact fun waiter' there => claim waiter' (other there (apart rfl))
    | frame sid env =>
      rw [stage] at claim
      exact claim
  · rw [Obs.acted_mem, Table.put_get, if_pos rfl] at there
    cases there
    rfl

/-- A request goes out, on the session its reply is awaited from if anyone waits. -/
theorem Inv.written (inv : Inv st o) (mine : (st i).has rid)
    (ours : ∀ waiter, o.mem.pending.get rid = some waiter → waiter.session = sid)
    (keeps : ∀ rid', next.has rid' → (st i).has rid')
    (holds : Holds { o.mem with sent := (sid, rid) :: o.mem.sent } next) :
    Inv (update st i next) (o.acted i (.write sid (some rid)) answer
      { o.mem with sent := (sid, rid) :: o.mem.sent }) := by
  refine ⟨inv.unrouted rfl, fun rid' waiter' there sid' hsent => ?_, fun rid' reason => ?_,
    fun j k rid' hj hk => inv.own j k rid' (has_update keeps hj) (has_update keeps hk),
    fun sid' env there isR rid' hrid =>
      List.mem_cons_of_mem _ (inv.inbox sid' env there isR rid' hrid),
    holds_update (fun j ne => ?_) holds⟩
  · rcases List.mem_cons.mp hsent with now | before
    · cases now
      exact (ours waiter' there).symm
    · exact inv.sent rid' waiter' there sid' before
  · rcases reason with waits | ⟨sid', hsent⟩ | ⟨j, has⟩
    · exact inv.issued rid' (.inl waits)
    · rcases List.mem_cons.mp hsent with now | before
      · cases now
        exact inv.issued rid (.inr (.inr ⟨i, mine⟩))
      · exact inv.issued rid' (.inr (.inl ⟨sid', before⟩))
    · exact inv.issued rid' (.inr (.inr ⟨j, has_update keeps has⟩))
  · have claim := inv.holds j
    have apart := @inv.apart _ _ _ _ _ _ _ mine ne
    cases stage : st j with
    | off => trivial
    | asked rid' =>
      rw [stage] at claim apart
      refine ⟨claim.1, fun sid' hsent => ?_⟩
      rcases List.mem_cons.mp hsent with now | before
      · cases now
        exact apart rfl rfl
      · exact claim.2 sid' before
    | waits rid' sid' =>
      rw [stage] at claim
      exact claim
    | frame sid' env =>
      rw [stage] at claim
      exact fun isR rid' hrid => List.mem_cons_of_mem _ (claim isR rid' hrid)

theorem write_sem (enabled : (HAct.write sid (some rid)).sem o.mem = some (answer, mem)) :
    mem = { o.mem with sent := (sid, rid) :: o.mem.sent } := by
  simp only [HAct.sem] at enabled
  split at enabled <;> cases enabled <;> rfl

theorem Inv.resolved (inv : Inv st o)
    (allows : (st i).allows (.resolve sid rid : HAct (Option Pending))) :
    Inv (update st i (st i)) (o.acted i (.resolve sid rid) (o.mem.pending.get rid)
      { o.mem with pending := o.mem.pending.erase rid }) := by
  obtain ⟨env, stage, isR, hrid⟩ := allows
  have shrinks : Shrinks o.mem { o.mem with pending := o.mem.pending.erase rid } :=
    ⟨fun _ _ => erase_pending _ rid, rfl, Nat.le_refl _, fun _ _ => id⟩
  have frame : Holds o.mem (.frame sid env) := stage ▸ inv.holds i
  refine inv.shrunk (routed_act inv.routed fun sid' rid' waiter same => ?_) shrinks
    (fun _ => id) ((inv.holds i).shrinks shrinks)
  simp only [Label.act.injEq, HAct.resolve.injEq, heq_eq_eq, true_and] at same
  obtain ⟨⟨rfl, rfl⟩, found⟩ := same
  exact (inv.sent rid waiter found sid (frame isR rid hrid)).symm

theorem Inv.received (inv : Inv st o) {found : Option Envelope}
    (enabled : (HAct.receive sid).sem o.mem = some (found, mem)) :
    Inv (update st i ((st i).next (.receive sid) found))
      (o.acted i (.receive sid) found mem) := by
  have shrinks : Shrinks o.mem mem := by
    refine sem_shrinks ?_ enabled
    trivial
  cases found with
  | none =>
    exact inv.shrunk (inv.unrouted rfl) shrinks (fun _ => id) ((inv.holds i).shrinks shrinks)
  | some env =>
    refine inv.shrunk (inv.unrouted rfl) shrinks (fun _ => False.elim) fun isR rid hrid => ?_
    rw [shrinks.sent]
    refine inv.inbox sid env ?_ isR rid hrid
    simp only [HAct.sem] at enabled
    split at enabled
    next first rest hinbox =>
      cases enabled
      rw [hinbox]
      exact List.mem_cons_self
    next => split at enabled <;> cases enabled

theorem Inv.act (inv : Inv st o) (allows : (st i).allows action)
    (enabled : action.sem o.mem = some (reply, mem)) :
    Inv (update st i ((st i).next action reply)) (o.acted i action reply mem) := by
  have quiet : plain action → (st i).next action reply = st i →
      Inv (update st i ((st i).next action reply)) (o.acted i action reply mem) := by
    intro hplain same
    have shrinks : Shrinks o.mem mem := sem_shrinks hplain enabled
    rw [same]
    refine inv.shrunk (inv.unrouted ?_) shrinks (fun _ => id) ((inv.holds i).shrinks shrinks)
    cases action with
    | resolve => exact hplain.elim
    | _ => rfl
  cases action with
  | freshId kind =>
    by_cases req : kind = "req"
    · subst req
      cases enabled
      have asked : (st i).next (.freshId "req") (HostState.idText "req" o.mem.nextId) =
          .asked (HostState.idText "req" o.mem.nextId) := by simp [Stage.next]
      rw [asked]
      exact inv.asked
    · exact quiet trivial (by simp [Stage.next, req])
  | insertPending rid waiter =>
    cases enabled
    exact inv.registered allows
  | write sid rid =>
    cases rid with
    | none => exact quiet trivial rfl
    | some rid =>
      cases write_sem enabled
      rcases allows with asks | waits
      · have claim : Holds o.mem (.asked rid) := asks ▸ inv.holds i
        have off : (st i).next (.write sid (some rid)) reply = .off := by
          simp [Stage.next, Stage.wrote, asks]
        rw [off]
        refine inv.written (asks ▸ rfl) (fun waiter there => ?_) (fun _ => False.elim) trivial
        cases claim.1.symm.trans there
      · have claim : Holds o.mem (.waits rid sid) := waits ▸ inv.holds i
        have stays : (st i).next (.write sid (some rid)) reply = st i := by
          simp [Stage.next, Stage.wrote, waits]
        rw [stays]
        exact inv.written (waits ▸ rfl) claim (fun _ => id) (waits ▸ claim)
  | resolve sid rid =>
    cases enabled
    exact inv.resolved allows
  | receive sid => exact inv.received enabled
  | _ => exact quiet trivial rfl

/-- A thread starts or ends. -/
theorem Inv.log (inv : Inv st o) (quiet : ∀ {i : Nat} {β : Type} {action : HAct β} {reply : β},
    label ≠ .act i action reply) : Inv (update st i .off) (o.log label) where
  routed j sid rid waiter there := by
    rcases List.mem_cons.mp there with now | before
    · exact absurd now.symm quiet
    · exact inv.routed j sid rid waiter before
  sent := inv.sent
  issued rid reason := inv.issued rid (reason.imp_right (.imp_right fun ⟨j, has⟩ =>
    ⟨j, has_update (fun _ => False.elim) has⟩))
  own j k rid hj hk :=
    inv.own j k rid (has_update (fun _ => False.elim) hj) (has_update (fun _ => False.elim) hk)
  inbox := inv.inbox
  holds := holds_update (fun j _ => inv.holds j) trivial

theorem env_requests (event : HEnv) (s : HostState) :
    (event.run s).pending = s.pending ∧ (event.run s).sent = s.sent ∧
      (event.run s).nextId = s.nextId := by
  cases event with
  | emits event =>
    simp only [HEnv.run, HostState.emits]
    repeat' split
    all_goals exact ⟨rfl, rfl, rfl⟩
  | activates | retires | arrives | hangsUp | childExits | outside => exact ⟨rfl, rfl, rfl⟩

theorem Inv.passed (inv : Inv st o) {event : HEnv} (h : honest o (.env event)) :
    Inv st (o.passed event) := by
  obtain ⟨pending, sent, nextId⟩ := env_requests event o.mem
  have same : (o.passed event).mem = event.run o.mem := rfl
  refine ⟨fun j sid rid waiter there => ?_, ?_, ?_, inv.own, ?_, fun j => ?_⟩
  · exact inv.routed j sid rid waiter ((List.mem_cons.mp there).resolve_left nofun)
  · rw [same, pending, sent]
    exact inv.sent
  · rw [same, pending, sent, nextId]
    exact inv.issued
  · intro sid env there
    rw [same, sent]
    cases event with
    | arrives sid' env' =>
      by_cases here : sid = sid'
      · subst here
        simp only [same, HEnv.run, update_self, List.mem_append, List.mem_singleton]
          at there
        rcases there with before | rfl
        · exact inv.inbox sid env before
        · exact h
      · simp only [same, HEnv.run, update_of_ne here] at there
        exact inv.inbox sid env there
    | emits event =>
      refine inv.inbox sid env ?_
      simp only [same, HEnv.run, HostState.emits] at there
      repeat' split at there
      all_goals exact there
    | _ => exact inv.inbox sid env there
  · have claim := inv.holds j
    cases stage : st j with
    | off => trivial
    | _ =>
      rw [stage] at claim
      simp only [Holds, same, pending, sent]
      exact claim

theorem preserved : (stages text policy).Preserved honest Inv where
  start _ inv _ _ := inv.log nofun
  act _ inv allows enabled _ := inv.act allows enabled
  done _ inv _ _ := inv.log nofun
  env inv ok := inv.passed ok

/-- A host that has sent nothing and received nothing. -/
structure Booted (s : HostState) : Prop where
  pending : ∀ rid, s.pending.get rid = none
  sent : s.sent = []
  inbox : ∀ sid, s.inbox sid = []

theorem Booted.inv {s : HostState} (h : Booted s) :
    Inv (fun _ => .off) (⟨s, []⟩ : Obs (host text policy)) where
  routed _ _ _ _ there := absurd there (by simp)
  sent _ _ _ := by simp [h.sent]
  issued rid reason := by
    rcases reason with waits | ⟨sid, sent⟩ | ⟨j, has⟩
    · exact absurd (h.pending rid) waits
    · simp [h.sent] at sent
    · exact has.elim
  own _ _ _ has := has.elim
  inbox sid _ := by simp [h.inbox]
  holds _ := trivial

/-! ### A component that answers for another -/

/-- The session a reply came on, its request id, and the session it was awaited from. -/
def taken {β : Type} : HAct β → β → Option (String × String × String)
  | .resolve sid rid, some waiter => some (sid, rid, waiter.session)
  | _, _ => none

def delivered (past : List (Label (host text policy))) : List (String × String × String) :=
  past.filterMap fun
    | .act _ action reply => taken action reply
    | _ => none

theorem delivered_acts {owner : String} (h : (sid, rid, owner) ∈ delivered past) :
    ∃ i waiter, .act i (.resolve sid rid) (some waiter) ∈ past ∧ waiter.session = owner := by
  obtain ⟨label, there, found⟩ := List.mem_filterMap.mp h
  cases label with
  | act i action reply =>
    cases action with
    | resolve sid' rid' =>
      cases reply with
      | some waiter =>
        cases found
        exact ⟨i, waiter, there, rfl⟩
      | none => cases found
    | _ => cases found
  | start => cases found
  | done => cases found
  | env => cases found

/-- The condition of `honest`, as a check. -/
def honestNow (o : Obs (host text policy)) : Label (host text policy) → Bool
  | .env (.arrives sid env) =>
    !isReply env.ty || env.requestId.all fun rid => decide ((sid, rid) ∈ o.mem.sent)
  | _ => true

theorem honestNow_honest (h : honestNow o label = true) : honest o label := by
  cases label with
  | env event =>
    cases event with
    | arrives sid env =>
      intro isR rid hrid
      simpa [honestNow, isR, hrid] using h
    | _ => trivial
  | _ => trivial

theorem idleHost_silent : Booted idleHost := ⟨fun _ => rfl, rfl, fun _ => rfl⟩

/-- The connection of another component, `q`. -/
def neighbour : Connection :=
  { component with
    register := fun sid => some ⟨"component.register", "m-1", some sid, none, none, none,
      .obj [("manifest", .obj [("id", .str "q")])]⟩ }

/-- A result of a call. -/
def result (sid rid output : String) : Envelope :=
  ⟨"call.result", "m-3", some sid, none, none, some rid,
    .obj [("output", .str output), ("status", .str "ok")]⟩

def callP : ForwardRequest := ⟨1, "p.cap", .null, "p", 1, 1, 1000⟩

/-- `p` and `q` have their sessions, and a call is forwarded to `p`. -/
def callUnderWay : List (Turn (host blank trusting)) :=
  [.env (.activates "p" 1), .env (.activates "q" 1),
    .start 0 (.connect component), .steps 0 17,
    .env (.arrives "sess-1" (activated "sess-1" "req-3")), .start 1 (.read "sess-1" 9), .steps 1 6,
    .finish 0, .start 2 (.connect neighbour), .steps 2 17,
    .env (.arrives "sess-5" (activated "sess-5" "req-7")), .start 3 (.read "sess-5" 9), .steps 3 6,
    .finish 2, .start 4 (.forward callP 9), .steps 4 10]

end MatrixRuntime.ReplyRouting
