import MatrixRuntime.SessionBindings

/-! Runs of the host: one session per instance while binds and drops keep out of each other's
way, and two of them when they do not. -/

namespace MatrixRuntime.SessionRuns

open JsonValue KeyedTable HostSessions SessionBindings InterleavedProgram InterleavedMachine
open TraceMarks ThreadStates Function

variable {text : JsonText} {policy : HostPolicy} {o : Obs (host text policy)} {i j : Nat}
  {β : Type} {action : HAct β} {reply : β} {mem : HostState} {sid : String} {key : String × Nat}
  {inst generation : Nat} {logical child : String} {s : HostState} {st : Nat → Stage}
  {label : Label (host text policy)} {event : LifecycleEvent} {conn : Connection}
  {x : String × String × Nat} {at' : Stage} {due : Due}

/-! ### The stages of the programs -/

/-- The program stays at its stage. -/
abbrev Stays (text : JsonText) (policy : HostPolicy) {α : Type} (p : HProg α) : Prop :=
  ∀ s, (stages text policy).Follows p (fun _ s' => s' = s) s

theorem stays_of_talks {α : Type} {p : HProg α} (h : Talks p) : Stays text policy p := by
  refine fun s => Protocol.Follows.composed h fun β action talks => ?_
  cases action with
  | freshId kind => exact ⟨fun same => absurd same talks, fun _ => if_neg talks⟩
  | insertSession | removeSession | insertInstance | removeInstance | takeInstance =>
    exact talks.elim
  | spawnReader | beginReader | takeEvent | endEvent => exact talks.elim
  | _ => exact ⟨trivial, fun _ => rfl⟩

theorem stays_of_housekeeping {α : Type} {p : HProg α} (h : Housekeeping p) :
    Stays text policy p := by
  refine fun s => Protocol.Follows.composed h fun β action house => ?_
  cases action <;> first | exact house.elim | exact ⟨trivial, fun _ => rfl⟩

theorem Stays.then {α γ : Type} {p : HProg α} {f : α → HProg γ} {Q : γ → Stage → Prop}
    (h : Stays text policy p) {s : Stage}
    (rest : ∀ value, (stages text policy).Follows (f value) Q s) :
    (stages text policy).Follows (p.bind f) Q s :=
  (h s).bind fun value _ same => same ▸ rest value

theorem follows_ite {α : Type} {p q : HProg α} {Q : α → Stage → Prop} {c : Prop} [Decidable c]
    (hp : (stages text policy).Follows p Q at') (hq : (stages text policy).Follows q Q at') :
    (stages text policy).Follows (if c then p else q) Q at' := by
  split
  · exact hp
  · exact hq

theorem dropSession_follows (ours : at'.life = .inside sid ∨ at'.life = .taken sid) :
    (stages text policy).Follows (dropSession sid)
      (fun _ s => s = ⟨.inside sid, at'.due.closed sid⟩) at' := by
  refine ⟨ours, fun found => ?_⟩
  cases found with
  | none => rfl
  | some t => exact ⟨rfl, fun _ => ⟨trivial, fun _ => ⟨trivial, fun _ => rfl⟩⟩⟩

theorem quiesceSession_follows :
    (stages text policy).Follows (quiesceSession text logical inst generation)
      (fun _ s => s.life.calm ∧ (due = .told (logical, inst) → s.due = .cleared (logical, inst)))
      ⟨.off, due⟩ := by
  refine ⟨rfl, fun found => ?_⟩
  have kill : ∀ {s : Stage}, s.life.calm →
      (due = .told (logical, inst) → s.due = .cleared (logical, inst)) →
      (stages text policy).Follows ((killChild logical).bind fun _ => .pure ()) (fun _ s =>
        s.life.calm ∧ (due = .told (logical, inst) → s.due = .cleared (logical, inst))) s :=
    fun calm cleared =>
      (stays_of_housekeeping (killChild_housekeeping logical)).then fun _ => ⟨calm, cleared⟩
  cases found with
  | none =>
    refine kill trivial ?_
    rintro rfl
    exact if_pos rfl
  | some sid =>
    refine (stays_of_talks (cancelSessionCalls_talks sid "withdraw")).then fun _ => ?_
    refine ⟨fun same => absurd same (by decide), fun op => ?_⟩
    refine (stays_of_talks (transact_talks ..)).then fun _ => ?_
    refine ⟨fun same => absurd same (by decide), fun op => ?_⟩
    refine (stays_of_talks (transact_talks ..)).then fun _ => ?_
    refine (dropSession_follows (.inr rfl)).bind ?_
    rintro _ _ rfl
    refine kill trivial ?_
    rintro rfl
    simp [stages, Stage.next, Due.took, Due.closed]

/-- The stage at which the handling of an event may end. -/
def Ends (event : LifecycleEvent) (s : Stage) : Prop :=
  s.life.calm ∧ ∀ logical inst generation, event = .withdrawn logical inst generation →
    s.due = .cleared (logical, inst)

theorem reap_follows {Q : Unit → Stage → Prop} (h : Q () at') :
    (stages text policy).Follows reapFinished Q at' :=
  (stays_of_housekeeping reapFinished_housekeeping at').mono fun _ _ same => same ▸ h

theorem handleEvent_follows (told : ∀ logical inst generation,
    event = .withdrawn logical inst generation → due = .told (logical, inst)) :
    (stages text policy).Follows (handleEvent text policy event) (fun _ => Ends event)
      ⟨.off, due⟩ := by
  cases event with
  | activated logical inst generation =>
    refine (stays_of_housekeeping (killChild_housekeeping logical)).then fun _ => ?_
    refine (stays_of_housekeeping (spawnChild_housekeeping ..)).then fun _ => ?_
    exact reap_follows ⟨trivial, fun _ _ _ other => nomatch other⟩
  | withdrawn logical inst generation =>
    refine quiesceSession_follows.bind fun _ s done => reap_follows ⟨done.1, ?_⟩
    rintro _ _ _ ⟨⟩
    exact done.2 (told logical inst generation rfl)
  | removed logical =>
    have rest : ∀ s : Stage, s.life.calm → (stages text policy).Follows
        (.act (.removeActivation logical) fun _ => (killChild logical).bind fun _ => reapFinished)
        (fun _ => Ends (.removed logical)) s := by
      refine fun s calm => ⟨trivial, fun _ => ?_⟩
      refine (stays_of_housekeeping (killChild_housekeeping logical)).then fun _ => ?_
      exact reap_follows ⟨calm, fun _ _ _ other => nomatch other⟩
    refine ⟨trivial, fun c => ?_⟩
    cases c with
    | none => exact rest _ trivial
    | some c => exact quiesceSession_follows.bind fun _ s done => rest s done.1

theorem eventTurn_follows :
    (stages text policy).Follows (eventTurn text policy) (fun _ s => s.life.calm) .idle := by
  refine ⟨rfl, fun event => ?_⟩
  cases event with
  | none =>
    exact (stays_of_housekeeping reapFinished_housekeeping).then fun _ =>
      ⟨trivial, fun _ => trivial⟩
  | some event =>
    have ends : ∀ s, Ends event s → (stages text policy).Follows (perform (.endEvent (some event)))
        (fun _ s => s.life.calm) s := by
      intro s ends
      refine ⟨?_, fun _ => ends.1⟩
      cases event with
      | withdrawn logical inst generation => exact ends.2 logical inst generation rfl
      | activated | removed => trivial
    have told : (stages text policy).Follows (handleEvent text policy event) (fun _ => Ends event)
        ((stages text policy).next .idle .takeEvent (some event)) := by
      cases event with
      | withdrawn logical inst generation =>
        refine handleEvent_follows ?_
        rintro _ _ _ ⟨⟩
        rfl
      | activated | removed => exact handleEvent_follows fun _ _ _ other => nomatch other
    exact told.bind fun _ s => ends s

theorem handshake_follows {body : Json} (inside : at'.life = .inside sid) :
    (stages text policy).Follows (handshake text sid child inst generation body)
      (fun _ s => s.life.calm) at' := by
  have calm : at'.life.calm := by
    rw [inside]
    trivial
  refine (stays_of_talks (transact_talks ..)).then fun answer => ?_
  have drop : (stages text policy).Follows ((dropSession sid).bind fun _ =>
      (killChild child).bind fun _ => .pure ()) (fun _ s => s.life.calm) at' := by
    refine (dropSession_follows (.inl inside)).bind ?_
    rintro _ _ rfl
    exact (stays_of_housekeeping (killChild_housekeeping child)).then fun _ => trivial
  split
  · exact calm
  · exact drop

theorem bindSession_follows : (stages text policy).Follows
    (bindSession text conn sid child inst generation) (fun _ s => s.life.calm)
      ⟨.named sid, .nothing⟩ := by
  have drop : (stages text policy).Follows (dropSession sid) (fun _ s => s.life.calm)
      ⟨.inside sid, .nothing⟩ :=
    (dropSession_follows (.inl rfl)).mono fun _ s same => same ▸ trivial
  refine ⟨trivial, fun queued => ⟨rfl, fun _ => ⟨rfl, fun _ => ⟨trivial, fun _ => ?_⟩⟩⟩⟩
  refine follows_ite drop (follows_ite drop ⟨rfl, fun _ => ?_⟩)
  refine ⟨fun same => absurd same (by decide), fun op => ?_⟩
  exact follows_ite ⟨trivial, fun bindings => handshake_follows rfl⟩ (handshake_follows rfl)

theorem register_follows {reg : Envelope} : (stages text policy).Follows
    (register text conn sid reg child inst generation) (fun _ s => s.life.calm)
      ⟨.named sid, .nothing⟩ := by
  refine ⟨trivial, fun taken => follows_ite trivial ⟨trivial, fun verdict => ?_⟩⟩
  exact follows_ite trivial (follows_ite trivial bindSession_follows)

theorem serveConn_follows :
    (stages text policy).Follows (serveConn text policy conn) (fun _ s => s.life.calm) .idle := by
  simp only [serveConn, Prog.bind_eq, perform_bind]
  refine .act (fun _ => rfl) fun sid => ?_
  have named : (stages text policy).next .idle (.freshId "sess") sid = ⟨.named sid, .nothing⟩ := by
    simp [stages, Stage.next, Stage.idle]
  rw [named]
  split
  · trivial
  · refine follows_ite trivial (follows_ite trivial (.act trivial fun found => ?_))
    split
    · trivial
    · refine follows_ite (.act trivial fun valid => ?_) register_follows
      exact follows_ite trivial register_follows

theorem readFrames_follows (frames : Nat) : (stages text policy).Follows
    (readFrames text sid frames) (fun _ s => s.life.calm) ⟨.inside sid, .nothing⟩ := by
  have drop : (stages text policy).Follows (dropSession sid)
      (fun _ s => s = ⟨.inside sid, .nothing⟩)
      ⟨.inside sid, .nothing⟩ := dropSession_follows (.inl rfl)
  have dispatched : ∀ env, (stages text policy).Follows (dispatch sid env)
      (fun _ s => s = ⟨.inside sid, .nothing⟩) ⟨.inside sid, .nothing⟩ := by
    refine fun env => follows_ite (stays_of_talks (resolveReply_talks ..) _) (follows_ite ?_ ?_)
    · exact stays_of_talks (heartbeat_talks sid) _
    · exact follows_ite drop rfl
  induction frames with
  | zero => trivial
  | succ frames ih =>
    refine ⟨trivial, fun found => ?_⟩
    cases found with
    | none => exact drop.mono fun _ s same => same ▸ trivial
    | some env =>
      have frame : (stages text policy).Follows (onPluginFrame text sid env)
          (fun _ s => s = ⟨.inside sid, .nothing⟩) ⟨.inside sid, .nothing⟩ := by
        simp only [onPluginFrame, Prog.bind_eq, perform_bind]
        refine .act trivial fun ours => follows_ite rfl (.act trivial fun verdict => ?_)
        split
        · exact dispatched env
        · rfl
      exact frame.bind fun _ s same => same ▸ ih

theorem code_follows (op : HOp) : (stages text policy).Follows ((host text policy).code op)
    (fun _ s => s.life.calm) .idle := by
  cases op with
  | connect conn => exact serveConn_follows.bind fun _ s calm => calm
  | read sid frames =>
    exact Protocol.Follows.bind ⟨rfl, fun _ => readFrames_follows frames⟩ fun _ s calm => calm
  | event => exact eventTurn_follows.bind fun _ s calm => calm
  | forward req rounds =>
    exact (stays_of_talks (forwardCall_talks req rounds)).then fun _ => trivial

/-! ### The steps -/

/-- A step at which the thread keeps its stage. -/
theorem same_stage (h : Inv st o) (off : offTables action)
    (bound : ∀ sid, boundTo mem sid = boundTo o.mem sid)
    (byInstance : mem.byInstance = o.mem.byInstance) (kernel : mem.kernel = o.mem.kernel)
    (nextId : o.mem.nextId ≤ mem.nextId) (readers : ∀ sid ∈ mem.readers, Entered sid o.trace)
    (queued : ∀ logical inst generation, .withdrawn logical inst generation ∈ mem.events →
      Retired o.mem (logical, inst))
    (handled : ∀ key ∈ mem.handled, (Due.cleared key).claim o) :
    Inv (update st i (st i)) (o.acted i action reply mem) :=
  h.aside off bound byInstance kernel nextId (.inl rfl) (fun _ => .inl) (h.claims i).life
    (h.claims i).due readers queued handled

theorem quiet_act (h : Inv st o) (calm : quiet action)
    (enabled : action.sem o.mem = some (reply, mem)) :
    Inv (update st i ((st i).next action reply)) (o.acted i action reply mem) := by
  have same := sem_same calm enabled
  have off : offTables action := by
    cases action with
    | insertSession | removeSession | insertInstance | removeInstance | takeInstance =>
      exact calm.elim
    | _ => trivial
  rw [quiet_next calm]
  exact same_stage h off same.bound same.byInstance same.kernel same.nextId
    (same.readers ▸ h.readers)
    (same.events ▸ h.queued) (same.handled ▸ h.handled)

theorem freshId_act (h : Inv st o) {kind : String} (allows : kind = "sess" → (st i).life = .off) :
    Inv (update st i ((st i).next (.freshId kind) (HostState.idText kind o.mem.nextId)))
      (o.acted i (.freshId kind) (HostState.idText kind o.mem.nextId)
        { o.mem with nextId := o.mem.nextId + 1 }) := by
  simp only [Stage.next]
  split
  next session =>
    subst session
    have off := allows rfl
    have unseen : ∀ {p : Prop}, (∃ n < o.mem.nextId,
        HostState.idText "sess" o.mem.nextId = HostState.idText "sess" n) → p := by
      rintro p ⟨n, small, same⟩
      exact absurd (HostState.idText_injective same) (Nat.ne_of_gt small)
    refine h.aside trivial (fun _ => rfl) rfl rfl (Nat.le_succ _)
      (.inr ⟨by rw [off]; trivial, trivial⟩)
      (fun sid owns => .inr ⟨owns.symm, Nat.lt_succ_self _⟩) ⟨?_, fun entered => ?_⟩
      (h.claims i).due
      h.readers h.queued h.handled
    · by_contra bound
      exact unseen (h.issued _ (.inl bound))
    · exact unseen (h.issued _ (.inr (.inl entered)))
  next =>
    exact same_stage h trivial (fun _ => rfl) rfl rfl (Nat.le_succ _) h.readers h.queued h.handled

theorem takeEvent_act (h : Inv st o) (idle : st i = .idle) {found : Option LifecycleEvent}
    (enabled : HAct.sem .takeEvent o.mem = some (found, mem)) :
    Inv (update st i ((st i).next .takeEvent found)) (o.acted i .takeEvent found mem) := by
  have told : ∀ {mem' : HostState} {due : Due}, boundTo mem' = boundTo o.mem →
      mem'.byInstance = o.mem.byInstance → mem'.kernel = o.mem.kernel → mem'.nextId = o.mem.nextId →
      mem'.readers = o.mem.readers → mem'.handled = o.mem.handled →
      (∀ event ∈ mem'.events, event ∈ o.mem.events) → due.claim o →
      Inv (update st i ⟨.off, due⟩) (o.acted i .takeEvent found mem') := by
    intro mem' due bound byInstance kernel nextId readers handled events claim
    refine h.aside trivial (congrFun bound) byInstance kernel (Nat.le_of_eq nextId.symm)
      (.inl (by rw [idle]; rfl)) (fun _ => False.elim) trivial claim (readers ▸ h.readers)
      (fun logical inst generation there => h.queued _ _ _ (events _ there)) (handled ▸ h.handled)
  simp only [HAct.sem] at enabled
  split at enabled
  · cases enabled
  · rw [idle]
    split at enabled
    next event rest queue =>
      cases enabled
      have events : ∀ e ∈ rest, e ∈ o.mem.events := fun e there => by
        rw [queue]
        exact List.mem_cons_of_mem _ there
      cases event with
      | withdrawn logical inst generation =>
        refine told rfl rfl rfl rfl rfl rfl events (h.queued logical inst generation ?_)
        rw [queue]
        exact List.mem_cons_self
      | activated | removed => exact told rfl rfl rfl rfl rfl rfl events trivial
    next =>
      cases enabled
      exact told rfl rfl rfl rfl rfl rfl (fun _ => id) trivial

theorem endEvent_act (h : Inv st o) {event : Option LifecycleEvent}
    (allows : (st i).allows (.endEvent event))
    (enabled : HAct.sem (.endEvent event) o.mem = some ((), mem)) :
    Inv (update st i (st i)) (o.acted i (.endEvent event) () mem) := by
  rcases event with _ | ⟨logical, inst, generation⟩ | ⟨logical, inst, generation⟩ | ⟨logical⟩
  case some.withdrawn =>
    cases enabled
    refine same_stage h trivial (fun _ => rfl) rfl rfl (Nat.le_refl _) h.readers h.queued ?_
    intro key there
    rcases List.mem_cons.1 there with rfl | before
    · have due := (h.claims i).due
      rwa [show (st i).due = .cleared (logical, inst) from allows] at due
    · exact h.handled key before
  all_goals
    cases enabled
    exact same_stage h trivial (fun _ => rfl) rfl rfl (Nat.le_refl _) h.readers h.queued h.handled

theorem act_step (h : Inv st o) (allows : (st i).allows action) (ok : alone o.mem action)
    (enabled : action.sem o.mem = some (reply, mem)) :
    Inv (update st i ((st i).next action reply)) (o.acted i action reply mem) := by
  cases action with
  | freshId kind =>
    cases enabled
    exact freshId_act h allows
  | insertSession sid t =>
    cases enabled
    exact h.insertSession allows ok.1 ok.2
  | insertInstance sid logical inst =>
    cases enabled
    exact h.insertInstance allows
  | removeSession sid =>
    cases enabled
    exact h.removeSession allows
  | removeInstance sid logical inst =>
    cases enabled
    exact h.removeInstance allows ok
  | takeInstance logical inst =>
    cases enabled
    exact h.takeInstance allows ok
  | spawnReader sid =>
    cases enabled
    refine same_stage h trivial (fun _ => rfl) rfl rfl (Nat.le_refl _) ?_ h.queued h.handled
    intro sid' there
    rcases List.mem_cons.1 there with rfl | before
    · have inside := (h.claims i).life
      rwa [show (st i).life = .inside sid' from allows] at inside
    · exact h.readers sid' before
  | beginReader sid =>
    simp only [HAct.sem] at enabled
    split at enabled
    next there =>
      cases enabled
      have off : (st i).life = .off := allows
      exact h.aside trivial (fun _ => rfl) rfl rfl (Nat.le_refl _)
        (.inr ⟨by rw [off]; trivial, trivial⟩) (fun _ => False.elim)
        (h.readers sid (List.contains_iff_mem.1 there)) (h.claims i).due
        (fun sid' left => h.readers sid' (List.mem_of_mem_erase left)) h.queued h.handled
    next => cases enabled
  | takeEvent => exact takeEvent_act h allows enabled
  | endEvent event => exact endEvent_act h allows enabled
  | _ => exact quiet_act h trivial enabled

/-- The start or the end of an operation of a thread in the middle of nothing. -/
theorem log_step (h : Inv st o) (calm : (st i).life.calm) (thread : label.thread = some i)
    (entered : ∀ sid, Entered sid (label :: o.trace) ↔ Entered sid o.trace) :
    Inv (update st i .idle) (o.log label) := by
  have moves : Moves o (o.log label) := ⟨fun sid => (entered sid).2, fun _ _ => .inl, fun _ => id⟩
  refine h.kept (i := i) (fun _ => rfl) rfl entered (Nat.le_refl _) (fun j => ?_)
    (fun j sid owns => .inl ?_)
    (h.others moves rfl thread (fun sid => .inl ⟨rfl, (entered sid).1⟩) ⟨trivial, trivial, trivial⟩)
    h.readers h.queued fun key there => (h.handled key there).moves moves
  · by_cases here : j = i
    · subst here
      rw [update_self]
      exact .inr ⟨calm, trivial⟩
    · rw [update_of_ne here]
      exact .inl rfl
  · by_cases here : j = i
    · subst here
      rw [update_self] at owns
      exact owns.elim
    · rwa [update_of_ne here] at owns

theorem emits_same (s : HostState) (event : LifecycleEvent) :
    (s.emits event).kernel = s.kernel ∧ (s.emits event).sessions = s.sessions := by
  unfold HostState.emits
  repeat' split
  all_goals exact ⟨rfl, rfl⟩

/-- A retired instance stays retired: instances are never issued twice. -/
theorem retired_env (event : HEnv) (h : Retired s key) :
    Retired (event.run s) key := by
  cases event with
  | activates logical generation =>
    refine ⟨Nat.lt_succ_of_lt h.1, ?_⟩
    have issued : s.kernel.nextInst ≠ key.2 := Nat.ne_of_gt h.1
    have before := h.2
    simp only [HEnv.run, HostState.activeInst, HostState.setCurrent] at before ⊢
    by_cases same : key.1 = logical
    · subst same
      simpa using issued
    · simpa [update_of_ne same] using before
  | retires logical =>
    refine ⟨h.1, ?_⟩
    have before := h.2
    simp only [HEnv.run, HostState.activeInst, HostState.setCurrent] at before ⊢
    by_cases same : key.1 = logical
    · subst same
      cases hc : s.kernel.current key.1 <;> simp
    · simpa [update_of_ne same] using before
  | emits event =>
    have same := (emits_same s event).1
    simpa only [Retired, HostState.activeInst, HEnv.run, same] using h
  | arrives | hangsUp | childExits | outside => exact h

theorem boundTo_env (event : HEnv) (s : HostState) (sid : String) :
    boundTo (event.run s) sid = boundTo s sid := by
  cases event with
  | emits event => simp only [boundTo, HEnv.run, (emits_same s event).2]
  | activates | retires | arrives | hangsUp | childExits | outside => rfl

theorem queued_env {event : HEnv} (h : Inv st o)
    (queued : .withdrawn logical inst generation ∈ (event.run o.mem).events) :
    Retired (event.run o.mem) (logical, inst) := by
  cases event with
  | emits event =>
    refine retired_env (.emits event) ?_
    have before := h.queued logical inst generation
    simp only [HEnv.run, HostState.emits] at queued
    split at queued
    · split at queued
      next hr =>
        rcases List.mem_append.mp queued with old | new
        · exact before old
        · cases List.mem_singleton.mp new
          exact hr
      next => exact before queued
    next other =>
      rcases List.mem_append.mp queued with old | new
      · exact before old
      · exact absurd (List.mem_singleton.mp new).symm (other logical inst generation)
  | activates | retires | arrives | hangsUp | childExits | outside =>
    exact retired_env _ (h.queued logical inst generation queued)

theorem env_tables (event : HEnv) (s : HostState) : (event.run s).byInstance = s.byInstance ∧
    (event.run s).readers = s.readers ∧ (event.run s).nextId = s.nextId ∧
      (event.run s).handled = s.handled := by
  cases event with
  | emits event =>
    simp only [HEnv.run, HostState.emits]
    repeat' split
    all_goals exact ⟨rfl, rfl, rfl, rfl⟩
  | activates | retires | arrives | hangsUp | childExits | outside => exact ⟨rfl, rfl, rfl, rfl⟩

theorem env_step (h : Inv st o) (event : HEnv) : Inv st (o.passed event) := by
  obtain ⟨byInstance, readers, nextId, handled⟩ := env_tables event o.mem
  have bound : ∀ sid, boundTo (o.passed event).mem sid = boundTo o.mem sid :=
    boundTo_env event o.mem
  have moves : Moves o (o.passed event) :=
    ⟨fun _ => id, fun sid key after => .inl (bound sid ▸ after), fun _ => retired_env event⟩
  have logged : (o.passed event).trace = .env event :: o.trace := rfl
  refine h.kept (i := 0) bound byInstance (fun _ => Iff.rfl) (Nat.le_of_eq nextId.symm)
    (fun _ => .inl rfl) (fun _ _ => .inl) (fun j => ?_)
    (fun sid there => h.readers sid (readers ▸ there))
    (fun _ _ _ there => queued_env h there) fun key there => ?_
  · obtain ⟨life, due, marked⟩ := h.claims j
    exact ⟨life.moves moves fun sid _ => ⟨bound sid, id⟩, due.moves moves,
      marked.foreign logged (fun none => nomatch none)⟩
  · exact (h.handled key (handled ▸ there)).moves moves

theorem preserved : (stages text policy).Preserved bindsAlone Inv where
  start _ h idle _ := log_step h (by rw [idle]; trivial) rfl fun _ => Iff.rfl
  act _ h allows enabled ok := act_step h allows ok enabled
  done _ h calm _ := log_step h calm rfl fun _ => Iff.rfl
  env h _ := env_step h _

/-! ### Runs -/

/-- A host that has just started. -/
structure Booted (s : HostState) : Prop where
  sessions : ∀ sid, s.sessions.get sid = none
  byInstance : ∀ key, s.byInstance.get key = none
  readers : s.readers = []
  events : s.events = []
  handled : s.handled = []
  current : ∀ logical c, s.kernel.current logical = some c → c.inst < s.kernel.nextInst

theorem Booted.inv (h : Booted s) : Inv (fun _ => .idle) (⟨s, []⟩ : Obs (host text policy)) := by
  have unbound : ∀ sid, boundTo s sid = none := fun sid => by simp [boundTo, h.sessions]
  refine ⟨?_, ?_, ?_, ?_, ?_, fun _ => ⟨trivial, trivial, trivial⟩, fun _ _ _ => False.elim,
    ?_, ?_, ?_⟩
  · simp [unbound]
  · simp [unbound]
  · simp [h.byInstance]
  · simp [h.byInstance]
  · simp [h.readers]
  · rintro sid (bound | entered | ⟨j, owns⟩)
    · exact absurd (unbound sid) bound
    · exact entered.elim
    · exact owns.elim
  · simp [h.events]
  · simp [h.handled]

/-- In every run whose steps bind and drop alone, the tables are inverse to each other whenever
no bind or drop is in progress, and no session is left or made for an instance whose withdrawal
has been handled. -/
theorem sessions_orderly {s : HostState} {c : Config (host text policy)} (booted : Booted s)
    (run : Run bindsAlone (.boot s) c) :
    (¬ InProgress c.trace → Orderly c.mem) ∧
      ∀ key ∈ c.mem.handled, ∀ sid, boundTo c.mem sid ≠ some key := by
  obtain ⟨st, -, h, -⟩ := preserved.run code_follows booted.inv run
  have marked : ∀ i, (st i).life.marked i c.trace := fun i => (h.claims i).marked
  refine ⟨fun calm => ⟨h.single, ?_, ?_⟩, fun key handled => (h.handled key handled).2⟩
  · intro sid key bound
    rcases h.listed sid key bound with listed | ⟨i, enter | leave⟩
    · exact listed
    · exact absurd ⟨i, .inl ⟨_, enter ▸ marked i⟩⟩ calm
    · exact absurd ⟨i, .inr (.inl ⟨_, leave ▸ marked i⟩)⟩ calm
  · intro sid key listed
    rcases h.backed sid key listed with bound | ⟨i, drop⟩
    · exact bound
    · exact absurd ⟨i, .inr (.inr ⟨_, drop ▸ marked i⟩)⟩ calm

/-! ### Two components that register at once -/

/-- The action begins a bind or a drop. -/
def begins {β : Type} : HAct β → Bool
  | .insertSession _ _ => true
  | .removeSession _ => true
  | .takeInstance _ _ => true
  | _ => false

/-- Only the first `n` threads have begun a bind or a drop, and none of them is running. -/
def settled (n : Nat) (c : Config (host text policy)) : Bool :=
  (List.range n).all (fun i => (c.threads i).isNone) && c.trace.all fun
    | .act i action _ => !begins action || decide (i < n)
    | _ => true

theorem opens_begins (h : opens action reply x) :
    begins action = true := by
  cases action with
  | insertSession => rfl
  | _ => exact h.elim

theorem takes_begins (h : takes action reply sid) : begins action = true := by
  cases action with
  | takeInstance => rfl
  | _ => exact h.elim

theorem closes_begins (h : closes action reply x) :
    begins action = true := by
  cases action with
  | removeSession => rfl
  | _ => exact h.elim

theorem settled_calm {n : Nat} {c : Config (host text policy)} (h : settled n c = true)
    (tracked : c.Tracked) (sane : Sane c.trace) : ¬ InProgress c.trace := by
  simp only [settled, Bool.and_eq_true, List.all_eq_true, List.mem_range] at h
  have never : ∀ {K : Type} (m : Mark HAct K) i k, (∀ {β : Type} (action : HAct β) reply,
      m.sets action reply k → begins action = true) → ¬ m.During i k c.trace := by
    intro K m i k early during
    obtain ⟨β, action, reply, there, sets⟩ := Mark.during_set during
    have first : i < n := by simpa [early action reply sets] using h.2 _ there
    refine Mark.during_busy sane during ?_
    rw [← tracked i, Option.isNone_iff_eq_none.mp (h.1 i first)]
    rfl
  rintro ⟨i, ⟨x, enter⟩ | ⟨sid, leave⟩ | ⟨x, drop⟩⟩
  · exact never entering i x (fun _ _ => opens_begins) enter
  · exact never leaving i sid (fun _ _ => takes_begins) leave
  · exact never dropping i x (fun _ _ => closes_begins) drop

/-- A text format nobody reads. -/
def blank : JsonText := ⟨fun _ => "", fun _ => .error ""⟩

def trusting : HostPolicy := ⟨[], false⟩

def idleHost : HostState where
  nextId := 1
  sessions := .empty
  byInstance := .empty
  pendingActivation := .empty
  launchTokens := .empty
  children := .empty
  childrenLocked := false
  pending := .empty
  registerIds := .empty 512
  channels _ := none
  readers := []
  inbox _ := []
  hungUp _ := false
  events := []
  handling := false
  kernel := ⟨fun _ => none, 1, fun _ => none, fun _ => []⟩
  outside := ⟨fun _ => none, fun _ => false, fun _ => false, some "token", true, fun _ => false⟩
  handled := []
  sent := []

theorem idleHost_booted : Booted idleHost :=
  ⟨fun _ => rfl, fun _ => rfl, rfl, rfl, rfl, fun _ _ h => absurd h (by simp [idleHost])⟩

/-- The conditions of `alone`, as a check of the tables. -/
def aloneNow (s : HostState) {β : Type} : HAct β → Bool
  | .insertSession _ session =>
    s.sessions.entries.all (fun entry => entry.2.key != session.key) &&
      s.activeInst session.logical == some session.inst
  | .removeInstance sid logical inst => (s.byInstance.get (logical, inst)).all (· == sid)
  | .takeInstance logical inst => s.sessions.entries.all fun entry =>
    entry.2.key != (logical, inst) || s.byInstance.get (logical, inst) == some entry.1
  | _ => true

theorem boundTo_entry (h : boundTo s sid = some key) :
    ∃ t, (sid, t) ∈ s.sessions.entries ∧ t.key = key := by
  obtain ⟨t, found, rfl⟩ := Option.map_eq_some_iff.mp h
  exact ⟨t, Table.get_eq_some.mp found, rfl⟩

theorem aloneNow_alone (h : aloneNow s action = true) : alone s action := by
  cases action with
  | insertSession sid t =>
    simp only [aloneNow, Bool.and_eq_true, List.all_eq_true, bne_iff_ne, beq_iff_eq] at h
    refine ⟨fun sid' bound => ?_, h.2⟩
    obtain ⟨t', there, same⟩ := boundTo_entry bound
    exact h.1 _ there same
  | removeInstance sid logical inst =>
    intro other listed
    simpa [aloneNow, listed] using h
  | takeInstance logical inst =>
    intro sid bound
    obtain ⟨t, there, same⟩ := boundTo_entry bound
    simp only [aloneNow, List.all_eq_true] at h
    simpa [same] using h _ there
  | _ => trivial

def checked (o : Obs (host text policy)) : Label (host text policy) → Bool
  | .act _ action _ => aloneNow o.mem action
  | _ => true

theorem checked_alone (h : checked o label = true) :
    bindsAlone o label := by
  cases label with
  | act i action reply => exact aloneNow_alone h
  | start => trivial
  | done => trivial
  | env => trivial

/-- A connection on which the component `p` registers. -/
def component : Connection where
  launchToken := ""
  features := []
  register sid := some ⟨"component.register", "m-1", some sid, none, none, none,
    .obj [("manifest", .obj [("id", .str "p")])]⟩
  writerCloned := true
  registeredWritten := true
  readerCloned := true

/-- The component's answer to the activation it was told of. -/
def activated (sid rid : String) : Envelope :=
  ⟨"lifecycle.result", "m-2", some sid, none, none, some rid, .obj []⟩

/-- Two connections of `p` both find no session of its instance, and then both bind one. -/
def bothRegister : List (Turn (host blank trusting)) :=
  [.env (.activates "p" 1), .start 0 (.connect component), .start 1 (.connect component),
    .steps 0 3, .steps 1 3, .steps 0 14, .steps 1 14,
    .env (.arrives "sess-1" (activated "sess-1" "req-4")), .start 2 (.read "sess-1" 9), .steps 2 6,
    .env (.arrives "sess-2" (activated "sess-2" "req-7")), .start 3 (.read "sess-2" 9), .steps 3 6,
    .finish 0, .finish 1]

theorem two_sessions_bound : ∃ c : Config (host blank trusting),
    Run (fun _ _ => True) (.boot idleHost) c ∧ ¬ InProgress c.trace ∧
      boundTo c.mem "sess-1" = some ("p", 1) ∧ boundTo c.mem "sess-2" = some ("p", 1) := by
  obtain ⟨c, run, idle, both⟩ := Config.reaches_freely (.boot idleHost)
    (P := fun c => settled 2 c = true ∧ boundTo c.mem "sess-1" = some ("p", 1) ∧
      boundTo c.mem "sess-2" = some ("p", 1)) 9 bothRegister (by decide +kernel)
  exact ⟨c, run, settled_calm idle (run.tracked (Config.boot_tracked _)) (sane_run run), both⟩

/-- The component binds a session, its instance is withdrawn, and it comes back. -/
def comesBack : List (Turn (host blank trusting)) :=
  [.env (.activates "p" 1), .start 0 (.connect component), .steps 0 17,
    .env (.arrives "sess-1" (activated "sess-1" "req-3")), .start 1 (.read "sess-1" 9), .steps 1 6,
    .finish 0, .env (.retires "p"), .env (.emits (.withdrawn "p" 1 1)),
    .env (.outside { idleHost.outside with expired := fun _ => true }), .start 0 .event, .finish 0,
    .finish 1, .env (.outside idleHost.outside), .env (.activates "p" 2),
    .start 0 (.connect component), .steps 0 17]

theorem sessions_orderly_after_return : ∃ c : Config (host blank trusting),
    Run bindsAlone (.boot idleHost) c ∧ boundTo c.mem "sess-11" = some ("p", 2) ∧
      ("p", 1) ∈ c.mem.handled ∧ (¬ InProgress c.trace → Orderly c.mem) ∧
        ∀ key ∈ c.mem.handled, ∀ sid, boundTo c.mem sid ≠ some key := by
  obtain ⟨c, run, bound, handled⟩ := Config.reaches (.boot idleHost) checked
    (P := fun c => boundTo c.mem "sess-11" = some ("p", 2) ∧ ("p", 1) ∈ c.mem.handled)
    (fun _ _ => checked_alone) 60 comesBack (by decide +kernel)
  exact ⟨c, run, bound, handled, sessions_orderly idleHost_booted run⟩

end MatrixRuntime.SessionRuns
