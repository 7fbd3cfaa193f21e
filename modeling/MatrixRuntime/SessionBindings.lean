import MatrixRuntime.HostSessions
import MatrixRuntime.ThreadStates
import MatrixRuntime.TraceMarks

/-! One session per instance. A connection looks for a session of its instance and then writes two
tables one after the other, and a session is taken out of them one after the other as well. -/

namespace MatrixRuntime.SessionBindings

open JsonValue KeyedTable HostSessions InterleavedMachine
open TraceMarks ThreadStates Function

variable {text : JsonText} {policy : HostPolicy} {logical : String} {inst : Nat}
  {f : Session → Session}

/-! ### Sessions and their instances -/

/-- The instance a live session is bound to. -/
def boundTo (s : HostState) (sid : String) : Option (String × Nat) :=
  (s.sessions.get sid).map Session.key

/-- Every instance has at most one session, and the tables are inverse to each other. -/
structure Orderly (s : HostState) : Prop where
  single : ∀ sid sid' key, boundTo s sid = some key → boundTo s sid' = some key → sid = sid'
  listed : ∀ sid key, boundTo s sid = some key → s.byInstance.get key = some sid
  backed : ∀ sid key, s.byInstance.get key = some sid → boundTo s sid = some key

/-- A session is inserted only for the current Active instance and while it has none; what a
dropped session takes out of `by_instance` is not another's entry; and a withdrawal finds the
entry of every session of its instance. -/
def alone (s : HostState) {β : Type} : HAct β → Prop
  | .insertSession _ session =>
    (∀ sid, boundTo s sid ≠ some session.key) ∧ s.activeInst session.logical = some session.inst
  | .removeInstance sid logical inst =>
    ∀ other, s.byInstance.get (logical, inst) = some other → other = sid
  | .takeInstance logical inst =>
    ∀ sid, boundTo s sid = some (logical, inst) → s.byInstance.get (logical, inst) = some sid
  | _ => True

def bindsAlone (o : Obs (host text policy)) : Label (host text policy) → Prop
  | .act _ action _ => alone o.mem action
  | _ => True

/-! ### Binds and drops in progress -/

def opens {β : Type} : HAct β → β → String × String × Nat → Prop
  | .insertSession sid session, _, (sid', key) => sid = sid' ∧ session.key = key
  | _, _, _ => False

def lists {β : Type} : HAct β → β → String × String × Nat → Prop
  | .insertInstance sid logical inst, _, (sid', key) => sid = sid' ∧ (logical, inst) = key
  | _, _, _ => False

def takes {β : Type} : HAct β → β → String → Prop
  | .takeInstance _ _, reply, sid => reply = some sid
  | _, _, _ => False

def closesSession {β : Type} : HAct β → β → String → Prop
  | .removeSession sid, _, sid' => sid = sid'
  | _, _, _ => False

def closes {β : Type} : HAct β → β → String × String × Nat → Prop
  | .removeSession sid, reply, (sid', key) => sid = sid' ∧ reply.map Session.key = some key
  | _, _, _ => False

def unlists {β : Type} : HAct β → β → String × String × Nat → Prop
  | .removeInstance sid logical inst, _, (sid', key) => sid = sid' ∧ (logical, inst) = key
  | _, _, _ => False

/-- The thread has inserted a session and not yet listed it. -/
def entering : Mark HAct (String × String × Nat) := ⟨opens, lists⟩

/-- The thread has taken the entry of a session that it is going to drop. -/
def leaving : Mark HAct String := ⟨takes, closesSession⟩

/-- The thread has taken out a session and not yet its entry. -/
def dropping : Mark HAct (String × String × Nat) := ⟨closes, unlists⟩

def InProgress (past : List (Label (host text policy))) : Prop :=
  ∃ i, (∃ x, entering.During i x past) ∨ (∃ sid, leaving.During i sid past) ∨
    ∃ x, dropping.During i x past

def listsSession {β : Type} : HAct β → String → Prop
  | .insertInstance sid _ _, sid' => sid = sid'
  | _, _ => False

/-- The session has been listed at some time. -/
def Entered (sid : String) : List (Label (host text policy)) → Prop
  | [] => False
  | .act _ action _ :: past => listsSession action sid ∨ Entered sid past
  | _ :: past => Entered sid past

/-- The instance has been issued and is not the Active one of its logical id, nor will it be. -/
def Retired (s : HostState) (key : String × Nat) : Prop :=
  key.2 < s.kernel.nextInst ∧ s.activeInst key.1 ≠ some key.2

/-! ### The stages of a thread -/

/-- What a thread has to do with a session: it has a new id for one, has inserted one, serves one
that was listed, has taken the entry of one, or has taken one out. -/
inductive Life where
  | off
  | named (sid : String)
  | entering (sid : String) (key : String × Nat)
  | inside (sid : String)
  | taken (sid : String)
  | dropping (sid : String) (key : String × Nat)

/-- How far the withdrawal of an instance is: no session of it but `sid` may be left, or none. -/
inductive Due where
  | nothing
  | told (key : String × Nat)
  | held (key : String × Nat) (sid : String)
  | cleared (key : String × Nat)

structure Stage where
  life : Life
  due : Due

/-- The entry of an instance has been looked for. -/
def Due.took (key : String × Nat) : Option String → Due → Due
  | some sid, .told key' => if key' = key then .held key sid else .told key'
  | none, .told key' => if key' = key then .cleared key else .told key'
  | _, due => due

/-- A session has been taken out. -/
def Due.closed (sid : String) : Due → Due
  | .held key sid' => if sid' = sid then .cleared key else .held key sid'
  | due => due

namespace Stage

def idle : Stage := ⟨.off, .nothing⟩

abbrev allows {β : Type} (s : Stage) : HAct β → Prop
  | .freshId kind => kind = "sess" → s.life = .off
  | .insertSession sid _ => s.life = .named sid
  | .insertInstance sid logical inst => s.life = .entering sid (logical, inst)
  | .removeSession sid => s.life = .inside sid ∨ s.life = .taken sid
  | .removeInstance sid logical inst => s.life = .dropping sid (logical, inst)
  | .takeInstance _ _ => s.life = .off
  | .spawnReader sid => s.life = .inside sid
  | .beginReader _ => s.life = .off
  | .takeEvent => s = idle
  | .endEvent (some (.withdrawn logical inst _)) => s.due = .cleared (logical, inst)
  | _ => True

def next {β : Type} (s : Stage) : HAct β → β → Stage
  | .freshId kind, sid => if kind = "sess" then { s with life := .named sid } else s
  | .insertSession sid session, _ => { s with life := .entering sid session.key }
  | .insertInstance sid _ _, _ => { s with life := .inside sid }
  | .removeSession sid, some session => ⟨.dropping sid session.key, s.due.closed sid⟩
  | .removeSession sid, none => ⟨.inside sid, s.due.closed sid⟩
  | .removeInstance sid _ _, _ => { s with life := .inside sid }
  | .takeInstance logical inst, some sid => ⟨.taken sid, s.due.took (logical, inst) (some sid)⟩
  | .takeInstance logical inst, none => { s with due := s.due.took (logical, inst) none }
  | .beginReader sid, _ => { s with life := .inside sid }
  | .takeEvent, some (.withdrawn logical inst _) => { s with due := .told (logical, inst) }
  | _, _ => s

end Stage

/-- The thread is not in the middle of a bind or a drop. -/
def Life.calm : Life → Prop
  | .entering _ _ => False
  | .taken _ => False
  | .dropping _ _ => False
  | _ => True

def stages (text : JsonText) (policy : HostPolicy) : Protocol (host text policy) Stage where
  idle := .idle
  enter _ := .idle
  allows := Stage.allows
  next := Stage.next
  leaves _ _ s := s.life.calm

/-! ### What holds of the threads and the tables -/

/-- The session id is the thread's own: nobody else has seen it. -/
def Life.owns : Life → String → Prop
  | .named sid, sid' => sid = sid'
  | .entering sid _, sid' => sid = sid'
  | _, _ => False

def Life.claim (o : Obs (host text policy)) : Life → Prop
  | .off => True
  | .named sid => boundTo o.mem sid = none ∧ ¬ Entered sid o.trace
  | .entering sid key => boundTo o.mem sid = some key ∧ ¬ Entered sid o.trace
  | .inside sid => Entered sid o.trace
  | .taken sid => Entered sid o.trace
  | .dropping sid _ => boundTo o.mem sid = none ∧ Entered sid o.trace

def Due.claim (o : Obs (host text policy)) : Due → Prop
  | .nothing => True
  | .told key => Retired o.mem key
  | .held key sid => Retired o.mem key ∧ ∀ sid', boundTo o.mem sid' = some key → sid' = sid
  | .cleared key => Retired o.mem key ∧ ∀ sid, boundTo o.mem sid ≠ some key

def Life.marked (i : Nat) (past : List (Label (host text policy))) : Life → Prop
  | .entering sid key => SessionBindings.entering.During i (sid, key) past
  | .taken sid => leaving.During i sid past
  | .dropping sid key => SessionBindings.dropping.During i (sid, key) past
  | _ => True

/-- What is known of one thread. -/
structure Claims (i : Nat) (s : Stage) (o : Obs (host text policy)) : Prop where
  life : s.life.claim o
  due : s.due.claim o
  marked : s.life.marked i o.trace

structure Inv (st : Nat → Stage) (o : Obs (host text policy)) : Prop where
  single : ∀ sid sid' key, boundTo o.mem sid = some key → boundTo o.mem sid' = some key → sid = sid'
  listed : ∀ sid key, boundTo o.mem sid = some key → o.mem.byInstance.get key = some sid ∨
    ∃ i, (st i).life = .entering sid key ∨ (st i).life = .taken sid
  backed : ∀ sid key, o.mem.byInstance.get key = some sid → boundTo o.mem sid = some key ∨
    ∃ i, (st i).life = .dropping sid key
  known : ∀ sid key, o.mem.byInstance.get key = some sid → Entered sid o.trace
  readers : ∀ sid ∈ o.mem.readers, Entered sid o.trace
  claims : ∀ i, Claims i (st i) o
  own : ∀ i j sid, (st i).life.owns sid → (st j).life.owns sid → i = j
  issued : ∀ sid, boundTo o.mem sid ≠ none ∨ Entered sid o.trace ∨ (∃ i, (st i).life.owns sid) →
    ∃ n < o.mem.nextId, sid = HostState.idText "sess" n
  queued : ∀ logical inst generation, .withdrawn logical inst generation ∈ o.mem.events →
    Retired o.mem (logical, inst)
  handled : ∀ key ∈ o.mem.handled, (Due.cleared key).claim o

variable {st : Nat → Stage} {o o' : Obs (host text policy)} {i j : Nat} {s : Stage} {life : Life}
  {due : Due} {sid : String} {key : String × Nat} {label : Label (host text policy)}

/-- A session appears only under a new id and for an instance that is not retired. -/
structure Moves (o o' : Obs (host text policy)) : Prop where
  entered : ∀ sid, Entered sid o.trace → Entered sid o'.trace
  bound : ∀ sid key, boundTo o'.mem sid = some key → boundTo o.mem sid = some key ∨
    (¬ Entered sid o.trace ∧ ¬ Retired o.mem key)
  retired : ∀ key, Retired o.mem key → Retired o'.mem key

theorem Moves.unbound (m : Moves o o') (gone : boundTo o.mem sid = none)
    (entered : Entered sid o.trace) : boundTo o'.mem sid = none := by
  cases after : boundTo o'.mem sid with
  | none => rfl
  | some key =>
    rcases m.bound sid key after with before | ⟨fresh, -⟩
    · rw [gone] at before
      cases before
    · exact absurd entered fresh

theorem Due.claim.moves (h : due.claim o) (m : Moves o o') : due.claim o' := by
  cases due with
  | nothing => trivial
  | told key => exact m.retired key h
  | held key sid =>
    refine ⟨m.retired key h.1, fun sid' after => ?_⟩
    exact h.2 sid' ((m.bound sid' key after).resolve_right fun new => new.2 h.1)
  | cleared key =>
    refine ⟨m.retired key h.1, fun sid' after => ?_⟩
    exact h.2 sid' ((m.bound sid' key after).resolve_right fun new => new.2 h.1)

theorem Life.claim.moves (h : life.claim o) (m : Moves o o')
    (own : ∀ sid, life.owns sid → boundTo o'.mem sid = boundTo o.mem sid ∧
      (Entered sid o'.trace → Entered sid o.trace)) : life.claim o' := by
  cases life with
  | off => trivial
  | named sid =>
    obtain ⟨bound, entered⟩ := own sid rfl
    exact ⟨bound.trans h.1, fun later => h.2 (entered later)⟩
  | entering sid key =>
    obtain ⟨bound, entered⟩ := own sid rfl
    exact ⟨bound.trans h.1, fun later => h.2 (entered later)⟩
  | inside sid => exact m.entered sid h
  | taken sid => exact m.entered sid h
  | dropping sid key => exact ⟨m.unbound h.1 h.2, m.entered sid h.2⟩

theorem Life.marked.foreign (h : life.marked j o.trace) (logged : o'.trace = label :: o.trace)
    (other : label.thread ≠ some j) : life.marked j o'.trace := by
  rw [logged]
  cases life with
  | entering | taken | dropping => exact (Mark.during_foreign other).2 h
  | _ => trivial

/-- What is known of the other threads when thread `i` moves. -/
theorem Inv.others (h : Inv st o) (m : Moves o o') (logged : o'.trace = label :: o.trace)
    (own : label.thread = some i) (mine : ∀ sid, boundTo o'.mem sid = boundTo o.mem sid ∧
      (Entered sid o'.trace → Entered sid o.trace) ∨ ∀ j, (st j).life.owns sid → j = i)
    (claims : Claims i s o') : ∀ j, Claims j (update st i s j) o' := by
  intro j
  by_cases here : j = i
  · subst here
    rwa [update_self]
  · rw [update_of_ne here]
    obtain ⟨life, due, marked⟩ := h.claims j
    refine ⟨life.moves m fun sid owns => ?_, due.moves m, marked.foreign logged ?_⟩
    · exact (mine sid).resolve_right fun only => here (only j owns)
    · rw [own]
      exact fun same => here (Option.some.inj same).symm

theorem Inv.unlisted_own (h : Inv st o) (owns : (st j).life.owns sid) : ¬ Entered sid o.trace := by
  have := (h.claims j).life
  cases life : (st j).life with
  | named | entering =>
    rw [life] at owns this
    exact owns ▸ this.2
  | _ =>
    rw [life] at owns
    exact owns.elim

/-- A thread other than `i` stays where it is. -/
theorem still {P : Life → Prop} (moved : ¬ P (st i).life) (there : ∃ j, P (st j).life) :
    ∃ j, P (update st i s j).life := by
  obtain ⟨j, holds⟩ := there
  refine ⟨j, ?_⟩
  rwa [update_of_ne]
  rintro rfl
  exact moved holds

/-! ### Steps that leave the tables alone -/

/-- A step after which the sessions and their entries are as before. -/
theorem Inv.kept {st' : Nat → Stage} (h : Inv st o)
    (bound : ∀ sid, boundTo o'.mem sid = boundTo o.mem sid)
    (byInstance : o'.mem.byInstance = o.mem.byInstance)
    (entered : ∀ sid, Entered sid o'.trace ↔ Entered sid o.trace)
    (nextId : o.mem.nextId ≤ o'.mem.nextId)
    (lives : ∀ j, (st' j).life = (st j).life ∨ (st j).life.calm ∧ (st' j).life.calm)
    (names : ∀ j sid, (st' j).life.owns sid → (st j).life.owns sid ∨
      j = i ∧ sid = HostState.idText "sess" o.mem.nextId ∧ o.mem.nextId < o'.mem.nextId)
    (claims : ∀ j, Claims j (st' j) o')
    (readers : ∀ sid ∈ o'.mem.readers, Entered sid o.trace)
    (queued : ∀ logical inst generation, .withdrawn logical inst generation ∈ o'.mem.events →
      Retired o'.mem (logical, inst))
    (handled : ∀ key ∈ o'.mem.handled, (Due.cleared key).claim o') : Inv st' o' := by
  have busy : ∀ {P : Life → Prop}, (∀ life, P life → ¬ life.calm) → (∃ j, P (st j).life) →
      ∃ j, P (st' j).life := by
    rintro P busy ⟨j, holds⟩
    refine ⟨j, ?_⟩
    rcases lives j with same | ⟨calm, -⟩
    · rwa [same]
    · exact absurd calm (busy _ holds)
  have unseen : ∀ j, ¬ (st j).life.owns (HostState.idText "sess" o.mem.nextId) := by
    intro j owns
    obtain ⟨n, small, same⟩ := h.issued _ (.inr (.inr ⟨j, owns⟩))
    exact Nat.ne_of_gt small (HostState.idText_injective same)
  refine ⟨?_, fun sid key there => ?_, fun sid key there => ?_, ?_, ?_, claims, ?_, ?_, queued,
    handled⟩
  · simp only [bound]
    exact h.single
  · rw [bound] at there
    rw [byInstance]
    refine (h.listed sid key there).imp_right (busy
      (P := fun life => life = .entering sid key ∨ life = .taken sid) fun life holds => ?_)
    rcases holds with rfl | rfl <;> exact id
  · rw [byInstance] at there
    rw [bound]
    refine (h.backed sid key there).imp_right (busy (P := (· = .dropping sid key))
      fun life holds => ?_)
    rw [holds]
    exact id
  · simp only [byInstance, entered]
    exact h.known
  · simp only [entered]
    exact readers
  · intro j k sid hj hk
    rcases names j sid hj with before | ⟨rfl, rfl, -⟩ <;>
      rcases names k _ hk with before' | ⟨rfl, same, -⟩
    · exact h.own j k sid before before'
    · exact absurd (same ▸ before) (unseen j)
    · exact absurd before' (unseen k)
    · rfl
  · intro sid reason
    have older : (∃ n < o.mem.nextId, sid = HostState.idText "sess" n) →
        ∃ n < o'.mem.nextId, sid = HostState.idText "sess" n :=
      Exists.imp fun n => And.imp_left fun small => Nat.lt_of_lt_of_le small nextId
    rw [bound, entered] at reason
    rcases reason with there | there | ⟨j, owns⟩
    · exact older (h.issued sid (.inl there))
    · exact older (h.issued sid (.inr (.inl there)))
    · rcases names j sid owns with before | ⟨-, rfl, more⟩
      · exact older (h.issued sid (.inr (.inr ⟨j, before⟩)))
      · exact ⟨_, more, rfl⟩

/-- The parts of the state that the invariant reads, the counter apart. -/
structure Same (s s' : HostState) : Prop where
  bound : ∀ sid, boundTo s' sid = boundTo s sid
  byInstance : s'.byInstance = s.byInstance
  readers : s'.readers = s.readers
  events : s'.events = s.events
  handled : s'.handled = s.handled
  kernel : s'.kernel = s.kernel
  nextId : s.nextId ≤ s'.nextId

theorem boundTo_editSession (s : HostState) (sid sid' : String) {f : Session → Session}
    (same : ∀ t, (f t).key = t.key) : boundTo (s.editSession sid f) sid' = boundTo s sid' := by
  simp only [boundTo, HostState.editSession, Table.modify_get, Option.map_map]
  refine congrArg (fun g => Option.map g (s.sessions.get sid')) (funext fun t => ?_)
  simp only [Function.comp_apply]
  split
  · exact same t
  · rfl

theorem Same.edit (s : HostState) (sid : String) {f : Session → Session}
    (same : ∀ t, (f t).key = t.key) : Same s (s.editSession sid f) :=
  ⟨fun _ => boundTo_editSession s sid _ same, rfl, rfl, rfl, rfl, rfl, Nat.le_refl _⟩

theorem Same.refl (s : HostState) : Same s s :=
  ⟨fun _ => rfl, rfl, rfl, rfl, rfl, rfl, Nat.le_refl _⟩

theorem Same.trans {s s' s'' : HostState} (h : Same s s') (h' : Same s' s'') : Same s s'' :=
  ⟨fun sid => (h'.bound sid).trans (h.bound sid), h'.byInstance.trans h.byInstance,
    h'.readers.trans h.readers, h'.events.trans h.events, h'.handled.trans h.handled,
    h'.kernel.trans h.kernel, Nat.le_trans h.nextId h'.nextId⟩

theorem orphan_same (s : HostState) (sid : String) (session : Session) :
    Same s (s.orphan sid session) := by
  unfold HostState.orphan
  generalize s.owned sid = rids
  induction rids generalizing s with
  | nil => exact .refl s
  | cons rid rids ih =>
    refine Same.trans ?_ (ih _)
    exact ⟨fun _ => rfl, rfl, rfl, rfl, rfl, rfl, Nat.le_succ _⟩

variable {β : Type} {action : HAct β} {reply : β} {mem : HostState}

/-- Actions that leave sessions, entries, readers, events and session ids alone. -/
abbrev quiet {β : Type} : HAct β → Prop
  | .freshId _ => False
  | .insertSession _ _ => False
  | .removeSession _ => False
  | .insertInstance _ _ _ => False
  | .removeInstance _ _ _ => False
  | .takeInstance _ _ => False
  | .spawnReader _ => False
  | .beginReader _ => False
  | .takeEvent => False
  | .endEvent _ => False
  | _ => True

theorem sem_same (h : quiet action) (enabled : action.sem o.mem = some (reply, mem)) :
    Same o.mem mem := by
  cases action with
  | insertSession | removeSession | insertInstance | removeInstance | takeInstance => exact h.elim
  | freshId | spawnReader | beginReader | takeEvent | endEvent => exact h.elim
  | orphan sid session =>
    cases enabled
    exact orphan_same _ _ _
  | leaveCall | releaseSend =>
    cases enabled
    exact .edit _ _ fun _ => rfl
  | enterCall | chargeSend =>
    simp only [HAct.sem] at enabled
    repeat' split at enabled
    all_goals cases enabled
    · exact .refl _
    · exact .refl _
    · exact .edit _ _ fun _ => rfl
  | dedup =>
    simp only [HAct.sem] at enabled
    split at enabled
    · cases enabled
      exact .refl _
    · cases enabled
      exact .edit _ _ fun _ => rfl
  | write sid rid =>
    simp only [HAct.sem] at enabled
    cases rid <;> simp only at enabled <;> split at enabled <;> cases enabled <;>
      exact ⟨fun _ => rfl, rfl, rfl, rfl, rfl, rfl, Nat.le_refl _⟩
  | recvWithin | receive =>
    simp only [HAct.sem] at enabled
    repeat' split at enabled
    all_goals cases enabled
    all_goals exact ⟨fun _ => rfl, rfl, rfl, rfl, rfl, rfl, Nat.le_refl _⟩
  | lockChildren | forgetChild =>
    simp only [HAct.sem] at enabled
    split at enabled
    · cases enabled
    · cases enabled
      exact ⟨fun _ => rfl, rfl, rfl, rfl, rfl, rfl, Nat.le_refl _⟩
  | _ =>
    cases enabled
    exact ⟨fun _ => rfl, rfl, rfl, rfl, rfl, rfl, Nat.le_refl _⟩

theorem quiet_next (h : quiet action) (s : Stage) (reply : β) : s.next action reply = s := by
  cases action with
  | freshId | insertSession | removeSession | insertInstance | removeInstance | takeInstance =>
    exact h.elim
  | spawnReader | beginReader | takeEvent | endEvent => exact h.elim
  | _ => rfl

theorem boundTo_insert (s : HostState) (sid sid' : String) (t : Session) :
    boundTo { s with sessions := s.sessions.put sid t } sid' =
      if sid' = sid then some t.key else boundTo s sid' := by
  simp only [boundTo, Table.put_get]
  split <;> rfl

theorem boundTo_remove (s : HostState) (sid sid' : String) :
    boundTo { s with sessions := s.sessions.erase sid } sid' =
      if sid' = sid then none else boundTo s sid' := by
  simp only [boundTo, Table.erase_get]
  split <;> rfl


/-- Actions that leave the sessions and their entries alone. -/
def offTables {β : Type} : HAct β → Prop
  | .insertSession _ _ => False
  | .removeSession _ => False
  | .insertInstance _ _ _ => False
  | .removeInstance _ _ _ => False
  | .takeInstance _ _ => False
  | _ => True

theorem entered_off {past : List (Label (host text policy))} (off : offTables action) :
    Entered sid (.act i action reply :: past) ↔ Entered sid past := by
  refine or_iff_right fun lists => ?_
  cases action with
  | insertInstance => exact off
  | _ => exact lists

theorem Life.marked.off {past : List (Label (host text policy))} (h : life.marked j past)
    (off : offTables action) : life.marked j (.act i action reply :: past) := by
  have kept : ∀ {K : Type} {m : Mark HAct K} {k : K}, ¬ m.sets action reply k →
      ¬ m.clears action reply k → m.During j k past → m.During j k (.act i action reply :: past) :=
    fun sets clears => (Mark.during_quiet sets clears).2
  cases life with
  | entering | taken | dropping =>
    refine kept ?_ ?_ h <;>
    · cases action with
      | insertSession | removeSession | insertInstance | removeInstance | takeInstance =>
        exact off.elim
      | _ => exact id
  | _ => trivial

theorem Life.marked_calm {past : List (Label (host text policy))} (calm : life.calm) :
    life.marked i past := by
  cases life with
  | entering | taken | dropping => exact calm.elim
  | _ => trivial

theorem retired_of_kernel {m m' : HostState} (kernel : m'.kernel = m.kernel) :
    Retired m' key ↔ Retired m key := by
  simp [Retired, HostState.activeInst, kernel]

/-- A thread's own step off the tables. -/
theorem Inv.aside (h : Inv st o) (off : offTables action)
    (bound : ∀ sid, boundTo mem sid = boundTo o.mem sid)
    (byInstance : mem.byInstance = o.mem.byInstance) (kernel : mem.kernel = o.mem.kernel)
    (nextId : o.mem.nextId ≤ mem.nextId)
    (lives : s.life = (st i).life ∨ (st i).life.calm ∧ s.life.calm)
    (names : ∀ sid, s.life.owns sid → (st i).life.owns sid ∨
      sid = HostState.idText "sess" o.mem.nextId ∧ o.mem.nextId < mem.nextId)
    (claim : s.life.claim o) (due : s.due.claim o)
    (readers : ∀ sid ∈ mem.readers, Entered sid o.trace)
    (queued : ∀ logical inst generation, .withdrawn logical inst generation ∈ mem.events →
      Retired o.mem (logical, inst))
    (handled : ∀ key ∈ mem.handled, (Due.cleared key).claim o) :
    Inv (update st i s) (o.acted i action reply mem) := by
  have moves : Moves o (o.acted i action reply mem) :=
    ⟨fun sid => (entered_off off).2, fun sid key after => .inl (bound sid ▸ after),
      fun key => (retired_of_kernel kernel).2⟩
  have marked : s.life.marked i (.act i action reply :: o.trace) := by
    rcases lives with same | ⟨-, calm⟩
    · rw [same]
      exact (h.claims i).marked.off off
    · exact Life.marked_calm calm
  refine h.kept (i := i) bound byInstance (fun sid => entered_off off) nextId (fun j => ?_)
    (fun j sid owns => ?_)
    (h.others moves rfl rfl (fun sid => .inl ⟨bound sid, (entered_off off).1⟩)
      ⟨claim.moves moves fun sid _ => ⟨bound sid, (entered_off off).1⟩, due.moves moves, marked⟩)
    readers (fun logical inst generation later => moves.retired _ (queued _ _ _ later))
    fun key done => (handled key done).moves moves
  · by_cases here : j = i
    · subst here
      rwa [update_self]
    · rw [update_of_ne here]
      exact .inl rfl
  · by_cases here : j = i
    · subst here
      rw [update_self] at owns
      exact (names sid owns).imp_right fun new => ⟨rfl, new⟩
    · rw [update_of_ne here] at owns
      exact .inl owns

/-! ### Steps on the tables -/

/-- A thread's own step on the sessions or their entries. -/
theorem Inv.tables (h : Inv st o) (moves : Moves o o') (logged : o'.trace = label :: o.trace)
    (own : label.thread = some i) (readers : o'.mem.readers = o.mem.readers)
    (events : o'.mem.events = o.mem.events) (handled : o'.mem.handled = o.mem.handled)
    (nextId : o'.mem.nextId = o.mem.nextId)
    (names : ∀ sid, s.life.owns sid → (st i).life.owns sid)
    (bound : ∀ sid, boundTo o'.mem sid ≠ none → boundTo o.mem sid ≠ none ∨ (st i).life.owns sid)
    (entered : ∀ sid, Entered sid o'.trace → Entered sid o.trace ∨ (st i).life.owns sid)
    (mine : ∀ sid, boundTo o'.mem sid = boundTo o.mem sid ∧
      (Entered sid o'.trace → Entered sid o.trace) ∨ ∀ j, (st j).life.owns sid → j = i)
    (claims : Claims i s o')
    (single : ∀ sid sid' key, boundTo o'.mem sid = some key → boundTo o'.mem sid' = some key →
      sid = sid')
    (listed : ∀ sid key, boundTo o'.mem sid = some key → o'.mem.byInstance.get key = some sid ∨
      ∃ j, (update st i s j).life = .entering sid key ∨
        (update st i s j).life = .taken sid)
    (backed : ∀ sid key, o'.mem.byInstance.get key = some sid → boundTo o'.mem sid = some key ∨
      ∃ j, (update st i s j).life = .dropping sid key)
    (known : ∀ sid key, o'.mem.byInstance.get key = some sid → Entered sid o'.trace) :
    Inv (update st i s) o' := by
  have before : ∀ j sid, (update st i s j).life.owns sid → (st j).life.owns sid := by
    intro j sid owns
    by_cases here : j = i
    · subst here
      rw [update_self] at owns
      exact names sid owns
    · rwa [update_of_ne here] at owns
  refine ⟨single, listed, backed, known, fun sid there => ?_, h.others moves logged own mine claims,
    fun j k sid hj hk => h.own j k sid (before j sid hj) (before k sid hk), fun sid reason => ?_,
    fun logical inst generation there => ?_, fun key there => ?_⟩
  · rw [readers] at there
    exact moves.entered sid (h.readers sid there)
  · rw [nextId]
    refine h.issued sid ?_
    rcases reason with there | there | ⟨j, owns⟩
    · exact (bound sid there).imp_right fun owns => .inr ⟨i, owns⟩
    · exact .inr ((entered sid there).imp_right fun owns => ⟨i, owns⟩)
    · exact .inr (.inr ⟨j, before j sid owns⟩)
  · rw [events] at there
    exact moves.retired _ (h.queued logical inst generation there)
  · rw [handled] at there
    exact (h.handled key there).moves moves

theorem Inv.insertSession (h : Inv st o) {t : Session} (named : (st i).life = .named sid)
    (free : ∀ sid', boundTo o.mem sid' ≠ some t.key)
    (active : o.mem.activeInst t.logical = some t.inst) :
    Inv (update st i { st i with life := .entering sid t.key })
      (o.acted i (.insertSession sid t) ()
        { o.mem with sessions := o.mem.sessions.put sid t }) := by
  obtain ⟨unbound, unentered⟩ : boundTo o.mem sid = none ∧ ¬ Entered sid o.trace := by
    have := (h.claims i).life
    rwa [named] at this
  have owns : (st i).life.owns sid := by
    rw [named]
    rfl
  have entered : ∀ sid', Entered sid' (.act i (.insertSession sid t) () :: o.trace) ↔
      Entered sid' o.trace := fun sid' => or_iff_right id
  have moves : Moves o (o.acted i (.insertSession sid t) ()
      { o.mem with sessions := o.mem.sessions.put sid t }) := by
    refine ⟨fun sid' => (entered sid').2, fun sid' key after => ?_, fun _ => id⟩
    simp only [Obs.acted_mem, boundTo_insert] at after
    split at after
    next here =>
      cases after
      exact .inr ⟨here ▸ unentered, fun retired => retired.2 active⟩
    next => exact .inl after
  have other : ∀ {sid' key}, boundTo o.mem sid' = some key → sid' ≠ sid := by
    rintro sid' key there rfl
    rw [unbound] at there
    cases there
  refine h.tables moves rfl rfl rfl rfl rfl rfl (fun sid' new => new ▸ owns) (fun sid' there => ?_)
    (fun sid' there => .inl ((entered sid').1 there)) (fun sid' => ?_)
    ⟨⟨?_, fun later => unentered ((entered sid).1 later)⟩, (h.claims i).due.moves moves,
      .inl ⟨rfl, rfl, rfl⟩⟩ (fun a b key ha hb => ?_) (fun sid' key there => ?_)
    (fun sid' key there => ?_) fun sid' key there => (entered sid').2 (h.known sid' key there)
  · simp only [Obs.acted_mem, boundTo_insert] at there
    split at there
    next here => exact .inr (here ▸ owns)
    next => exact .inl there
  · by_cases here : sid' = sid
    · subst here
      exact .inr fun j theirs => h.own j i sid' theirs owns
    · refine .inl ⟨?_, (entered sid').1⟩
      rw [Obs.acted_mem, boundTo_insert, if_neg here]
  · rw [Obs.acted_mem, boundTo_insert, if_pos rfl]
  · simp only [Obs.acted_mem, boundTo_insert] at ha hb
    split at ha <;> split at hb
    next ea eb => exact ea.trans eb.symm
    next => exact absurd (hb.trans ha.symm) (free b)
    next => exact absurd (ha.trans hb.symm) (free a)
    next => exact h.single a b key ha hb
  · simp only [Obs.acted_mem, boundTo_insert] at there
    split at there
    next here =>
      cases there
      exact .inr ⟨i, .inl (by rw [update_self, here])⟩
    next =>
      refine (h.listed sid' key there).imp_right
        (still (P := fun life => life = .entering sid' key ∨ life = .taken sid') ?_)
      simp [named]
  · refine (h.backed sid' key there).imp (fun bound => ?_)
      (still (P := (· = .dropping sid' key)) (by simp [named]))
    rw [Obs.acted_mem, boundTo_insert, if_neg (other bound)]
    exact bound

theorem Inv.insertInstance (h : Inv st o) {logical : String} {inst : Nat}
    (entering : (st i).life = .entering sid (logical, inst)) :
    Inv (update st i { st i with life := .inside sid })
      (o.acted i (.insertInstance sid logical inst) ()
        { o.mem with byInstance := o.mem.byInstance.put (logical, inst) sid }) := by
  obtain ⟨bound, -⟩ : boundTo o.mem sid = some (logical, inst) ∧ ¬ Entered sid o.trace := by
    have := (h.claims i).life
    rwa [entering] at this
  have owns : (st i).life.owns sid := by
    rw [entering]
    rfl
  have moves : Moves o (o.acted i (.insertInstance sid logical inst) ()
      { o.mem with byInstance := o.mem.byInstance.put (logical, inst) sid }) :=
    ⟨fun _ => .inr, fun _ _ => .inl, fun _ => id⟩
  refine h.tables moves rfl rfl rfl rfl rfl rfl (fun _ => False.elim) (fun _ => .inl)
    (fun sid' there => ?_) (fun sid' => ?_) ⟨.inl rfl, (h.claims i).due.moves moves, trivial⟩
    h.single (fun sid' key there => ?_) (fun sid' key there => ?_) fun sid' key there => ?_
  · rcases there with rfl | before
    · exact .inr owns
    · exact .inl before
  · by_cases here : sid' = sid
    · subst here
      exact .inr fun j theirs => h.own j i sid' theirs owns
    · exact .inl ⟨rfl, fun later => later.resolve_left fun same => here same.symm⟩
  · simp only [Obs.acted_mem, Table.put_get]
    by_cases here : key = (logical, inst)
    · subst here
      exact .inl (by rw [if_pos rfl, h.single sid sid' _ bound there])
    · rw [if_neg here]
      refine (h.listed sid' key there).imp_right
        (still (P := fun life => life = .entering sid' key ∨ life = .taken sid') ?_)
      simp [entering, Ne.symm here]
  · simp only [Obs.acted_mem, Table.put_get] at there
    split at there
    next here =>
      cases there
      exact .inl (here ▸ bound)
    next =>
      exact (h.backed sid' key there).imp_right
        (still (P := (· = .dropping sid' key)) (by simp [entering]))
  · simp only [Obs.acted_mem, Table.put_get] at there
    split at there
    · exact .inl (Option.some.inj there)
    · exact .inr (h.known sid' key there)

/-- An entry is taken out; nobody needs it any more, or the thread accounts for it. -/
theorem Inv.unlisted (h : Inv st o) (lists : ∀ sid, ¬ listsSession action sid)
    (names : ∀ sid, ¬ s.life.owns sid)
    (claims : Claims i s (o.acted i action reply
      { o.mem with byInstance := o.mem.byInstance.erase key }))
    (listed : ∀ sid, boundTo o.mem sid = some key → o.mem.byInstance.get key = some sid →
      s.life = .taken sid)
    (entering : ∀ sid key', (st i).life ≠ .entering sid key')
    (taken : ∀ sid, (st i).life ≠ .taken sid)
    (dropping : ∀ sid key', (st i).life = .dropping sid key' → key' = key) :
    Inv (update st i s) (o.acted i action reply
      { o.mem with byInstance := o.mem.byInstance.erase key }) := by
  have entered : ∀ sid, Entered sid (.act i action reply :: o.trace) ↔ Entered sid o.trace :=
    fun sid => or_iff_right (lists sid)
  have other : ∀ {key' : String × Nat} {sid}, (o.mem.byInstance.erase key).get key' = some sid →
      key' ≠ key ∧ o.mem.byInstance.get key' = some sid := by
    intro key' sid there
    rw [Table.erase_get] at there
    split at there
    · cases there
    next apart => exact ⟨apart, there⟩
  refine h.tables ⟨fun sid => (entered sid).2, fun _ _ => .inl, fun _ => id⟩ rfl rfl rfl rfl rfl rfl
    (fun sid owns => absurd owns (names sid)) (fun _ => .inl)
    (fun sid there => .inl ((entered sid).1 there)) (fun sid => .inl ⟨rfl, (entered sid).1⟩) claims
    h.single (fun sid key' there => ?_) (fun sid key' there => ?_)
    fun sid key' there => (entered sid).2 (h.known sid key' (other there).2)
  · rcases h.listed sid key' there with entry | busy
    · by_cases here : key' = key
      · subst here
        exact .inr ⟨i, .inr (by rw [update_self, listed sid there entry])⟩
      · rw [Obs.acted_mem, Table.erase_get, if_neg here]
        exact .inl entry
    · refine .inr (still (P := fun life => life = .entering sid key' ∨ life = .taken sid) ?_ busy)
      simp [entering, taken]
  · obtain ⟨apart, before⟩ := other there
    refine (h.backed sid key' before).imp_right
      (still (P := (· = .dropping sid key')) fun mine => apart (dropping sid key' mine))

theorem Inv.removeInstance (h : Inv st o) {logical : String} {inst : Nat}
    (dropping : (st i).life = .dropping sid (logical, inst))
    (ours : ∀ other, o.mem.byInstance.get (logical, inst) = some other → other = sid) :
    Inv (update st i { st i with life := .inside sid })
      (o.acted i (.removeInstance sid logical inst) ()
        { o.mem with byInstance := o.mem.byInstance.erase (logical, inst) }) := by
  obtain ⟨gone, entered⟩ : boundTo o.mem sid = none ∧ Entered sid o.trace := by
    have := (h.claims i).life
    rwa [dropping] at this
  refine h.unlisted (fun _ => id) (fun _ => id) ⟨.inr entered, ?_, trivial⟩
    (fun sid' there entry => ?_)
    (by simp [dropping]) (by simp [dropping]) fun sid' key' mine => ?_
  · exact (h.claims i).due.moves ⟨fun _ => .inr, fun _ _ => .inl, fun _ => id⟩
  · rw [ours sid' entry, gone] at there
    cases there
  · rw [dropping] at mine
    cases mine
    rfl

theorem Due.claim.took (h : due.claim o) {found : Option String}
    (only : ∀ sid, boundTo o.mem sid = some key → found = some sid) :
    (due.took key found).claim o := by
  cases due with
  | told key' =>
    cases found with
    | some sid =>
      rw [Due.took]
      split
      next same => exact ⟨same ▸ h, fun sid' there => (Option.some.inj (only sid' there)).symm⟩
      next => exact h
    | none =>
      rw [Due.took]
      split
      next same => exact ⟨same ▸ h, fun sid' there => nomatch only sid' there⟩
      next => exact h
  | nothing | held | cleared => cases found <;> exact h

theorem Due.claim.closed (h : due.claim o) (moves : Moves o o') (gone : boundTo o'.mem sid = none) :
    (due.closed sid).claim o' := by
  have later := h.moves moves
  cases due with
  | held key sid' =>
    rw [Due.closed]
    split
    next same =>
      refine ⟨later.1, fun other there => ?_⟩
      rw [later.2 other there, same, gone] at there
      cases there
    next => exact later
  | nothing | told | cleared => exact later

theorem Inv.takeInstance (h : Inv st o) {logical : String} {inst : Nat} (off : (st i).life = .off)
    (only : ∀ sid, boundTo o.mem sid = some (logical, inst) →
      o.mem.byInstance.get (logical, inst) = some sid) :
    Inv (update st i ((st i).next (.takeInstance logical inst)
        (o.mem.byInstance.get (logical, inst))))
      (o.acted i (.takeInstance logical inst) (o.mem.byInstance.get (logical, inst))
        { o.mem with byInstance := o.mem.byInstance.erase (logical, inst) }) := by
  have moves : Moves o (o.acted i (.takeInstance logical inst)
      (o.mem.byInstance.get (logical, inst))
      { o.mem with byInstance := o.mem.byInstance.erase (logical, inst) }) :=
    ⟨fun _ => .inr, fun _ _ => .inl, fun _ => id⟩
  have due := ((h.claims i).due.took only).moves moves
  cases found : o.mem.byInstance.get (logical, inst) with
  | none =>
    rw [found] at due
    refine h.unlisted (fun _ => id) (by simp [Stage.next, off, Life.owns])
      ⟨by simp [Stage.next, off, Life.claim], due, by simp [Stage.next, off, Life.marked]⟩
      (fun sid _ entry => ?_) (by simp [off]) (by simp [off]) (by simp [off])
    rw [found] at entry
    cases entry
  | some sid =>
    rw [found] at due
    refine h.unlisted (fun _ => id) (fun _ => id) ⟨.inr (h.known sid _ found), due, .inl ⟨rfl, rfl⟩⟩
      (fun sid' _ entry => ?_) (by simp [off]) (by simp [off]) (by simp [off])
    rw [found] at entry
    cases entry
    rfl

theorem Inv.removeSession (h : Inv st o)
    (ours : (st i).life = .inside sid ∨ (st i).life = .taken sid) :
    Inv (update st i ((st i).next (.removeSession sid) (o.mem.sessions.get sid)))
      (o.acted i (.removeSession sid) (o.mem.sessions.get sid)
        { o.mem with sessions := o.mem.sessions.erase sid }) := by
  have inside : Entered sid o.trace := by
    have := (h.claims i).life
    rcases ours with life | life <;> rwa [life] at this
  have entered : ∀ sid', Entered sid' (.act i (.removeSession sid) (o.mem.sessions.get sid) ::
      o.trace) ↔ Entered sid' o.trace := fun sid' => or_iff_right id
  have before : ∀ {sid' key}, boundTo { o.mem with sessions := o.mem.sessions.erase sid } sid' =
      some key → sid' ≠ sid ∧ boundTo o.mem sid' = some key := by
    intro sid' key there
    rw [boundTo_remove] at there
    split at there
    · cases there
    next apart => exact ⟨apart, there⟩
  have gone : boundTo { o.mem with sessions := o.mem.sessions.erase sid } sid = none := by
    rw [boundTo_remove, if_pos rfl]
  have moves : Moves o (o.acted i (.removeSession sid) (o.mem.sessions.get sid)
      { o.mem with sessions := o.mem.sessions.erase sid }) :=
    ⟨fun sid' => (entered sid').2, fun _ _ there => .inl (before there).2, fun _ => id⟩
  have due := (h.claims i).due.closed moves gone
  have claims : Claims i ((st i).next (.removeSession sid) (o.mem.sessions.get sid))
      (o.acted i (.removeSession sid) (o.mem.sessions.get sid)
        { o.mem with sessions := o.mem.sessions.erase sid }) := by
    cases o.mem.sessions.get sid with
    | none => exact ⟨.inr inside, due, trivial⟩
    | some t => exact ⟨⟨gone, .inr inside⟩, due, .inl ⟨rfl, rfl, rfl⟩⟩
  refine h.tables moves rfl rfl rfl rfl rfl rfl (fun sid' owns => ?_) (fun sid' there => .inl ?_)
    (fun sid' there => .inl ((entered sid').1 there)) (fun sid' => ?_) claims
    (fun a b key ha hb => h.single a b key (before ha).2 (before hb).2) (fun sid' key there => ?_)
    (fun sid' key there => ?_) fun sid' key there => (entered sid').2 (h.known sid' key there)
  · cases found : o.mem.sessions.get sid <;> rw [found] at owns <;> exact owns.elim
  · obtain ⟨key, bound⟩ := Option.ne_none_iff_exists'.1 there
    rw [(before bound).2]
    exact Option.some_ne_none key
  · by_cases here : sid' = sid
    · exact .inr fun j owns => absurd inside (here ▸ h.unlisted_own owns)
    · refine .inl ⟨?_, (entered sid').1⟩
      rw [Obs.acted_mem, boundTo_remove, if_neg here]
  · obtain ⟨apart, bound⟩ := before there
    refine (h.listed sid' key bound).imp_right
      (still (P := fun life => life = .entering sid' key ∨ life = .taken sid') ?_)
    rcases ours with life | life <;> simp [life, Ne.symm apart]
  · rcases h.backed sid' key there with bound | busy
    · by_cases here : sid' = sid
      · subst here
        refine .inr ⟨i, ?_⟩
        obtain ⟨t, found, rfl⟩ := Option.map_eq_some_iff.1 bound
        rw [update_self, found]
        rfl
      · refine .inl ?_
        rw [Obs.acted_mem, boundTo_remove, if_neg here]
        exact bound
    · refine .inr (still (P := (· = .dropping sid' key)) ?_ busy)
      rcases ours with life | life <;> simp [life]

end MatrixRuntime.SessionBindings
