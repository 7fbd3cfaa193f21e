import MatrixRuntime.SessionRuns

/-! Which process an event may kill. The host keeps its processes by logical id alone, so that
whatever is done for one instance reaches the process of another if that is the one running. -/

namespace MatrixRuntime.ChildProcesses

open JsonValue KeyedTable HostSessions InterleavedProgram InterleavedMachine RelyGuarantee
open TraceMarks Discipline
open SessionRuns (blank trusting idleHost component)

variable {text : JsonText} {policy : HostPolicy} {K : String × Nat → Prop} {β : Type} {a : HAct β}
  {s s' : HostState} {p : HProg α} {key : String × Nat} {logical : String} {child : Child}
  {label : Label (host text policy)} {c : Config (host text policy)}
  {ok : Obs (host text policy) → Label (host text policy) → Prop}

/-! ### The discipline -/

/-- The instance an event names. -/
def namedBy : LifecycleEvent → Option (String × Nat)
  | .activated logical inst _ => some (logical, inst)
  | .withdrawn logical inst _ => some (logical, inst)
  | .removed _ => none

def adopts {β : Type} : HAct β → β → String × Nat → Prop
  | .takeEvent, event, key => event.bind namedBy = some key
  | .insertSession _ session, _, key => session.key = key
  | _, _, _ => False

/-- The thread handles an event that names the instance, or serves a connection bound to it. -/
def concerns : Mark HAct (String × Nat) := .ever adopts

/-- The process of the logical id, if there is one, was spawned for this instance. -/
def Fits (s : HostState) (key : String × Nat) : Prop :=
  ∀ child, s.children.get key.1 = some child → child.spawnedFor = key.2

/-- Events and connections come in the order of the instances: one is taken up only while no
process of another instance runs, and a process is put into the table only while nobody else is
concerned with another instance. -/
def inOrder (o : Obs (host text policy)) : Label (host text policy) → Prop
  | .act _ .takeEvent (some event) => ∀ key, namedBy event = some key → Fits o.mem key
  | .act _ (.insertSession _ session) _ => Fits o.mem session.key
  | .act i (.insertChild logical child) _ => ∀ j inst, j ≠ i →
      concerns.During j (logical, inst) o.trace → child.spawnedFor = inst
  | _ => True

def Inv (o : Obs (host text policy)) : Prop :=
  ∀ j key, concerns.During j key o.trace → Fits o.mem key

def discipline (text : JsonText) (policy : HostPolicy) : Discipline (host text policy) :=
  ⟨Inv, fun _ _ _ => True, inOrder⟩

def guard (i : Nat) (o : Obs (host text policy)) {β : Type} : HAct β → Prop
  | .insertChild logical child => ∀ inst, concerns.During i (logical, inst) o.trace →
      child.spawnedFor = inst
  | _ => True

/-! ### What the actions do to the processes -/

/-- No process is there that was not there before, for the same instance. -/
def Fewer (s s' : HostState) : Prop :=
  ∀ logical child, s'.children.get logical = some child →
    ∃ old, s.children.get logical = some old ∧ old.spawnedFor = child.spawnedFor

theorem Fewer.of_eq (h : s'.children = s.children) : Fewer s s' :=
  fun _ child there => ⟨child, h ▸ there, rfl⟩

theorem Fewer.erase (h : s'.children = s.children.erase logical) : Fewer s s' := by
  intro other child there
  rw [h, Table.erase_get] at there
  split at there
  · cases there
  · exact ⟨child, there, rfl⟩

theorem Fewer.fits (h : Fewer s s') {key : String × Nat} (fits : Fits s key) : Fits s' key := by
  intro child there
  obtain ⟨old, before, same⟩ := h key.1 child there
  exact same.symm.trans (fits old before)

theorem orphan_children (s : HostState) (sid : String) (session : Session) :
    (s.orphan sid session).children = s.children := by
  unfold HostState.orphan
  generalize s.owned sid = rids
  induction rids generalizing s with
  | nil => rfl
  | cons rid rids ih => exact ih (HostState.orphanOne sid session s rid)

abbrev insertsChild {β : Type} : HAct β → Bool
  | .insertChild .. => true
  | _ => false

theorem fewer (old : insertsChild a = false) {s s' : HostState} {b : β}
    (sem : a.sem s = some (b, s')) : Fewer s s' := by
  cases a with
  | insertChild => cases old
  | removeChild logical =>
    cases sem
    exact .erase rfl
  | forgetChild logical =>
    simp only [HAct.sem] at sem
    split at sem
    · cases sem
    · cases sem
      exact .erase rfl
  | orphan sid session =>
    cases sem
    exact .of_eq (orphan_children s sid session)
  | recvWithin | beginReader | receive | lockChildren | takeEvent | enterCall | chargeSend | dedup
  | write | endEvent =>
    refine .of_eq ?_
    simp only [HAct.sem] at sem
    repeat' split at sem
    all_goals first | cases sem; rfl | cases sem
  | _ =>
    cases sem
    exact .of_eq rfl

theorem env_fewer (event : HEnv) (s : HostState) : Fewer s (event.run s) := by
  cases event with
  | emits event =>
    refine .of_eq ?_
    cases event with
    | withdrawn logical inst generation =>
      simp only [HEnv.run, HostState.emits]
      split <;> rfl
    | _ => rfl
  | childExits logical =>
    intro other child there
    simp only [HEnv.run, Table.modify_get, Option.map_eq_some_iff] at there
    obtain ⟨old, before, rfl⟩ := there
    refine ⟨old, before, ?_⟩
    split <;> rfl
  | _ => exact .of_eq rfl

/-- Whoever becomes concerned with an instance finds no process of another. -/
theorem adopted_fits {i : Nat} {o : Obs (host text policy)} {b : β} (adopted : adopts a b key)
    (ok : inOrder o (.act i a b)) : Fits o.mem key := by
  cases a with
  | takeEvent =>
    cases b with
    | none => cases adopted
    | some event => exact ok key adopted
  | insertSession sid session => exact (show session.key = key from adopted) ▸ ok
  | _ => exact adopted.elim

theorem put_fits (h : s'.children = s.children.put logical child) (fits : Fits s key)
    (same : key.1 = logical → child.spawnedFor = key.2) : Fits s' key := by
  intro other there
  rw [h, Table.put_get] at there
  split at there
  next here =>
    cases there
    exact same here
  next => exact fits other there

theorem sound (i : Nat) (o : Obs (host text policy)) {β : Type} (a : HAct β) (b : β)
    (mem : HostState) (hg : guard i o a) (acts : (discipline text policy).Acts i o a b mem) :
    Inv (o.acted i a b mem) ∧ True := by
  refine ⟨fun j key during => ?_, trivial⟩
  have inv : Inv o := acts.inv
  have sem : a.sem o.mem = some (b, mem) := acts.enabled
  cases old : insertsChild a with
  | false =>
    refine (fewer old sem).fits ?_
    rcases Mark.during_act.mp during with ⟨-, adopted⟩ | ⟨before, -⟩
    · exact adopted_fits adopted acts.ok
    · exact inv j key before
  | true =>
    cases a with
    | insertChild logical child =>
      have others : ∀ j inst, j ≠ i → concerns.During j (logical, inst) o.trace →
        child.spawnedFor = inst := acts.ok
      have before : concerns.During j key o.trace :=
        (Mark.during_quiet (fun sets => sets) id).mp during
      cases sem
      refine put_fits rfl (inv j key before) fun here => ?_
      obtain ⟨name, inst⟩ := key
      cases here
      by_cases own : j = i
      · exact hg inst (own ▸ before)
      · exact others j inst own before
    | _ => cases old

def guarded (text : JsonText) (policy : HostPolicy) : (discipline text policy).Guarded :=
  ⟨guard, sound⟩

/-! ### Programs -/

variable {i : Nat} {o : Obs (host text policy)} {α : Type} (conn : Connection) (sid : String)

/-- The thread is concerned with no instances but those of `K`. -/
def Only (K : String × Nat → Prop) (i : Nat) (o : Obs (host text policy)) : Prop :=
  ∀ key, concerns.During i key o.trace → K key

theorem Only.stable : (discipline text policy).Stable i (Only K i) :=
  stable_own (P := fun past => ∀ key, concerns.During i key past → K key) fun _ _ foreign =>
    forall_congr' fun _ => imp_congr_left (Mark.during_foreign foreign)

theorem Only.acted (h : Only K i o) {β : Type} {a : HAct β} {b : β} {mem : HostState}
    (news : ∀ key, adopts a b key → K key) : Only K i (o.acted i a b mem) :=
  fun key during => (Mark.during_own.mp during).elim (news key) fun before => h key before.1

theorem Only.mono {K' : String × Nat → Prop} (sub : ∀ key, K key → K' key) (h : Only K i o) :
    Only K' i o :=
  fun key during => sub key (h key during)

/-- The actions that put no process into the table and take up no instance. -/
def apart (β : Type) (a : HAct β) : Prop := insertsChild a = false ∧ ∀ b key, ¬ adopts a b key

theorem guard_of_old (old : insertsChild a = false) : guard i o a := by
  cases a with
  | insertChild => cases old
  | _ => exact trivial

theorem Only.keeps (h : apart β a) : (discipline text policy).Keeps i (Only K i) a :=
  (guarded text policy).keeps (fun _ _ _ => guard_of_old h.1) fun _ b _ only _ =>
    only.acted fun key adopted => absurd adopted (h.2 b key)

theorem Only.look (h : apart β a) (ho : Only K i o) :
    (discipline text policy).wp i (perform a) (fun _ => Only K i) o :=
  wp_keeps Only.stable (Only.keeps h) ho fun _ _ => id

/-- The process that `kill_child` takes out of the table may be put back: it was spawned for what
the thread is concerned with. -/
theorem removeChild_fits (logical : String) (ho : Only K i o) :
    (discipline text policy).wp i (perform (.removeChild logical)) (fun removed o =>
      Only K i o ∧ ∀ child, removed = some child →
        ∀ inst, concerns.During i (logical, inst) o.trace → child.spawnedFor = inst) o := by
  refine (guarded text policy).perform Only.stable ho (fun _ _ _ => trivial)
    fun o₁ removed mem only acts => ⟨only.acted fun _ => False.elim, ?_⟩
  rintro child rfl inst during
  have inv : Inv o₁ := acts.inv
  have sem : (HAct.removeChild logical).sem o₁.mem = some (some child, mem) := acts.enabled
  have there : o₁.mem.children.get logical = some child := congrArg Prod.fst (Option.some.inj sem)
  have before : concerns.During i (logical, inst) o₁.trace :=
    (Mark.during_quiet (fun sets => sets) id).mp during
  exact inv i (logical, inst) before child there

theorem killChild_safe (logical : String) (ho : Only K i o) :
    (discipline text policy).wp i (killChild logical) (fun _ => Only K i) o := by
  refine wp_seq (ho.look ⟨rfl, fun _ _ => id⟩) fun _ o₁ h₁ => ?_
  refine wp_seq (h₁.look ⟨rfl, fun _ _ => id⟩) fun _ o₂ h₂ => ?_
  refine wp_seq (removeChild_fits logical h₂) fun removed o₃ h₃ => ?_
  cases removed with
  | none => exact wp_seq (h₃.1.look ⟨rfl, fun _ _ => id⟩) fun _ _ h => h
  | some child =>
    -- The process is out of the table until the group is known to be dead.
    have taken : Only (fun key => K key ∧ (key.1 = logical → child.spawnedFor = key.2)) i o₃ := by
      rintro ⟨name, inst⟩ during
      exact ⟨h₃.1 _ during, fun same => h₃.2 child rfl inst (same ▸ during)⟩
    refine wp_seq (taken.look ⟨rfl, fun _ _ => id⟩) fun cleaned o₄ h₄ => ?_
    split
    · refine wp_seq (R := fun _ => Only K i) ((guarded text policy).perform Only.stable h₄
        (fun o₅ _ only inst during => (only _ during).2 rfl)
        fun o₅ _ _ only _ => ?_) fun _ o₅ h₅ => ?_
      · exact (only.mono fun _ both => both.1).acted fun _ => False.elim
      · exact wp_seq (h₅.look ⟨rfl, fun _ _ => id⟩) fun _ _ h => h
    · have only : Only K i o₄ := h₄.mono fun _ both => both.1
      refine wp_seq (only.look ⟨rfl, fun _ _ => id⟩) fun _ o₅ h₅ => ?_
      exact wp_seq (h₅.look ⟨rfl, fun _ _ => id⟩) fun _ _ h => h

theorem spawnChild_safe (logical : String) (inst generation : Nat)
    (ho : Only (· = (logical, inst)) i o) :
    (discipline text policy).wp i (spawnChild policy logical inst generation)
      (fun _ => Only (· = (logical, inst)) i) o := by
  refine wp_seq (ho.look ⟨rfl, fun _ _ => id⟩) fun _ o₁ h₁ => ?_
  refine wp_seq (h₁.look ⟨rfl, fun _ _ => id⟩) fun c o₂ h₂ => ?_
  split
  · exact h₂.look ⟨rfl, fun _ _ => id⟩
  split
  · exact h₂.look ⟨rfl, fun _ _ => id⟩
  refine wp_seq (h₂.look ⟨rfl, fun _ _ => id⟩) fun token o₃ h₃ => ?_
  cases token with
  | none => exact h₃.look ⟨rfl, fun _ _ => id⟩
  | some token =>
    refine wp_seq (h₃.look ⟨rfl, fun _ _ => id⟩) fun _ o₄ h₄ => ?_
    refine wp_seq (h₄.look ⟨rfl, fun _ _ => id⟩) fun _ o₅ h₅ => ?_
    refine wp_seq (h₅.look ⟨rfl, fun _ _ => id⟩) fun spawned o₆ h₆ => ?_
    split
    · refine wp_seq (R := fun _ => Only (· = (logical, inst)) i)
        ((guarded text policy).perform Only.stable h₆ (fun o₇ _ only inst' during => ?_)
          fun _ _ _ only _ => only.acted fun _ => False.elim) fun _ o₇ h₇ => ?_
      · cases only _ during
        rfl
      · refine wp_seq (h₇.look ⟨rfl, fun _ _ => id⟩) fun _ o₈ h₈ => ?_
        exact h₈.look ⟨rfl, fun _ _ => id⟩
    · refine wp_seq (h₆.look ⟨rfl, fun _ _ => id⟩) fun _ o₇ h₇ => ?_
      refine wp_seq (h₇.look ⟨rfl, fun _ _ => id⟩) fun _ o₈ h₈ => ?_
      exact h₈.look ⟨rfl, fun _ _ => id⟩

/-- The whole of `kill_child`. -/
inductive Kills : ∀ β : Type, HProg β → Prop
  | kill (logical : String) : Kills Bool (killChild logical)

/-- A program that puts no process into the table and takes up no instance, but may kill. -/
abbrev Apart (p : HProg α) : Prop := Composed apart Kills p

theorem Only.composed (h : Apart p) (ho : Only K i o) :
    (discipline text policy).wp i p (fun _ => Only K i) o := by
  refine wp_composed h Only.stable (fun _ _ => Only.keeps) (fun β q known o only => ?_) ho
  cases known with
  | kill logical => exact killChild_safe logical only

theorem apart_of_talks (h : Talks p) : Apart p := by
  refine h.weaken fun β a talk => ?_
  cases a <;> first | exact talk.elim | exact ⟨rfl, fun _ _ => id⟩

theorem dropSession_apart : Apart (dropSession sid) := by
  refine .step ⟨rfl, fun _ _ => id⟩ fun found => ?_
  cases found with
  | none => exact .pure _
  | some session =>
    exact .step ⟨rfl, fun _ _ => id⟩ fun _ =>
      .step ⟨rfl, fun _ _ => id⟩ fun _ => .perform ⟨rfl, fun _ _ => id⟩

theorem quiesceSession_apart (logical : String) (inst generation : Nat) :
    Apart (quiesceSession text logical inst generation) := by
  have kill : Apart (do let _ ← killChild logical; pure ()) :=
    .map (.whole (Kills.kill logical))
  refine .step ⟨rfl, fun _ _ => id⟩ fun found => ?_
  cases found with
  | none => exact kill
  | some sid =>
    refine .bind (apart_of_talks (cancelSessionCalls_talks ..)) fun _ => ?_
    refine .step ⟨rfl, fun _ _ => id⟩ fun _ => ?_
    refine .bind (apart_of_talks (transact_talks ..)) fun _ => ?_
    refine .step ⟨rfl, fun _ _ => id⟩ fun _ => ?_
    exact .bind (apart_of_talks (transact_talks ..)) fun _ =>
      .bind (dropSession_apart sid) fun _ => kill

theorem unlisted_apart (exited : List String) : Apart (unlisted exited) := by
  induction exited with
  | nil => exact .pure _
  | cons logical exited ih =>
    exact .step ⟨rfl, fun _ _ => id⟩ fun _ => .map ih

theorem reapFinished_apart : Apart reapFinished := by
  refine .step ⟨rfl, fun _ _ => id⟩ fun _ =>
    .step ⟨rfl, fun _ _ => id⟩ fun exited => .bind (unlisted_apart exited) fun gone => ?_
  exact .step ⟨rfl, fun _ _ => id⟩ fun _ =>
    .forEach gone fun _ => .perform ⟨rfl, fun _ _ => id⟩

theorem handleEvent_safe (event : LifecycleEvent)
    (ho : Only (fun key => namedBy event = some key) i o) :
    (discipline text policy).wp i (handleEvent text policy event)
      (fun _ => Only (fun key => namedBy event = some key) i) o := by
  cases event with
  | activated logical inst generation =>
    refine wp_seq (killChild_safe logical ho) fun _ o₁ h₁ => ?_
    refine wp_seq (spawnChild_safe logical inst generation (h₁.mono fun _ same => ?_))
      fun _ o₂ h₂ =>
      ?_
    · exact (Option.some.inj same).symm
    · exact (h₂.mono fun _ same => congrArg some same.symm).composed reapFinished_apart
  | withdrawn logical inst generation =>
    exact ho.composed (.bind (quiesceSession_apart ..) fun _ => reapFinished_apart)
  | removed logical =>
    have forget : Apart (do
        perform (.removeActivation logical)
        let _ ← killChild logical
        reapFinished) :=
      .step ⟨rfl, fun _ _ => id⟩ fun _ =>
        .bind (.whole (Kills.kill logical)) fun _ => reapFinished_apart
    refine ho.composed (.step ⟨rfl, fun _ _ => id⟩ fun c => ?_)
    cases c with
    | none => exact forget
    | some c => exact .bind (quiesceSession_apart ..) fun _ => forget

theorem takeEvent_only (ho : Only (fun _ => False) i o) :
    (discipline text policy).wp i (perform .takeEvent) (fun event =>
      Only (fun key => event.bind namedBy = some key) i) o :=
  (guarded text policy).perform Only.stable ho (fun _ _ _ => trivial) fun _ _ _ only _ =>
    (only.mono fun _ => False.elim).acted fun _ named => named

theorem eventTurn_safe (ho : Only (fun _ => False) i o) :
    (discipline text policy).wp i (eventTurn text policy) (fun _ _ => True) o := by
  refine wp_seq (takeEvent_only ho) fun event o₁ h₁ => ?_
  have ends : ∀ K o₂, Only K i o₂ → (discipline text policy).wp i (perform (.endEvent event))
      (fun _ _ => True) o₂ := fun K o₂ h₂ =>
    wp_mono (fun _ _ _ => trivial) (h₂.look ⟨rfl, fun _ _ => id⟩)
  cases event with
  | none => exact wp_seq (h₁.composed reapFinished_apart) fun _ o₂ => ends _ o₂
  | some event => exact wp_seq (handleEvent_safe event h₁) fun _ o₂ => ends _ o₂

/-- A program that puts no process into the table, but may take up an instance and kill. -/
abbrev Modest (p : HProg α) : Prop := Composed (fun _ a => insertsChild a = false) Kills p

theorem modest_safe (h : Modest p) (o : Obs (host text policy)) :
    (discipline text policy).wp i p (fun _ _ => True) o := by
  have keeps : ∀ (β : Type) (a : HAct β), insertsChild a = false →
      (discipline text policy).Keeps i (Only (fun _ => True) i) a := fun β a old =>
    (guarded text policy).keeps (fun _ _ _ => guard_of_old old) fun _ _ _ only _ =>
      only.acted fun _ _ => trivial
  refine wp_mono (fun _ _ _ => trivial)
    (wp_composed h Only.stable keeps (fun β q known o only => ?_)
    (fun _ _ => trivial))
  cases known with
  | kill logical => exact killChild_safe logical only

theorem modest_of_apart (h : Apart p) : Modest p :=
  h.mono (fun _ _ ha => ha.1) fun _ _ known => .whole known

theorem modest_of_talks (h : Talks p) : Modest p := modest_of_apart (apart_of_talks h)

theorem handshake_modest (sid child : String) (inst generation : Nat) (body : Json) :
    Modest (handshake text sid child inst generation body) := by
  refine .bind (modest_of_talks (transact_talks ..)) fun answer => ?_
  have failed : Modest (do dropSession sid; let _ ← killChild child; pure ()) :=
    .bind (modest_of_apart (dropSession_apart sid)) fun _ =>
      .map (.whole (Kills.kill child))
  split
  · exact .pure _
  · exact failed

theorem activate_modest (sid child : String) (inst generation : Nat) :
    Modest (activate text conn sid child inst generation) := by
  refine .next fun _ => .ite ?_ (handshake_modest ..)
  exact .next fun _ => handshake_modest ..

theorem bindSession_modest (sid child : String) (inst generation : Nat) :
    Modest (bindSession text conn sid child inst generation) := by
  have drop : Modest (dropSession sid) := modest_of_apart (dropSession_apart sid)
  refine .next fun _ => .next fun _ => .next fun _ =>
    .next fun _ => .ite drop (.ite drop ?_)
  exact .next fun _ => activate_modest ..

theorem register_modest (reg : Envelope) (child : String)
    (inst generation : Nat) : Modest (register text conn sid reg child inst generation) := by
  refine .next fun _ => .ite (.pure _) ?_
  exact .next fun _ => .ite (.pure _) (.ite (.pure _) (bindSession_modest ..))

theorem serveConn_modest : Modest (serveConn text policy conn) := by
  refine .next fun sid => ?_
  cases conn.register sid with
  | none => exact .pure _
  | some reg =>
    refine .ite (.pure _) (.ite (.pure _) (.next fun found => ?_))
    cases found with
    | none => exact .pure _
    | some bound =>
      exact .ite (.next fun _ => .ite (.pure _) (register_modest ..))
        (register_modest ..)

theorem dispatch_modest (env : Envelope) : Modest (dispatch sid env) :=
  .ite (modest_of_talks (resolveReply_talks ..)) (.ite (modest_of_talks (heartbeat_talks ..))
    (.ite (modest_of_apart (dropSession_apart sid)) (.pure _)))

theorem readFrames_modest (frames : Nat) : Modest (readFrames text sid frames) := by
  induction frames with
  | zero => exact .blocked
  | succ frames ih =>
    refine .next fun env => ?_
    cases env with
    | none => exact modest_of_apart (dropSession_apart sid)
    | some env =>
      refine .bind (.next fun ours => .ite (.pure _) ?_) fun _ => ih
      refine .next fun verdict => ?_
      split
      · exact dispatch_modest ..
      · exact .pure _

/-! ### Runs -/

theorem operation_safe (op : HOp) (ho : Only (fun _ => False) i o) :
    (discipline text policy).wp i ((host text policy).code op) (fun _ _ => True) o := by
  cases op with
  | connect conn => exact modest_safe (.map (serveConn_modest conn)) o
  | read sid frames =>
    exact modest_safe (.map (.next fun _ => readFrames_modest ..)) o
  | event => exact wp_seq (eventTurn_safe ho) fun _ _ h => h
  | forward req rounds =>
    exact modest_safe (.map (modest_of_talks (forwardCall_talks ..))) o

theorem verified : (discipline text policy).Verified fun _ _ _ _ => True where
  stable _ _ _ := Stable.const True
  start i op o inv _ _ := by
    have started : Inv (o.log (.start i op)) := fun j key during => inv j key during.1
    exact ⟨started, trivial, operation_safe op fun key => Mark.not_during_start⟩
  done i op res o inv _ _ _ := ⟨fun j key during => inv j key during.1, trivial⟩
  env event o inv _ := fun j key during => (env_fewer event o.mem).fits (inv j key during)

/-- Whatever thread takes a process out of the table to kill it, because of an event that names
an instance or of a connection bound to one, the process was spawned for that instance. -/
theorem kills_own_process {m₀ : HostState} {c c' : Config (host text policy)}
    (run : Run inOrder (.boot m₀) c) {j : Nat} {logical : String} {child : Child}
    (step : Step c (.act j (.removeChild logical) (some child)) c') {inst : Nat}
    (concerned : concerns.During j (logical, inst) c.trace) : child.spawnedFor = inst := by
  have boot : Inv (⟨m₀, []⟩ : Obs (host text policy)) := fun _ _ during => during.elim
  have inv : Inv c.toObs := (verified.run (D := discipline text policy) boot run).inv
  cases step with
  | @act _ _ _ _ _ _ mem running enabled =>
    have sem : (HAct.removeChild logical).sem c.mem = some (some child, mem) := enabled
    exact inv j (logical, inst) concerned child (congrArg Prod.fst (Option.some.inj sem))

/-! ### Two withdrawals -/

/-- The steps of the event thread, for an event that names the instance, up to the removal of the
process. -/
def approaches (key : String × Nat) : Label (host text policy) → Prop
  | .start _ _ => True
  | .act _ .takeEvent event => event.bind namedBy = some key
  | .act _ (.takeInstance _ _) _ => True
  | .act _ .lockChildren _ => True
  | .act _ (.removeToken _) _ => True
  | _ => False

theorem inOrder_of_approaches (fits : Fits o.mem key) (h : approaches key label) :
    inOrder o label := by
  cases label with
  | act i a b =>
    cases a with
    | takeEvent =>
      cases b with
      | none => exact trivial
      | some event =>
        intro key' named
        cases named.symm.trans h
        exact fits
    | insertSession => exact h.elim
    | insertChild => exact h.elim
    | _ => exact trivial
  | _ => exact trivial

/-- A withdrawal of an instance without a session takes out whatever process its logical id has. -/
theorem withdrawal_removes {inst generation : Nat} (idle : c.threads 0 = none)
    (free : c.mem.handling = false) (event : c.mem.events = [.withdrawn logical inst generation])
    (unlisted : c.mem.byInstance.get (logical, inst) = none)
    (unlocked : c.mem.childrenLocked = false) (there : c.mem.children.get logical = some child)
    (fine : ∀ o label, o.mem.children = c.mem.children → approaches (logical, inst) label →
      ok o label) : ∃ c₁ c₂, Run ok c c₁ ∧ Step c₁ (.act 0 (.removeChild logical) (some child)) c₂ ∧
      concerns.During 0 (logical, inst) c₁.trace := by
  let begun : Config (host text policy) := ⟨c.toObs.log (.start 0 .event),
    Function.update c.threads 0 (some ⟨.event, (host text policy).code .event⟩)⟩
  have takes : (host text policy).sem .takeEvent begun.mem =
      some (some (.withdrawn logical inst generation),
        { c.mem with events := [], handling := true }) := by
    change HAct.takeEvent.sem c.mem = _
    simp [HAct.sem, free, event]
  have absent : (host text policy).sem (.takeInstance logical inst)
      { c.mem with events := [], handling := true } = some (none, { c.mem with
        events := [], handling := true, byInstance :=
          c.mem.byInstance.erase (logical, inst) }) := by
    change some (c.mem.byInstance.get (logical, inst), _) = _
    rw [unlisted]
  have locks : (host text policy).sem .lockChildren { c.mem with
      events := [], handling := true, byInstance := c.mem.byInstance.erase (logical, inst) } =
      some ((), { c.mem with
        events := [], handling := true, byInstance := c.mem.byInstance.erase (logical, inst)
        childrenLocked := true }) := by
    change (if c.mem.childrenLocked then none else _) = _
    rw [unlocked]
    rfl
  obtain ⟨o', rest, walks, same, concerned⟩ : ∃ o' rest,
      Walks ok 0 begun.toObs ((host text policy).code .event) o'
        (.act (.removeChild logical) rest) ∧ o'.mem.children = c.mem.children ∧
          concerns.During 0 (logical, inst) o'.trace := by
    refine ⟨_, _, .act takes ?_ (.act absent ?_ (.act locks ?_ (.act rfl ?_ (.refl _ _)))), rfl, ?_⟩
    · exact fine _ _ rfl rfl
    · exact fine _ _ rfl trivial
    · exact fine _ _ rfl trivial
    · exact fine _ _ rfl trivial
    · exact Mark.ever_during (Mark.ever_during (Mark.ever_during (Mark.during_own.mpr (.inl rfl))))
  have started : begun.threads 0 = some ⟨.event, (host text policy).code .event⟩ := by
    simp [begun]
  obtain ⟨c₁, run, here, running⟩ := walks.run rfl started
  have removes : (host text policy).sem (.removeChild logical) c₁.mem =
      some (some child, { c₁.mem with children := c₁.mem.children.erase logical }) := by
    change some (c₁.mem.children.get logical, _) = _
    rw [here, same, there]
  exact ⟨c₁, _, .head ⟨.start 0 .event, fine _ _ rfl trivial, .start .event idle⟩ run,
    .act running removes, here ▸ concerned⟩

def fitsNow (s : HostState) {β : Type} : HAct β → β → Bool
  | .takeEvent, event => (event.bind namedBy).all fun key =>
      (s.children.get key.1).all fun child => child.spawnedFor == key.2
  | .insertSession _ _, _ => false
  | _, _ => true

/-- A check for schedules of one thread that handle events in the order of the instances. -/
def oneByOne (o : Obs (host text policy)) (label : Label (host text policy)) : Bool :=
  o.trace.all (fun past => past.thread.all (· == 0)) && label.thread.all (· == 0) &&
    match label with
    | .act _ a b => fitsNow o.mem a b
    | _ => true

theorem inOrder_of_oneByOne (h : oneByOne o label = true) : inOrder o label := by
  simp only [oneByOne, Bool.and_eq_true] at h
  obtain ⟨⟨lone, own⟩, fits⟩ := h
  cases label with
  | act i a b =>
    cases a with
    | takeEvent =>
      cases b with
      | none => exact trivial
      | some event =>
        intro key named child there
        simpa [fitsNow, named, there] using fits
    | insertSession sid session => cases fits
    | insertChild logical child =>
      intro j inst other during
      have first : i = 0 := by simpa [Label.thread] using own
      refine absurd during (Mark.not_during_of_absent fun past member same => other ?_)
      have zero := List.all_eq_true.mp lone past member
      rw [same] at zero
      rw [first]
      simpa using zero
    | _ => exact trivial
  | _ => exact trivial

/-- What a withdrawal of the first instance of `p` finds in a host whose process is of another. -/
def awaits (child : Child) (c : Config (host text policy)) : Bool :=
  (c.threads 0).isNone && !c.mem.handling && !c.mem.childrenLocked &&
    (c.mem.byInstance.get ("p", 1)).isNone && decide (c.mem.children.get "p" = some child) &&
      decide (c.mem.events = [.withdrawn "p" 1 1])

theorem awaits_removal (h : awaits child c = true)
    (fine : ∀ o label, o.mem.children = c.mem.children → approaches ("p", 1) label → ok o label) :
    ∃ c₁ c₂, Run ok c c₁ ∧ Step c₁ (.act 0 (.removeChild "p") (some child)) c₂ ∧
      concerns.During 0 ("p", 1) c₁.trace := by
  simp only [awaits, Bool.and_eq_true, Bool.not_eq_true', Option.isNone_iff_eq_none,
    decide_eq_true_eq] at h
  obtain ⟨⟨⟨⟨⟨idle, free⟩, unlocked⟩, unlisted⟩, there⟩, event⟩ := h
  exact withdrawal_removes idle free event unlisted unlocked there fine

/-- The process of the first instance is killed when that instance is withdrawn. -/
theorem own_process_killed : ∃ (c c' : Config (host blank trusting)) (child : Child),
    Run inOrder (.boot idleHost) c ∧ Step c (.act 0 (.removeChild "p") (some child)) c' ∧
      concerns.During 0 ("p", 1) c.trace ∧ child.spawnedFor = 1 := by
  obtain ⟨c, run, reached⟩ := Config.reaches (.boot idleHost) oneByOne
    (P := fun c : Config (host blank trusting) => awaits ⟨1, false⟩ c = true)
    (fun _ _ => inOrder_of_oneByOne) 30
    [.env (.activates "p" 1), .env (.emits (.activated "p" 1 1)), .start 0 .event, .finish 0,
      .env (.retires "p"), .env (.emits (.withdrawn "p" 1 1))] (by decide +kernel)
  have fits : Fits c.mem ("p", 1) := by
    simp only [awaits, Bool.and_eq_true, decide_eq_true_eq] at reached
    intro child there
    cases reached.1.2.symm.trans there
    rfl
  obtain ⟨c₁, c₂, more, step, concerned⟩ := awaits_removal reached fun o label same near =>
    inOrder_of_approaches (o := o) (fun child there => fits child (same ▸ there)) near
  exact ⟨c₁, c₂, _, run.trans more, step, concerned,
    kills_own_process (run.trans more) step concerned⟩

/-- The kernel has moved on to the second instance and its process runs; the withdrawal of the
first comes late, and kills it. -/
theorem late_withdrawal_kills_successor : ∃ (c c' : Config (host blank trusting)) (child : Child),
    Run (fun _ _ => True) (.boot idleHost) c ∧
      Step c (.act 0 (.removeChild "p") (some child)) c' ∧
        concerns.During 0 ("p", 1) c.trace ∧ child.spawnedFor = 2 := by
  obtain ⟨c, run, reached⟩ := Config.reaches_freely (.boot idleHost)
    (P := fun c : Config (host blank trusting) => awaits ⟨2, false⟩ c = true) 30
    [.env (.activates "p" 1), .env (.retires "p"), .env (.activates "p" 2),
      .env (.emits (.activated "p" 2 2)), .start 0 .event, .finish 0,
      .env (.emits (.withdrawn "p" 1 1))] (by decide +kernel)
  obtain ⟨c₁, c₂, more, step, concerned⟩ := awaits_removal reached fun _ _ _ _ => trivial
  exact ⟨c₁, c₂, _, run.trans more, step, concerned, rfl⟩

end MatrixRuntime.ChildProcesses
