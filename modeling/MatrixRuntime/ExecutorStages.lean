import MatrixRuntime.ExecutorPermits
import MatrixRuntime.ThreadStates

/-! The stages a call goes through at the executor: it is served, and then told what the ledger
answers, or admitted as new, entered among the calls that open, run as a leg and settled. -/

namespace MatrixRuntime.ExecutorStages

open JsonValue StoreLedger RouteExecutor ExecutorPermits InterleavedProgram
open ThreadStates Protocol

/-- Where the holder of a permit is: in `Service::invoke`, or with a call of a route. -/
inductive Place where
  | invoke
  | admitted (route : Nat)
  | opened (route : Nat)
  | leg (route : Nat)

inductive Stage where
  | off
  | serving (route : Nat)
  | told (route : Nat) (key : OpKey) (request : Json) (t : Terminal)
  | holding (place : Place) (permit : Permit)
  | settled (route : Nat) (settlement : Settlement) (kept : Bool)
  | ended (route : Nat)

namespace Stage

/-- The terminals of legs and of the ledger are sent at their stages. -/
def tells (text : JsonText) (a : Answer) (s : Stage) : Prop :=
  match a.source with
  | .leg recorded => ∃ route x kept, s = .settled route x kept ∧ a.key = x.key ∧
      a.request = some x.request ∧ x.Backs text recorded a.terminal
  | .ledger => ∃ route request, s = .told route a.key request a.terminal ∧
      a.request = some request
  | _ => True

abbrev allows (text : JsonText) (peer : Nat → String) {β : Type} : EAct β → Stage → Prop
  | .admitOperation principal _ _, s =>
    s = .off ∨ ∃ route, s = .serving route ∧ principal = peer route
  | .insertOpening route _ operation, s =>
    ∃ permit, s = .holding (.admitted route) permit ∧ permit.key = (peer route, operation)
  | .spawnLeg route, s => ∃ permit, s = .holding (.opened route) permit
  | .submit key _ _ _, s | .callKernel key _ _ _, s =>
    ∃ place permit, s = .holding place permit ∧ permit.key = key ∧ permit.fresh = true
  | .finish principal id _ _, s => ∃ place permit, s = .holding place permit ∧
      permit.key = (principal, id) ∧ (place = .invoke ∨ ∃ route, place = .leg route)
  | .insertLeg route operation, s =>
    ∃ x, s = .settled route x false ∧ x.key = (peer route, operation)
  | .legEnds route, s => ∃ x kept, s = .settled route x kept
  | .terminal _ a, s => s.tells text a
  | _, _ => True

def next (text : JsonText) {β : Type} : EAct β → β → Stage → Stage
  | .admitOperation principal id request, .ok .new, .serving route =>
    .holding (.admitted route) ⟨(principal, id), request, true⟩
  | .admitOperation principal id request, .ok .new, .off =>
    .holding .invoke ⟨(principal, id), request, true⟩
  | .admitOperation principal id request, answer, .serving route =>
    .told route (principal, id) request (admissionTerminal text answer)
  | .insertOpening _ _ _, _, .holding (.admitted route) permit => .holding (.opened route) permit
  | .spawnLeg _, true, .holding (.opened route) permit => .holding (.leg route) permit
  | .spawnLeg _, false, .holding (.opened route) _ => .ended route
  | .submit _ _ _ _, _, .holding place permit => .holding place { permit with fresh := false }
  | .callKernel _ _ _ _, _, .holding place permit => .holding place { permit with fresh := false }
  | .finish _ _ result unknown, stored, .holding (.leg route) permit =>
    .settled route ⟨permit.key, permit.request, result, unknown, stored.isOk⟩ false
  | .finish _ _ _ _, _, .holding .invoke _ => .off
  | .insertLeg _ _, _, .settled route x _ => .settled route x true
  | .legEnds _, _, .settled route _ _ => .ended route
  | _, _, s => s

def enter : EOp → Stage
  | .callOpen route _ => .serving route
  | _ => .off

/-- The call is over, or was answered without a leg. -/
def ends (route : Nat) : Stage → Prop
  | .serving r | .told r _ _ _ | .ended r => r = route
  | _ => False

/-- No route is concerned. -/
abbrev apart : Stage → Prop
  | .off | .holding .invoke _ => True
  | _ => False

def leaves : EOp → Stage → Prop
  | .callOpen route _, s => s.ends route
  | _, s => s.apart

end Stage

def stages (text : JsonText) (peer : Nat → String) : Protocol (executor text peer) Stage where
  idle := .off
  enter := Stage.enter
  allows s action := s.allows text peer action
  next s action reply := s.next text action reply
  leaves op _ := Stage.leaves op

/-- Actions that move no thread to another stage. -/
abbrev plain {β : Type} : EAct β → Prop
  | .admitOperation _ _ _ => False
  | .insertOpening _ _ _ => False
  | .spawnLeg _ => False
  | .submit _ _ _ _ => False
  | .callKernel _ _ _ _ => False
  | .finish _ _ _ _ => False
  | .insertLeg _ _ => False
  | .legEnds _ => False
  | .terminal _ a => (∀ recorded, a.source ≠ .leg recorded) ∧ a.source ≠ .ledger
  | _ => True

variable {text : JsonText} {peer : Nat → String} {α β : Type} {action : EAct β} {s : Stage}
  {route : Nat} {rid operation logical cap : String} {input request : Json} {fence : Nat}
  {Q : Stage → Prop}

theorem plain_stays (h : plain action) :
    (stages text peer).allows s action ∧ ∀ reply, (stages text peer).next s action reply = s := by
  cases action with
  | admitOperation | insertOpening | spawnLeg | submit | callKernel | finish | insertLeg
  | legEnds => exact h.elim
  | terminal rid a =>
    refine ⟨?_, fun _ => rfl⟩
    change s.tells text a
    unfold Stage.tells
    split
    next recorded source => exact absurd source (h.1 recorded)
    next source => exact absurd source h.2
    next => trivial
  | _ => exact ⟨trivial, fun _ => rfl⟩

abbrev Plain {α : Type} (p : EProg α) : Prop :=
  Composed (fun _ action => plain action) (fun _ _ => False) p

theorem Plain.follows {p : EProg α} (h : Plain p) (there : Q s) :
    (stages text peer).Follows p (fun _ => Q) s :=
  (Follows.composed h fun _ _ => plain_stays).mono fun _ _ same => same ▸ there

theorem accept_plain (persisted : Bool) : Plain (accept route rid persisted) :=
  .ite (.pure ()) (.once)

theorem refuse_plain (principal code message : String) (request : Option Json) :
    Plain (refuse route rid principal operation request code message) :=
  (accept_plain false).bind fun _ => .perform ⟨by simp, by simp⟩

theorem replayLeg_plain (principal : String) : Plain (replayLeg route rid principal operation) := by
  have told (request : Option Json) (t : Terminal) :
      Plain (terminal route rid principal operation .legTable request t) :=
    .perform ⟨by simp, by simp⟩
  refine .next fun answer => ?_
  split
  · exact (accept_plain true).bind fun _ => told ..
  · exact (accept_plain false).bind fun _ => told ..

theorem legTerminal_eq {value : Json} {ok : Bool} :
    legTerminal text value ok (durable ok value) = ledgerTerminal text (durable ok value) := by
  cases ok <;> rfl

/-- A leg tells what its settlement backs. -/
theorem terminal_follows {x : Settlement} {kept : Bool} {recorded : Option Json} {t : Terminal}
    (key : x.key = (peer route, operation)) (asked : x.request = request)
    (backs : x.Backs text recorded t) : (stages text peer).Follows
      (terminal route rid (peer route) operation (.leg recorded) (some request) t)
      (fun _ s => ∃ x kept, s = .settled route x kept) (.settled route x kept) :=
  .act ⟨route, x, kept, rfl, key.symm, congrArg some asked.symm, backs⟩ fun _ => ⟨x, kept, rfl⟩

theorem settleLeg_follows {owner} {value : Json} {ok fresh : Bool} :
    (stages text peer).Follows
      (settleLeg text route rid (peer route) operation logical owner fence request value ok)
      (fun _ s => ∃ x kept, s = .settled route x kept)
      (.holding (.leg route) ⟨(peer route, operation), request, fresh⟩) := by
  simp only [settleLeg, Prog.bind_eq, perform_bind]
  refine .act trivial fun wasCancelled => .act trivial fun current => ?_
  refine .act ⟨_, _, rfl, rfl, .inr ⟨route, rfl⟩⟩ fun stored => ?_
  refine .act trivial fun _ => .act trivial fun _ => ?_
  split
  next cancelled => exact terminal_follows rfl rfl (.inl (by simp [cancelled]))
  next kept =>
    split
    next unknown => exact terminal_follows rfl rfl (.inl (by simp [unknown]))
    next known =>
      have uncancelled : wasCancelled = false := by simpa using kept
      have live : current = true := by
        unfold legUnknown at known
        simp only [Bool.or_eq_true, not_or] at known
        simpa using known.1
      have result : legResult value ok wasCancelled current = durable ok value := by
        simp [legResult, uncancelled, live]
      rw [result]
      refine .act ⟨_, rfl, rfl⟩ fun _ => terminal_follows rfl rfl ?_
      cases taken : stored.isOk with
      | true => exact ⟨rfl, by simpa [uncancelled] using known, rfl, legTerminal_eq⟩
      | false => exact .inr (.inl rfl)

theorem runLeg_follows {owner} :
    (stages text peer).Follows
      (runLeg text route rid (peer route) operation logical owner fence cap input request)
      (fun _ s => ∃ x kept, s = .settled route x kept)
      (.holding (.leg route) ⟨(peer route, operation), request, true⟩) := by
  simp only [runLeg, Prog.bind_eq, perform_bind]
  refine .act trivial fun now => ?_
  split
  · refine .act trivial fun _ => .act ⟨_, _, rfl, rfl, .inr ⟨route, rfl⟩⟩ fun _ => ?_
    exact terminal_follows rfl rfl (.inr (.inr ⟨rfl, rfl⟩))
  refine .act trivial fun early => ?_
  split
  · refine .act trivial fun _ => .act ⟨_, _, rfl, rfl, .inr ⟨route, rfl⟩⟩ fun _ => ?_
    exact terminal_follows rfl rfl (.inl rfl)
  · exact .act ⟨_, _, rfl, rfl, rfl⟩ fun worker => .act trivial fun out => settleLeg_follows

theorem dispatchLeg_follows {owner} :
    (stages text peer).Follows
      (dispatchLeg text route rid (peer route) operation logical owner fence cap input request)
      (fun _ => Stage.ends route)
      (.holding (.admitted route) ⟨(peer route, operation), request, true⟩) := by
  simp only [dispatchLeg, Prog.bind_eq, perform_bind]
  refine ((accept_plain false).follows (Q := (· = .holding (.admitted route)
    ⟨(peer route, operation), request, true⟩)) rfl).bind ?_
  rintro _ _ rfl
  refine .act ⟨_, rfl, rfl⟩ fun _ => .act trivial fun _ => .act ⟨_, rfl⟩ fun spawned => ?_
  cases spawned with
  | false => rfl
  | true =>
    refine runLeg_follows.bind ?_
    rintro _ _ ⟨x, kept, rfl⟩
    exact ⟨⟨x, kept, rfl⟩, fun _ => rfl⟩

theorem admitLeg_follows {owner} :
    (stages text peer).Follows
      (admitLeg text route rid (peer route) operation logical owner fence cap input)
      (fun _ => Stage.ends route) (.serving route) := by
  have answers (persisted : Bool) (request : Json) {t t' : Terminal} (same : t' = t) :
      (stages text peer).Follows ((accept route rid persisted).bind fun _ =>
        terminal route rid (peer route) operation .ledger (some request) t)
        (fun _ => Stage.ends route) (.told route (peer route, operation) request t') := by
    subst same
    refine ((accept_plain persisted).follows (Q := (· = .told route (peer route, operation)
      request t')) rfl).bind ?_
    rintro _ _ rfl
    exact .act ⟨route, request, rfl, rfl⟩ fun _ => rfl
  refine .act (.inr ⟨route, rfl, rfl⟩) fun answer => ?_
  cases answer with
  | error e =>
    refine answers _ _ ?_
    simp only [admissionTerminal, conflict, exhausted]
    split <;> rfl
  | ok admission =>
    cases admission with
    | new => exact dispatchLeg_follows
    | completed done => exact answers _ _ rfl
    | unknown => exact answers _ _ rfl

theorem onCallOpen_follows {env : Json} :
    (stages text peer).Follows (onCallOpen text route (peer route) env)
      (fun _ => Stage.ends route) (.serving route) := by
  have plainly {p : EProg Unit} (h : Plain p) :
      (stages text peer).Follows p (fun _ => Stage.ends route) (.serving route) :=
    h.follows rfl
  simp only [onCallOpen, authorizeLeg, Prog.bind_eq, perform_bind]
  split
  · exact plainly (refuse_plain ..)
  refine .act trivial fun known => ?_
  split
  · exact plainly (replayLeg_plain _)
  refine .act trivial fun legs => ?_
  split
  · exact plainly (refuse_plain ..)
  refine .act trivial fun lease => ?_
  split
  · exact plainly (refuse_plain ..)
  refine .act trivial fun granted => ?_
  split
  · exact plainly (refuse_plain ..)
  refine .act trivial fun provided => ?_
  split
  · exact plainly (refuse_plain ..)
  · exact admitLeg_follows

theorem onCallCancel_plain (env : Json) : Plain (onCallCancel route env) := by
  unfold onCallCancel
  split
  · exact .ite (.pure ()) (.once)
  · exact .pure ()

theorem serviceInvoke_follows (principal token : String) (fence : Nat) (operation cap : String)
    (input : Json) : (stages text peer).Follows
      (serviceInvoke principal token fence operation cap input) (fun _ => Stage.apart) .off := by
  refine .act trivial fun authorized => ?_
  cases authorized with
  | error e => trivial
  | ok owned =>
    refine .act (.inl rfl) fun answer => ?_
    rcases answer with e | ⟨_ | value | _⟩
    · trivial
    · refine .act trivial fun now => ?_
      simp only [Prog.pure_bind]
      split
      · trivial
      refine .act ⟨_, _, rfl, rfl, rfl⟩ fun worker => .act trivial fun returned => ?_
      refine .act trivial fun current => .act ⟨_, _, rfl, rfl, .inl rfl⟩ fun stored => ?_
      cases stored <;> trivial
    · trivial
    · trivial

theorem code_follows (op : EOp) : (stages text peer).Follows ((executor text peer).code op)
    ((stages text peer).leaves op) ((stages text peer).enter op) := by
  cases op with
  | callOpen route env => exact onCallOpen_follows.bind fun _ _ ended => ended
  | callCancel route env =>
    exact ((onCallCancel_plain env).follows (Q := Stage.apart) (s := .off) trivial).bind
      fun _ _ off => off
  | invoke => exact (serviceInvoke_follows ..).bind fun _ _ off => off

end MatrixRuntime.ExecutorStages
