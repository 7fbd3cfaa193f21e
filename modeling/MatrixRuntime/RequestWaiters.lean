import Mathlib.Data.List.Perm.Subperm
import MatrixRuntime.SessionRequests

/-! Who waits for an answer on a session. Every step hands the waiters on from one table to the
next, or answers some of them and forgets them; nothing but a new request adds one. -/

namespace MatrixRuntime.RequestWaiters

open JsonValue KeyedTable SessionRequests Function

/-! ### What an action does to the waiters -/

/-- The waiters of `told` got the reply; the others are where they were, moved, or dropped. -/
structure Hands (told : List (String × Nat)) (reply : Reply) (s s' : Mux) : Prop where
  waiting : (s'.waiting ++ told).Subperm s.waiting
  channels : s'.channels = answer s.channels told reply
  next : s'.nextChannel = s.nextChannel
  requestIds : s'.requestIds = s.requestIds

theorem answer_nobody (channels : Nat → List Reply) (reply : Reply) :
    answer channels [] reply = channels := by
  funext channel
  simp [answer]

variable {s s' : Mux}

/-- Nobody is told anything. -/
theorem Hands.silent (waiting : s'.waiting.Subperm s.waiting)
    (channels : s'.channels = s.channels) (next : s'.nextChannel = s.nextChannel)
    (requestIds : s'.requestIds = s.requestIds) : Hands [] (.error "") s s' :=
  ⟨by rwa [List.append_nil], by rw [answer_nobody, channels], next, requestIds⟩

/-- Every channel has one sending end at most, and nothing was sent on it while it has one. -/
structure Clean (s : Mux) : Prop where
  distinct : (s.waiting.map Prod.snd).Nodup
  issued : ∀ p ∈ s.waiting, p.2 < s.nextChannel
  keyed : ∀ p ∈ s.waiting, s.requestIds p.2 = p.1
  unborn : ∀ channel, s.nextChannel ≤ channel → s.channels channel = []
  silent : ∀ p ∈ s.waiting, s.channels p.2 = []
  once : ∀ channel, (s.channels channel).length ≤ 1

section Hands

variable {told : List (String × Nat)} {reply : Reply} {s s' : Mux}

theorem Hands.told_mem (h : Hands told reply s s') {p : String × Nat} (there : p ∈ told) :
    p ∈ s.waiting :=
  h.waiting.subset (List.mem_append_right _ there)

theorem Hands.kept_mem (h : Hands told reply s s') {p : String × Nat} (there : p ∈ s'.waiting) :
    p ∈ s.waiting :=
  h.waiting.subset (List.mem_append_left _ there)

theorem Hands.untold (h : Hands told reply s s') {channel : Nat}
    (free : channel ∉ told.map Prod.snd) : s'.channels channel = s.channels channel := by
  rw [h.channels]
  exact if_neg free

theorem Hands.apart (h : Hands told reply s s') (clean : Clean s) :
    (s'.waiting.map Prod.snd ++ told.map Prod.snd).Nodup := by
  rw [← List.map_append]
  obtain ⟨moved, perm, part⟩ := h.waiting
  exact ((perm.map Prod.snd).nodup_iff).mp ((part.map Prod.snd).nodup clean.distinct)

theorem Hands.clean (h : Hands told reply s s') (clean : Clean s) : Clean s' where
  distinct := (List.nodup_append.mp (h.apart clean)).1
  issued p there := by
    rw [h.next]
    exact clean.issued p (h.kept_mem there)
  keyed p there := by
    rw [h.requestIds]
    exact clean.keyed p (h.kept_mem there)
  unborn channel late := by
    rw [h.next] at late
    refine (h.untold fun there => ?_).trans (clean.unborn channel late)
    obtain ⟨p, member, rfl⟩ := List.mem_map.mp there
    exact Nat.not_le_of_lt (clean.issued p (h.told_mem member)) late
  silent p there := by
    refine (h.untold fun also => ?_).trans (clean.silent p (h.kept_mem there))
    exact (List.nodup_append.mp (h.apart clean)).2.2 _ (List.mem_map_of_mem there) _ also rfl
  once channel := by
    by_cases there : channel ∈ told.map Prod.snd
    · obtain ⟨p, member, rfl⟩ := List.mem_map.mp there
      rw [h.channels, answer, if_pos there, clean.silent p (h.told_mem member)]
      exact Nat.le_refl 1
    · rw [h.untold there]
      exact clean.once channel

end Hands

/-! ### Tables of waiters -/

theorem waitersOf_erase (t : Table String Waiter) (rid : String) :
    (waitersOf (t.erase rid)).Sublist (waitersOf t) :=
  (t.erase_sublist rid).map _

variable {rid : String} {t : Table String Waiter}

theorem waitersOf_taken {waiter : Waiter} (h : t.get rid = some waiter) :
    ((rid, waiter.channel) :: waitersOf (t.erase rid)).Perm (waitersOf t) :=
  (Table.erase_perm h).map fun row : String × Waiter => (row.1, row.2.channel)

theorem waitersOf_retain (t : Table String Waiter) (p : String → Waiter → Bool) :
    (waitersOf (t.retain p)).Sublist (waitersOf t) :=
  List.filter_sublist.map _

theorem waitersOf_split (t : Table String Waiter) (p : String → Waiter → Bool) :
    (waitersOf (t.retain p) ++ waitersOf (t.retain fun k v => !p k v)).Perm (waitersOf t) := by
  unfold waitersOf
  rw [← List.map_append]
  exact (t.retain_perm p).map _

theorem waitersOf_absent (t : Table String Waiter) (rid : String) (channel : Nat) :
    (rid, channel) ∉ waitersOf (t.erase rid) := by
  simp [waitersOf, Table.erase]

theorem waitersOf_eq_nil (h : waitersOf t = []) : t = .empty := by
  obtain ⟨entries, unique⟩ := t
  cases List.map_eq_nil_iff.mp h
  rfl

theorem waitersOf_mem {waiter : Waiter} (h : t.get rid = some waiter) :
    (rid, waiter.channel) ∈ waitersOf t :=
  List.mem_map.mpr ⟨_, Table.get_eq_some.mp h, rfl⟩

/-! ### The actions one by one -/

/-- Waiters are handed on, and none enters the reply table. -/
structure Passes (s s' : Mux) : Prop where
  hands : ∃ told reply, Hands told reply s s'
  replies : waitersOf s'.replies ⊆ waitersOf s.replies

/-- What an action that touches no table leaves as it was. -/
structure Same (s s' : Mux) : Prop where
  replies : s'.replies = s.replies
  pending : s'.pending = s.pending
  hand : s'.hand = s.hand
  channels : s'.channels = s.channels
  next : s'.nextChannel = s.nextChannel
  requestIds : s'.requestIds = s.requestIds
  drained : s'.drained = s.drained
  begun : s'.begun = s.begun
  detached : s'.state = .detached → s.state = .detached

theorem Same.refl (s : Mux) : Same s s := ⟨rfl, rfl, rfl, rfl, rfl, rfl, rfl, rfl, id⟩

theorem Same.passes (h : Same s s') : Passes s s' where
  hands := by
    have waiting : s'.waiting = s.waiting := by
      rw [Mux.waiting, Mux.waiting, h.replies, h.pending, h.hand]
    exact ⟨[], _, .silent (waiting ▸ List.Subperm.refl _) h.channels h.next h.requestIds⟩
  replies := h.replies ▸ List.Subset.refl _

/-- The actions that touch a table of waiters or the state of the session. -/
def touches {β : Type} : MAct β → Bool
  | .register .. | .removeReply .. | .beginEngine | .takeReply .. | .refuse .. | .adopt ..
  | .expirePending .. | .expireReplies .. | .resolve .. | .setDetached | .failPending ..
  | .failReplies .. => true
  | _ => false

variable {β : Type} {a : MAct β} {b : β}

theorem same_of_calm (calm : touches a = false) (sem : a.sem s = some (b, s')) : Same s s' := by
  cases a with
  | register | removeReply | beginEngine | takeReply | refuse | adopt | expirePending
  | expireReplies | resolve | setDetached | failPending | failReplies => cases calm
  | isShutdown | isDetached | cancelRequested | waitedOut | hasRoom | controlFull | dataFull | now
  | silence | poll | pumpReads =>
    cases sem
    exact .refl s
  | unsubscribe | setHandler | requestShutdown | pushControl | pushData | dropEngine =>
    cases sem
    exact ⟨rfl, rfl, rfl, rfl, rfl, rfl, rfl, rfl, id⟩
  | trySend | setSuspect | noteInbound | onMessage =>
    simp only [MAct.sem] at sem
    split at sem <;> cases sem <;> exact ⟨rfl, rfl, rfl, rfl, rfl, rfl, rfl, rfl, by simp_all⟩
  | recv | tryRecv | deliver | flushOne =>
    simp only [MAct.sem] at sem
    split at sem <;> cases sem <;> exact ⟨rfl, rfl, rfl, rfl, rfl, rfl, rfl, rfl, id⟩
  | heartbeat | subscribe =>
    simp only [MAct.sem] at sem
    split at sem
    · cases sem
      exact .refl s
    · split at sem <;> cases sem <;> exact ⟨rfl, rfl, rfl, rfl, rfl, rfl, rfl, rfl, id⟩

/-- Waiters are moved or dropped without an answer. -/
theorem Passes.silent (waiting : s'.waiting.Subperm s.waiting)
    (channels : s'.channels = s.channels) (next : s'.nextChannel = s.nextChannel)
    (requestIds : s'.requestIds = s.requestIds)
    (replies : waitersOf s'.replies ⊆ waitersOf s.replies) : Passes s s' :=
  ⟨⟨[], _, .silent waiting channels next requestIds⟩, replies⟩

/-- The waiters taken from the middle table are told at the end. -/
theorem told_middle {before kept told middle : List (String × Nat)} (after : List (String × Nat))
    (split : (kept ++ told).Perm middle) :
    (before ++ kept ++ after ++ told).Perm (before ++ middle ++ after) := by
  have swapped : (before ++ kept ++ (after ++ told)).Perm (before ++ kept ++ (told ++ after)) :=
    List.perm_append_comm.append_left _
  have joined : (before ++ (kept ++ told) ++ after).Perm (before ++ middle ++ after) :=
    (split.append_left _).append_right _
  simp only [List.append_assoc] at swapped joined ⊢
  exact swapped.trans joined

def registers {β : Type} : MAct β → Bool
  | .register .. => true
  | _ => false

/-- Every action but the registration of a request hands the waiters on. -/
theorem passes (old : registers a = false) (sem : a.sem s = some (b, s')) : Passes s s' := by
  by_cases calm : touches a = false
  · exact (same_of_calm calm sem).passes
  cases a with
  | register => cases old
  | removeReply rid =>
    cases sem
    have kept := waitersOf_erase s.replies rid
    refine .silent ?_ rfl rfl rfl kept.subset
    exact ((kept.append_right _).append_right _).subperm
  | beginEngine =>
    simp only [MAct.sem] at sem
    split at sem
    · cases sem
    · cases sem
      exact .silent (List.Subperm.refl _) rfl rfl rfl (List.Subset.refl _)
  | takeReply rid =>
    simp only [MAct.sem] at sem
    split at sem
    next absent =>
      cases sem
      exact (Same.refl s).passes
    next waiter found =>
      cases sem
      refine .silent ?_ rfl rfl rfl (waitersOf_erase s.replies rid).subset
      have moved := (waitersOf_taken found).append_right (waitersOf s.pending)
      have taken : (waitersOf (s.replies.erase rid) ++ waitersOf s.pending ++
          [(rid, waiter.channel)]).Perm (waitersOf s.replies ++ waitersOf s.pending) :=
        List.perm_append_comm.trans moved
      exact taken.subperm.trans (List.sublist_append_left ..).subperm
  | refuse reason =>
    simp only [MAct.sem] at sem
    split at sem
    next =>
      cases sem
      exact (Same.refl s).passes
    next rid waiter hand =>
      cases sem
      refine ⟨⟨[(rid, waiter.channel)], .error reason, ?_, rfl, rfl, rfl⟩, List.Subset.refl _⟩
      simp only [Mux.waiting, hand, Option.map_none, Option.map_some, Option.toList,
        List.append_nil]
      exact List.Subperm.refl _
  | adopt timeout =>
    simp only [MAct.sem] at sem
    split at sem
    next =>
      cases sem
      exact (Same.refl s).passes
    next rid waiter hand =>
      cases sem
      refine .silent ?_ rfl rfl rfl (List.Subset.refl _)
      have kept := (waitersOf_erase s.pending rid).append_left (waitersOf s.replies)
      have moved : (waitersOf s.replies ++ ((rid, waiter.channel) ::
          waitersOf (s.pending.erase rid))).Perm
          (waitersOf s.replies ++ waitersOf (s.pending.erase rid) ++ [(rid, waiter.channel)]) := by
        rw [List.append_assoc]
        exact (List.perm_append_singleton _ _).symm.append_left _
      simp only [Mux.waiting, hand, Option.map_none, Option.map_some, Option.toList,
        List.append_nil]
      exact moved.subperm.trans (kept.append_right _).subperm
  | expirePending instant =>
    cases sem
    have split := waitersOf_split s.pending fun _ waiter => decide (waiter.deadline ≤ instant)
    exact ⟨⟨_, _, (told_middle _ (List.perm_append_comm.trans split)).subperm, rfl, rfl, rfl⟩,
      List.Subset.refl _⟩
  | expireReplies instant =>
    cases sem
    have kept := waitersOf_retain s.replies fun _ waiter => decide (instant < waiter.deadline)
    refine .silent ?_ rfl rfl rfl kept.subset
    exact ((kept.append_right _).append_right _).subperm
  | resolve rid env =>
    simp only [MAct.sem] at sem
    split at sem
    next =>
      cases sem
      exact (Same.refl s).passes
    next waiter found =>
      cases sem
      have split := (List.perm_append_singleton _ _).trans (waitersOf_taken found)
      exact ⟨⟨[(rid, waiter.channel)], .ok env, (told_middle _ split).subperm, rfl, rfl, rfl⟩,
        List.Subset.refl _⟩
  | setDetached =>
    cases sem
    exact .silent (List.Subperm.refl _) rfl rfl rfl (List.Subset.refl _)
  | failPending reason =>
    cases sem
    exact ⟨⟨_, _, (told_middle _ (List.Perm.refl _)).subperm, rfl, rfl, rfl⟩, List.Subset.refl _⟩
  | failReplies reason =>
    cases sem
    refine ⟨⟨_, _, List.Perm.subperm ?_, rfl, rfl, rfl⟩, List.nil_subset _⟩
    have whole : s.waiting = waitersOf s.replies ++ (waitersOf s.pending ++
        (s.hand.map fun taken => (taken.1, taken.2.channel)).toList) := List.append_assoc ..
    rw [whole]
    exact List.perm_append_comm
  | _ => exact absurd rfl calm

/-- The state after a request was registered. -/
def registered (s : Mux) (rid : String) (timeout : Nat) : Mux :=
  { s with
    replies := s.replies.put rid ⟨s.nextChannel, s.outside.now + timeout⟩
    nextChannel := s.nextChannel + 1
    requestIds := update s.requestIds s.nextChannel rid }

/-- A registration adds one waiter, under a new channel, or changes nothing. -/
theorem register_cases {timeout : Nat} {reply : Except String Nat}
    (sem : (MAct.register rid timeout).sem s = some (reply, s')) :
    (s' = s ∧ ∃ e, reply = .error e) ∨ (reply = .ok s.nextChannel ∧
      s' = registered s rid timeout) := by
  simp only [MAct.sem] at sem
  split at sem
  · cases sem
    exact .inl ⟨rfl, _, rfl⟩
  · split at sem
    next =>
      cases sem
      exact .inl ⟨rfl, _, rfl⟩
    next =>
      cases sem
      exact .inr ⟨rfl, rfl⟩

theorem registered_waiting (s : Mux) (rid : String) (timeout : Nat) :
    (registered s rid timeout).waiting.Subperm ((rid, s.nextChannel) :: s.waiting) := by
  have kept := ((waitersOf_erase s.replies rid).append_right (waitersOf s.pending)).append_right
    (s.hand.map fun taken => (taken.1, taken.2.channel)).toList
  exact (kept.cons_cons (rid, s.nextChannel)).subperm

theorem clean_registered (h : Clean s) (rid : String) (timeout : Nat) :
    Clean (registered s rid timeout) := by
  have part := registered_waiting s rid timeout
  have cases_mem : ∀ p ∈ (registered s rid timeout).waiting,
      p = (rid, s.nextChannel) ∨ p ∈ s.waiting := fun p there => by
    simpa using part.subset there
  have old : ∀ p ∈ s.waiting, p.2 ≠ s.nextChannel := fun p there same =>
    Nat.lt_irrefl _ (same ▸ h.issued p there)
  refine ⟨?_, ?_, ?_, ?_, ?_, h.once⟩
  · obtain ⟨moved, perm, sub⟩ := part
    have fresh : s.nextChannel ∉ s.waiting.map Prod.snd := fun there => by
      obtain ⟨p, member, same⟩ := List.mem_map.mp there
      exact old p member same
    exact ((perm.map Prod.snd).nodup_iff).mp
      ((sub.map Prod.snd).nodup (List.nodup_cons.mpr ⟨fresh, h.distinct⟩))
  · intro p there
    rcases cases_mem p there with rfl | there
    · exact Nat.lt_succ_self _
    · exact Nat.lt_succ_of_lt (h.issued p there)
  · intro p there
    rcases cases_mem p there with rfl | there
    · exact update_self ..
    · exact (update_of_ne (old p there) ..).trans (h.keyed p there)
  · intro channel late
    exact h.unborn channel (Nat.le_of_succ_le late)
  · intro p there
    rcases cases_mem p there with rfl | there
    · exact h.unborn _ (Nat.le_refl _)
    · exact h.silent p there

theorem clean_step (clean : Clean s) (sem : a.sem s = some (b, s')) : Clean s' := by
  cases old : registers a with
  | false =>
    obtain ⟨told, reply, hands⟩ := (passes old sem).hands
    exact hands.clean clean
  | true =>
    cases a with
    | register rid timeout =>
      rcases register_cases sem with ⟨rfl, -⟩ | ⟨-, rfl⟩
      · exact clean
      · exact clean_registered clean rid timeout
    | _ => cases old

/-- A frame answers no running request but one of its own request id. -/
theorem resolve_keyed {env : Json} {found : Bool} (clean : Clean s)
    (sem : (MAct.resolve rid env).sem s = some (found, s')) {channel : Nat}
    (changed : s'.channels channel ≠ s.channels channel) : s.requestIds channel = rid := by
  simp only [MAct.sem] at sem
  split at sem
  next =>
    cases sem
    exact absurd rfl changed
  next waiter there =>
    cases sem
    have told : channel ∈ [waiter.channel] := by
      by_contra free
      exact changed (if_neg free)
    rw [List.mem_singleton.mp told]
    exact clean.keyed (rid, waiter.channel) (List.mem_append_left _
      (List.mem_append_right _ (waitersOf_mem there)))

/-- The actions of the engine. -/
def engines {β : Type} : MAct β → Bool
  | .takeReply _ | .refuse _ | .adopt _ | .expirePending _ | .resolve _ _ | .failPending _
  | .failReplies _ => true
  | _ => false

/-- Only the engine touches its tables. -/
theorem engine_tables (other : engines a = false) (sem : a.sem s = some (b, s')) :
    s'.pending = s.pending ∧ s'.hand = s.hand ∧ s'.drained = s.drained := by
  by_cases calm : touches a = false
  · have same := same_of_calm calm sem
    exact ⟨same.pending, same.hand, same.drained⟩
  cases a with
  | register =>
    simp only [MAct.sem] at sem
    split at sem
    · cases sem
      exact ⟨rfl, rfl, rfl⟩
    · split at sem <;> cases sem <;> exact ⟨rfl, rfl, rfl⟩
  | beginEngine =>
    simp only [MAct.sem] at sem
    split at sem <;> cases sem
    exact ⟨rfl, rfl, rfl⟩
  | removeReply | expireReplies | setDetached =>
    cases sem
    exact ⟨rfl, rfl, rfl⟩
  | takeReply | refuse | adopt | expirePending | resolve | failPending | failReplies => cases other
  | _ => exact absurd rfl calm

end MatrixRuntime.RequestWaiters
