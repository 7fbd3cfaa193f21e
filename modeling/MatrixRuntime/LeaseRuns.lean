import MatrixRuntime.RuntimeService
import MatrixRuntime.SequentialRuns
import MatrixRuntime.StoreCalls

/-! What holds of the leases over every sequence of service operations, whatever the kernel, the
host and the clock answer, as long as random tokens are fresh. -/

namespace MatrixRuntime.LeaseRuns

open KernelActions KernelOperations KeyedTable StoreLedger
open KernelReconcile (reconcile)
open InterleavedProgram SequentialRuns RuntimeService

/-! ### Steps -/

/-- The random token of an operation was not handed out before. -/
def Fresh (out : Outside) (s : Svc) : Prop := ∀ token, out.token = .ok token → token ∉ s.issued

/-- An operation of the service, whatever the kernel answers. -/
def Step (again : KProg Unit) (s s' : Svc) : Prop :=
  ∃ out op, Fresh out s ∧ (SvcOp.code out again s op).Yields s'

abbrev Reaches (again : KProg Unit) : Svc → Svc → Prop := Relation.ReflTransGen (Step again)

/-- A lease of the logical id with this fence. -/
def Leased (s : Svc) (logical : String) (fence : Nat) : Prop :=
  ∃ token l, s.leases.get token = some l ∧ l.logical = logical ∧ l.fence = fence

/-- What the lease table keeps. -/
structure Sound (s : Svc) : Prop where
  own : ∀ token l, s.leases.get token = some l → l.token = token
  sole : ∀ t t' l l', s.leases.get t = some l → s.leases.get t' = some l' →
    l.logical = l'.logical → t = t'
  room : s.leases.size ≤ 128
  trusted : ∀ token l, s.leases.get token = some l → l.principal ∉ s.revoked

/-- The tokens were handed out, and the store knows the fences. -/
structure Backed (s : Svc) : Prop extends Sound s where
  known : ∀ token l, s.leases.get token = some l → token ∈ s.issued
  fenced : ∀ token l, s.leases.get token = some l →
    ∃ n, s.db.fences.get l.logical = some n ∧ l.fence ≤ n

/-- The same lease, up to its deadline and its health. -/
structure Lease.Same (l l' : Lease) : Prop where
  principal : l'.principal = l.principal
  logical : l'.logical = l.logical
  fence : l'.fence = l.fence

/-- The fences of the store only grow. -/
def Grows (db db' : Db) : Prop :=
  ∀ g n, db.fences.get g = some n → ∃ n', db'.fences.get g = some n' ∧ n ≤ n'

/-- Some keys are gone. -/
structure Without (keys : List String) (t t' : Table String Lease) : Prop where
  get : ∀ k, t'.get k = if k ∈ keys then none else t.get k
  size : t'.size ≤ t.size

/-- What an operation does to the leases that are there: one is changed, under its token or a new
one, or some are taken away. -/
inductive Change (s : Svc) : Svc → Prop
  | moves {token new : String} {l l' : Lease} {issued : List String}
      (there : s.leases.get token = some l) (fresh : new = token ∨ new ∉ s.issued)
      (listed : s.issued ⊆ issued ∧ new ∈ issued) (same : Lease.Same l l') (own : l'.token = new) :
      Change s { s with issued, leases := (s.leases.erase token).put new l' }
  | withdraws {keys : List String} {leases : Table String Lease} {grants : Table String Grant}
      {revoked : List String} {db : Db} (without : Without keys s.leases leases)
      (grows : Grows s.db db)
      (trusted : ∀ k l, k ∉ keys → s.leases.get k = some l → l.principal ∉ revoked) :
      Change s { s with leases, grants, revoked, db }

/-- A new lease, for a logical id that has none. -/
inductive Enters (s : Svc) : Svc → Prop
  | enters {token : String} {l : Lease} {db : Db} (fresh : token ∉ s.issued) (own : l.token = token)
      (free : ∀ k l', s.leases.get k = some l' → l'.logical ≠ l.logical)
      (room : s.leases.size < 128) (trusted : l.principal ∉ s.revoked) (grows : Grows s.db db)
      (fenced : db.fences.get l.logical = some l.fence)
      (above : ∀ n, s.db.fences.get l.logical = some n → n < l.fence) :
      Enters s { s with
        db := db
        issued := token :: s.issued
        leases := s.leases.put token l }

/-! ### What every change keeps -/

variable {out : Outside} {again : KProg Unit} {s s' : Svc} {token k principal : String}
  {fence : Nat} {s₁ s₂ s₃ : Svc} (keys : List String)

theorem Grows.refl (db : Db) : Grows db db := fun _ n old => ⟨n, old, Nat.le_refl n⟩

theorem Without.refl (t : Table String Lease) : Without [] t t := ⟨fun _ => by simp, Nat.le_refl _⟩

theorem Without.one (t : Table String Lease) (token : String) :
    Without [token] t (t.erase token) where
  get k := by simp [Table.erase_get]
  size := (t.erase_sublist token).length_le

/-- The store counts on, and a token that is gone stays gone. -/
structure Continues (s s' : Svc) : Prop where
  issued : s.issued ⊆ s'.issued
  fences : Grows s.db s'.db
  gone : ∀ t ∈ s.issued, s.leases.get t = none → s'.leases.get t = none

theorem Continues.trans (h : Continues s₁ s₂) (h' : Continues s₂ s₃) : Continues s₁ s₃ where
  issued := List.Subset.trans h.issued h'.issued
  fences g n old := by
    obtain ⟨n₂, now, le⟩ := h.fences g n old
    obtain ⟨n₃, later, le'⟩ := h'.fences g n₂ now
    exact ⟨n₃, later, Nat.le_trans le le'⟩
  gone t there absent := h'.gone t (h.issued there) (h.gone t there absent)

theorem change_continues (h : Change s s') : Continues s s' := by
  cases h with
  | @moves token new l l' issued old fresh listed same own =>
    refine ⟨listed.1, .refl _, fun t there absent => ?_⟩
    have other : t ≠ new := by
      rintro rfl
      obtain rfl | unknown := fresh
      · simp [old] at absent
      · exact unknown there
    rw [Table.put_get, Table.erase_get, absent, ite_self, if_neg other]
  | withdraws without grows trusted =>
    refine ⟨List.Subset.refl _, grows, fun t there absent => ?_⟩
    rw [without.get, absent, ite_self]

variable {l : Lease} {t : Table String Lease}

/-- The leases after a change: the one that moved, or one that was there. -/
theorem moved_get {new : String} {l' : Lease}
    (there : ((t.erase token).put new l').get k = some l) :
    k = new ∧ l = l' ∨ k ≠ new ∧ k ≠ token ∧ t.get k = some l := by
  rw [Table.put_get, Table.erase_get] at there
  by_cases here : k = new
  · rw [if_pos here, Option.some.injEq] at there
    exact .inl ⟨here, there.symm⟩
  · rw [if_neg here] at there
    split at there
    · cases there
    next other => exact .inr ⟨here, other, there⟩

theorem Without.there {keys : List String} {t' : Table String Lease} (h : Without keys t t')
    (there : t'.get k = some l) : k ∉ keys ∧ t.get k = some l := by
  rw [h.get] at there
  split at there
  · cases there
  next kept => exact ⟨kept, there⟩

theorem change_leased (h : Change s s') {g : String} {f : Nat} (leased : Leased s' g f) :
    Leased s g f := by
  obtain ⟨t, l, there, rfl, rfl⟩ := leased
  cases h with
  | moves old fresh listed same own =>
    obtain ⟨rfl, rfl⟩ | ⟨-, -, there⟩ := moved_get there
    · exact ⟨_, _, old, same.logical.symm, same.fence.symm⟩
    · exact ⟨t, l, there, rfl, rfl⟩
  | withdraws without => exact ⟨t, l, (without.there there).2, rfl, rfl⟩

theorem change_size (h : Change s s') : s'.leases.size ≤ s.leases.size := by
  cases h with
  | @moves token new l l' issued old fresh listed same own =>
    have shrinks := ((s.leases.erase token).erase_sublist new).length_le
    have one := Table.erase_size old
    rw [Table.put_size]
    unfold Table.size at *
    omega
  | withdraws without => exact without.size

theorem change_sole (backed : Backed s) (h : Change s s') (t t' : String) (l l' : Lease)
    (there : s'.leases.get t = some l) (there' : s'.leases.get t' = some l')
    (same : l.logical = l'.logical) : t = t' := by
  cases h with
  | @moves token new l₀ l₁ issued old fresh listed kept own =>
    obtain ⟨rfl, rfl⟩ | ⟨-, other, before⟩ := moved_get there <;>
      obtain ⟨rfl, rfl⟩ | ⟨-, other', before'⟩ := moved_get there'
    · rfl
    · exact absurd (backed.sole _ _ _ _ before' old (same.symm.trans kept.logical)) other'
    · exact absurd (backed.sole _ _ _ _ before old (same.trans kept.logical)) other
    · exact backed.sole t t' l l' before before' same
  | withdraws without =>
    exact backed.sole t t' l l' (without.there there).2 (without.there there').2 same

/-- What each entry of the lease table keeps by itself. -/
structure EntrySound (s : Svc) (t : String) (l : Lease) : Prop where
  own : l.token = t
  trusted : l.principal ∉ s.revoked
  known : t ∈ s.issued
  fenced : ∃ n, s.db.fences.get l.logical = some n ∧ l.fence ≤ n

theorem Backed.entry (backed : Backed s) {t : String} (there : s.leases.get t = some l) :
    EntrySound s t l :=
  ⟨backed.own t l there, backed.trusted t l there, backed.known t l there,
    backed.fenced t l there⟩

theorem Backed.of_entries (entries : ∀ t l, s.leases.get t = some l → EntrySound s t l)
    (sole : ∀ t t' l l', s.leases.get t = some l → s.leases.get t' = some l' →
      l.logical = l'.logical → t = t') (room : s.leases.size ≤ 128) : Backed s :=
  ⟨⟨fun t l there => (entries t l there).own, sole, room,
    fun t l there => (entries t l there).trusted⟩, fun t l there => (entries t l there).known,
    fun t l there => (entries t l there).fenced⟩

theorem Grows.fenced {db db' : Db} (grows : Grows db db')
    (h : ∃ n, db.fences.get l.logical = some n ∧ l.fence ≤ n) :
    ∃ n, db'.fences.get l.logical = some n ∧ l.fence ≤ n := by
  obtain ⟨n, count, le⟩ := h
  obtain ⟨n', count', le'⟩ := grows _ n count
  exact ⟨n', count', Nat.le_trans le le'⟩

theorem change_backed (backed : Backed s) (h : Change s s') : Backed s' := by
  refine .of_entries (fun t l there => ?_) (change_sole backed h)
    (Nat.le_trans (change_size h) backed.room)
  cases h with
  | moves old fresh listed same own =>
    obtain ⟨rfl, rfl⟩ | ⟨-, -, there⟩ := moved_get there
    · have entry := backed.entry old
      refine ⟨own, same.principal ▸ entry.trusted, listed.2, ?_⟩
      rw [same.logical, same.fence]
      exact entry.fenced
    · have entry := backed.entry there
      exact ⟨entry.own, entry.trusted, listed.1 entry.known, entry.fenced⟩
  | withdraws without grows trusted =>
    obtain ⟨kept, there⟩ := without.there there
    have entry := backed.entry there
    exact ⟨entry.own, trusted t l kept there, entry.known, grows.fenced entry.fenced⟩

/-- The leases after a new one was entered. -/
theorem entered_get {l' : Lease} (there : (t.put token l).get k = some l') :
    k = token ∧ l' = l ∨ t.get k = some l' := by
  rw [Table.put_get] at there
  split at there
  next here => exact .inl ⟨here, (Option.some.inj there).symm⟩
  next => exact .inr there

theorem enters_continues (h : Enters s s') : Continues s s' := by
  cases h with
  | @enters token l db fresh own free room trusted grows fenced above =>
    refine ⟨List.subset_cons_self _ _, grows, fun t there absent => ?_⟩
    have other : t ≠ token := fun here => fresh (here ▸ there)
    rw [Table.put_get, if_neg other, absent]

theorem enters_backed (backed : Backed s) (h : Enters s s') : Backed s' := by
  cases h with
  | @enters token l db fresh own free room trusted grows fenced above =>
    refine .of_entries (fun t l' there => ?_) (fun t t' l₁ l₂ there there' same => ?_) ?_
    · obtain ⟨rfl, rfl⟩ | old := entered_get there
      · exact ⟨own, trusted, List.mem_cons_self, _, fenced, Nat.le_refl _⟩
      · have entry := backed.entry old
        exact ⟨entry.own, entry.trusted, List.mem_cons_of_mem _ entry.known,
          grows.fenced entry.fenced⟩
    · obtain ⟨rfl, rfl⟩ | old := entered_get there <;>
        obtain ⟨rfl, rfl⟩ | old' := entered_get there'
      · rfl
      · exact absurd same.symm (free t' l₂ old')
      · exact absurd same (free t l₁ old)
      · exact backed.sole t t' l₁ l₂ old old' same
    · have shrinks := (s.leases.erase_sublist token).length_le
      rw [Table.put_size]
      unfold Table.size at *
      omega

theorem enters_leased (h : Enters s s') {g : String} {f : Nat} (leased : Leased s' g f) :
    Leased s g f ∨ (∀ f', ¬ Leased s g f') ∧ ∀ n, s.db.fences.get g = some n → n < f := by
  cases h with
  | @enters token l db fresh own free room trusted grows fenced above =>
    obtain ⟨t, l', there, rfl, rfl⟩ := leased
    obtain ⟨rfl, rfl⟩ | old := entered_get there
    · refine .inr ⟨?_, above⟩
      rintro f' ⟨k, l₀, old, same, -⟩
      exact free k l₀ old same
    · exact .inl ⟨t, l', old, rfl, rfl⟩

/-! ### What each operation does -/

theorem nextFence_grows {logical : String} {db : Db} (h : (nextFence logical db).1 = .ok fence) :
    Grows db (nextFence logical db).2 ∧ (nextFence logical db).2.fences.get logical = some fence ∧
      ∀ n, db.fences.get logical = some n → n < fence := by
  obtain ⟨fences, after, others, next, own⟩ := StoreCalls.nextFence_ok h
  rw [after]
  refine ⟨fun g n old => ?_, own, fun n old => ?_⟩
  · by_cases same : g = logical
    · subst same
      exact ⟨n + 1, next n old, Nat.le_succ n⟩
    · exact ⟨n, (others g same).trans old, Nat.le_refl n⟩
  · have value := (next n old).symm.trans own
    rw [Option.some.injEq] at value
    omega

/-- The retired leases are gone, and nothing else changes. -/
theorem retireAll_returns (s : Svc) :
    (retireAll out again keys s).Returns fun s' =>
      ∃ leases, Without keys s.leases leases ∧ s' = { s with leases } := by
  induction keys generalizing s with
  | nil => exact ⟨s.leases, .refl _, rfl⟩
  | cons key keys ih =>
    unfold retireAll
    cases there : s.leases.get key with
    | none =>
      refine (ih s).mono ?_
      rintro s' ⟨leases, without, rfl⟩
      refine ⟨leases, ⟨fun k => ?_, without.size⟩, rfl⟩
      rw [without.get k]
      by_cases same : k = key
      · simp [same, there]
      · simp [same]
    | some l =>
      refine Prog.Returns.bind _ fun _ => (ih _).mono ?_
      rintro s' ⟨leases, without, rfl⟩
      refine ⟨leases, ⟨fun k => ?_, ?_⟩, rfl⟩
      · rw [without.get k, Table.erase_get]
        by_cases same : k = key <;> simp [same]
      · exact Nat.le_trans without.size (s.leases.erase_sublist key).length_le

theorem mem_tokensOf {p : Lease → Bool} (there : s.leases.get token = some l) (hp : p l = true) :
    token ∈ s.tokensOf p :=
  List.mem_map.mpr ⟨(token, l), List.mem_filter.mpr ⟨Table.get_eq_some.mp there, hp⟩, rfl⟩

theorem supervise_same (restart : String → Option RestartPolicy) (l : Lease) :
    (supervise out again restart l).Returns fun l' => Lease.Same l l' ∧ l'.token = l.token := by
  have kept : Lease.Same l l := ⟨rfl, rfl, rfl⟩
  unfold supervise
  split
  · exact ⟨kept, rfl⟩
  split
  next due _ =>
    split
    · exact ⟨kept, rfl⟩
    unfold restartLease
    simp only
    split
    · exact ⟨⟨rfl, rfl, rfl⟩, rfl⟩
    refine Prog.Returns.bind _ fun loaded => ?_
    cases loaded with
    | error => exact ⟨⟨rfl, rfl, rfl⟩, rfl⟩
    | ok => exact Prog.Returns.bind _ fun _ => ⟨⟨rfl, rfl, rfl⟩, rfl⟩
  next =>
    split
    · refine Prog.Returns.bind _ fun _ => ?_
      unfold Lease.charged
      split
      · exact ⟨⟨rfl, rfl, rfl⟩, rfl⟩
      · exact ⟨⟨rfl, rfl, rfl⟩, rfl⟩
    · exact ⟨kept, rfl⟩

theorem superviseAll_changes {s : Svc} (backed : Backed s) :
    (superviseAll out again keys s).Returns (Relation.ReflTransGen Change s) := by
  induction keys generalizing s with
  | nil => exact .refl
  | cons key keys ih =>
    unfold superviseAll
    cases there : s.leases.get key with
    | none => exact ih backed
    | some l =>
      refine (supervise_same s.restart l).andThen ?_
      rintro l' ⟨same, own⟩
      have entry := backed.entry there
      have change : Change s { s with leases := s.leases.put key l' } :=
        Table.erase_put s.leases key l' ▸ .moves there (.inl rfl)
          ⟨List.Subset.refl _, entry.known⟩ same (own.trans entry.own)
      exact (ih (change_backed backed change)).mono fun s' changes => .head change changes

theorem clear_ok {logical : String} {ttlMs : Nat}
    (h : s.clear out principal logical ttlMs = .ok token) :
    out.token = .ok token ∧ principal ∉ s.revoked ∧ s.leases.size < 128 ∧
      ∀ k l, s.leases.get k = some l → l.logical ≠ logical := by
  unfold Svc.clear at h
  split at h
  · cases h
  split at h
  · cases h
  next allowed =>
    split at h
    · cases h
    next free =>
      split at h
      · cases h
      next room =>
        simp only [Bool.or_eq_true, not_or, List.contains_iff_mem] at allowed
        refine ⟨?_, allowed.1, Nat.lt_of_not_le room, fun k l there same => free ?_⟩
        · split at h
          · cases h
          · exact h
        · exact List.any_eq_true.mpr
            ⟨(k, l), Table.get_eq_some.mp there, decide_eq_true same⟩

theorem validate_ok (h : s.validate out principal token fence = .ok l) :
    s.leases.get token = some l ∧ l.replays out principal fence l.renewSeq = true := by
  unfold Svc.validate at h
  split at h
  · cases h
  split at h
  · cases h
  next l' there =>
    split at h
    · cases h
    split at h
    · cases h
    split at h
    · cases h
    next other current healthy =>
      cases h
      refine ⟨there, decide_eq_true ?_⟩
      simp only [not_or, not_not, Nat.not_le] at other current
      exact ⟨other, current.1, rfl, current.2, by simpa using healthy⟩

/-- What an operation can do to the leases. -/
def Moves (s s' : Svc) : Prop := Relation.ReflTransGen Change s s' ∨ Enters s s'

theorem Moves.one (h : Change s s') : Moves s s' := .inl (.single h)

theorem Moves.none (s : Svc) : Moves s s := .inl .refl

theorem Moves.counts (backed : Backed s) {db : Db} (grows : Grows s.db db) :
    Moves s { s with db } :=
  .one (.withdraws (.refl _) grows fun k l _ there => backed.trusted k l there)

theorem Moves.rotates {new : String} (valid : s.validate out principal token fence = .ok l)
    (fresh : new ∉ s.issued) (ttlMs seq : Nat) : Moves s (s.rotate out token new l ttlMs seq) :=
  .one (.moves (validate_ok valid).1 (.inr fresh)
    ⟨List.subset_cons_self _ _, List.mem_cons_self⟩ ⟨rfl, rfl, rfl⟩ rfl)

theorem activate_moves (backed : Backed s) (fresh : Fresh out s) (principal logical : String)
    (ttlMs : Nat) :
    (activate out again principal logical ttlMs s).Returns fun r => Moves s r.2 := by
  unfold activate
  split
  · exact Moves.none s
  next token clear =>
    obtain ⟨drawn, trusted, room, free⟩ := clear_ok clear
    split
    next e db refused =>
      have same : (nextFence logical s.db).2 = s.db :=
        StoreCalls.immediate_error (congrArg Prod.fst refused)
      rw [refused] at same
      exact .counts backed (same ▸ Grows.refl _)
    next fence db counted =>
      have grows := nextFence_grows (congrArg Prod.fst counted)
      rw [counted] at grows
      obtain ⟨grows, fenced, above⟩ := grows
      split
      · exact .counts backed grows
      refine Prog.Returns.bind _ fun outcome => ?_
      cases outcome with
      | error e => exact .counts backed grows
      | ok found =>
        exact .inr (.enters (fresh token drawn) rfl free room trusted grows fenced above)

theorem renew_moves (fresh : Fresh out s) (principal token : String) (fence ttlMs : Nat) :
    Moves s (renew out principal token fence ttlMs s).2 := by
  unfold renew
  split
  · exact .none s
  split
  · exact .none s
  · exact .none s
  next l new valid drawn =>
    exact .rotates valid (fresh new drawn) ttlMs l.renewSeq

theorem renewSeq_moves (fresh : Fresh out s) (principal token : String) (fence seq ttlMs : Nat) :
    Moves s (renewSeq out principal token fence seq ttlMs s).2 := by
  unfold renewSeq
  split
  · exact .none s
  split
  · exact .none s
  split
  · exact .none s
  unfold renewNext
  split
  · exact .none s
  next l valid =>
    split
    · exact .none s
    split
    · exact .none s
    next new drawn =>
      exact .rotates valid (fresh new drawn) ttlMs seq

theorem release_moves (backed : Backed s) (principal token : String) (fence : Nat) :
    (release out again principal token fence s).Returns fun r => Moves s r.2 := by
  unfold release
  split
  · exact Moves.none s
  split
  · exact Moves.none s
  split
  · exact Moves.none s
  · exact Prog.Returns.bind _ fun _ =>
      Moves.one (.withdraws (.one _ token) (.refl _) fun k l _ there => backed.trusted k l there)

theorem revoke_moves (backed : Backed s) (principal : String) :
    (revoke out again principal s).Returns fun r => Moves s r.2 := by
  refine (retireAll_returns _ _).andThen ?_
  rintro s' ⟨leases, without, rfl⟩
  refine Moves.one (.withdraws without (.refl _) fun k l kept there => ?_)
  have other : l.principal ≠ principal := fun same =>
    kept (mem_tokensOf (s := { s with revoked := s.revoked.insert principal }) there
      (decide_eq_true same))
  simp only [List.mem_insert_iff, not_or]
  exact ⟨other, backed.trusted k l there⟩

theorem tick_moves (backed : Backed s) : (tick out again s).Returns (Moves s) := by
  refine (retireAll_returns _ _).andThen ?_
  rintro s' ⟨leases, without, rfl⟩
  have change : Change s { s with leases } :=
    .withdraws without (.refl _) fun k l _ there => backed.trusted k l there
  exact (superviseAll_changes _ (change_backed backed change)).mono fun s' changes =>
    .inl (.head change changes)

theorem op_moves (backed : Backed s) (fresh : Fresh out s) (op : SvcOp) :
    (SvcOp.code out again s op).Returns (Moves s) := by
  cases op with
  | activate principal logical ttlMs =>
    exact (activate_moves backed fresh principal logical ttlMs).andThen fun _ moves => moves
  | renew principal token fence ttlMs => exact renew_moves fresh principal token fence ttlMs
  | renewSeq principal token fence seq ttlMs =>
    exact renewSeq_moves fresh principal token fence seq ttlMs
  | release principal token fence =>
    exact (release_moves backed principal token fence).andThen fun _ moves => moves
  | grant principal g =>
    change Moves s (grant out principal g s).2
    unfold grant
    split
    · exact .none s
    · exact .one (.withdraws (.refl _) (.refl _) fun k l _ there listed =>
        backed.trusted k l there (List.mem_filter.mp listed).1)
  | revoke principal => exact (revoke_moves backed principal).andThen fun _ moves => moves
  | tick => exact tick_moves backed

/-! ### Sequences of operations -/

/-- Every lease was there before with its fence, or the store had counted less for its id. -/
structure Follows (s s' : Svc) : Prop extends Continues s s' where
  leases : ∀ g f, Leased s' g f → Leased s g f ∨ ∀ n, s.db.fences.get g = some n → n < f

theorem Follows.refl (s : Svc) : Follows s s :=
  ⟨⟨List.Subset.refl _, .refl _, fun _ _ absent => absent⟩, fun _ _ leased => .inl leased⟩

theorem Follows.trans (h : Follows s₁ s₂) (h' : Follows s₂ s₃) : Follows s₁ s₃ := by
  refine ⟨h.toContinues.trans h'.toContinues, fun g f leased => ?_⟩
  obtain before | above := h'.leases g f leased
  · exact h.leases g f before
  · refine .inr fun n count => ?_
    obtain ⟨n', count', le⟩ := h.fences g n count
    exact Nat.lt_of_le_of_lt le (above n' count')

theorem changes_keep (backed : Backed s) (h : Relation.ReflTransGen Change s s') :
    Backed s' ∧ Continues s s' ∧ ∀ g f, Leased s' g f → Leased s g f := by
  induction h with
  | refl => exact ⟨backed, (Follows.refl s).toContinues, fun _ _ leased => leased⟩
  | tail _ change ih =>
    exact ⟨change_backed ih.1 change, ih.2.1.trans (change_continues change),
      fun g f leased => ih.2.2 g f (change_leased change leased)⟩

theorem step_keeps (backed : Backed s) (step : Step again s s') :
    Backed s' ∧ Continues s s' ∧ ∀ g f, Leased s' g f → Leased s g f ∨
      (∀ f', ¬ Leased s g f') ∧ ∀ n, s.db.fences.get g = some n → n < f := by
  obtain ⟨out, op, fresh, yields⟩ := step
  obtain changes | enters := (op_moves backed fresh op).yields yields
  · obtain ⟨backed', continues, leases⟩ := changes_keep backed changes
    exact ⟨backed', continues, fun g f leased => .inl (leases g f leased)⟩
  · exact ⟨enters_backed backed enters, enters_continues enters, fun _ _ => enters_leased enters⟩

theorem reaches_keeps (backed : Backed s) (reached : Reaches again s s') :
    Backed s' ∧ Follows s s' := by
  induction reached with
  | refl => exact ⟨backed, .refl s⟩
  | tail _ step ih =>
    obtain ⟨backed', continues, leases⟩ := step_keeps ih.1 step
    exact ⟨backed', ih.2.trans ⟨continues, fun g f leased => (leases g f leased).imp_right (·.2)⟩⟩

theorem opened_backed (grants : Table String Grant) (revoked : List String) (db : Db)
    (restart : String → Option RestartPolicy) : Backed (.opened grants revoked db restart) := by
  refine ⟨⟨?_, ?_, Nat.zero_le _, ?_⟩, ?_, ?_⟩ <;> simp [Svc.opened]

/-- Some operation takes the token for a lease. -/
def Accepts (s : Svc) (token : String) : Prop :=
  (∃ out principal fence l, s.validate out principal token fence = .ok l) ∨
    (∃ out principal fence seq ttlMs r,
      (renewSeq out principal token fence seq ttlMs s).1 = .ok r) ∨
    ∃ out again principal fence r s',
      (release out again principal token fence s).Yields (.ok r, s')

theorem not_accepts (absent : s.leases.get token = none) : ¬ Accepts s token := by
  have invalid : ∀ out principal fence l, s.validate out principal token fence ≠ .ok l :=
    fun _ _ _ _ valid => by simp [(validate_ok valid).1] at absent
  rintro (⟨out, principal, fence, l, valid⟩ | ⟨out, principal, fence, seq, ttlMs, r, renewed⟩ |
    ⟨out, again, principal, fence, r, s', released⟩)
  · exact invalid _ _ _ _ valid
  · simp only [renewSeq, absent, Option.filter_none, renewNext] at renewed
    split at renewed
    · cases renewed
    split at renewed
    · cases renewed
    split at renewed
    next => cases renewed
    next l valid => exact invalid _ _ _ _ valid
  · simp only [release, absent] at released
    cases released

/-- Over every sequence of operations, with fresh tokens: the lease table is sound, a token that is
out stays out, a lease keeps its fence, and the next lease of its id has a larger one. -/
theorem leases_hold {grants : Table String Grant} {revoked : List String} {db : Db}
    {restart : String → Option RestartPolicy}
    (reached : Reaches again (.opened grants revoked db restart) s) : Sound s ∧
      (∀ token ∈ s.issued, s.leases.get token = none →
        ∀ s', Reaches again s s' → ¬ Accepts s' token) ∧
      (∀ s', Step again s s' → ∀ g f f', Leased s g f → Leased s' g f' → f' = f) ∧
      ∀ between s', Reaches again s between → Reaches again between s' → ∀ g f f', Leased s g f →
        (∀ f'', ¬ Leased between g f'') → Leased s' g f' → f < f' := by
  have backed := (reaches_keeps (opened_backed grants revoked db restart) reached).1
  refine ⟨backed.toSound, fun token known absent s' later => ?_,
    fun s' step g f f' leased leased' => ?_,
    fun between s' first second g f f' leased free leased' => ?_⟩
  · exact not_accepts ((reaches_keeps backed later).2.gone token known absent)
  · obtain ⟨t', l', there', same', rfl⟩ | ⟨free, -⟩ := (step_keeps backed step).2.2 g f' leased'
    · obtain ⟨t, l, there, same, rfl⟩ := leased
      have token := backed.sole t' t l' l there' there (same'.trans same.symm)
      rw [token, there, Option.some.injEq] at there'
      rw [there']
    · exact absurd leased (free f)
  · obtain ⟨backed', follows⟩ := reaches_keeps backed first
    obtain before | above := (reaches_keeps backed' second).2.leases g f' leased'
    · exact absurd before (free f')
    · obtain ⟨t, l, there, rfl, rfl⟩ := leased
      obtain ⟨n, count, le⟩ := backed.fenced t l there
      obtain ⟨n', count', le'⟩ := follows.fences _ n count
      exact Nat.lt_of_le_of_lt (Nat.le_trans le le') (above n' count')

/-- Everything works, and the clock stands still. -/
def steady (token : String) : Outside where
  now := 0
  token := .ok token
  recorded := .ok ()
  durable := .ok ()
  childRunning _ := true
  materialized _ := .ok ()
  parsed logical := .ok { provider with id := logical }
  named _ _ h := by cases h; rfl

/-- A service whose operator lets "ops" run "p". -/
def oneGrant : Svc := .opened ⟨[("ops", ⟨["p"], []⟩)], by simp⟩ [] .fresh fun _ => none

/-- A reachable state with a lease under "t1". -/
theorem activated_once (P : Svc → Bool)
    (h : (alone (kernel 2) (SvcOp.code (steady "t1") (reconcile 2)
      oneGrant (.activate "ops" "p" 1000)) (.boot 0)).any (fun r => P r.1) = true) :
    ∃ s, Reaches (reconcile 2) oneGrant s ∧ P s = true := by
  obtain ⟨s, yields, holds⟩ := alone_yields h
  exact ⟨s, .single ⟨steady "t1", _, fun _ _ => List.not_mem_nil, yields⟩, holds⟩

/-- A renewal puts the old token out for good. -/
theorem renewed_token_out : ∃ s, Reaches (reconcile 2) oneGrant s ∧
    (s.leases.get "t2").isSome = true ∧ ∀ s', Reaches (reconcile 2) s s' → ¬ Accepts s' "t1" := by
  let renewed (s : Svc) : Svc := (renew (steady "t2") "ops" "t1" 1 1000 s).2
  obtain ⟨s, reached, shown⟩ := activated_once (fun s => decide ("t2" ∉ s.issued ∧
    "t1" ∈ (renewed s).issued ∧ ((renewed s).leases.get "t1").isNone = true ∧
    ((renewed s).leases.get "t2").isSome = true)) (by decide +kernel)
  obtain ⟨fresh, known, out, there⟩ := of_decide_eq_true shown
  have step : Step (reconcile 2) s (renewed s) := by
    refine ⟨steady "t2", .renew "ops" "t1" 1 1000, fun token drawn => ?_, .pure _⟩
    cases drawn
    exact fresh
  have whole := reached.tail step
  exact ⟨renewed s, whole, there,
    (leases_hold whole).2.1 "t1" known (Option.isNone_iff_eq_none.mp out)⟩

/-! ### Retried renewals -/

/-- A call of `renew_seq` made again and again, with its answers. -/
def retries (principal token : String) (fence seq ttlMs : Nat) :
    List Outside → Svc → List (Except String Renewed) × Svc
  | [], s => ([], s)
  | out :: outs, s =>
    let (answer, s) := renewSeq out principal token fence seq ttlMs s
    let (answers, s) := retries principal token fence seq ttlMs outs s
    (answer :: answers, s)

variable {principal token : String} {fence seq ttlMs : Nat}

theorem renewSeq_replays (ttl : validTtl ttlMs = true) (positive : seq ≠ 0)
    (there : s.leases.get token = some l) (replays : l.replays out principal fence seq = true) :
    renewSeq out principal token fence seq ttlMs s = (.ok ⟨l.token, fence, ttlMs, true⟩, s) := by
  have found : (s.leases.get token).filter (fun l => l.replays out principal fence seq) = some l :=
    Option.filter_eq_some_iff.mpr ⟨there, replays⟩
  simp [renewSeq, ttl, positive, found]

/-- A lease that has served the number answers every retry alike, and stays as it is. -/
theorem retries_replay (ttl : validTtl ttlMs = true) (positive : seq ≠ 0)
    (there : s.leases.get token = some l) (outs : List Outside)
    (replays : ∀ o ∈ outs, l.replays o principal fence seq = true) :
    (∀ a ∈ (retries principal token fence seq ttlMs outs s).1, a.map Renewed.lease = .ok l.token) ∧
      (retries principal token fence seq ttlMs outs s).2 = s := by
  induction outs with
  | nil => exact ⟨fun _ none => absurd none List.not_mem_nil, rfl⟩
  | cons o outs ih =>
    have again := renewSeq_replays ttl positive there (replays o List.mem_cons_self)
    obtain ⟨answers, same⟩ := ih fun o' later => replays o' (List.mem_cons_of_mem o later)
    simp only [retries, again]
    refine ⟨fun a listed => ?_, same⟩
    obtain rfl | later := List.mem_cons.mp listed
    · rfl
    · exact answers a later

/-- How a call of `renew_seq` succeeds. -/
theorem renewSeq_ok {r : Renewed}
    (h : renewSeq out principal token fence seq ttlMs s = (.ok r, s')) :
    validTtl ttlMs = true ∧ seq ≠ 0 ∧ ∃ l, s.leases.get token = some l ∧
      l.replays out principal fence l.renewSeq = true ∧
      (l.renewSeq = seq ∧ r.lease = l.token ∧ s' = s ∨ l.renewSeq ≠ seq ∧ out.token = .ok r.lease ∧
          s' = s.rotate out token r.lease l ttlMs seq) := by
  unfold renewSeq at h
  split at h
  · cases h
  split at h
  · cases h
  next ttl positive =>
    refine ⟨by simpa using ttl, positive, ?_⟩
    split at h
    next l found =>
      obtain ⟨there, replays⟩ := Option.filter_eq_some_iff.mp found
      have served : l.renewSeq = seq := (of_decide_eq_true replays).2.2.1
      cases h
      exact ⟨l, there, by rw [served]; exact replays, .inl ⟨served, rfl, rfl⟩⟩
    next unserved =>
      unfold renewNext at h
      split at h
      · cases h
      next l valid =>
        obtain ⟨there, replays⟩ := validate_ok valid
        split at h
        · cases h
        split at h
        · cases h
        next new drawn =>
          cases h
          refine ⟨l, there, replays, .inr ⟨fun served => ?_, drawn, rfl⟩⟩
          rw [served] at replays
          rw [Option.filter_eq_some_iff.mpr ⟨there, replays⟩] at unserved
          cases unserved

/-- While the lease lasts, retries return the same token and leave everything as it is. -/
def Idempotent (principal token : String) (fence seq ttlMs : Nat) (r : Renewed) (s : Svc) : Prop :=
  ∀ outs, (∀ o ∈ outs, ∀ l, s.leases.get r.lease = some l → o.now < l.deadline) →
    (∀ a ∈ (retries principal token fence seq ttlMs outs s).1, a.map Renewed.lease = .ok r.lease) ∧
      (retries principal token fence seq ttlMs outs s).2 = s

/-- A successful `renew_seq` can be retried exactly when it was a retry itself, or drew the token
it was given. -/
theorem renewSeq_idempotent_iff {r : Renewed} (sound : Sound s)
    (first : renewSeq out principal token fence seq ttlMs s = (.ok r, s')) :
    Idempotent principal token fence seq ttlMs r s' ↔
      (∃ l, s.leases.get token = some l ∧ l.renewSeq = seq) ∨ out.token = .ok token := by
  obtain ⟨ttl, positive, l, there, replays, ⟨served, answer, rfl⟩ | ⟨unserved, drawn, rfl⟩⟩ :=
    renewSeq_ok first
  · have own := sound.own token l there
    refine ⟨fun _ => .inl ⟨l, there, served⟩, fun _ outs live => ?_⟩
    rw [answer]
    refine retries_replay ttl positive there outs fun o listed => ?_
    have now := live o listed l (by rw [answer, own]; exact there)
    simp only [Lease.replays, decide_eq_true_eq] at replays ⊢
    exact ⟨replays.1, replays.2.1, served, now, replays.2.2.2.2⟩
  · let l' : Lease := { l with token := r.lease, deadline := out.now + ttlMs, renewSeq := seq }
    have stored : (s.rotate out token r.lease l ttlMs seq).leases.get r.lease = some l' := by
      simp [Svc.rotate, Table.put_get, l']
    constructor
    · intro idempotent
      by_contra other
      rw [not_or, drawn, Except.ok.injEq] at other
      have gone : (s.rotate out token r.lease l ttlMs seq).leases.get token = none := by
        simp [Svc.rotate, Table.put_get, Table.erase_get, Ne.symm other.2]
      have live : ∀ o ∈ [out], ∀ l₁, (s.rotate out token r.lease l ttlMs seq).leases.get r.lease =
          some l₁ → o.now < l₁.deadline := by
        intro o listed l₁ found
        rw [stored, Option.some.injEq] at found
        rw [← found, List.mem_singleton.mp listed]
        have long := (of_decide_eq_true ttl).1
        simp only [l']
        omega
      have answer : (renewSeq out principal token fence seq ttlMs
          (s.rotate out token r.lease l ttlMs seq)).1.map Renewed.lease = .ok r.lease :=
        (idempotent [out] live).1 _ List.mem_cons_self
      cases renewed : (renewSeq out principal token fence seq ttlMs
          (s.rotate out token r.lease l ttlMs seq)).1 with
      | error e =>
        rw [renewed] at answer
        cases answer
      | ok r' => exact not_accepts gone (.inr (.inl ⟨_, _, _, _, _, _, renewed⟩))
    · rintro (⟨l₁, there', served⟩ | redrawn) outs live
      · rw [there, Option.some.injEq] at there'
        exact absurd (there' ▸ served) unserved
      · have same : r.lease = token := by simpa [drawn] using redrawn
        refine retries_replay (l := l') ttl positive (same ▸ stored) outs fun o listed => ?_
        have now := live o listed l' stored
        simp only [Lease.replays, decide_eq_true_eq] at replays ⊢
        exact ⟨replays.1, replays.2.1, rfl, now, replays.2.2.2.2⟩

/-- The renewal of a lease that has served no number is not idempotent. -/
theorem first_renewal_not_idempotent : ∃ s r s', Reaches (reconcile 2) oneGrant s ∧
    renewSeq (steady "t2") "ops" "t1" 1 1 1000 s = (.ok r, s') ∧
    ¬ Idempotent "ops" "t1" 1 1 1000 r s' := by
  obtain ⟨s, reached, shown⟩ := activated_once (fun s => decide (
    (renewSeq (steady "t2") "ops" "t1" 1 1 1000 s).1.isOk = true ∧
    (s.leases.get "t1").all (fun l => decide (l.renewSeq ≠ 1)) = true)) (by decide +kernel)
  obtain ⟨succeeds, unserved⟩ := of_decide_eq_true shown
  cases first : renewSeq (steady "t2") "ops" "t1" 1 1 1000 s with
  | mk answer s' =>
    cases answer with
    | error e => simp [first, Except.isOk, Except.toBool] at succeeds
    | ok r =>
      have sound := (reaches_keeps (opened_backed ..) reached).1.toSound
      refine ⟨s, r, s', reached, first, fun idempotent => ?_⟩
      obtain ⟨l, there, served⟩ | drawn := (renewSeq_idempotent_iff sound first).mp idempotent
      · simp [there, served] at unserved
      · exact absurd (Except.ok.inj drawn) (by decide)

/-- The answer to the first renewal is lost; its retry is refused, although the lease lives on. -/
theorem lost_renewal_refused : ∃ s, Reaches (reconcile 2) oneGrant s ∧
    (renewSeq (steady "t2") "ops" "t1" 1 1 1000 s).1 = .ok ⟨"t2", 1, 1000, false⟩ ∧
    (renewSeq (steady "t3") "ops" "t1" 1 1 1000
      (renewSeq (steady "t2") "ops" "t1" 1 1 1000 s).2).1 = .error "stale-generation" ∧
    (((renewSeq (steady "t2") "ops" "t1" 1 1 1000 s).2).leases.get "t2").any
      (fun l => decide (0 < l.deadline)) = true := by
  obtain ⟨s, reached, shown⟩ := activated_once (fun s => decide (
    (renewSeq (steady "t2") "ops" "t1" 1 1 1000 s).1 = .ok ⟨"t2", 1, 1000, false⟩ ∧
    (renewSeq (steady "t3") "ops" "t1" 1 1 1000
      (renewSeq (steady "t2") "ops" "t1" 1 1 1000 s).2).1 = .error "stale-generation" ∧
    (((renewSeq (steady "t2") "ops" "t1" 1 1 1000 s).2).leases.get "t2").any
      (fun l => decide (0 < l.deadline)) = true)) (by decide +kernel)
  exact ⟨s, reached, of_decide_eq_true shown⟩

end MatrixRuntime.LeaseRuns
