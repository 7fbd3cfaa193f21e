import MatrixRuntime.RuntimeService

/-! The route's liveness watcher. At each poll it samples the providers that are live for the peer
and sends a `revoke.notice` for what the sample before had and this one has not. -/

namespace MatrixRuntime.RouteWatch

open KeyedTable RuntimeService

def live (principal : String) (now : Nat) (l : Lease) : Bool :=
  l.principal == principal && decide (now < l.deadline) && !l.failed && l.retry.isNone

/-- A logical id is listed once, under the fence of the first lease met. -/
def push (out : List (String × Nat)) (l : Lease) : List (String × Nat) :=
  if out.any fun row => row.1 == l.logical then out else out ++ [(l.logical, l.fence)]

def rowLe (a b : String × Nat) : Bool :=
  decide (a.1 < b.1) || (a.1 == b.1 && decide (a.2 ≤ b.2))

def liveProviderFences (leases : Table String Lease) (now : Nat) (principal : String) :
    List (String × Nat) :=
  (((leases.entries.map Prod.snd).filter (live principal now)).foldl push []).mergeSort rowLe

/-- What the watcher finds when it wakes. -/
structure Poll where
  detached : Bool
  now : Nat
  leases : Table String Lease

/-- A map by logical id, kept as its rows: `push` lists a logical id once. -/
def sample (principal : String) (p : Poll) : List (String × Nat) :=
  liveProviderFences p.leases p.now principal

def revoked (last cur : List (String × Nat)) : List (String × Nat) :=
  last.filter fun row => !cur.any fun row' => row'.1 == row.1

/-- The notices of each poll, up to the one that finds the session detached. -/
def watch (principal : String) (last : List (String × Nat)) :
    List Poll → List (List (String × Nat))
  | [] => []
  | p :: polls =>
    if p.detached then []
    else revoked last (sample principal p) :: watch principal (sample principal p) polls

/-! ### What a sample holds -/

/-- The fence of the first lease of a logical id that is live at a poll. -/
def fenceAt (principal : String) (p : Poll) (logical : String) : Option Nat :=
  (((p.leases.entries.map Prod.snd).filter (live principal p.now)).find?
    fun l => l.logical == logical).map (·.fence)

theorem mem_pushed (logical : String) (fence : Nat) (ls : List Lease)
    (out : List (String × Nat)) :
    (logical, fence) ∈ ls.foldl push out ↔ (logical, fence) ∈ out ∨
      logical ∉ out.map Prod.fst ∧
        (ls.find? fun l => l.logical == logical).map (·.fence) = some fence := by
  induction ls generalizing out with
  | nil => simp
  | cons l ls ih =>
    rw [List.foldl_cons, ih, push]
    by_cases same : l.logical = logical
    · subst same
      split_ifs with there
      · have listed : l.logical ∈ out.map Prod.fst := by simpa using there
        simp [listed]
      · have fresh : l.logical ∉ out.map Prod.fst := by simpa using there
        simp [fresh, eq_comm]
    · have other : (l.logical == logical) = false := by simpa using same
      split_ifs <;> simp [other, Ne.symm same]

theorem mem_sample {principal : String} {p : Poll} {logical : String} {fence : Nat} :
    (logical, fence) ∈ sample principal p ↔ fenceAt principal p logical = some fence := by
  rw [sample, liveProviderFences, (List.mergeSort_perm _ rowLe).mem_iff, mem_pushed]
  simp [fenceAt]

/-! ### What the watcher notices -/

theorem mem_revoked (principal : String) (p q : Poll) (logical : String) (fence : Nat) :
    (logical, fence) ∈ revoked (sample principal p) (sample principal q) ↔
      fenceAt principal p logical = some fence ∧ fenceAt principal q logical = none := by
  rw [revoked, List.mem_filter, mem_sample, Option.eq_none_iff_forall_ne_some]
  simp only [Bool.not_eq_true', List.any_eq_false, Prod.forall, mem_sample, beq_iff_eq]
  refine and_congr_right fun _ => ⟨fun absent fence' found => absent _ _ found rfl, ?_⟩
  intro absent logical' fence' found same
  exact absent fence' (same ▸ found)

theorem watch_next (principal : String) (polls : List Poll) (i : Nat) {p q : Poll}
    (earlier : polls[i]? = some p) (later : polls[i + 1]? = some q)
    (attached : ∀ x ∈ polls.take (i + 2), x.detached = false) (last : List (String × Nat)) :
    (watch principal last polls)[i + 1]? =
      some (revoked (sample principal p) (sample principal q)) := by
  have step : ∀ (x : Poll) (rest : List Poll) last, x.detached = false →
      watch principal last (x :: rest) =
        revoked last (sample principal x) :: watch principal (sample principal x) rest := by
    intro x rest last there
    rw [watch, there, if_neg Bool.false_ne_true]
  induction i generalizing polls last with
  | zero =>
    obtain _ | ⟨x, _ | ⟨y, rest⟩⟩ := polls
    · cases earlier
    · cases later
    · cases earlier
      cases later
      rw [step p _ _ (attached p (by simp)), step q _ _ (attached q (by simp))]
      rfl
  | succ i ih =>
    obtain _ | ⟨x, rest⟩ := polls
    · cases earlier
    · rw [step x _ _ (attached x (by simp)), List.getElem?_cons_succ]
      exact ih rest earlier later (fun y there => attached y (List.mem_cons_of_mem x there)) _

/-- A lease of a logical id under a fence is live at a poll. -/
def LiveAt (principal : String) (p : Poll) (logical : String) (fence : Nat) : Prop :=
  ∃ row ∈ p.leases.entries, live principal p.now row.2 = true ∧ row.2.logical = logical ∧
    row.2.fence = fence

instance (principal : String) (p : Poll) (logical : String) (fence : Nat) :
    Decidable (LiveAt principal p logical fence) :=
  inferInstanceAs (Decidable (∃ row ∈ p.leases.entries, _))

theorem fenceAt_none {principal : String} {p : Poll} {logical : String} :
    fenceAt principal p logical = none ↔ ∀ fence, ¬LiveAt principal p logical fence := by
  rw [fenceAt, Option.map_eq_none_iff, List.find?_eq_none]
  constructor
  · rintro absent fence ⟨row, there, alive, same, -⟩
    exact absent row.2 (List.mem_filter.mpr ⟨List.mem_map_of_mem there, alive⟩) (by simp [same])
  · intro absent l listed same
    obtain ⟨there, alive⟩ := List.mem_filter.mp listed
    obtain ⟨row, stored, rfl⟩ := List.mem_map.mp there
    exact absent _ ⟨row, stored, alive, by simpa using same, rfl⟩

/-- A pair is noticed exactly when it is the one the sample before kept for its logical id, and no
lease of the logical id is live any more. -/
theorem notice_iff (principal : String) (polls : List Poll) (i : Nat) (p q : Poll)
    (earlier : polls[i]? = some p) (later : polls[i + 1]? = some q)
    (attached : ∀ x ∈ polls.take (i + 2), x.detached = false) (logical : String) (fence : Nat) :
    (∃ notices, (watch principal [] polls)[i + 1]? = some notices ∧
        (logical, fence) ∈ notices) ↔
      fenceAt principal p logical = some fence ∧
        ∀ other, ¬LiveAt principal q logical other := by
  rw [watch_next principal polls i earlier later attached, ← fenceAt_none, ← mem_revoked]
  simp

/-- A poll that finds one lease, of the logical id `db`. -/
def leased (token : String) (fence deadline : Nat) : Poll :=
  ⟨false, 10, Table.empty.put token
    ⟨"peer", "db", token, fence, deadline, ⟨0, 0, 0, "db", 0⟩, false, 0, none, false, ⟨[]⟩, 0⟩⟩

theorem expiry_noticed : ∃ notices,
    (watch "peer" [] [leased "t" 1 20, leased "t" 1 5])[1]? = some notices ∧
      ("db", 1) ∈ notices := by
  refine (notice_iff "peer" [leased "t" 1 20, leased "t" 1 5] 0 _ _ rfl rfl (by decide) "db" 1).mpr
    ⟨by decide, ?_⟩
  exact fenceAt_none.mp (by decide)

/-- The lease is replaced under a new fence between two polls, and no notice tells of the
old one. -/
theorem renewed_fence_unnoticed :
    LiveAt "peer" (leased "t" 1 20) "db" 1 ∧ ¬LiveAt "peer" (leased "u" 2 20) "db" 1 ∧
      ¬∃ notices, (watch "peer" [] [leased "t" 1 20, leased "u" 2 20])[1]? = some notices ∧
        ("db", 1) ∈ notices := by
  refine ⟨by decide, by decide, ?_⟩
  rintro ⟨notices, sent, listed⟩
  rw [watch_next "peer" _ 0 rfl rfl (by decide), Option.some_inj] at sent
  rw [← sent, mem_revoked] at listed
  exact absurd listed.2 (by decide)

end MatrixRuntime.RouteWatch
