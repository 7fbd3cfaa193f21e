import MatrixRuntime.LeaseRuns

/-! Reloading the configuration through the runtime facade. A reload revokes what the remembered
baseline had and the new configuration has not, and grants what the new one lists; authority that
was granted directly is in neither. -/

namespace MatrixRuntime.RuntimeGrants

open KernelActions KeyedTable SequentialRuns RuntimeService LeaseRuns
open KernelReconcile (reconcile)
open KernelOperations (kernel)

/-- The runtime facade: the service, and the grants of the configuration that was last applied. -/
structure Facade where
  service : Svc
  active : Table String Grant

/-- A candidate configuration: its grants, what its validation has to say, and what applying its
remote routes does. -/
structure Candidate where
  grants : Table String Grant
  diagnostics : List String
  remotes : List String

structure ReloadReport where
  grantsApplied : Bool
  revoked : List String
  errors : List String

/-- Revoke principals in turn; those whose revocation failed, and the errors. -/
def revokeAll (outs : String → Outside) (again : KProg Unit) :
    List String → Svc → KProg (List String × List String × Svc)
  | [], s => pure ([], [], s)
  | principal :: principals, s => do
    let (result, s) ← revoke (outs principal) again principal s
    let (failed, errors, s) ← revokeAll outs again principals s
    match result with
    | .ok _ => pure (failed, errors, s)
    | .error e => pure (principal :: failed, s!"revoke {principal}: {e}" :: errors, s)

/-- Grant in turn; the principals whose grant failed, and the errors. -/
def grantAll (outs : String → Outside) :
    List (String × Grant) → Svc → List String × List String × Svc
  | [], s => ([], [], s)
  | (principal, g) :: grants, s =>
    let (result, s) := grant (outs principal) principal g s
    let (failed, errors, s) := grantAll outs grants s
    match result with
    | .ok _ => (failed, errors, s)
    | .error e => (principal :: failed, s!"grants.{principal}: {e}" :: errors, s)

/-- The baseline after a reload mirrors what was applied. -/
def mergeAppliedGrants (old new : Table String Grant) (grantFailed revokeFailed : List String) :
    Table String Grant :=
  let applied := new.entries.foldl (fun t row =>
    if grantFailed.contains row.1 then
      match old.get row.1 with
      | some g => t.put row.1 g
      | none => t
    else t.put row.1 row.2) Table.empty
  old.entries.foldl (fun t row =>
    if (new.get row.1).isNone && revokeFailed.contains row.1 then t.put row.1 row.2 else t) applied

def droppedBy (active new : Table String Grant) : List String :=
  (active.entries.map Prod.fst).filter fun p => (new.get p).isNone

def reload (outs : String → Outside) (again : KProg Unit) (new : Candidate) (f : Facade) :
    KProg (Except (List String) ReloadReport × Facade) :=
  if !new.diagnostics.isEmpty then pure (.error new.diagnostics, f)
  else do
    let dropped := droppedBy f.active new.grants
    let (revokeFailed, revokeErrors, s) ← revokeAll outs again dropped f.service
    let (grantFailed, grantErrors, s) := grantAll outs new.grants.entries s
    pure (.ok ⟨grantFailed.isEmpty && revokeFailed.isEmpty,
        dropped.filter fun p => !revokeFailed.contains p,
        revokeErrors ++ grantErrors ++ new.remotes⟩,
      ⟨s, mergeAppliedGrants f.active new.grants grantFailed revokeFailed⟩)

/-- The authorized principals and their capabilities are those of the grants. -/
def Exact (grants : Table String Grant) (s : Svc) : Prop :=
  (∀ p, s.authorized p = true ↔ (grants.get p).isSome = true) ∧
    ∀ p g, grants.get p = some g → ∀ cap, s.grantCovers p cap = g.capabilities.contains cap

variable {outs : String → Outside} {again : KProg Unit}

theorem revokeAll_returns (principals : List String) (s : Svc) :
    (revokeAll outs again principals s).Returns fun r => r.2.2.grants = s.grants ∧
      ∀ q, q ∈ r.2.2.revoked ↔ q ∈ s.revoked ∨ q ∈ principals := by
  induction principals generalizing s with
  | nil => exact ⟨rfl, fun q => by simp⟩
  | cons principal principals ih =>
    have marks : (revoke (outs principal) again principal s).Returns fun r =>
        r.2.grants = s.grants ∧ r.2.revoked = s.revoked.insert principal := by
      refine (retireAll_returns _ _).andThen ?_
      rintro s' ⟨leases, -, rfl⟩
      exact ⟨rfl, rfl⟩
    refine marks.andThen ?_
    rintro ⟨result, s₁⟩ ⟨grants, revoked⟩
    refine (ih s₁).andThen ?_
    rintro ⟨failed, errors, s₂⟩ ⟨grants', revoked'⟩
    have final : s₂.grants = s.grants ∧ ∀ q, q ∈ s₂.revoked ↔
        q ∈ s.revoked ∨ q ∈ principal :: principals := by
      refine ⟨grants'.trans grants, fun q => ?_⟩
      simp only at revoked revoked'
      rw [revoked', revoked, List.mem_insert_iff, List.mem_cons]
      tauto
    cases result <;> exact final

theorem grantAll_ok (grants : List (String × Grant)) (unique : (grants.map Prod.fst).Nodup)
    (s : Svc)
    (ok : (grantAll outs grants s).2.1 = []) :
    (∀ q, (grantAll outs grants s).2.2.grants.get q =
      (grants.lookup q).or (s.grants.get q)) ∧
    ∀ q, q ∈ (grantAll outs grants s).2.2.revoked ↔ q ∈ s.revoked ∧ q ∉ grants.map Prod.fst := by
  induction grants generalizing s with
  | nil => exact ⟨fun q => rfl, fun q => by simp [grantAll]⟩
  | cons row grants ih =>
    obtain ⟨principal, g⟩ := row
    obtain ⟨alone, unique⟩ := List.nodup_cons.mp unique
    simp only [grantAll] at ok ⊢
    unfold grant at ok ⊢
    cases durable : (outs principal).durable with
    | error e => simp [durable] at ok
    | ok _ =>
      simp only [durable] at ok ⊢
      obtain ⟨gets, marks⟩ := ih unique _ ok
      refine ⟨fun q => ?_, fun q => ?_⟩
      · rw [gets q, Table.put_get, List.lookup_cons]
        by_cases same : q = principal
        · subst same
          have absent : grants.lookup q = none := List.lookup_eq_none_iff.mpr fun row there =>
            by simpa using fun here : q = row.1 => alone (List.mem_map.mpr ⟨row, there, here.symm⟩)
          simp [absent]
        · have other : (q == principal) = false := by simpa using same
          simp [same, other]
      · rw [marks q, List.map_cons, List.mem_cons, List.mem_filter]
        simp only [bne_iff_ne, ne_eq]
        tauto

/-- After a reload without errors the authority is that of the new configuration exactly when
everybody who was authorized is in the baseline or in the new configuration. -/
theorem reload_exact_iff (new : Candidate) (f : Facade) :
    (reload outs again new f).Returns fun r => ∀ report, r.1 = .ok report → report.errors = [] →
      (Exact new.grants r.2.service ↔ ∀ p, f.service.authorized p = true →
        (f.active.get p).isSome = true ∨ (new.grants.get p).isSome = true) := by
  unfold reload
  split
  · rintro report ⟨⟩
  refine (revokeAll_returns _ _).andThen ?_
  rintro ⟨revokeFailed, revokeErrors, s₁⟩ ⟨grants, revoked⟩ report reported clean
  cases reported
  obtain ⟨⟨-, granted⟩, -⟩ := (List.append_eq_nil_iff.mp clean).imp_left List.append_eq_nil_iff.mp
  obtain ⟨gets, marks⟩ := grantAll_ok new.grants.entries new.grants.unique s₁ granted
  change Exact new.grants (grantAll outs new.grants.entries s₁).2.2 ↔ _
  generalize (grantAll outs new.grants.entries s₁).2.2 = s₂ at gets marks
  simp only at grants revoked
  have listed : ∀ p g, new.grants.get p = some g → s₂.grants.get p = some g ∧ p ∉ s₂.revoked := by
    intro p g there
    refine ⟨(gets p).trans (by rw [show new.grants.entries.lookup p = some g from there]; rfl), ?_⟩
    rw [marks p]
    exact fun h => h.2 (List.mem_map.mpr ⟨(p, g), Table.get_eq_some.mp there, rfl⟩)
  have others : ∀ p, new.grants.get p = none → (s₂.authorized p = true ↔
      f.service.authorized p = true ∧ (f.active.get p).isSome = false) := by
    intro p absent
    have same := gets p
    rw [show new.grants.entries.lookup p = none from absent, Option.none_or, grants] at same
    have dropped : p ∈ droppedBy f.active new.grants ↔ (f.active.get p).isSome = true := by
      rw [droppedBy, List.mem_filter, absent, Option.isNone_none, and_iff_left rfl, ← not_iff_not,
        ← Table.get_eq_none]
      simp
    have mark : p ∈ s₂.revoked ↔ p ∈ f.service.revoked ∨ (f.active.get p).isSome = true := by
      rw [marks p, revoked p, dropped, and_iff_left (Table.get_eq_none.mp absent)]
    simp only [Svc.authorized, same, Bool.and_eq_true, Bool.not_eq_true', ← Bool.not_eq_true,
      List.contains_iff_mem, mark]
    tauto
  constructor
  · intro holds p before
    by_contra missing
    simp only [not_or, Bool.not_eq_true] at missing
    have absent : new.grants.get p = none := by simpa using missing.2
    have kept := (others p absent).mpr ⟨before, missing.1⟩
    rw [holds.1 p, missing.2] at kept
    contradiction
  · refine fun known => ⟨fun p => ?_, fun p g there cap => ?_⟩
    · cases there : new.grants.get p with
      | none =>
        rw [others p there]
        refine iff_of_false (fun h => ?_) (by simp)
        have old := known p h.1
        simp [there, h.2] at old
      | some g =>
        obtain ⟨found, trusted⟩ := listed p g there
        simpa [Svc.authorized, found] using trusted
    · obtain ⟨found, trusted⟩ := listed p g there
      simp [Svc.grantCovers, found, trusted]

/-- "b" is granted directly, and survives the reload of an empty configuration. -/
theorem direct_grant_survives : (alone (kernel 1) (reload (fun _ => steady "t") (reconcile 1)
    ⟨.empty, [], []⟩ ⟨(grant (steady "t") "b" ⟨[], ["x"]⟩ (.opened .empty [] .fresh fun _ => none)).2,
      .empty⟩) (.boot 0)).any (fun r => (r.1.1.toOption.any fun report => report.errors.isEmpty) &&
        r.1.2.service.authorized "b" && r.1.2.service.grantCovers "b" "x") = true := by
  decide +kernel

end MatrixRuntime.RuntimeGrants
