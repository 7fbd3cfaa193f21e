import MatrixRuntime.KernelResources
import MatrixRuntime.KernelPublications

/-! What an instance shows in the registry and on the bus, and the resource records that stand
behind it. -/

namespace MatrixRuntime.OwnedPublications

open KernelContexts KernelTickets KernelResources KernelPublications Function

/-- The instance shows a resource of this kind under the logical id. -/
def shown (p : Publications) (logical : String) (inst : InstanceId) : ResourceKind → Prop
  | .cap name => ∃ e, p.caps name = some e ∧ e.logical = logical ∧ e.instanceId = inst
  | .sub topic => ⟨logical, inst⟩ ∈ p.subs topic
  | _ => False

/-- What publishing a resource of the activation leaves. -/
def display (p : Publications) (r : InstanceRef) : ResourceKind → Publications
  | .cap name => p.provideInstance name r
  | .sub topic => p.subscribeInstance r.logical r.instanceId topic
  | _ => p

variable {p : Publications} {logical : String} {inst i : InstanceId} {kind k : ResourceKind}

theorem shown_revokeCap {name : String} (h : shown (p.revokeCapIfOwned name inst) logical i k) :
    shown p logical i k ∧ ¬ (i = inst ∧ k = .cap name) := by
  unfold Publications.revokeCapIfOwned at h
  cases found : p.caps name with
  | none =>
    rw [found] at h
    refine ⟨h, ?_⟩
    rintro ⟨-, rfl⟩
    obtain ⟨e, there, -⟩ := h
    simp [found] at there
  | some e =>
    simp only [found] at h
    split at h
    next =>
      cases k with
      | cap name' =>
        obtain ⟨e', there, rest⟩ := h
        by_cases same : name' = name
        · subst same
          simp at there
        · simp only [update_of_ne same] at there
          exact ⟨⟨e', there, rest⟩, by simp [same]⟩
      | sub topic => exact ⟨h, by simp⟩
      | _ => exact h.elim
    next other =>
      refine ⟨h, ?_⟩
      rintro ⟨rfl, rfl⟩
      obtain ⟨e', there, -, own⟩ := h
      cases found.symm.trans there
      exact other (.inl own)

theorem shown_unsubscribe {topic : String}
    (h : shown (p.unsubscribeTopicIfOwned inst topic) logical i k) :
    shown p logical i k ∧ ¬ (i = inst ∧ k = .sub topic) := by
  cases k with
  | cap name => exact ⟨h, by simp⟩
  | sub topic' =>
    simp only [shown, Publications.unsubscribeTopicIfOwned] at h
    by_cases same : topic' = topic
    · subst same
      rw [update_self, List.mem_filter] at h
      refine ⟨h.1, ?_⟩
      rintro ⟨rfl, -⟩
      simp at h
    · rw [update_of_ne same] at h
      exact ⟨h, by simp [same]⟩
  | _ => exact h.elim

theorem shown_display {r : InstanceRef} (h : shown (display p r kind) logical i k) :
    shown p logical i k ∨ (k = kind ∧ logical = r.logical ∧ i = r.instanceId) := by
  cases kind with
  | cap name =>
    cases k with
    | cap name' =>
      obtain ⟨e, there, rfl, rfl⟩ := h
      simp only [display, Publications.provideInstance] at there
      by_cases same : name' = name
      · subst same
        rw [update_self] at there
        cases there
        exact .inr ⟨rfl, rfl, rfl⟩
      · rw [update_of_ne same] at there
        exact .inl ⟨e, there, rfl, rfl⟩
    | sub topic => exact .inl h
    | _ => exact h.elim
  | sub topic =>
    simp only [display, Publications.subscribeInstance] at h
    split at h
    next => exact .inl h
    next =>
      cases k with
      | cap name => exact .inl h
      | sub topic' =>
        simp only [shown] at h
        by_cases same : topic' = topic
        · subst same
          rw [update_self, List.mem_append, List.mem_singleton] at h
          rcases h with before | now
          · exact .inl before
          · cases now
            exact .inr ⟨rfl, rfl, rfl⟩
        · rw [update_of_ne same] at h
          exact .inl h
      | _ => exact h.elim
  | _ => exact .inl h

theorem issued_ne_next {t : ResourceTable} {h : ResourceHandle} {r : ResourceRecord}
    (found : t.records h = some r) : h ≠ t.nextHandle :=
  Nat.ne_of_lt (t.issued h r found).2

end MatrixRuntime.OwnedPublications
