import Mathlib.Logic.Relation
import MatrixRuntime.CycleSearch

/-! The consumers of a component, direct and indirect, as the reconciler collects them over the
reversed edges. -/

namespace MatrixRuntime.ConsumerClosure

open DependencyGraph TopologicalOrder CycleSearch

structure Closure where
  seen : List String
  stack : List String
  out : List String

def Closure.visit (s : Closure) (c : String) : Closure :=
  if c ∈ s.seen then s else ⟨s.seen ++ [c], c :: s.stack, s.out ++ [c]⟩

/-- The body of the loop for the node on top of the stack. -/
def Closure.step (edges : Edges) (s : Closure) : Closure :=
  match s.stack with
  | [] => s
  | n :: rest => (sorted (consumersOf edges n)).foldl Closure.visit { s with stack := rest }

/-- Every step takes a node off the stack, onto which each node comes once. -/
def transitiveConsumers (target : String) (edges : Edges) : List String :=
  let last := (Closure.step edges)^[(nodesOf edges).length + 1] ⟨[target], [target], []⟩
  sorted last.out

variable {edges : Edges} {target n c : String}

theorem mem_consumersOf (keyed : Keyed edges) : c ∈ consumersOf edges n ↔ Requires edges c n := by
  rw [← List.count_pos_iff, count_consumersOf keyed, List.count_pos_iff]

/-- Between two steps, and within one while the consumers `due` are still to be visited: what is
seen reaches the target, and the consumers of what is seen and not stacked are seen or due. -/
structure Closing (edges : Edges) (target : String) (steps : Nat) (due : List String)
    (s : Closure) : Prop where
  seen : s.seen = target :: s.out
  nodup : s.seen.Nodup
  reach : ∀ n ∈ s.seen ++ due, Relation.ReflTransGen (Requires edges) n target
  nodes : ∀ n ∈ s.out ++ due, n ∈ nodesOf edges
  stacked : ∀ n ∈ s.stack, n ∈ s.seen
  expanded : ∀ n ∈ s.seen, n ∈ s.stack ∨ ∀ c, Requires edges c n → c ∈ s.seen ++ due
  count : s.out.length + 1 = s.stack.length + steps

variable {steps : Nat} {due : List String} {s : Closure}

theorem Closing.visit (h : Closing edges target steps (c :: due) s) :
    Closing edges target steps due (s.visit c) := by
  obtain ⟨seen, nodup, reach, nodes, stacked, expanded, count⟩ := h
  unfold Closure.visit
  split_ifs with old
  · refine ⟨seen, nodup, ?_, ?_, stacked, ?_, count⟩ <;> grind
  · constructor <;> grind

theorem Closing.visits (h : Closing edges target steps due s) :
    Closing edges target steps [] (due.foldl Closure.visit s) := by
  induction due generalizing s with
  | nil => exact h
  | cons c due ih => exact ih h.visit

theorem Closing.step (keyed : Keyed edges) (h : Closing edges target steps [] s)
    (some : s.stack ≠ []) : Closing edges target (steps + 1) [] (s.step edges) := by
  obtain ⟨seen, nodup, reach, nodes, stacked, expanded, count⟩ := h
  unfold Closure.step
  cases stack : s.stack with
  | nil => exact absurd stack some
  | cons n rest =>
    have consumer : ∀ c, c ∈ sorted (consumersOf edges n) ↔ Requires edges c n := fun c => by
      rw [mem_sorted, mem_consumersOf keyed]
    have back : Relation.ReflTransGen (Requires edges) n target :=
      reach n (List.mem_append_left _ (stacked n (by simp [stack])))
    have onward : ∀ c, Requires edges c n → Relation.ReflTransGen (Requires edges) c target :=
      fun c link => .head link back
    have node : ∀ c, Requires edges c n → c ∈ nodesOf edges := fun c link =>
      (mem_nodesOf_of_nexts link).1
    refine Closing.visits ⟨seen, nodup, ?_, ?_, ?_, ?_, ?_⟩ <;> grind

theorem steps_closing (target : String) (keyed : Keyed edges) (steps : Nat) :
    let s := (Closure.step edges)^[steps] ⟨[target], [target], []⟩
    ∃ taken, Closing edges target taken [] s ∧ (s.stack = [] ∨ taken = steps) := by
  induction steps with
  | zero =>
    refine ⟨0, ⟨rfl, by simp, ?_, by simp, by simp, by simp, rfl⟩, .inr rfl⟩
    simp [Relation.ReflTransGen.refl]
  | succ steps ih =>
    obtain ⟨taken, closing, progress⟩ := ih
    rw [Function.iterate_succ_apply']
    generalize (Closure.step edges)^[steps] ⟨[target], [target], []⟩ = s at closing progress ⊢
    by_cases empty : s.stack = []
    · refine ⟨taken, ?_⟩
      simp only [Closure.step, empty]
      exact ⟨closing, .inl trivial⟩
    · have all := progress.resolve_left empty
      exact ⟨taken + 1, closing.step keyed empty, .inr (by rw [all])⟩

/-- The stack is empty at the end, so what is seen is closed under consumers. -/
theorem last_closing (target : String) (keyed : Keyed edges) :
    let s := (Closure.step edges)^[(nodesOf edges).length + 1] ⟨[target], [target], []⟩
    s.stack = [] ∧ ∃ taken, Closing edges target taken [] s := by
  obtain ⟨taken, closing, empty | all⟩ :=
    steps_closing target keyed ((nodesOf edges).length + 1)
  · exact ⟨empty, taken, closing⟩
  · refine ⟨?_, taken, closing⟩
    have once := (List.nodup_cons.mp (closing.seen ▸ closing.nodup)).2
    have few := (List.subperm_of_subset once fun n there =>
      closing.nodes n (List.mem_append_left _ there)).length_le
    have count := closing.count
    exact List.length_eq_zero_iff.mp (by omega)

/-- The result lists, in strictly increasing order, the other nodes that reach the target. -/
theorem transitiveConsumers_exact (target : String) (keyed : Keyed edges) :
    (transitiveConsumers target edges).Pairwise (· < ·) ∧
      ∀ n, n ∈ transitiveConsumers target edges ↔
        n ≠ target ∧ Relation.ReflTransGen (Requires edges) n target := by
  obtain ⟨empty, taken, closing⟩ := last_closing target keyed
  unfold transitiveConsumers
  generalize (Closure.step edges)^[(nodesOf edges).length + 1] ⟨[target], [target], []⟩ = s
    at empty closing ⊢
  have once := List.nodup_cons.mp (closing.seen ▸ closing.nodup)
  refine ⟨?_, fun n => ?_⟩
  · have order : (sorted s.out).Pairwise (· ≤ ·) := List.pairwise_insertionSort _ _
    exact (order.and ((sorted_perm s.out).nodup_iff.mpr once.2)).imp fun h => lt_of_le_of_ne h.1 h.2
  · rw [mem_sorted]
    constructor
    · intro there
      refine ⟨fun same => once.1 (same ▸ there), closing.reach n ?_⟩
      simp [closing.seen, there]
    · rintro ⟨other, path⟩
      have seen : n ∈ s.seen := by
        clear other
        induction path using Relation.ReflTransGen.head_induction_on with
        | refl => simp [closing.seen]
        | head link _ ih =>
          have all := (closing.expanded _ ih).resolve_left (by simp [empty])
          simpa using all _ link
      rw [closing.seen] at seen
      exact (List.mem_cons.mp seen).resolve_left other

theorem transitiveConsumers_cyclic : let edges := [("a", ["b"]), ("b", ["a"]), ("c", ["b"])]
    Keyed edges ∧ ∀ n, n ∈ transitiveConsumers "a" edges ↔
      n ≠ "a" ∧ Relation.ReflTransGen (Requires edges) n "a" :=
  ⟨by unfold Keyed; decide, (transitiveConsumers_exact "a" (by unfold Keyed; decide)).2⟩

end MatrixRuntime.ConsumerClosure
