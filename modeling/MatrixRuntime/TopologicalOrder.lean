import Mathlib.Data.List.Dedup
import MatrixRuntime.DependencyGraph

/-! Kahn's order over the requirements. The degree of a node is the number of its edges to nodes
that are not placed yet; a node is ready once, when that number reaches zero. -/

namespace MatrixRuntime.TopologicalOrder

open DependencyGraph Function

/-- Every node has one entry. -/
def Keyed (edges : Edges) : Prop := (edges.map (·.1)).Nodup

variable {edges : Edges} {n c : String} {order : List String}

theorem sorted_perm (names : List String) : (sorted names).Perm names :=
  List.perm_insertionSort _ names

theorem mem_sorted {names : List String} : n ∈ sorted names ↔ n ∈ names :=
  (sorted_perm names).mem_iff

/-- How often a consumer is listed for a node is how often it requires it. -/
theorem count_consumersOf (keyed : Keyed edges) (n c : String) :
    (consumersOf edges n).count c = (nextsOf edges c).count n := by
  induction edges with
  | nil => rfl
  | cons p edges ih =>
    obtain ⟨m, deps⟩ := p
    have fresh := List.nodup_cons.mp keyed
    have rest := ih fresh.2
    have here : ((deps.filter fun d => decide (d = n)).map fun _ => m).count c =
        if m = c then deps.count n else 0 := by
      rw [List.map_const', List.count_replicate, ← List.countP_eq_length_filter]
      simp [List.count, beq_eq_decide]
    have split : (consumersOf ((m, deps) :: edges) n).count c =
        (if m = c then deps.count n else 0) + (consumersOf edges n).count c := by
      rw [← here, ← List.count_append]
      rfl
    rw [split, rest]
    by_cases own : m = c
    · subst own
      have absent : edges.lookup m = none := by
        rw [List.lookup_eq_none_iff]
        intro p there
        simp only [ne_eq, bne_iff_ne]
        rintro rfl
        exact fresh.1 (List.mem_map.mpr ⟨_, there, rfl⟩)
      simp [nextsOf, List.lookup_cons_self, absent]
    · have other : (c == m) = false := beq_false_of_ne (Ne.symm own)
      simp [nextsOf, List.lookup_cons, own, other]

/-! ### One step -/

/-- A node is pushed when its last missing dependency is placed. -/
theorem foldl_relax (cs : List String) (k : Kahn) (enough : ∀ c, cs.count c ≤ k.indeg c) :
    (∀ c, (cs.foldl Kahn.relax k).indeg c = k.indeg c - cs.count c) ∧
      (cs.foldl Kahn.relax k).order = k.order ∧
      ∃ new : List String, (cs.foldl Kahn.relax k).ready = k.ready ++ new ∧ new.Nodup ∧
        ∀ c, c ∈ new ↔ c ∈ cs ∧ k.indeg c = cs.count c := by
  induction cs generalizing k with
  | nil => exact ⟨by simp, rfl, [], by simp, .nil, by simp⟩
  | cons x cs ih =>
    have mine : cs.count x + 1 ≤ k.indeg x := by simpa using enough x
    have left : ∀ c, cs.count c ≤ (k.relax x).indeg c := by
      intro c
      by_cases own : c = x
      · subst own
        simp only [Kahn.relax, update_self]
        omega
      · simpa [Kahn.relax, own, List.count_cons, Ne.symm own] using enough c
    obtain ⟨indeg, order, new, ready, nodup, mem⟩ := ih (k.relax x) left
    refine ⟨fun c => ?_, order, ?_⟩
    · rw [List.foldl_cons, indeg c]
      by_cases own : c = x
      · subst own
        simp only [Kahn.relax, update_self, List.count_cons_self]
        omega
      · simp [Kahn.relax, own, Ne.symm own]
    · by_cases last : k.indeg x - 1 = 0
      · -- the first relaxation is the last one of this consumer
        have gone : x ∉ cs := by
          rw [← List.count_eq_zero]
          omega
        have pushed : (k.relax x).ready = k.ready ++ [x] := by simp [Kahn.relax, last]
        refine ⟨x :: new, by rw [List.foldl_cons, ready, pushed]; simp,
          List.nodup_cons.mpr ⟨fun there => gone ((mem x).mp there).1, nodup⟩, fun c => ?_⟩
        by_cases own : c = x
        · subst own
          simp only [List.mem_cons, true_or, List.count_cons_self, true_iff, true_and,
            List.count_eq_zero_of_not_mem gone]
          omega
        · simp [own, mem c, Kahn.relax, Ne.symm own]
      · have same : (k.relax x).ready = k.ready := by simp [Kahn.relax, last]
        refine ⟨new, by rw [List.foldl_cons, ready, same], nodup, fun c => ?_⟩
        rw [mem c]
        by_cases own : c = x
        · subst own
          simp only [Kahn.relax, update_self, List.mem_cons, true_or, true_and,
            List.count_cons_self]
          constructor
          · rintro ⟨-, same⟩
            omega
          · intro same
            refine ⟨List.count_pos_iff.mp (by omega), by omega⟩
        · simp [own, Kahn.relax, Ne.symm own]

/-- The edges of a node to nodes that are not placed. -/
def missing (edges : Edges) (order : List String) (n : String) : List String :=
  (nextsOf edges n).filter fun d => decide (d ∉ order)

structure Placed (edges : Edges) (k : Kahn) : Prop where
  nodup : (k.order ++ k.ready).Nodup
  nodes : ∀ n ∈ k.order ++ k.ready, n ∈ nodesOf edges
  indeg : ∀ n, k.indeg n = (missing edges k.order n).length
  settled : ∀ n ∈ k.order ++ k.ready, k.indeg n = 0
  waiting : ∀ n ∈ nodesOf edges, n ∉ k.order → k.indeg n = 0 → n ∈ k.ready

theorem start_placed (edges : Edges) : Placed edges (Kahn.start edges) where
  nodup := by
    have distinct : (nodesOf edges).Nodup := List.nodup_dedup _
    rw [Kahn.start, List.nil_append, (sorted_perm _).nodup_iff]
    exact distinct.filter _
  nodes n there := by
    simp only [Kahn.start, List.nil_append, mem_sorted, List.mem_filter] at there
    exact there.1
  indeg n := by simp [Kahn.start, missing]
  settled n there := by
    simp only [Kahn.start, List.nil_append, mem_sorted, List.mem_filter, decide_eq_true_eq] at there
    exact there.2
  waiting n node _ none := by
    simp only [Kahn.start, mem_sorted, List.mem_filter, decide_eq_true_eq]
    exact ⟨node, none⟩

/-- The edges to a node that is not placed are missing. -/
theorem count_le_missing (fresh : n ∉ order) (c : String) :
    (nextsOf edges c).count n ≤ (missing edges order c).length := by
  rw [missing, ← List.countP_eq_length_filter]
  exact List.countP_mono_left fun x _ same => by
    rw [eq_of_beq same]
    exact decide_eq_true fresh

/-- Placing a node takes away the edges to it. -/
theorem missing_place (fresh : n ∉ order) (c : String) :
    (missing edges (order ++ [n]) c).length + (nextsOf edges c).count n =
      (missing edges order c).length := by
  unfold missing
  induction nextsOf edges c with
  | nil => rfl
  | cons d deps ih =>
    by_cases own : d = n
    · subst own
      have placed : d ∈ order ++ [d] := by simp
      simp only [List.filter_cons, placed, fresh, not_true_eq_false, not_false_eq_true,
        decide_false, decide_true, Bool.false_eq_true, if_false, if_true, List.length_cons,
        List.count_cons_self, ← ih]
      omega
    · have same : d ∈ order ++ [n] ↔ d ∈ order := by simp [own]
      by_cases placed : d ∈ order
      · simp only [List.filter_cons, same, placed, not_true_eq_false, decide_false,
          Bool.false_eq_true, if_false, List.count_cons_of_ne own, ← ih]
      · simp only [List.filter_cons, same, placed, not_false_eq_true, decide_true, if_true,
          List.length_cons, List.count_cons_of_ne own, ← ih]
        omega

theorem mem_nodesOf_of_nexts {d : String} (h : d ∈ nextsOf edges c) :
    c ∈ nodesOf edges ∧ d ∈ nodesOf edges := by
  cases found : edges.lookup c with
  | none => simp [nextsOf, found] at h
  | some deps =>
    obtain ⟨l₁, l₂, rfl, -⟩ := List.lookup_eq_some_iff.mp found
    have there : d ∈ deps := by simpa [nextsOf, found] using h
    exact ⟨by simp [nodesOf], by simp [nodesOf, there]⟩

theorem enough_consumers (keyed : Keyed edges) {k : Kahn} {n : String}
    (placed : Placed edges k) (first : n ∈ k.ready) (c : String) :
    (sorted (consumersOf edges n)).count c ≤ k.indeg c := by
  have fresh : n ∉ k.order := fun there =>
    List.disjoint_of_nodup_append placed.nodup there first
  rw [(sorted_perm _).count_eq, count_consumersOf keyed, placed.indeg]
  exact count_le_missing fresh c

theorem step_placed (keyed : Keyed edges) {k : Kahn} (h : Placed edges k) :
    Placed edges (k.step edges) := by
  unfold Kahn.step
  cases ready : k.ready with
  | nil => exact h
  | cons n rest =>
    have nodup := h.nodup
    rw [ready] at nodup
    have fresh : n ∉ k.order := fun there =>
      List.disjoint_of_nodup_append nodup there (List.mem_cons_self ..)
    have counts : ∀ c, (sorted (consumersOf edges n)).count c = (nextsOf edges c).count n :=
      fun c => ((sorted_perm _).count_eq c).trans (count_consumersOf keyed n c)
    have enough := enough_consumers keyed h (ready ▸ List.mem_cons_self ..)
    obtain ⟨indeg, order, new, ready', newNodup, mem⟩ := foldl_relax
      (sorted (consumersOf edges n)) { k with ready := rest, order := k.order ++ [n] } enough
    dsimp only at indeg order ready' mem ⊢
    have degree : ∀ c, k.indeg c - (sorted (consumersOf edges n)).count c =
        (missing edges (k.order ++ [n]) c).length := by
      intro c
      rw [counts, h.indeg, ← missing_place fresh c]
      omega
    have requires : ∀ c ∈ sorted (consumersOf edges n), n ∈ nextsOf edges c := by
      intro c there
      rw [← List.count_pos_iff, ← counts]
      exact List.count_pos_iff.mpr there
    have settled := h.settled
    have nodes := h.nodes
    rw [ready] at settled nodes
    have fits : (k.order ++ [n] ++ sorted (rest ++ new)).Perm (k.order ++ n :: rest ++ new) := by
      have tail := (sorted_perm (rest ++ new)).append_left (k.order ++ [n])
      simpa using tail
    rw [ready', order]
    refine ⟨?_, fun c there => ?_, fun c => ?_, fun c there => ?_, fun c node out zero => ?_⟩
    · refine fits.nodup_iff.mpr (nodup.append newNodup fun c old there => ?_)
      have pending := ((mem c).mp there).2
      rw [settled c old] at pending
      exact List.count_eq_zero.mp pending.symm ((mem c).mp there).1
    · rcases List.mem_append.mp (fits.mem_iff.mp there) with old | there
      · exact nodes c old
      · exact (mem_nodesOf_of_nexts (requires c ((mem c).mp there).1)).1
    · rw [indeg c, degree c]
    · rw [indeg c]
      rcases List.mem_append.mp (fits.mem_iff.mp there) with old | there
      · rw [settled c old, Nat.zero_sub]
      · rw [((mem c).mp there).2, Nat.sub_self]
    · rw [mem_sorted, List.mem_append]
      rw [indeg c] at zero
      by_cases none : k.indeg c = 0
      · have before := h.waiting c node (fun there => out (List.mem_append_left _ there)) none
        rw [ready] at before
        refine .inl ((List.mem_cons.mp before).resolve_left ?_)
        rintro rfl
        exact out (by simp)
      · have all := enough c
        refine .inr ((mem c).mpr ⟨List.count_pos_iff.mp ?_, ?_⟩) <;> omega

/-- The order places every node once. -/
theorem topoOrder_perm (keyed : Keyed edges)
    (h : topoOrder edges = some order) : order.Perm (nodesOf edges) := by
  have placed : Placed edges ((Kahn.step edges)^[(nodesOf edges).length] (Kahn.start edges)) :=
    Function.Iterate.rec (Placed edges) (start_placed edges) (fun _ => step_placed keyed) _
  simp only [topoOrder] at h
  split at h
  next full =>
    cases h
    have nodup := (List.nodup_append.mp placed.nodup).1
    have inside := List.subperm_of_subset nodup fun n there =>
      placed.nodes n (List.mem_append_left _ there)
    exact inside.perm_of_length_le full.ge
  next => cases h

end MatrixRuntime.TopologicalOrder
