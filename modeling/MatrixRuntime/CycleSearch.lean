import Mathlib.Data.List.Chain
import Mathlib.Data.List.Induction
import Mathlib.Data.List.TakeWhile
import MatrixRuntime.TopologicalOrder

/-! The search for a cycle against the topological order. The search leaves the nodes it is done
with in an order of their own, in which what a node requires stands before it; such an order has
no node of a cycle. -/

namespace MatrixRuntime.CycleSearch

open DependencyGraph TopologicalOrder Function

variable {edges : Edges} {order : List String} {n c : String} {names : List String}
  {path : List String} {s : Search} {stack : List String}

/-- What a listed node requires is listed before it. -/
def Ordered (edges : Edges) (order : List String) : Prop :=
  ∀ before c, before ++ [c] <+: order → ∀ d ∈ nextsOf edges c, d ∈ before

theorem Ordered.nil : Ordered edges [] := fun before c inside => by
  have short := inside.length_le
  simp at short

theorem Ordered.snoc (h : Ordered edges order) (all : ∀ d ∈ nextsOf edges n, d ∈ order) :
    Ordered edges (order ++ [n]) := by
  intro before c inside d next
  rcases List.prefix_concat_iff.mp inside with whole | inside
  · obtain ⟨rfl, last⟩ := List.append_inj' whole rfl
    cases last
    exact all d next
  · exact h before c inside d next

/-- No listed node is among nodes each of which requires another of them. -/
theorem Ordered.not_core {S : String → Prop} (h : Ordered edges order)
    (core : ∀ c, S c → ∃ d ∈ nextsOf edges c, S d) : ∀ c ∈ order, ¬ S c := by
  induction order using List.reverseRecOn with
  | nil => simp
  | append_singleton order n ih =>
    have rest := ih fun before c inside => h before c (inside.trans (List.prefix_append ..))
    intro c there inCore
    rcases List.mem_append.mp there with there | there
    · exact rest c there inCore
    · rw [List.mem_singleton.mp there] at inCore
      obtain ⟨d, next, inCore⟩ := core n inCore
      exact rest d (h order n (List.prefix_refl _) d next) inCore

/-! ### The order -/

theorem step_ordered {k : Kahn} (placed : Placed edges k) (enough : ∀ n ∈ k.ready, ∀ c,
    (sorted (consumersOf edges n)).count c ≤ k.indeg c) (h : Ordered edges k.order) :
    Ordered edges (k.step edges).order := by
  unfold Kahn.step
  cases ready : k.ready with
  | nil => exact h
  | cons n rest =>
    have first : n ∈ k.ready := ready ▸ List.mem_cons_self ..
    obtain ⟨-, order, -⟩ := foldl_relax (sorted (consumersOf edges n))
      { k with ready := rest, order := k.order ++ [n] } (enough n first)
    dsimp only at order ⊢
    rw [order]
    refine h.snoc fun d next => ?_
    have zero := placed.settled n (List.mem_append_right _ first)
    rw [placed.indeg n, List.length_eq_zero_iff] at zero
    by_contra out
    have there : d ∈ missing edges k.order n := List.mem_filter.mpr ⟨next, decide_eq_true out⟩
    simp [zero] at there

/-- After some steps either none is ready or each step has placed a node. -/
theorem steps_placed (keyed : Keyed edges) (steps : Nat) :
    let k := (Kahn.step edges)^[steps] (Kahn.start edges)
    Placed edges k ∧ Ordered edges k.order ∧ (k.ready = [] ∨ k.order.length = steps) := by
  induction steps with
  | zero => exact ⟨start_placed edges, .nil, .inr rfl⟩
  | succ steps ih =>
    obtain ⟨placed, ordered, progress⟩ := ih
    rw [iterate_succ_apply']
    generalize (Kahn.step edges)^[steps] (Kahn.start edges) = k at placed ordered progress ⊢
    refine ⟨step_placed keyed placed, step_ordered placed
      (fun n first => enough_consumers keyed placed first) ordered, ?_⟩
    unfold Kahn.step
    cases ready : k.ready with
    | nil => exact .inl ready
    | cons n rest =>
      have enough := enough_consumers keyed placed (ready ▸ List.mem_cons_self ..)
      obtain ⟨-, order, -⟩ := foldl_relax (sorted (consumersOf edges n))
        { k with ready := rest, order := k.order ++ [n] } enough
      have count := progress.resolve_left (by simp [ready])
      refine .inr ?_
      dsimp only at order ⊢
      rw [order, List.length_append, count, List.length_singleton]

/-- As many steps as nodes leave no node ready. -/
theorem last_ready (keyed : Keyed edges) :
    ((Kahn.step edges)^[(nodesOf edges).length] (Kahn.start edges)).ready = [] := by
  obtain ⟨placed, -, empty | full⟩ := steps_placed keyed (nodesOf edges).length
  · exact empty
  · have inside := (List.subperm_of_subset placed.nodup placed.nodes).length_le
    rw [List.length_append, full] at inside
    exact List.length_eq_zero_iff.mp (by omega)

/-- If there is no order, some nodes each require another of them. -/
theorem core_of_topoOrder_none (keyed : Keyed edges) (h : topoOrder edges = none) :
    ∃ S : String → Prop, (∃ c, S c) ∧ ∀ c, S c → ∃ d ∈ nextsOf edges c, S d := by
  obtain ⟨placed, -, -⟩ := steps_placed keyed (nodesOf edges).length
  have empty := last_ready keyed
  simp only [topoOrder] at h
  generalize (Kahn.step edges)^[(nodesOf edges).length] (Kahn.start edges) = k
    at placed empty h
  have short : k.order.length ≠ (nodesOf edges).length := fun full => by simp [full] at h
  refine ⟨fun c => c ∈ nodesOf edges ∧ c ∉ k.order, ?_, ?_⟩
  · by_contra none
    refine short (List.Perm.length_eq ?_)
    refine (List.perm_ext_iff_of_nodup (List.nodup_append.mp placed.nodup).1
      (List.nodup_dedup _)).mpr fun c => ⟨fun there => placed.nodes c
        (List.mem_append_left _ there), fun node => ?_⟩
    by_contra out
    exact none ⟨c, node, out⟩
  · rintro c ⟨node, out⟩
    have waits : missing edges k.order c ≠ [] := fun none => by
      have zero : k.indeg c = 0 := by rw [placed.indeg c, none, List.length_nil]
      simpa [empty] using placed.waiting c node out zero
    obtain ⟨d, there⟩ := List.exists_mem_of_ne_nil _ waits
    obtain ⟨next, out⟩ := List.mem_filter.mp there
    exact ⟨d, next, (mem_nodesOf_of_nexts next).2, of_decide_eq_true out⟩

theorem topoOrder_ordered (keyed : Keyed edges) (h : topoOrder edges = some order) :
    Ordered edges order := by
  obtain ⟨-, ordered, -⟩ := steps_placed keyed (nodesOf edges).length
  simp only [topoOrder] at h
  split at h
  · cases h
    exact ordered
  · cases h

/-! ### The search -/

abbrev Requires (edges : Edges) (c d : String) : Prop := d ∈ nextsOf edges c

/-- A path of edges back to where it starts. -/
structure ClosedPath (edges : Edges) (path : List String) : Prop where
  edge : path.IsChain (Requires edges)
  long : 2 ≤ path.length
  closed : path.head? = path.getLast?

/-- Grey nodes are the path to the present one; black nodes are done. -/
structure Sound (edges : Edges) (s : Search) : Prop where
  grey : ∀ n, s.color n = .grey ↔ n ∈ s.stack
  path : s.stack.IsChain (Requires edges)
  nodup : s.stack.Nodup
  nodes : ∀ n ∈ s.stack, n ∈ nodesOf edges
  black : ∃ order, (∀ n, s.color n = .black ↔ n ∈ order) ∧ Ordered edges order

/-- What a search that found nothing leaves. -/
structure Searched (edges : Edges) (s s' : Search) : Prop where
  sound : Sound edges s'
  stack : s'.stack = s.stack
  kept : ∀ n, s.color n = .black → s'.color n = .black

/-- A visit of some nodes finds a closed path or leaves them black. -/
def Visits (edges : Edges) (s : Search) (names : List String) :
    Option (List String) × Search → Prop
  | (some path, _) => ClosedPath edges path
  | (none, s') => Searched edges s s' ∧ ∀ n ∈ names, s'.color n = .black

theorem Visits.nil (sound : Sound edges s) : Visits edges s [] (none, s) :=
  ⟨⟨sound, rfl, fun _ => id⟩, by simp⟩

theorem Visits.cons {s s₁ : Search} {found : Option (List String) × Search}
    (first : Searched edges s s₁) (black : s₁.color n = .black)
    (h : Visits edges s₁ names found) : Visits edges s (n :: names) found := by
  obtain ⟨path | path, s'⟩ := found
  · obtain ⟨next, all⟩ := h
    refine ⟨⟨next.sound, next.stack.trans first.stack,
      fun m old => next.kept m (first.kept m old)⟩, fun m there => ?_⟩
    rcases List.mem_cons.mp there with rfl | there
    · exact next.kept m black
    · exact all m there
  · exact h

theorem closed_path (sound : Sound edges s) {nx : String}
    (link : (s.stack ++ [nx]).IsChain (Requires edges)) (grey : s.color nx = .grey) :
    ClosedPath edges (s.closed nx) := by
  have there := (sound.grey nx).mp grey
  have some : s.stack.dropWhile (· ≠ nx) ≠ [] := fun none => by
    simpa using List.dropWhile_eq_nil_iff.mp none nx there
  have back := List.head_dropWhile_not (fun x => decide (x ≠ nx)) some
  obtain ⟨front, split⟩ := List.dropWhile_suffix (l := s.stack) (fun x => decide (x ≠ nx))
  unfold Search.closed
  generalize s.stack.dropWhile (fun x => decide (x ≠ nx)) = loop at some back split ⊢
  cases loop with
  | nil => exact absurd rfl some
  | cons head rest =>
    have same : head = nx := not_not.mp (of_decide_eq_false back)
    subst same
    refine ⟨link.suffix ⟨front, by rw [← List.append_assoc, split]⟩, by simp, ?_⟩
    rw [List.getLast?_concat, List.cons_append, List.head?_cons]

theorem visitAll_spec {visit : String → Search → Option (List String) × Search}
    {nexts : List String} (sound : Sound edges s) (same : s.stack = stack)
    (link : ∀ nx ∈ nexts, (stack ++ [nx]).IsChain (Requires edges))
    (step : ∀ nx ∈ nexts, ∀ s, Sound edges s → s.stack = stack → s.color nx = .white →
      Visits edges s [nx] (visit nx s)) : Visits edges s nexts (visitAll visit nexts s) := by
  induction nexts generalizing s with
  | nil => exact .nil sound
  | cons nx rest ih =>
    have tail : ∀ s₁, Searched edges s s₁ → s₁.color nx = .black →
        Visits edges s (nx :: rest) (visitAll visit rest s₁) := fun s₁ first black =>
      .cons first black (ih first.sound (first.stack.trans same)
        (fun nx there => link nx (List.mem_cons_of_mem _ there))
        fun nx there => step nx (List.mem_cons_of_mem _ there))
    unfold visitAll
    cases color : s.color nx with
    | grey =>
      subst same
      exact closed_path sound (link nx (List.mem_cons_self ..)) color
    | black => exact tail s ⟨sound, rfl, fun _ => id⟩ color
    | white =>
      have visited := step nx (List.mem_cons_self ..) s sound same color
      dsimp only
      generalize visit nx s = found at visited ⊢
      obtain ⟨path | path, s₁⟩ := found
      · exact tail s₁ visited.1 (visited.2 nx (List.mem_singleton_self nx))
      · exact visited

theorem Sound.enter (sound : Sound edges s) (white : s.color n = .white)
    (node : n ∈ nodesOf edges) (link : (s.stack ++ [n]).IsChain (Requires edges)) :
    Sound edges ⟨update s.color n .grey, s.stack ++ [n]⟩ where
  grey m := by
    by_cases own : m = n
    · simp [own]
    · simp [own, sound.grey m]
  path := link
  nodup := by
    have out : n ∉ s.stack := fun there => by simp [(sound.grey n).mpr there] at white
    exact List.nodup_append_comm.mp (List.nodup_cons.mpr ⟨out, sound.nodup⟩)
  nodes m there := by
    rcases List.mem_append.mp there with there | there
    · exact sound.nodes m there
    · exact List.mem_singleton.mp there ▸ node
  black := by
    obtain ⟨order, black, ordered⟩ := sound.black
    refine ⟨order, fun m => ?_, ordered⟩
    by_cases own : m = n
    · have out : n ∉ order := fun there => by simp [(black n).mpr there] at white
      simp [own, out]
    · simp [own, black m]

theorem Sound.leave (sound : Sound edges s)
    (same : s.stack = stack ++ [n]) (all : ∀ d ∈ nextsOf edges n, s.color d = .black) :
    Sound edges ⟨update s.color n .black, stack⟩ := by
  have nodup := sound.nodup
  have path := sound.path
  rw [same] at nodup path
  have out : n ∉ stack := fun there =>
    List.disjoint_of_nodup_append nodup there (List.mem_singleton_self n)
  refine ⟨fun m => ?_, path.left_of_append, (List.nodup_append.mp nodup).1,
    fun m there => sound.nodes m (same ▸ List.mem_append_left _ there), ?_⟩
  · by_cases own : m = n
    · simp [own, out]
    · simp [own, sound.grey m, same]
  · obtain ⟨order, black, ordered⟩ := sound.black
    refine ⟨order ++ [n], fun m => ?_, ordered.snoc fun d next => (black d).mp (all d next)⟩
    by_cases own : m = n
    · simp [own]
    · simp [own, black m]

theorem link_next {d : String}
    (link : (stack ++ [n]).IsChain (Requires edges)) (next : d ∈ nextsOf edges n) :
    (stack ++ [n] ++ [d]).IsChain (Requires edges) :=
  List.isChain_append.mpr ⟨link, .singleton d, by simpa using next⟩

/-- A path is no longer than there are nodes, so the recursion is deep enough. -/
theorem dfs_spec (fuel : Nat) (sound : Sound edges s) (white : s.color n = .white)
    (node : n ∈ nodesOf edges) (link : (s.stack ++ [n]).IsChain (Requires edges))
    (deep : (nodesOf edges).length ≤ fuel + s.stack.length) :
    Visits edges s [n] (dfs edges fuel n s) := by
  have entered := sound.enter white node link
  induction fuel generalizing s n with
  | zero =>
    have short := (List.subperm_of_subset entered.nodup entered.nodes).length_le
    simp only [List.length_append, List.length_singleton] at short
    omega
  | succ fuel ih =>
    have searched : Visits edges _ _ (visitAll (dfs edges fuel) (nextsOf edges n) _) :=
      visitAll_spec entered rfl (fun nx next => link_next link next) ?_
    · unfold dfs
      dsimp only
      generalize visitAll (dfs edges fuel) (nextsOf edges n) _ = found at searched ⊢
      obtain ⟨path | path, s'⟩ := found
      · obtain ⟨⟨sound', stack, kept⟩, all⟩ := searched
        have popped : s'.stack.dropLast = s.stack := by rw [stack, List.dropLast_concat]
        refine ⟨⟨?_, popped, fun m old => ?_⟩, by simp⟩
        · rw [popped]
          exact sound'.leave stack all
        · by_cases own : m = n
          · simp [own]
          · have before := kept m (by simpa [own] using old)
            simpa [own] using before
      · exact searched
    · intro nx next s' sound' stack white'
      have edge : (s'.stack ++ [nx]).IsChain (Requires edges) := by
        rw [stack]
        exact link_next link next
      have known := (mem_nodesOf_of_nexts next).2
      refine ih sound' white' known edge ?_ (sound'.enter white' known edge)
      rw [stack, List.length_append, List.length_singleton]
      omega

theorem searchFrom_spec {fuel : Nat} (sound : Sound edges s)
    (root : s.stack = []) (nodes : ∀ n ∈ names, n ∈ nodesOf edges)
    (deep : (nodesOf edges).length ≤ fuel) :
    ∃ s', Visits edges s names (searchFrom edges fuel names s, s') := by
  induction names generalizing s with
  | nil => exact ⟨s, .nil sound⟩
  | cons n rest ih =>
    have tail : ∀ s₁, Searched edges s s₁ → s₁.color n = .black →
        ∃ s', Visits edges s (n :: rest) (searchFrom edges fuel rest s₁, s') := by
      intro s₁ first black
      obtain ⟨s', visited⟩ := ih first.sound (first.stack.trans root)
        fun m there => nodes m (List.mem_cons_of_mem _ there)
      exact ⟨s', .cons first black visited⟩
    unfold searchFrom
    cases color : s.color n with
    | grey => simpa [root] using (sound.grey n).mp color
    | black => exact tail s ⟨sound, rfl, fun _ => id⟩ color
    | white =>
      have visited := dfs_spec fuel sound color (nodes n (List.mem_cons_self ..))
        (by simp [root]) (by simpa [root] using deep)
      rw [if_pos rfl]
      generalize dfs edges fuel n s = found at visited ⊢
      obtain ⟨path | path, s₁⟩ := found
      · exact tail s₁ visited.1 (visited.2 n (List.mem_singleton_self n))
      · exact ⟨s₁, visited⟩

/-- A search that finds nothing has put every node with edges in an order. -/
theorem findCycle_spec (edges : Edges) : ∃ s, Visits edges ⟨fun _ => .white, []⟩
    (sorted (edges.map (·.1))) (findCycle edges, s) := by
  refine searchFrom_spec ⟨by simp, .nil, .nil, by simp, [], by simp, .nil⟩ rfl ?_ (Nat.le_succ _)
  intro n key
  rw [nodesOf, List.mem_dedup]
  exact List.mem_append_left _ (mem_sorted.mp key)

theorem ordered_of_findCycle_none (h : findCycle edges = none) :
    ∃ order, Ordered edges order ∧ ∀ n ∈ edges.map (·.1), n ∈ order := by
  obtain ⟨s, visited⟩ := findCycle_spec edges
  rw [h] at visited
  obtain ⟨searched, all⟩ := visited
  obtain ⟨order, black, ordered⟩ := searched.sound.black
  exact ⟨order, ordered, fun n key => (black n).mp (all n (mem_sorted.mpr key))⟩

theorem closedPath_of_findCycle (h : findCycle edges = some path) : ClosedPath edges path := by
  obtain ⟨s, visited⟩ := findCycle_spec edges
  rwa [h] at visited

/-! ### The two against each other -/

theorem key_of_next {d : String} (h : d ∈ nextsOf edges c) : c ∈ edges.map (·.1) := by
  cases found : edges.lookup c with
  | none => simp [nextsOf, found] at h
  | some deps =>
    obtain ⟨l₁, l₂, rfl, -⟩ := List.lookup_eq_some_iff.mp found
    simp

theorem chain_next (h : path.IsChain (Requires edges)) :
    ∀ c ∈ path.dropLast, ∃ d ∈ nextsOf edges c, d ∈ path := by
  induction path with
  | nil => simp
  | cons x rest ih =>
    cases rest with
    | nil => simp
    | cons y rest =>
      obtain ⟨edge, links⟩ := List.isChain_cons_cons.mp h
      intro c there
      rcases List.mem_cons.mp there with rfl | there
      · exact ⟨y, edge, by simp⟩
      · obtain ⟨d, next, inside⟩ := ih links c there
        exact ⟨d, next, List.mem_cons_of_mem _ inside⟩

/-- Every node of a closed path requires another of them. -/
theorem ClosedPath.core (h : ClosedPath edges path) :
    ∀ c ∈ path, ∃ d ∈ nextsOf edges c, d ∈ path := by
  intro c there
  refine chain_next h.edge c ?_
  obtain rfl | ⟨front, last, rfl⟩ := List.eq_nil_or_concat' path
  · cases there
  · rw [List.dropLast_concat]
    rcases List.mem_append.mp there with there | there
    · exact there
    · have closed := h.closed
      have long := h.long
      rw [List.mem_singleton.mp there]
      cases front with
      | nil => simp at long
      | cons first front =>
        rw [List.getLast?_concat, List.cons_append, List.head?_cons] at closed
        cases closed
        exact List.mem_cons_self ..

/-- The search finds nothing exactly when there is an order; what it finds is a closed path of
edges, and an order lists every node once, after all that it requires. -/
theorem searches_agree (keyed : Keyed edges) : (findCycle edges = none ↔ (topoOrder edges).isSome) ∧
      (∀ path, findCycle edges = some path → ClosedPath edges path) ∧
      ∀ order, topoOrder edges = some order → order.Perm (nodesOf edges) ∧ Ordered edges order := by
  refine ⟨⟨fun none => ?_, fun some => ?_⟩, fun path => closedPath_of_findCycle,
    fun order found => ⟨topoOrder_perm keyed found, topoOrder_ordered keyed found⟩⟩
  · by_contra unordered
    obtain ⟨S, ⟨c, inCore⟩, core⟩ :=
      core_of_topoOrder_none keyed (Option.not_isSome_iff_eq_none.mp unordered)
    obtain ⟨order, ordered, keys⟩ := ordered_of_findCycle_none none
    obtain ⟨d, next, -⟩ := core c inCore
    exact ordered.not_core core c (keys c (key_of_next next)) inCore
  · obtain ⟨order, found⟩ := Option.isSome_iff_exists.mp some
    cases cycle : findCycle edges with
    | none => rfl
    | some path =>
      have closed := closedPath_of_findCycle cycle
      obtain ⟨first, inside⟩ := List.exists_mem_of_ne_nil path fun none => by
        simpa [none] using closed.long
      obtain ⟨d, next, -⟩ := closed.core first inside
      have listed : first ∈ order :=
        (topoOrder_perm keyed found).mem_iff.mpr (mem_nodesOf_of_nexts next).1
      exact absurd inside ((topoOrder_ordered keyed found).not_core closed.core first listed)

theorem searches_agree_on_self_loop : findCycle [("a", ["a"]), ("b", ["a"])] = none ↔
    (topoOrder [("a", ["a"]), ("b", ["a"])]).isSome := by
  have keyed : Keyed [("a", ["a"]), ("b", ["a"])] := by
    unfold Keyed
    decide
  exact (searches_agree keyed).1

/-- The search finds a cycle exactly when some node requires itself, over any path. -/
theorem findCycle_none_iff :
    findCycle edges = none ↔ ∀ n, ¬ Relation.TransGen (Requires edges) n n := by
  constructor
  · intro none n cycle
    obtain ⟨order, ordered, keys⟩ := ordered_of_findCycle_none none
    obtain ⟨_, first, -⟩ := Relation.TransGen.head'_iff.mp cycle
    refine ordered.not_core (S := (Relation.TransGen (Requires edges) · n)) (fun c reach => ?_) n
      (keys n (key_of_next first)) cycle
    obtain ⟨d, next, rest⟩ := Relation.TransGen.head'_iff.mp reach
    exact ⟨d, next, .trans_right rest cycle⟩
  · intro acyclic
    cases found : findCycle edges with
    | none => rfl
    | some path =>
      obtain ⟨edge, long, closed⟩ := closedPath_of_findCycle found
      match path, long with
      | x :: y :: rest, _ =>
        obtain ⟨first, chain⟩ := List.isChain_cons_cons.mp edge
        refine absurd (.head' first ?_) (acyclic x)
        refine List.relationReflTransGen_of_exists_isChain_cons rest chain ?_
        simpa [List.getLast?_eq_some_getLast] using closed.symm

end MatrixRuntime.CycleSearch
