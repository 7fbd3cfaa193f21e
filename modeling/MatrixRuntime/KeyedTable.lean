import Mathlib.Data.List.Nodup

/-! Tables with a primary key. A table carries the proof that no key occurs twice, so a
lookup, an insert and a conditional update have one meaning each. Updates report how many
rows they touched, as a database does. -/

namespace MatrixRuntime.KeyedTable

structure Table (K V : Type) where
  entries : List (K × V)
  unique : (entries.map Prod.fst).Nodup

variable {K V : Type} {k : K} {v : V}

namespace Table

def empty : Table K V := ⟨[], List.nodup_nil⟩

def size (t : Table K V) : Nat := t.entries.length

variable [DecidableEq K]

def get (t : Table K V) (k : K) : Option V := t.entries.lookup k

variable {t : Table K V}

theorem get_eq_some : t.get k = some v ↔ (k, v) ∈ t.entries := by
  obtain ⟨entries, unique⟩ := t
  induction entries with
  | nil => simp [get]
  | cons head rest ih =>
    obtain ⟨k', v'⟩ := head
    have fresh := (List.nodup_cons.mp unique).1
    have tail := ih (List.nodup_cons.mp unique).2
    simp only [get] at tail ⊢
    by_cases h : k = k'
    · subst h
      have absent : (k, v) ∉ rest := fun hm => fresh (List.mem_map.mpr ⟨_, hm, rfl⟩)
      simp [absent, eq_comm]
    · have hb : (k == k') = false := by simpa using h
      simp [List.lookup_cons, hb, h, tail]

theorem get_eq_none : t.get k = none ↔ k ∉ t.entries.map Prod.fst := by
  rw [Option.eq_none_iff_forall_ne_some]
  constructor
  · intro h hk
    obtain ⟨⟨k', v⟩, hmem, rfl⟩ := List.mem_map.mp hk
    exact h v (get_eq_some.mpr hmem)
  · intro h v hv
    exact h (List.mem_map.mpr ⟨_, get_eq_some.mp hv, rfl⟩)

@[simp] theorem empty_get (k : K) : (empty : Table K V).get k = none := rfl

/-- `INSERT`: nothing when the key is there. -/
def insert (t : Table K V) (k : K) (v : V) : Option (Table K V) :=
  if fresh : k ∈ t.entries.map Prod.fst then none
  else some ⟨(k, v) :: t.entries, List.nodup_cons.mpr ⟨fresh, t.unique⟩⟩

theorem insert_eq_none : t.insert k v = none ↔ t.get k ≠ none := by
  unfold insert
  split
  next there => simpa [get_eq_none] using there
  next fresh => simpa [get_eq_none] using fresh

theorem insert_get {t' : Table K V} (h : t.insert k v = some t') (k' : K) :
    t'.get k' = if k' = k then some v else t.get k' := by
  unfold insert at h
  split at h
  · cases h
  · cases h
    by_cases hk : k' = k
    · subst hk
      simp [get]
    · have hb : (k' == k) = false := by simpa using hk
      simp [get, List.lookup_cons, hb, hk]

theorem insert_size {t' : Table K V} (h : t.insert k v = some t') :
    t'.size = t.size + 1 := by
  unfold insert at h
  split at h
  · cases h
  · cases h
    rfl

/-- `UPDATE … SET … WHERE …`: the number of rows that met the condition, and the table. -/
def modify (t : Table K V) (p : K → V → Bool) (f : V → V) : Nat × Table K V :=
  (t.entries.countP fun row => p row.1 row.2,
    ⟨t.entries.map fun row => (row.1, if p row.1 row.2 then f row.2 else row.2), by
      rw [List.map_map]
      exact t.unique⟩)

theorem modify_get (t : Table K V) (p : K → V → Bool) (f : V → V) (k : K) :
    (t.modify p f).2.get k = (t.get k).map fun v => if p k v then f v else v := by
  obtain ⟨entries, unique⟩ := t
  simp only [modify, get]
  clear unique
  induction entries with
  | nil => rfl
  | cons head rest ih =>
    obtain ⟨k', v'⟩ := head
    by_cases h : k = k'
    · subst h
      simp
    · have hb : (k == k') = false := by simpa using h
      simp [List.lookup_cons, hb, ih]

omit [DecidableEq K] in
theorem modify_size (t : Table K V) (p : K → V → Bool) (f : V → V) :
    (t.modify p f).2.size = t.size := by
  simp [modify, size]

omit [DecidableEq K] in
theorem modify_none {p : K → V → Bool} {f : V → V} (h : (t.modify p f).1 = 0) :
    (t.modify p f).2 = t := by
  obtain ⟨entries, unique⟩ := t
  have untouched : ∀ row ∈ entries, ¬ p row.1 row.2 = true := by
    simpa [modify, List.countP_eq_zero] using h
  have same : (entries.map fun row => (row.1, if p row.1 row.2 then f row.2 else row.2)) =
      entries := by
    refine (List.map_congr_left fun row hrow => ?_).trans (List.map_id _)
    rw [if_neg (untouched row hrow)]
    rfl
  simp only [modify, same]

/-- An update of the row under one key touches at most that row. -/
theorem modify_count {p : K → V → Bool} {f : V → V} (at_key : ∀ k' v, p k' v = true → k' = k) :
    (t.modify p f).1 = ((t.get k).any (p k)).toNat := by
  obtain ⟨entries, unique⟩ := t
  induction entries with
  | nil => simp [modify, get]
  | cons head rest ih =>
    obtain ⟨k', v'⟩ := head
    obtain ⟨fresh, unique'⟩ := List.nodup_cons.mp unique
    have tail := ih unique'
    simp only [modify, get] at tail ⊢
    rw [List.countP_cons, tail]
    by_cases h : k = k'
    · subst h
      have none_left : rest.lookup k = none :=
        (get_eq_none (t := ⟨rest, unique'⟩)).mpr fresh
      cases hp : p k v' <;> simp [none_left, hp]
    · have hb : (k == k') = false := by simpa using h
      have off : ¬ p k' v' = true := fun hp => h (at_key _ _ hp).symm
      simp [List.lookup_cons, hb, off]

def erase (t : Table K V) (k : K) : Table K V :=
  ⟨t.entries.filter fun row => row.1 ≠ k, (List.filter_sublist.map Prod.fst).nodup t.unique⟩

theorem erase_get (t : Table K V) (k k' : K) :
    (t.erase k).get k' = if k' = k then none else t.get k' := by
  split
  next same =>
    subst same
    rw [get_eq_none]
    simp [erase]
  next other =>
    ext v
    rw [get_eq_some, get_eq_some]
    simp [erase, other]

theorem erase_sublist (t : Table K V) (k : K) : (t.erase k).entries.Sublist t.entries :=
  List.filter_sublist

theorem erase_perm (h : t.get k = some v) :
    ((k, v) :: (t.erase k).entries).Perm t.entries := by
  have fresh : (k, v) ∉ (t.erase k).entries := by simp [erase]
  have unique : ∀ u : Table K V, u.entries.Nodup := fun u => List.Nodup.of_map _ u.unique
  refine (List.perm_ext_iff_of_nodup (List.nodup_cons.mpr ⟨fresh, unique _⟩) (unique t)).mpr ?_
  rintro ⟨k', v'⟩
  by_cases same : k' = k
  · subst same
    rw [← get_eq_some (t := t), h]
    simp [erase, eq_comm]
  · simp [erase, same]

/-- The entries that meet a condition. -/
def retain (t : Table K V) (p : K → V → Bool) : Table K V :=
  ⟨t.entries.filter fun row => p row.1 row.2, (List.filter_sublist.map Prod.fst).nodup t.unique⟩

omit [DecidableEq K] in
theorem retain_perm (t : Table K V) (p : K → V → Bool) :
    ((t.retain p).entries ++ (t.retain fun k v => !p k v).entries).Perm t.entries :=
  List.filter_append_perm ..

/-- The entry under the key, whatever stood there before. -/
def put (t : Table K V) (k : K) (v : V) : Table K V :=
  ⟨(k, v) :: (t.erase k).entries, by
    refine List.nodup_cons.mpr ⟨?_, (t.erase k).unique⟩
    simp [erase]⟩

theorem put_get (t : Table K V) (k k' : K) (v : V) :
    (t.put k v).get k' = if k' = k then some v else t.get k' := by
  by_cases same : k' = k
  · subst same
    simp [put, get]
  · have rest := erase_get t k k'
    have hb : (k' == k) = false := by simpa using same
    rw [if_neg same] at rest ⊢
    rw [← rest]
    simp [put, get, List.lookup_cons, hb]

theorem erase_size (h : t.get k = some v) :
    (t.erase k).size + 1 = t.size :=
  (erase_perm h).length_eq

theorem erase_put (t : Table K V) (k : K) (v : V) : (t.erase k).put k v = t.put k v := by
  simp only [put, erase, List.filter_filter, Bool.and_self]

theorem put_size (t : Table K V) (k : K) (v : V) : (t.put k v).size = (t.erase k).size + 1 := rfl

theorem put_erase (free : t.get k = none) (v : V) :
    (t.put k v).erase k = t := by
  have others : ∀ a b, (a, b) ∈ t.entries → ¬ a = k := by
    intro a b there same
    exact get_eq_none.mp free (List.mem_map.mpr ⟨(a, b), there, same⟩)
  obtain ⟨entries, unique⟩ := t
  simp only [put, erase, mk.injEq]
  simpa using others

/-- `INSERT … ON CONFLICT DO UPDATE SET … WHERE …`: `merge` gives the new row, or nothing
when the condition on the old row fails. -/
def upsert (t : Table K V) (k : K) (v : V) (merge : V → Option V) : Nat × Table K V :=
  match t.insert k v with
  | some t' => (1, t')
  | none => t.modify (fun k' old => decide (k' = k) && (merge old).isSome)
      fun old => (merge old).getD old

theorem upsert_fresh (v : V) (merge : V → Option V) (h : t.get k = none) :
    (t.upsert k v merge).1 = 1 ∧
      ∀ k', (t.upsert k v merge).2.get k' = if k' = k then some v else t.get k' := by
  cases hi : t.insert k v with
  | none => exact absurd h (insert_eq_none.mp hi)
  | some t' =>
    simp only [upsert, hi, true_and]
    exact insert_get hi

theorem upsert_there (v : V) (merge : V → Option V) {old : V} (h : t.get k = some old) :
    (t.upsert k v merge).1 = (merge old).isSome.toNat ∧
      ∀ k', (t.upsert k v merge).2.get k' =
        if k' = k then some ((merge old).getD old) else t.get k' := by
  have hi : t.insert k v = none := insert_eq_none.mpr (by simp [h])
  simp only [upsert, hi]
  constructor
  · rw [modify_count (k := k) (fun k' v hp => by simpa using (Bool.and_eq_true_iff.mp hp).1), h]
    simp
  · intro k'
    rw [modify_get]
    by_cases hk : k' = k
    · subst hk
      rw [h]
      cases hm : merge old <;> simp [hm]
    · simp [hk]

theorem upsert_none {merge : V → Option V} (h : (t.upsert k v merge).1 = 0) :
    (t.upsert k v merge).2 = t := by
  unfold upsert at h ⊢
  split
  next hi =>
    rw [hi] at h
    cases h
  next hi =>
    rw [hi] at h
    exact modify_none h

end Table

end MatrixRuntime.KeyedTable
