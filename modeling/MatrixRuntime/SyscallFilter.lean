import Mathlib

/-! The seccomp profile of a sandboxed component: a classic BPF program that is generated from a
list of system calls. -/

namespace MatrixRuntime.SyscallFilter

/-- What the filter can read of a system call. -/
structure SeccompData where
  nr : BitVec 32
  arch : BitVec 32
  arg0 : BitVec 64

/-- The word at an offset; the profile reads no other argument. -/
def SeccompData.load (d : SeccompData) (offset : BitVec 32) : Option (BitVec 32) :=
  if offset = 0 then some d.nr
  else if offset = 4 then some d.arch
  else if offset = 16 then some (d.arg0.setWidth 32)
  else if offset = 20 then some (d.arg0.extractLsb' 32 32)
  else none

structure SockFilter where
  code : Nat
  jt : Nat
  jf : Nat
  k : BitVec 32

/-- Jumps are relative to the next instruction. A program that runs off its end, or meets an
instruction that the profile does not use, has no verdict. -/
def run (d : SeccompData) (program : List SockFilter) (acc : BitVec 32) : Option (BitVec 32) :=
  match program with
  | [] => none
  | i :: rest =>
    match i.code with
    | 0x20 => (d.load i.k).bind fun word => run d rest word
    | 0x15 => run d (rest.drop (if acc = i.k then i.jt else i.jf)) acc
    | 0x45 => run d (rest.drop (if acc &&& i.k ≠ 0 then i.jt else i.jf)) acc
    | 0x06 => some i.k
    | _ => none
termination_by program.length
decreasing_by all_goals simp only [List.length_cons, List.length_drop]; omega

/-! ### The program -/

def stmt (code : Nat) (k : BitVec 32) : SockFilter := ⟨code, 0, 0, k⟩

def jump (k : BitVec 32) (jt jf : Nat) : SockFilter := ⟨0x15, jt, jf, k⟩

def deny : SockFilter := stmt 0x06 (0x00050000 ||| 1)

/-- `fork`, `vfork`, `unshare`, `setns`, `ptrace`, `mount`, `bpf` and `keyctl`. -/
def denied : List (BitVec 32) := [57, 58, 272, 308, 101, 165, 321, 250]

def filter : List SockFilter :=
  [stmt 0x20 4, jump 0xc000003e 1 0, stmt 0x06 0x80000000, stmt 0x20 0] ++
  ([⟨0x45, 0, 1, 0x40000000⟩, deny] ++
  (denied.flatMap (fun nr => [jump nr 0 1, deny]) ++
  ([jump 435 0 1, stmt 0x06 (0x00050000 ||| 38)] ++
  [jump 56 0 3, stmt 0x20 16, ⟨0x45, 1, 0, 0x00010000⟩, deny, stmt 0x06 0x7fff0000])))

/-! ### What it is for -/

inductive Verdict where
  | killProcess
  | errno (code : BitVec 16)
  | allow
  deriving DecidableEq

def Verdict.action : Verdict → BitVec 32
  | .killProcess => 0x80000000
  | .errno code => 0x00050000 ||| code.setWidth 32
  | .allow => 0x7fff0000

/-- A number with bit 30 is one of the x32 interface; `CLONE_THREAD` is bit 16 of the flags. -/
def intended (d : SeccompData) : Verdict :=
  if d.arch ≠ 0xc000003e then .killProcess
  else if d.nr.getLsbD 30 then .errno 1
  else if d.nr ∈ denied then .errno 1
  else if d.nr = 435 then .errno 38
  else if d.nr = 56 then if d.arg0.getLsbD 16 then .allow else .errno 1
  else .allow

variable {d : SeccompData} {rest : List SockFilter} {acc k : BitVec 32} {jt jf : Nat}

theorem run_load :
    run d (stmt 0x20 k :: rest) acc = (d.load k).bind fun word => run d rest word := by
  rw [run]
  rfl

theorem run_jump : run d (jump k jt jf :: rest) acc =
    run d (rest.drop (if acc = k then jt else jf)) acc := by
  rw [run]
  rfl

theorem run_set : run d (⟨0x45, jt, jf, k⟩ :: rest) acc =
    run d (rest.drop (if acc &&& k ≠ 0 then jt else jf)) acc := by
  rw [run]
  rfl

theorem run_ret : run d (stmt 0x06 k :: rest) acc = some k := by
  rw [run]
  rfl

/-- The chain of comparisons answers for every number it was made from. -/
theorem run_denials (nrs : List (BitVec 32)) (rest : List SockFilter) (acc : BitVec 32) :
    run d (nrs.flatMap (fun nr => [jump nr 0 1, deny]) ++ rest) acc =
      if acc ∈ nrs then some deny.k else run d rest acc := by
  induction nrs with
  | nil => simp
  | cons nr nrs ih =>
    rw [List.flatMap_cons, List.append_assoc, List.cons_append, run_jump]
    by_cases same : acc = nr
    · rw [if_pos same, if_pos (same ▸ List.mem_cons_self)]
      exact run_ret
    · rw [if_neg same]
      have tail : acc ∈ nr :: nrs ↔ acc ∈ nrs := by simp [same]
      simp only [tail]
      exact ih

theorem and_bit_ne_zero {w : Nat} {x m : BitVec w} {i : Nat} (bit : m = BitVec.twoPow w i)
    (inside : i < w) : x &&& m ≠ 0 ↔ x.getLsbD i = true := by
  subst bit
  rw [BitVec.and_twoPow]
  cases x.getLsbD i with
  | false => simp
  | true =>
    have positive : BitVec.twoPow w i ≠ 0 := by
      intro zero
      have := congrArg (·.getLsbD i) zero
      simp [inside] at this
    simpa using positive

/-- The last block: only a thread may be cloned. -/
theorem run_clone : run d [jump 56 0 3, stmt 0x20 16, ⟨0x45, 1, 0, 0x00010000⟩, deny,
    stmt 0x06 0x7fff0000] acc = some (if acc = 56 then
      if d.arg0.getLsbD 16 then Verdict.allow else .errno 1 else .allow).action := by
  have thread : d.arg0.setWidth 32 &&& 0x00010000 ≠ 0 ↔ d.arg0.getLsbD 16 = true := by
    rw [and_bit_ne_zero (i := 16) (by decide) (by decide)]
    simp
  rw [run_jump]
  by_cases clone : acc = 56
  · rw [if_pos clone, if_pos clone, List.drop_zero, run_load]
    change run d _ (d.arg0.setWidth 32) = _
    rw [run_set]
    by_cases set : d.arg0.getLsbD 16 = true
    · rw [if_pos (thread.mpr set), if_pos set]
      exact run_ret
    · rw [if_neg (mt thread.mp set), if_neg set]
      exact run_ret
  · rw [if_neg clone, if_neg clone]
    exact run_ret

/-- The program gives the intended verdict on every system call. -/
theorem run_filter (d : SeccompData) : run d filter 0 = some (intended d).action := by
  have x32 : d.nr &&& 0x40000000 ≠ 0 ↔ d.nr.getLsbD 30 = true :=
    and_bit_ne_zero (by decide) (by decide)
  unfold filter intended
  simp only [List.cons_append, List.nil_append]
  rw [run_load]
  change run d _ d.arch = _
  rw [run_jump]
  by_cases native : d.arch = 0xc000003e
  swap
  · rw [if_neg native, if_pos native]
    exact run_ret
  rw [if_pos native, if_neg (not_not_intro native), List.drop_succ_cons, List.drop_zero, run_load]
  change run d _ d.nr = _
  rw [run_set]
  by_cases foreign : d.nr.getLsbD 30 = true
  · rw [if_pos (x32.mpr foreign), if_pos foreign]
    exact run_ret
  rw [if_neg (mt x32.mp foreign), if_neg foreign, List.drop_succ_cons, List.drop_zero, run_denials]
  by_cases listed : d.nr ∈ denied
  · rw [if_pos listed, if_pos listed]
    rfl
  rw [if_neg listed, if_neg listed, run_jump]
  by_cases clone3 : d.nr = 435
  · rw [if_pos clone3, if_pos clone3]
    exact run_ret
  · rw [if_neg clone3, if_neg clone3]
    exact run_clone

end MatrixRuntime.SyscallFilter
