import Mathlib
import MatrixRuntime.KernelContexts
import MatrixRuntime.TextScan

/-! The text that names an activation between kernels: the format of a reference, the rule
`provision` has for ids, which keeps the separators out of the logical name, and the reader of
the route manager. -/

namespace MatrixRuntime.InstanceNames

open KernelContexts TextScan

/-- No byte of a character outside ASCII is among these, so the bytes are tested by
characters. -/
def idChar (c : Char) : Bool := c.isAlphanum || c == '-' || c == '_'

/-- The ids `provision` does not refuse as invalid. -/
def validId (id : String) : Bool :=
  !(id.isEmpty || decide (id.utf8ByteSize > 128) || !id.toList.all idChar)

def describe (r : InstanceRef) : String :=
  s!"e{r.epoch}:{r.logical}:{r.instanceId}:{r.context}#{r.generation}"

def parseDescribe (s : String) : Option (Nat × Nat) :=
  match s.toList with
  | 'e' :: s => do
    let (head, generation) ← rsplitOnce '#' s
    match head.splitOn ':' with
    | [epoch, _, inst, _] =>
      let _ ← parseU64 epoch
      let inst ← parseU64 inst
      let generation ← parseU64 generation
      some (inst, generation)
    | _ => none
  | _ => none

/-! ### Decimals -/

theorem digitsValue_append (front back : List Char) (acc : Nat) :
    digitsValue (front ++ back) acc = (digitsValue front acc).bind (digitsValue back) := by
  induction front generalizing acc with
  | nil => rfl
  | cons c front ih =>
    simp only [List.cons_append, digitsValue, ih]
    cases digit c <;> rfl

theorem digit_digitChar {d : Nat} (small : d < 10) : digit d.digitChar = some d := by
  interval_cases d <;> rfl

theorem digitsValue_toDigits (n : Nat) : digitsValue (Nat.toDigits 10 n) 0 = some n := by
  induction n using Nat.strongRecOn with
  | ind n ih =>
    rw [Nat.toDigits_eq_if (by decide)]
    split_ifs with small
    · simp [digitsValue, digit_digitChar small]
    · rw [digitsValue_append, ih _ (by omega)]
      simp only [Option.bind_some, digitsValue, digit_digitChar (Nat.mod_lt n (by decide : 10 > 0))]
      exact congrArg some (by omega)

theorem parseU64_toDigits {n : Nat} (fits : n < 2 ^ 64) :
    parseU64 (Nat.toDigits 10 n) = some n := by
  have value := digitsValue_toDigits n
  cases digits : Nat.toDigits 10 n with
  | nil => simp at digits
  | cons c rest =>
    have first : c ≠ '+' := fun plus => by
      have := Nat.isDigit_of_mem_toDigits (by decide) (by decide) (digits ▸ List.mem_cons_self ..)
      simp [plus] at this
    rw [digits] at value
    simpa [parseU64, first, value] using fits

theorem not_mem_toDigits {c : Char} (other : c.isDigit = false) (n : Nat) :
    c ∉ Nat.toDigits 10 n := fun there => by
  simp [Nat.isDigit_of_mem_toDigits (by decide) (by decide) there] at other

/-! ### Separators -/

theorem rsplitOnce_none {c : Char} {cs : List Char} (out : c ∉ cs) : rsplitOnce c cs = none := by
  induction cs with
  | nil => rfl
  | cons x xs ih =>
    rw [List.mem_cons, not_or] at out
    simp [rsplitOnce, ih out.2, Ne.symm out.1]

theorem rsplitOnce_last {c : Char} (front : List Char) {back : List Char} (out : c ∉ back) :
    rsplitOnce c (front ++ c :: back) = some (front, back) := by
  induction front with
  | nil => simp [rsplitOnce, rsplitOnce_none out]
  | cons x front ih => simp [rsplitOnce, ih]

theorem colon_not_mem {id : String} (valid : validId id = true) : ':' ∉ id.toList := fun there => by
  simp only [validId, Bool.not_or, Bool.not_not, Bool.and_eq_true, List.all_eq_true] at valid
  exact absurd (valid.2 _ there) (by decide)

/-- What stands between the colons. -/
def pieces (r : InstanceRef) : List (List Char) :=
  [Nat.toDigits 10 r.epoch, r.logical.toList, Nat.toDigits 10 r.instanceId,
    Nat.toDigits 10 r.context]

theorem describe_toList (r : InstanceRef) : (describe r).toList =
    'e' :: ([':'].intercalate (pieces r) ++ '#' :: Nat.toDigits 10 r.generation) := by
  simp [describe, pieces, toString, List.intercalate]

/-- The reader gets back the instance and the generation of a reference whose logical id
`provision` would take. -/
theorem parseDescribe_describe (r : InstanceRef) (valid : validId r.logical = true)
    (epoch : r.epoch < 2 ^ 64) (inst : r.instanceId < 2 ^ 64) (generation : r.generation < 2 ^ 64) :
    parseDescribe (describe r) = some (r.instanceId, r.generation) := by
  have apart : ∀ piece ∈ pieces r, ':' ∉ piece := by
    simp [pieces, colon_not_mem valid, not_mem_toDigits]
  have split := List.splitOn_intercalate ':' apart (List.cons_ne_nil _ _)
  have last := rsplitOnce_last ([':'].intercalate (pieces r))
    (not_mem_toDigits (rfl : '#'.isDigit = false) r.generation)
  simp only [parseDescribe, describe_toList, last, Option.bind_eq_bind, Option.bind_some, split]
  simp only [pieces, parseU64_toDigits, epoch, inst, generation, Option.bind_some]

theorem parseDescribe_largest : let r : InstanceRef := ⟨2 ^ 64 - 1, 2 ^ 64 - 1, 0, "a-b_9", 7⟩
    validId r.logical = true ∧ parseDescribe (describe r) = some (2 ^ 64 - 1, 7) :=
  ⟨by decide, parseDescribe_describe _ (by decide) (by decide) (by decide) (by decide)⟩

end MatrixRuntime.InstanceNames
