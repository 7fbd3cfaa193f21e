/-! JSON values as the kernel passes them around. The kernel's own counters and stamps are
integers; other numbers are kept by the bits of their double. Objects list their fields
in the order of their names. -/

namespace MatrixRuntime.JsonValue

inductive Json where
  | null
  | bool (value : Bool)
  | num (value : Int)
  | real (bits : UInt64)
  | str (value : String)
  | arr (items : List Json)
  | obj (fields : List (String × Json))

namespace Json

/-- The field `key` of an object; nothing of any other value. -/
def get (value : Json) (key : String) : Option Json :=
  match value with
  | obj fields => fields.lookup key
  | _ => none

def asStr : Json → Option String
  | str value => some value
  | _ => none

def asI64 : Json → Option Int
  | num value => some value
  | _ => none

mutual

def same : Json → Json → Bool
  | null, null => true
  | bool a, bool b => a == b
  | num a, num b => a == b
  | real a, real b => a == b
  | str a, str b => a == b
  | arr a, arr b => sameItems a b
  | obj a, obj b => sameFields a b
  | _, _ => false

def sameItems : List Json → List Json → Bool
  | [], [] => true
  | a :: as, b :: bs => same a b && sameItems as bs
  | _, _ => false

def sameFields : List (String × Json) → List (String × Json) → Bool
  | [], [] => true
  | (j, a) :: as, (k, b) :: bs => j == k && same a b && sameFields as bs
  | _, _ => false

end

mutual

theorem same_iff : ∀ a b : Json, same a b = true ↔ a = b
  | null, b => by cases b <;> simp [same]
  | bool _, b => by cases b <;> simp [same]
  | num _, b => by cases b <;> simp [same]
  | real _, b => by cases b <;> simp [same]
  | str _, b => by cases b <;> simp [same]
  | arr as, b => by cases b <;> simp [same, sameItems_iff as]
  | obj as, b => by cases b <;> simp [same, sameFields_iff as]

theorem sameItems_iff : ∀ as bs : List Json, sameItems as bs = true ↔ as = bs
  | [], bs => by cases bs <;> simp [sameItems]
  | a :: as, bs => by cases bs <;> simp [sameItems, same_iff a, sameItems_iff as]

theorem sameFields_iff : ∀ as bs : List (String × Json), sameFields as bs = true ↔ as = bs
  | [], bs => by cases bs <;> simp [sameFields]
  | (j, a) :: as, bs => by
    cases bs with
    | nil => simp [sameFields]
    | cons b bs =>
      obtain ⟨k, b⟩ := b
      simp [sameFields, same_iff a, sameFields_iff as]

end

instance : DecidableEq Json := fun a b => decidable_of_iff (same a b = true) (same_iff a b)

end Json

/-- The JSON library's texts: `to_string` and `from_str`, whose error is a message. -/
structure JsonText where
  encode : Json → String
  decode : String → Except String Json

end MatrixRuntime.JsonValue
