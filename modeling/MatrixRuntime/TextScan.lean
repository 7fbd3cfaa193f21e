import Mathlib.Algebra.Group.Nat.Hom

/-! The string operations of the Rust standard library that the kernel uses,
on lists of characters so that they evaluate in the kernel of the logic. -/

namespace MatrixRuntime.TextScan

/-- The Unicode `White_Space` property. -/
def isWhitespace (c : Char) : Bool :=
  let n := c.toNat
  (9 ≤ n && n ≤ 13) || n == 32 || n == 133 || n == 160 || n == 5760 ||
    (8192 ≤ n && n ≤ 8202) || n == 8232 || n == 8233 || n == 8239 || n == 8287 || n == 12288

def trimChars (cs : List Char) : List Char :=
  ((cs.dropWhile isWhitespace).reverse.dropWhile isWhitespace).reverse

/-- `s.trim().is_empty()` -/
def isBlank (s : String) : Bool := s.toList.all isWhitespace

def digit (c : Char) : Option Nat :=
  if '0' ≤ c && c ≤ '9' then some (c.toNat - 48) else none

def digitsValue : List Char → Nat → Option Nat
  | [], acc => some acc
  | c :: cs, acc => (digit c).bind fun d => digitsValue cs (acc * 10 + d)

/-- `str::parse::<u64>`: an optional plus sign, at least one digit, no overflow. -/
def parseU64 (cs : List Char) : Option Nat :=
  let body := match cs with
    | '+' :: rest => rest
    | _ => cs
  if body.isEmpty then none
  else (digitsValue body 0).filter fun n => decide (n < 2 ^ 64)

/-- Split at the last occurrence of `c`, which is dropped. -/
def rsplitOnce (c : Char) (cs : List Char) : Option (List Char × List Char) :=
  match cs with
  | [] => none
  | x :: xs =>
    match rsplitOnce c xs with
    | some (before, after) => some (x :: before, after)
    | none => if x = c then some ([], xs) else none

end MatrixRuntime.TextScan
