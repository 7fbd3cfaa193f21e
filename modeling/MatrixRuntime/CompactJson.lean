import MatrixRuntime.JsonValue
import MatrixRuntime.TextScan

/-! The compact JSON text of values without doubles, printed and parsed on lists of
characters so that it evaluates. It stands for the JSON library where a concrete text is
needed. -/

namespace MatrixRuntime.CompactJson

open JsonValue TextScan

def hexDigit (n : Nat) : Char :=
  if n < 10 then Char.ofNat (48 + n) else Char.ofNat (87 + n)

def escape (c : Char) : List Char :=
  if c = '"' then ['\\', '"']
  else if c = '\\' then ['\\', '\\']
  else if c = '\n' then ['\\', 'n']
  else if c = '\r' then ['\\', 'r']
  else if c = '\t' then ['\\', 't']
  else if c.toNat < 32 then ['\\', 'u', '0', '0', hexDigit (c.toNat / 16), hexDigit (c.toNat % 16)]
  else [c]

def quoted (s : String) : List Char := '"' :: s.toList.flatMap escape ++ ['"']

def printInt (n : Int) : List Char :=
  if n < 0 then '-' :: (Nat.toDigits 10 n.natAbs) else Nat.toDigits 10 n.natAbs

def print : Json → List Char
  | .null => "null".toList
  | .bool true => "true".toList
  | .bool false => "false".toList
  | .num n => printInt n
  | .real _ => "null".toList
  | .str s => quoted s
  | .arr items => '[' :: printItems items ++ [']']
  | .obj fields => '\x7b' :: printFields fields ++ ['\x7d']
where
  printItems : List Json → List Char
    | [] => []
    | [v] => print v
    | v :: vs => print v ++ ',' :: printItems vs
  printFields : List (String × Json) → List Char
    | [] => []
    | [(k, v)] => quoted k ++ ':' :: print v
    | (k, v) :: rest => quoted k ++ ':' :: print v ++ ',' :: printFields rest

/-- The rest of a string after its opening quote. -/
def scanString : List Char → List Char → Option (String × List Char)
  | [], _ => none
  | '"' :: rest, acc => some (String.ofList acc.reverse, rest)
  | '\\' :: 'n' :: rest, acc => scanString rest ('\n' :: acc)
  | '\\' :: 'r' :: rest, acc => scanString rest ('\r' :: acc)
  | '\\' :: 't' :: rest, acc => scanString rest ('\t' :: acc)
  | '\\' :: c :: rest, acc => if c = '"' ∨ c = '\\' then scanString rest (c :: acc) else none
  | c :: rest, acc => scanString rest (c :: acc)

def scanNat (cs : List Char) : Option (Nat × List Char) :=
  let digits := cs.takeWhile fun c => (digit c).isSome
  if digits.isEmpty then none
  else (digitsValue digits 0).map fun n => (n, cs.dropWhile fun c => (digit c).isSome)

mutual

def scanValue : Nat → List Char → Option (Json × List Char)
  | 0, _ => none
  | fuel + 1, cs =>
    match cs with
    | 'n' :: 'u' :: 'l' :: 'l' :: rest => some (.null, rest)
    | 't' :: 'r' :: 'u' :: 'e' :: rest => some (.bool true, rest)
    | 'f' :: 'a' :: 'l' :: 's' :: 'e' :: rest => some (.bool false, rest)
    | '"' :: rest => (scanString rest []).map fun (s, rest) => (.str s, rest)
    | '[' :: ']' :: rest => some (.arr [], rest)
    | '[' :: rest => (scanItems fuel rest).map fun (items, rest) => (.arr items, rest)
    | '\x7b' :: '\x7d' :: rest => some (.obj [], rest)
    | '\x7b' :: rest => (scanFields fuel rest).map fun (fields, rest) => (.obj fields, rest)
    | '-' :: rest => (scanNat rest).map fun (n, rest) => (.num (-n), rest)
    | _ => (scanNat cs).map fun (n, rest) => (.num n, rest)

def scanItems : Nat → List Char → Option (List Json × List Char)
  | 0, _ => none
  | fuel + 1, cs =>
    match scanValue fuel cs with
    | some (v, ']' :: rest) => some ([v], rest)
    | some (v, ',' :: rest) => (scanItems fuel rest).map fun (vs, rest) => (v :: vs, rest)
    | _ => none

def scanFields : Nat → List Char → Option (List (String × Json) × List Char)
  | 0, _ => none
  | fuel + 1, cs =>
    match cs with
    | '"' :: cs =>
      match scanString cs [] with
      | some (k, ':' :: cs) =>
        match scanValue fuel cs with
        | some (v, '\x7d' :: rest) => some ([(k, v)], rest)
        | some (v, ',' :: rest) =>
          (scanFields fuel rest).map fun (fields, rest) => ((k, v) :: fields, rest)
        | _ => none
      | _ => none
    | _ => none

end

def compact : JsonText where
  encode v := String.ofList (print v)
  decode s :=
    match scanValue (s.toList.length + 1) s.toList with
    | some (v, []) => .ok v
    | _ => .error "expected value"

example : (compact.decode (compact.encode (.obj [("a", .arr [.num (-12), .bool true]),
    ("b", .str "x\"y")]))).toOption.map compact.encode =
    some "\x7b\"a\":[-12,true],\"b\":\"x\\\"y\"\x7d" := by
  decide +kernel

end MatrixRuntime.CompactJson
