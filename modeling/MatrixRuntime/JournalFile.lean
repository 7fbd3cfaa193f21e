import Mathlib
import MatrixRuntime.CompactJson

/-! The write-ahead journal: a file of JSON lines, read back line by line when it is opened
again. What a crash leaves is the file cut at any byte. -/

namespace MatrixRuntime.JournalFile

open JsonValue CompactJson

structure Entry where
  seq : Nat
  fiber : String
  kind : String
  args : Json
  ts : String
  undo : Json
  v : Nat
  deriving DecidableEq

/-- What one call of `append` is given, and the time it reads. -/
structure Call where
  fiber : String
  kind : String
  args : Json
  ts : String
  undo : Json
  deriving DecidableEq

structure Journal where
  file : List UInt8
  seq : Nat
  coreV2 : Bool

def asU64 : Json → Option Nat
  | .num n => if 0 ≤ n ∧ n.toNat < 2 ^ 64 then some n.toNat else none
  | _ => none

def Entry.json (e : Entry) : Json :=
  .obj [("args", e.args), ("fiber", .str e.fiber), ("kind", .str e.kind), ("seq", .num e.seq),
    ("ts", .str e.ts), ("undo", e.undo), ("v", .num e.v)]

def Entry.ofJson (v : Json) : Entry where
  seq := ((v.get "seq").bind asU64).getD 0
  fiber := ((v.get "fiber").bind Json.asStr).getD ""
  kind := ((v.get "kind").bind Json.asStr).getD ""
  args := (v.get "args").getD .null
  ts := ((v.get "ts").bind Json.asStr).getD ""
  undo := (v.get "undo").getD .null
  v := ((v.get "v").bind asU64).getD 1

def bytes (s : String) : List UInt8 := s.toUTF8.data.toList

def utf8 (line : List UInt8) : Option String := String.fromUTF8? ⟨line.toArray⟩

/-- The lines of a buffered reader: a line feed ends a line and takes one carriage return
before it along; what follows the last one is a line too, if there is anything. -/
def lines : List UInt8 → List (List UInt8)
  | [] => []
  | b :: rest =>
    if b = 10 then [] :: lines rest
    else if b = 13 ∧ rest.head? = some 10 then lines rest
    else
      match lines rest with
      | [] => [[b]]
      | line :: others => (b :: line) :: others

/-- The entries of the lines: the first line that is not UTF-8 ends them, one that is not JSON
is skipped. -/
def scan (text : JsonText) : List (List UInt8) → List Entry
  | [] => []
  | line :: rest =>
    match utf8 line with
    | none => []
    | some s =>
      match text.decode s with
      | .error _ => scan text rest
      | .ok v => Entry.ofJson v :: scan text rest

def bySeq (a b : Entry) : Prop := a.seq ≤ b.seq

instance : DecidableRel bySeq := fun a b => inferInstanceAs (Decidable (a.seq ≤ b.seq))

instance : Std.Total bySeq := ⟨fun a b => Nat.le_total a.seq b.seq⟩

instance : IsTrans Entry bySeq := ⟨fun _ _ _ => Nat.le_trans⟩

def readAll (text : JsonText) (file : List UInt8) : List Entry :=
  (scan text (lines file)).insertionSort bySeq

def lastSeq (text : JsonText) (file : List UInt8) : Nat :=
  ((readAll text file).getLast?.map Entry.seq).getD 0

/-- `Journal::open` on a file's bytes. -/
def openJournal (text : JsonText) (file : List UInt8) (coreV2 : Bool) : Journal where
  file
  seq := lastSeq text file
  coreV2

def Journal.entry (j : Journal) (call : Call) : Entry where
  seq := (j.seq + 1) % 2 ^ 64
  fiber := call.fiber
  kind := call.kind
  args := call.args
  ts := call.ts
  undo := call.undo
  v := if j.coreV2 then 2 else 1

def Journal.append (text : JsonText) (j : Journal) (call : Call) : Nat × Journal :=
  let e := j.entry call
  (e.seq, { j with file := j.file ++ bytes (text.encode e.json ++ "\n"), seq := e.seq })

def Journal.appendAll (text : JsonText) (j : Journal) : List Call → Journal
  | [] => j
  | call :: calls => (j.append text call).2.appendAll text calls

/-- The entries that a list of calls appends. -/
def Journal.entries (text : JsonText) (j : Journal) : List Call → List Entry
  | [] => []
  | call :: calls => j.entry call :: (j.append text call).2.entries text calls

/-! ### Lines -/

variable {file line rest : List UInt8}

theorem lines_line (whole : 10 ∉ line) (ends : line.getLast? ≠ some 13) :
    lines (line ++ 10 :: rest) = line :: lines rest := by
  induction line with
  | nil => simp [lines]
  | cons b line ih =>
    simp only [List.mem_cons, not_or] at whole
    have apart : ¬(b = 13 ∧ (line ++ 10 :: rest).head? = some 10) := by
      rintro ⟨rfl, first⟩
      cases line with
      | nil => exact ends rfl
      | cons c line =>
        simp only [List.cons_append, List.head?_cons, Option.some.injEq] at first
        exact whole.2 (by simp [first])
    have ends' : line.getLast? ≠ some 13 := by
      intro last
      cases line with
      | nil => cases last
      | cons c line => exact ends (by rw [List.getLast?_cons_cons]; exact last)
    rw [List.cons_append, lines, if_neg (Ne.symm whole.1), if_neg apart, ih whole.2 ends']

theorem lines_ne_nil (some : file ≠ []) : lines file ≠ [] := by
  induction file with
  | nil => exact absurd rfl some
  | cons b file ih =>
    rw [lines]
    split
    · exact List.cons_ne_nil _ _
    split
    · rename_i before
      refine ih ?_
      rintro rfl
      cases before.2
    · split <;> exact List.cons_ne_nil _ _

/-- Lines that end with a line feed are read independently of what follows. -/
theorem lines_append (file rest : List UInt8) :
    lines (file ++ [10] ++ rest) = lines (file ++ [10]) ++ lines rest := by
  induction file with
  | nil => simp [lines]
  | cons b file ih =>
    have first : (file ++ [10] ++ rest).head? = (file ++ [10]).head? := by cases file <;> rfl
    obtain ⟨line, others, split⟩ : ∃ line others, lines (file ++ [10]) = line :: others :=
      List.exists_cons_of_ne_nil (lines_ne_nil (by simp))
    simp only [List.cons_append, lines, first, ih, split]
    split
    · rfl
    · split <;> rfl

/-! ### What a cut leaves -/

/-- The bytes after the last line feed. -/
def torn (file : List UInt8) : List UInt8 := (file.reverse.takeWhile (· ≠ 10)).reverse

/-- The bytes up to and with the last line feed. -/
def complete (file : List UInt8) : List UInt8 := (file.reverse.dropWhile (· ≠ 10)).reverse

theorem complete_append_torn (file : List UInt8) : complete file ++ torn file = file := by
  rw [complete, torn, ← List.reverse_append, List.takeWhile_append_dropWhile, List.reverse_reverse]

theorem torn_whole (file : List UInt8) : 10 ∉ torn file := by
  intro mem
  simpa using List.mem_takeWhile_imp (List.mem_reverse.1 mem)

theorem complete_ends (file : List UInt8) :
    complete file = [] ∨ ∃ body, complete file = body ++ [10] := by
  cases shape : file.reverse.dropWhile (· ≠ 10) with
  | nil => exact .inl (by rw [complete, shape]; rfl)
  | cons b before =>
    have last := List.head?_dropWhile_not (fun b : UInt8 => decide (b ≠ 10)) file.reverse
    rw [shape] at last
    have : b = 10 := by simpa using last
    refine .inr ⟨before.reverse, ?_⟩
    rw [complete, shape, List.reverse_cons, this]

theorem lines_complete (file rest : List UInt8) :
    lines (complete file ++ rest) = lines (complete file) ++ lines rest := by
  rcases complete_ends file with none | ⟨body, ends⟩
  · rw [none]
    rfl
  · rw [ends]
    exact lines_append body rest

variable {text : JsonText} {l : List UInt8} {xs ys : List (List UInt8)} {e : Entry}

def Readable (xs : List (List UInt8)) : Prop := ∀ line ∈ xs, (utf8 line).isSome

instance (xs : List (List UInt8)) : Decidable (Readable xs) :=
  inferInstanceAs (Decidable (∀ line ∈ xs, _))

/-- The entry of one line. -/
def parse (text : JsonText) (line : List UInt8) : Option Entry :=
  (utf8 line).bind fun s =>
    match text.decode s with
    | .error _ => none
    | .ok v => some (Entry.ofJson v)

theorem scan_append : scan text (xs ++ ys) =
    if Readable xs then scan text xs ++ scan text ys else scan text xs := by
  induction xs with
  | nil => simp [Readable, scan]
  | cons line xs ih =>
    rw [List.cons_append, scan, scan]
    cases read : utf8 line with
    | none => rw [if_neg (by simp [Readable, read])]
    | some s =>
      have readable : Readable (line :: xs) ↔ Readable xs := by simp [Readable, read]
      simp only [readable, ih]
      cases text.decode s with
      | error _ => rfl
      | ok v =>
        simp only
        split <;> rfl

theorem scan_cons (mem : e ∈ scan text (line :: xs)) :
    parse text line = some e ∨ e ∈ scan text xs := by
  rw [scan] at mem
  rw [parse]
  cases read : utf8 line with
  | none => simp [read] at mem
  | some s =>
    cases decoded : text.decode s with
    | error _ => exact .inr (by simpa [read, decoded] using mem)
    | ok v => simpa [read, decoded, eq_comm] using mem

theorem scan_parsed (parsed : parse text line = some e) :
    scan text (line :: xs) = e :: scan text xs := by
  rw [parse] at parsed
  rw [scan]
  cases read : utf8 line with
  | none => simp [read] at parsed
  | some s =>
    cases decoded : text.decode s with
    | error _ => simp [read, decoded] at parsed
    | ok v => simpa [read, decoded] using parsed

theorem mem_readAll : e ∈ readAll text file ↔ e ∈ scan text (lines file) :=
  (List.perm_insertionSort bySeq _).mem_iff

theorem seq_le_lastSeq (mem : e ∈ readAll text file) : e.seq ≤ lastSeq text file := by
  have sorted : (readAll text file).Pairwise bySeq := List.pairwise_insertionSort bySeq _
  rcases List.eq_nil_or_concat (readAll text file) with none | ⟨before, last, shape⟩
  · rw [none] at mem
    cases mem
  · rw [lastSeq, shape, List.concat_eq_append, List.getLast?_concat]
    rw [shape, List.concat_eq_append] at mem sorted
    rcases List.mem_append.1 mem with earlier | own
    · exact (List.pairwise_append.1 sorted).2.2 e earlier last (List.mem_singleton_self last)
    · rw [List.mem_singleton.1 own]
      exact Nat.le_refl _

theorem exists_lastSeq (positive : 0 < lastSeq text file) :
    ∃ e ∈ readAll text file, e.seq = lastSeq text file := by
  rw [lastSeq] at positive ⊢
  cases last : (readAll text file).getLast? with
  | none => simp [last] at positive
  | some e => exact ⟨e, List.mem_of_getLast? last, rfl⟩

/-! ### What is appended -/

def printed (text : JsonText) (e : Entry) : List UInt8 := bytes (text.encode e.json)

/-- The JSON library reads back the text it prints for an object, which has no line feed and
ends with a brace. -/
structure Prints (text : JsonText) (v : Json) : Prop where
  reads : text.decode (text.encode v) = .ok v
  whole : 10 ∉ bytes (text.encode v)
  ends : (bytes (text.encode v)).getLast? = some 125

theorem bytes_newline (s : String) : bytes (s ++ "\n") = bytes s ++ [10] := by
  simp only [bytes, String.toUTF8, String.toByteArray_append]
  rfl

theorem utf8_bytes (s : String) : utf8 (bytes s) = some s := by
  exact dif_pos s.isValidUTF8

theorem asU64_num {n : Nat} (small : n < 2 ^ 64) : asU64 (.num n) = some n := by
  rw [asU64, if_pos ⟨Int.natCast_nonneg n, small⟩, Int.toNat_natCast]

theorem Entry.ofJson_json (seq : e.seq < 2 ^ 64) (version : e.v < 2 ^ 64) :
    Entry.ofJson e.json = e := by
  simp [Entry.ofJson, Entry.json, Json.get, List.lookup, Json.asStr, asU64_num seq,
    asU64_num version]

variable {j : Journal} {calls : List Call} {es : List Entry}

theorem Journal.entries_bounds (mem : e ∈ j.entries text calls) :
    e.seq < 2 ^ 64 ∧ e.v < 2 ^ 64 := by
  induction calls generalizing j with
  | nil => cases mem
  | cons call calls ih =>
    rcases List.mem_cons.1 mem with rfl | later
    · refine ⟨Nat.mod_lt _ (by decide), ?_⟩
      simp only [Journal.entry]
      split <;> decide
    · exact ih later

theorem Journal.entries_seq : (j.entries text calls).map Entry.seq =
    (List.range calls.length).map fun k => (j.seq + (k + 1)) % 2 ^ 64 := by
  induction calls generalizing j with
  | nil => rfl
  | cons call calls ih =>
    rw [Journal.entries, List.map_cons, ih, List.length_cons, List.range_succ_eq_map, List.map_cons,
      List.map_map]
    congr 1
    refine List.map_congr_left fun k _ => ?_
    simp only [Journal.append, Journal.entry, Function.comp_apply, Nat.mod_add_mod]
    congr 1
    omega

theorem Journal.appendAll_file : (j.appendAll text calls).file =
    j.file ++ (j.entries text calls).flatMap fun e => printed text e ++ [10] := by
  induction calls generalizing j with
  | nil => simp [Journal.appendAll, Journal.entries]
  | cons call calls ih =>
    rw [Journal.appendAll, ih, Journal.entries, List.flatMap_cons]
    simp only [Journal.append, bytes_newline, printed, List.append_assoc]

theorem lines_printed (prints : ∀ e ∈ es, Prints text e.json) :
    lines (es.flatMap fun e => printed text e ++ [10]) = es.map (printed text) := by
  induction es with
  | nil => rfl
  | cons e es ih =>
    have own := prints e List.mem_cons_self
    rw [List.flatMap_cons, List.append_assoc, List.singleton_append,
      lines_line (show 10 ∉ printed text e from own.whole) (by rw [printed, own.ends]; decide),
      ih fun e mem => prints e (List.mem_cons_of_mem _ mem), List.map_cons]

theorem scan_printed (prints : ∀ e ∈ es, Prints text e.json)
    (bounds : ∀ e ∈ es, e.seq < 2 ^ 64 ∧ e.v < 2 ^ 64) :
    scan text (es.map (printed text)) = es := by
  induction es with
  | nil => rfl
  | cons e es ih =>
    have own := bounds e List.mem_cons_self
    rw [List.map_cons, scan_parsed (e := e), ih fun e mem => prints e (List.mem_cons_of_mem _ mem)]
    · exact fun e mem => bounds e (List.mem_cons_of_mem _ mem)
    · simp only [parse, printed, utf8_bytes, Option.bind_some, (prints e List.mem_cons_self).reads,
        Entry.ofJson_json own.1 own.2]

/-! ### Recovery -/

/-- Every entry appended after the cut is read back, numbered after all that survived it. -/
def Recovers (text : JsonText) (cut : List UInt8) (coreV2 : Bool) (calls : List Call) : Prop :=
  let j := openJournal text cut coreV2
  ∀ e ∈ j.entries text calls, e ∈ readAll text (j.appendAll text calls).file ∧
    ∀ old ∈ readAll text cut, old.seq < e.seq

instance (text : JsonText) (cut : List UInt8) (coreV2 : Bool) (calls : List Call) :
    Decidable (Recovers text cut coreV2 calls) := by
  unfold Recovers
  infer_instance

/-- The complete lines of the cut file are UTF-8, its torn end put before the first entry's line
does not change how that is read, and the numbers do not overflow. -/
def Clean (text : JsonText) (cut : List UInt8) (coreV2 : Bool) (first : Call) (more : Nat) : Prop :=
  let e := (openJournal text cut coreV2).entry first
  Readable (lines (complete cut)) ∧ parse text (torn cut ++ printed text e) = some e ∧
    lastSeq text cut + (more + 1) < 2 ^ 64

instance (text : JsonText) (cut : List UInt8) (coreV2 : Bool) (first : Call) (more : Nat) :
    Decidable (Clean text cut coreV2 first more) := by
  unfold Clean
  infer_instance

variable {cut : List UInt8} {coreV2 : Bool} {first : Call}

theorem torn_line (prints : Prints text e.json) :
    10 ∉ torn cut ++ printed text e ∧ (torn cut ++ printed text e).getLast? ≠ some 13 := by
  constructor
  · rw [List.mem_append, not_or]
    exact ⟨torn_whole cut, prints.whole⟩
  · rw [List.getLast?_append, printed, prints.ends, Option.some_or]
    decide

theorem scan_appended (prints : ∀ e ∈ (openJournal text cut coreV2).entries text (first :: calls),
    Prints text e.json) :
    let j := openJournal text cut coreV2
    let merged := torn cut ++ printed text (j.entry first)
    let later := (j.append text first).2.entries text calls
    scan text (lines (j.appendAll text (first :: calls)).file) =
      if Readable (lines (complete cut)) then
        scan text (lines (complete cut)) ++ scan text (merged :: later.map (printed text))
      else scan text (lines (complete cut)) := by
  intro j merged later
  obtain ⟨own, others⟩ := List.forall_mem_cons.1 prints
  obtain ⟨whole, ends⟩ : 10 ∉ merged ∧ merged.getLast? ≠ some 13 := torn_line own
  have file : (j.appendAll text (first :: calls)).file =
      complete cut ++ (merged ++ 10 :: later.flatMap fun e => printed text e ++ [10]) := by
    rw [Journal.appendAll_file, Journal.entries, List.flatMap_cons]
    change cut ++ _ = _
    conv_lhs => rw [← complete_append_torn cut]
    simp only [merged, later, List.append_assoc, List.singleton_append]
  rw [file, lines_complete, lines_line whole ends, lines_printed others, scan_append]

theorem survives_complete (mem : e ∈ scan text (lines (complete cut))) : e ∈ readAll text cut := by
  rw [mem_readAll, ← complete_append_torn cut, lines_complete, scan_append]
  split
  · exact List.mem_append_left _ mem
  · exact mem

theorem entries_numbered (mem : e ∈ j.entries text calls) :
    ∃ k < calls.length, e.seq = (j.seq + (k + 1)) % 2 ^ 64 := by
  have seqs := List.mem_map_of_mem (f := Entry.seq) mem
  rw [Journal.entries_seq, List.mem_map] at seqs
  obtain ⟨k, small, eq⟩ := seqs
  exact ⟨k, List.mem_range.1 small, eq.symm⟩

theorem exists_numbered {k : Nat} (small : k < calls.length) :
    ∃ e ∈ j.entries text calls, e.seq = (j.seq + (k + 1)) % 2 ^ 64 := by
  rw [← List.mem_map, Journal.entries_seq]
  exact List.mem_map_of_mem (List.mem_range.2 small)

theorem entries_later (few : (first :: calls).length < 2 ^ 64)
    (mem : e ∈ (j.append text first).2.entries text calls) : e ≠ j.entry first := by
  rintro rfl
  obtain ⟨k, small, eq⟩ := entries_numbered mem
  simp only [Journal.append, Journal.entry] at eq
  rw [List.length_cons] at few
  omega

/-- The number after the greatest one is 0, which does not come after what survived. -/
theorem no_overflow (recovers : Recovers text cut coreV2 calls) (some : 0 < calls.length)
    (few : calls.length < 2 ^ 64) : lastSeq text cut + calls.length < 2 ^ 64 := by
  by_contra passes
  obtain ⟨old, survived, last⟩ : ∃ e ∈ readAll text cut, e.seq = lastSeq text cut :=
    exists_lastSeq (by omega)
  have after : ∀ k < calls.length,
      lastSeq text cut < (lastSeq text cut + (k + 1)) % 2 ^ 64 := by
    intro k small
    obtain ⟨e, mem, seq⟩ : ∃ e ∈ (openJournal text cut coreV2).entries text calls, _ :=
      exists_numbered small
    have := (recovers e mem).2 old survived
    rwa [seq, last] at this
  have := after 0 some
  have := after (2 ^ 64 - 1 - lastSeq text cut) (by omega)
  omega

def note (kind : String) : Call := ⟨"kernel", kind, .null, "0.000", .null⟩

/-- The journal of one entry. -/
def oneEntry : List UInt8 := ((openJournal compact [] false).appendAll compact [note "boot"]).file

end MatrixRuntime.JournalFile
