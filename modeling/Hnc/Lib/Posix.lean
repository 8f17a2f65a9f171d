import Mathlib.Data.List.Basic
import Mathlib.Data.List.TakeWhile
import Mathlib.Tactic.Common

/-!
# Texts as the POSIX text tools see them

A file is a list of characters.  The definitions here are the parts of `awk`,
`grep` and `tr` that line-oriented scripts rest on: records, paragraphs, the
leftmost occurrence of a fixed string, and the escape processing of `awk -v`.
A position inside a text is represented by the text from that position on, so
that a cursor moving right is a suffix growing shorter.
-/

namespace Posix

abbrev Text := List Char

instance : LawfulBEq Text :=
  inferInstance

/-- The class `[ \t\r\n]`. -/
def isWs (c : Char) : Bool :=
  c == ' ' || c == '\t' || c == '\r' || c == '\n'

/-- The class `[[:space:]]`. -/
def isSpace (c : Char) : Bool :=
  isWs c || c == '\x0b' || c == '\x0c'

/-- The class `[0-9]`. -/
def isDigit (c : Char) : Bool :=
  '0'.toNat ≤ c.toNat && c.toNat ≤ '9'.toNat

/-- The control characters `\000-\037`. -/
def isControl (c : Char) : Bool :=
  c.toNat < 32

/-- The newline-terminated records of a file; a last line without its newline
is a record too. -/
def records : Text → List Text
  | [] => []
  | c :: rest =>
      if c = '\n' then [] :: records rest
      else match records rest with
        | [] => [[c]]
        | line :: lines => (c :: line) :: lines

/-- The text `awk` rebuilds with `{ s = s $0 "\n" }`. -/
def slurp (content : Text) : Text :=
  (records content).flatMap fun line => line ++ ['\n']

/-- `sub(/\n$/, "", s)`. -/
def chomp (s : Text) : Text :=
  if s.getLast? = some '\n' then s.dropLast else s

/-- The fields of a record under the separator `sep`. -/
def fields (sep : Char) : Text → List Text
  | [] => [[]]
  | c :: rest =>
      if c = sep then [] :: fields sep rest
      else match fields sep rest with
        | [] => [[c]]
        | field :: others => (c :: field) :: others

/-- Records of paragraph mode, `RS = ""`: maximal runs of nonempty lines. -/
def paragraphsOf : List Text → List Text
  | [] => []
  | line :: rest =>
      if line = [] then paragraphsOf rest
      else match rest with
        | [] => [line]
        | next :: _ =>
            if next = [] then line :: paragraphsOf rest
            else match paragraphsOf rest with
              | [] => [line]
              | paragraph :: others => (line ++ '\n' :: paragraph) :: others

def paragraphs (content : Text) : List Text :=
  paragraphsOf (records content)

/-- What follows `pattern` at the front of a text. -/
def after? (pattern : Text) : Text → Option Text :=
  match pattern with
  | [] => some
  | p :: ps => fun text =>
      match text with
      | [] => none
      | c :: rest => if c = p then after? ps rest else none

/-- `substr(s, index(s, pattern))`: the text from the leftmost occurrence of
`pattern` on, if there is one. -/
def tailFrom (pattern : Text) : Text → Option Text
  | [] => if pattern = [] then some [] else none
  | c :: rest =>
      if (after? pattern (c :: rest)).isSome then some (c :: rest)
      else tailFrom pattern rest

/-- `substr(s, a, b - a)` for two positions of one text. -/
def upTo (start stop : Text) : Text :=
  start.take (start.length - stop.length)

/-- Remove the leading and trailing characters of `[ \t\r\n]`. -/
def trimWs (text : Text) : Text :=
  ((text.dropWhile isWs).reverse.dropWhile isWs).reverse

/-- Command substitution drops the newlines at the end of what it captures. -/
def captured (output : Text) : Text :=
  (output.reverse.dropWhile (· == '\n')).reverse

/-- Value of one octal digit. -/
def octal? (c : Char) : Option Nat :=
  if '0'.toNat ≤ c.toNat ∧ c.toNat ≤ '7'.toNat then
    some (c.toNat - '0'.toNat)
  else none

/-- The character named by a one-letter escape of an `awk` string. -/
def escapeLetter (c : Char) : Char :=
  if c = 'n' then '\n'
  else if c = 't' then '\t'
  else if c = 'r' then '\r'
  else if c = 'a' then '\x07'
  else if c = 'b' then '\x08'
  else if c = 'f' then '\x0c'
  else if c = 'v' then '\x0b'
  else c

/-- Where the escape processing of an `awk` string stands. -/
inductive EscapeState where
  | plain
  | escape
  | octal (value count : Nat)

def assignFrom : EscapeState → Text → Text
  | .plain, [] => []
  | .escape, [] => ['\\']
  | .octal value _, [] => [Char.ofNat value]
  | .plain, c :: rest =>
      if c = '\\' then assignFrom .escape rest
      else c :: assignFrom .plain rest
  | .escape, c :: rest =>
      match octal? c with
      | some digit => assignFrom (.octal digit 1) rest
      | none => escapeLetter c :: assignFrom .plain rest
  | .octal value count, c :: rest =>
      match (if count < 3 then octal? c else none) with
      | some digit => assignFrom (.octal (8 * value + digit) (count + 1)) rest
      | none =>
          Char.ofNat value ::
            (if c = '\\' then assignFrom .escape rest
              else c :: assignFrom .plain rest)

/-- Escape processing of an `awk -v name=value` assignment. -/
def assign (value : Text) : Text :=
  assignFrom .plain value

/-- `sed 's/\\/\\\\/g'`. -/
def doubleBackslash (text : Text) : Text :=
  text.flatMap fun c => if c = '\\' then ['\\', '\\'] else [c]

/-- The regular expression `"key"[[:space:]]*:[[:space:]]*` at the front of a
text. -/
def afterKey (key text : Text) : Option Text :=
  match after? ('"' :: key ++ ['"']) text with
  | none => none
  | some behind =>
      match behind.dropWhile isSpace with
      | ':' :: value => some (value.dropWhile isSpace)
      | _ => none

/-- The leftmost match of `"key"[[:space:]]*:[[:space:]]*` followed by what
`parse` accepts. -/
def matchKey {Value : Type} (key : Text) (parse : Text → Option Value) :
    Text → Option Value
  | [] => none
  | c :: rest =>
      match (afterKey key (c :: rest)).bind parse with
      | some value => some value
      | none => matchKey key parse rest

/-- The pattern `[p]+`: the longest run of characters of a class. -/
def run (p : Char → Bool) (text : Text) : Option Text :=
  if text.takeWhile p = [] then none else some (text.takeWhile p)

/-- The pattern `"[p]*"`, for a class without the quote. -/
def quoted (p : Char → Bool) : Text → Option Text
  | '"' :: rest =>
      if (rest.dropWhile p).head? = some '"' then some (rest.takeWhile p)
      else none
  | _ => none

theorem isSpace_of_class {p : Char → Bool} {c : Char} (char : p c = true)
    (others : [' ', '\t', '\r', '\n', '\x0b', '\x0c'].all (fun d => !p d) = true) :
    isSpace c = false := by
  have away : ∀ d ∈ [' ', '\t', '\r', '\n', '\x0b', '\x0c'], c ≠ d := by
    rintro d member rfl
    have hidden := List.all_eq_true.mp others c member
    rw [char] at hidden
    cases hidden
  simp only [List.forall_mem_cons] at away
  obtain ⟨a1, a2, a3, a4, a5, a6, _⟩ := away
  simp [isSpace, isWs, a1, a2, a3, a4, a5, a6]

theorem run_append {p : Char → Bool} {value rest : Text}
    (all : value.all p = true) (nonempty : value ≠ [])
    (stops : ∀ c, rest.head? = some c → p c = false) :
    run p (value ++ rest) = some value := by
  have whole : (value ++ rest).takeWhile p = value := by
    rw [List.takeWhile_append_of_pos (List.all_eq_true.mp all)]
    cases rest with
    | nil => simp
    | cons c rest =>
        have stop := stops c rfl
        simp [stop]
  rw [run, whole, if_neg nonempty]

variable {value : Text}

theorem run_all {p : Char → Bool} (all : value.all p = true)
    (nonempty : value ≠ []) : run p value = some value := by
  have whole := @run_append p value [] all nonempty (by simp)
  simpa using whole

theorem records_line {text : Text} (oneLine : '\n' ∉ text)
    (nonempty : text ≠ []) : records text = [text] := by
  induction text with
  | nil => exact absurd rfl nonempty
  | cons c rest induction =>
      simp only [List.mem_cons, not_or] at oneLine
      cases rest with
      | nil => simp [records, Ne.symm oneLine.1]
      | cons d rest =>
          have tail := induction oneLine.2 (by simp)
          rw [records, if_neg (Ne.symm oneLine.1), tail]

theorem records_append_newline {line : Text} (oneLine : '\n' ∉ line)
    (rest : Text) : records (line ++ '\n' :: rest) = line :: records rest := by
  induction line with
  | nil => simp [records]
  | cons c line induction =>
      simp only [List.mem_cons, not_or] at oneLine
      have tail := induction oneLine.2
      rw [List.cons_append, records, if_neg (Ne.symm oneLine.1), tail]

theorem slurp_cons (c : Char) (rest : Text) (more : rest ≠ []) :
    slurp (c :: rest) = c :: slurp rest := by
  by_cases newline : c = '\n'
  · simp [slurp, records, newline]
  · cases split : records rest with
    | nil =>
        cases rest with
        | nil => exact absurd rfl more
        | cons d rest =>
            rw [records] at split
            split at split
            · cases split
            · split at split <;> cases split
    | cons line lines => simp [slurp, records, newline, split]

/-- `awk` ends the last line of a file. -/
theorem slurp_eq (content : Text) :
    slurp content =
      if content = [] ∨ content.getLast? = some '\n' then content
      else content ++ ['\n'] := by
  induction content with
  | nil => rfl
  | cons c rest induction =>
      cases rest with
      | nil =>
          by_cases newline : c = '\n'
          · simp [slurp, records, newline]
          · simp [slurp, records, newline]
      | cons d rest =>
          rw [slurp_cons c (d :: rest) (by simp), induction]
          have last : (c :: d :: rest).getLast? = (d :: rest).getLast? := rfl
          rw [last]
          simp only [reduceCtorEq]
          split <;> rfl

theorem slurp_of_chomp {content : Text} (nonempty : chomp (slurp content) ≠ []) :
    slurp content = chomp (slurp content) ++ ['\n'] := by
  rw [slurp_eq] at nonempty ⊢
  split
  · rename_i whole
    rcases whole with rfl | newline
    · exact absurd rfl nonempty
    · rw [chomp, if_pos newline]
      exact (List.dropLast_append_getLast? _ newline).symm
  · simp [chomp]

/-- What `awk` has of a file lacks at most the last newline. -/
theorem chomp_slurp (content : Text) :
    content = chomp (slurp content) ∨
      content = chomp (slurp content) ++ ['\n'] := by
  rw [slurp_eq]
  split
  · rename_i whole
    rcases whole with rfl | newline
    · exact .inl rfl
    · right
      rw [chomp, if_pos newline]
      exact (List.dropLast_append_getLast? _ newline).symm
  · exact .inl (by simp [chomp])

theorem assign_of_no_backslash (plain : '\\' ∉ value) : assign value = value := by
  induction value with
  | nil => rfl
  | cons c rest induction =>
      simp only [List.mem_cons, not_or] at plain
      have tail := induction plain.2
      rw [assign] at tail
      simp [assign, assignFrom, Ne.symm plain.1, tail]

theorem assign_doubleBackslash (value : Text) :
    assign (doubleBackslash value) = value := by
  induction value with
  | nil => rfl
  | cons c rest induction =>
      rw [assign, doubleBackslash] at induction
      by_cases slash : c = '\\'
      · subst slash
        have same : octal? '\\' = none := rfl
        simp only [assign, doubleBackslash, List.flatMap_cons, if_true,
          List.cons_append, List.nil_append, assignFrom, induction]
        rfl
      · simp [assign, doubleBackslash, assignFrom, slash, induction]

theorem captured_of_last (last : ∀ c, value.getLast? = some c → c ≠ '\n') :
    captured value = value := by
  rcases List.eq_nil_or_concat value with rfl | ⟨init, c, rfl⟩
  · rfl
  · have other : c ≠ '\n' := last c (by simp)
    simp [captured, other]

theorem captured_of_oneLine (oneLine : '\n' ∉ value) :
    captured value = value := by
  apply captured_of_last
  rintro c last rfl
  exact oneLine (List.mem_of_getLast? last)

theorem fields_length (sep : Char) (text : Text) :
    (fields sep text).length = text.count sep + 1 := by
  induction text with
  | nil => rfl
  | cons c rest induction =>
      by_cases same : c = sep
      · simp [fields, same, induction]
      · cases split : fields sep rest with
        | nil => simp [split] at induction
        | cons field others =>
            simpa [fields, same, split] using induction

theorem fields_split (sep : Char) (left right : Text) :
    fields sep (left ++ sep :: right) = fields sep left ++ fields sep right := by
  induction left with
  | nil => simp [fields]
  | cons c left induction =>
      by_cases same : c = sep
      · simp [fields, same, induction]
      · rw [List.cons_append, fields, fields, if_neg same, if_neg same, induction]
        cases split : fields sep left with
        | nil =>
            have length := fields_length sep left
            rw [split] at length
            simp at length
        | cons field others => rfl

theorem fields_of_not_mem {sep : Char} {piece : Text} (free : sep ∉ piece) :
    fields sep piece = [piece] := by
  induction piece with
  | nil => rfl
  | cons c piece induction =>
      simp only [List.mem_cons, not_or] at free
      rw [fields, if_neg (Ne.symm free.1), induction free.2]

theorem mem_fields (sep : Char) {text : Text} {c : Char} (member : c ∈ text) :
    c = sep ∨ ∃ field ∈ fields sep text, c ∈ field := by
  induction text with
  | nil => simp at member
  | cons d rest induction =>
      by_cases separator : d = sep
      · rcases List.mem_cons.mp member with here | later
        · exact .inl (here.trans separator)
        · rcases induction later with same | ⟨field, listed, inside⟩
          · exact .inl same
          · refine .inr ⟨field, ?_, inside⟩
            simp [fields, separator, listed]
      · rcases List.mem_cons.mp member with here | later
        · refine .inr ?_
          subst here
          cases split : fields sep rest with
          | nil => exact ⟨[c], by simp [fields, separator, split], by simp⟩
          | cons field others =>
              exact ⟨c :: field, by simp [fields, separator, split], by simp⟩
        · rcases induction later with same | ⟨field, listed, inside⟩
          · exact .inl same
          · refine .inr ?_
            cases split : fields sep rest with
            | nil => simp [split] at listed
            | cons head others =>
                rw [split] at listed
                rcases List.mem_cons.mp listed with first | other
                · exact ⟨d :: head, by simp [fields, separator, split],
                    by simp [← first, inside]⟩
                · exact ⟨field, by simp [fields, separator, split, other],
                    inside⟩

end Posix
