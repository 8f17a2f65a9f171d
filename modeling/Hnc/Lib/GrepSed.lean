import Hnc.Lib.LineSearch
import Mathlib.Data.List.Infix

/-!
# `grep -o`, `sed` and `gsub`

A pattern is a function on what is left of a line.  `grep -o` prints the matches
from left to right, a `sed` expression that begins with `.*` takes the last
match, and `gsub` reads its replacement with a second layer of backslashes.
-/

namespace Posix

variable {Value : Type}

/-- The matches on a line, where `pattern` answers with what follows a match and
`skip` characters still belong to the match before. -/
def grepFrom (pattern : Text → Option Text) : Nat → Text → List Text
  | _, [] => []
  | skip + 1, _ :: rest => grepFrom pattern skip rest
  | 0, c :: rest =>
      match pattern (c :: rest) with
      | none => grepFrom pattern 0 rest
      | some behind =>
          upTo (c :: rest) behind ::
            grepFrom pattern (rest.length - behind.length) rest

/-- `grep -o` on a line. -/
def grepO (pattern : Text → Option Text) (line : Text) : List Text :=
  grepFrom pattern 0 line

/-- `sed -n 's/.*pattern.*/\1/p'`: the greedy `.*` leads to the last match. -/
def lastAt (pattern : Text → Option Value) : Text → Option Value
  | [] => none
  | c :: rest => (lastAt pattern rest).or (pattern (c :: rest))

/-- What a replacement of `gsub` stands for: a backslash makes a literal of a
backslash and of `&`, and is itself in front of anything else. -/
def replacement (text matched : Text) : Text :=
  match text with
  | [] => []
  | '\\' :: '\\' :: rest => '\\' :: replacement rest matched
  | '\\' :: '&' :: rest => '&' :: replacement rest matched
  | '&' :: rest => matched ++ replacement rest matched
  | c :: rest => c :: replacement rest matched

/-- `gsub` of a single character. -/
def gsub (c : Char) (into text : Text) : Text :=
  text.flatMap fun d => if d = c then replacement into [d] else [d]

theorem mem_grepFrom {pattern : Text → Option Text} {skip : Nat}
    {line found : Text} (member : found ∈ grepFrom pattern skip line) :
    ∃ before text behind, line = before ++ text ∧
      pattern text = some behind ∧ found = upTo text behind := by
  induction line generalizing skip with
  | nil =>
      cases member
  | cons c rest induction =>
      have further : ∀ {skip : Nat}, found ∈ grepFrom pattern skip rest →
          ∃ before text behind, c :: rest = before ++ text ∧
            pattern text = some behind ∧ found = upTo text behind := by
        intro skip later
        obtain ⟨before, text, behind, rfl, matched, same⟩ := induction later
        exact ⟨c :: before, text, behind, rfl, matched, same⟩
      cases skip with
      | succ skip => exact further member
      | zero =>
          rw [grepFrom] at member
          split at member
          · exact further member
          · rename_i behind matched
            rcases List.mem_cons.mp member with rfl | later
            · exact ⟨[], c :: rest, behind, rfl, matched, rfl⟩
            · exact further later

variable {pattern : Text → Option Value} {text : Text} {value : Value}

theorem lastAt_eq_some (found : lastAt pattern text = some value) :
    ∃ before rest, text = before ++ rest ∧ pattern rest = some value := by
  induction text with
  | nil => cases found
  | cons c rest induction =>
      rw [lastAt, Option.or_eq_some_iff] at found
      rcases found with later | ⟨_, here⟩
      · obtain ⟨before, tail, rfl, matched⟩ := induction later
        exact ⟨c :: before, tail, rfl, matched⟩
      · exact ⟨[], c :: rest, rfl, here⟩

theorem lastAt_eq_none
    (silent : ∀ before rest, text = before ++ rest → pattern rest = none) :
    lastAt pattern text = none := by
  cases found : lastAt pattern text with
  | none => rfl
  | some value =>
      obtain ⟨before, rest, split, matched⟩ := lastAt_eq_some found
      rw [silent before rest split] at matched
      cases matched

variable {c : Char}

/-- A match with none behind it. -/
theorem lastAt_append (front : Text) {behind : Text}
    (matched : pattern (c :: behind) = some value)
    (silent : lastAt pattern behind = none) :
    lastAt pattern (front ++ c :: behind) = some value := by
  induction front with
  | nil =>
      rw [List.nil_append, lastAt, silent]
      exact matched
  | cons d front induction =>
      rw [List.cons_append, lastAt, induction]
      rfl

theorem records_within {line : Text} (member : line ∈ records text) :
    line <:+: text := by
  induction text generalizing line with
  | nil => cases member
  | cons c rest induction =>
      rw [records] at member
      split at member
      · rcases List.mem_cons.mp member with rfl | later
        · exact ⟨[], c :: rest, rfl⟩
        · exact List.infix_cons (induction later)
      · split at member
        · rw [List.mem_singleton.mp member]
          exact (List.prefix_append [c] rest).isInfix
        · rename_i first others tail
          rcases List.mem_cons.mp member with rfl | later
          · have front : rest = first ++ rest.dropWhile (· != '\n') := by
              have same := lineOf_records tail
              rw [← same]
              exact List.takeWhile_append_dropWhile.symm
            refine ⟨[], rest.dropWhile (· != '\n'), ?_⟩
            rw [List.nil_append, List.cons_append, ← front]
          · exact List.infix_cons (induction (by simp [tail, later]))

theorem dropWhile_split {p : Char → Bool} {rest : Text}
    (dropped : text.dropWhile p = rest) :
    ∃ front, text = front ++ rest ∧ front.all p = true := by
  refine ⟨text.takeWhile p, ?_, ?_⟩
  · rw [← dropped]
    exact List.takeWhile_append_dropWhile.symm
  · exact List.all_takeWhile

theorem afterKey_eq_some {key value : Text}
    (found : afterKey key text = some value) :
    ∃ gap pad, text = '"' :: key ++ '"' :: (gap ++ ':' :: (pad ++ value)) ∧
      gap.all isSpace = true ∧ pad.all isSpace = true := by
  rw [afterKey] at found
  split at found
  · cases found
  · rename_i behind key_found
    split at found
    · rename_i rest dropped
      obtain ⟨gap, rfl, gapSpace⟩ := dropWhile_split dropped
      obtain ⟨pad, same, padSpace⟩ := dropWhile_split (Option.some.inj found)
      refine ⟨gap, pad, ?_, gapSpace, padSpace⟩
      rw [after?_eq_some.mp key_found, same]
      simp
    · cases found

theorem takeWhile_closed (body tail : Text) :
    (body ++ '"' :: tail).takeWhile (· != '"') = body.takeWhile (· != '"') := by
  induction body with
  | nil => simp
  | cons c body induction =>
      rw [List.cons_append, List.takeWhile_cons, List.takeWhile_cons, induction]

theorem takeWhile_of_not_mem (free : c ∉ text) :
    text.takeWhile (· != c) = text := by
  rw [List.takeWhile_eq_self_iff]
  intro d member
  simp only [bne_iff_ne]
  rintro rfl
  exact free member

theorem quoted_closed {value : Text} (free : '"' ∉ value) (behind : Text) :
    quoted (· != '"') ('"' :: (value ++ '"' :: behind)) = some value := by
  have front := takeWhile_closed value behind
  rw [takeWhile_of_not_mem free] at front
  have closed : (value ++ '"' :: behind).dropWhile (· != '"') =
      '"' :: behind := by
    have whole := List.takeWhile_append_dropWhile (p := (· != '"'))
      (l := value ++ '"' :: behind)
    rw [front] at whole
    exact List.append_cancel_left whole
  rw [quoted, closed, front]
  rfl

theorem quoted_eq_some {value : Text}
    (found : quoted (· != '"') text = some value) :
    ∃ behind, text = '"' :: (value ++ '"' :: behind) ∧ '"' ∉ value := by
  unfold quoted at found
  split at found
  · rename_i rest
    split at found
    · rename_i closed
      cases found
      cases dropped : rest.dropWhile (· != '"') with
      | nil =>
          rw [dropped] at closed
          cases closed
      | cons c behind =>
          rw [dropped, List.head?_cons, Option.some.injEq] at closed
          subst closed
          refine ⟨behind, ?_, ?_⟩
          · rw [← dropped, List.takeWhile_append_dropWhile]
          · intro member
            have kept := List.mem_takeWhile_imp member
            simp at kept
    · cases found
  · cases found

theorem intercalate_cons_cons (sep : Char) (piece next : Text)
    (rest : List Text) :
    List.intercalate [sep] (piece :: next :: rest) =
      piece ++ sep :: List.intercalate [sep] (next :: rest) := by
  simp

theorem fields_intercalate {sep : Char} {pieces : List Text}
    (nonempty : pieces ≠ []) (free : ∀ piece ∈ pieces, sep ∉ piece) :
    fields sep (List.intercalate [sep] pieces) = pieces := by
  induction pieces with
  | nil => exact absurd rfl nonempty
  | cons piece rest induction =>
      have own := fields_of_not_mem (free piece (by simp))
      cases rest with
      | nil => simpa using own
      | cons next rest =>
          rw [intercalate_cons_cons, fields_split, own, induction (by simp)
            (fun other member => free other (by simp [member]))]
          rfl

theorem tailFrom_isSome {pattern : Text}
    (found : (tailFrom pattern text).isSome = true) :
    ∃ before behind, text = before ++ (pattern ++ behind) := by
  induction text with
  | nil =>
      rw [tailFrom] at found
      split at found
      · rename_i empty
        exact ⟨[], [], by simp [empty]⟩
      · cases found
  | cons c rest induction =>
      rw [tailFrom] at found
      split at found
      · rename_i here
        obtain ⟨behind, matched⟩ := Option.isSome_iff_exists.mp here
        have split := after?_eq_some.mp matched
        exact ⟨[], behind, split⟩
      · obtain ⟨before, behind, rfl⟩ := induction found
        exact ⟨c :: before, behind, rfl⟩

theorem tailFrom_append (before : Text) {pattern : Text} (nonempty : pattern ≠ [])
    (behind : Text) :
    (tailFrom pattern (before ++ (pattern ++ behind))).isSome = true := by
  induction before with
  | nil =>
      obtain ⟨c, rest, rfl⟩ := List.exists_cons_of_ne_nil nonempty
      have here : after? (c :: rest) (c :: (rest ++ behind)) = some behind :=
        after?_eq_some.mpr rfl
      rw [List.nil_append, List.cons_append, tailFrom, here]
      rfl
  | cons d before induction =>
      rw [List.cons_append, tailFrom]
      split
      · rfl
      · exact induction

theorem matchKey_eq_some {key : Text} {parse : Text → Option Value}
    (found : matchKey key parse text = some value) :
    ∃ rest, parse rest = some value := by
  induction text with
  | nil => cases found
  | cons c rest induction =>
      rw [matchKey] at found
      split at found
      · rename_i other matched
        cases found
        obtain ⟨behind, _, parsed⟩ := Option.bind_eq_some_iff.mp matched
        exact ⟨behind, parsed⟩
      · exact induction found

theorem gsub_of_not_mem (free : c ∉ text) (into : Text) :
    gsub c into text = text := by
  induction text with
  | nil => rfl
  | cons d text induction =>
      simp only [List.mem_cons, not_or] at free
      rw [gsub, List.flatMap_cons, if_neg (Ne.symm free.1)]
      exact congrArg (List.cons d) (induction free.2)

theorem gsub_of_replacement {into : Text} (same : replacement into [c] = [c])
    (text : Text) : gsub c into text = text := by
  induction text with
  | nil => rfl
  | cons d text induction =>
      have one : (if d = c then replacement into [d] else [d]) = [d] := by
        split
        · rename_i equal
          rw [equal, same]
        · rfl
      rw [gsub, List.flatMap_cons, one]
      exact congrArg (List.cons d) induction

end Posix
