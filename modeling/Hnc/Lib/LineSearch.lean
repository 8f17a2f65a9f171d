import Hnc.Lib.Posix
import Mathlib.Data.List.TakeWhile

/-!
# Searching a text line by line

Tools that match a pattern on every line see a text as its lines.  A pattern
tried at every position of the text, with the rest of the line in view, finds
the same places.
-/

namespace Posix

variable {Value Answer : Type}

/-- What is left of a line at the front of a text. -/
def lineOf (text : Text) : Text :=
  text.takeWhile (· != '\n')

/-- The matches of a pattern that start in `text`, when `rest` follows. -/
def hits (pattern : Text → Option Value) : Text → Text → List Value
  | [], _ => []
  | c :: text, rest =>
      (pattern (lineOf (c :: (text ++ rest)))).toList ++ hits pattern text rest

/-- The pattern `"key"[[:space:]]*:[[:space:]]*` and what `parse` accepts. -/
def keyed (key : Text) (parse : Text → Option Value) (text : Text) :
    Option Value :=
  (afterKey key text).bind parse

theorem hits_append (pattern : Text → Option Value) (left right rest : Text) :
    hits pattern (left ++ right) rest =
      hits pattern left (right ++ rest) ++ hits pattern right rest := by
  induction left with
  | nil => rfl
  | cons c left induction => simp [hits, induction]

variable {line : Text}

theorem lineOf_of_not_mem (oneLine : '\n' ∉ line) (rest : Text) :
    lineOf (line ++ rest) = line ++ lineOf rest := by
  rw [lineOf, List.takeWhile_append_of_pos]
  · rfl
  · intro c member
    simp only [bne_iff_ne]
    rintro rfl
    exact oneLine member

theorem lineOf_self (oneLine : '\n' ∉ line) : lineOf line = line := by
  have whole := lineOf_of_not_mem oneLine []
  simpa [lineOf] using whole

variable {text : Text}

theorem lineOf_records {lines : List Text} (split : records text = line :: lines) :
    lineOf text = line := by
  induction text generalizing line lines with
  | nil => cases split
  | cons c rest induction =>
      rw [records] at split
      split at split
      · rename_i newline
        cases split
        simp [lineOf, newline]
      · rename_i other
        split at split
        · rename_i empty
          cases split
          have nil : rest = [] := by
            cases rest with
            | nil => rfl
            | cons d rest =>
                rw [records] at empty
                split at empty
                · cases empty
                · split at empty <;> cases empty
          simp [lineOf, other, nil]
        · rename_i first others tail
          cases split
          have same := induction tail
          rw [lineOf] at same ⊢
          simp [other, same]

theorem records_oneLine (member : line ∈ records text) : '\n' ∉ line := by
  induction text generalizing line with
  | nil => cases member
  | cons c rest induction =>
      rw [records] at member
      split at member
      · rcases List.mem_cons.mp member with rfl | later
        · simp
        · exact induction later
      · rename_i other
        split at member
        · rw [List.mem_singleton.mp member]
          simpa using Ne.symm other
        · rename_i first others tail
          rcases List.mem_cons.mp member with rfl | later
          · have inner : '\n' ∉ first := induction (by simp [tail])
            simpa [Ne.symm other] using inner
          · exact induction (by simp [tail, later])

variable {pattern : Text → Option Value}

/-- Matching on every line is matching at every position. -/
theorem hits_records (solid : pattern [] = none) (text : Text) :
    ((records text).flatMap fun line => hits pattern line []) =
      hits pattern text [] := by
  induction text with
  | nil => rfl
  | cons c rest induction =>
      rw [records]
      split
      · rename_i newline
        have none : lineOf (c :: (rest ++ [])) = [] := by
          simp [lineOf, newline]
        rw [hits, none, solid, List.flatMap_cons, induction]
        rfl
      · rename_i other
        split
        · rename_i empty
          rw [empty] at induction
          rw [hits, ← induction]
          have nil : lineOf (c :: (rest ++ [])) = lineOf [c] := by
            cases rest with
            | nil => rfl
            | cons d rest =>
                rw [records] at empty
                split at empty
                · cases empty
                · split at empty <;> cases empty
          rw [nil]
          simp [hits]
        · rename_i line lines split
          have same := lineOf_records split
          have oneLine : '\n' ∉ line :=
            records_oneLine (show line ∈ records rest by simp [split])
          have front : lineOf (c :: (rest ++ [])) = lineOf (c :: (line ++ [])) := by
            have whole := lineOf_self oneLine
            rw [lineOf] at same whole
            simp [lineOf, other, same, whole]
          rw [split] at induction
          simp only [List.flatMap_cons] at induction ⊢
          rw [hits, hits, front, List.append_assoc, induction]

theorem matchKey_eq_hits (key : Text) (parse : Text → Option Value)
    (oneLine : '\n' ∉ line) :
    matchKey key parse line = (hits (keyed key parse) line []).head? := by
  induction line with
  | nil => rfl
  | cons c line induction =>
      simp only [List.mem_cons, not_or] at oneLine
      have whole : lineOf (c :: (line ++ [])) = c :: line := by
        rw [List.append_nil]
        exact lineOf_self (by simpa using oneLine)
      rw [matchKey, hits, whole, keyed]
      cases found : (afterKey key (c :: line)).bind parse with
      | some value => rfl
      | none => simpa using induction oneLine.2

theorem findSome_congr {lines : List Text} {left right : Text → Option Answer}
    (same : ∀ line ∈ lines, left line = right line) :
    lines.findSome? left = lines.findSome? right := by
  induction lines with
  | nil => rfl
  | cons line rest induction =>
      rw [List.findSome?_cons, List.findSome?_cons, same line (by simp),
        induction fun other member => same other (by simp [member])]

theorem findSome_of_single (solid : pattern [] = none) {value : Value}
    (single : hits pattern text [] = [value]) (answer : Value → Option Answer) :
    ((records text).findSome? fun line =>
      (hits pattern line []).head?.bind answer) = answer value := by
  have lines := hits_records solid text
  rw [single] at lines
  generalize records text = all at lines
  induction all with
  | nil => cases lines
  | cons line rest induction =>
      rw [List.flatMap_cons] at lines
      rw [List.findSome?_cons]
      cases here : hits pattern line [] with
      | nil =>
          rw [here] at lines
          simpa using induction lines
      | cons first more =>
          rw [here] at lines
          simp only [List.cons_append, List.cons.injEq,
            List.append_eq_nil_iff] at lines
          obtain ⟨rfl, _, silent⟩ := lines
          have others : (rest.findSome? fun line =>
              (hits pattern line []).head?.bind answer) = none := by
            rw [List.findSome?_eq_none_iff]
            intro other member
            have empty := List.flatMap_eq_nil_iff.mp silent other member
            simp [empty]
          simp only [List.head?_cons, Option.bind_some, others]
          cases answer first <;> rfl

theorem findSome_of_none (solid : pattern [] = none)
    (silent : hits pattern text [] = []) (answer : Value → Option Answer) :
    ((records text).findSome? fun line =>
      (hits pattern line []).head?.bind answer) = none := by
  have lines := hits_records solid text
  rw [silent] at lines
  rw [List.findSome?_eq_none_iff]
  intro line member
  have empty := List.flatMap_eq_nil_iff.mp lines line member
  simp [empty]

theorem after?_eq_some {pattern rest : Text} :
    after? pattern text = some rest ↔ text = pattern ++ rest := by
  induction pattern generalizing text with
  | nil =>
      simp only [after?, Option.some.injEq, List.nil_append]
  | cons p pattern induction =>
      cases text with
      | nil => simp [after?]
      | cons c text =>
          by_cases same : c = p
          · simp [after?, induction]
          · simp [after?, same]

/-- A pattern without a line break that stands on what is left of a line. -/
theorem after?_lineOf {pattern rest : Text}
    (found : after? pattern (lineOf text) = some rest) :
    ∃ behind, text = pattern ++ behind ∧ rest = lineOf behind := by
  have same := after?_eq_some.mp found
  have split : text = lineOf text ++ text.dropWhile (· != '\n') :=
    (List.takeWhile_append_dropWhile).symm
  have oneLine : '\n' ∉ pattern := by
    intro member
    have inside : '\n' ∈ lineOf text := by simp [same, member]
    have kept := List.mem_takeWhile_imp inside
    simp at kept
  refine ⟨rest ++ text.dropWhile (· != '\n'), ?_, ?_⟩
  · rw [← List.append_assoc, ← same]
    exact split
  · have whole : lineOf text = pattern ++ lineOf
        (rest ++ text.dropWhile (· != '\n')) := by
      rw [← lineOf_of_not_mem oneLine, ← List.append_assoc, ← same, ← split]
    rw [same] at whole
    exact List.append_cancel_left whole

end Posix
