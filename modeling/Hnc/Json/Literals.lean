import Hnc.Json.Commands
import Hnc.Lib.JsonText
import Mathlib.Data.List.TakeWhile

/-!
# The literals that the writers make of a value
-/

namespace Hnc

open Posix JsonText

theorem body_escaped {text : Text} {encode : Char → Text}
    (each : ∀ c, (∃ d, encode c = ['\\', d]) ∨
      (encode c = [c] ∧ c ≠ '\\' ∧ c ≠ '"')) :
    Body false (text.flatMap encode) := by
  induction text with
  | nil => exact .done
  | cons c text induction =>
      rw [List.flatMap_cons]
      rcases each c with ⟨d, pair⟩ | ⟨same, slash, quoteFree⟩
      · rw [pair]
        exact .slash (.escaped d induction)
      · rw [same]
        exact .plain slash quoteFree induction

theorem body_quoteString (name : Text) :
    Body false (name.flatMap HncJson.escapeChar) := by
  apply body_escaped
  intro c
  unfold HncJson.escapeChar
  repeat' split
  all_goals first
    | exact .inl ⟨_, rfl⟩
    | exact .inr ⟨rfl, by assumption, by assumption⟩

theorem body_escapeInner (name : Text) :
    Body false (JsonSet.escapeInner name) := by
  apply body_escaped
  intro c
  split
  · exact .inl ⟨_, rfl⟩
  · split
    · exact .inl ⟨_, rfl⟩
    · exact .inr ⟨rfl, by assumption, by assumption⟩

theorem newline_not_mem_escapeInner (name : Text) :
    '\n' ∉ JsonSet.escapeInner name := by
  intro member
  simp only [JsonSet.escapeInner, List.mem_flatMap, List.mem_filter] at member
  obtain ⟨c, ⟨_, visible⟩, inside⟩ := member
  split at inside
  · simp at inside
  · split at inside
    · simp at inside
    · rw [← List.mem_singleton.mp inside] at visible
      simp [isControl] at visible

theorem firstLine_jsonStringEncode (name : Text) :
    JsonSet.firstLine (JsonSet.jsonStringEncode name) =
      quote (JsonSet.escapeInner name) := by
  have oneLine : '\n' ∉ quote (JsonSet.escapeInner name) := by
    simpa [quote] using newline_not_mem_escapeInner name
  have lines := records_line oneLine (by simp [quote])
  rw [JsonSet.firstLine, JsonSet.jsonStringEncode]
  rw [quote] at lines
  rw [lines]
  rfl

namespace JsonSet

/-- The literal that `json_set.sh device` and `top` write for a value. -/
def literal (value : Text) : Text :=
  firstLine (jsonEncode value)

end JsonSet

variable {value : Text}

theorem hasNumeralLine_of_oneLine (oneLine : '\n' ∉ value) :
    hasNumeralLine value = isNumeral value := by
  rw [hasNumeralLine, records_append_newline oneLine]
  simp [records]

theorem firstLine_of_oneLine (oneLine : '\n' ∉ value) (nonempty : value ≠ []) :
    JsonSet.firstLine value = value := by
  rw [JsonSet.firstLine, records_line oneLine nonempty]
  rfl

theorem ne_nil_of_isNumeral (numeral : isNumeral value = true) : value ≠ [] := by
  rintro rfl
  exact absurd numeral (by decide)

/-- The characters of a numeral. -/
def isNumeralChar (c : Char) : Bool :=
  isDigit c || c == '.' || c == '-'

theorem numeralChars_of_isNumeral {line : Text} (numeral : isNumeral line = true) :
    line.all isNumeralChar = true := by
  have digits : ∀ {text : Text}, text.all isDigit = true →
      text.all isNumeralChar = true := by
    intro text all
    apply List.all_eq_true.mpr
    intro c member
    simp [isNumeralChar, List.all_eq_true.mp all c member]
  have unsignedChars : ∀ text : Text,
      (text.dropWhile isDigit = [] ∨
        ((text.dropWhile isDigit).head? = some '.' ∧
          (text.dropWhile isDigit).tail.all isDigit = true)) →
      text.all isNumeralChar = true := by
    intro text fraction
    have split := List.takeWhile_append_dropWhile (p := isDigit) (l := text)
    have whole : (text.takeWhile isDigit).all isNumeralChar = true := by
      apply digits
      apply List.all_eq_true.mpr
      intro c member
      exact List.mem_takeWhile_imp member
    rw [← split, List.all_append, whole, Bool.true_and]
    rcases fraction with empty | ⟨dot, tail⟩
    · simp [empty]
    · cases rest : text.dropWhile isDigit with
      | nil => rfl
      | cons c others =>
          rw [rest] at dot tail
          have same : c = '.' := by simpa using dot
          simp only [List.all_cons, Bool.and_eq_true]
          exact ⟨by rw [same]; decide, digits tail⟩
  simp only [isNumeral, Bool.and_eq_true, Bool.or_eq_true, beq_iff_eq] at numeral
  obtain ⟨_, fraction⟩ := numeral
  split at fraction
  · rename_i sign
    have chars := unsignedChars line.tail (by
      rcases fraction with empty | ⟨⟨dot, _⟩, tail⟩
      · exact .inl empty
      · exact .inr ⟨dot, tail⟩)
    cases line with
    | nil => rfl
    | cons c rest =>
        have same : c = '-' := by simpa using sign
        simp only [List.all_cons, Bool.and_eq_true]
        exact ⟨by rw [same]; decide, chars⟩
  · exact unsignedChars line (by
      rcases fraction with empty | ⟨⟨dot, _⟩, tail⟩
      · exact .inl empty
      · exact .inr ⟨dot, tail⟩)

/-- A value on one line becomes a bare word or a string. -/
theorem JsonSet.literal_cases (oneLine : '\n' ∉ value) :
    (JsonSet.literal value ≠ [] ∧ (JsonSet.literal value).all isAtomChar = true) ∨
      ∃ body, Body false body ∧ JsonSet.literal value = quote body := by
  unfold JsonSet.literal JsonSet.jsonEncode
  split
  · rename_i word
    left
    rcases word with rfl | rfl | rfl <;> decide
  · split
    · right
      exact ⟨[], .done, by decide⟩
    · split
      · rename_i nonempty numeral
        left
        rw [hasNumeralLine_of_oneLine oneLine] at numeral
        rw [captured_of_oneLine oneLine, firstLine_of_oneLine oneLine nonempty]
        refine ⟨nonempty, ?_⟩
        apply List.all_eq_true.mpr
        intro c member
        exact isAtomChar_of_class
          (List.all_eq_true.mp (numeralChars_of_isNumeral numeral) c member)
          (by decide)
      · right
        exact ⟨_, body_escapeInner value, firstLine_jsonStringEncode value⟩

theorem JsonSet.val_literal (oneLine : '\n' ∉ value) :
    Val (JsonSet.literal value) := by
  rcases JsonSet.literal_cases oneLine with ⟨nonempty, atom⟩ | ⟨body, ok, same⟩
  · exact .atom nonempty atom
  · rw [same]
    exact .str ok

end Hnc
