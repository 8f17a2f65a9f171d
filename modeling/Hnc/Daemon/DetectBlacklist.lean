import Hnc.Daemon.DetectMerge
import Hnc.Json.StringArrays

/-!
# The blacklist of a scan

The scanner looks for `"blacklist":[` on the lines of `rules.json`.  It reads the
list when that stands at the list and nowhere else; a list behind a blank is not
seen.
-/

namespace Hnc.DeviceDetect

open Posix JsonText
open HncJson (renderArray laterItems)

/-- What the pattern begins with. -/
def blacklistMark : Text :=
  quote "blacklist".toList ++ [':', '[']

/-- The list, as the writers of the file print it, stands on one line, and the
mark stands at it only. -/
structure Legible (rules : Text) (listed : List Text) : Prop where
  words : ∀ item ∈ listed, isMacWord item = true
  place : ∃ above before behind below,
    records rules = above ++ (before ++ (quote "blacklist".toList ++ ':' ::
      renderArray listed ++ behind)) :: below ∧
    (∀ line ∈ above ++ below, ¬blacklistMark <:+: line) ∧
    ¬blacklistMark <:+: before ++ (quote "blacklist".toList ++ [':']) ∧
    ¬blacklistMark <:+: behind

/-- The mark stands nowhere. -/
def Unmarked (rules : Text) : Prop :=
  ∀ line ∈ records rules, ¬blacklistMark <:+: line

theorem blacklistArray_eq_some {text behind : Text}
    (found : blacklistArray text = some behind) : blacklistMark <+: text := by
  obtain ⟨items, marked, _⟩ := Option.bind_eq_some_iff.mp found
  exact ⟨items, (after?_eq_some.mp marked).symm⟩

/-- A match that starts in front of a text ends in it, when the text is long
enough or the line ends there. -/
theorem quiet_of_unmarked {front tail more : Text}
    (unmarked : ¬blacklistMark <:+: front ++ tail)
    (room : blacklistMark.length ≤ tail.length + 1 ∨ more = []) :
    Quiet blacklistArray front (tail ++ more) := by
  induction front with
  | nil => trivial
  | cons c front induction =>
      refine ⟨?_, induction fun inside => unmarked (List.infix_cons inside)⟩
      cases found : blacklistArray (c :: (front ++ (tail ++ more))) with
      | none => rfl
      | some behind =>
          have marked := blacklistArray_eq_some found
          have whole : c :: (front ++ tail) <+: c :: (front ++ (tail ++ more)) :=
            ⟨more, by rw [List.cons_append, List.append_assoc]⟩
          exfalso
          apply unmarked
          rcases room with long | rfl
          · apply List.IsPrefix.isInfix
            apply List.prefix_of_prefix_length_le marked whole
            rw [List.length_cons, List.length_append]
            omega
          · rw [List.append_nil] at marked
            exact marked.isInfix

theorem grepO_unmarked {line : Text} (unmarked : ¬blacklistMark <:+: line) :
    grepO blacklistArray line = [] := by
  have free : ¬blacklistMark <:+: line ++ [] := by
    rw [List.append_nil]
    exact unmarked
  have passed := grepO_quiet (quiet_of_unmarked free (.inr (rfl : ([] : Text) = [])))
  rw [List.append_nil, List.append_nil] at passed
  exact passed

theorem flatMap_unmarked {lines : List Text}
    (unmarked : ∀ line ∈ lines, ¬blacklistMark <:+: line) :
    lines.flatMap (grepO blacklistArray) = [] :=
  List.flatMap_eq_nil_iff.mpr fun line member => grepO_unmarked (unmarked line member)

theorem blacklist_of_unmarked {rules : Text} (unmarked : Unmarked rules) :
    blacklist rules = [] := by
  rw [blacklist, flatMap_unmarked unmarked]
  rfl

section

variable {word : Text} (good : isMacWord word = true)
include good

theorem isMacChar_of_mem :
    ∀ c ∈ word, DeviceNames.isMacChar c = true := by
  rw [isMacWord, Bool.and_eq_true, List.all_eq_true] at good
  exact good.2

theorem plainName_of_isMacWord :
    PlainName word := by
  have chars := isMacChar_of_mem good
  rw [isMacWord, Bool.and_eq_true, beq_iff_eq] at good
  refine ⟨List.ne_nil_of_length_pos (by omega), List.all_eq_true.mpr ?_⟩
  intro c member
  have char := chars c member
  have noSlash : c ≠ '\\' := by
    rintro rfl
    exact absurd char (by decide)
  have noQuote : c ≠ '"' := by
    rintro rfl
    exact absurd char (by decide)
  have byte := Hotspotd.isPlainByte_of_isMacChar char
  rw [Hotspotd.isPlainByte, Bool.and_eq_true, Bool.and_eq_true, Bool.and_eq_true,
    decide_eq_true_eq] at byte
  have visible : isControl c = false :=
    decide_eq_false (Nat.not_lt.mpr byte.1.1.1)
  rw [visible, Bool.and_eq_true, Bool.and_eq_true, bne_iff_ne, bne_iff_ne]
  exact ⟨⟨noSlash, noQuote⟩, rfl⟩

theorem not_mem_isMacWord {c : Char} (other : DeviceNames.isMacChar c = false) :
    c ∉ word := by
  intro member
  have char := isMacChar_of_mem good c member
  rw [other] at char
  cases char

theorem grepO_quoted (rest : Text) :
    grepO (worded isMacWord some) (quote word ++ rest) =
      quote word :: grepO (worded isMacWord some) rest := by
  have matched : worded isMacWord some (quote word ++ rest) = some rest := by
    rw [quote_append, worded_quote some (not_mem_isMacWord good (by decide)),
      if_pos good]
  have nonempty : quote word ≠ [] := List.cons_ne_nil _ _
  exact grepO_match nonempty matched

end

theorem grepO_laterItems {items : List Text}
    (words : ∀ item ∈ items, isMacWord item = true) :
    grepO (worded isMacWord some) (laterItems items ++ [']']) = items.map quote := by
  induction items with
  | nil => rfl
  | cons item items induction =>
      have comma : Quiet (worded isMacWord some) [',']
          (quote item ++ (laterItems items ++ [']'])) :=
        quiet_of_not_mem some (by decide) _
      have text : laterItems (item :: items) ++ [']'] =
          [','] ++ (quote item ++ (laterItems items ++ [']'])) := by
        simp [laterItems]
      rw [text, grepO_quiet comma, grepO_quoted (words item List.mem_cons_self),
        induction fun other member => words other (List.mem_cons_of_mem item member)]
      rfl

variable {listed : List Text}

/-- The addresses are found in the list, and nothing else. -/
theorem grepO_renderArray (words : ∀ item ∈ listed, isMacWord item = true) :
    grepO (worded isMacWord some)
        (quote "blacklist".toList ++ ':' :: renderArray listed) =
      listed.map quote := by
  cases listed with
  | nil => decide
  | cons first others =>
      have items : ∀ item ∈ first :: others, PlainName item :=
        fun item member => plainName_of_isMacWord (words item member)
      have text : quote "blacklist".toList ++ ':' :: renderArray (first :: others) =
          blacklistMark ++ (quote first ++ (laterItems others ++ [']'])) := by
        rw [HncJson.renderArray_cons items, blacklistMark]
        simp
      have opened : worded isMacWord some (blacklistMark ++
          (quote first ++ (laterItems others ++ [']']))) = none := by
        rw [blacklistMark, List.append_assoc, quote_append]
        exact worded_quote some (by decide) _
      have closed : worded isMacWord some ('"' :: ([':', '['] ++
          (quote first ++ (laterItems others ++ [']'])))) = none := by
        exact worded_quote some (by decide) _
      have inner (rest : Text) :
          Quiet (worded isMacWord some) "blacklist".toList rest :=
        quiet_of_not_mem some (by decide) rest
      have tail : Quiet (worded isMacWord some) ['"', ':', '[']
          (quote first ++ (laterItems others ++ [']'])) :=
        ⟨closed, quiet_of_not_mem some (by decide) _⟩
      have mark : Quiet (worded isMacWord some) blacklistMark
          (quote first ++ (laterItems others ++ [']'])) :=
        ⟨opened, (inner _).append tail⟩
      rw [text, grepO_quiet mark, grepO_quoted (words first List.mem_cons_self),
        grepO_laterItems fun other member =>
          words other (List.mem_cons_of_mem first member)]
      rfl

theorem renderArray_split (words : ∀ item ∈ listed, isMacWord item = true) :
    ∃ inner, renderArray listed = '[' :: (inner ++ [']']) ∧ ']' ∉ inner := by
  cases listed with
  | nil => exact ⟨[], rfl, List.not_mem_nil⟩
  | cons first others =>
      have items : ∀ item ∈ first :: others, PlainName item :=
        fun item member => plainName_of_isMacWord (words item member)
      have free : ∀ item ∈ first :: others, ']' ∉ quote item := by
        intro item member
        have word := not_mem_isMacWord (words item member) (c := ']') (by decide)
        simp [quote, word]
      refine ⟨quote first ++ laterItems others, HncJson.renderArray_cons items, ?_⟩
      rw [List.mem_append, not_or, laterItems, List.mem_flatMap]
      refine ⟨free first List.mem_cons_self, ?_⟩
      rintro ⟨item, member, inside⟩
      rcases List.mem_cons.mp inside with comma | quoted
      · exact absurd comma (by decide)
      · exact free item (List.mem_cons_of_mem first member) quoted

theorem blacklist_of_legible {rules : Text} (legible : Legible rules listed) :
    blacklist rules = listed.map fun item => item.map Char.toLower := by
  obtain ⟨above, before, behind, below, lines, elsewhere, first, last⟩ :=
    legible.place
  obtain ⟨inner, array, free⟩ := renderArray_split legible.words
  have passed : Quiet blacklistArray before
      (quote "blacklist".toList ++ [':'] ++ (renderArray listed ++ behind)) :=
    quiet_of_unmarked first (.inl (by decide))
  have matched : blacklistArray (quote "blacklist".toList ++ ':' ::
      renderArray listed ++ behind) = some behind := by
    have marked : after? blacklistMark (quote "blacklist".toList ++ ':' ::
        renderArray listed ++ behind) = some (inner ++ ']' :: behind) := by
      apply after?_eq_some.mpr
      rw [array, blacklistMark]
      simp
    show (after? blacklistMark _).bind _ = _
    rw [marked, Option.bind_some, dropWhile_until free]
  have line : grepO blacklistArray (before ++ (quote "blacklist".toList ++ ':' ::
      renderArray listed ++ behind)) =
        [quote "blacklist".toList ++ ':' :: renderArray listed] := by
    have text : quote "blacklist".toList ++ [':'] ++ (renderArray listed ++ behind) =
        quote "blacklist".toList ++ ':' :: renderArray listed ++ behind := by
      simp
    have nonempty : quote "blacklist".toList ++ ':' :: renderArray listed ≠ [] :=
      List.append_ne_nil_of_right_ne_nil _ (List.cons_ne_nil _ _)
    rw [text] at passed
    rw [grepO_quiet passed, grepO_match nonempty matched, grepO_unmarked last]
  have bare : ∀ item ∈ listed, bareLower (quote item) = item.map Char.toLower := by
    intro item member
    have noQuote : item.filter (· ≠ '"') = item := by
      apply List.filter_eq_self.mpr
      intro c inside
      apply decide_eq_true
      rintro rfl
      exact not_mem_isMacWord (legible.words item member) (by decide) inside
    rw [bareLower, quote, List.filter_append, List.filter_cons, noQuote]
    exact congrArg (List.map Char.toLower) (List.append_nil item)
  have aboveNone := flatMap_unmarked fun other member =>
    elsewhere other (List.mem_append_left below member)
  have belowNone := flatMap_unmarked fun other member =>
    elsewhere other (List.mem_append_right above member)
  rw [blacklist, lines, List.flatMap_append, List.flatMap_cons, aboveNone, line,
    belowNone, List.nil_append, List.append_nil, List.flatMap_singleton,
    grepO_renderArray legible.words, List.map_map]
  exact List.map_congr_left bare

end Hnc.DeviceDetect
