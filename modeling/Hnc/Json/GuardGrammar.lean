import Hnc.Json.Guard
import Hnc.Lib.JsonGrammar
import Hnc.Lib.LineSearch

/-!
# `bin/json_guard.sh` accepts exactly the JSON texts

Each parser is sound, since what it consumes is derived by the grammar, and
complete, since it consumes what is derived and stops behind it.  Behind a
number stands a character that no number goes on with.
-/

namespace Hnc.Guard

open Posix
open JsonText

variable {c : Char}

theorem isHex_iff : isHex c = true ↔ c ∈ hexDigits := by
  constructor
  · intro hex
    have small : c.toNat < 103 := by
      simp only [isHex, isDigit, Bool.or_eq_true, Bool.and_eq_true,
        decide_eq_true_eq, Char.reduceToNat] at hex
      omega
    have table : ∀ n < 103, isHex (Char.ofNat n) = true →
        Char.ofNat n ∈ hexDigits := by
      decide +kernel
    have listed := table c.toNat small
    rw [Char.ofNat_toNat] at listed
    exact listed hex
  · intro member
    have all : hexDigits.all isHex = true := by
      decide
    exact List.all_eq_true.mp all c member

theorem isEscape_iff {e : Char} :
    isEscape e = true ↔ e ∈ "\"\\/bfnrt".toList := by
  simp [isEscape, or_assoc]

/-- What the characters up to the closing quote are, by what has been read. -/
def StringState.Tail : StringState → Text → Prop
  | plain, text => Chars text
  | escape, text => Chars ('\\' :: text)
  | unicode left, text => ∃ hex rest, text = hex ++ rest ∧
      hex.length = max left 1 ∧ (∀ h ∈ hex, h ∈ hexDigits) ∧ Chars rest

variable {text rest : Text}

theorem stringTail_sound {state : StringState}
    (parsed : stringTail state text = some rest) :
    ∃ body, text = body ++ '"' :: rest ∧ state.Tail body := by
  induction text generalizing state with
  | nil => cases state <;> cases parsed
  | cons c text induction =>
      cases state with
      | plain =>
          rw [stringTail] at parsed
          split at parsed
          · rename_i quote
            cases parsed
            exact ⟨[], by rw [quote]; rfl, .nil⟩
          · rename_i notQuote
            split at parsed
            · rename_i slash
              obtain ⟨body, split, tail⟩ := induction parsed
              exact ⟨c :: body, by rw [split]; rfl, by rw [slash]; exact tail⟩
            · rename_i notSlash
              split at parsed
              · cases parsed
              · rename_i notControl
                obtain ⟨body, split, tail⟩ := induction parsed
                refine ⟨c :: body, by rw [split]; rfl, ?_⟩
                refine .unescaped ?_ notQuote notSlash tail
                simpa [isControl] using notControl
      | escape =>
          rw [stringTail] at parsed
          split at parsed
          · rename_i escape
            obtain ⟨body, split, tail⟩ := induction parsed
            exact ⟨c :: body, by rw [split]; rfl,
              .escape (isEscape_iff.mp escape) tail⟩
          · split at parsed
            · rename_i isU
              obtain ⟨body, split, hex, more, same, four, digits, tail⟩ :=
                induction parsed
              refine ⟨c :: body, by rw [split]; rfl, ?_⟩
              obtain ⟨a, b, d, e, rfl⟩ := List.length_eq_four.mp four
              rw [isU, same]
              exact .unicode digits tail
            · cases parsed
      | unicode left =>
          rw [stringTail] at parsed
          split at parsed
          · rename_i digit
            by_cases last : left ≤ 1
            · rw [if_pos last] at parsed
              obtain ⟨body, split, tail⟩ := induction parsed
              refine ⟨c :: body, by rw [split]; rfl, [c], body, rfl, ?_, ?_,
                tail⟩
              · simp only [List.length_singleton]
                omega
              · simpa using isHex_iff.mp digit
            · rw [if_neg last] at parsed
              obtain ⟨body, split, hex, more, same, length, digits, tail⟩ :=
                induction parsed
              refine ⟨c :: body, by rw [split]; rfl, c :: hex, more,
                by rw [same]; rfl, ?_, ?_, tail⟩
              · simp only [List.length_cons]
                omega
              · simpa using ⟨isHex_iff.mp digit, digits⟩
          · cases parsed

theorem stringTail_hex (hex : isHex c = true) (left : Nat) (rest : Text) :
    stringTail (.unicode (left + 2)) (c :: rest) =
      stringTail (.unicode (left + 1)) rest := by
  rw [stringTail, if_pos hex]
  rfl

theorem stringTail_lastHex (hex : isHex c = true) (rest : Text) :
    stringTail (.unicode 1) (c :: rest) = stringTail .plain rest := by
  rw [stringTail, if_pos hex, if_pos (by omega)]

variable {body : Text}

theorem stringTail_complete (chars : Chars body) (rest : Text) :
    stringTail .plain (body ++ '"' :: rest) = some rest := by
  induction chars with
  | nil => rfl
  | @unescaped c body visible notQuote notSlash _ induction =>
      have notControl : ¬isControl c = true := by
        simpa [isControl] using visible
      rw [List.cons_append, stringTail, if_neg notQuote, if_neg notSlash,
        if_neg notControl]
      exact induction
  | @escape e body known _ induction =>
      have slash : stringTail .plain ('\\' :: (e :: (body ++ '"' :: rest))) =
          stringTail .escape (e :: (body ++ '"' :: rest)) := rfl
      rw [List.cons_append, List.cons_append, slash, stringTail,
        if_pos (isEscape_iff.mpr known)]
      exact induction
  | @unicode a b c d body hex _ induction =>
      have digits : ∀ h ∈ [a, b, c, d], isHex h = true :=
        fun h member => isHex_iff.mpr (hex h member)
      simp only [List.forall_mem_cons] at digits
      obtain ⟨first, second, third, fourth, _⟩ := digits
      have entered : stringTail .plain (('\\' :: 'u' :: a :: b :: c :: d ::
          body) ++ '"' :: rest) =
          stringTail (.unicode 4) (a :: b :: c :: d ::
            (body ++ '"' :: rest)) := rfl
      rw [entered, stringTail_hex first, stringTail_hex second,
        stringTail_hex third, stringTail_lastHex fourth]
      exact induction

theorem parseString_sound (parsed : parseString text = some rest) :
    ∃ body, text = quote body ++ rest ∧ Chars body := by
  cases text with
  | nil => cases parsed
  | cons c text =>
      rw [parseString] at parsed
      split at parsed
      · rename_i isQuote
        obtain ⟨body, split, chars⟩ := stringTail_sound parsed
        exact ⟨body, by rw [isQuote, split]; simp [quote], chars⟩
      · cases parsed

theorem parseString_complete (chars : Chars body) (rest : Text) :
    parseString (quote body ++ rest) = some rest := by
  have opened : parseString (quote body ++ rest) =
      stringTail .plain (body ++ '"' :: rest) := by
    simp [quote, parseString]
  rw [opened]
  exact stringTail_complete chars rest

/-! ### Numbers -/

/-- Text that does not go on with a number or a word. -/
def Ends (rest : Text) : Prop :=
  ∀ c, rest.head? = some c → isAtomChar c = false

theorem Ends.head (ends : Ends rest) {p : Char → Bool}
    (word : ∀ c, p c = true → isAtomChar c = true) (head : rest.head? = some c) :
    p c = false := by
  cases here : p c with
  | false => rfl
  | true =>
      have atom := word c here
      rw [ends c head] at atom
      cases atom

theorem dropWhile_append_ends {p : Char → Bool} (all : text.all p = true)
    (stops : ∀ c, rest.head? = some c → p c = false) :
    (text ++ rest).dropWhile p = rest := by
  rw [List.dropWhile_append_of_pos (List.all_eq_true.mp all)]
  cases rest with
  | nil => rfl
  | cons c rest => rw [List.dropWhile_cons_of_neg (by simp [stops c rfl])]

theorem takeWhile_split (p : Char → Bool) (text : Text) :
    ∃ front, text = front ++ text.dropWhile p ∧ front.all p = true :=
  ⟨text.takeWhile p, List.takeWhile_append_dropWhile.symm, by simp⟩

theorem digits1_sound {text rest : Text} (parsed : digits1 text = some rest) :
    ∃ digits, text = digits ++ rest ∧ Digits digits := by
  cases text with
  | nil => cases parsed
  | cons c text =>
      rw [digits1] at parsed
      split at parsed
      · rename_i digit
        cases parsed
        obtain ⟨front, split, all⟩ := takeWhile_split isDigit text
        refine ⟨c :: front, ?_, by simp, ?_⟩
        · rw [List.cons_append, ← split]
        · rw [List.all_cons, digit, all]
          rfl
      · cases parsed

theorem digits1_complete {digits : Text} (ok : Digits digits)
    (stops : ∀ c, rest.head? = some c → isDigit c = false) :
    digits1 (digits ++ rest) = some rest := by
  obtain ⟨nonempty, all⟩ := ok
  cases digits with
  | nil => exact absurd rfl nonempty
  | cons c digits =>
      simp only [List.all_cons, Bool.and_eq_true] at all
      rw [List.cons_append, digits1, if_pos all.1,
        dropWhile_append_ends all.2 stops]

theorem integerPart_sound (parsed : integerPart text = some rest) :
    ∃ whole, text = whole ++ rest ∧ Integer whole := by
  cases text with
  | nil => cases parsed
  | cons c text =>
      rw [integerPart] at parsed
      split at parsed
      · rename_i zero
        cases parsed
        exact ⟨['0'], by rw [zero]; rfl, .zero⟩
      · rename_i notZero
        obtain ⟨digits, split, ok⟩ :=
          @digits1_sound (c :: text) rest parsed
        cases digits with
        | nil => exact absurd rfl ok.1
        | cons first digits =>
            obtain ⟨rfl, _⟩ := List.cons.inj split
            exact ⟨c :: digits, split, .digits notZero ok⟩

theorem integerPart_complete {whole : Text} (ok : Integer whole)
    (stops : ∀ c, rest.head? = some c → isDigit c = false) :
    integerPart (whole ++ rest) = some rest := by
  cases ok with
  | zero => rfl
  | digits notZero digits =>
      rw [List.cons_append, integerPart, if_neg notZero]
      exact digits1_complete digits stops

theorem fractionPart_sound (parsed : fractionPart text = some rest) :
    ∃ fraction, text = fraction ++ rest ∧ Fraction fraction := by
  cases text with
  | nil =>
      cases parsed
      exact ⟨[], rfl, .absent⟩
  | cons c text =>
      rw [fractionPart] at parsed
      split at parsed
      · rename_i point
        obtain ⟨digits, split, ok⟩ := digits1_sound parsed
        exact ⟨'.' :: digits, by rw [point, split]; rfl, .digits ok⟩
      · cases parsed
        exact ⟨[], rfl, .absent⟩

theorem fractionPart_complete {fraction : Text} (ok : Fraction fraction)
    (stops : ∀ c, rest.head? = some c → isDigit c = false ∧ c ≠ '.') :
    fractionPart (fraction ++ rest) = some rest := by
  cases ok with
  | absent =>
      cases rest with
      | nil => rfl
      | cons c rest =>
          rw [List.nil_append, fractionPart, if_neg (stops c rfl).2]
  | digits digits =>
      exact digits1_complete digits fun c head => (stops c head).1

theorem exponentPart_sound (parsed : exponentPart text = some rest) :
    ∃ exponent, text = exponent ++ rest ∧ Exponent exponent := by
  cases text with
  | nil =>
      cases parsed
      exact ⟨[], rfl, .absent⟩
  | cons e text =>
      by_cases letter : e = 'e' ∨ e = 'E'
      · cases text with
        | nil =>
            simp only [exponentPart, if_pos letter] at parsed
            cases parsed
        | cons sign text =>
            simp only [exponentPart, if_pos letter] at parsed
            split at parsed
            · rename_i signed
              obtain ⟨digits, split, ok⟩ := digits1_sound parsed
              refine ⟨e :: ([sign] ++ digits), by rw [split]; rfl,
                .digits letter ?_ ok⟩
              rcases signed with rfl | rfl <;> simp
            · obtain ⟨digits, split, ok⟩ := digits1_sound parsed
              exact ⟨e :: ([] ++ digits), by rw [split]; rfl,
                .digits letter (.inl rfl) ok⟩
      · have same : exponentPart (e :: text) = some (e :: text) := by
          exact if_neg letter
        rw [same] at parsed
        cases parsed
        exact ⟨[], rfl, .absent⟩

variable {exponent : Text}

theorem exponentPart_complete (ok : Exponent exponent) (ends : Ends rest) :
    exponentPart (exponent ++ rest) = some rest := by
  have stops : ∀ c, rest.head? = some c → isDigit c = false :=
    fun c head => ends.head (fun _ => isAtomChar_of_isDigit) head
  cases ok with
  | absent =>
      cases rest with
      | nil => rfl
      | cons c rest =>
          have other : ¬(c = 'e' ∨ c = 'E') := by
            have notAtom := ends c rfl
            rintro (rfl | rfl) <;> revert notAtom <;> decide
          exact if_neg other
  | @digits e sign text letter signed digits =>
      have parsed := digits1_complete digits stops
      rcases signed with rfl | rfl | rfl
      · cases text with
        | nil => exact absurd rfl digits.1
        | cons d text =>
            have digit : isDigit d = true := by
              have all := digits.2
              simp only [List.all_cons, Bool.and_eq_true] at all
              exact all.1
            have notSign : ¬(d = '+' ∨ d = '-') := by
              rintro (rfl | rfl) <;> revert digit <;> decide
            simp only [List.nil_append, List.cons_append, exponentPart,
              if_pos letter, if_neg notSign]
            exact parsed
      · simp only [List.cons_append, exponentPart, if_pos letter]
        exact parsed
      · simp only [List.cons_append, exponentPart, if_pos letter]
        exact parsed

theorem parseNumber_sound (parsed : parseNumber text = some rest) :
    ∃ number, text = number ++ rest ∧ Number number := by
  obtain ⟨behindWhole, whole, parsed⟩ := Option.bind_eq_some_iff.mp parsed
  obtain ⟨behindFraction, fraction, exponent⟩ :=
    Option.bind_eq_some_iff.mp parsed
  obtain ⟨integer, integerText, integerOk⟩ := integerPart_sound whole
  obtain ⟨decimals, decimalText, decimalOk⟩ := fractionPart_sound fraction
  obtain ⟨power, powerText, powerOk⟩ := exponentPart_sound exponent
  split at integerText
  · rename_i minus
    refine ⟨['-'] ++ (integer ++ (decimals ++ power)), ?_,
      .parts (.inr rfl) integerOk decimalOk powerOk⟩
    have split := List.eq_cons_of_mem_head? minus
    rw [split, integerText, decimalText, powerText]
    simp
  · refine ⟨[] ++ (integer ++ (decimals ++ power)), ?_,
      .parts (.inl rfl) integerOk decimalOk powerOk⟩
    rw [integerText, decimalText, powerText]
    simp

/-- What stands behind the digits of a number. -/
theorem stops_of_exponent (ok : Exponent exponent) (ends : Ends rest)
    (head : (exponent ++ rest).head? = some c) : isDigit c = false ∧ c ≠ '.' := by
  cases ok with
  | absent =>
      refine ⟨ends.head (fun _ => isAtomChar_of_isDigit) head, ?_⟩
      rintro rfl
      exact absurd (ends '.' head) (by decide)
  | digits letter _ _ =>
      cases head
      rcases letter with rfl | rfl <;> decide

theorem stops_of_fraction {fraction : Text} (ok : Fraction fraction)
    (exponentOk : Exponent exponent) (ends : Ends rest)
    (head : (fraction ++ (exponent ++ rest)).head? = some c) :
    isDigit c = false := by
  cases ok with
  | absent => exact (stops_of_exponent exponentOk ends head).1
  | digits _ =>
      cases head
      decide

theorem parseNumber_complete {number : Text} (ok : Number number)
    (ends : Ends rest) : parseNumber (number ++ rest) = some rest := by
  obtain ⟨signed, wholeOk, fractionOk, exponentOk⟩ := ok
  rename_i sign whole fraction exponent
  have unsigned : integerPart (whole ++ (fraction ++ (exponent ++ rest))) =
      some (fraction ++ (exponent ++ rest)) :=
    integerPart_complete wholeOk
      fun c head => stops_of_fraction fractionOk exponentOk ends head
  have parts : ((integerPart (whole ++ (fraction ++ (exponent ++ rest)))).bind
      fun behind => (fractionPart behind).bind exponentPart) = some rest := by
    rw [unsigned, Option.bind_some,
      fractionPart_complete fractionOk fun c head => stops_of_exponent exponentOk ends head]
    exact exponentPart_complete exponentOk ends
  have text : sign ++ (whole ++ (fraction ++ exponent)) ++ rest =
      sign ++ (whole ++ (fraction ++ (exponent ++ rest))) := by
    simp
  rw [text, parseNumber]
  rcases signed with rfl | rfl
  · have notMinus : ¬([] ++ (whole ++ (fraction ++ (exponent ++ rest)))).head? =
        some '-' := by
      cases wholeOk with
      | zero => simp
      | @digits first rest _ digits =>
          have digit := digits.2
          simp only [List.all_cons, Bool.and_eq_true] at digit
          rintro ⟨⟩
          exact absurd digit.1 (by decide)
    simp only [if_neg notMinus]
    exact parts
  · exact parts

theorem skipws_split (text : Text) :
    ∃ space, text = space ++ skipws text ∧ blank space = true :=
  takeWhile_split isWs text

/-- What each of the three parsers consumes. -/
structure Sound (fuel : Nat) : Prop where
  value : ∀ {text rest}, parseValue fuel text = some rest →
    ∃ before middle tree, text = before ++ (middle ++ rest) ∧
      blank before = true ∧ Derives .value middle tree
  members : ∀ {text rest}, parseMembers fuel text = some rest →
    ∃ inner entries, text = inner ++ '}' :: rest ∧
      Derives .members inner (.object entries)
  elements : ∀ {text rest}, parseElements fuel text = some rest →
    ∃ inner values, text = inner ++ ']' :: rest ∧
      Derives .elements inner (.array values)

theorem Sound.object {fuel : Nat} (sound : Sound fuel) {text rest : Text}
    (parsed : (match skipws text with
      | '}' :: after => some after
      | members => parseMembers fuel members) = some rest) :
    ∃ middle tree, '{' :: text = middle ++ rest ∧
      Derives .value middle tree := by
  obtain ⟨space, spaced, spaceBlank⟩ := skipws_split text
  split at parsed
  · rename_i after closes
    cases parsed
    refine ⟨'{' :: space ++ ['}'], _, ?_, .noMembers spaceBlank⟩
    rw [spaced, closes]
    simp
  · obtain ⟨inner, entries, inside, derives⟩ := sound.members parsed
    refine ⟨'{' :: (space ++ inner) ++ ['}'], _, ?_,
      .object (derives.lead_members spaceBlank)⟩
    rw [spaced, inside]
    simp

theorem Sound.array {fuel : Nat} (sound : Sound fuel) {text rest : Text}
    (parsed : (match skipws text with
      | ']' :: after => some after
      | elements => parseElements fuel elements) = some rest) :
    ∃ middle tree, '[' :: text = middle ++ rest ∧
      Derives .value middle tree := by
  obtain ⟨space, spaced, spaceBlank⟩ := skipws_split text
  split at parsed
  · rename_i after closes
    cases parsed
    refine ⟨'[' :: space ++ [']'], _, ?_, .noElements spaceBlank⟩
    rw [spaced, closes]
    simp
  · obtain ⟨inner, values, inside, derives⟩ := sound.elements parsed
    refine ⟨'[' :: (space ++ inner) ++ [']'], _, ?_,
      .array (derives.lead_elements spaceBlank)⟩
    rw [spaced, inside]
    simp

theorem sound_zero : Sound 0 where
  value parsed := by
    cases parsed
  members parsed := by
    cases parsed
  elements parsed := by
    cases parsed

variable {fuel : Nat}

theorem Sound.value_succ (sound : Sound fuel)
    (parsed : parseValue (fuel + 1) text = some rest) :
    ∃ before middle tree, text = before ++ (middle ++ rest) ∧
      blank before = true ∧ Derives .value middle tree := by
  obtain ⟨before, spaced, beforeBlank⟩ := skipws_split text
  have suffices_here : (∃ middle tree, skipws text = middle ++ rest ∧
      Derives .value middle tree) →
      ∃ before middle tree, text = before ++ (middle ++ rest) ∧
        blank before = true ∧ Derives .value middle tree := by
    rintro ⟨middle, tree, split, derives⟩
    exact ⟨before, middle, tree, by rw [← split, ← spaced], beforeBlank,
      derives⟩
  apply suffices_here
  rw [parseValue] at parsed
  split at parsed
  · cases parsed
  · rename_i c inside start
    rw [start]
    split at parsed
    · obtain ⟨body, split, chars⟩ := parseString_sound parsed
      exact ⟨quote body, _, split, .string chars⟩
    · split at parsed
      · rename_i opens
        rw [opens]
        exact sound.object parsed
      · split at parsed
        · rename_i opens
          rw [opens]
          exact sound.array parsed
        · split at parsed
          · exact ⟨_, _, after?_eq_some.mp parsed, .wordTrue⟩
          · split at parsed
            · exact ⟨_, _, after?_eq_some.mp parsed, .wordFalse⟩
            · split at parsed
              · exact ⟨_, _, after?_eq_some.mp parsed, .wordNull⟩
              · split at parsed
                · obtain ⟨number, split, ok⟩ := parseNumber_sound parsed
                  exact ⟨number, _, split, .number ok⟩
                · cases parsed

theorem Sound.members_succ (sound : Sound fuel)
    (parsed : parseMembers (fuel + 1) text = some rest) :
    ∃ inner entries, text = inner ++ '}' :: rest ∧
      Derives .members inner (.object entries) := by
  obtain ⟨lead, spaced, leadBlank⟩ := skipws_split text
  obtain ⟨behindKey, key, parsed⟩ := Option.bind_eq_some_iff.mp parsed
  obtain ⟨body, keyText, chars⟩ := parseString_sound key
  obtain ⟨gap, gapText, gapBlank⟩ := skipws_split behindKey
  split at parsed
  · rename_i afterColon colon
    obtain ⟨behindValue, value, parsed⟩ := Option.bind_eq_some_iff.mp parsed
    obtain ⟨pad, middle, tree, valueText, padBlank, derives⟩ :=
      sound.value value
    obtain ⟨trail, trailText, trailBlank⟩ := skipws_split behindValue
    have front : ∀ {behind}, skipws behindValue = behind → text =
        (Member.mk lead body gap pad middle trail).render ++ behind := by
      rintro behind rfl
      rw [spaced, keyText, gapText, colon, valueText]
      nth_rewrite 1 [trailText]
      simp [Member.render, Member.fromKey, Member.fromValue]
    have spaces : (Member.mk lead body gap pad middle trail).Spaced :=
      ⟨leadBlank, gapBlank, padBlank, trailBlank⟩
    split at parsed
    · rename_i next comma
      obtain ⟨inner, entries, nextText, others⟩ := sound.members parsed
      refine ⟨_, _, ?_, .members spaces chars derives others⟩
      rw [front comma, nextText]
      simp
    · rename_i after closes
      cases parsed
      exact ⟨_, _, front closes, .member spaces chars derives⟩
    · cases parsed
  · cases parsed

theorem Sound.elements_succ (sound : Sound fuel)
    (parsed : parseElements (fuel + 1) text = some rest) :
    ∃ inner values, text = inner ++ ']' :: rest ∧
      Derives .elements inner (.array values) := by
  obtain ⟨behindValue, value, parsed⟩ := Option.bind_eq_some_iff.mp parsed
  obtain ⟨lead, middle, tree, valueText, leadBlank, derives⟩ :=
    sound.value value
  obtain ⟨trail, trailText, trailBlank⟩ := skipws_split behindValue
  have front : ∀ {behind}, skipws behindValue = behind →
      text = lead ++ (middle ++ (trail ++ behind)) := by
    rintro behind rfl
    rw [valueText, ← trailText]
  split at parsed
  · rename_i next comma
    obtain ⟨inner, values, nextText, others⟩ := sound.elements parsed
    refine ⟨_, _, ?_, .elements leadBlank derives trailBlank others⟩
    rw [front comma, nextText]
    simp
  · rename_i after closes
    cases parsed
    refine ⟨_, _, ?_, .element leadBlank derives trailBlank⟩
    rw [front closes]
    simp
  · cases parsed

theorem sound (fuel : Nat) : Sound fuel := by
  induction fuel with
  | zero => exact sound_zero
  | succ fuel induction =>
      exact ⟨induction.value_succ, induction.members_succ,
        induction.elements_succ⟩

/-! ### Completeness -/

variable {space : Text}

theorem skipws_blank (spaceBlank : blank space = true) (rest : Text) :
    skipws (space ++ rest) = skipws rest :=
  dropWhile_isWs_blank rest spaceBlank

theorem skipws_skipws (text : Text) : skipws (skipws text) = skipws text := by
  obtain ⟨space, spaced, spaceBlank⟩ := skipws_split text
  conv_rhs => rw [spaced]
  exact (skipws_blank spaceBlank _).symm

theorem parseValue_skipws (fuel : Nat) (text : Text) :
    parseValue fuel (skipws text) = parseValue fuel text := by
  cases fuel with
  | zero => rw [parseValue, parseValue]
  | succ fuel => rw [parseValue, parseValue, skipws_skipws]

theorem parseElements_skipws (fuel : Nat) (text : Text) :
    parseElements fuel (skipws text) = parseElements fuel text := by
  cases fuel with
  | zero => rw [parseElements, parseElements]
  | succ fuel => rw [parseElements, parseElements, parseValue_skipws]

theorem parseMembers_skipws (fuel : Nat) (text : Text) :
    parseMembers fuel (skipws text) = parseMembers fuel text := by
  cases fuel with
  | zero => rw [parseMembers, parseMembers]
  | succ fuel => rw [parseMembers, parseMembers, skipws_skipws]

variable {trail : Text}

theorem ends_trail (trailBlank : blank trail = true) (stop : isAtomChar c = false)
    (rest : Text) : Ends (trail ++ c :: rest) := by
  intro d head
  cases trail with
  | nil =>
      cases head
      exact stop
  | cons e trail =>
      cases head
      simp only [blank, List.all_cons, Bool.and_eq_true] at trailBlank
      simp [isAtomChar, trailBlank.1]

theorem ends_blank (trailBlank : blank trail = true) : Ends trail := by
  intro d head
  have space := List.all_eq_true.mp trailBlank d (List.mem_of_head? head)
  simp [isAtomChar, space]

/-- With enough fuel a parser consumes a text and stops behind it. -/
def Accepts : Part → Text → Prop
  | .value, text => ∀ before rest fuel, blank before = true → Ends rest →
      2 * text.length ≤ fuel →
      parseValue fuel (before ++ (text ++ rest)) = some rest
  | .elements, text => ∀ rest fuel, 2 * text.length + 1 ≤ fuel →
      parseElements fuel (text ++ ']' :: rest) = some rest
  | .members, text => ∀ rest fuel, 2 * text.length + 1 ≤ fuel →
      parseMembers fuel (text ++ '}' :: rest) = some rest

/-- The white space in front of a value does not matter, and there is fuel for
its first character. -/
theorem accepts_value (val : Val text)
    (accepts : ∀ rest fuel, Ends rest → 2 * text.length ≤ fuel + 1 → parseValue (fuel + 1) (text ++ rest) = some rest) :
    Accepts .value text := by
  intro before rest fuel beforeBlank ends enough
  obtain ⟨c, tail, cons, _⟩ := val.head
  have positive : text.length ≠ 0 := by
    rw [cons]
    simp
  cases fuel with
  | zero => omega
  | succ fuel =>
      rw [← parseValue_skipws, skipws_blank beforeBlank, parseValue_skipws]
      exact accepts rest fuel ends enough

theorem parseValue_cons (fuel : Nat) (solid : isWs c = false) (rest : Text) :
    parseValue (fuel + 1) (c :: rest) =
      if c = '"' then parseString (c :: rest)
      else if c = '{' then
        match skipws rest with
        | '}' :: after => some after
        | members => parseMembers fuel members
      else if c = '[' then
        match skipws rest with
        | ']' :: after => some after
        | elements => parseElements fuel elements
      else if c = 't' then after? "true".toList (c :: rest)
      else if c = 'f' then after? "false".toList (c :: rest)
      else if c = 'n' then after? "null".toList (c :: rest)
      else if c = '-' ∨ isDigit c then parseNumber (c :: rest)
      else none := by
  have start : skipws (c :: rest) = c :: rest := dropWhile_isWs_cons rest solid
  rw [parseValue]
  exact start.symm ▸ rfl

theorem accepts_number (number : Number text) : Accepts .value text := by
  apply accepts_value (.atom number.ne_nil number.isAtomChar)
  intro rest fuel ends _
  obtain ⟨c, tail, rfl, first⟩ := number.head
  have others : c ≠ '"' ∧ c ≠ '{' ∧ c ≠ '[' ∧ c ≠ 't' ∧ c ≠ 'f' ∧ c ≠ 'n' ∧
      isWs c = false := by
    rcases first with rfl | digit
    · decide
    · refine ⟨?_, ?_, ?_, ?_, ?_, ?_, ?_⟩
      iterate 6
        · rintro rfl
          revert digit
          decide
      · have atom := isAtomChar_of_isDigit digit
        simp only [isAtomChar, Bool.and_eq_true, Bool.not_eq_true'] at atom
        exact atom.2
  obtain ⟨a1, a2, a3, a4, a5, a6, solid⟩ := others
  rw [List.cons_append, parseValue_cons fuel solid, if_neg a1, if_neg a2,
    if_neg a3, if_neg a4, if_neg a5, if_neg a6, if_pos first]
  exact parseNumber_complete number ends

theorem accepts_word {word : Text} {tail : Text} (cons : word = c :: tail)
    (chars : word.all isAtomChar = true)
    (parses : ∀ fuel rest, parseValue (fuel + 1) (word ++ rest) = after? word (word ++ rest)) :
    Accepts .value word := by
  apply accepts_value (.atom (by rw [cons]; simp) chars)
  intro rest fuel _ _
  rw [parses]
  exact after?_eq_some.mpr rfl

theorem accepts_string (chars : Chars body) : Accepts .value (quote body) := by
  apply accepts_value (.str chars.body)
  intro rest fuel _ _
  exact (parseValue_cons fuel (by decide) _).trans
    (parseString_complete chars rest)

/-- A value does not start with a closing bracket. -/
theorem head_of_val (val : Val text) (rest : Text) :
    ∃ c tail, text ++ rest = c :: tail ∧ isWs c = false ∧ c ≠ ']' := by
  cases val with
  | str _ => exact ⟨'"', _, rfl, by decide, by decide⟩
  | curly _ => exact ⟨'{', _, rfl, by decide, by decide⟩
  | square _ => exact ⟨'[', _, rfl, by decide, by decide⟩
  | atom nonempty chars =>
      cases text with
      | nil => exact absurd rfl nonempty
      | cons c text =>
          simp only [List.all_cons, isAtomChar, isPlain, Bool.and_eq_true,
            bne_iff_ne, Bool.not_eq_true'] at chars
          exact ⟨c, _, rfl, chars.1.2, chars.1.1.1.1.2⟩

variable {inner : Text} {tree : Json}

theorem skipws_elements (derives : Derives .elements inner tree) (rest : Text) :
    ∃ c tail, skipws (inner ++ rest) = c :: tail ∧ c ≠ ']' := by
  cases derives with
  | element lead value _ =>
      obtain ⟨c, tail, start, solid, notBracket⟩ := head_of_val value.val _
      refine ⟨c, tail, ?_, notBracket⟩
      rw [List.append_assoc, List.append_assoc, skipws_blank lead, start]
      exact dropWhile_isWs_cons tail solid
  | elements lead value _ _ =>
      obtain ⟨c, tail, start, solid, notBracket⟩ := head_of_val value.val _
      refine ⟨c, tail, ?_, notBracket⟩
      rw [List.append_assoc, List.append_assoc, skipws_blank lead, start]
      exact dropWhile_isWs_cons tail solid

theorem skipws_member {m : Member} (spaced : m.Spaced) (rest : Text) :
    skipws (m.render ++ rest) =
      quote m.key ++ (m.gap ++ ':' :: (m.pad ++ (m.val ++ (m.trail ++ rest)))) := by
  have text : m.render ++ rest = m.lead ++ ('"' :: (m.key ++ '"' ::
      (m.gap ++ ':' :: (m.pad ++ (m.val ++ (m.trail ++ rest)))))) := by
    simp [Member.render, Member.fromKey, Member.fromValue, quote]
  rw [text, skipws_blank spaced.lead, skipws, dropWhile_isWs_cons _ (by decide)]
  simp [quote]

theorem skipws_members (derives : Derives .members inner tree) (rest : Text) :
    ∃ tail, skipws (inner ++ rest) = '"' :: tail := by
  cases derives with
  | member spaced _ _ => exact ⟨_, skipws_member spaced _⟩
  | members spaced _ _ _ =>
      rw [List.append_assoc]
      exact ⟨_, skipws_member spaced _⟩

theorem accepts_array (derives : Derives .elements inner tree)
    (accepts : Accepts .elements inner) :
    Accepts .value ('[' :: inner ++ [']']) := by
  apply accepts_value (.square derives.shape)
  intro rest fuel _ enough
  obtain ⟨c, tail, start, notBracket⟩ := skipws_elements derives (']' :: rest)
  have text : '[' :: inner ++ [']'] ++ rest =
      '[' :: (inner ++ ']' :: rest) := by
    simp
  rw [text, parseValue_cons fuel (by decide), if_neg (by decide),
    if_neg (by decide), if_pos rfl]
  have goesOn : (match skipws (inner ++ ']' :: rest) with
      | ']' :: after => some after
      | elements => parseElements fuel elements) =
      parseElements fuel (skipws (inner ++ ']' :: rest)) := by
    rw [start]
    split
    · rename_i same
      exact absurd (List.cons.inj same).1 notBracket
    · rfl
  rw [goesOn, parseElements_skipws]
  apply accepts
  simp only [List.length_cons, List.length_append, List.length_nil] at enough
  omega

theorem accepts_object (derives : Derives .members inner tree)
    (accepts : Accepts .members inner) :
    Accepts .value ('{' :: inner ++ ['}']) := by
  apply accepts_value (.curly derives.shape)
  intro rest fuel _ enough
  obtain ⟨tail, start⟩ := skipws_members derives ('}' :: rest)
  have text : '{' :: inner ++ ['}'] ++ rest =
      '{' :: (inner ++ '}' :: rest) := by
    simp
  rw [text, parseValue_cons fuel (by decide), if_neg (by decide), if_pos rfl]
  have goesOn : (match skipws (inner ++ '}' :: rest) with
      | '}' :: after => some after
      | members => parseMembers fuel members) =
      parseMembers fuel (skipws (inner ++ '}' :: rest)) := by
    rw [start]
    rfl
  rw [goesOn, parseMembers_skipws]
  apply accepts
  simp only [List.length_cons, List.length_append, List.length_nil] at enough
  omega

theorem accepts_noElements (spaceBlank : blank space = true) :
    Accepts .value ('[' :: space ++ [']']) := by
  apply accepts_value (.square (bal_of_blank spaceBlank))
  intro rest fuel _ _
  have text : '[' :: space ++ [']'] ++ rest =
      '[' :: (space ++ ']' :: rest) := by
    simp
  have start : skipws (space ++ ']' :: rest) = ']' :: rest := by
    rw [skipws_blank spaceBlank]
    exact dropWhile_isWs_cons rest (by decide)
  rw [text, parseValue_cons fuel (by decide), start]
  rfl

theorem accepts_noMembers (spaceBlank : blank space = true) :
    Accepts .value ('{' :: space ++ ['}']) := by
  apply accepts_value (.curly (bal_of_blank spaceBlank))
  intro rest fuel _ _
  have text : '{' :: space ++ ['}'] ++ rest =
      '{' :: (space ++ '}' :: rest) := by
    simp
  have start : skipws (space ++ '}' :: rest) = '}' :: rest := by
    rw [skipws_blank spaceBlank]
    exact dropWhile_isWs_cons rest (by decide)
  rw [text, parseValue_cons fuel (by decide), start]
  rfl

/-- The first round of the loop over the elements. -/
theorem parseElements_value {lead behind : Text} (leadBlank : blank lead = true)
    (accepts : Accepts .value text) (trailBlank : blank trail = true)
    (stop : isAtomChar c = false) (solid : isWs c = false)
    (enough : 2 * text.length ≤ fuel) :
    parseElements (fuel + 1) (lead ++ (text ++ (trail ++ c :: behind))) =
      match c :: behind with
      | ',' :: next => parseElements fuel next
      | ']' :: after => some after
      | _ => none := by
  have start : skipws (trail ++ c :: behind) = c :: behind := by
    rw [skipws_blank trailBlank]
    exact dropWhile_isWs_cons behind solid
  rw [parseElements, accepts lead _ fuel leadBlank
    (ends_trail trailBlank stop behind) enough, Option.bind_some, start]
  rfl

/-- The first round of the loop over the members. -/
theorem parseMembers_member {m : Member} {behind : Text} (spaced : m.Spaced)
    (key : Chars m.key) (accepts : Accepts .value m.val)
    (stop : isAtomChar c = false) (solid : isWs c = false)
    (enough : 2 * m.val.length ≤ fuel) :
    parseMembers (fuel + 1) (m.render ++ c :: behind) =
      match c :: behind with
      | ',' :: next => parseMembers fuel next
      | '}' :: after => some after
      | _ => none := by
  have colon : skipws (m.gap ++ ':' :: (m.pad ++ (m.val ++
      (m.trail ++ c :: behind)))) =
      ':' :: (m.pad ++ (m.val ++ (m.trail ++ c :: behind))) := by
    rw [skipws_blank spaced.gap]
    exact dropWhile_isWs_cons _ (by decide)
  have start : skipws (m.trail ++ c :: behind) = c :: behind := by
    rw [skipws_blank spaced.trail]
    exact dropWhile_isWs_cons behind solid
  rw [parseMembers, skipws_member spaced, parseString_complete key,
    Option.bind_some, colon]
  simp only
  rw [accepts m.pad _ fuel spaced.pad (ends_trail spaced.trail stop behind)
    enough, Option.bind_some, start]
  rfl

theorem length_val_le (m : Member) :
    m.val.length + 4 ≤ m.render.length + 1 := by
  simp [Member.render, Member.fromKey, Member.fromValue, quote]
  omega

theorem accepts_of_derives {part : Part} (derives : Derives part text tree) :
    Accepts part text := by
  induction derives with
  | wordNull =>
      exact accepts_word rfl (by decide)
        fun fuel rest => parseValue_cons fuel (by decide) _
  | wordTrue =>
      exact accepts_word rfl (by decide)
        fun fuel rest => parseValue_cons fuel (by decide) _
  | wordFalse =>
      exact accepts_word rfl (by decide)
        fun fuel rest => parseValue_cons fuel (by decide) _
  | number number => exact accepts_number number
  | string chars => exact accepts_string chars
  | noElements space => exact accepts_noElements space
  | array derives induction => exact accepts_array derives induction
  | noMembers space => exact accepts_noMembers space
  | object derives induction => exact accepts_object derives induction
  | element lead _ trail induction =>
      intro rest fuel enough
      simp only [List.length_append] at enough
      obtain ⟨fuel, rfl⟩ : ∃ less, fuel = less + 1 := ⟨fuel - 1, by omega⟩
      rw [List.append_assoc, List.append_assoc]
      exact parseElements_value lead induction trail (by decide) (by decide)
        (by omega)
  | elements lead _ trail _ first others =>
      intro rest fuel enough
      simp only [List.length_append, List.length_cons] at enough
      obtain ⟨fuel, rfl⟩ : ∃ less, fuel = less + 1 := ⟨fuel - 1, by omega⟩
      rw [List.append_assoc, List.append_assoc, List.append_assoc]
      refine (parseElements_value lead first trail (by decide) (by decide)
        (by omega)).trans ?_
      exact others rest fuel (by omega)
  | @member m _ spaced key _ induction =>
      intro rest fuel enough
      have shorter := length_val_le m
      obtain ⟨fuel, rfl⟩ : ∃ less, fuel = less + 1 := ⟨fuel - 1, by omega⟩
      exact parseMembers_member spaced key induction (by decide) (by decide)
        (by omega)
  | @members m _ _ _ spaced key _ _ first others =>
      intro rest fuel enough
      have shorter := length_val_le m
      simp only [List.length_append, List.length_cons] at enough
      obtain ⟨fuel, rfl⟩ : ∃ less, fuel = less + 1 := ⟨fuel - 1, by omega⟩
      rw [List.append_assoc]
      refine (parseMembers_member spaced key first (by decide) (by decide)
        (by omega)).trans ?_
      exact others rest fuel (by omega)

/-- A call of a parser, or a round of its loop, on the text that is left. -/
inductive Call where
  | value (text : Text)
  | members (text : Text)
  | elements (text : Text)

/-- A call leads to another call or, behind what was parsed, to the next round
of a loop. -/
inductive Call.LeadsTo : Call → Call → Prop where
  | object {text rest : Text} : skipws text = '{' :: rest →
      LeadsTo (.value text) (.members (skipws rest))
  | array {text rest : Text} : skipws text = '[' :: rest →
      LeadsTo (.value text) (.elements (skipws rest))
  | memberValue {text behindKey value : Text} :
      parseString (skipws text) = some behindKey →
      skipws behindKey = ':' :: value →
      LeadsTo (.members text) (.value value)
  | nextMember {text behindKey value behindValue next : Text} {fuel : Nat} :
      parseString (skipws text) = some behindKey →
      skipws behindKey = ':' :: value →
      parseValue fuel value = some behindValue →
      skipws behindValue = ',' :: next →
      LeadsTo (.members text) (.members next)
  | elementValue {text : Text} : LeadsTo (.elements text) (.value text)
  | nextElement {text behindValue next : Text} {fuel : Nat} :
      parseValue fuel text = some behindValue →
      skipws behindValue = ',' :: next →
      LeadsTo (.elements text) (.elements next)

def Call.size : Call → Nat
  | value text => 2 * text.length
  | members text | elements text => 2 * text.length + 1

theorem length_skipws_le (text : Text) : (skipws text).length ≤ text.length :=
  (List.dropWhile_sublist isWs).length_le

theorem length_of_skipws_cons (start : skipws text = c :: rest) :
    rest.length < text.length := by
  have shorter := length_skipws_le text
  rw [start, List.length_cons] at shorter
  omega

theorem length_of_parseString (parsed : parseString text = some rest) :
    rest.length ≤ text.length := by
  obtain ⟨body, split, _⟩ := parseString_sound parsed
  rw [split, List.length_append]
  omega

theorem length_of_parseValue (parsed : parseValue fuel text = some rest) :
    rest.length ≤ text.length := by
  obtain ⟨before, middle, _, split, _⟩ := (sound fuel).value parsed
  rw [split, List.length_append, List.length_append]
  omega

theorem Call.LeadsTo.size_lt {caller callee : Call}
    (leads : caller.LeadsTo callee) : callee.size < caller.size := by
  cases leads with
  | @object text rest opens =>
      have shorter := length_of_skipws_cons opens
      have skipped := length_skipws_le rest
      simp only [Call.size]
      omega
  | @array text rest opens =>
      have shorter := length_of_skipws_cons opens
      have skipped := length_skipws_le rest
      simp only [Call.size]
      omega
  | @memberValue text behindKey value key colon =>
      have keyEnd := length_of_parseString key
      have skipped := length_skipws_le text
      have shorter := length_of_skipws_cons colon
      simp only [Call.size]
      omega
  | @nextMember text behindKey value behindValue next _ key colon parsed comma =>
      have keyEnd := length_of_parseString key
      have skipped := length_skipws_le text
      have shorter := length_of_skipws_cons colon
      have valueEnd := length_of_parseValue parsed
      have nextStart := length_of_skipws_cons comma
      simp only [Call.size]
      omega
  | elementValue =>
      simp only [Call.size]
      omega
  | @nextElement text behindValue next _ parsed comma =>
      have valueEnd := length_of_parseValue parsed
      have nextStart := length_of_skipws_cons comma
      simp only [Call.size]
      omega

/-- There is no endless chain of calls and rounds. -/
theorem calls_wellFounded :
    WellFounded fun callee caller : Call => caller.LeadsTo callee :=
  Subrelation.wf (fun leads => leads.size_lt)
    (InvImage.wf Call.size Nat.lt_wfRel.wf)

theorem parse_iff_isJson (s : Text) :
    (match parseValue (2 * s.length + 1) s with
      | none => false
      | some rest => skipws rest == []) = true ↔ IsJson s := by
  constructor
  · intro accepted
    split at accepted
    · cases accepted
    · rename_i rest parsed
      obtain ⟨before, middle, tree, split, beforeBlank, derives⟩ :=
        (sound _).value parsed
      obtain ⟨after, afterText, afterBlank⟩ := skipws_split rest
      have nothing : skipws rest = [] := by
        simpa using accepted
      rw [nothing, List.append_nil] at afterText
      refine ⟨tree, before, middle, rest, split, beforeBlank, derives, ?_⟩
      rw [afterText]
      exact afterBlank
  · rintro ⟨tree, before, middle, after, split, beforeBlank, derives,
      afterBlank⟩
    have enough : 2 * middle.length ≤ 2 * s.length + 1 := by
      rw [split]
      simp only [List.length_append]
      omega
    have parsed := accepts_of_derives derives before after _ beforeBlank
      (ends_blank afterBlank) enough
    rw [← split] at parsed
    have nothing : skipws after = [] := by
      have dropped := skipws_blank afterBlank []
      rw [List.append_nil] at dropped
      exact dropped
    rw [parsed]
    simpa using nothing

theorem isJson_chomp_slurp (content : Text) :
    IsJson (chomp (slurp content)) ↔ IsJson content := by
  rcases chomp_slurp content with same | newline
  · rw [← same]
  · conv_rhs => rw [newline]
    simp only [IsJson, denotes_append_newline]

theorem jsonGuard_iff (content : Text) :
    jsonGuard content = true ↔ IsJson content := by
  rw [← isJson_chomp_slurp]
  exact parse_iff_isJson _

/-- `json_guard.sh` ends on every content and accepts it if and only if it is a
JSON text. -/
theorem jsonGuard_exact :
    (∀ content : Text, jsonGuard content = true ↔ IsJson content) ∧
      WellFounded fun callee caller : Call => caller.LeadsTo callee :=
  ⟨jsonGuard_iff, calls_wellFounded⟩

end Hnc.Guard
