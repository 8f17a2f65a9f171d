import Hnc.Json.GetterAnswers
import Hnc.Json.ObjectFile

/-!
# Settings of a rules file

`json_set.sh top` guesses the type of a value from its spelling, and
`json_set.sh top_get` reads the value back.  Everything comes back as it was
saved, but a numeral with a superfluous zero is no JSON and is not saved.
-/

namespace Hnc

open Posix JsonText

theorem oneLine_of_isPrintable {text : Text} (printable : isPrintable text = true) :
    '\n' ∉ text := by
  intro member
  exact absurd (List.all_eq_true.mp printable _ member) (by decide)

theorem escapeChar_of_visible {c : Char} (visible : isControl c = false) :
    HncJson.escapeChar c =
      if c = '\\' then ['\\', '\\'] else if c = '"' then ['\\', '"'] else [c] := by
  have others : ∀ d ∈ ['\x08', '\x0c', '\n', '\r', '\t'], c ≠ d := by
    intro d member same
    subst same
    have controls : ['\x08', '\x0c', '\n', '\r', '\t'].all isControl = true := by
      decide
    rw [List.all_eq_true.mp controls c member] at visible
    cases visible
  simp [HncJson.escapeChar, others]

/-- Both encoders write a printable value like a name. -/
theorem quoteString_of_isPrintable {value : Text}
    (printable : isPrintable value = true) :
    HncJson.quoteString value = quote (escapeName value) := by
  have same : value.flatMap HncJson.escapeChar = escapeName value := by
    induction value with
    | nil => rfl
    | cons c value induction =>
        obtain ⟨visible, rest⟩ := isPrintable_cons.mp printable
        rw [List.flatMap_cons, induction rest, escapeChar_of_visible visible]
        rfl
  rw [HncJson.quoteString, same, quote]

theorem escapeInner_of_isPrintable {value : Text}
    (printable : isPrintable value = true) :
    JsonSet.escapeInner value = escapeName value := by
  have kept : value.filter (fun c => !isControl c) = value :=
    List.filter_eq_self.mpr (List.all_eq_true.mp printable)
  rw [JsonSet.escapeInner, kept, escapeName]

theorem decodeBody_escapeName (value : Text) :
    JsonSet.decodeBody false (escapeName value) = value := by
  induction value with
  | nil => rfl
  | cons c value induction =>
      rw [escapeName_cons]
      split
      · rename_i slash
        simp only [List.cons_append, List.nil_append]
        rw [JsonSet.decodeBody_escape, induction, slash]
        rfl
      · split
        · rename_i isQuote
          simp only [List.cons_append, List.nil_append]
          rw [JsonSet.decodeBody_escape, induction, isQuote]
          rfl
        · rename_i slash _
          rw [List.singleton_append, JsonSet.decodeBody_plain slash, induction]

/-- A numeral with a zero in front of another digit. -/
def hasLeadingZero (v : Text) : Bool :=
  isNumeral v &&
    match if v.head? = some '-' then v.tail else v with
    | '0' :: c :: _ => isDigit c
    | _ => false

theorem exponentPart_nil {text : Text} (noExponent : text.head? ≠ some 'e')
    (noOther : text.head? ≠ some 'E') : Guard.exponentPart text = some text := by
  cases text with
  | nil => rfl
  | cons c rest =>
      have first : ¬ (c = 'e' ∨ c = 'E') := by
        simpa using And.intro noExponent noOther
      simp only [Guard.exponentPart, if_neg first]

section

variable {v : Text} (numeral : isNumeral v = true)
include numeral

/-- The number parser stops in a numeral only behind a superfluous zero. -/
theorem parseNumber_numeral :
    Guard.parseNumber v = some [] ↔ hasLeadingZero v = false := by
  rw [hasLeadingZero, numeral]
  simp only [isNumeral, Bool.and_eq_true, Bool.or_eq_true, beq_iff_eq,
    bne_iff_ne] at numeral
  rw [Guard.parseNumber]
  generalize (if v.head? = some '-' then v.tail else v) = unsigned at numeral ⊢
  obtain ⟨first, fraction⟩ := numeral
  -- what the grammar wants behind the digits, the numeral has there
  have behind : ((Guard.fractionPart (unsigned.dropWhile isDigit)).bind
      Guard.exponentPart) = some [] := by
    rcases fraction with empty | ⟨⟨dot, nonempty⟩, digits⟩
    · rw [empty]
      rfl
    · obtain ⟨rest, text⟩ : ∃ rest, unsigned.dropWhile isDigit = '.' :: rest :=
        ⟨_, List.eq_cons_of_mem_head? dot⟩
      rw [text] at nonempty digits ⊢
      simp only [List.tail_cons] at nonempty digits
      cases rest with
      | nil => exact absurd rfl nonempty
      | cons d rest =>
          simp only [List.all_cons, Bool.and_eq_true] at digits
          have none : rest.dropWhile isDigit = [] :=
            List.dropWhile_eq_nil_iff.mpr (List.all_eq_true.mp digits.2)
          simp [Guard.fractionPart, Guard.digits1, digits.1, none,
            Guard.exponentPart]
  cases unsigned with
  | nil => cases first
  | cons c rest =>
      have digit : isDigit c = true := by simpa using first
      rw [List.dropWhile_cons_of_pos digit] at behind
      by_cases zero : c = '0'
      · subst zero
        simp only [Guard.integerPart, if_true, Option.bind_some]
        cases rest with
        | nil => exact iff_of_true behind rfl
        | cons d rest =>
            simp only
            by_cases another : isDigit d = true
            · have stuck : Guard.fractionPart (d :: rest) = some (d :: rest) := by
                have noDot : d ≠ '.' := by
                  rintro rfl
                  exact absurd another (by decide)
                rw [Guard.fractionPart, if_neg noDot]
              have letters : d ≠ 'e' ∧ d ≠ 'E' := by
                constructor <;> rintro rfl <;> exact absurd another (by decide)
              rw [stuck, Option.bind_some,
                exponentPart_nil (by simpa using letters.1)
                  (by simpa using letters.2), another]
              simp
            · rw [List.dropWhile_cons_of_neg another] at behind
              exact iff_of_true behind (by simpa using another)
      · simp only [Guard.integerPart, if_neg zero, digit]
        refine iff_of_true behind ?_
        split
        · rename_i same
          cases same
          exact absurd rfl zero
        · rfl

theorem number_iff_of_isNumeral :
    Number v ↔ hasLeadingZero v = false := by
  rw [← parseNumber_numeral numeral]
  constructor
  · intro number
    have parsed := Guard.parseNumber_complete number
      (show Guard.Ends [] from fun c head => by cases head)
    rwa [List.append_nil] at parsed
  · intro parsed
    obtain ⟨number, text, ok⟩ := Guard.parseNumber_sound parsed
    rw [List.append_nil] at text
    exact text ▸ ok

theorem head_of_isNumeral :
    ∃ c rest, v = c :: rest ∧ isNumeralChar c = true := by
  have chars := numeralChars_of_isNumeral numeral
  cases v with
  | nil => exact absurd rfl (ne_nil_of_isNumeral numeral)
  | cons c rest =>
      exact ⟨c, rest, rfl, (List.all_eq_true.mp chars) c (by simp)⟩

theorem number_of_derives {value : Json} (derives : Derives .value v value) :
    Number v := by
  obtain ⟨c, rest, rfl, char⟩ := head_of_isNumeral numeral
  have other : ∀ d, isNumeralChar d = false → c ≠ d := by
    rintro d no rfl
    rw [char] at no
    cases no
  generalize text : c :: rest = v at derives
  cases derives with
  | number number => exact number
  | wordNull => exact absurd (List.cons.inj text).1 (other _ (by decide))
  | wordTrue => exact absurd (List.cons.inj text).1 (other _ (by decide))
  | wordFalse => exact absurd (List.cons.inj text).1 (other _ (by decide))
  | string _ => exact absurd (List.cons.inj text).1 (other _ (by decide))
  | noElements _ => exact absurd (List.cons.inj text).1 (other _ (by decide))
  | array _ => exact absurd (List.cons.inj text).1 (other _ (by decide))
  | noMembers _ => exact absurd (List.cons.inj text).1 (other _ (by decide))
  | object _ => exact absurd (List.cons.inj text).1 (other _ (by decide))

end

namespace JsonSet

theorem spelling_cases (v : Text) :
    (v = "true".toList ∨ v = "false".toList ∨ v = "null".toList) ∨
      isNumeral v = true ∨
      (¬ (v = "true".toList ∨ v = "false".toList ∨ v = "null".toList) ∧
        isNumeral v = false) := by
  by_cases word : v = "true".toList ∨ v = "false".toList ∨ v = "null".toList
  · exact .inl word
  · cases numeral : isNumeral v with
    | true => exact .inr (.inl rfl)
    | false => exact .inr (.inr ⟨word, rfl⟩)

variable {v : Text} (printable : isPrintable v = true)

include printable

theorem literal_word
    (word : v = "true".toList ∨ v = "false".toList ∨ v = "null".toList) :
    literal v = v ∧ HncJson.jsonLiteral v (typeForValue v) = some v := by
  rcases word with rfl | rfl | rfl <;> decide

theorem literal_numeral (numeral : isNumeral v = true) :
    literal v = v ∧ HncJson.jsonLiteral v (typeForValue v) = some v := by
  have oneLine := oneLine_of_isPrintable printable
  have nonempty := ne_nil_of_isNumeral numeral
  have noWord : ∀ word : Text, isNumeral word = false → v ≠ word := by
    rintro word no rfl
    rw [numeral] at no
    cases no
  have noTrue := noWord "true".toList (by decide)
  have noFalse := noWord "false".toList (by decide)
  have noNull := noWord "null".toList (by decide)
  have line := hasNumeralLine_of_oneLine oneLine
  rw [numeral] at line
  constructor
  · rw [literal, jsonEncode]
    simp only [noTrue, noFalse, noNull, nonempty, line, or_self, if_false,
      if_true]
    rw [captured_of_oneLine oneLine, firstLine_of_oneLine oneLine nonempty]
  · rw [typeForValue]
    simp only [noTrue, noFalse, noNull, line, or_self, if_false, if_true,
      HncJson.jsonLiteral]
    rw [captured_of_oneLine oneLine]

theorem literal_string
    (noWord : ¬ (v = "true".toList ∨ v = "false".toList ∨ v = "null".toList))
    (noNumeral : isNumeral v = false) :
    literal v = quote (escapeName v) ∧
      HncJson.jsonLiteral v (typeForValue v) = some (quote (escapeName v)) := by
  have oneLine := oneLine_of_isPrintable printable
  have line := hasNumeralLine_of_oneLine oneLine
  rw [noNumeral] at line
  have others := not_or.mp noWord
  have lasts := not_or.mp others.2
  constructor
  · rw [literal, jsonEncode, if_neg noWord]
    by_cases empty : v = []
    · rw [empty]
      decide
    · simp only [empty, line, if_false]
      rw [if_neg (by simp), firstLine_jsonStringEncode,
        escapeInner_of_isPrintable printable]
  · rw [typeForValue]
    simp only [others.1, lasts.1, lasts.2, line, or_self, if_false,
      HncJson.jsonLiteral]
    rw [if_neg (by simp)]
    rw [quoteString_of_isPrintable printable]

theorem jsonLiteral_typeForValue :
    HncJson.jsonLiteral v (typeForValue v) = some (literal v) := by
  rcases spelling_cases v with word | numeral | ⟨noWord, noNumeral⟩
  · have both := literal_word printable word
    rw [both.1, both.2]
  · have both := literal_numeral printable numeral
    rw [both.1, both.2]
  · have both := literal_string printable noWord noNumeral
    rw [both.1, both.2]

/-- The literal is JSON, and reading it gives the value, unless it is a numeral
with a superfluous zero. -/
theorem literal_read (clean : hasLeadingZero v = false) :
    (∃ value, Derives .value (literal v) value) ∧
      printLiteral (literal v ++ ['\n']) = v ++ ['\n'] := by
  have bare : ∀ {value : Json}, literal v = v → v.head? ≠ some '"' →
      Derives .value v value →
      (∃ value, Derives .value (literal v) value) ∧
        printLiteral (literal v ++ ['\n']) = v ++ ['\n'] := by
    intro value same noString derives
    rw [same]
    exact ⟨⟨value, derives⟩, printLiteral_other derives.val noString⟩
  rcases spelling_cases v with word | numeral | ⟨noWord, noNumeral⟩
  · have same := (literal_word printable word).1
    rcases word with rfl | rfl | rfl
    · exact bare same (by decide) .wordTrue
    · exact bare same (by decide) .wordFalse
    · exact bare same (by decide) .wordNull
  · have same := (literal_numeral printable numeral).1
    have number := (number_iff_of_isNumeral numeral).mpr clean
    apply bare same _ (.number number)
    obtain ⟨c, rest, rfl, char⟩ := head_of_isNumeral numeral
    simp only [List.head?_cons, ne_eq, Option.some.injEq]
    rintro rfl
    exact absurd char (by decide)
  · rw [(literal_string printable noWord noNumeral).1]
    refine ⟨⟨_, .string (chars_escapeName printable)⟩, ?_⟩
    rw [printLiteral_string, decodeBody_escapeName]

theorem not_derives_literal (zero : hasLeadingZero v = true) (value : Json) :
    ¬ Derives .value (literal v) value := by
  have numeral : isNumeral v = true := by
    rw [hasLeadingZero, Bool.and_eq_true] at zero
    exact zero.1
  rw [(literal_numeral printable numeral).1]
  intro derives
  have clean := (number_iff_of_isNumeral numeral).mp
    (number_of_derives numeral derives)
  rw [zero] at clean
  cases clean

end JsonSet

namespace JsonSet

theorem typeForValue_ne_json (v : Text) : typeForValue v ≠ .json := by
  unfold typeForValue
  split
  · simp
  · split
    · simp
    · split <;> simp

theorem setTop_typeForValue {field : Text} (nonempty : field ≠ []) {v : Text}
    (printable : isPrintable v = true) (file : Text) :
    HncJson.setTop file field v (typeForValue v) =
      HncJson.commit file
        (HncJson.setTopInner (assign field) (literal v) file) := by
  rw [HncJson.setTop, if_neg nonempty, jsonLiteral_typeForValue printable]
  simp only
  rw [if_neg (typeForValue_ne_json v), assign_doubleBackslash]

/-- `top` exits with 0, and `top_get` prints the value then. -/
def SavedAndRead (patterns : Patterns) (file field v : Text) : Prop :=
  ∃ next, top file field v = some next ∧
    topGet patterns next field = v ++ ['\n']

section Files

variable {file field v : Text} {o : Obj} {entries : List (Text × Json)}
  (object : ObjectFile file o entries) (free : escapeFree field = true)
  (printable : isPrintable v = true)

include object free printable

/-- Every value is saved that `top_get` can read. -/
theorem top_saved (clean : hasLeadingZero v = false) : ∃ next,
    top file field v = some next ∧
      HncJson.getTop next field = .ok (literal v ++ ['\n']) := by
  have name := assign_of_escapeFree free
  obtain ⟨⟨value, derives⟩, _⟩ := literal_read printable clean
  by_cases nonempty : field ≠ []
  · obtain ⟨next, entries', committed, written⟩ :=
      object.commit_setTopInner (isPrintable_of_escapeFree free) derives
    refine ⟨next, ?_, written.getTop_topSet name⟩
    rw [top, setTop_typeForValue nonempty printable, name, committed]
  · -- without a name only the other writer sets the member
    have empty : field = [] := not_ne_iff.mp nonempty
    subst empty
    have key := keyOf_nil object.shaped
    obtain ⟨before, after, text, beforeBlank, afterBlank⟩ := object.chomp_slurp
    have candidate := SafeWriter.updateTop_obj beforeBlank object.shaped
      afterBlank text [] (literal v)
    obtain ⟨next, entries', committed, written⟩ :=
      object.commit beforeBlank afterBlank
        (show blank (SafeWriter.setFront o [] (literal v)).hollow = true by
          rw [SafeWriter.hollow_setFront]
          exact object.hollow)
        (object.each_setFront .nil derives)
    have valid := HncJson.commit_valid committed
    have same := Except.ok.inj (HncJson.commit_some committed)
    refine ⟨next, ?_, ?_⟩
    · rw [top, HncJson.setTop, if_pos rfl, name]
      simp only [guardedCommit]
      rw [literal] at candidate
      rw [candidate]
      simp only
      rw [← literal, same, if_pos valid]
    · rw [written.getTop name]
      have kept := SafeWriter.keyOf_setFront o [] (literal v)
      rw [key] at kept
      rw [kept]
      apply HncJson.topAnswer_of_get
      rw [SafeWriter.get_setFront, if_pos rfl]

/-- Neither writer gets a numeral with a superfluous zero through. -/
theorem top_refused (zero : hasLeadingZero v = true) :
    top file field v = none := by
  have name := assign_of_escapeFree free
  have broken := not_derives_literal printable zero
  have val := val_literal (oneLine_of_isPrintable printable)
  have body := body_of_plainKey (plainKey_of_escapeFree free)
  have first : HncJson.setTop file field v (typeForValue v) = none := by
    by_cases nonempty : field ≠ []
    · obtain ⟨before, after, text, beforeBlank, afterBlank⟩ := object.slurp
      have candidate := HncJson.setTopInner_shaped object.shaped beforeBlank
        text field (literal v)
      have invalid := object.not_commit_topSet beforeBlank afterBlank
        (object.shaped.body_keyOf field) val broken
      rw [setTop_typeForValue nonempty printable, name, candidate,
        HncJson.commit, if_pos object.valid]
      exact if_neg (Bool.eq_false_iff.mp invalid)
    · rw [HncJson.setTop, if_pos (not_ne_iff.mp nonempty)]
  obtain ⟨before, after, text, beforeBlank, afterBlank⟩ := object.chomp_slurp
  have candidate := SafeWriter.updateTop_obj beforeBlank object.shaped
    afterBlank text field (literal v)
  have invalid := object.not_commit_setFront beforeBlank afterBlank body val
    broken
  rw [top, first, name]
  rw [literal] at candidate invalid
  simp only [candidate]
  exact if_neg (Bool.eq_false_iff.mp invalid)

end Files

theorem denotes_noSettings : Denotes "\x7b\x7d\n".toList (.object []) :=
  ⟨[], "\x7b\x7d".toList, ['\n'], rfl, rfl, @Derives.noMembers [] rfl, rfl⟩

end JsonSet

end Hnc
