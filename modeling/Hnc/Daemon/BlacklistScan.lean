import Hnc.Daemon.DeviceNames
import Hnc.Daemon.WriteJson
import Hnc.Json.GetterAnswers
import Hnc.Lib.CString

/-!
# The blacklist that `write_json` reads

The C code does not parse `rules.json`.  It takes the stretch from the first
`"blacklist"` of the file to the next bracket, and behind every quote of it the
17 bytes that have colons in the places of an address, 128 times at most.
-/

namespace Hnc.Hotspotd

open Posix JsonText
open Scheduler (byteAt)

/-- `strlen(p) >= 17` and the tests of `p[2]`, `p[5]`, `p[8]`, `p[11]` and
`p[14]`. -/
def looksLikeMac (p : Text) : Bool :=
  17 ≤ p.length && byteAt p 2 == ':' && byteAt p 5 == ':' &&
    byteAt p 8 == ':' && byteAt p 11 == ':' && byteAt p 14 == ':'

/-- The loop `while ((p = strchr(p, '"')) != NULL)`, without the bound. -/
def quotedMacs : Text → List Text
  | [] => []
  | c :: p =>
      if c = '"' then
        (if looksLikeMac p then [p.take 17] else []) ++ quotedMacs p
      else quotedMacs p

/-- The stretch of the buffer, which `*bl_end = '\0'` ends. -/
def blacklistStretch (buf : Text) : Option Text :=
  (strstr buf (quote "blacklist".toList)).map fun start =>
    start.takeWhile (· != ']')

/-- The table `blacklist` of `write_json`; `none` when the file cannot be
opened. -/
def readBlacklist (rules : Option Text) : List Text :=
  match rules with
  | none => []
  | some file =>
      if file.length = 0 ∨ 1024 * 1024 < file.length then []
      else
        match blacklistStretch (cString file) with
        | none => []
        | some stretch => (quotedMacs stretch).take maxDevices

/-! ## Texts without a colon in time -/

theorem byteAt_append_left {left rest : Text} {i : Nat}
    (inside : i < left.length) :
    byteAt (left ++ rest) i ∈ left := by
  rw [byteAt, List.getD_eq_getElem?_getD, List.getElem?_append_left inside,
    List.getElem?_eq_getElem inside]
  exact List.getElem_mem inside

/-- No colon in the first three bytes. -/
theorem not_looksLikeMac_of_front {front rest : Text} (free : ':' ∉ front)
    (long : 3 ≤ front.length ∨ rest = []) :
    looksLikeMac (front ++ rest) = false := by
  cases verdict : looksLikeMac (front ++ rest) with
  | false => rfl
  | true =>
      simp only [looksLikeMac, Bool.and_eq_true, beq_iff_eq] at verdict
      have inside : 2 < front.length := by
        rcases long with long | rfl
        · omega
        · have length := verdict.1.1.1.1.1
          simp at length
          omega
      have member := @byteAt_append_left front rest 2 inside
      rw [verdict.1.1.1.1.2] at member
      exact absurd member free

theorem not_looksLikeMac_of_colon {gap front rest : Text} (free : ':' ∉ gap)
    (others : ':' ∉ front) (long : 3 ≤ front.length ∨ rest = []) :
    looksLikeMac (gap ++ ':' :: (front ++ rest)) = false := by
  cases verdict : looksLikeMac (gap ++ ':' :: (front ++ rest)) with
  | false => rfl
  | true =>
      simp only [looksLikeMac, Bool.and_eq_true, beq_iff_eq] at verdict
      obtain ⟨⟨⟨⟨⟨length, second⟩, fifth⟩, _⟩, _⟩, _⟩ := verdict
      have inFront (i : Nat) (behind : gap.length < i)
          (inside : i - gap.length - 1 < front.length) :
          byteAt (gap ++ ':' :: (front ++ rest)) i ≠ ':' := by
        intro same
        have at_ : byteAt (gap ++ ':' :: (front ++ rest)) i =
            byteAt (front ++ rest) (i - gap.length - 1) := by
          have later : i - gap.length = (i - gap.length - 1) + 1 := by omega
          rw [byteAt, List.getD_eq_getElem?_getD,
            List.getElem?_append_right (by omega), later]
          rfl
        have member := @byteAt_append_left front rest _ inside
        rw [← at_, same] at member
        exact others member
      have enough : 3 ≤ front.length ∨ gap.length + front.length ≥ 16 := by
        rcases long with long | rfl
        · exact .inl long
        · simp at length
          omega
      rcases Nat.lt_trichotomy gap.length 2 with short | same | late
      · by_cases inside : 2 - gap.length - 1 < front.length
        · exact absurd second (inFront 2 short inside)
        · omega
      · by_cases inside : 5 - gap.length - 1 < front.length
        · exact absurd fifth (inFront 5 (by omega) inside)
        · omega
      · have member := @byteAt_append_left gap (':' :: (front ++ rest)) 2 late
        rw [second] at member
        exact absurd member free

variable {raw : Text}

theorem looksLikeMac_append (long : 17 ≤ raw.length) (rest : Text) :
    looksLikeMac (raw ++ rest) = looksLikeMac raw := by
  have same (i : Nat) (inside : i < 17) :
      byteAt (raw ++ rest) i = byteAt raw i := by
    rw [byteAt, byteAt, List.getD_eq_getElem?_getD,
      List.getElem?_append_left (by omega), ← List.getD_eq_getElem?_getD]
  rw [looksLikeMac, looksLikeMac, same 2 (by decide), same 5 (by decide),
    same 8 (by decide), same 11 (by decide), same 14 (by decide),
    decide_eq_true long]
  have longer : 17 ≤ (raw ++ rest).length := by
    rw [List.length_append]
    omega
  rw [decide_eq_true longer]

theorem quotedMacs_append {left : Text} (free : '"' ∉ left) (rest : Text) :
    quotedMacs (left ++ rest) = quotedMacs rest := by
  induction left with
  | nil => rfl
  | cons c left induction =>
      simp only [List.mem_cons, not_or] at free
      rw [List.cons_append, quotedMacs, if_neg (Ne.symm free.1)]
      exact induction free.2

theorem quotedMacs_quote (p : Text) :
    quotedMacs ('"' :: p) =
      (if looksLikeMac p then [p.take 17] else []) ++ quotedMacs p := by
  rw [quotedMacs, if_pos rfl]

/-! ## Addresses as they are written -/

open DeviceNames (isMacChar MacArg)

/-- A character of an address, plain or in an escape. -/
def isSpellingChar (c : Char) : Bool :=
  isMacChar c || c == '\\' || c == 'u'

variable {c : Char}

theorem isSpellingChar_of_hex (hex : c ∈ hexDigits) :
    isSpellingChar c = true := by
  have all : hexDigits.all isSpellingChar = true := by decide
  exact List.all_eq_true.mp all c hex

theorem toNat_lt_of_surrogates {high low : Nat} (first : 0xd800 ≤ high)
    (below : high < 0xdc00) (second : 0xdc00 ≤ low) (last : low < 0xe000) :
    128 ≤ (Char.ofNat (0x10000 + (high - 0xd800) * 0x400 +
      (low - 0xdc00))).toNat := by
  have valid : (0x10000 + (high - 0xd800) * 0x400 +
      (low - 0xdc00)).isValidChar := .inr ⟨by omega, by omega⟩
  have code : (Char.ofNat (0x10000 + (high - 0xd800) * 0x400 +
      (low - 0xdc00))).toNat =
      0x10000 + (high - 0xd800) * 0x400 + (low - 0xdc00) := by
    exact toNat_of_valid valid
  omega

/-- The characters of an address have no escape but `\u`. -/
theorem spelling_of_unescapes {text : Text} (spells : Unescapes raw text)
    (chars : text.all isMacChar = true) :
    raw.all isSpellingChar = true ∧ text.length ≤ raw.length := by
  induction spells with
  | nil => exact ⟨rfl, Nat.le_refl _⟩
  | @plain c rest out notSlash _ induction =>
      simp only [List.all_cons, Bool.and_eq_true] at chars
      obtain ⟨others, length⟩ := induction chars.2
      simp only [List.all_cons, Bool.and_eq_true, List.length_cons]
      exact ⟨⟨by simp [isSpellingChar, chars.1], others⟩, by omega⟩
  | @letter e c rest out listed _ _ =>
      simp only [List.all_cons, Bool.and_eq_true] at chars
      have none : letterEscapes.all (fun pair => !isMacChar pair.2) = true := by
        decide
      have other := List.all_eq_true.mp none _ listed
      simp [chars.1] at other
  | @unicode digits rest out four hex _ _ induction =>
      simp only [List.all_cons, Bool.and_eq_true] at chars
      obtain ⟨others, length⟩ := induction chars.2
      have digitChars : digits.all isSpellingChar = true :=
        List.all_eq_true.mpr fun c member =>
          isSpellingChar_of_hex (hex c member)
      have slash : isSpellingChar '\\' = true := by decide
      have letter : isSpellingChar 'u' = true := by decide
      simp only [List.all_cons, List.all_append, slash, letter, digitChars,
        others, Bool.and_self, List.length_cons, List.length_append, true_and]
      omega
  | @surrogates high low rest out _ _ _ first below second last _ _ =>
      simp only [List.all_cons, Bool.and_eq_true] at chars
      have small := DeviceNames.toNat_lt_of_isMacChar chars.1
      have large := toNat_lt_of_surrogates first below second last
      omega

theorem unescapes_nil (spells : Unescapes raw []) : raw = [] := by
  cases spells
  rfl

theorem unescapes_append {front rest out : Text} (plain : '\\' ∉ front)
    (spells : Unescapes raw out) (split : raw = front ++ rest) :
    ∃ tail, out = front ++ tail ∧ Unescapes rest tail := by
  induction front generalizing raw out with
  | nil =>
      subst split
      exact ⟨out, rfl, spells⟩
  | cons c front induction =>
      simp only [List.mem_cons, not_or] at plain
      have notSlash : '\\' ≠ c := plain.1
      cases spells with
      | nil => simp at split
      | plain _ later =>
          simp only [List.cons_append, List.cons.injEq] at split
          obtain ⟨tail, rfl, behind⟩ := induction plain.2 later split.2
          exact ⟨tail, by rw [split.1]; rfl, behind⟩
      | letter =>
          simp only [List.cons_append, List.cons.injEq] at split
          exact absurd split.1 notSlash
      | unicode =>
          simp only [List.cons_append, List.cons.injEq] at split
          exact absurd split.1 notSlash
      | surrogates =>
          simp only [List.cons_append, List.cons.injEq] at split
          exact absurd split.1 notSlash

/-- What is unescaped begins with a plain character or with a backslash and the
letter of an escape. -/
theorem unescapes_head {out : Text} (spells : Unescapes raw (c :: out)) :
    (∃ rest, raw = c :: rest ∧ Unescapes rest out) ∨
      ∃ e rest, raw = '\\' :: e :: rest ∧ e ≠ ':' := by
  generalize whole : c :: out = text at spells
  cases spells with
  | nil => cases whole
  | plain _ later =>
      cases whole
      exact .inl ⟨_, rfl, later⟩
  | letter listed _ =>
      have none : letterEscapes.all (fun pair => pair.1 != ':') = true := by
        decide
      exact .inr ⟨_, _, rfl, by simpa using List.all_eq_true.mp none _ listed⟩
  | unicode => exact .inr ⟨'u', _, rfl, by decide⟩
  | surrogates => exact .inr ⟨'u', _, rfl, by decide⟩

/-- A string of the blacklist: its characters in the file and the address that
they stand for. -/
structure Listing where
  raw : Text
  mac : MacArg
  spells : Unescapes raw mac.text

namespace Listing

variable (entry : Listing)

theorem chars : entry.raw.all isSpellingChar = true :=
  have ⟨_, _, _, _, _, _, _, macChars⟩ := entry.mac.parts
  (spelling_of_unescapes entry.spells macChars).1

theorem not_mem (other : isSpellingChar c = false) : c ∉ entry.raw := by
  intro member
  have char := List.all_eq_true.mp entry.chars c member
  rw [other] at char
  cases char

theorem long : 17 ≤ entry.raw.length := by
  obtain ⟨first, middle, last, text, _, _, length, macChars⟩ := entry.mac.parts
  have longer := (spelling_of_unescapes entry.spells macChars).2
  rw [text] at longer
  simp [length] at longer
  omega

/-- The first two characters are no colons. -/
theorem front : ∃ c d rest, entry.raw = c :: d :: rest ∧ c ≠ ':' ∧ d ≠ ':' := by
  obtain ⟨raw, ⟨text, shape⟩, spells⟩ := entry
  unfold JsonSetBatch.isMacLine at shape
  split at shape
  · simp only [List.all_cons, Bool.and_eq_true] at shape
    have notColon {x : Char} (hex : Guard.isHex x = true) : x ≠ ':' := by
      rintro rfl
      exact absurd hex (by decide)
    have first := notColon shape.1.1
    have second := notColon shape.1.2.1
    rcases unescapes_head spells with ⟨rest, rfl, later⟩ | ⟨e, rest, rfl, other⟩
    · rcases unescapes_head later with ⟨rest, rfl, _⟩ | ⟨_, rest, rfl, _⟩
      · exact ⟨_, _, _, rfl, first, second⟩
      · exact ⟨_, _, _, rfl, first, by decide⟩
    · exact ⟨_, _, _, rfl, by decide, other⟩
  · cases shape

/-- When 17 characters in front make an address, they are all there is. -/
theorem raw_eq_of_take (mac : MacArg) (same : entry.raw.take 17 = mac.text) :
    entry.raw = mac.text ∧ entry.mac.text = mac.text := by
  obtain ⟨_, _, _, text, _, _, length, macChars⟩ := mac.parts
  obtain ⟨_, _, _, entryText, _, _, entryLength, _⟩ := entry.mac.parts
  have plain : '\\' ∉ mac.text := by
    intro member
    exact absurd (List.all_eq_true.mp macChars _ member) (by decide)
  have split : entry.raw = mac.text ++ entry.raw.drop 17 := by
    rw [← same, List.take_append_drop]
  have spells := entry.spells
  rw [split] at spells
  obtain ⟨tail, whole, behind⟩ := unescapes_append plain spells rfl
  have lengths := congrArg List.length whole
  rw [List.length_append, entryText, text] at lengths
  simp [entryLength, length] at lengths
  rw [lengths] at behind
  rw [split, unescapes_nil behind, whole, lengths]
  simp

end Listing

/-! ## The array -/

theorem not_mem_blank {space : Text} (blanks : blank space = true)
    (solid : isWs c = false) : c ∉ space := by
  intro member
  have white := List.all_eq_true.mp blanks c member
  rw [solid] at white
  cases white

/-- What the loop takes from an entry. -/
def Listing.read (entry : Listing) : List Text :=
  if looksLikeMac entry.raw then [entry.raw.take 17] else []

variable {lead : Text}

theorem quotedMacs_entry (entry : Listing) {trail rest : Text}
    (leads : blank lead = true) (trails : blank trail = true)
    (quiet : looksLikeMac (trail ++ rest) = false) :
    quotedMacs (lead ++ (quote entry.raw ++ (trail ++ rest))) =
      entry.read ++ quotedMacs rest := by
  have text : quote entry.raw ++ (trail ++ rest) =
      '"' :: (entry.raw ++ '"' :: (trail ++ rest)) := by
    simp [quote]
  have taken : (entry.raw ++ '"' :: (trail ++ rest)).take 17 =
      entry.raw.take 17 := by
    rw [List.take_append_of_le_length entry.long]
  rw [quotedMacs_append (not_mem_blank leads (by decide)), text,
    quotedMacs_quote, looksLikeMac_append entry.long, taken,
    quotedMacs_append (entry.not_mem (by decide)), quotedMacs_quote, quiet,
    quotedMacs_append (not_mem_blank trails (by decide)), Listing.read]
  simp

/-- What the scan needs to know about the elements of an array. -/
structure Scanned (inner : Text) (entries : List Listing) : Prop where
  open_ : ']' ∉ inner
  macs : quotedMacs inner = entries.flatMap Listing.read
  front : ∃ front rest, inner = front ++ rest ∧ ':' ∉ front ∧ 3 ≤ front.length

theorem derives_string {text body : Text}
    (derives : Derives .value text (.string body)) : text = quote body := by
  cases derives
  rfl

theorem front_entry (entry : Listing) (leads : blank lead = true) (rest : Text) :
    ∃ front more, lead ++ (quote entry.raw ++ rest) = front ++ more ∧
      ':' ∉ front ∧ 3 ≤ front.length := by
  obtain ⟨c, d, tail, raw, first, second⟩ := entry.front
  refine ⟨lead ++ ['"', c, d], tail ++ '"' :: rest, by simp [quote, raw], ?_,
    by simp⟩
  simp [not_mem_blank leads (show isWs ':' = false by decide), Ne.symm first,
    Ne.symm second]

theorem open_entry (entry : Listing) {trail : Text} (leads : blank lead = true)
    (trails : blank trail = true) : ']' ∉ lead ++ (quote entry.raw ++ trail) := by
  have inside := entry.not_mem (show isSpellingChar ']' = false by decide)
  simp [quote, inside, not_mem_blank leads (show isWs ']' = false by decide),
    not_mem_blank trails (show isWs ']' = false by decide)]

variable {entries : List Listing}

theorem scanned_elements {part : Part} {inner : Text} {tree : Json}
    (derives : Derives part inner tree) (isElements : part = .elements)
    (array : tree = .array (entries.map fun entry => .string entry.raw)) :
    Scanned inner entries := by
  induction derives generalizing entries with
  | wordNull | wordTrue | wordFalse | number | string | noElements | array
  | noMembers | object | member | members => cases isElements
  | element leads derives trails _ =>
      obtain ⟨entry, rest, rfl⟩ : ∃ entry rest, entries = entry :: rest := by
        cases entries with
        | nil => simp at array
        | cons entry rest => exact ⟨entry, rest, rfl⟩
      simp only [List.map_cons, Json.array.injEq, List.cons.injEq] at array
      obtain ⟨rfl, none⟩ := array
      have empty : rest = [] := by simpa using none.symm
      subst empty
      rw [derives_string derives]
      refine ⟨open_entry entry leads trails, ?_, front_entry entry leads _⟩
      have quiet := @not_looksLikeMac_of_front _ []
        (not_mem_blank trails (show isWs ':' = false by decide)) (.inr rfl)
      have scan := quotedMacs_entry entry leads trails quiet
      simpa [quotedMacs] using scan
  | elements leads derives trails _ _ induction =>
      obtain ⟨entry, rest, rfl⟩ : ∃ entry rest, entries = entry :: rest := by
        cases entries with
        | nil => simp at array
        | cons entry rest => exact ⟨entry, rest, rfl⟩
      simp only [List.map_cons, Json.array.injEq, List.cons.injEq] at array
      obtain ⟨rfl, others⟩ := array
      have later := induction rfl (by rw [others])
      rename_i lead text trail tail _ _ _
      rw [derives_string derives]
      obtain ⟨front, more, split, free, long⟩ := later.front
      refine ⟨?_, ?_, front_entry entry leads _⟩
      · have here := open_entry entry leads trails
        simp only [List.mem_append] at here
        simp [here, later.open_]
      · have colons : ':' ∉ trail ++ ',' :: front := by
          simp [not_mem_blank trails (show isWs ':' = false by decide), free]
        have quiet : looksLikeMac (trail ++ ',' :: tail) = false := by
          have whole := @not_looksLikeMac_of_front (trail ++ ',' :: front) more
            colons (.inl (by simp; omega))
          rw [split]
          simpa using whole
        have scan := quotedMacs_entry entry leads trails quiet
        rw [scan, quotedMacs, later.macs]
        rfl

/-! ## The stretch -/

/-- The array without its last bracket. -/
theorem array_text {object : Text}
    (derives : Derives .value object (.array (entries.map fun entry => .string entry.raw))) :
    ∃ inner, object = '[' :: (inner ++ [']']) ∧ ']' ∉ inner ∧
      quotedMacs inner = entries.flatMap Listing.read ∧
      ∃ front rest, inner = front ++ rest ∧ ':' ∉ front ∧
        (3 ≤ front.length ∨ rest = []) := by
  generalize value : Json.array (entries.map fun entry => .string entry.raw) =
    tree at derives
  cases derives with
  | wordNull | wordTrue | wordFalse | number | string | noMembers
  | object => cases value
  | @noElements space blanks =>
      have none : entries = [] := by simpa using value
      subst none
      refine ⟨space, rfl, not_mem_blank blanks (by decide), ?_, space, [],
        by simp, not_mem_blank blanks (by decide), .inr rfl⟩
      have scan := quotedMacs_append
        (not_mem_blank blanks (show isWs '"' = false by decide)) []
      simpa [quotedMacs] using scan
  | @array inner elements derives =>
      cases value
      have scanned := scanned_elements derives rfl rfl
      obtain ⟨front, rest, split, free, long⟩ := scanned.front
      exact ⟨inner, rfl, scanned.open_, scanned.macs, front, rest, split, free,
        .inl long⟩

theorem takeWhile_open {stretch : Text} (opens : ']' ∉ stretch) (rest : Text) :
    (stretch ++ ']' :: rest).takeWhile (· != ']') = stretch := by
  rw [List.takeWhile_append_of_pos]
  · simp
  · intro c member
    simp only [bne_iff_ne]
    rintro rfl
    exact opens member

theorem quotedMacs_stretch {gap pad object behind : Text}
    (gaps : blank gap = true) (pads : blank pad = true)
    (derives : Derives .value object (.array (entries.map fun entry => .string entry.raw))) :
    quotedMacs ((quote "blacklist".toList ++ (gap ++ ':' :: (pad ++
      (object ++ behind)))).takeWhile (· != ']')) =
      entries.flatMap Listing.read := by
  obtain ⟨inner, rfl, opens, macs, front, rest, split, free, long⟩ :=
    array_text derives
  have text : quote "blacklist".toList ++ (gap ++ ':' :: (pad ++
      ('[' :: (inner ++ [']']) ++ behind))) =
      (quote "blacklist".toList ++ (gap ++ ':' :: (pad ++ '[' :: inner))) ++
        ']' :: behind := by
    simp
  have openStretch : ']' ∉ quote "blacklist".toList ++
      (gap ++ ':' :: (pad ++ '[' :: inner)) := by
    have word : ']' ∉ quote "blacklist".toList := by decide
    simp only [List.mem_append, List.mem_cons, not_or]
    exact ⟨word, not_mem_blank gaps (by decide), by decide,
      not_mem_blank pads (by decide), by decide, opens⟩
  have colonFree : ':' ∉ pad ++ '[' :: front := by
    simp [not_mem_blank pads (show isWs ':' = false by decide), free]
  have atName : looksLikeMac ("blacklist".toList ++ '"' ::
      (gap ++ ':' :: (pad ++ '[' :: inner))) = false :=
    not_looksLikeMac_of_front (by decide) (.inl (by decide))
  have behindName : looksLikeMac (gap ++ ':' :: (pad ++ '[' :: inner)) =
      false := by
    have late := @not_looksLikeMac_of_colon gap (pad ++ '[' :: front) rest
      (not_mem_blank gaps (by decide)) colonFree
      (by
        rcases long with long | empty
        · exact .inl (by simp; omega)
        · exact .inr empty)
    rw [split]
    simpa using late
  have word : '"' ∉ "blacklist".toList := by decide
  have rest : '"' ∉ gap ++ ':' :: (pad ++ ['[']) := by
    simp [not_mem_blank gaps (show isWs '"' = false by decide),
      not_mem_blank pads (show isWs '"' = false by decide)]
  have quoted : quote "blacklist".toList ++
      (gap ++ ':' :: (pad ++ '[' :: inner)) = '"' :: ("blacklist".toList ++
        '"' :: (gap ++ ':' :: (pad ++ '[' :: inner))) := rfl
  have last : gap ++ ':' :: (pad ++ '[' :: inner) =
      (gap ++ ':' :: (pad ++ ['['])) ++ inner := by
    simp
  rw [text, takeWhile_open openStretch, quoted, quotedMacs_quote, atName,
    quotedMacs_append word, quotedMacs_quote, behindName, last,
    quotedMacs_append rest, macs]
  rfl

end Hnc.Hotspotd
