import Hnc.Daemon.JsonEscape
import Hnc.Lib.AwkNumber
import Hnc.Lib.KeyMap
import Mathlib.Data.List.GetD

/-!
# The audit log

`auditLog` of `audit.go` appends one record for each write request.  A string of
Go is kept as a text with one character for each byte.  `sanitizeField` cleans
the values of the parameters and the detail; the action, the names of the
parameters and the result are written as they come.
-/

namespace Httpd

open Posix
open KeyMap

/-- `strings.ReplaceAll` of a single byte. -/
def replaceAll (old : Char) (new s : Text) : Text :=
  s.flatMap fun c => if c = old then new else [c]

/-- `utf8.RuneStart`. -/
def runeStart (b : Char) : Bool :=
  b.toNat &&& 0xC0 != 0x80

/-- `for cut > 0 && !utf8.RuneStart(s[cut]) { cut-- }`. -/
def cutLeft (s : Text) : Nat → Nat
  | 0 => 0
  | cut + 1 =>
      if runeStart (s.getD (cut + 1) '\x00') then cut + 1 else cutLeft s cut

/-- The three replacements of `sanitizeField`. -/
def unbroken (s : Text) : Text :=
  replaceAll '\t' " ".toList
    (replaceAll '\r' "\\r".toList (replaceAll '\n' "\\n".toList s))

def sanitizeField (s : Text) : Text :=
  let s := unbroken s
  if 256 < s.length then s.take (cutLeft s 256) ++ "...".toList else s

/-- The local time, as `time.Now` has it. -/
structure LocalTime where
  year : Nat
  month : Nat
  day : Nat
  hour : Nat
  minute : Nat
  second : Nat

/-- A number with zeros in front. -/
def padded (width n : Nat) : Text :=
  (Nat.toDigits 10 n).leftpad width '0'

/-- `Format("2006-01-02 15:04:05")`. -/
def LocalTime.format (t : LocalTime) : Text :=
  padded 4 t.year ++ '-' :: padded 2 t.month ++ '-' :: padded 2 t.day ++
    ' ' :: padded 2 t.hour ++ ':' :: padded 2 t.minute ++
    ':' :: padded 2 t.second

def tidShort (tid : Text) : Text :=
  if tid.take 8 = [] then "anon".toList else tid.take 8

/-- `sort.Strings` on the names of the parameters. -/
def sortedKeys (params : Map Text Text) : List Text :=
  params.keys.mergeSort fun a b => !decide (b < a)

def paramStr (params : Map Text Text) : Text :=
  (sortedKeys params).flatMap fun k =>
    ' ' :: k ++ '=' :: sanitizeField ((params.lookup k).getD [])

def detailStr (detail : Text) : Text :=
  if detail = [] then [] else " detail=".toList ++ sanitizeField detail

def auditLine (now : LocalTime) (tid action : Text) (params : Map Text Text)
    (result detail : Text) : Text :=
  '[' :: now.format ++ "] tid=".toList ++ tidShort tid ++
    " action=".toList ++ action ++ paramStr params ++
    " result=".toList ++ result ++ detailStr detail ++ ['\n']

/-- `auditLog`, on what `audit.log` holds. -/
def auditLog (log : Text) (now : LocalTime) (tid action : Text)
    (params : Map Text Text) (result detail : Text) : Text :=
  log ++ auditLine now tid action params result detail

/-- No line break and no carriage return. -/
def Flat (text : Text) : Prop :=
  '\n' ∉ text ∧ '\r' ∉ text

instance (text : Text) : Decidable (Flat text) :=
  inferInstanceAs (Decidable (_ ∧ _))

/-- One line more, with its newline. -/
def AddsLine (log later : Text) : Prop :=
  ∃ line, later = log ++ (line ++ ['\n']) ∧ Flat line

/-- The parts that `auditLog` does not clean are flat. -/
structure RawPartsFlat (tid action : Text) (params : Map Text Text)
    (result : Text) : Prop where
  tid : Flat (tid.take 8)
  action : Flat action
  keys : ∀ k ∈ params.keys, Flat k
  result : Flat result

theorem flat_append {left right : Text} :
    Flat (left ++ right) ↔ Flat left ∧ Flat right := by
  simp only [Flat, List.mem_append]
  tauto

theorem flat_cons {c : Char} {text : Text} :
    Flat (c :: text) ↔ (c ≠ '\n' ∧ c ≠ '\r') ∧ Flat text := by
  simp only [Flat, List.mem_cons]
  tauto

theorem flat_flatMap {Item : Type} {items : List Item} {part : Item → Text} :
    Flat (items.flatMap part) ↔ ∀ item ∈ items, Flat (part item) := by
  induction items with
  | nil => simp [Flat]
  | cons item items induction =>
      rw [List.flatMap_cons, flat_append, induction, List.forall_mem_cons]

theorem Flat.take {text : Text} (flat : Flat text) (n : Nat) :
    Flat (text.take n) :=
  ⟨fun member => flat.1 (List.mem_of_mem_take member),
    fun member => flat.2 (List.mem_of_mem_take member)⟩

variable {old : Char} {new s : Text}

theorem mem_replaceAll {c : Char} :
    c ∈ replaceAll old new s ↔
      (c ∈ s ∧ c ≠ old) ∨ (c ∈ new ∧ old ∈ s) := by
  rw [replaceAll, List.mem_flatMap]
  constructor
  · rintro ⟨d, member, inside⟩
    split at inside
    · rename_i same
      exact .inr ⟨inside, same ▸ member⟩
    · rename_i other
      rw [List.mem_singleton.mp inside]
      exact .inl ⟨member, other⟩
  · rintro (⟨member, other⟩ | ⟨inside, member⟩)
    · exact ⟨c, member, by simp [other]⟩
    · exact ⟨old, member, by simpa using inside⟩

theorem flat_unbroken (s : Text) : Flat (unbroken s) := by
  constructor <;> simp [unbroken, mem_replaceAll]

theorem flat_sanitizeField (s : Text) : Flat (sanitizeField s) := by
  rw [sanitizeField]
  split
  · exact flat_append.mpr ⟨(flat_unbroken s).take _, by decide⟩
  · exact flat_unbroken s

theorem cutLeft_le (s : Text) (cut : Nat) : cutLeft s cut ≤ cut := by
  induction cut with
  | zero => exact Nat.le_refl 0
  | succ cut induction =>
      rw [cutLeft]
      split <;> omega

/-- A cut that is not at the start is in front of the first byte of a
character. -/
theorem runeStart_cutLeft (s : Text) (cut : Nat) :
    cutLeft s cut = 0 ∨ runeStart (s.getD (cutLeft s cut) '\x00') = true := by
  induction cut with
  | zero => exact .inl rfl
  | succ cut induction =>
      rw [cutLeft]
      split
      · rename_i starts
        exact .inr starts
      · exact induction

theorem length_sanitizeField (s : Text) : (sanitizeField s).length ≤ 259 := by
  have short := cutLeft_le (unbroken s) 256
  rw [sanitizeField]
  split
  · rw [List.length_append, List.length_take]
    have dots : "...".toList.length = 3 := rfl
    omega
  · omega

theorem replaceAll_encode (ascii : old.toNat < 128)
    (plain : ∀ c ∈ new, c.toNat < 128) (text : Text) :
    replaceAll old new (encode text) = encode (replaceAll old new text) := by
  induction text with
  | nil => rfl
  | cons c text induction =>
      have split : ∀ left right : Text, replaceAll old new (left ++ right) =
          replaceAll old new left ++ replaceAll old new right := by
        intro left right
        exact List.flatMap_append
      have one : replaceAll old new (c :: text) =
          replaceAll old new [c] ++ replaceAll old new text :=
        split [c] text
      rw [encode_cons, split, one, encode_append]
      congr 1
      by_cases same : c = old
      · subst same
        rw [encode_ascii (by simpa using ascii)]
        simp [replaceAll, encode_ascii plain]
      · have free : ∀ b ∈ encode [c], b ≠ old := by
          rintro b member rfl
          exact same (eq_of_mem_encode member ascii).symm
        have kept : replaceAll old new (encode [c]) = encode [c] := by
          generalize encode [c] = bytes at free
          induction bytes with
          | nil => rfl
          | cons b bytes induction =>
              have tail := induction fun d member => free d (by simp [member])
              rw [replaceAll] at tail ⊢
              rw [List.flatMap_cons, tail, if_neg (free b (by simp))]
              rfl
        rw [kept]
        simp [replaceAll, same]

theorem isUtf8_replaceAll (ascii : old.toNat < 128)
    (plain : ∀ c ∈ new, c.toNat < 128) (whole : IsUtf8 s) :
    IsUtf8 (replaceAll old new s) := by
  obtain ⟨text, rfl⟩ := whole
  exact ⟨_, (replaceAll_encode ascii plain text).symm⟩

theorem isUtf8_unbroken (whole : IsUtf8 s) : IsUtf8 (unbroken s) :=
  isUtf8_replaceAll (by decide) (by simp)
    (isUtf8_replaceAll (by decide) (by simp)
      (isUtf8_replaceAll (by decide) (by simp) whole))

/-- A text may be cut in front of the first byte of a character. -/
theorem isUtf8_take (text : Text) (cut : Nat) (inside : cut < (encode text).length)
    (starts : cut = 0 ∨ runeStart ((encode text).getD cut '\x00') = true) :
    IsUtf8 ((encode text).take cut) := by
  induction text generalizing cut with
  | nil => exact absurd inside (Nat.not_lt_zero cut)
  | cons c text induction =>
      obtain ⟨lead, more, bytes, _, continues, _⟩ :=
        Hnc.Hotspotd.encode_singleton c
      rw [encode_cons] at inside starts ⊢
      by_cases first : cut < (encode [c]).length
      · have zero : cut = 0 := by
          rcases starts with zero | starts
          · exact zero
          · rw [List.getD_append _ _ _ _ first, bytes] at starts
            cases cut with
            | zero => rfl
            | succ cut =>
                rw [bytes, List.length_cons] at first
                have member : more.getD cut '\x00' ∈ more := by
                  rw [List.getD_eq_getElem _ _ (by omega)]
                  exact List.getElem_mem _
                have continued := continues _ member
                simp only [Hnc.Hotspotd.isContinuation, beq_iff_eq] at continued
                rw [List.getD_cons_succ, runeStart, continued] at starts
                cases starts
        subst zero
        exact ⟨[], rfl⟩
      · rw [Nat.not_lt] at first
        rw [List.length_append] at inside
        rw [List.take_append, List.take_of_length_le first]
        refine (IsUtf8.encode [c]).append (induction _ (by omega) ?_)
        rcases starts with zero | starts
        · exact .inl (by omega)
        · rw [List.getD_append_right _ _ _ _ first] at starts
          exact .inr starts

theorem isUtf8_sanitizeField (whole : IsUtf8 s) : IsUtf8 (sanitizeField s) := by
  obtain ⟨text, bytes⟩ := isUtf8_unbroken whole
  rw [sanitizeField, ← bytes]
  split
  · have short := cutLeft_le (encode text) 256
    exact (isUtf8_take text _ (by omega) (runeStart_cutLeft _ 256)).append
      (.of_ascii (by simp))
  · exact ⟨text, rfl⟩

theorem flat_padded (width n : Nat) : Flat (padded width n) := by
  have digits := List.all_eq_true.mp (all_leftpad_toDigits width n)
  constructor
  · intro member
    exact absurd (digits _ member) (by decide)
  · intro member
    exact absurd (digits _ member) (by decide)

theorem flat_format (t : LocalTime) : Flat t.format := by
  simp only [LocalTime.format, flat_append, flat_cons, flat_padded]
  decide

theorem flat_tidShort (tid : Text) :
    Flat (tidShort tid) ↔ Flat (tid.take 8) := by
  rw [tidShort]
  split
  · rename_i empty
    rw [empty]
    decide
  · rfl

theorem flat_paramStr (params : Map Text Text) :
    Flat (paramStr params) ↔ ∀ k ∈ params.keys, Flat k := by
  have same : ∀ k, k ∈ sortedKeys params ↔ k ∈ params.keys := fun k =>
    List.mem_mergeSort
  simp only [paramStr, flat_flatMap, flat_cons, flat_append, flat_sanitizeField,
    same]
  simp

theorem flat_detailStr (detail : Text) : Flat (detailStr detail) := by
  rw [detailStr]
  split
  · decide
  · exact flat_append.mpr ⟨by decide, flat_sanitizeField detail⟩

/-- A record is a line if and only if the parts that are not cleaned have no
line break. -/
theorem addsLine_iff (log : Text) (now : LocalTime) (tid action : Text)
    (params : Map Text Text) (result detail : Text) :
    AddsLine log (auditLog log now tid action params result detail) ↔
      RawPartsFlat tid action params result := by
  have labels : Flat "] tid=".toList ∧ Flat " action=".toList ∧
      Flat " result=".toList := by
    decide
  have body : ∀ line : Text,
      auditLog log now tid action params result detail =
        log ++ (line ++ ['\n']) ↔
      '[' :: now.format ++ "] tid=".toList ++ tidShort tid ++
        " action=".toList ++ action ++ paramStr params ++
        " result=".toList ++ result ++ detailStr detail = line := by
    intro line
    rw [auditLog, auditLine, List.append_cancel_left_eq,
      List.append_cancel_right_eq]
  simp only [AddsLine, body, exists_eq_left', flat_append, flat_cons,
    flat_format, flat_tidShort, flat_paramStr, flat_detailStr, labels]
  constructor
  · rintro ⟨⟨⟨⟨⟨⟨⟨_, tid⟩, _⟩, action⟩, keys⟩, _⟩, result⟩, _⟩
    exact ⟨tid, action, keys, result⟩
  · rintro ⟨tid, action, keys, result⟩
    exact ⟨⟨⟨⟨⟨⟨⟨by decide, tid⟩, trivial⟩, action⟩, keys⟩, trivial⟩,
      result⟩, trivial⟩

/-- An audit record is one line exactly when the parts that come as they are
have no line break, and a cleaned field keeps whole characters within 259
bytes. -/
theorem record_is_line_iff (log : Text) (now : LocalTime) (tid action : Text)
    (params : Map Text Text) (result detail : Text) :
    (AddsLine log (auditLog log now tid action params result detail) ↔
      RawPartsFlat tid action params result) ∧
    ∀ s, IsUtf8 s →
      IsUtf8 (sanitizeField s) ∧ (sanitizeField s).length ≤ 259 := by
  constructor
  · exact addsLine_iff log now tid action params result detail
  · intro s whole
    exact ⟨isUtf8_sanitizeField whole, length_sanitizeField s⟩

def aprilNoon : LocalTime :=
  ⟨2026, 4, 19, 12, 0, 0⟩

/-- A request with a long name in it. -/
def namedParams : Map Text Text :=
  (∅ : Map Text Text).insert "ssid".toList
    (encode (List.replicate 90 (Char.ofNat 0x70ed)))

theorem named_record_is_line :
    AddsLine [] (auditLog [] aprilNoon "Zm9vYmFyYmF6".toList
      "hotspot_save".toList namedParams "ok".toList "config saved".toList) ∧
    IsUtf8 (sanitizeField (encode (List.replicate 90 (Char.ofNat 0x70ed)))) := by
  have plain : RawPartsFlat "Zm9vYmFyYmF6".toList "hotspot_save".toList
      namedParams "ok".toList := by
    refine ⟨by decide, by decide, ?_, by decide⟩
    intro k member
    rw [← AList.mem_keys, namedParams, AList.mem_insert] at member
    rcases member with rfl | absent
    · decide
    · exact absurd absent (by simp)
  have both := record_is_line_iff [] aprilNoon "Zm9vYmFyYmF6".toList
    "hotspot_save".toList namedParams "ok".toList "config saved".toList
  exact ⟨both.1.mpr plain, (both.2 _ (.encode _)).1⟩

/-- An action that nobody knows and that brings a record of its own. -/
def forgedAction : Text :=
  "x\n[2026-04-19 12:00:00] tid=Zm9vYmFy action=rule_clear result=ok".toList

theorem forged_record :
    ¬∀ (log : Text) (now : LocalTime) (tid action : Text)
      (params : Map Text Text) (result detail : Text),
      AddsLine log (auditLog log now tid action params result detail) := by
  intro always
  have one := always [] aprilNoon "Zm9vYmFyYmF6".toList forgedAction ∅
    "error".toList "unknown action".toList
  have plain := (addsLine_iff _ _ _ _ _ _ _).mp one
  exact absurd plain.action (by decide)

end Httpd
