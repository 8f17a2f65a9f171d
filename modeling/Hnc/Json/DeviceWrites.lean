import Hnc.Json.Commands
import Hnc.Json.Defaults
import Hnc.Json.Literals
import Hnc.Json.RulesFile
import Hnc.Net.Tables

/-!
# Writing the fields of devices

The fields of a device object that hold the state of a limit, the values they
take, and the two commands that write them.
-/

namespace Hnc

open Posix JsonText

inductive Field where
  | markId
  | ip
  | downMbps
  | upMbps
  | delayMs
  | jitterMs
  | lossPct
  | limitEnabled
  | delayEnabled
  | lastSeenPersist
deriving DecidableEq, Repr

def Field.all : List Field :=
  [.markId, .ip, .downMbps, .upMbps, .delayMs, .jitterMs, .lossPct,
    .limitEnabled, .delayEnabled, .lastSeenPersist]

def Field.key : Field → Text
  | markId => "mark_id".toList
  | ip => "ip".toList
  | downMbps => "down_mbps".toList
  | upMbps => "up_mbps".toList
  | delayMs => "delay_ms".toList
  | jitterMs => "jitter_ms".toList
  | lossPct => "loss_pct".toList
  | limitEnabled => "limit_enabled".toList
  | delayEnabled => "delay_enabled".toList
  | lastSeenPersist => "last_seen_persist".toList

theorem Field.key_injective : ∀ left right : Field,
    left.key = right.key → left = right := by
  intro left right
  cases left <;> cases right <;> decide

/-- A numeral without a sign. -/
def isUnsigned (value : Text) : Bool :=
  value.all isNumberChar && isNumeral value

def isFlag (value : Text) : Bool :=
  value == "true".toList || value == "false".toList

/-- The values of a field: an address for `ip`, a number for the others, or a
flag for the two switches. -/
def Field.accepts (value : Text) : Field → Bool
  | ip => isDottedQuad value
  | limitEnabled => isUnsigned value || isFlag value
  | delayEnabled => isUnsigned value || isFlag value
  | _ => isUnsigned value

theorem Field.accepts_true :
    Field.accepts "true".toList .limitEnabled = true := by
  decide

structure Assignment where
  field : Field
  value : Text
  ok : field.accepts value = true
deriving DecidableEq

namespace Assignment

/-- The JSON literal of the value. -/
def literal (a : Assignment) : Text :=
  if a.field = .ip then quote a.value else a.value

end Assignment

/-- The two commands, on lower-case addresses. -/
inductive DeviceWrite where
  | jsonSet (mac : Mac) (a : Assignment)
  | jsonSetBatch (mac : Mac) (pairs : List Assignment)

namespace DeviceWrite

/-- A command that exits with an error leaves the file alone. -/
def run (file : Text) : DeviceWrite → Text
  | jsonSet mac a =>
      (JsonSet.device file mac.text a.field.key a.value).getD file
  | jsonSetBatch mac pairs =>
      (JsonSetBatch.device file mac.text
        (pairs.map fun a => (a.field.key, a.value))).getD file

end DeviceWrite

/-- The value stored for a device, as the strict reader of `hnc_json` finds
it. -/
def storedField (file mac key : Text) : Option Text :=
  (HncJson.getDevice file mac key).toOption.map captured

/-! ### Values and their literals -/

theorem count_dot_of_digits {text : Text} (digits : text.all isDigit = true) :
    text.count '.' = 0 := by
  rw [List.count_eq_zero]
  intro member
  have digit := List.all_eq_true.mp digits _ member
  exact absurd digit (by decide)

theorem count_dot_takeWhile (text : Text) :
    (text.takeWhile isDigit).count '.' = 0 := by
  apply count_dot_of_digits
  apply List.all_eq_true.mpr
  intro c member
  exact List.mem_takeWhile_imp member

theorem count_dot_of_isNumeral {line : Text} (numeral : isNumeral line = true) :
    line.count '.' ≤ 1 := by
  have unsignedCount : ∀ text : Text,
      (text.dropWhile isDigit = [] ∨
        ((text.dropWhile isDigit).head? = some '.' ∧
          (text.dropWhile isDigit).tail.all isDigit = true)) →
      text.count '.' ≤ 1 := by
    intro text shape
    have split : text = text.takeWhile isDigit ++ text.dropWhile isDigit :=
      List.takeWhile_append_dropWhile.symm
    rw [split, List.count_append, count_dot_takeWhile]
    rcases shape with empty | ⟨head, digits⟩
    · simp [empty]
    · cases drop : text.dropWhile isDigit with
      | nil => simp
      | cons c rest =>
          rw [drop] at head digits
          simp only [List.head?_cons, Option.some.injEq] at head
          have none := count_dot_of_digits digits
          simp only [List.tail_cons] at none
          simp [head, none]
  simp only [isNumeral, Bool.and_eq_true, Bool.or_eq_true, beq_iff_eq] at numeral
  obtain ⟨_, shape⟩ := numeral
  split at shape
  · rename_i sign
    have shorter := unsignedCount line.tail (by
      rcases shape with empty | full
      · exact .inl empty
      · exact .inr ⟨full.1.1, full.2⟩)
    cases line with
    | nil => simp
    | cons c rest =>
        simp only [List.head?_cons, Option.some.injEq] at sign
        simpa [sign] using shorter
  · apply unsignedCount
    rcases shape with empty | full
    · exact .inl empty
    · exact .inr ⟨full.1.1, full.2⟩

variable {value : Text}

theorem isDottedQuad_numberChars (quad : isDottedQuad value = true) :
    value.all isNumberChar = true := by
  apply List.all_eq_true.mpr
  intro c member
  have char := Ipv4.chars ⟨value, quad⟩ c member
  rcases char with digit | rfl
  · simp [isNumberChar, digit]
  · decide

theorem not_isNumeral_of_isDottedQuad (quad : isDottedQuad value = true) :
    isNumeral value = false := by
  by_contra numeral
  have few := count_dot_of_isNumeral (by simpa using numeral)
  simp only [isDottedQuad, Bool.and_eq_true, beq_iff_eq, fields_length] at quad
  omega

/-- What the commands rely on in a value of digits and points. -/
theorem numberChars_facts (chars : value.all isNumberChar = true) :
    '\n' ∉ value ∧ '\\' ∉ value ∧ plainKey value = true ∧
      (∀ c ∈ value, isControl c = false) ∧ isFlag value = false ∧
      value ≠ "null".toList := by
  have free : ∀ c : Char, isNumberChar c = false → c ∉ value := by
    intro c other member
    have char := List.all_eq_true.mp chars c member
    rw [other] at char
    cases char
  have word : ∀ c rest, isNumberChar c = false → value ≠ c :: rest := by
    rintro c rest other rfl
    exact free c other (by simp)
  refine ⟨free _ (by decide), free _ (by decide), ?_, ?_, ?_, ?_⟩
  · apply List.all_eq_true.mpr
    intro c member
    simp only [Bool.and_eq_true, bne_iff_ne]
    constructor
    · rintro rfl
      exact free _ (by decide) member
    · rintro rfl
      exact free _ (by decide) member
  · intro c member
    have char := List.all_eq_true.mp chars c member
    simp only [isNumberChar, isDigit, Bool.or_eq_true, Bool.and_eq_true,
      decide_eq_true_eq, beq_iff_eq] at char
    simp only [isControl, decide_eq_false_iff_not, Nat.not_lt]
    rcases char with digit | rfl
    · exact Nat.le_trans (by decide) digit.1
    · decide
  · simp only [isFlag, Bool.or_eq_false_iff, beq_eq_false_iff_ne]
    exact ⟨word 't' _ (by decide), word 'f' _ (by decide)⟩
  · exact word 'n' _ (by decide)

theorem Assignment.cases (a : Assignment) :
    (a.field = .ip ∧ isDottedQuad a.value = true ∧ a.literal = quote a.value) ∨
    (a.literal = a.value ∧ (isUnsigned a.value = true ∨ isFlag a.value = true)) := by
  obtain ⟨field, value, ok⟩ := a
  cases field with
  | ip => exact .inl ⟨rfl, ok, rfl⟩
  | limitEnabled =>
      exact .inr ⟨rfl, (Bool.or_eq_true _ _).mp ok⟩
  | delayEnabled =>
      exact .inr ⟨rfl, (Bool.or_eq_true _ _).mp ok⟩
  | _ => exact .inr ⟨rfl, .inl ok⟩

theorem isUnsigned_of_digits {text : Text} (nonempty : text ≠ [])
    (digits : text.all isDigit = true) : isUnsigned text = true := by
  have chars : text.all isNumberChar = true := by
    apply List.all_eq_true.mpr
    intro c member
    simp [isNumberChar, List.all_eq_true.mp digits c member]
  have numeral : isNumeral text = true := by
    obtain ⟨c, rest, rfl⟩ := List.exists_cons_of_ne_nil nonempty
    have digit := List.all_eq_true.mp digits c (by simp)
    have unsigned : ¬(c :: rest).head? = some '-' := by
      intro same
      rw [Option.some.inj same] at digit
      exact absurd digit (by decide)
    have whole : (c :: rest).dropWhile isDigit = [] :=
      List.dropWhile_eq_nil_iff.mpr fun c member =>
        List.all_eq_true.mp digits c member
    rw [isNumeral]
    simp only [if_neg unsigned, whole]
    simp [digit]
  simp [isUnsigned, chars, numeral]

theorem startsNumeric_of_isUnsigned (chars : value.all isNumberChar = true)
    (numeral : isNumeral value = true) :
    JsonSetBatch.startsNumeric value = true := by
  cases value with
  | nil => exact absurd numeral (by decide)
  | cons c rest =>
      simp only [List.all_cons, Bool.and_eq_true] at chars
      have sign : c ≠ '-' := by
        rintro rfl
        exact absurd chars.1 (by decide)
      simp only [isNumeral, List.head?_cons, Option.some.injEq, sign,
        Bool.and_eq_true] at numeral
      unfold JsonSetBatch.startsNumeric
      split
      · rename_i same
        cases same
        exact absurd rfl sign
      · rename_i same
        cases same
        exact numeral.1
      · rename_i same
        cases same

theorem ne_nil_of_isDottedQuad (quad : isDottedQuad value = true) : value ≠ [] :=
  Ipv4.text_ne_nil ⟨value, quad⟩

theorem flatMap_self {encode : Char → Text} (same : ∀ c ∈ value, encode c = [c]) :
    value.flatMap encode = value := by
  induction value with
  | nil => rfl
  | cons c rest induction =>
      rw [List.flatMap_cons, same c (by simp),
        induction fun other member => same other (by simp [member])]
      rfl

theorem Assignment.jsonEncode (a : Assignment) :
    JsonSet.firstLine (JsonSet.jsonEncode a.value) = a.literal := by
  rcases a.cases with ⟨_, quad, literal⟩ | ⟨literal, unsigned | flag⟩
  · obtain ⟨oneLine, slash, plain, visible, flag, word⟩ :=
      numberChars_facts (isDottedQuad_numberChars quad)
    have nonempty := ne_nil_of_isDottedQuad quad
    have words : ¬(a.value = "true".toList ∨ a.value = "false".toList ∨
        a.value = "null".toList) := by
      simp only [isFlag, Bool.or_eq_false_iff, beq_eq_false_iff_ne] at flag
      rintro (same | same | same)
      · exact flag.1 same
      · exact flag.2 same
      · exact word same
    have inner : JsonSet.escapeInner a.value = a.value := by
      have kept : (a.value.filter fun c => !isControl c) = a.value := by
        rw [List.filter_eq_self]
        intro c member
        simp [visible c member]
      rw [JsonSet.escapeInner, kept]
      apply flatMap_self
      intro c member
      have char := List.all_eq_true.mp plain c member
      simp only [Bool.and_eq_true, bne_iff_ne] at char
      simp [char.1, char.2]
    rw [JsonSet.jsonEncode, if_neg words, if_neg nonempty,
      hasNumeralLine_of_oneLine oneLine, not_isNumeral_of_isDottedQuad quad,
      JsonSet.jsonStringEncode, inner, literal]
    apply firstLine_of_oneLine
    · simpa using oneLine
    · simp
  · simp only [isUnsigned, Bool.and_eq_true] at unsigned
    obtain ⟨oneLine, _⟩ := numberChars_facts unsigned.1
    have nonempty := ne_nil_of_isNumeral unsigned.2
    have same : JsonSet.jsonEncode a.value = a.value := by
      rw [JsonSet.jsonEncode]
      by_cases word : a.value = "true".toList ∨ a.value = "false".toList ∨
          a.value = "null".toList
      · rw [if_pos word]
      · rw [if_neg word, if_neg nonempty, hasNumeralLine_of_oneLine oneLine,
          unsigned.2, if_pos rfl, captured_of_oneLine oneLine]
    rw [same, literal]
    exact firstLine_of_oneLine oneLine nonempty
  · simp only [isFlag, Bool.or_eq_true, beq_iff_eq] at flag
    rw [literal]
    rcases flag with same | same
    · rw [same]
      decide
    · rw [same]
      decide

theorem Assignment.jsonLiteral (a : Assignment) :
    HncJson.jsonLiteral a.value (JsonSetBatch.inferType a.value) =
      some a.literal := by
  rcases a.cases with ⟨_, quad, literal⟩ | ⟨literal, unsigned | flag⟩
  · obtain ⟨oneLine, slash, plain, visible, flag, word⟩ :=
      numberChars_facts (isDottedQuad_numberChars quad)
    simp only [isFlag, Bool.or_eq_false_iff, beq_eq_false_iff_ne] at flag
    have numeral : ¬(JsonSetBatch.startsNumeric a.value = true ∧
        hasNumeralLine a.value = true) := by
      rw [hasNumeralLine_of_oneLine oneLine, not_isNumeral_of_isDottedQuad quad]
      simp
    have same : a.value.flatMap HncJson.escapeChar = a.value := by
      apply flatMap_self
      intro c member
      have char := List.all_eq_true.mp plain c member
      have seen := visible c member
      simp only [Bool.and_eq_true, bne_iff_ne] at char
      have control : ∀ d : Char, isControl d = true → c ≠ d := by
        rintro d hidden rfl
        rw [seen] at hidden
        cases hidden
      simp [HncJson.escapeChar, char.1, char.2, control '\x08' (by decide),
        control '\x0c' (by decide), control '\n' (by decide),
        control '\r' (by decide), control '\t' (by decide)]
    rw [JsonSetBatch.inferType, if_neg (not_or.mpr ⟨flag.1, flag.2⟩),
      if_neg word, if_neg numeral, HncJson.jsonLiteral, HncJson.quoteString,
      same, literal]
    rfl
  · simp only [isUnsigned, Bool.and_eq_true] at unsigned
    obtain ⟨oneLine, _, _, _, flag, word⟩ := numberChars_facts unsigned.1
    simp only [isFlag, Bool.or_eq_false_iff, beq_eq_false_iff_ne] at flag
    have starts := startsNumeric_of_isUnsigned unsigned.1 unsigned.2
    have numeral : JsonSetBatch.startsNumeric a.value = true ∧
        hasNumeralLine a.value = true :=
      ⟨starts, by rw [hasNumeralLine_of_oneLine oneLine]; exact unsigned.2⟩
    rw [JsonSetBatch.inferType, if_neg (not_or.mpr ⟨flag.1, flag.2⟩),
      if_neg word, if_pos numeral, HncJson.jsonLiteral, if_pos numeral.2,
      captured_of_oneLine oneLine, literal]
  · simp only [isFlag, Bool.or_eq_true, beq_iff_eq] at flag
    rw [literal]
    rcases flag with same | same
    · rw [same]
      decide
    · rw [same]
      decide

/-- A class of characters without those that end or split a bare word. -/
theorem Assignment.isSimple_literal (a : Assignment) :
    isSimple a.literal = true := by
  rcases a.cases with ⟨_, quad, literal⟩ | ⟨literal, unsigned | flag⟩
  · have facts := numberChars_facts (isDottedQuad_numberChars quad)
    simp [literal, isSimple, quote, facts.2.2.1]
  · simp only [isUnsigned, Bool.and_eq_true] at unsigned
    have nonempty := ne_nil_of_isNumeral unsigned.2
    have atom : a.value.all isAtomChar = true := by
      apply List.all_eq_true.mpr
      intro c member
      exact isAtomChar_of_class (List.all_eq_true.mp unsigned.1 c member)
        (by decide)
    simp [literal, isSimple, nonempty, atom]
  · simp only [isFlag, Bool.or_eq_true, beq_iff_eq] at flag
    rw [literal]
    rcases flag with same | same <;> rw [same] <;> decide

theorem Assignment.val_literal (a : Assignment) : Val a.literal :=
  val_of_isSimple a.isSimple_literal

theorem Field.plain_key (field : Field) : plainKey field.key = true := by
  cases field <;> decide

theorem Field.assign_key (field : Field) : assign field.key = field.key := by
  cases field <;> decide

theorem Mac.plain_text (mac : Mac) : plainKey mac.text = true := by
  apply List.all_eq_true.mpr
  intro c member
  simp only [Bool.and_eq_true, bne_iff_ne]
  constructor
  · rintro rfl
    exact mac.not_mem (by decide) (by decide) member
  · rintro rfl
    exact mac.not_mem (by decide) (by decide) member

theorem Mac.assign_text (mac : Mac) : assign mac.text = mac.text :=
  assign_of_no_backslash (mac.not_mem (by decide) (by decide))

section Commands

variable (f : Frame) {d : Devices}

variable {next : Text}

theorem jsonSet_device_file (wf : d.Wf) (mac : Mac) (a : Assignment)
    (written : JsonSet.device (f.file d.obj) mac.text a.field.key a.value = some next) :
    next = f.file (d.putFront mac.text a.field.key a.literal).obj := by
  have done := JsonSet.guardedCommit_some written
  rw [mac.assign_text, a.field.assign_key, a.jsonEncode,
    Devices.updateDevice_file f wf] at done
  cases done
  rfl

/-- On a file that passes the guard the strict reader finds what the layout
says. -/
theorem storedField_file (wf : d.Wf)
    (valid : Guard.jsonGuard (f.file d.obj) = true) (mac : Mac) (field : Field) :
    storedField (f.file d.obj) mac.text field.key = d.get mac.text field.key := by
  have nonempty : ¬(mac.text = [] ∨ field.key = []) := by
    rintro (empty | empty)
    · exact mac.text_ne_nil empty
    · cases field <;> exact absurd empty (by decide)
  rw [storedField, HncJson.getDevice, if_neg nonempty, if_pos valid,
    mac.assign_text, field.assign_key, Devices.getDeviceInner_file f wf]
  cases stored : d.get mac.text field.key with
  | none => rfl
  | some val =>
      obtain ⟨e, found, inside⟩ := Option.bind_eq_some_iff.mp stored
      obtain ⟨⟨m, after⟩, hit, rfl⟩ := Option.map_eq_some_iff.mp inside
      have entry := wf.entries e (Devices.mac_of_find found).1
      obtain ⟨init, c, text, solid⟩ :=
        (entry.device.mem_of_findMember hit).val.last
      have newline : c ≠ '\n' := by
        rintro rfl
        exact absurd solid (by decide)
      simp [Except.toOption, text, captured, newline]

theorem readType_typeWord (typ : LiteralType) :
    JsonSetBatch.readType (JsonSetBatch.typeWord typ) = some typ := by
  cases typ <;> decide

theorem Field.oneLine_key (field : Field) : '\n' ∉ field.key := by
  cases field <;> decide

theorem Assignment.oneLine_value (a : Assignment) : '\n' ∉ a.value := by
  rcases a.cases with ⟨_, quad, _⟩ | ⟨_, unsigned | flag⟩
  · exact (numberChars_facts (isDottedQuad_numberChars quad)).1
  · simp only [isUnsigned, Bool.and_eq_true] at unsigned
    exact (numberChars_facts unsigned.1).1
  · simp only [isFlag, Bool.or_eq_true, beq_iff_eq] at flag
    rcases flag with same | same <;> rw [same] <;> decide

theorem triples_argumentLines (pairs : List Assignment) :
    JsonSetBatch.triples (JsonSetBatch.argumentLines
        (pairs.map fun a => (a.field.key, a.value))) =
      some (pairs.map fun a =>
        (a.field.key, a.value, JsonSetBatch.inferType a.value)) := by
  unfold JsonSetBatch.argumentLines
  induction pairs with
  | nil => rfl
  | cons a pairs induction =>
      have word : '\n' ∉ JsonSetBatch.typeWord (JsonSetBatch.inferType a.value) := by
        cases JsonSetBatch.inferType a.value <;> decide
      rw [List.map_cons, List.flatMap_cons]
      simp only [List.append_assoc, List.cons_append,
        List.nil_append] at induction ⊢
      rw [records_append_newline a.field.oneLine_key,
        records_append_newline a.oneLine_value, records_append_newline word,
        JsonSetBatch.triples, readType_typeWord, induction]
      rfl

def putAll (mac : Mac) (d : Devices) (pairs : List Assignment) : Devices :=
  pairs.foldl (fun d a => d.putBack mac.text a.field.key a.literal) d

theorem wf_putAll (wf : d.Wf) (mac : Mac) (pairs : List Assignment) :
    (putAll mac d pairs).Wf := by
  induction pairs generalizing d with
  | nil => exact wf
  | cons a pairs induction =>
      exact induction (Devices.wf_putBack wf mac.plain_text a.field.plain_key
        a.val_literal)

theorem batchFields_file (wf : d.Wf) (mac : Mac) (pairs : List Assignment)
    (written : HncJson.batchFields mac.text (f.file d.obj) (pairs.map fun a => (a.field.key, a.value, JsonSetBatch.inferType a.value)) = some next) :
    next = f.file (putAll mac d pairs).obj := by
  induction pairs generalizing d with
  | nil =>
      cases written
      rfl
  | cons a pairs induction =>
      obtain ⟨between, first, rest⟩ := Option.bind_eq_some_iff.mp written
      have nonempty : a.field.key ≠ [] := by
        cases a.field <;> decide
      rw [HncJson.batchField, if_neg nonempty, a.jsonLiteral] at first
      simp only [mac.assign_text, a.field.assign_key, assign_doubleBackslash,
        Devices.setDeviceInner_file f wf mac.plain_text a.field.plain_key] at first
      split at first
      · cases first
        exact induction (Devices.wf_putBack wf mac.plain_text a.field.plain_key
          a.val_literal) rest
      · cases first

theorem batchFields_valid {mac file : Text}
    {fields : List (Text × Text × LiteralType)}
    (valid : Guard.jsonGuard file = true)
    (written : HncJson.batchFields mac file fields = some next) :
    Guard.jsonGuard next = true := by
  induction fields generalizing file with
  | nil =>
      cases written
      exact valid
  | cons field fields induction =>
      obtain ⟨between, first, rest⟩ := Option.bind_eq_some_iff.mp written
      apply induction _ rest
      unfold HncJson.batchField at first
      split at first
      · cases first
      · split at first
        · cases first
        · split at first
          · cases first
          · split at first
            · rename_i checked
              cases first
              exact checked
            · cases first

theorem jsonSetBatch_device_valid {file mac : Text} {pairs : List (Text × Text)}
    (valid : Guard.jsonGuard file = true)
    (written : JsonSetBatch.device file mac pairs = some next) :
    Guard.jsonGuard next = true := by
  unfold JsonSetBatch.device at written
  split at written
  · obtain ⟨fields, _, rest⟩ := Option.bind_eq_some_iff.mp written
    rw [HncJson.setDeviceBatch] at rest
    split at rest
    · cases rest
    · exact batchFields_valid valid rest
  · cases written

theorem jsonSetBatch_device_file (wf : d.Wf) (mac : Mac) (pairs : List Assignment)
    (written : JsonSetBatch.device (f.file d.obj) mac.text (pairs.map fun a => (a.field.key, a.value)) = some next) :
    next = f.file (putAll mac d pairs).obj := by
  unfold JsonSetBatch.device at written
  split at written
  · rw [triples_argumentLines, Option.bind_some, HncJson.setDeviceBatch] at written
    split at written
    · cases written
    · split at written
      · exact batchFields_file f wf mac pairs written
      · cases written
  · cases written

end Commands

end Hnc
