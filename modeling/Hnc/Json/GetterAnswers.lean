import Hnc.Json.DeviceStore
import Hnc.Json.Getters

/-!
# What the getters of `json_set.sh` print

`device_get` and `top_get` print the value that is asked for as long as
`hnc_json` finds it and it has no `\u` escape.  For a key that is not there they
search the text of the file, and print what stands behind another key of that
name.
-/

variable {text : Text}

namespace JsonText

open Posix

/-- The value of the first member with a name. -/
def Json.get (tree : Json) (name : Text) : Option Json :=
  match tree with
  | .object members =>
      (members.find? fun entry => entry.1 = name).map Prod.snd
  | _ => none

/-- Every name is written without escapes. -/
inductive Json.Plain : Json → Prop where
  | null : Plain .null
  | bool (b : Bool) : Plain (.bool b)
  | number (text : Text) : Plain (.number text)
  | string (body : Text) : Plain (.string body)
  | array {elements : List Json} : (∀ element ∈ elements, Plain element) →
      Plain (.array elements)
  | object {members : List (Text × Json)} :
      (∀ entry ∈ members, '\\' ∉ entry.1) →
      (∀ entry ∈ members, Plain entry.2) → Plain (.object members)

/-- The escapes of one letter, and what they stand for. -/
def letterEscapes : List (Char × Char) :=
  [('"', '"'), ('\\', '\\'), ('/', '/'), ('b', '\x08'), ('f', '\x0c'),
    ('n', '\n'), ('r', '\r'), ('t', '\t')]

def hexValue (c : Char) : Nat :=
  if isDigit c then c.toNat - '0'.toNat
  else if 'a'.toNat ≤ c.toNat then c.toNat - 'a'.toNat + 10
  else c.toNat - 'A'.toNat + 10

/-- The number that four hexadecimal digits stand for. -/
def codeUnit (digits : Text) : Nat :=
  digits.foldl (fun code c => 16 * code + hexValue c) 0

/-- The text that the characters of a string stand for. -/
inductive Unescapes : Text → Text → Prop where
  | nil : Unescapes [] []
  | plain {c : Char} {rest out : Text} : c ≠ '\\' → Unescapes rest out →
      Unescapes (c :: rest) (c :: out)
  | letter {e c : Char} {rest out : Text} : (e, c) ∈ letterEscapes →
      Unescapes rest out → Unescapes ('\\' :: e :: rest) (c :: out)
  | unicode {digits rest out : Text} : digits.length = 4 →
      (∀ h ∈ digits, h ∈ hexDigits) →
      (codeUnit digits < 0xd800 ∨ 0xe000 ≤ codeUnit digits) →
      Unescapes rest out →
      Unescapes ('\\' :: 'u' :: digits ++ rest)
        (Char.ofNat (codeUnit digits) :: out)
  | surrogates {high low rest out : Text} : high.length = 4 →
      low.length = 4 → (∀ h ∈ high ++ low, h ∈ hexDigits) →
      0xd800 ≤ codeUnit high → codeUnit high < 0xdc00 →
      0xdc00 ≤ codeUnit low → codeUnit low < 0xe000 → Unescapes rest out →
      Unescapes ('\\' :: 'u' :: high ++ '\\' :: 'u' :: low ++ rest)
        (Char.ofNat (0x10000 + (codeUnit high - 0xd800) * 0x400 +
          (codeUnit low - 0xdc00)) :: out)

theorem unescapes_self (plain : '\\' ∉ text) : Unescapes text text := by
  induction text with
  | nil => exact .nil
  | cons c text induction =>
      simp only [List.mem_cons, not_or] at plain
      exact .plain (Ne.symm plain.1) (induction plain.2)

/-- Whether a string has a `\u` escape. -/
def hasUnicode : Text → Bool
  | [] => false
  | [_] => false
  | c :: d :: rest =>
      if c = '\\' then d == 'u' || hasUnicode rest
      else hasUnicode (d :: rest)

end JsonText

namespace Hnc.JsonSet

open Posix JsonText

/-! ### Decoding a string -/

variable {c : Char}

theorem decodeBody_plain (plain : c ≠ '\\') (rest : Text) :
    decodeBody false (c :: rest) = c :: decodeBody false rest := by
  simp [decodeBody, plain]

theorem decodeBody_escape (e : Char) (rest : Text) :
    decodeBody false ('\\' :: e :: rest) =
      unescapeLetter e :: decodeBody false rest := by
  simp [decodeBody]

theorem hasUnicode_plain (plain : c ≠ '\\') (rest : Text) :
    hasUnicode (c :: rest) = hasUnicode rest := by
  cases rest with
  | nil => rfl
  | cons d rest => rw [hasUnicode, if_neg plain]

theorem hasUnicode_escape (e : Char) (rest : Text) :
    hasUnicode ('\\' :: e :: rest) = (e == 'u' || hasUnicode rest) := by
  rw [hasUnicode, if_pos rfl]

theorem unescapeLetter_of_mem {e : Char} (listed : (e, c) ∈ letterEscapes) :
    unescapeLetter e = c ∧ e ≠ 'u' := by
  have all : letterEscapes.all (fun pair =>
      unescapeLetter pair.1 == pair.2 && pair.1 != 'u') = true := by
    decide
  simpa using List.all_eq_true.mp all _ listed

theorem decodeBody_append {left : Text} (plain : ∀ c ∈ left, c ≠ '\\')
    (rest : Text) :
    decodeBody false (left ++ rest) = left ++ decodeBody false rest := by
  induction left with
  | nil => rfl
  | cons c left induction =>
      rw [List.cons_append, decodeBody_plain (plain c (by simp)),
        induction fun d member => plain d (by simp [member])]
      rfl

theorem ne_backslash_of_hex {h : Char} (hex : h ∈ hexDigits) : h ≠ '\\' := by
  rintro rfl
  exact absurd hex (by decide)

variable {body : Text}

/-- A decoded string is longer than it should be when it has a `\u` escape. -/
theorem length_decodeBody {out : Text} (unescapes : Unescapes body out) :
    out.length + (if hasUnicode body then 1 else 0) ≤
      (decodeBody false body).length := by
  induction unescapes with
  | nil => simp [hasUnicode]
  | plain plain _ induction =>
      rw [decodeBody_plain plain, hasUnicode_plain plain]
      simp only [List.length_cons]
      omega
  | letter listed _ induction =>
      have noUnicode := (unescapeLetter_of_mem listed).2
      rw [decodeBody_escape, hasUnicode_escape]
      simp only [List.length_cons, Bool.false_or,
        beq_eq_false_iff_ne.mpr noUnicode]
      omega
  | @unicode digits rest out four hex _ _ induction =>
      have tail := decodeBody_append
        (fun c member => ne_backslash_of_hex (hex c member)) rest
      rw [List.cons_append, List.cons_append, decodeBody_escape,
        hasUnicode_escape, tail]
      simp [four]
      omega
  | @surrogates high low rest out fourHigh fourLow hex _ _ _ _ _ induction =>
      have plainHigh : ∀ c ∈ high, c ≠ '\\' :=
        fun c member => ne_backslash_of_hex (hex c (by simp [member]))
      have plainLow : ∀ c ∈ low, c ≠ '\\' :=
        fun c member => ne_backslash_of_hex (hex c (by simp [member]))
      simp only [List.cons_append, List.append_assoc, decodeBody_escape,
        hasUnicode_escape, decodeBody_append plainHigh,
        decodeBody_append plainLow]
      simp [fourLow]
      omega

/-- What the decoder makes of a string without `\u` escapes. -/
theorem unescapes_decodeBody (chars : Chars body)
    (noUnicode : hasUnicode body = false) :
    Unescapes body (decodeBody false body) := by
  induction chars with
  | nil => exact .nil
  | unescaped _ _ slash _ induction =>
      rw [hasUnicode_plain slash] at noUnicode
      rw [decodeBody_plain slash]
      exact .plain slash (induction noUnicode)
  | @escape e rest letter _ induction =>
      rw [hasUnicode_escape, Bool.or_eq_false_iff] at noUnicode
      refine .letter ?_ (induction noUnicode.2)
      have all : ("\"\\/bfnrt".toList).all (fun e =>
          (e, unescapeLetter e) ∈ letterEscapes) = true := by
        decide
      simpa using List.all_eq_true.mp all _ letter
  | unicode _ _ _ => simp [hasUnicode] at noUnicode

theorem unescapes_decodeBody_iff (chars : Chars body) :
    Unescapes body (decodeBody false body) ↔ hasUnicode body = false := by
  constructor
  · intro unescapes
    have length := length_decodeBody unescapes
    by_contra unicode
    rw [if_pos (by simpa using unicode)] at length
    omega
  · exact unescapes_decodeBody chars

/-- A string is printed without quotes and escapes, any other value as it is
written. -/
def Prints (out : Text) : Json → Prop
  | .string body => ∃ text, Unescapes body text ∧ out = text ++ ['\n']
  | value => ∃ text, Derives .value text value ∧ out = text ++ ['\n']

/-- A value without `\u` escapes, if it is a string. -/
def Printable : Json → Prop
  | .string body => hasUnicode body = false
  | _ => True

theorem captured_line (value : Val text) : captured (text ++ ['\n']) = text := by
  obtain ⟨init, c, rfl, solid⟩ := value.last
  have other : c ≠ '\n' := by
    rintro rfl
    exact absurd solid (by decide)
  simp [captured, other]

theorem printLiteral_string (body : Text) :
    printLiteral (quote body ++ ['\n']) = decodeBody false body ++ ['\n'] := by
  have raw : captured (quote body ++ ['\n']) = quote body := by
    simp [captured, quote]
  have inner : (quote body).tail.dropLast = body := by
    simp [quote]
  have quotes : (quote body).head? = some '"' ∧
      (quote body).getLast? = some '"' := by
    refine ⟨rfl, ?_⟩
    exact List.getLast?_concat
  simp only [printLiteral, raw, if_true, decodeStringLiteral, quotes, inner,
    and_self]

theorem printLiteral_other (value : Val text) (noString : text.head? ≠ some '"') :
    printLiteral (text ++ ['\n']) = text ++ ['\n'] := by
  simp only [printLiteral, captured_line value, if_neg noString]

variable {value : Json}

/-- What is printed for a value is right unless it has a `\u` escape. -/
theorem prints_iff (derives : Derives .value text value) :
    Prints (printLiteral (text ++ ['\n'])) value ↔ Printable value := by
  have other : text.head? ≠ some '"' →
      ∃ same, Derives .value same value ∧
        printLiteral (text ++ ['\n']) = same ++ ['\n'] :=
    fun noString => ⟨text, derives, printLiteral_other derives.val noString⟩
  cases derives with
  | string chars =>
      rw [printLiteral_string, Printable, ← unescapes_decodeBody_iff chars]
      constructor
      · rintro ⟨text, unescapes, same⟩
        rw [List.append_cancel_right same]
        exact unescapes
      · exact fun unescapes => ⟨_, unescapes, rfl⟩
  | number number =>
      refine iff_of_true (other ?_) trivial
      obtain ⟨c, rest, rfl, first⟩ := number.head
      rcases first with rfl | digit
      · simp
      · intro quote
        cases quote
        exact absurd digit (by decide)
  | _ => exact iff_of_true (other (by simp)) trivial

theorem findMember_means {members : List Member}
    {entries : List (Text × Json)}
    (means : List.Forall₂ Member.Means members entries) (name : Text) :
    (findMember name members = none ∧
      (entries.find? fun entry => entry.1 = name) = none) ∨
    ∃ m after value, findMember name members = some (m, after) ∧
      (entries.find? fun entry => entry.1 = name) = some (name, value) ∧
      (name, value) ∈ entries ∧ m.Means (name, value) := by
  induction means with
  | nil => exact .inl ⟨rfl, rfl⟩
  | @cons m entry members entries first _ induction =>
      obtain ⟨entryName, value⟩ := entry
      have named : entryName = m.key := first.name
      subst named
      by_cases same : m.key = name
      · right
        subst same
        exact ⟨m, members, value, by simp [findMember], by simp, by simp, first⟩
      · rcases induction with ⟨absent, missing⟩ |
          ⟨found, after, other, hit, listed, member, meant⟩
        · exact .inl ⟨by simp [findMember, same, absent],
            by simp [same, missing]⟩
        · exact .inr ⟨found, after, other, by simp [findMember, same, hit],
            by simp [same, listed], by simp [member], meant⟩

theorem memberOf_means {m : Member} {entry : Text × Json}
    (means : m.Means entry) (plain : entry.2.Plain) (behind target : Text) :
    (HncJson.memberOf (m.fromValue ++ behind) (m.trail ++ behind) target =
        none ∧ entry.2.get target = none) ∨
    ∃ (found : Member) (after : List Member) (value : Json),
      HncJson.memberOf (m.fromValue ++ behind) (m.trail ++ behind) target =
        some (HncJson.foundAt found after (m.trail ++ behind)) ∧
      entry.2.get target = some value ∧ value.Plain ∧
      found.Means (target, value) := by
  obtain ⟨name, tree⟩ := entry
  have derives := means.value
  by_cases opens : m.val.head? = some '{'
  · obtain ⟨o, entries, text, isObject, space, inside⟩ :=
      derives.object_inv opens
    subst isObject
    obtain _ | _ | _ | _ | _ | ⟨names, values⟩ := plain
    have wf : o.Wf := by
      apply wf_of_means space inside
      intro member listed
      obtain ⟨entry, inEntries, meant⟩ := exists_meaning inside listed
      rw [← meant.name]
      exact names entry inEntries
    rw [HncJson.memberOf_obj wf.laid text, findMember_escapeName wf.members,
      Json.get]
    rcases findMember_means inside target with ⟨absent, missing⟩ |
      ⟨found, after, value, hit, listed, member, meant⟩
    · exact .inl ⟨by rw [absent]; rfl, by rw [missing]; rfl⟩
    · exact .inr ⟨found, after, value, by rw [hit]; rfl, by rw [listed]; rfl,
        values _ member, meant⟩
  · left
    refine ⟨HncJson.memberOf_other means.shaped opens behind _ target, ?_⟩
    cases tree with
    | object entries =>
        obtain ⟨o, text, _⟩ := derives.object_members
        rw [text] at opens
        simp [Obj.render] at opens
    | _ => rfl

/-- The value of a field of a device. -/
def lookup (tree : Json) (mac key : Text) : Option Json :=
  (tree.get "devices".toList).bind fun devices =>
    (devices.get mac).bind fun device => device.get key

section Files

variable {file : Text} {entries : List (Text × Json)}
  (denotes : Denotes file (.object entries)) (plain : (Json.object entries).Plain)

include denotes plain

/-- The object of a file, and what its programs read. -/
theorem exists_object : ∃ (o : Obj) (pre post : Text), o.Wf ∧
    slurp file = pre ++ (o.render ++ post) ∧ blank pre = true ∧
    List.Forall₂ Member.Means o.members entries ∧
    ∀ entry ∈ entries, entry.2.Plain := by
  obtain ⟨before, middle, after, split, beforeBlank, derives, afterBlank⟩ :=
    denotes
  obtain ⟨o, text, space, means⟩ := derives.object_members
  obtain _ | _ | _ | _ | _ | ⟨names, values⟩ := plain
  obtain ⟨pre, post, read, preBlank, _⟩ := slurp_obj
    (show file = before ++ (o.render ++ after) by rw [split, text])
    beforeBlank afterBlank
  refine ⟨o, pre, post, ?_, read, preBlank, means, values⟩
  apply wf_of_means space means
  intro member listed
  obtain ⟨entry, inEntries, meant⟩ := exists_meaning means listed
  rw [← meant.name]
  exact names entry inEntries

theorem getTopInner_denotes (key : Text) :
    (HncJson.getTopInner key file = .error 3 ∧
      (Json.object entries).get key = none) ∨
    ∃ value text, HncJson.getTopInner key file = .ok (text ++ ['\n']) ∧
      (Json.object entries).get key = some value ∧
      Derives .value text value := by
  obtain ⟨o, pre, post, wf, read, preBlank, means, _⟩ :=
    exists_object denotes plain
  rw [HncJson.getTopInner_obj wf preBlank read, HncJson.topAnswer, Json.get]
  rcases findMember_means means key with ⟨absent, missing⟩ |
    ⟨found, after, value, hit, listed, _, meant⟩
  · exact .inl ⟨by rw [absent], by rw [missing]; rfl⟩
  · exact .inr ⟨value, found.val, by rw [hit], by rw [listed]; rfl, meant.value⟩

theorem getDeviceInner_denotes (mac key : Text) :
    (HncJson.getDeviceInner mac key file = .error 3 ∧
      lookup (.object entries) mac key = none) ∨
    ∃ value text, HncJson.getDeviceInner mac key file = .ok (text ++ ['\n']) ∧
      lookup (.object entries) mac key = some value ∧
      Derives .value text value := by
  obtain ⟨o, pre, post, wf, read, preBlank, means, values⟩ :=
    exists_object denotes plain
  rw [HncJson.getDeviceInner_obj wf preBlank read, lookup]
  have root : ∀ name, (Json.object entries).get name =
      (entries.find? fun entry => entry.1 = name).map Prod.snd :=
    fun _ => rfl
  rcases findMember_means means "devices".toList with ⟨absent, missing⟩ |
    ⟨devices, after, value, hit, listed, member, meant⟩
  · exact .inl ⟨by rw [absent], by rw [root, missing]; rfl⟩
  rw [hit, root, listed]
  simp only [Option.map_some, Option.bind_some]
  rcases memberOf_means meant (values _ member) (closing after post) mac with
    ⟨absent, missing⟩ | ⟨device, others, object, found, isDevice, objectPlain,
      deviceMeans⟩
  · exact .inl ⟨by rw [absent], by rw [missing]; rfl⟩
  rw [found, isDevice]
  simp only [HncJson.foundAt]
  rcases memberOf_means deviceMeans objectPlain
      (closing others (devices.trail ++ closing after post)) key with
    ⟨absent, missing⟩ | ⟨field, rest, value, found, isField, _, fieldMeans⟩
  · exact .inl ⟨by rw [absent], missing⟩
  · refine .inr ⟨value, field.val, ?_, isField, fieldMeans.value⟩
    rw [found]
    simp only [HncJson.foundAt, HncJson.upTo_fromValue,
      HncJson.trimWs_val fieldMeans.value.val]

end Files

/-! ### The getters -/

section Getters

variable (patterns : Patterns)

/-- `device_get` prints the field, and nothing when there is none. -/
def DeviceGetRight (file : Text) (tree : Json) (mac key : Text) : Prop :=
  match lookup tree mac key with
  | some value => Prints (deviceGet patterns file mac key) value
  | none => deviceGet patterns file mac key = []

/-- `top_get` prints the member, and nothing when there is none. -/
def TopGetRight (file : Text) (tree : Json) (key : Text) : Prop :=
  match tree.get key with
  | some value => Prints (topGet patterns file key) value
  | none => topGet patterns file key = []

/-- The name of a device stands in a paragraph of the file, and behind it the
key with a colon and a value. -/
def DeviceMatch (mac key file : Text) : Prop :=
  ∃ record ∈ paragraphs file, ∃ tail rest value,
    tailFrom ('"' :: mac ++ ['"']) record = some tail ∧
    patterns.behind key tail = some rest ∧ scannedValue rest = some value

/-- The key stands with a colon in a line of the file. -/
def TopMatch (key file : Text) : Prop :=
  ∃ line ∈ records file, ∃ found, patterns.bare key line = some found

/-- When `device_get` does what it should. -/
def DeviceGetMeets (file : Text) (tree : Json) (mac key : Text) : Prop :=
  match lookup tree mac key with
  | some value => mac ≠ [] ∧ key ≠ [] ∧ Printable value
  | none => mac = [] ∨ key = [] ∨
      (lookup tree (assign mac) (assign key) = none ∧
        ¬ DeviceMatch patterns (assign mac) (assign key) file)

/-- When `top_get` does what it should. -/
def TopGetMeets (file : Text) (tree : Json) (key : Text) : Prop :=
  match tree.get key with
  | some value => Printable value
  | none => tree.get (assign key) = none ∧ ¬ TopMatch patterns key file

theorem printLiteral_ne_nil (printed : Text) : printLiteral printed ≠ [] := by
  simp only [printLiteral, decodeStringLiteral]
  split
  · split <;> simp
  · simp

theorem not_prints_nil (value : Json) : ¬ Prints [] value := by
  cases value <;> simp [Prints]

theorem scanDevice_eq_none (mac key file : Text) :
    scanDevice patterns mac key file = none ↔
      ¬ DeviceMatch patterns mac key file := by
  rw [scanDevice, List.findSome?_eq_none_iff]
  constructor
  · rintro none ⟨record, member, tail, rest, value, name, behind, scanned⟩
    have nothing := none record member
    rw [name, Option.bind_some, behind, Option.bind_some, scanned] at nothing
    cases nothing
  · intro unmatched record member
    by_contra some
    obtain ⟨value, found⟩ := Option.ne_none_iff_exists'.mp some
    obtain ⟨tail, name, later⟩ := Option.bind_eq_some_iff.mp found
    obtain ⟨rest, behind, scanned⟩ := Option.bind_eq_some_iff.mp later
    exact unmatched ⟨record, member, tail, rest, value, name, behind, scanned⟩

theorem scanTop_eq_nil
    (found : ∀ key line, patterns.string key line ≠ none →
      patterns.bare key line ≠ none) (key file : Text) :
    scanTop patterns key file = [] ↔ ¬ TopMatch patterns key file := by
  have bare : (records file).findSome? (patterns.bare key) = none ↔
      ¬ TopMatch patterns key file := by
    rw [List.findSome?_eq_none_iff, TopMatch]
    simp [Option.eq_none_iff_forall_ne_some]
  have string : (records file).findSome? (patterns.bare key) = none →
      (records file).findSome? (patterns.string key) = none := by
    rw [List.findSome?_eq_none_iff, List.findSome?_eq_none_iff]
    intro none line member
    by_contra some
    exact found key line some (none line member)
  rw [← bare]
  unfold scanTop
  constructor
  · intro empty
    by_contra some
    obtain ⟨line, isLine⟩ := Option.ne_none_iff_exists'.mp some
    rw [isLine] at empty
    revert empty
    simp only
    split <;> simp
  · intro none
    rw [none, string none]
    rfl

end Getters

variable {tree : Json}

theorem plain_of_get (plain : tree.Plain) {name : Text}
    (found : tree.get name = some value) : '\\' ∉ name ∧ value.Plain := by
  cases plain with
  | object names values =>
      obtain ⟨⟨entryName, entryValue⟩, hit, rfl⟩ := Option.map_eq_some_iff.mp found
      have named := List.find?_some hit
      have member := List.mem_of_find?_eq_some hit
      simp only [decide_eq_true_eq] at named
      exact ⟨named ▸ names _ member, values _ member⟩
  | _ => cases found

theorem plain_of_lookup (plain : tree.Plain) {mac key : Text}
    (found : lookup tree mac key = some value) :
    assign mac = mac ∧ assign key = key := by
  obtain ⟨devices, isDevices, later⟩ := Option.bind_eq_some_iff.mp found
  obtain ⟨device, isDevice, isField⟩ := Option.bind_eq_some_iff.mp later
  have devicesPlain := (plain_of_get plain isDevices).2
  have atMac := plain_of_get devicesPlain isDevice
  have atKey := plain_of_get atMac.2 isField
  exact ⟨assign_of_no_backslash atMac.1, assign_of_no_backslash atKey.1⟩

section Files

variable (patterns : Patterns) {file : Text} {entries : List (Text × Json)}
  (denotes : Denotes file (.object entries)) (plain : (Json.object entries).Plain)

include denotes plain

theorem deviceGet_right_iff (mac key : Text) :
    DeviceGetRight patterns file (.object entries) mac key ↔
      DeviceGetMeets patterns file (.object entries) mac key := by
  have valid := (Guard.jsonGuard_iff file).mpr ⟨_, denotes⟩
  have answer := getDeviceInner_denotes denotes plain (assign mac) (assign key)
  by_cases empty : mac = [] ∨ key = []
  · have nothing : deviceGet patterns file mac key = [] := by
      rw [deviceGet, if_pos empty]
    rw [DeviceGetRight, DeviceGetMeets, nothing]
    cases lookup (.object entries) mac key with
    | none => exact iff_of_true rfl (by tauto)
    | some value =>
        exact iff_of_false (not_prints_nil value) (by tauto)
  have named := not_or.mp empty
  rw [DeviceGetRight, DeviceGetMeets, deviceGet, if_neg empty,
    HncJson.getDevice, if_neg empty, if_pos valid]
  cases asked : lookup (.object entries) mac key with
  | some value =>
      obtain ⟨sameMac, sameKey⟩ := plain_of_lookup plain asked
      rw [sameMac, sameKey] at answer ⊢
      rcases answer with ⟨_, missing⟩ | ⟨other, text, read, found, derives⟩
      · rw [asked] at missing
        cases missing
      · rw [asked] at found
        cases found
        rw [read]
        simp [named, prints_iff derives]
  | none =>
      rcases answer with ⟨failed, missing⟩ | ⟨value, text, read, found, _⟩
      · rw [failed, missing, ← scanDevice_eq_none]
        cases scanDevice patterns (assign mac) (assign key) file with
        | none => simp
        | some value => simp [named]
      · rw [read, found]
        simp [named, printLiteral_ne_nil]

theorem topGet_right_iff
    (found : ∀ key line, patterns.string key line ≠ none →
      patterns.bare key line ≠ none) (key : Text) :
    TopGetRight patterns file (.object entries) key ↔
      TopGetMeets patterns file (.object entries) key := by
  have valid := (Guard.jsonGuard_iff file).mpr ⟨_, denotes⟩
  have answer := getTopInner_denotes denotes plain (assign key)
  rw [TopGetRight, TopGetMeets, topGet, HncJson.getTop, if_pos valid]
  cases asked : (Json.object entries).get key with
  | some value =>
      have same := assign_of_no_backslash (plain_of_get plain asked).1
      rw [same] at answer ⊢
      rcases answer with ⟨_, missing⟩ | ⟨other, text, read, listed, derives⟩
      · rw [asked] at missing
        cases missing
      · rw [asked] at listed
        cases listed
        rw [read]
        exact prints_iff derives
  | none =>
      rcases answer with ⟨failed, missing⟩ | ⟨value, text, read, listed, _⟩
      · rw [failed, missing, ← scanTop_eq_nil patterns found]
        simp
      · rw [read, listed]
        simp [printLiteral_ne_nil]

end Files

theorem leftmost_ne_none {Left Right : Type} {left : Text → Option Left}
    {right : Text → Option Right}
    (found : ∀ here, left here ≠ none → right here ≠ none)
    (matched : leftmost left text ≠ none) : leftmost right text ≠ none := by
  induction text with
  | nil => exact absurd rfl matched
  | cons c rest induction =>
      rw [leftmost] at matched ⊢
      cases here : right (c :: rest) with
      | some value => simp
      | none =>
          have none : left (c :: rest) = none := by
            by_contra some
            exact found _ some here
          rw [none] at matched
          exact induction matched

theorem literal_found (key line : Text)
    (matched : Patterns.literal.string key line ≠ none) :
    Patterns.literal.bare key line ≠ none := by
  simp only [Patterns.literal, ne_eq, Option.map_eq_none_iff] at matched ⊢
  apply leftmost_ne_none _ matched
  intro here string
  simp only [ne_eq, Option.map_eq_none_iff]
  intro none
  rw [none] at string
  exact string rfl

theorem plain_single {name : Text} (plain : '\\' ∉ name) (inner : tree.Plain) :
    (Json.object [(name, tree)]).Plain := by
  refine .object ?_ ?_
  · simpa using plain
  · simpa using inner

/-- A device without fields, and another one with a mark. -/
def twoDevices : Text :=
  "\x7b\"devices\": \x7b\"m\": \x7b\x7d,\"n\": \x7b\"mark_id\": 1\x7d\x7d\x7d\n".toList

def twoDevicesTree : List (Text × Json) :=
  [("m".toList, .object []),
    ("n".toList, .object [("mark_id".toList, .number "1".toList)])]

theorem denotes_twoDevices : Denotes twoDevices
    (.object [("devices".toList, .object twoDevicesTree)]) := by
  have mark := derives_oneField (show escapeFree "mark_id".toList by decide)
    derives_one
  have empty : (written [] "m".toList "\x7b\x7d".toList).Means
      ("m".toList, .object []) :=
    ⟨⟨rfl, rfl, rfl, rfl⟩, chars_of_escapeFree (by decide), rfl,
      @Derives.noMembers [] rfl⟩
  have marked : (written [] "n".toList
      (oneField "mark_id".toList "1".toList).render).Means
      ("n".toList, .object [("mark_id".toList, .number "1".toList)]) :=
    ⟨⟨rfl, rfl, rfl, rfl⟩, chars_of_escapeFree (by decide), rfl, mark⟩
  have devices := derives_object (show blank (Obj.mk [_, _] []).hollow = true
    from rfl) (.cons empty (.cons marked .nil))
  have root := derives_oneField
    (show escapeFree "devices".toList by decide) devices
  exact ⟨[], _, ['\n'], by decide, rfl, root, rfl⟩

theorem plain_twoDevices :
    (Json.object [("devices".toList, .object twoDevicesTree)]).Plain := by
  apply plain_single (by decide)
  refine .object ?_ ?_
  · simp only [twoDevicesTree, List.forall_mem_cons]
    exact ⟨by decide, by decide, by simp⟩
  · simp only [twoDevicesTree, List.forall_mem_cons]
    exact ⟨.object (by simp) (by simp),
      plain_single (by decide) (.number _), by simp⟩

theorem deviceGet_twoDevices :
    deviceGet .literal twoDevices "m".toList "mark_id".toList =
      "1\n".toList := by
  decide +kernel

end Hnc.JsonSet
