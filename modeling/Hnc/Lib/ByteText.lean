import Hnc.Lib.Posix
import Mathlib.Data.List.DropRight

/-!
# The bytes of a text

C code reads files byte by byte.  A byte below 128 is always a whole character
of the text, so ASCII patterns found in the bytes stand in the text.
-/

variable {c : Char} {text : Text}

namespace Posix

theorem toNat_of_valid {code : Nat} (valid : code.isValidChar) :
    (Char.ofNat code).toNat = code := by
  have char : Char.ofNat code = Char.ofNatAux code valid := dif_pos valid
  rw [char]
  rfl

def utf8 (text : Text) : List UInt8 :=
  text.flatMap String.utf8EncodeChar

theorem utf8_cons (c : Char) (text : Text) :
    utf8 (c :: text) = String.utf8EncodeChar c ++ utf8 text :=
  rfl

theorem utf8_append (left right : Text) :
    utf8 (left ++ right) = utf8 left ++ utf8 right :=
  List.flatMap_append

theorem encode_of_ascii {b : UInt8} (member : b ∈ String.utf8EncodeChar c)
    (ascii : b.toNat < 128) :
    String.utf8EncodeChar c = [b] ∧ b.toNat = c.toNat := by
  unfold String.utf8EncodeChar at member ⊢
  simp only at member ⊢
  split at member
  · rename_i low
    have same : b = UInt8.ofNat c.val.toNat := by simpa using member
    subst same
    refine ⟨by rw [if_pos low], ?_⟩
    have small : c.val.toNat < 256 := by omega
    exact Nat.mod_eq_of_lt small
  · exfalso
    split at member
    · simp only [List.mem_cons, List.not_mem_nil, or_false] at member
      rcases member with rfl | rfl <;>
        simp only [UInt8.toNat_ofNat'] at ascii <;> omega
    · split at member
      · simp only [List.mem_cons, List.not_mem_nil, or_false] at member
        rcases member with rfl | rfl | rfl <;>
          simp only [UInt8.toNat_ofNat'] at ascii <;> omega
      · simp only [List.mem_cons, List.not_mem_nil, or_false] at member
        rcases member with rfl | rfl | rfl | rfl <;>
          simp only [UInt8.toNat_ofNat'] at ascii <;> omega

theorem utf8_of_ascii {text : Text} (ascii : ∀ c ∈ text, c.toNat < 128) :
    utf8 text = text.map fun c => UInt8.ofNat c.toNat := by
  induction text with
  | nil => rfl
  | cons c text induction =>
      have small : c.val.toNat ≤ 127 := Nat.le_of_lt_succ (ascii c (by simp))
      have single : String.utf8EncodeChar c = [UInt8.ofNat c.toNat] := by
        unfold String.utf8EncodeChar
        simp only [small]
        rfl
      rw [utf8_cons, single,
        induction fun other member => ascii other (by simp [member])]
      rfl

theorem utf8_split {text : Text} {left rest : List UInt8} {b : UInt8}
    (split : utf8 text = left ++ b :: rest) (ascii : b.toNat < 128) :
    ∃ before c behind, text = before ++ c :: behind ∧ utf8 before = left ∧
      c.toNat = b.toNat ∧ utf8 behind = rest := by
  induction text generalizing left with
  | nil => simp [utf8] at split
  | cons c text induction =>
      rw [utf8_cons] at split
      rcases List.append_eq_append_iff.mp split with
        ⟨more, front, later⟩ | ⟨inside, front, later⟩
      · obtain ⟨before, d, behind, same, encoded, code, tail⟩ := induction later
        refine ⟨c :: before, d, behind, by rw [same]; rfl, ?_, code, tail⟩
        rw [utf8_cons, encoded, front]
      · cases inside with
        | nil =>
            simp only [List.append_nil] at front later
            obtain ⟨before, d, behind, same, encoded, code, tail⟩ :=
              @induction [] later.symm
            refine ⟨c :: before, d, behind, by rw [same]; rfl, ?_, code, tail⟩
            rw [utf8_cons, encoded, front, List.append_nil]
        | cons head inside =>
            obtain ⟨rfl, later⟩ := later
            obtain ⟨single, code⟩ := encode_of_ascii
              (show b ∈ String.utf8EncodeChar c by simp [front]) ascii
            have alone : left = [] ∧ inside = [] := by
              rw [single] at front
              cases left with
              | nil =>
                  refine ⟨rfl, ?_⟩
                  simpa using front.symm
              | cons first left =>
                  have long := congrArg List.length front
                  simp at long
            obtain ⟨rfl, rfl⟩ := alone
            exact ⟨[], c, text, rfl, rfl, code.symm, by simpa using later.symm⟩

theorem utf8_eq_nil (empty : utf8 text = []) : text = [] := by
  cases text with
  | nil => rfl
  | cons c text =>
      rw [utf8_cons] at empty
      simp [String.utf8EncodeChar_ne_nil] at empty

theorem utf8_front {pattern rest : List UInt8}
    (split : utf8 text = pattern ++ rest) (ascii : ∀ b ∈ pattern, b.toNat < 128) :
    ∃ inner behind, text = inner ++ behind ∧
      inner.map Char.toNat = pattern.map UInt8.toNat := by
  induction pattern generalizing text with
  | nil => exact ⟨[], text, rfl, rfl⟩
  | cons b pattern induction =>
      obtain ⟨before, c, behind, rfl, empty, code, tail⟩ :=
        @utf8_split text [] (pattern ++ rest) b split (ascii b (by simp))
      obtain ⟨inner, last, rfl, codes⟩ := induction tail
        fun other member => ascii other (by simp [member])
      refine ⟨c :: inner, last, ?_, by simp [code, codes]⟩
      rw [utf8_eq_nil empty]
      rfl

/-- ASCII bytes in a row are characters in a row. -/
theorem utf8_window {text : Text} {left pattern rest : List UInt8} {b : UInt8}
    (split : utf8 text = left ++ (b :: pattern ++ rest))
    (ascii : ∀ other ∈ b :: pattern, other.toNat < 128) :
    ∃ before inner behind, text = before ++ (inner ++ behind) ∧
      inner.map Char.toNat = (b :: pattern).map UInt8.toNat := by
  obtain ⟨before, c, behind, rfl, _, code, tail⟩ :=
    utf8_split split (ascii b (by simp))
  obtain ⟨inner, last, rfl, codes⟩ := utf8_front tail
    fun other member => ascii other (by simp [member])
  exact ⟨before, c :: inner, last, rfl, by simp [code, codes]⟩

end Posix

/-!
## Bytes as characters

A C string is kept as a text with one character for each byte.  The encoded
texts are among them, and an ASCII byte of one of those is a character of the
text, so that cutting there leaves whole characters.
-/

namespace Posix

def asChars (bytes : List UInt8) : Text :=
  bytes.map fun b => Char.ofNat b.toNat

def toBytes (text : Text) : List UInt8 :=
  text.map fun c => UInt8.ofNat c.toNat

/-- The bytes of a text. -/
def encode (text : Text) : Text :=
  asChars (utf8 text)

/-- Whole characters. -/
def IsUtf8 (bytes : Text) : Prop :=
  ∃ text, encode text = bytes

theorem encode_append (left right : Text) :
    encode (left ++ right) = encode left ++ encode right := by
  rw [encode, utf8_append, asChars, List.map_append]
  rfl

theorem encode_cons (c : Char) (text : Text) :
    encode (c :: text) = encode [c] ++ encode text :=
  encode_append [c] text

theorem encode_flatMap {Item : Type} (items : List Item) (part : Item → Text) :
    encode (items.flatMap part) = items.flatMap fun item =>
      encode (part item) := by
  induction items with
  | nil => rfl
  | cons item items induction =>
      rw [List.flatMap_cons, encode_append, induction, List.flatMap_cons]

theorem toNat_ofByte (b : UInt8) : (Char.ofNat b.toNat).toNat = b.toNat := by
  have small : b.toNat < 256 := UInt8.toNat_lt b
  have valid : b.toNat.isValidChar := .inl (by omega)
  exact toNat_of_valid valid

theorem ofByte_toNat (byte : c.toNat < 256) :
    Char.ofNat (UInt8.ofNat c.toNat).toNat = c := by
  rw [UInt8.toNat_ofNat', Nat.mod_eq_of_lt (show c.toNat < 2 ^ 8 from byte)]
  exact Char.ofNat_toNat c

theorem asChars_toBytes (bytes : ∀ c ∈ text, c.toNat < 256) :
    asChars (toBytes text) = text := by
  induction text with
  | nil => rfl
  | cons c text induction =>
      have rest := induction fun d member => bytes d (by simp [member])
      rw [toBytes, asChars] at rest ⊢
      rw [List.map_cons, List.map_cons, rest, ofByte_toNat (bytes c (by simp))]

theorem toBytes_asChars (bytes : List UInt8) : toBytes (asChars bytes) = bytes := by
  rw [toBytes, asChars, List.map_map]
  apply List.map_id''
  intro b
  rw [Function.comp_apply, toNat_ofByte]
  exact UInt8.ofNat_toNat

theorem utf8_injective : Function.Injective utf8 := by
  intro left right same
  have bytes : left.utf8Encode = right.utf8Encode :=
    congrArg List.toByteArray same
  have read := congrArg ByteArray.utf8Decode? bytes
  simpa using read

theorem encode_injective : Function.Injective encode := by
  intro left right same
  apply utf8_injective
  have bytes := congrArg toBytes same
  rwa [encode, encode, toBytes_asChars, toBytes_asChars] at bytes

/-- ASCII stands for itself. -/
theorem encode_ascii (ascii : ∀ c ∈ text, c.toNat < 128) :
    encode text = text := by
  have bytes : ∀ c ∈ text, c.toNat < 256 := fun c member =>
    Nat.lt_trans (ascii c member) (by decide)
  rw [encode, utf8_of_ascii ascii]
  exact asChars_toBytes bytes

variable {b : Char}

/-- The bytes of a character that is not ASCII are not ASCII. -/
theorem high_of_mem_encode (member : b ∈ encode [c]) (high : 128 ≤ c.toNat) :
    128 ≤ b.toNat := by
  obtain ⟨byte, inside, rfl⟩ := List.mem_map.mp member
  rw [utf8, List.flatMap_singleton] at inside
  rw [toNat_ofByte]
  by_contra low
  obtain ⟨_, same⟩ := encode_of_ascii inside (Nat.lt_of_not_le low)
  omega

theorem eq_of_mem_encode (member : b ∈ encode [c]) (ascii : b.toNat < 128) :
    b = c := by
  by_cases low : c.toNat < 128
  · rw [encode_ascii (by simpa using low)] at member
    simpa using member
  · have high := high_of_mem_encode member (Nat.le_of_not_lt low)
    omega

theorem encode_eq_nil (empty : encode text = []) : text = [] :=
  utf8_eq_nil (List.map_eq_nil_iff.mp empty)

variable {rest left : Text}

theorem encode_split (split : encode text = left ++ c :: rest)
    (ascii : c.toNat < 128) :
    ∃ before behind, text = before ++ c :: behind ∧ encode before = left ∧
      encode behind = rest := by
  obtain ⟨leftBytes, others, bytes, leftText, othersText⟩ :=
    List.map_eq_append_iff.mp split
  obtain ⟨b, restBytes, rfl, byte, restText⟩ :=
    List.map_eq_cons_iff.mp othersText
  have code : b.toNat = c.toNat := by rw [← byte, toNat_ofByte]
  obtain ⟨before, d, behind, rfl, front, same, tail⟩ :=
    utf8_split bytes (by omega)
  have char : d = c := Char.toNat_inj.mp (same.trans code)
  subst char
  refine ⟨before, behind, rfl, ?_, ?_⟩
  · rw [encode, front]
    exact leftText
  · rw [encode, tail]
    exact restText

theorem mem_of_mem_encode (member : b ∈ encode text) (ascii : b.toNat < 128) :
    b ∈ text := by
  obtain ⟨left, rest, split⟩ := List.append_of_mem member
  obtain ⟨before, behind, same, _, _⟩ := encode_split split ascii
  rw [same]
  simp

namespace IsUtf8

theorem encode (text : Text) : IsUtf8 (encode text) :=
  ⟨text, rfl⟩

theorem of_ascii (ascii : ∀ c ∈ text, c.toNat < 128) : IsUtf8 text :=
  ⟨text, encode_ascii ascii⟩

theorem append {right : Text} (first : IsUtf8 left) (second : IsUtf8 right) :
    IsUtf8 (left ++ right) := by
  obtain ⟨a, rfl⟩ := first
  obtain ⟨b, rfl⟩ := second
  exact ⟨a ++ b, encode_append a b⟩

theorem left_of (whole : IsUtf8 (left ++ c :: rest)) (ascii : c.toNat < 128) :
    IsUtf8 left := by
  obtain ⟨text, split⟩ := whole
  obtain ⟨before, _, _, same, _⟩ := encode_split split ascii
  exact ⟨before, same⟩

theorem right_of (whole : IsUtf8 (left ++ c :: rest)) (ascii : c.toNat < 128) :
    IsUtf8 rest := by
  obtain ⟨text, split⟩ := whole
  obtain ⟨_, behind, _, _, same⟩ := encode_split split ascii
  exact ⟨behind, same⟩

theorem takeWhile {s : Text} {keep : Char → Bool} (whole : IsUtf8 s)
    (ascii : ∀ c, keep c = false → c.toNat < 128) :
    IsUtf8 (s.takeWhile keep) := by
  have split := List.takeWhile_append_dropWhile (p := keep) (l := s)
  cases rest : s.dropWhile keep with
  | nil =>
      rw [rest, List.append_nil] at split
      rw [split]
      exact whole
  | cons c rest' =>
      rw [rest] at split
      have stop : keep c = false := by
        have head := List.head?_dropWhile_not keep s
        rw [rest] at head
        exact head
      rw [← split] at whole
      exact whole.left_of (ascii c stop)

theorem rdropWhile {s : Text} {drop : Char → Bool} (whole : IsUtf8 s)
    (ascii : ∀ c, drop c = true → c.toNat < 128) :
    IsUtf8 (s.rdropWhile drop) := by
  induction s using List.reverseRecOn with
  | nil => exact whole
  | append_singleton s c induction =>
      cases drops : drop c with
      | false =>
          rw [List.rdropWhile_concat_neg _ _ _ (by simp [drops])]
          exact whole
      | true =>
          rw [List.rdropWhile_concat_pos _ _ _ drops]
          exact induction (whole.left_of (ascii c drops))

end IsUtf8

variable {sep : Char}

theorem fields_append_left (free : sep ∉ left) (rest : Text) :
    ∃ field others, fields sep rest = field :: others ∧
      fields sep (left ++ rest) = (left ++ field) :: others := by
  induction left with
  | nil =>
      cases split : fields sep rest with
      | nil =>
          have length := fields_length sep rest
          rw [split] at length
          simp at length
      | cons field others => exact ⟨field, others, rfl, split⟩
  | cons c left induction =>
      simp only [List.mem_cons, not_or] at free
      obtain ⟨field, others, split, whole⟩ := induction free.2
      refine ⟨field, others, split, ?_⟩
      rw [List.cons_append, fields, if_neg (Ne.symm free.1), whole]
      rfl

theorem fields_encode (ascii : sep.toNat < 128) (text : Text) :
    fields sep (encode text) = (fields sep text).map encode := by
  induction text with
  | nil => rfl
  | cons c text induction =>
      rw [encode_cons]
      by_cases same : c = sep
      · subst same
        rw [encode_ascii (by simpa using ascii)]
        simp only [List.singleton_append, fields, induction]
        rfl
      · have free : sep ∉ encode [c] := fun member =>
          same (eq_of_mem_encode member ascii).symm
        obtain ⟨field, others, split, whole⟩ :=
          fields_append_left free (encode text)
        rw [whole, fields, if_neg same]
        rw [induction] at split
        cases rest : fields sep text with
        | nil =>
            rw [rest] at split
            cases split
        | cons first later =>
            rw [rest, List.map_cons, List.cons.injEq] at split
            rw [List.map_cons, encode_cons c first, split.1, split.2]

theorem IsUtf8.fields (ascii : sep.toNat < 128) (whole : IsUtf8 text) :
    ∀ field ∈ fields sep text, IsUtf8 field := by
  obtain ⟨source, rfl⟩ := whole
  intro field member
  rw [fields_encode ascii] at member
  obtain ⟨part, _, same⟩ := List.mem_map.mp member
  exact ⟨part, same⟩

theorem getLast_utf8EncodeChar {b : UInt8}
    (last : (String.utf8EncodeChar c).getLast? = some b) : b.toNat < 0xc0 := by
  unfold String.utf8EncodeChar at last
  simp only at last
  split at last
  · simp only [List.getLast?_singleton, Option.some.injEq] at last
    rw [← last, UInt8.toNat_ofNat']
    omega
  · split at last
    · simp only [List.getLast?_cons_cons, List.getLast?_singleton,
        Option.some.injEq] at last
      rw [← last, UInt8.toNat_ofNat']
      omega
    · split at last
      · simp only [List.getLast?_cons_cons, List.getLast?_singleton,
          Option.some.injEq] at last
        rw [← last, UInt8.toNat_ofNat']
        omega
      · simp only [List.getLast?_cons_cons, List.getLast?_singleton,
          Option.some.injEq] at last
        rw [← last, UInt8.toNat_ofNat']
        omega

/-- The last byte of a text is no first byte of a longer character. -/
theorem getLast_encode (last : (encode text).getLast? = some b) :
    b.toNat < 0xc0 := by
  induction text using List.reverseRecOn with
  | nil => cases last
  | append_singleton text c _ =>
      have single : utf8 [c] = String.utf8EncodeChar c := by
        simp [utf8]
      rw [encode_append, encode, encode, single, asChars, asChars,
        List.getLast?_append_of_ne_nil _ (by simp), List.getLast?_map] at last
      obtain ⟨byte, here, rfl⟩ := Option.map_eq_some_iff.mp last
      rw [toNat_ofByte]
      exact getLast_utf8EncodeChar here

end Posix
