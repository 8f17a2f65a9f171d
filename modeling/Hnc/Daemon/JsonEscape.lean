import Hnc.Daemon.WriteJson
import Hnc.Json.GetterAnswers
import Hnc.Lib.ByteText
import Hnc.Lib.CString

/-!
# What `hnc_json_escape` leaves of a long name

The loop of `hnc_json_escape` in `daemon/hotspotd/hnc_helpers.c` copies bytes
until the buffer is full or an escape does not fit.  The scan behind it then
takes a broken character away.  On the bytes of a text this leaves the escape of
as many whole characters as fit.
-/

namespace Hnc.Hotspotd

open Posix JsonText

/-- The escape of a whole text. -/
def escapeText (text : Text) : Text :=
  (encode text).flatMap escapeByte

/-- As many characters as have room for their escapes. -/
def fitting : Nat → Text → Text
  | _, [] => []
  | room, c :: text =>
      if (escapeText [c]).length ≤ room then
        c :: fitting (room - (escapeText [c]).length) text
      else []

theorem escapeText_append (left right : Text) :
    escapeText (left ++ right) = escapeText left ++ escapeText right := by
  rw [escapeText, encode_append, List.flatMap_append]
  rfl

theorem escapeText_cons (c : Char) (text : Text) :
    escapeText (c :: text) = escapeText [c] ++ escapeText text :=
  escapeText_append [c] text

theorem fitting_isPrefix (room : Nat) (text : Text) :
    fitting room text <+: text := by
  induction text generalizing room with
  | nil => exact List.prefix_rfl
  | cons c text induction =>
      rw [fitting]
      split
      · exact (List.prefix_cons_inj c).mpr (induction _)
      · exact List.nil_prefix

theorem length_fitting (room : Nat) (text : Text) :
    (escapeText (fitting room text)).length ≤ room := by
  induction text generalizing room with
  | nil => exact Nat.zero_le _
  | cons c text induction =>
      rw [fitting]
      split
      · have rest := induction (room - (escapeText [c]).length)
        rw [escapeText_cons, List.length_append]
        omega
      · exact Nat.zero_le _

variable {text : Text}

/-- Every front of the text whose escape fits is part of it. -/
theorem fitting_longest {room : Nat} {front : Text} (begins : front <+: text)
    (fits : (escapeText front).length ≤ room) : front <+: fitting room text := by
  induction text generalizing room front with
  | nil =>
      rw [List.prefix_nil.mp begins]
      exact List.nil_prefix
  | cons c text induction =>
      cases front with
      | nil => exact List.nil_prefix
      | cons d front =>
          have begins := List.cons_prefix_cons.mp begins
          obtain rfl := begins.1
          rw [escapeText_cons, List.length_append] at fits
          rw [fitting, if_pos (by omega)]
          apply (List.prefix_cons_inj d).mpr
          exact induction begins.2 (by omega)

theorem fitting_of_fits {room : Nat} (fits : (escapeText text).length ≤ room) :
    fitting room text = text := by
  have whole := fitting_longest List.prefix_rfl fits
  exact (fitting_isPrefix room text).eq_of_length_le whole.length_le

variable {n : Nat}

theorem neededBytes_of_ascii (ascii : n < 128) : neededBytes n = 0 := by
  have table : ∀ n < 128, neededBytes n = 0 := by decide +kernel
  exact table n ascii

theorem neededBytes_of_lead :
    (192 ≤ n ∧ n < 224 → neededBytes n = 1) ∧
      (224 ≤ n ∧ n < 240 → neededBytes n = 2) ∧
      (240 ≤ n ∧ n < 248 → neededBytes n = 3) := by
  have table : ∀ n < 248, (192 ≤ n ∧ n < 224 → neededBytes n = 1) ∧
      (224 ≤ n ∧ n < 240 → neededBytes n = 2) ∧
      (240 ≤ n ∧ n < 248 → neededBytes n = 3) := by
    decide +kernel
  refine ⟨?_, ?_, ?_⟩
  · intro range
    exact (table n (by omega)).1 range
  · intro range
    exact (table n (by omega)).2.1 range
  · intro range
    exact (table n (by omega)).2.2 range

variable {c : Char}

theorem isContinuation_eq (byte : c.toNat < 256) :
    isContinuation c = decide (128 ≤ c.toNat ∧ c.toNat < 192) := by
  have table : ∀ n < 256, (n &&& 0xC0 == 0x80) =
      decide (128 ≤ n ∧ n < 192) := by
    decide +kernel
  exact table c.toNat byte

theorem toNat_byteChar (byte : n < 256) :
    (Char.ofNat (UInt8.ofNat n).toNat).toNat = n := by
  rw [toNat_ofByte]
  exact Nat.mod_eq_of_lt byte

theorem isContinuation_byteChar (n : Nat) :
    isContinuation (Char.ofNat (UInt8.ofNat (n % 0x40 + 0x80)).toNat) =
      true := by
  have code := toNat_byteChar (show n % 0x40 + 0x80 < 256 by omega)
  rw [isContinuation_eq (by omega)]
  exact decide_eq_true (by omega)

theorem not_isContinuation_byteChar (byte : n < 256) (range : n < 128 ∨ 192 ≤ n) :
    isContinuation (Char.ofNat (UInt8.ofNat n).toNat) = false := by
  have code := toNat_byteChar byte
  rw [isContinuation_eq (by omega)]
  exact decide_eq_false (by omega)

/-- The bytes of a character: the first one says how many follow. -/
theorem encode_singleton (c : Char) :
    ∃ lead more, encode [c] = lead :: more ∧ isContinuation lead = false ∧
      (∀ b ∈ more, isContinuation b = true) ∧
      more.length = neededBytes lead.toNat := by
  have single : encode [c] = asChars (String.utf8EncodeChar c) := by
    rw [encode, utf8, List.flatMap_singleton]
  rw [single]
  unfold String.utf8EncodeChar
  dsimp only
  split
  · refine ⟨_, [], rfl, not_isContinuation_byteChar (by omega) (by omega),
      by simp, ?_⟩
    rw [toNat_byteChar (by omega), neededBytes_of_ascii (by omega)]
    rfl
  · split
    · refine ⟨_, [_], rfl, not_isContinuation_byteChar (by omega) (by omega),
        ?_, ?_⟩
      · exact List.forall_mem_singleton.mpr (isContinuation_byteChar _)
      · rw [toNat_byteChar (by omega), neededBytes_of_lead.1 (by omega)]
        rfl
    · split
      · refine ⟨_, [_, _], rfl,
          not_isContinuation_byteChar (by omega) (by omega), ?_, ?_⟩
        · exact List.forall_mem_cons.mpr ⟨isContinuation_byteChar _,
            List.forall_mem_singleton.mpr (isContinuation_byteChar _)⟩
        · rw [toNat_byteChar (by omega), neededBytes_of_lead.2.1 (by omega)]
          rfl
      · refine ⟨_, [_, _, _], rfl,
          not_isContinuation_byteChar (by omega) (by omega), ?_, ?_⟩
        · exact List.forall_mem_cons.mpr ⟨isContinuation_byteChar _,
            List.forall_mem_cons.mpr ⟨isContinuation_byteChar _,
              List.forall_mem_singleton.mpr (isContinuation_byteChar _)⟩⟩
        · rw [toNat_byteChar (by omega), neededBytes_of_lead.2.2 (by omega)]
          rfl

theorem dropIncomplete_append (dst : Text) {lead : Char} {more : Text}
    (starts : isContinuation lead = false)
    (continues : ∀ b ∈ more, isContinuation b = true) :
    dropIncomplete (dst ++ lead :: more) =
      if more.length < neededBytes lead.toNat then dst
      else dst ++ lead :: more := by
  have front : ((dst ++ lead :: more).reverse.dropWhile
      isContinuation).reverse = dst ++ [lead] := by
    have reversed : (dst ++ lead :: more).reverse =
        more.reverse ++ lead :: dst.reverse := by
      simp
    rw [reversed, List.dropWhile_append_of_pos (by simpa using continues),
      List.dropWhile_cons_of_neg (by simp [starts])]
    simp
  have behind : (dst ++ lead :: more).length - (dst ++ [lead]).length =
      more.length := by
    simp only [List.length_append, List.length_cons, List.length_nil]
    omega
  rw [dropIncomplete, front, List.getLast?_concat]
  rw [behind, List.dropLast_concat]

variable {dst : Text}

theorem dropIncomplete_of_isUtf8 (whole : IsUtf8 dst) :
    dropIncomplete dst = dst := by
  obtain ⟨text, rfl⟩ := whole
  induction text using List.reverseRecOn with
  | nil => rfl
  | append_singleton text c _ =>
      obtain ⟨lead, more, bytes, starts, continues, length⟩ :=
        encode_singleton c
      rw [encode_append, bytes, dropIncomplete_append _ starts continues,
        if_neg (by omega)]

/-! ### The loop -/

/-- The loop of `hnc_json_escape` and the scan behind it. -/
def escapeRest (dstSize : Nat) (dst src : Text) : Text :=
  let (out, truncated) := escapeLoop dstSize dst src
  if truncated || decide (dstSize ≤ out.length + 1) then dropIncomplete out
  else out

variable {dstSize : Nat}

theorem hncJsonEscape_eq (roomy : 1 ≤ dstSize) (src : Text) :
    hncJsonEscape src dstSize = escapeRest dstSize [] src := by
  rw [hncJsonEscape, if_neg (by omega), escapeRest]
  cases src with
  | nil =>
      dsimp only
      split <;> split <;> rfl
  | cons c src =>
      rfl

/-- Bytes that no escape stands for are copied until the buffer is full. -/
theorem escapeLoop_plain {bytes : Text} (plain : ∀ b ∈ bytes, escapeByte b = [b])
    (dst src : Text) (room : dst.length + 1 ≤ dstSize) :
    escapeLoop dstSize dst (bytes ++ src) =
      if dst.length + bytes.length + 1 ≤ dstSize then
        escapeLoop dstSize (dst ++ bytes) src
      else (dst ++ bytes.take (dstSize - 1 - dst.length), false) := by
  induction bytes generalizing dst with
  | nil => simp [room]
  | cons b bytes induction =>
      have here : escapeByte b = [b] := plain b (by simp)
      have others : ∀ other ∈ bytes, escapeByte other = [other] := by
        intro other member
        exact plain other (by simp [member])
      rw [List.cons_append, escapeLoop]
      by_cases more : dst.length + 1 < dstSize
      · rw [if_pos more, here]
        rw [if_neg (by simp), induction others (dst ++ [b]) (by simp; omega)]
        have left : dstSize - 1 - dst.length =
            (dstSize - 1 - (dst ++ [b]).length) + 1 := by
          simp only [List.length_append, List.length_singleton]
          omega
        rw [left, List.take_succ_cons]
        simp only [List.length_append, List.length_cons, List.length_nil,
          List.append_assoc, List.singleton_append]
        simp only [Nat.add_assoc, Nat.add_comm 1]
      · have full : dstSize - 1 - dst.length = 0 := by omega
        rw [if_neg more, full, List.length_cons, if_neg (by omega)]
        simp

theorem flatMap_plain {bytes : Text}
    (plain : ∀ b ∈ bytes, escapeByte b = [b]) :
    bytes.flatMap escapeByte = bytes := by
  induction bytes with
  | nil => rfl
  | cons b bytes induction =>
      have others : ∀ other ∈ bytes, escapeByte other = [other] := by
        intro other member
        exact plain other (by simp [member])
      rw [List.flatMap_cons, plain b (by simp), induction others]
      rfl

theorem escapeText_ascii (ascii : c.toNat < 128) :
    escapeText [c] = escapeByte c := by
  rw [escapeText, encode_ascii (by simpa using ascii), List.flatMap_singleton]

theorem escapeText_high (high : 128 ≤ c.toNat) : escapeText [c] = encode [c] := by
  have plain : ∀ b ∈ encode [c], escapeByte b = [b] := by
    intro b member
    exact escapeByte_of_high (high_of_mem_encode member high)
  exact flatMap_plain plain

theorem isUtf8_escapeText_singleton (c : Char) : IsUtf8 (escapeText [c]) := by
  by_cases ascii : c.toNat < 128
  · rw [escapeText_ascii ascii]
    exact .of_ascii (ascii_escapeByte ascii)
  · rw [escapeText_high (by omega)]
    exact .encode _

theorem escapeByte_ne_nil (c : Char) : 0 < (escapeByte c).length := by
  rcases escapeByte_cases c with
    ⟨e, _, pair, _⟩ | ⟨high, _, low, _, code, _⟩ | ⟨same, _, _, _⟩
  · rw [pair]
    exact Nat.succ_pos _
  · rw [code]
    exact Nat.succ_pos _
  · rw [same]
    exact Nat.succ_pos _

theorem escapeText_nil : escapeText [] = [] :=
  rfl

/-- A first character that does not fit leaves what is in the buffer. -/
theorem escapeRest_full (c : Char) (text : Text) (whole : IsUtf8 dst)
    (room : dst.length + 1 ≤ dstSize)
    (big : dstSize < dst.length + (escapeText [c]).length + 1) :
    escapeRest dstSize dst (encode (c :: text)) = dst := by
  have kept := dropIncomplete_of_isUtf8 whole
  rw [encode_cons, escapeRest]
  by_cases ascii : c.toNat < 128
  · rw [escapeText_ascii ascii] at big
    rw [encode_ascii (by simpa using ascii), List.singleton_append, escapeLoop]
    by_cases more : dst.length + 1 < dstSize
    · have broken : 1 < (escapeByte c).length ∧
          dstSize ≤ dst.length + (escapeByte c).length := by
        omega
      rw [if_pos more]
      rw [if_pos broken]
      dsimp only
      rw [Bool.true_or, if_pos rfl, kept]
    · rw [if_neg more]
      dsimp only
      rw [kept, ite_self]
  · have high : 128 ≤ c.toNat := Nat.le_of_not_lt ascii
    rw [escapeText_high high] at big
    have plain : ∀ b ∈ encode [c], escapeByte b = [b] := by
      intro b member
      exact escapeByte_of_high (high_of_mem_encode member high)
    obtain ⟨lead, more, bytes, starts, continues, length⟩ := encode_singleton c
    rw [escapeLoop_plain plain dst _ room, if_neg (by omega)]
    dsimp only
    have filled : dstSize ≤
        (dst ++ (encode [c]).take (dstSize - 1 - dst.length)).length + 1 := by
      rw [List.length_append, List.length_take]
      omega
    rw [Bool.false_or, if_pos (decide_eq_true filled), bytes]
    rw [bytes, List.length_cons] at big
    -- the buffer ends before the character does
    cases free : dstSize - 1 - dst.length with
    | zero => rw [List.take_zero, List.append_nil, kept]
    | succ left =>
        have some : ∀ b ∈ more.take left, isContinuation b = true := by
          intro b member
          exact continues b (List.mem_of_mem_take member)
        rw [List.take_succ_cons, dropIncomplete_append dst starts some, if_pos]
        rw [List.length_take]
        omega

/-- A first character that fits is escaped behind what is in the buffer. -/
theorem escapeRest_fits (c : Char) (text : Text)
    (fits : dst.length + (escapeText [c]).length + 1 ≤ dstSize) :
    escapeRest dstSize dst (encode (c :: text)) =
      escapeRest dstSize (dst ++ escapeText [c]) (encode text) := by
  rw [encode_cons, escapeRest, escapeRest]
  by_cases ascii : c.toNat < 128
  · rw [escapeText_ascii ascii] at fits ⊢
    have solid := escapeByte_ne_nil c
    have more : dst.length + 1 < dstSize := by
      omega
    have whole : ¬(1 < (escapeByte c).length ∧
        dstSize ≤ dst.length + (escapeByte c).length) := by
      omega
    rw [encode_ascii (by simpa using ascii), List.singleton_append, escapeLoop,
      if_pos more]
    rw [if_neg whole]
  · have high : 128 ≤ c.toNat := Nat.le_of_not_lt ascii
    rw [escapeText_high high] at fits ⊢
    have plain : ∀ b ∈ encode [c], escapeByte b = [b] := by
      intro b member
      exact escapeByte_of_high (high_of_mem_encode member high)
    rw [escapeLoop_plain plain dst _ (by omega), if_pos fits]

theorem escapeRest_encode (text : Text) (whole : IsUtf8 dst)
    (room : dst.length + 1 ≤ dstSize) :
    escapeRest dstSize dst (encode text) =
      dst ++ escapeText (fitting (dstSize - 1 - dst.length) text) := by
  induction text generalizing dst with
  | nil =>
      have done : escapeLoop dstSize dst (encode []) = (dst, false) := rfl
      rw [escapeRest, done, fitting, escapeText_nil, List.append_nil]
      dsimp only
      rw [dropIncomplete_of_isUtf8 whole, ite_self]
  | cons c text induction =>
      by_cases fits : dst.length + (escapeText [c]).length + 1 ≤ dstSize
      · have longer : (dst ++ escapeText [c]).length + 1 ≤ dstSize := by
          rw [List.length_append]
          exact fits
        rw [escapeRest_fits c text fits,
          induction (whole.append (isUtf8_escapeText_singleton c)) longer,
          fitting, if_pos (by omega), List.append_assoc, ← escapeText_cons,
          List.length_append, Nat.sub_add_eq]
      · rw [escapeRest_full c text whole room (by omega), fitting,
          if_neg (by omega), escapeText_nil, List.append_nil]

theorem hncJsonEscape_encode (roomy : 1 ≤ dstSize) (text : Text) :
    hncJsonEscape (encode text) dstSize =
      escapeText (fitting (dstSize - 1) text) := by
  rw [hncJsonEscape_eq roomy, escapeRest_encode text (.of_ascii (by simp)) roomy]
  rfl

theorem codeUnit_of_control (control : c.toNat < 0x20) :
    codeUnit ['0', '0', Nat.digitChar (c.toNat / 16),
      Nat.digitChar (c.toNat % 16)] = c.toNat := by
  have table : ∀ n < 0x20, codeUnit ['0', '0', Nat.digitChar (n / 16),
      Nat.digitChar (n % 16)] = n := by
    decide
  exact table c.toNat control

theorem unescapes_escapeByte (c : Char) {rest out : Text}
    (unescapes : Unescapes rest out) :
    Unescapes (escapeByte c ++ rest) (c :: out) := by
  unfold escapeByte
  split
  · rename_i special
    rcases special with rfl | rfl
    · exact .letter (by decide) unescapes
    · exact .letter (by decide) unescapes
  · rename_i plain
    split
    · rename_i newline
      subst newline
      exact .letter (by decide) unescapes
    · split
      · rename_i return_
        subst return_
        exact .letter (by decide) unescapes
      · split
        · rename_i tab
          subst tab
          exact .letter (by decide) unescapes
        · split
          · rename_i control
            have hex : ∀ n < 16, Nat.digitChar n ∈ hexDigits := by decide
            have digits : ∀ h ∈ ['0', '0', Nat.digitChar (c.toNat / 16),
                Nat.digitChar (c.toNat % 16)], h ∈ hexDigits := by
              intro h member
              simp only [List.mem_cons, List.not_mem_nil, or_false] at member
              rcases member with rfl | rfl | rfl | rfl
              · decide
              · decide
              · exact hex _ (by omega)
              · exact hex _ (by omega)
            have code := codeUnit_of_control control
            have step := Unescapes.unicode rfl digits (by omega) unescapes
            rw [code, Char.ofNat_toNat] at step
            exact step
          · exact .plain (fun same => plain (.inr same)) unescapes

theorem unescapes_escaped (bytes : Text) :
    Unescapes (bytes.flatMap escapeByte) bytes := by
  induction bytes with
  | nil => exact .nil
  | cons c bytes induction => exact unescapes_escapeByte c induction

theorem nul_escapeByte (c : Char) : '\x00' ∉ escapeByte c := by
  have letters : '\x00' ∉ "\"\\nrt".toList := by decide
  have digits : '\x00' ∉ hexDigits := by decide
  intro member
  rcases escapeByte_cases c with
    ⟨e, letter, pair, _⟩ | ⟨high, highHex, low, lowHex, code, _⟩ |
      ⟨same, _, _, visible⟩
  · rw [pair] at member
    simp only [List.mem_cons, List.not_mem_nil, or_false] at member
    rcases member with same | same
    · exact absurd same (by decide)
    · exact letters (same ▸ letter)
  · rw [code] at member
    simp only [List.mem_cons, List.not_mem_nil, or_false] at member
    rcases member with same | same | same | same | same | same
    · exact absurd same (by decide)
    · exact absurd same (by decide)
    · exact absurd same (by decide)
    · exact absurd same (by decide)
    · exact digits (same ▸ highHex)
    · exact digits (same ▸ lowHex)
  · rw [same] at member
    have zero := List.mem_singleton.mp member
    rw [← zero] at visible
    exact absurd visible (by decide)

theorem nul_escapeText (text : Text) : '\x00' ∉ escapeText text := by
  intro member
  obtain ⟨b, _, inside⟩ := List.mem_flatMap.mp member
  exact nul_escapeByte b inside

/-- The string in a buffer that holds a text, a NUL and anything behind it. -/
theorem cString_encode (cstring : '\x00' ∉ text) (behind : Text) :
    cString (encode text ++ '\x00' :: behind) =
      encode text := by
  have free : '\x00' ∉ encode text := by
    intro member
    exact cstring (mem_of_mem_encode member (by decide))
  have plain : ∀ c ∈ encode text, (c != '\x00') = true := by
    intro c member
    apply bne_iff_ne.mpr
    intro same
    exact free (same ▸ member)
  rw [cString, List.takeWhile_append_of_pos plain,
    List.takeWhile_cons_of_neg (by simp), List.append_nil]

/-- `hnc_json_escape` leaves the escape of the longest front of whole characters
whose escape fits, and a NUL behind it. -/
theorem hncJsonEscape_longest_front (text behind : Text)
    (cstring : '\x00' ∉ text) (dstSize : Nat) (roomy : 1 ≤ dstSize) :
    ∃ front, front <+: text ∧
      hncJsonEscape (cString (encode text ++ '\x00' :: behind)) dstSize =
        escapeText front ∧
      '\x00' ∉ escapeText front ∧
      (escapeText front ++ ['\x00']).length ≤ dstSize ∧
      (∀ longer, longer <+: text →
        (escapeText longer).length ≤ dstSize - 1 → longer <+: front) ∧
      Unescapes (escapeText front) (encode front) ∧
      ((escapeText text).length ≤ dstSize - 1 → front = text) := by
  refine ⟨fitting (dstSize - 1) text, fitting_isPrefix _ text, ?_,
    nul_escapeText _, ?_, ?_, unescapes_escaped _, fitting_of_fits⟩
  · rw [cString_encode cstring, hncJsonEscape_encode roomy]
  · have fits := length_fitting (dstSize - 1) text
    rw [List.length_append, List.length_singleton]
    omega
  · intro longer begins fits
    exact fitting_longest begins fits

/-- A buffer of seven bytes has no room for the last letter. -/
theorem hncJsonEscape_umlauts :
    ∃ front, front <+: "\"äöü".toList ∧
      hncJsonEscape
        (cString (encode "\"äöü".toList ++ '\x00' :: "rest".toList)) 7 =
        escapeText front ∧
      '\x00' ∉ escapeText front ∧
      (escapeText front ++ ['\x00']).length ≤ 7 ∧
      (∀ longer, longer <+: "\"äöü".toList →
        (escapeText longer).length ≤ 7 - 1 → longer <+: front) ∧
      Unescapes (escapeText front) (encode front) ∧
      ((escapeText "\"äöü".toList).length ≤ 7 - 1 →
        front = "\"äöü".toList) :=
  hncJsonEscape_longest_front "\"äöü".toList "rest".toList (by decide) 7
    (by decide)

example : hncJsonEscape (encode "\"äöü".toList) 7 =
    escapeText "\"äö".toList := by
  decide +kernel

end Hnc.Hotspotd
