import Hnc.Daemon.DeviceNames
import Hnc.Daemon.WriteJson
import Hnc.Json.GuardGrammar
import Hnc.Lib.JsonSearch

/-!
# Patterns in `devices.json`

The file is one line.  A quoted hardware address is found at the keys of its own
record, and at a host name that ends in it behind a quote; the key `"ip"` is
found at the start of a record only.
-/

namespace Hnc.OwnIp

open Posix JsonText Hotspotd

variable {Value : Type}

/-- A host name that is written as, or that ends in, the quoted text. -/
def Quotes (mac name : Text) : Prop :=
  ('"' :: mac) <:+ ('"' :: name)

instance (mac name : Text) : Decidable (Quotes mac name) :=
  inferInstanceAs (Decidable (_ <:+ _))

/-! ## The quoted address in an escaped name -/

variable {c : Char}

theorem isAtomChar_of_hex (hex : c ∈ hexDigits) : isAtomChar c = true := by
  have all : hexDigits.all isAtomChar = true := by decide
  exact List.all_eq_true.mp all c hex

theorem plain_of_hex (hex : c ∈ hexDigits) :
    c ≠ '"' ∧ c ≠ '\\' ∧ 0x20 ≤ c.toNat := by
  have all : hexDigits.all (fun d => d != '"' && d != '\\' &&
      decide (0x20 ≤ d.toNat)) = true := by decide
  simpa [and_assoc] using List.all_eq_true.mp all c hex

theorem hits_other (key : Text) (behind : Text → Option Value) (other : c ≠ '"')
    (text rest : Text) :
    hits (named key behind) (c :: text) rest =
      hits (named key behind) text rest := by
  have single := @hits_of_not_mem Value key behind [c]
    (by simpa using Ne.symm other) (text ++ rest)
  simp only [hits, List.append_nil, List.nil_append] at single
  rw [hits, single]
  rfl

theorem escaped_eq_iff {key src : Text} (plain : plainKey key = true) :
    src.flatMap escapeByte = key ↔
      src = key ∧ src.flatMap escapeByte = src := by
  constructor
  · intro same
    have identity : src.flatMap escapeByte = src := by
      induction src generalizing key with
      | nil => rfl
      | cons c src induction =>
          rw [List.flatMap_cons] at same ⊢
          rcases escapeByte_cases c with
            ⟨e, _, pair, _⟩ | ⟨high, _, low, _, code, _⟩ | ⟨byte, _⟩
          · rw [pair] at same
            subst same
            simp [plainKey] at plain
          · rw [code] at same
            subst same
            simp [plainKey] at plain
          · rw [byte] at same ⊢
            subst same
            simp only [List.cons_append, plainKey, List.all_cons,
              Bool.and_eq_true] at plain
            simpa using induction plain.2 rfl
    exact ⟨identity.symm.trans same, identity⟩
  · rintro ⟨rfl, identity⟩
    exact identity

theorem escaped_plain {key : Text} (plain : plainKey key = true)
    (visible : ∀ c ∈ key, 0x20 ≤ c.toNat) :
    key.flatMap escapeByte = key := by
  induction key with
  | nil => rfl
  | cons c key induction =>
      simp only [plainKey, List.all_cons, Bool.and_eq_true,
        bne_iff_ne] at plain
      have byte : escapeByte c = [c] := by
        have high := visible c (by simp)
        have newline : c ≠ '\n' := by rintro rfl; exact absurd high (by decide)
        have return_ : c ≠ '\r' := by rintro rfl; exact absurd high (by decide)
        have tab : c ≠ '\t' := by rintro rfl; exact absurd high (by decide)
        simp [escapeByte, plain.1.1, plain.1.2, newline, return_, tab,
          Nat.not_lt.mpr high]
      rw [List.flatMap_cons, byte, induction plain.2
        fun d member => visible d (by simp [member])]
      rfl

/-- A key that is found where it is written, and nowhere inside an escape. -/
structure PlainName (key : Text) : Prop where
  name : KeyName key
  visible : ∀ c ∈ key, 0x20 ≤ c.toNat

theorem body_escaped_name (src : Text) :
    Body false (src.flatMap escapeByte) := by
  induction src with
  | nil => exact .done
  | cons c src induction =>
      rw [List.flatMap_cons]
      rcases escapeByte_cases c with
        ⟨e, _, pair, _⟩ | ⟨high, hexHigh, low, hexLow, code, _⟩ |
          ⟨byte, quoteFree, slash, _⟩
      · rw [pair]
        exact .slash (.escaped e induction)
      · obtain ⟨h2, h1, _⟩ := plain_of_hex hexHigh
        obtain ⟨l2, l1, _⟩ := plain_of_hex hexLow
        rw [code]
        exact .slash (.escaped 'u' (.plain (by decide) (by decide)
          (.plain (by decide) (by decide)
            (.plain h1 h2 (.plain l1 l2 induction)))))
      · rw [byte]
        exact .plain slash quoteFree induction

section Escaped

variable {key : Text} (plain : PlainName key) (behind : Text → Option Value)
  {rest : Text} (apart : Apart rest)
include plain apart

omit apart in
/-- The pattern at the quote in front of an escaped name. -/
theorem named_at_escaped (src : Text) :
    named key behind
        (lineOf ('"' :: (src.flatMap escapeByte ++ '"' :: rest))) =
      if src = key then behind (lineOf rest) else none := by
  have same : src.flatMap escapeByte = key ↔ src = key := by
    rw [escaped_eq_iff plain.name.plain]
    constructor
    · exact And.left
    · rintro rfl
      exact ⟨rfl, escaped_plain plain.name.plain plain.visible⟩
  rw [named_at_quote plain.name behind (body_escaped_name src)]
  simp only [same]

theorem hits_escaped_end (src : Text) :
    hits (named key behind) (src.flatMap escapeByte ++ ['"']) rest =
      if ('"' :: key) <:+ src then (behind (lineOf rest)).toList else [] := by
  induction src with
  | nil => simp [hits, named_at_end plain.name behind apart]
  | cons c src induction =>
      rw [List.flatMap_cons, List.append_assoc]
      by_cases isQuote : c = '"'
      · subst isQuote
        have pair : escapeByte '"' = ['\\', '"'] := rfl
        have more : (src.flatMap escapeByte ++ ['"']) ++ rest =
            src.flatMap escapeByte ++ '"' :: rest := by
          simp
        rw [pair, List.cons_append, hits_other _ _ (by decide),
          List.cons_append, List.nil_append, hits, more,
          named_at_escaped plain behind, induction]
        simp only [List.suffix_cons_iff]
        by_cases whole : src = key
        · subst whole
          have longer : ¬('"' :: src) <:+ src := by
            intro suffix
            have short := suffix.length_le
            simp at short
          simp [longer]
        · simp [whole, Ne.symm whole]
      · have suffix : ('"' :: key) <:+ c :: src ↔ ('"' :: key) <:+ src := by
          rw [List.suffix_cons_iff]
          simp [Ne.symm isQuote]
        have free : '"' ∉ escapeByte c := by
          rcases escapeByte_cases c with
            ⟨e, _, pair, same⟩ | ⟨high, hexHigh, low, hexLow, code, _⟩ |
              ⟨byte, _⟩
          · rw [pair]
            simp only [List.mem_cons, List.not_mem_nil, or_false, not_or]
            exact ⟨by decide, fun quote => isQuote (same.mp quote.symm)⟩
          · rw [code]
            simp [Ne.symm (plain_of_hex hexHigh).1,
              Ne.symm (plain_of_hex hexLow).1]
          · rw [byte]
            simpa using Ne.symm isQuote
        simp only [suffix]
        rw [hits_append, hits_of_not_mem _ free, induction]
        rfl

/-- In a quoted name the pattern matches where the name quotes the key. -/
theorem hits_quote_escaped (src : Text) :
    hits (named key behind) (quote (src.flatMap escapeByte)) rest =
      if Quotes key src then (behind (lineOf rest)).toList else [] := by
  have outer := hits_escaped_end plain behind apart ('"' :: src)
  exact outer

end Escaped

/-! ## The devices that are written -/

/-- A character of an interface or of the source of a name. -/
def isWordChar (c : Char) : Bool :=
  c != '"' && c != '\\' && !isControl c

/-- A slot with an address of each kind, with a name that fits its buffer, and
with an interface and a source that are plain words. -/
structure Shown (d : Device) (r : Rest) : Prop where
  mac : JsonSetBatch.isMacLine d.mac = true
  ip : isDottedQuad d.ip = true
  name : d.hostname.length ≤ 63
  src : d.hostnameSrc.text.all isWordChar = true
  iface : r.iface.all isWordChar = true
  ifaceLength : r.iface.length ≤ 15

variable {word : Text}

theorem plainKey_of_word (chars : word.all isWordChar = true) :
    plainKey word = true := by
  apply List.all_eq_true.mpr
  intro c member
  have char := List.all_eq_true.mp chars c member
  simp only [isWordChar, Bool.and_eq_true] at char
  simp [char.1.1, char.1.2]

theorem newline_not_mem_word (chars : word.all isWordChar = true) :
    '\n' ∉ word := by
  intro member
  have char := List.all_eq_true.mp chars _ member
  exact absurd char (by decide)

theorem length_hnSrc (src : Source) : (hnSrc src).length ≤ 11 := by
  unfold hnSrc
  split
  · decide
  · cases src with
    | cached src => exact List.length_take_le 11 _
    | _ => decide

theorem hnSrc_word {src : Source} (chars : src.text.all isWordChar = true) :
    (hnSrc src).all isWordChar = true := by
  unfold hnSrc
  split
  · decide
  · exact chars

theorem isAtomChar_printLong (value : Int) :
    printLong value ≠ [] ∧ (printLong value).all isAtomChar = true := by
  have digits : ∀ c ∈ Nat.toDigits 10 value.natAbs, isAtomChar c = true :=
    fun _ member => isAtomChar_of_isDigit (isDigit_of_mem_toDigits member)
  have minus : isAtomChar '-' = true := by decide
  unfold printLong
  split
  · refine ⟨by simp, ?_⟩
    simpa [minus] using digits
  · refine ⟨Nat.toDigits_ne_nil, ?_⟩
    simpa using digits

theorem deviceStatus_word (blacklist : List Text) (mac : Text) :
    (deviceStatus blacklist mac).all isWordChar = true ∧
      (deviceStatus blacklist mac).length ≤ 7 := by
  unfold deviceStatus
  split <;> decide

theorem val_word (plain : plainKey word = true) : Val (quote word) :=
  .str (body_of_plainKey plain)

theorem val_long (value : Int) : Val (printLong value) :=
  .atom (isAtomChar_printLong value).1 (isAtomChar_printLong value).2

theorem plainKey_mac (mac : DeviceNames.MacArg) : plainKey mac.text = true := by
  obtain ⟨_, _, _, _, _, _, _, chars⟩ := mac.parts
  apply List.all_eq_true.mpr
  intro c member
  have char := List.all_eq_true.mp chars c member
  have notQuote : c ≠ '"' := by rintro rfl; exact absurd char (by decide)
  have notSlash : c ≠ '\\' := by rintro rfl; exact absurd char (by decide)
  simp [notQuote, notSlash]

theorem plainKey_ip (ip : Ipv4) : plainKey ip.text = true := by
  apply List.all_eq_true.mpr
  intro c member
  have char := ip.chars c member
  have notQuote : c ≠ '"' := by rintro rfl; exact absurd char (by decide)
  have notSlash : c ≠ '\\' := by rintro rfl; exact absurd char (by decide)
  simp [notQuote, notSlash]

theorem wf_bare {key val : Text} (plain : plainKey key = true)
    (value : Val val) : (bare key val).Wf :=
  ⟨rfl, plain, rfl, rfl, value, rfl⟩

section Layout

variable {d : Device} {r : Rest} (shown : Shown d r) (blacklist : List Text)
include shown

theorem Shown.plain_mac : plainKey d.mac = true :=
  plainKey_mac ⟨d.mac, shown.mac⟩

theorem Shown.plain_ip : plainKey d.ip = true :=
  plainKey_ip ⟨d.ip, shown.ip⟩

theorem Shown.fields_wf : ∀ m ∈ deviceFields blacklist d r, m.Wf := by
  have status := plainKey_of_word (deviceStatus_word blacklist d.mac).1
  have src := plainKey_of_word (hnSrc_word shown.src)
  have iface := plainKey_of_word shown.iface
  have name : Val (quote (hncJsonEscape d.hostname escapedSize)) := by
    rw [hncJsonEscape_of_short shown.name]
    exact .str (body_escaped_name d.hostname)
  intro m member
  simp only [deviceFields, fieldsBehindName, List.mem_cons, List.not_mem_nil,
    or_false] at member
  rcases member with rfl | rfl | rfl | rfl | rfl | rfl | rfl | rfl | rfl
  · exact wf_bare (by decide) (val_word shown.plain_ip)
  · exact wf_bare (by decide) (val_word shown.plain_mac)
  · exact wf_bare (by decide) name
  · exact wf_bare (by decide) (val_word src)
  · exact wf_bare (by decide) (val_word iface)
  · exact wf_bare (by decide) (val_long _)
  · exact wf_bare (by decide) (val_long _)
  · exact wf_bare (by decide) (val_word status)
  · exact wf_bare (by decide) (val_long _)

theorem Shown.obj_wf : (deviceObj blacklist d r).Wf :=
  ⟨shown.fields_wf blacklist, rfl⟩

theorem Shown.member_wf : (deviceMember blacklist (d, r)).Wf :=
  wf_bare shown.plain_mac (shown.obj_wf blacklist).shaped.val_render

end Layout

/-! ## Where the pattern matches in a record -/

section Members

variable {key : Text} (name : KeyName key) (behind : Text → Option Value)
  (after : List Member) (rest : Text)

theorem apart_closing : Apart (closing after rest) :=
  apart_of_follows (follows_closing after rest)

theorem hitsIn_bare {label : Text} (other : label ≠ key) (val : Text) :
    hitsIn key behind (bare label val :: after) rest =
      hits (named key behind) val (closing after rest) ++
        hitsIn key behind after rest := by
  rw [hitsIn, hitsAt, if_neg (by exact other)]
  rfl

theorem hitsIn_bare_here (val : Text) :
    hitsIn key behind (bare key val :: after) rest =
      (behind (lineOf (':' :: (val ++ closing after rest)))).toList ++
        (hits (named key behind) val (closing after rest) ++
          hitsIn key behind after rest) := by
  have here : (bare key val).key = key := rfl
  rw [hitsIn, hitsAt]
  simp [bare, Member.fromValue]

include name in
theorem hits_word (plain : plainKey word = true) (other : word ≠ key) :
    hits (named key behind) (quote word) (closing after rest) = [] := by
  rw [hits_quote_plain name behind (apart_closing after rest) plain,
    if_neg other]

theorem hits_long (value : Int) :
    hits (named key behind) (printLong value) (closing after rest) = [] := by
  apply hits_of_not_mem
  intro member
  have char :=
    List.all_eq_true.mp (isAtomChar_printLong value).2 _ member
  exact absurd char (by decide)

end Members

theorem length_macText (mac : DeviceNames.MacArg) : mac.text.length = 17 := by
  obtain ⟨first, middle, last, text, _, _, length, _⟩ := mac.parts
  simp [text, length]

theorem colon_mem_macText (mac : DeviceNames.MacArg) : ':' ∈ mac.text := by
  obtain ⟨text, shape⟩ := mac
  unfold JsonSetBatch.isMacLine at shape
  split at shape
  · simp only [List.all_cons, Bool.and_eq_true, beq_iff_eq] at shape
    simp [shape.2.1]
  · cases shape

theorem plainName_mac (mac : DeviceNames.MacArg) : PlainName mac.text := by
  obtain ⟨first, middle, last, text, hex, _, _, chars⟩ := mac.parts
  have visible : ∀ c ∈ mac.text, 0x20 ≤ c.toNat := by
    intro c member
    have char := List.all_eq_true.mp chars c member
    simp only [DeviceNames.isMacChar, Bool.or_eq_true, beq_iff_eq] at char
    rcases char with digit | rfl
    · exact (plain_of_hex (Guard.isHex_iff.mp digit)).2.2
    · decide
  refine ⟨⟨plainKey_mac mac, fun newline => ?_, first, middle ++ [last], text,
    ?_⟩, visible⟩
  · exact absurd (visible _ newline) (by decide)
  · exact isAtomChar_of_hex (Guard.isHex_iff.mp hex)

/-! ## The first match in the file -/

section Record

variable {d : Device} {r : Rest} (shown : Shown d r) (blacklist : List Text)
  (mac : DeviceNames.MacArg) (rest : Text)
include shown

theorem Shown.hits_behindName :
    hitsIn mac.text some (fieldsBehindName blacklist d r) rest = [] := by
  have name := (plainName_mac mac).name
  have length := length_macText mac
  have other {label : Text} (short : label.length ≠ 17) :
      label ≠ mac.text := by
    rintro rfl
    exact short length
  have src := plainKey_of_word (hnSrc_word shown.src)
  have iface := plainKey_of_word shown.iface
  have status := deviceStatus_word blacklist d.mac
  have srcLength := length_hnSrc d.hostnameSrc
  have ifaceLength := shown.ifaceLength
  rw [fieldsBehindName,
    hitsIn_bare _ _ _ (other (by decide)),
    hits_word name _ _ _ src (other (by omega)),
    hitsIn_bare _ _ _ (other (by decide)),
    hits_word name _ _ _ iface (other (by omega)),
    hitsIn_bare _ _ _ (other (by decide)), hits_long,
    hitsIn_bare _ _ _ (other (by decide)), hits_long,
    hitsIn_bare _ _ _ (other (by decide)),
    hits_word name _ _ _ (plainKey_of_word status.1)
      (other (by have := status.2; omega)),
    hitsIn_bare _ _ _ (other (by decide)), hits_long]
  rfl

/-- In the record of another device only the name can match. -/
theorem Shown.hits_fields (other : d.mac ≠ mac.text) :
    hitsIn mac.text some (deviceFields blacklist d r) rest =
      if Quotes mac.text d.hostname then
        [lineOf (closing (fieldsBehindName blacklist d r) rest)]
      else [] := by
  have plain := plainName_mac mac
  have length := length_macText mac
  have otherLabel {label : Text} (short : label.length ≠ 17) :
      label ≠ mac.text := by
    rintro rfl
    exact short length
  have otherIp : d.ip ≠ mac.text := by
    intro same
    have colon := colon_mem_macText mac
    rw [← same] at colon
    rcases Ipv4.chars ⟨d.ip, shown.ip⟩ ':' colon with digit | dot
    · exact absurd digit (by decide)
    · exact absurd dot (by decide)
  rw [deviceFields, hitsIn_bare _ _ _ (otherLabel (by decide)),
    hits_word plain.name _ _ _ shown.plain_ip otherIp,
    hitsIn_bare _ _ _ (otherLabel (by decide)),
    hits_word plain.name _ _ _ shown.plain_mac other,
    hitsIn_bare _ _ _ (otherLabel (by decide)),
    hncJsonEscape_of_short shown.name,
    hits_quote_escaped plain _ (apart_closing _ _),
    shown.hits_behindName blacklist mac rest]
  split <;> rfl

end Record

/-! ## One line -/

theorem oneLine_bare {key val : Text} (keyLine : '\n' ∉ key)
    (valLine : '\n' ∉ val) : '\n' ∉ (bare key val).render := by
  rw [render_bare]
  simp [quote, keyLine, valLine]

theorem oneLine_closing {members : List Member} {rest : Text}
    (lines : ∀ m ∈ members, '\n' ∉ m.render) (restLine : '\n' ∉ rest) :
    '\n' ∉ closing members rest := by
  simp only [closing, more, List.mem_append, List.mem_flatMap, List.mem_cons,
    not_or, not_exists, not_and]
  exact ⟨fun m member => ⟨by decide, lines m member⟩, by decide, restLine⟩

theorem oneLine_obj {o : Obj} (lines : ∀ m ∈ o.members, '\n' ∉ m.render)
    (hollow : '\n' ∉ o.hollow) : '\n' ∉ o.render := by
  obtain ⟨members, space⟩ := o
  rw [Obj.render]
  cases members with
  | nil => simpa [Obj.inner] using hollow
  | cons m after =>
      have first := lines m (by simp)
      have later := @oneLine_closing after []
        (fun other member => lines other (by simp [member])) (by simp)
      simp only [closing, List.mem_append, not_or] at later
      simp [Obj.inner, first, later.1]

theorem oneLine_quote (line : '\n' ∉ word) : '\n' ∉ quote word := by
  simp [quote, line]

theorem oneLine_long (value : Int) : '\n' ∉ printLong value := by
  intro member
  have char :=
    List.all_eq_true.mp (isAtomChar_printLong value).2 _ member
  exact absurd char (by decide)

theorem oneLine_escaped (src : Text) : '\n' ∉ src.flatMap escapeByte := by
  rw [List.mem_flatMap]
  rintro ⟨c, _, inside⟩
  rcases escapeByte_cases c with
    ⟨e, letter, pair, _⟩ | ⟨high, hexHigh, low, hexLow, code, _⟩ |
      ⟨byte, _, _, visible⟩
  · rw [pair] at inside
    simp only [List.mem_cons, List.not_mem_nil, or_false] at inside
    rcases inside with slash | rfl
    · exact absurd slash (by decide)
    · exact absurd letter (by decide)
  · have highLine := (plain_of_hex hexHigh).2.2
    have lowLine := (plain_of_hex hexLow).2.2
    rw [code] at inside
    simp only [List.mem_cons, List.not_mem_nil, or_false] at inside
    rcases inside with same | same | same | same | rfl | rfl
    · exact absurd same (by decide)
    · exact absurd same (by decide)
    · exact absurd same (by decide)
    · exact absurd same (by decide)
    · exact absurd highLine (by decide)
    · exact absurd lowLine (by decide)
  · rw [byte, List.mem_singleton] at inside
    rw [← inside] at visible
    exact absurd visible (by decide)

section OneLine

variable {d : Device} {r : Rest} (shown : Shown d r) (blacklist : List Text)
include shown

theorem Shown.oneLine_mac : '\n' ∉ d.mac :=
  (plainName_mac ⟨d.mac, shown.mac⟩).name.oneLine

theorem Shown.oneLine_fields :
    ∀ m ∈ deviceFields blacklist d r, '\n' ∉ m.render := by
  have ip : '\n' ∉ d.ip := by
    intro member
    rcases Ipv4.chars ⟨d.ip, shown.ip⟩ _ member with digit | dot
    · exact absurd digit (by decide)
    · exact absurd dot (by decide)
  have name : '\n' ∉ hncJsonEscape d.hostname escapedSize := by
    rw [hncJsonEscape_of_short shown.name]
    exact oneLine_escaped d.hostname
  have src := newline_not_mem_word (hnSrc_word shown.src)
  have iface := newline_not_mem_word shown.iface
  have status :=
    newline_not_mem_word (deviceStatus_word blacklist d.mac).1
  intro m member
  simp only [deviceFields, fieldsBehindName, List.mem_cons, List.not_mem_nil,
    or_false] at member
  rcases member with rfl | rfl | rfl | rfl | rfl | rfl | rfl | rfl | rfl
  · exact oneLine_bare (by decide) (oneLine_quote ip)
  · exact oneLine_bare (by decide) (oneLine_quote shown.oneLine_mac)
  · exact oneLine_bare (by decide) (oneLine_quote name)
  · exact oneLine_bare (by decide) (oneLine_quote src)
  · exact oneLine_bare (by decide) (oneLine_quote iface)
  · exact oneLine_bare (by decide) (oneLine_long _)
  · exact oneLine_bare (by decide) (oneLine_long _)
  · exact oneLine_bare (by decide) (oneLine_quote status)
  · exact oneLine_bare (by decide) (oneLine_long _)

theorem Shown.oneLine_obj : '\n' ∉ (deviceObj blacklist d r).render :=
  OwnIp.oneLine_obj (shown.oneLine_fields blacklist) (by simp [deviceObj])

theorem Shown.oneLine_member : '\n' ∉ (deviceMember blacklist (d, r)).render :=
  oneLine_bare shown.oneLine_mac (shown.oneLine_obj blacklist)

end OneLine

/-! ## The address behind a match -/

/-- `match(tail, /"ip"[[:space:]]*:[[:space:]]*"[0-9.]+"/)`. -/
def ipBehind (value : Text) : Option Text :=
  (quoted isNumberChar value).filter (· ≠ [])

theorem ipBehind_quote (ip : Ipv4) (rest : Text) :
    ipBehind (quote ip.text ++ rest) = some ip.text := by
  have inside : ∀ c ∈ ip.text, isNumberChar c = true := by
    intro c member
    rcases ip.chars c member with digit | rfl
    · simp [isNumberChar, digit]
    · decide
  have stop : isNumberChar '"' = false := by decide
  have text : quote ip.text ++ rest = '"' :: (ip.text ++ '"' :: rest) := by
    simp [quote]
  have front : (ip.text ++ '"' :: rest).takeWhile isNumberChar = ip.text := by
    rw [List.takeWhile_append_of_pos inside]
    simp [stop]
  have behind :
      (ip.text ++ '"' :: rest).dropWhile isNumberChar = '"' :: rest := by
    rw [List.dropWhile_append_of_pos inside]
    simp [stop]
  rw [ipBehind, text, quoted]
  simp [front, behind, ip.text_ne_nil]

theorem keyName_ip : KeyName "ip".toList :=
  ⟨by decide, by decide, 'i', ['p'], rfl, by decide⟩

/-- The matches in the records behind a match. -/
theorem matchKey_behind (mac : DeviceNames.MacArg) {text : Text}
    (oneLine : '\n' ∉ text) (apart : Apart text) :
    matchKey "ip".toList ipBehind (quote mac.text ++ text) =
      (hits (named "ip".toList (colon ipBehind)) text []).head? := by
  have plain := plainName_mac mac
  have other : mac.text ≠ "ip".toList := by
    intro same
    have length := length_macText mac
    rw [same] at length
    exact absurd length (by decide)
  have line : '\n' ∉ quote mac.text ++ text := by
    simp [quote, plain.name.oneLine, oneLine]
  rw [matchKey_eq_hits _ _ line, keyed_eq_named, hits_append,
    hits_quote_plain keyName_ip _ (by simpa using apart) plain.name.plain,
    if_neg other, List.nil_append]

theorem colon_closing (parse : Text → Option Value) (after : List Member)
    (rest : Text) : colon parse (lineOf (closing after rest)) = none := by
  cases after with
  | nil => rfl
  | cons m after => rw [closing_cons]; rfl

section Addresses

variable {d : Device} {r : Rest} (shown : Shown d r) (blacklist : List Text)
  (rest : Text)
include shown

theorem Shown.ip_first :
    (hitsIn "ip".toList (colon ipBehind) (deviceFields blacklist d r)
      rest).head? = some d.ip := by
  have oneLine : '\n' ∉ ':' :: quote d.ip := by
    have plain : '\n' ∉ d.ip := by
      intro member
      rcases Ipv4.chars ⟨d.ip, shown.ip⟩ _ member with digit | dot
      · exact absurd digit (by decide)
      · exact absurd dot (by decide)
    simp [quote, plain]
  have found (tail : Text) :
      colon ipBehind (':' :: (quote d.ip ++ tail)) = some d.ip := by
    have spaces : (quote d.ip ++ tail).dropWhile isSpace =
        quote d.ip ++ tail := by
      simp [quote, show isSpace '"' = false by decide]
    rw [colon]
    exact ipBehind_quote ⟨d.ip, shown.ip⟩ tail
  rw [deviceFields, hitsIn_bare_here, ← List.cons_append,
    lineOf_of_not_mem oneLine, List.cons_append, found]
  rfl

theorem Shown.no_ip_behindName :
    hitsIn "ip".toList (colon ipBehind) (fieldsBehindName blacklist d r)
      rest = [] := by
  have silent {word : Text} (chars : word.all isWordChar = true)
      (after : List Member) (tail : Text) :
      hits (named "ip".toList (colon ipBehind)) (quote word)
        (closing after tail) = [] :=
    hits_quote_silent keyName_ip (apart_closing after tail)
      (colon_closing ipBehind after tail)
      (body_of_plainKey (plainKey_of_word chars))
  rw [fieldsBehindName,
    hitsIn_bare _ _ _ (by decide), silent (hnSrc_word shown.src),
    hitsIn_bare _ _ _ (by decide), silent shown.iface,
    hitsIn_bare _ _ _ (by decide), hits_long,
    hitsIn_bare _ _ _ (by decide), hits_long,
    hitsIn_bare _ _ _ (by decide),
    silent (deviceStatus_word blacklist d.mac).1,
    hitsIn_bare _ _ _ (by decide), hits_long]
  rfl

theorem Shown.mac_ne_ip : d.mac ≠ "ip".toList := by
  intro same
  have length := length_macText ⟨d.mac, shown.mac⟩
  rw [show (⟨d.mac, shown.mac⟩ : DeviceNames.MacArg).text = d.mac from rfl,
    same] at length
  exact absurd length (by decide)

theorem Shown.ip_of_member (after : List Member) :
    (hitsIn "ip".toList (colon ipBehind)
      (deviceMember blacklist (d, r) :: after) rest).head? = some d.ip := by
  rw [deviceMember, hitsIn_bare _ _ _ shown.mac_ne_ip,
    hits_obj keyName_ip _ (shown.obj_wf blacklist), List.head?_append]
  have first := shown.ip_first blacklist (closing after rest)
  rw [deviceObj, first]
  rfl

end Addresses

end Hnc.OwnIp
