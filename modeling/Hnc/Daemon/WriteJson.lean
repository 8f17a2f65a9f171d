import Hnc.Daemon.DeviceTable
import Hnc.Lib.JsonPlace
import Hnc.Net.Tables

/-!
# `devices.json`

`write_json` of `daemon/hotspotd/hotspotd.c` prints the active slots of the table
as one object on one line.  A text stands for a C string here, one character for
each byte.  Only the names go through `hnc_json_escape`.
-/

namespace Hnc.Hotspotd

open Posix JsonText

/-! ## Escaping -/

/-- What the loop of `hnc_json_escape` writes for a byte. -/
def escapeByte (c : Char) : Text :=
  if c = '"' ∨ c = '\\' then ['\\', c]
  else if c = '\n' then ['\\', 'n']
  else if c = '\r' then ['\\', 'r']
  else if c = '\t' then ['\\', 't']
  else if c.toNat < 0x20 then
    ['\\', 'u', '0', '0', Nat.digitChar (c.toNat / 16),
      Nat.digitChar (c.toNat % 16)]
  else [c]

/-- The loop, with what is in `dst` and with the flag `truncated`. -/
def escapeLoop (dstSize : Nat) : Text → Text → Text × Bool
  | dst, [] => (dst, false)
  | dst, c :: src =>
      if dst.length + 1 < dstSize then
        let out := escapeByte c
        if 1 < out.length ∧ dstSize ≤ dst.length + out.length then (dst, true)
        else escapeLoop dstSize (dst ++ out) src
      else (dst, false)

/-- `(c & 0xC0) == 0x80`. -/
def isContinuation (c : Char) : Bool :=
  c.toNat &&& 0xC0 == 0x80

/-- The bytes that have to follow the first byte of a character. -/
def neededBytes (lead : Nat) : Nat :=
  if lead &&& 0x80 = 0 then 0
  else if lead &&& 0xE0 = 0xC0 then 1
  else if lead &&& 0xF0 = 0xE0 then 2
  else if lead &&& 0xF8 = 0xF0 then 3
  else 0

/-- A last character that is not complete goes away. -/
def dropIncomplete (dst : Text) : Text :=
  let front := (dst.reverse.dropWhile isContinuation).reverse
  match front.getLast? with
  | none => dst
  | some lead =>
      if dst.length - front.length < neededBytes lead.toNat then front.dropLast
      else dst

def hncJsonEscape (src : Text) (dstSize : Nat) : Text :=
  if dstSize = 0 then []
  else
    let (dst, truncated) := escapeLoop dstSize [] src
    if truncated || (src != [] && dstSize ≤ dst.length + 1) then
      dropIncomplete dst
    else dst

/-! ## The file -/

/-- The text of `hostname_src`, which has 11 bytes. -/
def Source.text : Source → Text
  | .manual => "manual".toList
  | .dhcp => "dhcp".toList
  | .cached src => ("cache-".toList ++ src).take 11
  | .oui => "oui".toList
  | .mac => "mac".toList
  | .pending => "pending".toList
  | .mdns => "mdns".toList

/-- `%ld`. -/
def printLong (value : Int) : Text :=
  if value < 0 then '-' :: Nat.toDigits 10 value.natAbs
  else Nat.toDigits 10 value.natAbs

/-- A key with its value. -/
def jsonField (key : String) (value : Text) : Text :=
  quote key.toList ++ ':' :: value

/-- `strcmp` with each entry of the blacklist. -/
def deviceStatus (blacklist : List Text) (mac : Text) : Text :=
  if mac ∈ blacklist then "blocked".toList else "allowed".toList

/-- `HN_LEN * 6 + 4`. -/
def escapedSize : Nat :=
  64 * 6 + 4

/-- What `fprintf` prints for a slot. -/
def writeDevice (blacklist : List Text) (d : Device) (r : Rest) : Text :=
  let hnSrc := if d.hostnameSrc.text = [] then "mac".toList
    else d.hostnameSrc.text
  quote d.mac ++ ':' :: '\x7b' ::
    (jsonField "ip" (quote d.ip) ++
      ',' :: jsonField "mac" (quote d.mac) ++
      ',' :: jsonField "hostname"
        (quote (hncJsonEscape d.hostname escapedSize)) ++
      ',' :: jsonField "hostname_src" (quote hnSrc) ++
      ',' :: jsonField "iface" (quote r.iface) ++
      ',' :: jsonField "rx_bytes" (printLong r.rxBytes) ++
      ',' :: jsonField "tx_bytes" (printLong r.txBytes) ++
      ',' :: jsonField "status" (quote (deviceStatus blacklist d.mac)) ++
      ',' :: jsonField "last_seen" (printLong d.lastSeen) ++
      ['\x7d'])

/-- The slots that are written, in their order. -/
def Table.active (t : Table) : List (Device × Rest) :=
  (t.daemon.devs.zip t.rest).filter fun slot => slot.1.active

/-- The loop over the slots; the flag is `first`. -/
def writeDevices (blacklist : List Text) : Bool → List (Device × Rest) → Text
  | _, [] => []
  | first, (d, r) :: slots =>
      (if first then [] else [',']) ++ writeDevice blacklist d r ++
        writeDevices blacklist false slots

/-- `write_json`, after the traffic counters are brought up to date and the
blacklist is read. -/
def Table.writeJson (t : Table) (blacklist : List Text) : Text :=
  '\x7b' :: writeDevices blacklist true t.active ++ ['\x7d']

/-! ## Names that fit -/

theorem length_escapeByte (c : Char) : (escapeByte c).length ≤ 6 := by
  unfold escapeByte
  repeat' split
  all_goals simp

theorem escapeLoop_of_fits {dstSize : Nat} {src : Text} (dst : Text)
    (fits : dst.length + 6 * src.length + 1 < dstSize) :
    escapeLoop dstSize dst src = (dst ++ src.flatMap escapeByte, false) := by
  induction src generalizing dst with
  | nil => simp [escapeLoop]
  | cons c src induction =>
      have short := length_escapeByte c
      rw [List.length_cons] at fits
      rw [escapeLoop, if_pos (by omega)]
      rw [if_neg (by omega), induction]
      · simp
      · rw [List.length_append]
        omega

/-- The buffer of `write_json` holds every name of 63 bytes. -/
theorem hncJsonEscape_of_short {src : Text} (short : src.length ≤ 63) :
    hncJsonEscape src escapedSize = src.flatMap escapeByte := by
  have fits : 0 + 6 * src.length + 1 < escapedSize := by
    rw [escapedSize]
    omega
  have loop := @escapeLoop_of_fits escapedSize src [] fits
  have long : (src.flatMap escapeByte).length ≤ 6 * src.length := by
    clear loop fits short
    induction src with
    | nil => simp
    | cons c src induction =>
        have byte := length_escapeByte c
        simp only [List.flatMap_cons, List.length_append, List.length_cons]
        omega
  have room : ¬escapedSize ≤ (src.flatMap escapeByte).length + 1 := by
    omega
  have roomy : (false || (src != [] &&
      decide (escapedSize ≤ (src.flatMap escapeByte).length + 1))) = false := by
    rw [decide_eq_false room, Bool.and_false, Bool.or_false]
  rw [hncJsonEscape, loop, List.nil_append]
  dsimp only
  rw [roomy]
  rfl

theorem escapeByte_cases (c : Char) :
    (∃ e ∈ "\"\\nrt".toList, escapeByte c = ['\\', e] ∧ (e = '"' ↔ c = '"')) ∨
      (∃ high ∈ hexDigits, ∃ low ∈ hexDigits,
        escapeByte c = ['\\', 'u', '0', '0', high, low] ∧ c ≠ '"') ∨
      escapeByte c = [c] ∧ c ≠ '"' ∧ c ≠ '\\' ∧ 0x20 ≤ c.toNat := by
  have hex : ∀ n < 16, Nat.digitChar n ∈ hexDigits := by decide
  unfold escapeByte
  split
  · rename_i special
    rcases special with rfl | rfl <;> simp
  · rename_i plain
    simp only [not_or] at plain
    split
    · exact .inl ⟨'n', by decide, rfl, by simp [plain.1]⟩
    · split
      · exact .inl ⟨'r', by decide, rfl, by simp [plain.1]⟩
      · split
        · exact .inl ⟨'t', by decide, rfl, by simp [plain.1]⟩
        · split
          · exact .inr (.inl ⟨_, hex _ (by omega), _, hex _ (by omega), rfl,
              plain.1⟩)
          · exact .inr (.inr ⟨rfl, plain.1, plain.2, by omega⟩)

theorem escapeByte_of_high {c : Char} (high : 128 ≤ c.toNat) :
    escapeByte c = [c] := by
  have other (d : Char) (low : d.toNat < 128) : c ≠ d := by
    rintro rfl
    omega
  simp [escapeByte, other '"' (by decide), other '\\' (by decide),
    other '\n' (by decide), other '\r' (by decide), other '\t' (by decide),
    show ¬c.toNat < 0x20 by omega]

theorem ascii_escapeByte {c : Char} (low : c.toNat < 128) :
    ∀ d ∈ escapeByte c, d.toNat < 128 := by
  have letters : ("\"\\nrt".toList.all fun d => decide (d.toNat < 128)) =
      true := by decide
  have hex : (hexDigits.all fun d => decide (d.toNat < 128)) = true := by
    decide
  simp only [List.all_eq_true, decide_eq_true_eq] at letters hex
  rcases escapeByte_cases c with
    ⟨e, listed, pair, _⟩ | ⟨high, first, low, second, code, _⟩ | ⟨byte, _⟩
  · rw [pair]
    simpa using letters e listed
  · rw [code]
    simpa using ⟨hex high first, hex low second⟩
  · rw [byte]
    simpa using low

/-! ## The layout of the file -/

def hnSrc (src : Source) : Text :=
  if src.text = [] then "mac".toList else src.text

/-- The fields behind the name. -/
def fieldsBehindName (blacklist : List Text) (d : Device) (r : Rest) :
    List Member :=
  [bare "hostname_src".toList (quote (hnSrc d.hostnameSrc)),
    bare "iface".toList (quote r.iface),
    bare "rx_bytes".toList (printLong r.rxBytes),
    bare "tx_bytes".toList (printLong r.txBytes),
    bare "status".toList (quote (deviceStatus blacklist d.mac)),
    bare "last_seen".toList (printLong d.lastSeen)]

def deviceFields (blacklist : List Text) (d : Device) (r : Rest) :
    List Member :=
  bare "ip".toList (quote d.ip) ::
    bare "mac".toList (quote d.mac) ::
    bare "hostname".toList (quote (hncJsonEscape d.hostname escapedSize)) ::
    fieldsBehindName blacklist d r

def deviceObj (blacklist : List Text) (d : Device) (r : Rest) : Obj :=
  ⟨deviceFields blacklist d r, []⟩

def deviceMember (blacklist : List Text) (slot : Device × Rest) : Member :=
  bare slot.1.mac (deviceObj blacklist slot.1 slot.2).render

def Table.fileObj (t : Table) (blacklist : List Text) : Obj :=
  ⟨t.active.map (deviceMember blacklist), []⟩

theorem render_bare (key val : Text) :
    (bare key val).render = quote key ++ ':' :: val := by
  simp [bare, Member.render, Member.fromKey, Member.fromValue]

theorem writeDevice_eq (blacklist : List Text) (d : Device) (r : Rest) :
    writeDevice blacklist d r = (deviceMember blacklist (d, r)).render := by
  rw [deviceMember, writeDevice]
  simp only [deviceObj, Obj.render, Obj.inner, deviceFields, fieldsBehindName,
    more, List.flatMap_cons, List.flatMap_nil, render_bare, jsonField, hnSrc,
    List.cons_append, List.append_assoc, List.append_nil]

theorem writeDevices_more (blacklist : List Text)
    (slots : List (Device × Rest)) :
    writeDevices blacklist false slots =
      more (slots.map (deviceMember blacklist)) := by
  induction slots with
  | nil => rfl
  | cons slot slots induction =>
      simp [writeDevices, induction, more, writeDevice_eq]

theorem Table.writeJson_eq (t : Table) (blacklist : List Text) :
    t.writeJson blacklist = (t.fileObj blacklist).render := by
  rw [Table.writeJson, Obj.render, Table.fileObj, Obj.inner]
  cases t.active with
  | nil => rfl
  | cons slot slots =>
      simp [writeDevices, writeDevice_eq, writeDevices_more]

end Hnc.Hotspotd
