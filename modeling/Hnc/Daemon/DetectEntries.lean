import Hnc.Daemon.DetectScan
import Hnc.Daemon.DevicesJson

/-!
# The entries of `devices.json`

`write_json` and `do_scan_shell` lay a device out in the same way.  An entry is
what such a record says, and a file reports some entries when it is a JSON text
from which they are read back.
-/

namespace Hnc.DeviceDetect

open Posix JsonText
open Hotspotd (SpellsBytes escapeByte printLong IsPlain)

/-- A device as the file shows it. -/
structure Entry where
  mac : Text
  ip : Text
  hostname : Text
  hostnameSrc : Text
  iface : Text
  rxBytes : Int
  txBytes : Int
  status : Text
  lastSeen : Int
deriving DecidableEq

namespace Entry

/-- What a member of the file has to say. -/
structure Decodes (entry : Entry) (m : Text × Json) : Prop where
  key : ∃ text, Unescapes m.1 text ∧ encode text = entry.mac
  fields : ∃ ip mac hostname hostnameSrc iface status,
    m.2 = .object [("ip".toList, ip), ("mac".toList, mac),
      ("hostname".toList, hostname), ("hostname_src".toList, hostnameSrc),
      ("iface".toList, iface),
      ("rx_bytes".toList, .number (printLong entry.rxBytes)),
      ("tx_bytes".toList, .number (printLong entry.txBytes)),
      ("status".toList, status),
      ("last_seen".toList, .number (printLong entry.lastSeen))] ∧
    SpellsBytes ip entry.ip ∧ SpellsBytes mac entry.mac ∧
    SpellsBytes hostname entry.hostname ∧
    SpellsBytes hostnameSrc entry.hostnameSrc ∧
    SpellsBytes iface entry.iface ∧ SpellsBytes status entry.status

def statuses : List Text :=
  ["allowed".toList, "blocked".toList, "stale".toList]

/-- The addresses are addresses, the name consists of whole characters, and
nothing else needs an escape. -/
structure Sound (entry : Entry) : Prop where
  mac : isLowerMac entry.mac = true
  ip : isDottedQuad entry.ip = true
  hostname : IsUtf8 entry.hostname
  hostnameSrc : IsPlain entry.hostnameSrc
  iface : IsPlain entry.iface
  status : entry.status ∈ statuses
  lastSeen : 0 ≤ entry.lastSeen

/-! ### Layout -/

def fieldsBehind (entry : Entry) : List (Text × Text) :=
  [("last_seen".toList, printLong entry.lastSeen)]

/-- The fields in front of the status. -/
def fieldsFront (entry : Entry) : List (Text × Text) :=
  [("ip".toList, quote entry.ip), ("mac".toList, quote entry.mac),
    ("hostname".toList, quote (entry.hostname.flatMap escapeByte)),
    ("hostname_src".toList, quote entry.hostnameSrc),
    ("iface".toList, quote entry.iface),
    ("rx_bytes".toList, printLong entry.rxBytes),
    ("tx_bytes".toList, printLong entry.txBytes)]

def fields (entry : Entry) : List (Text × Text) :=
  entry.fieldsFront ++ ("status".toList, quote entry.status) :: entry.fieldsBehind

def obj (entry : Entry) : Obj :=
  ⟨entry.fields.map Member.tight, []⟩

def member (entry : Entry) : Member :=
  bare entry.mac entry.obj.render

end Entry

/-- The text of a file with these entries. -/
def fileText (entries : List Entry) : Text :=
  (Obj.mk (entries.map Entry.member) []).render

/-- The file is a JSON text in UTF-8 with one member for each entry and no other;
no file reports nothing. -/
def Reports (file : Option Text) (entries : List Entry) : Prop :=
  match file with
  | none => entries = []
  | some bytes =>
      (∃ text members, encode text = bytes ∧ Denotes text (.object members) ∧
        List.Forall₂ Entry.Decodes entries members) ∧
      (entries.map Entry.mac).Nodup

theorem isPlain_statuses {status : Text} (listed : status ∈ Entry.statuses) :
    IsPlain status := by
  have plain : Entry.statuses.all (fun text => text.all Hotspotd.isPlainByte) = true := by
    decide
  exact Hotspotd.isPlain_of_all (List.all_eq_true.mp plain status listed)

theorem isPlain_lowerMac {mac : Text} (shape : isLowerMac mac = true) :
    IsPlain mac := by
  apply Hotspotd.isPlain_of_all
  apply List.all_eq_true.mpr
  intro c member
  have range : '0'.toNat = 48 ∧ '9'.toNat = 57 ∧ 'a'.toNat = 97 ∧
      'f'.toNat = 102 ∧ '"'.toNat = 34 ∧ '\\'.toNat = 92 := by decide
  rcases (Mac.mk mac shape).chars c member with hex | rfl
  · simp only [isLowerHex, isDigit, Bool.or_eq_true, Bool.and_eq_true,
      decide_eq_true_eq] at hex
    simp [Hotspotd.isPlainByte]
    omega
  · decide

theorem spellsBytes_name {name : Text} (whole : IsUtf8 name) :
    ∃ raw, Chars raw ∧ encode raw = name.flatMap escapeByte ∧
      SpellsBytes (.string raw) name := by
  obtain ⟨text, rfl⟩ := whole
  obtain ⟨chars, unescapes⟩ := Hotspotd.escaped_name text
  exact ⟨_, chars, (Hotspotd.escape_encode text).symm, _, _, rfl, unescapes, rfl⟩

/-- A record of the file reads as an entry. -/
theorem Entry.Sound.reads {entry : Entry} (sound : entry.Sound) :
    ∃ m, Reads entry.member m ∧ entry.Decodes m := by
  obtain ⟨ip, ipChars, ipBytes, spellsIp⟩ := SpellsBytes.of_plain (Hotspotd.isPlain_ip sound.ip)
  obtain ⟨mac, macChars, macBytes, spellsMac⟩ :=
    SpellsBytes.of_plain (isPlain_lowerMac sound.mac)
  obtain ⟨name, nameChars, nameBytes, spellsName⟩ :=
    spellsBytes_name sound.hostname
  obtain ⟨src, srcChars, srcBytes, spellsSrc⟩ :=
    SpellsBytes.of_plain sound.hostnameSrc
  obtain ⟨iface, ifaceChars, ifaceBytes, spellsIface⟩ :=
    SpellsBytes.of_plain sound.iface
  obtain ⟨status, statusChars, statusBytes, spellsStatus⟩ :=
    SpellsBytes.of_plain (isPlain_statuses sound.status)
  obtain ⟨text, bytes, derives⟩ := reads_object
    (.cons (Hotspotd.reads_label "ip" (by decide) ipChars ipBytes)
      (.cons (Hotspotd.reads_label "mac" (by decide) macChars macBytes)
        (.cons (Hotspotd.reads_label "hostname" (by decide) nameChars nameBytes)
          (.cons (Hotspotd.reads_label "hostname_src" (by decide) srcChars srcBytes)
            (.cons (Hotspotd.reads_label "iface" (by decide) ifaceChars ifaceBytes)
              (.cons (Hotspotd.reads_count "rx_bytes" (by decide) entry.rxBytes)
                (.cons (Hotspotd.reads_count "tx_bytes" (by decide) entry.txBytes)
                  (.cons (Hotspotd.reads_label "status" (by decide) statusChars
                      statusBytes)
                    (.cons (Hotspotd.reads_count "last_seen" (by decide)
                        entry.lastSeen) .nil)))))))))
  obtain ⟨key, keyBytes, keyFree⟩ := isPlain_lowerMac sound.mac
  refine ⟨(key, _), reads_bare keyBytes (chars_of_escapeFree keyFree) bytes
    derives, ⟨key, Hotspotd.unescapes_of_escapeFree keyFree, keyBytes⟩, ?_⟩
  exact ⟨_, _, _, _, _, _, rfl, spellsIp, spellsMac, spellsName, spellsSrc,
    spellsIface, spellsStatus⟩

theorem reports_fileText {entries : List Entry}
    (sound : ∀ entry ∈ entries, entry.Sound)
    (once : (entries.map Entry.mac).Nodup) :
    Reports (some (fileText entries)) entries := by
  have each : ∃ members, List.Forall₂ Reads (entries.map Entry.member) members ∧
      List.Forall₂ Entry.Decodes entries members := by
    clear once
    induction entries with
    | nil => exact ⟨[], .nil, .nil⟩
    | cons entry entries induction =>
        obtain ⟨m, reads, decodes⟩ := (sound entry List.mem_cons_self).reads
        obtain ⟨members, others, rest⟩ := induction fun other member =>
          sound other (List.mem_cons_of_mem entry member)
        exact ⟨m :: members, .cons reads others, .cons decodes rest⟩
  obtain ⟨members, reads, decodes⟩ := each
  obtain ⟨text, bytes, derives⟩ := reads_object reads
  refine ⟨⟨text, members, bytes, ?_, decodes⟩, once⟩
  exact ⟨[], text, [], (List.append_nil text).symm, rfl, derives, rfl⟩

/-- What `write_json` prints for a slot. -/
def entryOfSlot (listed : List Text) (slot : Hotspotd.Device × Hotspotd.Rest) :
    Entry where
  mac := slot.1.mac
  ip := slot.1.ip
  hostname := slot.1.hostname
  hostnameSrc := slot.1.hostnameSrc.text
  iface := slot.2.iface
  rxBytes := slot.2.rxBytes
  txBytes := slot.2.txBytes
  status := Hotspotd.deviceStatus listed slot.1.mac
  lastSeen := slot.1.lastSeen

theorem member_entryOfSlot {slot : Hotspotd.Device × Hotspotd.Rest}
    (listed : List Text) (short : slot.1.hostname.length ≤ 63) :
    (entryOfSlot listed slot).member = Hotspotd.deviceMember listed slot := by
  have name := Hotspotd.hncJsonEscape_of_short short
  have src := Hotspotd.hnSrc_eq slot.1.hostnameSrc
  rw [Hotspotd.deviceMember, Hotspotd.deviceObj, Hotspotd.deviceFields,
    Hotspotd.fieldsBehindName, name, src]
  rfl

theorem fileText_slots (table : Hotspotd.Table) (listed : List Text)
    (short : ∀ slot ∈ table.active, slot.1.hostname.length ≤ 63) :
    fileText (table.active.map (entryOfSlot listed)) = table.writeJson listed := by
  rw [table.writeJson_eq, fileText, List.map_map]
  congr 2
  apply List.map_congr_left
  intro slot member
  exact member_entryOfSlot listed (short slot member)

theorem escapeByte_visible {c : Char} (visible : 0x20 ≤ c.toNat) :
    escapeByte c = if c = '"' ∨ c = '\\' then ['\\', c] else [c] := by
  have newline : c ≠ '\n' := by
    rintro rfl
    exact absurd visible (by decide)
  have return_ : c ≠ '\r' := by
    rintro rfl
    exact absurd visible (by decide)
  have tab : c ≠ '\t' := by
    rintro rfl
    exact absurd visible (by decide)
  rw [escapeByte, if_neg newline, if_neg return_, if_neg tab,
    if_neg (Nat.not_lt.mpr visible)]

/-- The escapes of the scanner are those of the daemon on visible characters. -/
theorem hnJson_eq {name : Text} (visible : ∀ c ∈ name, 0x20 ≤ c.toNat) :
    hnJson name = name.flatMap escapeByte := by
  have all : (name.filter fun c => 0x20 ≤ c.toNat) = name :=
    List.filter_eq_self.mpr fun c member => decide_eq_true (visible c member)
  rw [hnJson, all]
  clear all
  induction name with
  | nil => rfl
  | cons c name induction =>
      have rest := induction fun d member => visible d (List.mem_cons_of_mem c member)
      have here := escapeByte_visible (visible c List.mem_cons_self)
      rw [List.flatMap_cons, here, doubleBackslash, List.flatMap_cons,
        List.flatMap_append]
      congr 1
      by_cases slash : c = '\\'
      · rw [slash]
        rfl
      · rw [if_neg slash, List.flatMap_singleton]
        by_cases quoteChar : c = '"'
        · rw [quoteChar]
          rfl
        · rw [if_neg quoteChar, if_neg (not_or.mpr ⟨quoteChar, slash⟩)]

theorem deviceBlock_eq {entry : Entry} {bytes : Nat × Nat} {ts : Nat}
    (visible : ∀ c ∈ entry.hostname, 0x20 ≤ c.toNat)
    (rx : entry.rxBytes = bytes.1) (tx : entry.txBytes = bytes.2)
    (seen : entry.lastSeen = ts) :
    deviceBlock entry.mac entry.ip entry.hostname entry.hostnameSrc entry.iface
      entry.status bytes ts = entry.member.render := by
  have plain (n : Nat) : printLong (n : Int) = Nat.toDigits 10 n := by
    rw [printLong, if_neg (Int.not_lt.mpr (Int.natCast_nonneg n)), Int.natAbs_natCast]
  rw [Entry.member, Hotspotd.render_bare, deviceBlock, hnJson_eq visible]
  simp only [Entry.obj, Entry.fields, Entry.fieldsFront, Entry.fieldsBehind, rx,
    tx, seen, plain, Obj.render, Obj.inner, more, List.cons_append,
    List.nil_append, List.map_cons, List.map_nil, List.flatMap_cons,
    List.flatMap_nil, Member.tight, Member.render, Member.fromKey,
    Member.fromValue, Hotspotd.jsonField, List.append_assoc]

end Hnc.DeviceDetect
