import Hnc.Daemon.DevicesSearch
import Hnc.Daemon.NameSources
import Hnc.Json.GetterAnswers
import Hnc.Lib.JsonBytes

/-!
# `devices.json` as JSON

The bytes that `write_json` prints are a JSON object with the fields of every
active device when the names are whole characters and nothing but the names
needs an escape.
-/

namespace Hnc.Hotspotd

open Posix JsonText

/-- A string whose text has these bytes. -/
def SpellsBytes (value : Json) (bytes : Text) : Prop :=
  ∃ raw text, value = .string raw ∧ Unescapes raw text ∧ encode text = bytes

/-- A member of the file from which a slot is read back. -/
structure Decodes (slot : Device × Rest) (entry : Text × Json) : Prop where
  key : ∃ text, Unescapes entry.1 text ∧ encode text = slot.1.mac
  fields : ∃ ip mac hostname hostnameSrc iface status,
    entry.2 = .object [("ip".toList, ip), ("mac".toList, mac),
      ("hostname".toList, hostname), ("hostname_src".toList, hostnameSrc),
      ("iface".toList, iface),
      ("rx_bytes".toList, .number (printLong slot.2.rxBytes)),
      ("tx_bytes".toList, .number (printLong slot.2.txBytes)),
      ("status".toList, status),
      ("last_seen".toList, .number (printLong slot.1.lastSeen))] ∧
    SpellsBytes ip slot.1.ip ∧ SpellsBytes mac slot.1.mac ∧
    SpellsBytes hostname slot.1.hostname ∧
    SpellsBytes hostnameSrc slot.1.hostnameSrc.text ∧
    SpellsBytes iface slot.2.iface

/-- The file is a JSON text in UTF-8 with one member for each active device. -/
structure WellFormed (t : Table) (blacklist : List Text) : Prop where
  object : ∃ text entries, encode text = t.writeJson blacklist ∧
    Denotes text (.object entries) ∧ List.Forall₂ Decodes t.active entries
  unique : (t.active.map fun slot => slot.1.mac).Nodup

/-- What an active slot has to hold. -/
structure Printable (d : Device) (r : Rest) : Prop where
  mac : JsonSetBatch.isMacLine d.mac = true
  ip : isDottedQuad d.ip = true
  name : IsStored d.hostname
  src : IsPlain d.hostnameSrc.text
  iface : IsPlain r.iface

/-! ## Escaped names -/

theorem unescapes_of_escapeFree {text : Text} (free : escapeFree text = true) :
    Unescapes text text := by
  apply unescapes_self
  intro member
  have char := List.all_eq_true.mp free _ member
  exact absurd char (by decide)

theorem codeUnit_control : ∀ n : Fin 0x20,
    codeUnit ['0', '0', Nat.digitChar (n / 16), Nat.digitChar (n % 16)] = n := by
  decide

/-- The string of an escaped name, and what it stands for. -/
theorem escaped_name (name : Text) :
    Chars (name.flatMap escapeByte) ∧
      Unescapes (name.flatMap escapeByte) name := by
  induction name with
  | nil => exact ⟨.nil, .nil⟩
  | cons c name induction =>
      obtain ⟨chars, unescapes⟩ := induction
      have letter (e d : Char) (escape : e ∈ "\"\\/bfnrt".toList)
          (listed : (e, d) ∈ letterEscapes) :
          Chars (['\\', e] ++ name.flatMap escapeByte) ∧
            Unescapes (['\\', e] ++ name.flatMap escapeByte) (d :: name) :=
        ⟨.escape escape chars, .letter listed unescapes⟩
      rw [List.flatMap_cons, escapeByte]
      split
      · rename_i special
        rcases special with rfl | rfl
        · exact letter '"' '"' (by decide) (by decide)
        · exact letter '\\' '\\' (by decide) (by decide)
      · rename_i plain
        rw [not_or] at plain
        split
        · rename_i same
          exact same ▸ letter 'n' '\n' (by decide) (by decide)
        · split
          · rename_i same
            exact same ▸ letter 'r' '\r' (by decide) (by decide)
          · split
            · rename_i same
              exact same ▸ letter 't' '\t' (by decide) (by decide)
            · split
              · rename_i control
                have hex : ∀ n < 16, Nat.digitChar n ∈ hexDigits := by decide
                have digits : ∀ h ∈ ['0', '0', Nat.digitChar (c.toNat / 16),
                    Nat.digitChar (c.toNat % 16)], h ∈ hexDigits := by
                  simp only [List.forall_mem_cons, List.not_mem_nil, false_imp_iff,
                    implies_true, and_true]
                  exact ⟨by decide, by decide, hex _ (by omega),
                    hex _ (by omega)⟩
                refine ⟨.unicode digits chars, ?_⟩
                have code := codeUnit_control ⟨c.toNat, control⟩
                have step := @Unescapes.unicode _ _ _ rfl digits
                  (.inl (by rw [code]; omega)) unescapes
                rw [code, Char.ofNat_toNat] at step
                exact step
              · rename_i visible
                have space : ' '.toNat ≤ c.toNat := Nat.le_of_not_lt visible
                exact ⟨.unescaped space plain.1 plain.2 chars,
                  .plain plain.2 unescapes⟩

theorem escape_encode (name : Text) :
    (encode name).flatMap escapeByte = encode (name.flatMap escapeByte) := by
  induction name with
  | nil => rfl
  | cons c name induction =>
      rw [encode_cons, List.flatMap_append, List.flatMap_cons, encode_append]
      congr 1
      by_cases ascii : c.toNat < 128
      · rw [encode_ascii (by simpa using ascii),
          encode_ascii (ascii_escapeByte ascii)]
        simp
      · have high := Nat.le_of_not_lt ascii
        rw [escapeByte_of_high high]
        have bytes : ∀ b ∈ encode [c], escapeByte b = [b] := fun b member =>
          escapeByte_of_high (high_of_mem_encode member high)
        generalize encode [c] = encoded at bytes
        induction encoded with
        | nil => rfl
        | cons b encoded induction =>
            rw [List.flatMap_cons, bytes b (by simp),
              induction fun other member => bytes other (by simp [member])]
            rfl

/-! ## The fields -/

theorem SpellsBytes.of_plain {bytes : Text} (plain : IsPlain bytes) :
    ∃ raw, Chars raw ∧ encode raw = bytes ∧
      SpellsBytes (.string raw) bytes := by
  obtain ⟨text, same, free⟩ := plain
  exact ⟨text, chars_of_escapeFree free, same, text, text, rfl,
    unescapes_of_escapeFree free, same⟩

theorem SpellsBytes.of_name {name : Text} (stored : IsStored name) :
    ∃ raw, Chars raw ∧ encode raw = hncJsonEscape name escapedSize ∧
      SpellsBytes (.string raw) name := by
  obtain ⟨text, rfl⟩ := stored.whole
  obtain ⟨chars, unescapes⟩ := escaped_name text
  refine ⟨_, chars, ?_, _, _, rfl, unescapes, rfl⟩
  rw [hncJsonEscape_of_short stored.short, escape_encode]

/-- Visible ASCII, without the quote and the backslash. -/
def isPlainByte (c : Char) : Bool :=
  0x20 ≤ c.toNat && c.toNat < 0x7f && c.toNat != '"'.toNat &&
    c.toNat != '\\'.toNat

theorem isPlain_of_all {bytes : Text} (chars : bytes.all isPlainByte = true) :
    IsPlain bytes := by
  have each : ∀ c ∈ bytes, 0x20 ≤ c.toNat ∧ c.toNat < 0x7f ∧ c ≠ '"' ∧
      c ≠ '\\' := by
    intro c member
    have char := List.all_eq_true.mp chars c member
    simp only [isPlainByte, Bool.and_eq_true, decide_eq_true_eq,
      bne_iff_ne] at char
    refine ⟨char.1.1.1, char.1.1.2, ?_, ?_⟩
    · rintro rfl
      exact char.1.2 rfl
    · rintro rfl
      exact char.2 rfl
  refine isPlain_of_ascii (fun c member => ?_) (List.all_eq_true.mpr ?_)
  · have visible := (each c member).2.1
    omega
  · intro c member
    obtain ⟨visible, _, quote, slash⟩ := each c member
    simp [quote, slash, isControl, visible]

theorem isPlainByte_of_isMacChar {c : Char}
    (char : DeviceNames.isMacChar c = true) : isPlainByte c = true := by
  simp only [DeviceNames.isMacChar, Guard.isHex, isDigit, Bool.or_eq_true,
    Bool.and_eq_true, decide_eq_true_eq, beq_iff_eq] at char
  have low : '0'.toNat = 48 ∧ '9'.toNat = 57 ∧ 'a'.toNat = 97 ∧
      'f'.toNat = 102 ∧ 'A'.toNat = 65 ∧ 'F'.toNat = 70 ∧ '"'.toNat = 34 ∧
      '\\'.toNat = 92 := by decide
  rcases char with ((digit | small) | large) | rfl
  · simp [isPlainByte]
    omega
  · simp [isPlainByte]
    omega
  · simp [isPlainByte]
    omega
  · decide

theorem isPlain_mac {mac : Text} (shape : JsonSetBatch.isMacLine mac = true) :
    IsPlain mac := by
  obtain ⟨_, _, _, _, _, _, _, chars⟩ := (DeviceNames.MacArg.mk mac shape).parts
  apply isPlain_of_all
  exact List.all_eq_true.mpr fun c member =>
    isPlainByte_of_isMacChar (List.all_eq_true.mp chars c member)

theorem isPlainByte_of_isDigit {c : Char} (digit : isDigit c = true) :
    isPlainByte c = true := by
  apply isPlainByte_of_isMacChar
  simp [DeviceNames.isMacChar, Guard.isHex, digit]

theorem isPlain_ip {ip : Text} (shape : isDottedQuad ip = true) : IsPlain ip := by
  apply isPlain_of_all
  apply List.all_eq_true.mpr
  intro c member
  rcases (Ipv4.mk ip shape).chars c member with digit | rfl
  · exact isPlainByte_of_isDigit digit
  · decide

theorem number_printLong (value : Int) : Number (printLong value) := by
  have integer := integer_toDigits value.natAbs
  rw [printLong]
  split
  · simpa using Number.parts (.inr rfl) integer .absent .absent
  · simpa using Number.parts (.inl rfl) integer .absent .absent

theorem ascii_printLong (value : Int) :
    ∀ c ∈ printLong value, c.toNat < 128 := by
  have digits : ∀ c ∈ Nat.toDigits 10 value.natAbs, c.toNat < 128 := by
    intro c member
    have digit := isDigit_of_mem_toDigits member
    simp only [isDigit, Bool.and_eq_true, decide_eq_true_eq] at digit
    exact Nat.lt_of_le_of_lt digit.2 (by decide)
  have minus : '-'.toNat < 128 := by decide
  rw [printLong]
  split
  · simpa [minus] using digits
  · exact digits

theorem isPlain_status (blacklist : List Text) (mac : Text) :
    IsPlain (deviceStatus blacklist mac) := by
  apply isPlain_of_all
  unfold deviceStatus
  split <;> decide

/-- The label of a name is never empty. -/
theorem hnSrc_eq (src : Source) : hnSrc src = src.text := by
  rw [hnSrc, if_neg]
  cases src with
  | cached cached => exact List.cons_ne_nil _ _
  | _ => exact List.cons_ne_nil _ _

/-- A name of a field as `write_json` has it. -/
def isLabel (label : Text) : Bool :=
  label.all (fun c => decide (c.toNat < 128)) && escapeFree label

theorem isLabel_parts {label : Text} (ok : isLabel label = true) :
    (∀ c ∈ label, c.toNat < 128) ∧ escapeFree label = true := by
  rw [isLabel, Bool.and_eq_true, List.all_eq_true] at ok
  exact ⟨fun c member => of_decide_eq_true (ok.1 c member), ok.2⟩

theorem reads_label (label : String) (ok : isLabel label.toList = true)
    {raw body : Text} (chars : Chars raw) (bytes : encode raw = body) :
    Reads (bare label.toList (quote body)) (label.toList, .string raw) :=
  reads_string (isLabel_parts ok).1 (isLabel_parts ok).2 chars bytes

theorem reads_count (label : String) (ok : isLabel label.toList = true)
    (value : Int) :
    Reads (bare label.toList (printLong value))
      (label.toList, .number (printLong value)) :=
  reads_number (isLabel_parts ok).1 (isLabel_parts ok).2
    (number_printLong value) (ascii_printLong value)

/-- The record of a slot reads as the object of its fields. -/
theorem reads_slot (blacklist : List Text) {d : Device} {r : Rest}
    (printable : Printable d r) :
    ∃ entry, Reads (deviceMember blacklist (d, r)) entry ∧
      Decodes (d, r) entry := by
  obtain ⟨ip, ipChars, ipBytes, spellsIp⟩ :=
    SpellsBytes.of_plain (isPlain_ip printable.ip)
  obtain ⟨mac, macChars, macBytes, spellsMac⟩ :=
    SpellsBytes.of_plain (isPlain_mac printable.mac)
  obtain ⟨name, nameChars, nameBytes, spellsName⟩ :=
    SpellsBytes.of_name printable.name
  obtain ⟨src, srcChars, srcBytes, spellsSrc⟩ :=
    SpellsBytes.of_plain printable.src
  obtain ⟨iface, ifaceChars, ifaceBytes, spellsIface⟩ :=
    SpellsBytes.of_plain printable.iface
  obtain ⟨status, statusChars, statusBytes, _⟩ :=
    SpellsBytes.of_plain (isPlain_status blacklist d.mac)
  rw [← hnSrc_eq] at srcBytes
  obtain ⟨text, bytes, derives⟩ := reads_object
    (.cons (reads_label "ip" (by decide) ipChars ipBytes)
      (.cons (reads_label "mac" (by decide) macChars macBytes)
        (.cons (reads_label "hostname" (by decide) nameChars nameBytes)
          (.cons (reads_label "hostname_src" (by decide) srcChars srcBytes)
            (.cons (reads_label "iface" (by decide) ifaceChars ifaceBytes)
              (.cons (reads_count "rx_bytes" (by decide) r.rxBytes)
                (.cons (reads_count "tx_bytes" (by decide) r.txBytes)
                  (.cons (reads_label "status" (by decide) statusChars
                      statusBytes)
                    (.cons (reads_count "last_seen" (by decide) d.lastSeen)
                      .nil)))))))))
  obtain ⟨key, keyBytes, keyFree⟩ := isPlain_mac printable.mac
  refine ⟨(key, _), reads_bare keyBytes (chars_of_escapeFree keyFree) bytes
    derives, ⟨key, unescapes_of_escapeFree keyFree, keyBytes⟩, ?_⟩
  exact ⟨_, _, _, _, _, _, rfl, spellsIp, spellsMac, spellsName, spellsSrc,
    spellsIface⟩

theorem wellFormed_of_printable {t : Table}
    (printable : ∀ slot ∈ t.active, Printable slot.1 slot.2)
    (unique : (t.active.map fun slot => slot.1.mac).Nodup)
    (blacklist : List Text) : WellFormed t blacklist := by
  have each : ∃ entries,
      List.Forall₂ Reads (t.active.map (deviceMember blacklist)) entries ∧
        List.Forall₂ Decodes t.active entries := by
    generalize t.active = slots at printable
    induction slots with
    | nil => exact ⟨[], .nil, .nil⟩
    | cons slot slots induction =>
        obtain ⟨entry, reads, decodes⟩ :=
          reads_slot blacklist (printable slot (by simp))
        obtain ⟨entries, others, rest⟩ :=
          induction fun other member => printable other (by simp [member])
        exact ⟨entry :: entries, .cons reads others, .cons decodes rest⟩
  obtain ⟨entries, reads, decodes⟩ := each
  obtain ⟨text, bytes, derives⟩ := reads_object reads
  refine ⟨⟨text, entries, ?_, ?_, decodes⟩, unique⟩
  · rw [bytes, t.writeJson_eq, Table.fileObj]
  · exact ⟨[], text, [], by simp, rfl, derives, rfl⟩

end Hnc.Hotspotd
