import Hnc.Daemon.DetectReport
import Hnc.Lib.Runs

/-!
# `devices.json` over the runs of its writers

Every file of a run reports the devices of the ARP table and the ones that were
seen shortly before, as long as no name has a separator in it, no name of a kept
device has a brace in it, and the blacklist is where the scanner looks for it.
-/

namespace Hnc.DeviceDetect

open Posix JsonText

/-! ### Runs -/

/-- The file, and what it should report. -/
structure State where
  file : Option Text
  shown : List Entry

def start : State := ⟨none, []⟩

/-- The writers of the file, with the addresses that the rules file lists. -/
inductive Step where
  | writeJson (table : Hotspotd.Table) (listed : List Text)
  | doScanShell (scan : Scan) (listed : List Text)

def advance (state : State) : Step → State
  | .writeJson table listed =>
      ⟨some (table.writeJson listed), table.active.map (entryOfSlot listed)⟩
  | .doScanShell scan listed =>
      ⟨some (scan.doScanShell state.file), scan.report listed state.shown⟩

/-- A table of the daemon: printable slots with addresses in lower case. -/
structure Written (table : Hotspotd.Table) : Prop where
  printable : ∀ slot ∈ table.active, Hotspotd.Printable slot.1 slot.2
  lower : ∀ slot ∈ table.active, isLowerMac slot.1.mac = true
  seen : ∀ slot ∈ table.active, 0 ≤ slot.1.lastSeen
  once : (table.active.map fun slot => slot.1.mac).Nodup

def Step.Proper : Step → Prop
  | .writeJson table _ => Written table
  | .doScanShell scan listed => scan.Proper listed

def Step.Safe (shown : List Entry) : Step → Prop
  | .writeJson _ _ => True
  | .doScanShell scan listed => scan.Safe listed shown

/-- The file is the text of what it should report. -/
structure Tells (state : State) : Prop where
  sound : ∀ entry ∈ state.shown, entry.Sound
  once : (state.shown.map Entry.mac).Nodup
  text : state.file = none ∧ state.shown = [] ∨
    state.file = some (fileText state.shown)

theorem Tells.reports {state : State} (tells : Tells state) :
    Reports state.file state.shown := by
  rcases tells.text with ⟨absent, empty⟩ | written
  · rw [absent]
    exact empty
  · rw [written]
    exact reports_fileText tells.sound tells.once

theorem tells_start : Tells start where
  sound := fun _ member => nomatch member
  once := List.nodup_nil
  text := .inl ⟨rfl, rfl⟩

theorem entryOfSlot_sound {table : Hotspotd.Table} (written : Written table)
    (listed : List Text) {slot : Hotspotd.Device × Hotspotd.Rest}
    (member : slot ∈ table.active) : (entryOfSlot listed slot).Sound where
  mac := written.lower slot member
  ip := (written.printable slot member).ip
  hostname := (written.printable slot member).name.whole
  hostnameSrc := (written.printable slot member).src
  iface := (written.printable slot member).iface
  status := by
    show Hotspotd.deviceStatus listed slot.1.mac ∈ Entry.statuses
    unfold Hotspotd.deviceStatus
    split
    · decide
    · decide
  lastSeen := written.seen slot member

theorem tells_advance {state : State} (tells : Tells state) {step : Step}
    (proper : step.Proper) (safe : step.Safe state.shown) :
    Tells (advance state step) := by
  cases step with
  | writeJson table listed =>
      refine ⟨?_, ?_, .inr ?_⟩
      · intro entry member
        obtain ⟨slot, active, rfl⟩ := List.mem_map.mp member
        exact entryOfSlot_sound proper listed active
      · show ((table.active.map (entryOfSlot listed)).map Entry.mac).Nodup
        rw [List.map_map]
        exact proper.once
      · exact congrArg some (fileText_slots table listed fun slot active =>
          (proper.printable slot active).name.short).symm
  | doScanShell scan listed =>
      refine ⟨?_, ?_, .inr ?_⟩
      · exact Scan.report_sound proper safe tells.sound
      · exact Scan.report_once proper tells.once
      · exact congrArg some
          (Scan.doScanShell_eq proper safe tells.sound state.file tells.text)

def phoneLine : ArpLine :=
  ⟨phoneIp, "0x2".toList, phone, "wlan2".toList⟩

/-- A scan in which every device has this name and the phone is blocked. -/
def namedScan (name : String) (ts : Nat) (arp : List ArpLine) : Scan :=
  ⟨ts, BlacklistFile.phoneList, "wlan2".toList, arp,
    fun _ => ⟨name.toList, none, ts, [], [], []⟩, []⟩

/-- The phone is scanned, and ten seconds later it is gone. -/
def leaving (name : String) : List Step :=
  [.doScanShell (namedScan name 1000 [phoneLine]) [phone.text],
    .doScanShell (namedScan name 1010 []) [phone.text]]

theorem proper_namedScan (name : String) (ts : Nat) {arp : List ArpLine}
    (once : (arp.map fun device => device.mac.text).Nodup)
    (ascii : ∀ c ∈ name.toList, c.toNat < 128 ∧ isControl c = false)
    (present : name.toList ≠ []) :
    (namedScan name ts arp).Proper [phone.text] where
  once := by
    have within : (namedScan name ts arp).devices.Sublist arp := List.filter_sublist
    exact once.sublist (within.map _)
  names := by
    intro device _
    have chosen : ((namedScan name ts arp).lookup device.mac.text).chosen
        device.mac.text = (name.toList, "manual".toList) :=
      if_pos present
    rw [chosen]
    exact ⟨name.toList, encode_ascii fun c member => (ascii c member).1,
      fun c member => (ascii c member).2⟩
  rules := .inl ⟨[], "blacklist".toList, [], BlacklistFile.phoneListed⟩

theorem legible_phoneList : Legible BlacklistFile.phoneList [phone.text] where
  words := by decide
  place := ⟨[], ['\x7b'], ['\x7d'], [], by decide +kernel, by simp,
    by decide +kernel, by decide +kernel⟩

theorem leaving_proper {name : String}
    (ascii : ∀ c ∈ name.toList, c.toNat < 128 ∧ isControl c = false)
    (present : name.toList ≠ []) : ∀ step ∈ leaving name, step.Proper := by
  intro step member
  rcases List.mem_cons.mp member with rfl | last
  · exact proper_namedScan name 1000 (List.nodup_singleton _) ascii present
  · rw [List.mem_singleton.mp last]
    exact proper_namedScan name 1010 List.nodup_nil ascii present

/-- An empty object reports nothing. -/
theorem reports_empty {entries : List Entry}
    (reports : Reports (some ['\x7b', '\x7d']) entries) : entries = [] := by
  obtain ⟨⟨text, members, bytes, denotes, decodes⟩, _⟩ := reports
  have plain : text = ['\x7b', '\x7d'] := by
    apply encode_injective
    rw [bytes, encode_ascii (by simp)]
  obtain ⟨pre, middle, post, split, _, derives, _⟩ := denotes
  obtain ⟨⟨inside, hollow⟩, render, _, means⟩ := derives.object_members
  cases means with
  | nil =>
      cases decodes
      rfl
  | @cons m _ rest _ _ _ =>
      exfalso
      have quoted : '"' ∈ text := by
        rw [split, render]
        simp [Obj.render, Obj.inner, Member.render, Member.fromKey, quote]
      rw [plain] at quoted
      exact absurd quoted (by decide)

end Hnc.DeviceDetect
