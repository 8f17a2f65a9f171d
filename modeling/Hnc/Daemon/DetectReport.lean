import Hnc.Daemon.DetectBlacklist

/-!
# What the scanner reports

A scan should report the devices of the ARP table and the earlier ones that were
seen shortly before.  It writes this report when every line of its temporary file
keeps its columns and every block that it needs is found.
-/

namespace Hnc.DeviceDetect

open Posix JsonText
open Hotspotd (escapeByte printLong IsPlain)

/-! ### What a scan should report -/

/-- The name of a device, from the first source that has one, and the source. -/
def Lookup.chosen (mac : Text) (lookup : Lookup) : Text × Text :=
  if lookup.manual ≠ [] then (lookup.manual, "manual".toList)
  else
    match hostnameCached mac lookup.now lookup.cache with
    | some name =>
        if name = [] then (lastEight mac, "mac".toList)
        else (name, "cache".toList)
    | none =>
        if lookup.dhcp ≠ [] then (lookup.dhcp, "dhcp".toList)
        else if lookup.mdns ≠ [] then (lookup.mdns, "mdns".toList)
        else if lookup.lease ≠ [] then (lookup.lease, "dhcp".toList)
        else (lastEight mac, "mac".toList)

/-- An address that the rules file lists, in any case. -/
def IsListed (listed : List Text) (mac : Mac) : Prop :=
  mac.text ∈ listed.map fun item => item.map Char.toLower

instance (listed : List Text) (mac : Mac) : Decidable (IsListed listed mac) :=
  inferInstanceAs (Decidable (_ ∈ _))

namespace Scan

/-- The entry of a device of the ARP table. -/
def entry (scan : Scan) (listed : List Text) (device : ArpLine) : Entry :=
  let chosen := (scan.lookup device.mac.text).chosen device.mac.text
  { mac := device.mac.text
    ip := device.ip.text
    hostname := chosen.1
    hostnameSrc := chosen.2
    iface := device.dev
    rxBytes := (scan.bytes device.ip.text).1
    txBytes := (scan.bytes device.ip.text).2
    status := if IsListed listed device.mac then "blocked".toList
      else "allowed".toList
    lastSeen := scan.ts }

/-- An earlier device that is not in the ARP table and was seen at most 180
seconds ago. -/
def Keeps (scan : Scan) (entry : Entry) : Prop :=
  entry.mac ∉ scan.devices.map (fun device => device.mac.text) ∧
    0 ≤ (scan.ts : Int) - entry.lastSeen ∧ (scan.ts : Int) - entry.lastSeen ≤ 180

instance (scan : Scan) (entry : Entry) : Decidable (scan.Keeps entry) :=
  inferInstanceAs (Decidable (_ ∧ _))

/-- The devices of the ARP table, and the earlier ones that are kept. -/
def report (scan : Scan) (listed : List Text) (earlier : List Entry) :
    List Entry :=
  scan.devices.map (scan.entry listed) ++
    (earlier.filter fun entry => scan.Keeps entry).map Entry.stale

end Scan

theorem beforeLastBar_append (name : Text) {src : Text} (free : '|' ∉ src) :
    beforeLastBar (name ++ '|' :: src) = name := by
  have reversed : (name ++ '|' :: src).reverse = src.reverse ++ '|' :: name.reverse := by
    simp
  have clean : '|' ∉ src.reverse := fun member => free (List.mem_reverse.mp member)
  rw [beforeLastBar, if_pos (List.mem_append_right name List.mem_cons_self), reversed,
    dropWhile_until clean, List.drop_one, List.tail_cons, List.reverse_reverse]

theorem behindLastBar_append (name : Text) {src : Text} (free : '|' ∉ src) :
    behindLastBar (name ++ '|' :: src) = src := by
  have reversed : (name ++ '|' :: src).reverse = src.reverse ++ '|' :: name.reverse := by
    simp
  have clean : '|' ∉ src.reverse := fun member => free (List.mem_reverse.mp member)
  rw [behindLastBar, reversed, takeWhile_until clean, List.reverse_reverse]

/-- The labels of the sources. -/
def sources : List Text :=
  ["manual", "cache", "dhcp", "mdns"].map String.toList

/-- A name and its source are taken apart at the last bar. -/
theorem nameAndSource_append (mac name : Text) {src : Text} (listed : src ∈ sources) :
    nameAndSource mac (captured (name ++ '|' :: src ++ ['\n'])) =
      if name = [] then (lastEight mac, "mac".toList) else (name, src) := by
  have clean : ∀ label ∈ sources, '|' ∉ label ∧ label.getLast? ≠ some '\n' ∧
      label ≠ [] := by decide
  obtain ⟨free, last, solid⟩ := clean src listed
  have ends : (name ++ '|' :: src).getLast? = src.getLast? := by
    have text : name ++ '|' :: src = (name ++ ['|']) ++ src := by
      rw [List.append_assoc, List.singleton_append]
    rw [text]
    exact List.getLast?_append_of_ne_nil _ solid
  have line : captured (name ++ '|' :: src ++ ['\n']) = name ++ '|' :: src := by
    have dropped : captured (name ++ '|' :: src ++ ['\n']) =
        captured (name ++ '|' :: src) := by
      simp [captured]
    rw [dropped]
    apply captured_of_last
    rintro c found rfl
    exact last (ends.symm.trans found)
  have nonempty : name ++ '|' :: src ≠ [] :=
    List.append_ne_nil_of_right_ne_nil _ (List.cons_ne_nil _ _)
  rw [line, nameAndSource, if_pos nonempty, if_pos nonempty,
    beforeLastBar_append name free, behindLastBar_append name free]

theorem nameAndSource_getHostname (mac : Text) (lookup : Lookup) :
    nameAndSource mac (captured ((getHostname mac lookup).1 ++ ['\n'])) =
      lookup.chosen mac := by
  have found (name : Text) (src : String) (listed : src.toList ∈ sources)
      (solid : name ≠ []) : nameAndSource mac
        (captured (name ++ '|' :: src.toList ++ ['\n'])) = (name, src.toList) := by
    rw [nameAndSource_append mac name listed, if_neg solid]
  unfold getHostname Lookup.chosen
  by_cases manual : lookup.manual ≠ []
  · rw [if_pos manual, if_pos manual]
    exact found lookup.manual "manual" (by decide) manual
  · rw [if_neg manual, if_neg manual]
    cases cached : hostnameCached mac lookup.now lookup.cache with
    | some name =>
        have free := bar_not_mem_cached cached
        dsimp only
        rw [if_neg free]
        exact @nameAndSource_append mac name "cache".toList (by decide)
    | none =>
        by_cases dhcp : lookup.dhcp ≠ []
        · rw [if_pos dhcp, if_pos dhcp]
          exact found lookup.dhcp "dhcp" (by decide) dhcp
        · rw [if_neg dhcp, if_neg dhcp]
          by_cases mdns : lookup.mdns ≠ []
          · rw [if_pos mdns, if_pos mdns]
            exact found lookup.mdns "mdns" (by decide) mdns
          · rw [if_neg mdns, if_neg mdns]
            by_cases lease : lookup.lease ≠ []
            · rw [if_pos lease, if_pos lease]
              exact found lookup.lease "dhcp" (by decide) lease
            · rw [if_neg lease, if_neg lease]
              rfl

theorem records_lines {Item : Type} {items : List Item} {line : Item → Text}
    (oneLine : ∀ item ∈ items, '\n' ∉ line item) :
    records (items.flatMap fun item => line item ++ ['\n']) = items.map line := by
  induction items with
  | nil => rfl
  | cons item items induction =>
      have rest := induction fun other member =>
        oneLine other (List.mem_cons_of_mem item member)
      rw [List.flatMap_cons, List.append_assoc, List.singleton_append,
        records_append_newline (oneLine item List.mem_cons_self), rest]
      rfl

theorem readVars_append (n : Nat) {piece : Text} (free : '|' ∉ piece) (rest : Text) :
    readVars (n + 2) (piece ++ '|' :: rest) = piece :: readVars (n + 1) rest := by
  rw [readVars, dropWhile_until free, takeWhile_until free]

theorem bar_not_mem_ip (ip : Ipv4) : '|' ∉ ip.text := by
  intro member
  rcases ip.chars _ member with digit | dot
  · exact absurd digit (by decide)
  · exact absurd dot (by decide)

theorem newline_not_mem_ip (ip : Ipv4) : '\n' ∉ ip.text := by
  intro member
  rcases ip.chars _ member with digit | dot
  · exact absurd digit (by decide)
  · exact absurd dot (by decide)

/-- The line of a device in the temporary file. -/
def tmpRow (entry : Entry) : Text :=
  entry.ip ++ '|' :: (entry.mac ++ '|' :: (entry.hostname ++ '|' ::
    (entry.hostnameSrc ++ '|' :: (entry.iface ++ '|' :: entry.status))))

namespace Scan

variable {scan : Scan} {listed : List Text}

theorem tmpLine_eq (scan : Scan) (listed : List Text) (device : ArpLine)
    (read : device.mac.text ∈ blacklist scan.rules ↔ IsListed listed device.mac) :
    scan.tmpLine device.ip.text device.mac.text device.dev =
      tmpRow (scan.entry listed device) ++ ['\n'] := by
  have chosen := nameAndSource_getHostname device.mac.text
    (scan.lookup device.mac.text)
  rw [tmpLine, toLower_mac]
  rw [chosen]
  by_cases blocked : IsListed listed device.mac
  · rw [if_pos (read.mpr blocked)]
    simp [tmpRow, entry, blocked]
  · rw [if_neg (fun member => blocked (read.mp member))]
    simp [tmpRow, entry, blocked]

/-- The loop over the ARP table. -/
theorem tmp_eq (lines : ∀ device ∈ scan.devices, '\n' ∉ device.dev)
    (read : ∀ device ∈ scan.devices,
      (device.mac.text ∈ blacklist scan.rules ↔ IsListed listed device.mac)) :
    scan.tmp = scan.devices.flatMap fun device =>
      tmpRow (scan.entry listed device) ++ ['\n'] := by
  have row (device : ArpLine) : device.ip.text ++ '|' ::
      (device.mac.text ++ '|' :: (device.dev ++ ['\n'])) =
        (device.ip.text ++ '|' :: (device.mac.text ++ '|' :: device.dev)) ++ ['\n'] := by
    simp
  have oneLine : ∀ device ∈ scan.devices, '\n' ∉ device.ip.text ++ '|' ::
      (device.mac.text ++ '|' :: device.dev) := by
    intro device member
    have mac := device.mac.not_mem (c := '\n') (by decide) (by decide)
    simp [newline_not_mem_ip device.ip, mac, lines device member]
  rw [tmp, arpTmp]
  simp only [row]
  rw [records_lines oneLine, List.flatMap_map]
  apply List.flatMap_congr
  intro device member
  have vars : readVars 3 (device.ip.text ++ '|' ::
      (device.mac.text ++ '|' :: device.dev)) =
        [device.ip.text, device.mac.text, device.dev] := by
    rw [readVars_append 1 (bar_not_mem_ip device.ip),
      readVars_append 0 (bar_not_mem_mac device.mac)]
    rfl
  rw [vars]
  dsimp only
  rw [if_neg device.ip.text_ne_nil]
  exact tmpLine_eq scan listed device (read device member)

end Scan

/-! ### The text that is put together -/

/-- The output with some entries. -/
def outputOf (entries : List Entry) : Output :=
  ⟨'\x7b' :: (Obj.mk (entries.map Entry.member) []).inner, entries.isEmpty⟩

theorem outputOf_add (entries : List Entry) (entry : Entry) :
    (outputOf entries).add entry.member.render = outputOf (entries ++ [entry]) := by
  cases entries with
  | nil => simp [outputOf, Output.add, Obj.inner, more]
  | cons first entries => simp [outputOf, Output.add, Obj.inner, more]

theorem foldl_outputOf (entries more : List Entry) :
    more.foldl (fun out entry => out.add entry.member.render) (outputOf entries) =
      outputOf (entries ++ more) := by
  induction more generalizing entries with
  | nil => rw [List.append_nil, List.foldl_nil]
  | cons entry more induction =>
      rw [List.foldl_cons, outputOf_add, induction, List.append_assoc]
      rfl

namespace Scan

variable {scan : Scan} {listed : List Text}

/-- The name of a device that is in the ARP table: visible characters. -/
def IsName (name : Text) : Prop :=
  ∃ text, encode text = name ∧ ∀ c ∈ text, isControl c = false

theorem IsName.visible {name : Text} (ok : IsName name) :
    ∀ c ∈ name, 0x20 ≤ c.toNat := by
  obtain ⟨text, rfl, visible⟩ := ok
  intro c member
  by_contra low
  have inside := mem_of_mem_encode member (by omega)
  have control : isControl c = true := decide_eq_true (Nat.lt_of_not_le low)
  rw [visible c inside] at control
  cases control

/-- The blacklist of a rules file; one without a list lists nothing. -/
def Lists (rules : Text) (listed : List Text) : Prop :=
  (∃ left name right, BlacklistFile left name right listed rules) ∨
    listed = [] ∧ ∃ entries, Denotes rules (.object entries) ∧
      ∀ entry ∈ entries, readName false entry.1 ≠ "blacklist".toList

/-- A scan as the claim has it: distinct addresses, printable names, and the
blacklist of the rules file. -/
structure Proper (scan : Scan) (listed : List Text) : Prop where
  once : (scan.devices.map fun device => device.mac.text).Nodup
  names : ∀ device ∈ scan.devices,
    IsName ((scan.lookup device.mac.text).chosen device.mac.text).1
  rules : Lists scan.rules listed

/-- No name has a separator in it, no text of a kept device has a brace in it, and
the blacklist is where the scanner looks for it, or holds no device. -/
structure Safe (scan : Scan) (listed : List Text) (earlier : List Entry) : Prop where
  bars : ∀ device ∈ scan.devices,
    '|' ∉ ((scan.lookup device.mac.text).chosen device.mac.text).1
  iface : ∀ device ∈ scan.devices, IsPlain device.dev ∧ '|' ∉ device.dev
  braces : ∀ entry ∈ earlier, scan.Keeps entry → entry.BraceFree
  rules : Legible scan.rules listed ∨ Unmarked scan.rules ∧
    ∀ device ∈ scan.devices, ¬IsListed listed device.mac

theorem Safe.read {earlier : List Entry} (safe : scan.Safe listed earlier) :
    ∀ device ∈ scan.devices,
      (device.mac.text ∈ blacklist scan.rules ↔ IsListed listed device.mac) := by
  intro device member
  rcases safe.rules with legible | ⟨unmarked, free⟩
  · rw [blacklist_of_legible legible]
    rfl
  · rw [blacklist_of_unmarked unmarked]
    exact iff_of_false List.not_mem_nil (free device member)

/-- A line of the temporary file is read as it was written. -/
theorem readVars_tmpRow {entry : Entry} (ip : '|' ∉ entry.ip) (mac : '|' ∉ entry.mac)
    (hostname : '|' ∉ entry.hostname) (hostnameSrc : '|' ∉ entry.hostnameSrc)
    (iface : '|' ∉ entry.iface) :
    readVars 6 (tmpRow entry) =
      [entry.ip, entry.mac, entry.hostname, entry.hostnameSrc, entry.iface,
        entry.status] := by
  rw [tmpRow, readVars_append 4 ip, readVars_append 3 mac,
    readVars_append 2 hostname, readVars_append 1 hostnameSrc,
    readVars_append 0 iface]
  rfl

theorem chosen_source (mac : Text) (lookup : Lookup) :
    (lookup.chosen mac).2 ∈ "mac".toList :: sources := by
  have listed : ∀ src ∈ ["manual", "cache", "dhcp", "mdns", "mac"].map String.toList,
      src ∈ "mac".toList :: sources := by decide
  apply listed
  unfold Lookup.chosen
  repeat' split
  all_goals simp

variable {device : ArpLine}

theorem addDevice_tmpRow (out : Output)
    (name : IsName ((scan.lookup device.mac.text).chosen device.mac.text).1)
    (bars : '|' ∉ ((scan.lookup device.mac.text).chosen device.mac.text).1)
    (dev : '|' ∉ device.dev) :
    scan.addDevice out (tmpRow (scan.entry listed device)) =
      out.add (scan.entry listed device).member.render := by
  have source : ∀ src ∈ "mac".toList :: sources, '|' ∉ src := by decide
  have vars := @readVars_tmpRow (scan.entry listed device)
    (bar_not_mem_ip device.ip) (bar_not_mem_mac device.mac) bars
    (source _ (chosen_source _ _)) dev
  have nonempty : (scan.entry listed device).ip ≠ [] := device.ip.text_ne_nil
  rw [addDevice, vars]
  dsimp only
  rw [if_neg nonempty]
  congr 1
  exact deviceBlock_eq name.visible rfl rfl rfl

theorem newline_not_mem_tmpRow
    (name : IsName ((scan.lookup device.mac.text).chosen device.mac.text).1)
    (dev : IsPlain device.dev) : '\n' ∉ tmpRow (scan.entry listed device) := by
  have source : ∀ src ∈ "mac".toList :: sources, '\n' ∉ src := by decide
  have mac := device.mac.not_mem (c := '\n') (by decide) (by decide)
  have hostname : '\n' ∉ (scan.entry listed device).hostname := by
    intro member
    exact absurd (name.visible _ member) (by decide)
  have status : '\n' ∉ (scan.entry listed device).status := by
    show '\n' ∉ if _ then _ else _
    split
    · decide
    · decide
  have src : '\n' ∉ (scan.entry listed device).hostnameSrc :=
    source _ (chosen_source _ _)
  have ip := newline_not_mem_ip device.ip
  have line := newline_not_mem_isPlain dev
  rw [tmpRow]
  simp only [List.mem_append, List.mem_cons, not_or]
  exact ⟨ip, by decide, mac, by decide, hostname, by decide, src, by decide, line,
    by decide, status⟩

section Writing

variable {earlier : List Entry} (proper : scan.Proper listed)
  (safe : scan.Safe listed earlier)
include proper safe

theorem records_tmp : records scan.tmp =
    scan.devices.map fun device => tmpRow (scan.entry listed device) := by
  rw [tmp_eq (fun device member =>
    newline_not_mem_isPlain (safe.iface device member).1) safe.read]
  apply records_lines
  intro device member
  exact newline_not_mem_tmpRow (proper.names device member) (safe.iface device member).1

/-- The first three loops print the devices of the ARP table. -/
theorem foldl_addDevice :
    (records scan.tmp).foldl scan.addDevice ⟨['\x7b'], true⟩ =
      outputOf (scan.devices.map (scan.entry listed)) := by
  have loop := foldl_outputOf [] (scan.devices.map (scan.entry listed))
  rw [List.nil_append, List.foldl_map] at loop
  rw [records_tmp proper safe, List.foldl_map, ← loop]
  apply List.foldl_ext
  intro out device member
  exact addDevice_tmpRow out (proper.names device member) (safe.bars device member)
    (safe.iface device member).2

theorem newMacs_eq :
    scan.newMacs = scan.devices.map fun device => device.mac.text := by
  rw [newMacs, records_tmp proper safe, List.map_map]
  apply List.map_congr_left
  intro device member
  have column : (fields '|' (tmpRow (scan.entry listed device))).getD 1 [] =
      device.mac.text := by
    show (fields '|' (device.ip.text ++ '|' :: (device.mac.text ++ '|' :: _))).getD 1 [] = _
    rw [fields_split, fields_split, fields_of_not_mem (bar_not_mem_ip device.ip),
      fields_of_not_mem (bar_not_mem_mac device.mac)]
    rfl
  rw [Function.comp_apply, column, toLower_mac]

theorem keepsBlock_eq {entry : Entry} (sound : entry.Sound) :
    scan.keepsBlock entry.member.render = decide (scan.Keeps entry) := by
  have seen : ((digitsValue (printLong entry.lastSeen) : Nat) : Int) = entry.lastSeen := by
    rw [sound.seen_toDigits, digitsValue_toDigits]
    exact Int.natAbs_of_nonneg sound.lastSeen
  have present : entry.mac ≠ [] := (Mac.mk entry.mac sound.mac).text_ne_nil
  rw [keepsBlock, sound.oldLastSeen_block, sound.oldMac_block, newMacs_eq proper safe]
  dsimp only
  rw [seen]
  apply decide_eq_decide.mpr
  rw [Keeps]
  tauto

theorem addOld_eq {entry : Entry} (sound : entry.Sound) (out : Output) :
    scan.addOld out entry.member.render =
      if scan.Keeps entry then out.add entry.stale.member.render else out := by
  rw [addOld, keepsBlock_eq proper safe sound]
  by_cases kept : scan.Keeps entry
  · rw [if_pos (decide_eq_true kept), if_pos kept, sound.oldMac_block,
      sound.entryBody_block, ← Hotspotd.render_bare]
    rfl
  · rw [if_neg (by simpa using kept), if_neg kept]

/-- The last loop prints the earlier devices that are kept. -/
theorem foldl_addOld {entries : List Entry} (sound : ∀ entry ∈ entries, entry.Sound)
    (shown : List Entry) :
    (entries.map fun entry => entry.member.render).foldl scan.addOld (outputOf shown) =
      outputOf (shown ++
        (entries.filter fun entry => scan.Keeps entry).map Entry.stale) := by
  induction entries generalizing shown with
  | nil => rw [List.filter_nil, List.map_nil, List.map_nil, List.append_nil,
      List.foldl_nil]
  | cons entry entries induction =>
      have others := induction fun other member =>
        sound other (List.mem_cons_of_mem entry member)
      rw [List.map_cons, List.foldl_cons,
        addOld_eq proper safe (sound entry List.mem_cons_self), List.filter_cons]
      by_cases kept : scan.Keeps entry
      · rw [if_pos kept, if_pos (decide_eq_true kept), outputOf_add, others,
          List.append_assoc]
        rfl
      · rw [if_neg kept, if_neg (by simpa using kept), others]

theorem doScanShell_eq (sound : ∀ entry ∈ earlier, entry.Sound)
    (file : Option Text)
    (told : file = none ∧ earlier = [] ∨ file = some (fileText earlier)) :
    scan.doScanShell file = fileText (scan.report listed earlier) := by
  have scanned := foldl_addDevice proper safe
  rcases told with ⟨rfl, rfl⟩ | rfl
  · rw [doScanShell, scanned, report, List.filter_nil, List.map_nil, List.append_nil]
    rfl
  · have kept : (earlier.filter fun entry => entry.BraceFree).filter
        (fun entry => scan.Keeps entry) =
          earlier.filter fun entry => scan.Keeps entry := by
      rw [List.filter_filter]
      apply List.filter_congr
      intro entry member
      rw [Bool.and_eq_left_iff_imp]
      intro keeps
      exact decide_eq_true (safe.braces entry member (of_decide_eq_true keeps))
    have merged := @foldl_addOld _ _ _ proper safe
      (earlier.filter fun entry => entry.BraceFree)
      (fun entry member => sound entry (List.mem_of_mem_filter member))
      (scan.devices.map (scan.entry listed))
    rw [kept] at merged
    rw [doScanShell, scanned, oldBlocks_fileText sound, merged]
    rfl

end Writing

theorem entry_sound
    (name : IsName ((scan.lookup device.mac.text).chosen device.mac.text).1)
    (dev : IsPlain device.dev) : (scan.entry listed device).Sound where
  mac := device.mac.shape
  ip := device.ip.shape
  hostname := by
    obtain ⟨text, bytes, _⟩ := name
    exact ⟨text, bytes⟩
  hostnameSrc := by
    have plain : ("mac".toList :: sources).all
        (fun src => src.all Hotspotd.isPlainByte) = true := by decide
    exact Hotspotd.isPlain_of_all (List.all_eq_true.mp plain _ (chosen_source _ _))
  iface := dev
  status := by
    show (if _ then _ else _) ∈ Entry.statuses
    split
    · decide
    · decide
  lastSeen := Int.natCast_nonneg scan.ts

section Reporting

variable {earlier : List Entry} (proper : scan.Proper listed)
include proper

theorem report_sound (safe : scan.Safe listed earlier)
    (sound : ∀ entry ∈ earlier, entry.Sound) :
    ∀ entry ∈ scan.report listed earlier, entry.Sound := by
  intro entry member
  rcases List.mem_append.mp member with scanned | kept
  · obtain ⟨device, listedDevice, rfl⟩ := List.mem_map.mp scanned
    exact entry_sound (proper.names device listedDevice)
      (safe.iface device listedDevice).1
  · obtain ⟨old, keeps, rfl⟩ := List.mem_map.mp kept
    exact (sound old (List.mem_of_mem_filter keeps)).stale

theorem report_once (once : (earlier.map Entry.mac).Nodup) :
    ((scan.report listed earlier).map Entry.mac).Nodup := by
  have scanned : (scan.devices.map (scan.entry listed)).map Entry.mac =
      scan.devices.map fun device => device.mac.text := by
    rw [List.map_map]
    rfl
  have kept : ((earlier.filter fun entry => scan.Keeps entry).map Entry.stale).map
      Entry.mac = (earlier.filter fun entry => scan.Keeps entry).map Entry.mac := by
    rw [List.map_map]
    rfl
  rw [report, List.map_append, scanned, kept]
  apply List.Nodup.append proper.once
  · exact once.sublist (List.filter_sublist.map Entry.mac)
  · intro mac present gone
    obtain ⟨entry, keeps, rfl⟩ := List.mem_map.mp gone
    exact (of_decide_eq_true (List.mem_filter.mp keeps).2).1 present

end Reporting

end Scan

end Hnc.DeviceDetect
