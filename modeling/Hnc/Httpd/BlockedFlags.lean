import Hnc.Daemon.BlacklistScan

/-!
# The two flags of a blocked device

`write_json` marks a device by the addresses that its scan of `rules.json` finds,
`buildDevicesPayload` of `daemon/hnc_httpd/server.go` by a decoded blacklist in
lower case.  A file is a list of bytes here, one character for each.
-/

namespace Hnc.BlockedFlags

open Posix JsonText Hotspotd
open DeviceNames (MacArg)

/-- `strings.ToLower`, for addresses. -/
def toLower (mac : Text) : Text :=
  mac.map Scheduler.toLower

/-- The keys of `blSet`. -/
def blSet (blacklist : List Text) : List Text :=
  blacklist.map toLower

/-- `merged["status"]`. -/
def mergedStatus (blacklist : List Text) (mac : Text) : Text :=
  if toLower mac ∈ blSet blacklist then "blocked".toList
  else "allowed".toList

/-- A valid `rules.json` of 1 MB at most with a blacklist of addresses.  Of
several members with the name `blacklist` the decoder keeps the last. -/
structure RulesFile where
  left : List (Text × Json)
  name : Text
  entries : List Listing
  right : List (Text × Json)
  before : Text
  array : Text
  behind : Text
  place : MemberAt left name
    (.array (entries.map fun entry => .string entry.raw)) right before array
    behind
  named : Unescapes name "blacklist".toList
  last : ∀ member ∈ right, ¬Unescapes member.1 "blacklist".toList
  small : (before ++ (array ++ behind)).length ≤ 1024 * 1024

namespace RulesFile

variable (f : RulesFile)

def text : Text :=
  f.before ++ (f.array ++ f.behind)

/-- `rulesMap["blacklist"]`. -/
def blacklist : List Text :=
  f.entries.map fun entry => entry.mac.text

/-- The device is an entry up to letter case. -/
def Lists (mac : MacArg) : Prop :=
  ∃ entry ∈ f.entries, toLower entry.mac.text = toLower mac.text

/-- The first quoted `blacklist` of the file is the name of the member. -/
def NamedFirst : Prop :=
  ∃ early gap pad, f.before =
      early ++ (quote "blacklist".toList ++ (gap ++ ':' :: pad)) ∧
    strstr f.text (quote "blacklist".toList) =
      some (quote "blacklist".toList ++
        (gap ++ ':' :: (pad ++ (f.array ++ f.behind)))) ∧
    blank gap = true ∧ blank pad = true

/-- The entries with colons in the places of an address, as they are
written. -/
def written : List Text :=
  (f.entries.map Listing.raw).filter looksLikeMac

end RulesFile

/-- Every valid file with such a blacklist is one of these. -/
theorem exists_rulesFile {file : Text} {left right : List (Text × Json)}
    {name : Text} {entries : List Listing}
    (denotes : Denotes file (.object (left ++
      (name, .array (entries.map fun entry => .string entry.raw)) :: right)))
    (named : Unescapes name "blacklist".toList)
    (last : ∀ member ∈ right, ¬Unescapes member.1 "blacklist".toList)
    (small : file.length ≤ 1024 * 1024) :
    ∃ f : RulesFile, f.text = file ∧ f.entries = entries := by
  obtain ⟨before, array, behind, split, place⟩ := exists_memberAt denotes
  refine ⟨⟨left, name, entries, right, before, array, behind, place, named,
    last, ?_⟩, split.symm, rfl⟩
  rw [← split]
  exact small

/-! ## What the scan finds -/

theorem flatMap_read (entries : List Listing) :
    entries.flatMap Listing.read =
      (entries.filter fun entry => looksLikeMac entry.raw).map fun entry =>
        entry.raw.take 17 := by
  induction entries with
  | nil => rfl
  | cons entry entries induction =>
      rw [List.flatMap_cons, induction, Listing.read, List.filter_cons]
      cases looksLikeMac entry.raw with
      | false => simp
      | true => simp

theorem written_eq (f : RulesFile) :
    f.written =
      (f.entries.filter fun entry => looksLikeMac entry.raw).map
        Listing.raw := by
  rw [RulesFile.written, List.filter_map]
  rfl

/-- 17 bytes of an entry are the address of a device only when they are the
whole entry. -/
theorem mem_take_iff (f : RulesFile) (mac : MacArg) (n : Nat) :
    mac.text ∈ (f.entries.flatMap Listing.read).take n ↔
      mac.text ∈ f.written.take n := by
  rw [flatMap_read, written_eq, ← List.map_take, ← List.map_take]
  simp only [List.mem_map]
  constructor
  · rintro ⟨entry, member, same⟩
    exact ⟨entry, member, (entry.raw_eq_of_take mac same).1⟩
  · rintro ⟨entry, member, same⟩
    obtain ⟨_, _, _, text, _, _, length, _⟩ := mac.parts
    refine ⟨entry, member, ?_⟩
    rw [same]
    apply List.take_of_length_le
    rw [text]
    simp [length]

/-- What is written like the device is the device. -/
theorem lists_of_mem_written {f : RulesFile} {mac : MacArg} {n : Nat}
    (member : mac.text ∈ f.written.take n) : f.Lists mac := by
  have written := List.mem_of_mem_take member
  rw [written_eq, List.mem_map] at written
  obtain ⟨entry, kept, same⟩ := written
  obtain ⟨_, _, _, text, _, _, length, _⟩ := mac.parts
  have take : entry.raw.take 17 = mac.text := by
    rw [same]
    apply List.take_of_length_le
    rw [text]
    simp [length]
  refine ⟨entry, (List.mem_filter.mp kept).1, ?_⟩
  rw [(entry.raw_eq_of_take mac take).2]

theorem cString_text (f : RulesFile) : cString f.text = f.text := by
  apply cString_eq_self
  intro member
  have char := List.all_eq_true.mp f.place.denotes.isTextChar _ member
  exact absurd char (by decide)

theorem readBlacklist_text (f : RulesFile) :
    readBlacklist (some f.text) =
      match blacklistStretch f.text with
      | none => []
      | some stretch => (quotedMacs stretch).take maxDevices := by
  have solid : f.text.length ≠ 0 := by
    obtain ⟨early, gap, pad, front, _, _⟩ := f.place.before_eq
    rw [RulesFile.text, front]
    simp
  have small : ¬1024 * 1024 < f.text.length := Nat.not_lt.mpr f.small
  have read : readBlacklist (some f.text) =
      match blacklistStretch (cString f.text) with
      | none => []
      | some stretch => (quotedMacs stretch).take maxDevices :=
    if_neg (not_or.mpr ⟨solid, small⟩)
  rw [cString_text] at read
  exact read

theorem readBlacklist_of_namedFirst {f : RulesFile} (first : f.NamedFirst) :
    readBlacklist (some f.text) =
      (f.entries.flatMap Listing.read).take maxDevices := by
  obtain ⟨early, gap, pad, _, search, gaps, pads⟩ := first
  rw [readBlacklist_text, blacklistStretch, search]
  simp only [Option.map_some]
  rw [quotedMacs_stretch gaps pads f.place.derives]

theorem readBlacklist_of_unnamed {f : RulesFile}
    (search : strstr f.text (quote "blacklist".toList) = none) :
    readBlacklist (some f.text) = [] := by
  rw [readBlacklist_text, blacklistStretch, search]
  rfl

/-! ## Agreement -/

theorem deviceStatus_eq_iff {blacklist decoded : List Text} {mac : Text} :
    deviceStatus blacklist mac = mergedStatus decoded mac ↔
      (mac ∈ blacklist ↔ toLower mac ∈ blSet decoded) := by
  unfold deviceStatus mergedStatus
  by_cases blocked : mac ∈ blacklist <;>
    by_cases listed : toLower mac ∈ blSet decoded <;>
    simp [blocked, listed]

theorem mem_blSet_iff (f : RulesFile) (mac : MacArg) :
    toLower mac.text ∈ blSet f.blacklist ↔ f.Lists mac := by
  simp [blSet, RulesFile.blacklist, RulesFile.Lists]

/-- Without another quoted `blacklist` in front of the name, the flags agree on a
device exactly when it is not listed, or the scan starts at the list and the
address is among its first 128, letter for letter. -/
theorem blocked_flags_agree_iff (f : RulesFile)
    (search : f.NamedFirst ∨ strstr f.text (quote "blacklist".toList) = none)
    (mac : MacArg) :
    deviceStatus (readBlacklist (some f.text)) mac.text =
        mergedStatus f.blacklist mac.text ↔
      (f.Lists mac → f.NamedFirst ∧ mac.text ∈ f.written.take maxDevices) := by
  rw [deviceStatus_eq_iff, mem_blSet_iff]
  rcases search with first | none
  · rw [readBlacklist_of_namedFirst first, mem_take_iff]
    constructor
    · intro same listed
      exact ⟨first, same.mpr listed⟩
    · intro condition
      exact ⟨lists_of_mem_written, fun listed => (condition listed).2⟩
  · rw [readBlacklist_of_unnamed none]
    have other : ¬f.NamedFirst := by
      rintro ⟨_, _, _, _, found, _⟩
      rw [none] at found
      cases found
    simp [other]

def listing (mac : MacArg) (plain : '\\' ∉ mac.text) : Listing :=
  ⟨mac.text, mac, unescapes_self plain⟩

abbrev oneMember (entry : Listing) : Member :=
  bare "blacklist".toList ('[' :: ([] ++ (quote entry.raw ++ [])) ++ [']'])

theorem oneMember_place (entry : Listing)
    (free : escapeFree entry.raw = true) :
    MemberAt [] "blacklist".toList
      (.array ([entry].map fun entry => .string entry.raw)) []
      ([] ++ JsonText.front [] (oneMember entry)) (oneMember entry).val
      ((oneMember entry).trail ++ closing [] []) :=
  @MemberAt.place [] _ _ [] [] [] [] [] (oneMember entry) rfl rfl .nil
    (means_bare (by decide) (.array (.element rfl
      (.string (chars_of_escapeFree free)) rfl))) .nil

theorem oneMember_named :
    Unescapes "blacklist".toList "blacklist".toList :=
  unescapes_self (by decide)

theorem oneMember_last : ∀ other ∈ ([] : List (Text × Json)),
    ¬Unescapes other.1 "blacklist".toList := by
  simp

theorem oneMember_small {entry : Listing}
    (small : entry.raw.length ≤ 100) :
    ([] ++ JsonText.front [] (oneMember entry) ++ ((oneMember entry).val ++
      ((oneMember entry).trail ++ closing [] []))).length ≤ 1024 * 1024 := by
  simp [JsonText.front, closing, more, bare, quote]
  omega

/-- The file that `json_set.sh` leaves behind `blacklist_add`. -/
def oneEntry (entry : Listing) (free : escapeFree entry.raw = true)
    (small : entry.raw.length ≤ 100) : RulesFile where
  left := []
  name := "blacklist".toList
  entries := [entry]
  right := []
  before := _
  array := _
  behind := _
  place := oneMember_place entry free
  named := oneMember_named
  last := oneMember_last
  small := oneMember_small small

theorem namedFirst_oneEntry (entry : Listing)
    (free : escapeFree entry.raw = true) (small : entry.raw.length ≤ 100) :
    (oneEntry entry free small).NamedFirst := by
  have text : (oneEntry entry free small).text =
      ['\x7b'] ++ (quote "blacklist".toList ++ ([] ++ ':' :: ([] ++
        ((oneEntry entry free small).array ++
          (oneEntry entry free small).behind)))) := by
    simp [RulesFile.text, oneEntry, JsonText.front, bare]
  have brace : '"' ∉ ['\x7b'] := by decide
  refine ⟨['\x7b'], [], [], by simp [oneEntry, JsonText.front, bare], ?_, rfl,
    rfl⟩
  exact (strstr_skip brace _ _).trans (strstr_hit _ _ (by simp [quote]))

theorem isMacLine_phone :
    JsonSetBatch.isMacLine "aa:bb:cc:dd:ee:01".toList = true := by
  decide

def phone : MacArg :=
  ⟨"aa:bb:cc:dd:ee:01".toList, isMacLine_phone⟩

def shoutedPhone : MacArg :=
  ⟨"AA:BB:CC:DD:EE:01".toList, by decide⟩

/-- `{"blacklist":["aa:bb:cc:dd:ee:01"]}`. -/
def plainFile : RulesFile :=
  oneEntry (listing phone (by decide)) (by decide) (by decide)

theorem namedFirst_plainFile : plainFile.NamedFirst :=
  namedFirst_oneEntry _ _ _

theorem flags_agree_on_phone :
    deviceStatus (readBlacklist (some plainFile.text)) phone.text =
      mergedStatus plainFile.blacklist phone.text :=
  (blocked_flags_agree_iff plainFile (.inl namedFirst_plainFile) phone).mpr
    fun _ => ⟨namedFirst_plainFile, by decide⟩

/-- `{"blacklist":["AA:BB:CC:DD:EE:01"]}`. -/
def shoutedFile : RulesFile :=
  oneEntry (listing shoutedPhone (by decide)) (by decide) (by decide)

theorem flags_differ_on_upper_case :
    shoutedFile.Lists phone ∧
      deviceStatus (readBlacklist (some shoutedFile.text)) phone.text =
        "allowed".toList ∧
      mergedStatus shoutedFile.blacklist phone.text = "blocked".toList := by
  have first : shoutedFile.NamedFirst := namedFirst_oneEntry _ _ _
  refine ⟨⟨_, List.mem_singleton.mpr rfl, by decide⟩, ?_, by decide⟩
  rw [readBlacklist_of_namedFirst first]
  decide

end Hnc.BlockedFlags
