import Hnc.Httpd.DeviceRows
import Mathlib.Data.List.Dedup
import Mathlib.Data.List.Perm.Basic

/-!
# Every device once with its own rules

A device of `devices.json` is joined with the rule and the name that are stored
under its own lower-case key.  What is stored under the upper-case key is missed,
though the rows of the rules and of the blacklist look for both.
-/

namespace Httpd.DeviceList

open Posix
open KeyMap
open FirstKeys (firsts)

/-- The address that a row shows. -/
def shownMac (row : Object) : Option Text :=
  match row.lookup "mac".toList with
  | some (.string s) => some (toLower s)
  | _ => none

namespace Files

variable (files : Files)

/-- The devices have lower-case addresses and are objects; the other addresses
are in either case, and different addresses up to case. -/
structure WellFormed : Prop where
  devices : ∀ mac ∈ files.devicesMap.keys, isLowerMac mac = true
  objects : ∀ entry ∈ files.devicesMap.entries,
    (Value.asMap entry.2).isSome = true
  rules : ∀ mac ∈ files.deviceRules.keys, isMac mac = true
  rulesApart : (files.deviceRules.keys.map toLower).Nodup
  blacklist : ∀ mac ∈ files.blacklist, isMac mac = true
  names : ∀ mac ∈ files.namesMap.keys, isMac mac = true
  namesApart : (files.namesMap.keys.map toLower).Nodup

/-- The addresses of the devices, of the rules and of the blacklist. -/
def macs : List Text :=
  (files.devicesMap.keys ++ (files.deviceRules.keys.map toLower ++
    files.blacklist.map toLower)).dedup

def Blocked (mac : Text) : Prop :=
  mac ∈ files.blacklist.map toLower

/-- The rule for an address, whatever the case of its key. -/
def RuleOf (mac : Text) (rule : Object) : Prop :=
  ∃ key value, files.deviceRules.lookup key = some value ∧
    Value.asMap value = some rule ∧ toLower key = mac

/-- The manual name for an address. -/
def NameOf (mac nm : Text) : Prop :=
  nm ≠ [] ∧ ∃ key, files.namesMap.lookup key = some (.string nm) ∧
    toLower key = mac

/-- The row is right for the address. -/
structure RowShows (row : Object) (mac : Text) : Prop where
  status : row.lookup "status".toList = some (.string "blocked".toList) ↔
    files.Blocked mac
  rule : ∀ rule, files.RuleOf mac rule → ∀ k ∈ ruleKeys, ∀ v,
    rule.lookup k = some v → row.lookup k = some v
  name : ∀ nm, files.NameOf mac nm →
    row.lookup "hostname".toList = some (.string nm)

/-- Every address has one row, and the row is right for it. -/
structure Shows (rows : List Object) : Prop where
  once : (rows.map shownMac).Perm (files.macs.map some)
  each : ∀ row ∈ rows, ∀ mac, shownMac row = some mac →
    files.RowShows row mac

/-- The address that the row of a device shows: its own `mac` field comes before
the key. -/
def shownBy (mac : Text) (dev : Object) : Option Text :=
  match dev.lookup "mac".toList with
  | none => some mac
  | some (.string s) => some (toLower s)
  | some _ => none

/-- What is found for a device under its own key, or is already a field of the
device, is what belongs to the address that it shows. -/
structure Finds (mac : Text) (dev : Object) (shown : Text) : Prop where
  listed : files.Blocked mac ↔ files.Blocked shown
  rule : ∀ rule, files.RuleOf shown rule → ∀ k ∈ ruleKeys, ∀ v,
    rule.lookup k = some v →
      ((files.ruleAt mac).lookup k).or (dev.lookup k) = some v
  name : ∀ nm, files.NameOf shown nm →
    ((shownName (files.namesMap.lookup mac)).map Value.string).or
      (dev.lookup "hostname".toList) = some (.string nm)

/-- What is stored under the upper-case key of a device is among its own
fields. -/
structure NothingMissed (mac : Text) (dev : Object) : Prop where
  rule : toUpper mac ≠ mac → ∀ value rule,
    files.deviceRules.lookup (toUpper mac) = some value →
      Value.asMap value = some rule → ∀ k ∈ ruleKeys, ∀ v,
        rule.lookup k = some v → dev.lookup k = some v
  name : toUpper mac ≠ mac → ∀ nm, nm ≠ [] →
    files.namesMap.lookup (toUpper mac) = some (.string nm) →
      dev.lookup "hostname".toList = some (.string nm)

/-- The devices show their addresses, each one once.  A device that shows its
key misses nothing under the upper-case key; one whose `mac` field is another
address finds what belongs to that address. -/
structure Joined : Prop where
  shown : (files.devices.map fun device => shownBy device.1 device.2).Perm
    (files.devices.map fun device => some device.1)
  own : ∀ device ∈ files.devices,
    shownBy device.1 device.2 = some device.1 →
      files.NothingMissed device.1 device.2
  foreign : ∀ device ∈ files.devices, ∀ shown, shown ≠ device.1 →
    shownBy device.1 device.2 = some shown →
      files.Finds device.1 device.2 shown

theorem statusText_blocked {blocked : Prop} [Decidable blocked] :
    some (statusText (decide blocked)) =
      some (Value.string "blocked".toList) ↔ blocked := by
  have differ : "allowed".toList ≠ "blocked".toList := by decide
  by_cases holds : blocked
  · simp [statusText, holds]
  · simp only [statusText, holds, Option.some.injEq, Value.string.injEq,
      iff_false]
    exact differ

theorem mem_blSet (mac : Text) : mac ∈ files.blSet ↔ files.Blocked mac :=
  List.mem_dedup

section Devices

variable (samples : Map Text RateSample) (now : Int) {mac : Text}
  (lower : toLower mac = mac) (dev : Object)

include lower

theorem shownMac_deviceRow :
    shownMac (files.deviceRow samples now mac dev).1 = shownBy mac dev := by
  rw [shownMac, shownBy, mac_deviceRow]
  cases dev.lookup "mac".toList with
  | none => exact congrArg some lower
  | some v =>
      cases v with
      | _ => rfl

theorem rowShows_deviceRow (shown : Text) :
    files.RowShows (files.deviceRow samples now mac dev).1 shown ↔
      files.Finds mac dev shown := by
  have status : (files.deviceRow samples now mac dev).1.lookup
      "status".toList = some (.string "blocked".toList) ↔
        files.Blocked mac := by
    rw [status_deviceRow files samples now lower, statusText_blocked, mem_blSet]
  constructor
  · intro shows
    refine ⟨status.symm.trans shows.status, ?_, ?_⟩
    · intro rule isRule k member v found
      rw [← rule_deviceRow files samples now lower dev member]
      exact shows.rule rule isRule k member v found
    · intro nm isName
      rw [← hostname_deviceRow files samples now lower dev]
      exact shows.name nm isName
  · intro finds
    refine ⟨status.trans finds.listed, ?_, ?_⟩
    · intro rule isRule k member v found
      rw [rule_deviceRow files samples now lower dev member]
      exact finds.rule rule isRule k member v found
    · intro nm isName
      rw [hostname_deviceRow files samples now lower dev]
      exact finds.name nm isName

end Devices

/-! ### The rows that are appended -/

/-- The address of a rule or of a blacklist entry. -/
def itemMac (item : Text × Option Object) : Text :=
  toLower (trimSpace item.1)

/-- The loops append a row for every address that is new. -/
theorem foldl_appendRuleOnly (listed : Listed)
    (items : List (Text × Option Object))
    (nonempty : ∀ item ∈ items, itemMac item ≠ []) :
    (items.foldl files.appendRuleOnly listed).out = listed.out ++
      (firsts itemMac listed.seen items).map fun item =>
        files.ruleOnlyRow (itemMac item) item.2 := by
  induction items generalizing listed with
  | nil => simp [firsts]
  | cons first rest induction =>
      have here := nonempty first List.mem_cons_self
      have later := fun item member =>
        nonempty item (List.mem_cons_of_mem first member)
      rw [List.foldl_cons, induction _ later, firsts]
      by_cases known : itemMac first ∈ listed.seen
      · have kept : files.appendRuleOnly listed first = listed :=
          if_pos (.inr known)
        rw [kept, if_pos known]
      · have added : files.appendRuleOnly listed first =
            ⟨itemMac first :: listed.seen, listed.out ++
              [files.ruleOnlyRow (itemMac first) first.2]⟩ := by
          apply if_neg
          rintro (empty | seen)
          · exact here empty
          · exact known seen
        rw [added, if_neg known]
        simp

section WellFormed

variable {files} (wf : files.WellFormed)

include wf

theorem toLower_device {mac : Text} (member : mac ∈ files.devicesMap.keys) :
    toLower mac = mac :=
  toLower_of_isLowerMac (wf.devices mac member)

theorem devices_keys : files.devices.map Prod.fst = files.devicesMap.keys := by
  have objects := wf.objects
  rw [devices, AList.keys, List.keys]
  generalize files.devicesMap.entries = entries at objects ⊢
  induction entries with
  | nil => rfl
  | cons first rest induction =>
      obtain ⟨dev, isObject⟩ :=
        Option.isSome_iff_exists.mp (objects first List.mem_cons_self)
      rw [List.filterMap_cons, isObject]
      simp only [Option.map_some, List.map_cons, List.cons.injEq, true_and]
      exact induction fun entry member =>
        objects entry (List.mem_cons_of_mem first member)

theorem mem_keys_of_device {device : Text × Object}
    (member : device ∈ files.devices) :
    device.1 ∈ files.devicesMap.keys := by
  rw [← devices_keys wf]
  exact List.mem_map_of_mem member

omit wf in
theorem item_cases {visit : Visit} {item : Text × Option Object}
    (member : item ∈ files.items visit) :
    (∃ value, files.deviceRules.lookup item.1 = some value ∧
        item.2 = Value.asMap value) ∨
      item.1 ∈ files.blSet ∧ item.2 = none := by
  rcases List.mem_append.mp member with rule | listed
  · obtain ⟨entry, inRules, rfl⟩ := List.mem_map.mp rule
    exact .inl ⟨entry.2, AList.mem_lookup_iff.mpr inRules, rfl⟩
  · obtain ⟨mac, inSet, rfl⟩ := List.mem_map.mp listed
    exact .inr ⟨(visit.perm files.blSet).mem_iff.mp inSet, rfl⟩

theorem itemMac_item {visit : Visit} {item : Text × Option Object}
    (member : item ∈ files.items visit) :
    itemMac item = toLower item.1 ∧ toLower (itemMac item) = itemMac item ∧
      itemMac item ≠ [] := by
  rcases item_cases member with ⟨value, found, _⟩ | ⟨inSet, _⟩
  · have mac := wf.rules item.1 (AList.lookup_isSome.mp (by simp [found]))
    rw [itemMac, (trimSpace_of_isMac mac).1]
    exact ⟨rfl, toLower_toLower_of_isMac mac, toLower_ne_nil mac⟩
  · obtain ⟨entry, listed, same⟩ :=
      List.mem_map.mp ((files.mem_blSet item.1).mp inSet)
    have mac := wf.blacklist entry listed
    rw [itemMac, ← same, (trimSpace_of_isMac mac).2,
      toLower_toLower_of_isMac mac]
    exact ⟨rfl, toLower_toLower_of_isMac mac, toLower_ne_nil mac⟩

omit wf in
theorem key_eq {map : Object} (apart : (map.keys.map toLower).Nodup)
    {left right : Text} {leftValue rightValue : Value}
    (leftFound : map.lookup left = some leftValue)
    (rightFound : map.lookup right = some rightValue)
    (same : toLower left = toLower right) : left = right := by
  refine List.inj_on_of_nodup_map apart ?_ ?_ same
  · exact AList.lookup_isSome.mp (by simp [leftFound])
  · exact AList.lookup_isSome.mp (by simp [rightFound])

theorem rowShows_ruleOnlyRow {visit : Visit} {seen : List Text}
    {item : Text × Option Object}
    (member : item ∈ firsts itemMac seen (files.items visit)) :
    files.RowShows (files.ruleOnlyRow (itemMac item) item.2)
      (itemMac item) := by
  obtain ⟨own, lower, _⟩ := itemMac_item wf (FirstKeys.mem_of_mem_firsts member)
  constructor
  case status =>
      rw [status_ruleOnlyRow, statusText_blocked, mem_blSet]
  case rule =>
      rintro rule ⟨key, value, found, isRule, same⟩ k isKey v stored
      have inRules : (key, Value.asMap value) ∈
          files.deviceRules.entries.map fun entry =>
            (entry.1, Value.asMap entry.2) :=
        List.mem_map.mpr ⟨⟨key, value⟩, AList.mem_lookup_iff.mp found, rfl⟩
      rcases FirstKeys.mem_firsts_append member with here | ⟨_, absent⟩
      · obtain ⟨entry, inFile, rfl⟩ := List.mem_map.mp here
        have stored' := AList.mem_lookup_iff.mpr inFile
        have sameKey := key_eq wf.rulesApart found stored' (same.trans own)
        rw [sameKey, stored'] at found
        cases found
        rw [isRule]
        exact rule_ruleOnlyRow files _ rule isKey stored
      · exfalso
        apply absent
        refine List.mem_map.mpr ⟨_, inRules, ?_⟩
        have mac := wf.rules key (AList.lookup_isSome.mp (by simp [found]))
        rw [itemMac, (trimSpace_of_isMac mac).1]
        exact same
  case name =>
      rintro nm ⟨nonempty, key, found, same⟩
      apply hostname_ruleOnlyRow files _ _ nonempty
      have mac := wf.names key (AList.lookup_isSome.mp (by simp [found]))
      rw [lookupOr]
      cases exact : files.namesMap.lookup (itemMac item) with
      | some v =>
          have sameKey := key_eq wf.namesApart found exact
            (same.trans lower.symm)
          rw [sameKey, exact] at found
          exact found
      | none =>
          rcases eq_or_eq_toUpper mac same with here | upper
          · rw [here, exact] at found
            cases found
          · rw [upper] at found
            exact found

/-- The items that are appended. -/
def appended (files : Files) (visit : Visit) : List (Text × Option Object) :=
  firsts itemMac (files.devices.map fun device => toLower device.1)
    (files.items visit)

theorem rows_eq (visit : Visit) (samples : Map Text RateSample) (now : Int) :
    files.rows visit samples now =
      (files.devices.map fun device =>
        (files.deviceRow samples now device.1 device.2).1) ++
      (files.appended visit).map fun item =>
        files.ruleOnlyRow (itemMac item) item.2 := by
  apply foldl_appendRuleOnly
  intro item member
  exact (itemMac_item wf member).2.2

theorem shownMac_appended {visit : Visit} :
    ((files.appended visit).map fun item =>
        shownMac (files.ruleOnlyRow (itemMac item) item.2)) =
      ((files.appended visit).map itemMac).map some := by
  rw [List.map_map]
  apply List.map_congr_left
  intro item member
  obtain ⟨_, lower, _⟩ := itemMac_item wf (FirstKeys.mem_of_mem_firsts member)
  rw [shownMac, mac_ruleOnlyRow]
  exact congrArg some lower

/-- The appended addresses are those that are not in `devices.json`. -/
theorem macs_perm (visit : Visit) :
    files.macs.Perm (files.devices.map Prod.fst ++
      (files.appended visit).map itemMac) := by
  have lowers : (files.devices.map fun device => toLower device.1) =
      files.devices.map Prod.fst := by
    apply List.map_congr_left
    intro device member
    exact toLower_device wf (mem_keys_of_device wf member)
  refine (List.perm_ext_iff_of_nodup (List.nodup_dedup _) ?_).mpr ?_
  · apply List.nodup_append.mpr
    refine ⟨?_, FirstKeys.nodup_firsts _ _, ?_⟩
    · rw [devices_keys wf]
      exact files.devicesMap.nodupKeys
    · rintro mac inDevices _ inItems rfl
      have fresh := ((FirstKeys.mem_keys_firsts _ _ _).mp inItems).2
      rw [lowers] at fresh
      exact fresh inDevices
  · intro mac
    have items : mac ∈ (files.items visit).map itemMac ↔
        mac ∈ files.deviceRules.keys.map toLower ∨
          mac ∈ files.blacklist.map toLower := by
      constructor
      · intro inItems
        obtain ⟨item, member, rfl⟩ := List.mem_map.mp inItems
        obtain ⟨own, lower, _⟩ := itemMac_item wf member
        rcases item_cases member with ⟨value, found, _⟩ | ⟨inSet, _⟩
        · left
          rw [own]
          apply List.mem_map_of_mem
          exact AList.lookup_isSome.mp (by simp [found])
        · right
          obtain ⟨entry, listed, same⟩ :=
            List.mem_map.mp ((files.mem_blSet item.1).mp inSet)
          have twice := toLower_toLower_of_isMac (wf.blacklist entry listed)
          rw [own, ← same, twice]
          exact List.mem_map_of_mem listed
      · rintro (rule | listed)
        · obtain ⟨key, member, rfl⟩ := List.mem_map.mp rule
          obtain ⟨value, found⟩ := Option.isSome_iff_exists.mp
            (AList.lookup_isSome.mpr member)
          have inItems : (key, Value.asMap value) ∈ files.items visit :=
            List.mem_append_left _ (List.mem_map.mpr
              ⟨⟨key, value⟩, AList.mem_lookup_iff.mp found, rfl⟩)
          exact List.mem_map.mpr ⟨_, inItems, (itemMac_item wf inItems).1⟩
        · have inSet := (visit.perm files.blSet).mem_iff.mpr
            ((files.mem_blSet mac).mpr listed)
          have inItems : (mac, none) ∈ files.items visit :=
            List.mem_append_right _ (List.mem_map_of_mem inSet)
          obtain ⟨entry, isEntry, same⟩ := List.mem_map.mp listed
          have twice := toLower_toLower_of_isMac (wf.blacklist entry isEntry)
          refine List.mem_map.mpr ⟨_, inItems, ?_⟩
          rw [(itemMac_item wf inItems).1, ← same]
          exact twice
    rw [List.mem_dedup, List.mem_append, List.mem_append,
      List.mem_append, appended, FirstKeys.mem_keys_firsts, lowers, items,
      devices_keys wf]
    by_cases inDevices : mac ∈ files.devicesMap.keys
    · simp [inDevices]
    · simp [inDevices]

/-- A device that shows its key finds what belongs to it unless it is stored
under the upper-case key. -/
theorem finds_own {mac : Text} (member : mac ∈ files.devicesMap.keys)
    (dev : Object) : files.Finds mac dev mac ↔ files.NothingMissed mac dev := by
  have lower := toLower_device wf member
  have upper : toLower (toUpper mac) = mac :=
    toLower_toUpper_of_isLowerMac (wf.devices mac member)
  have notBoth : ∀ {map : Object}, (map.keys.map toLower).Nodup →
      toUpper mac ≠ mac → ∀ {value}, map.lookup (toUpper mac) = some value →
        map.lookup mac = none := by
    intro map apart differ value found
    cases here : map.lookup mac with
    | none => rfl
    | some other =>
        exact absurd (key_eq apart found here (upper.trans lower.symm)) differ
  constructor
  · intro finds
    constructor
    · intro differ value rule found isRule k isKey v stored
      have finds := finds.rule rule ⟨_, value, found, isRule, upper⟩ k isKey v
        stored
      rw [ruleAt, notBoth wf.rulesApart differ found] at finds
      exact finds
    · intro differ nm nonempty found
      have finds := finds.name nm ⟨nonempty, _, found, upper⟩
      rw [notBoth wf.namesApart differ found] at finds
      exact finds
  · intro nothing
    refine ⟨Iff.rfl, ?_, ?_⟩
    · rintro rule ⟨key, value, found, isRule, same⟩ k isKey v stored
      have isMac := wf.rules key (AList.lookup_isSome.mp (by simp [found]))
      by_cases here : key = mac
      · rw [here] at found
        rw [ruleAt, found, Option.bind_some, isRule, Option.getD_some, stored]
        rfl
      · have upperKey := (eq_or_eq_toUpper isMac same).resolve_left here
        rw [upperKey] at here found
        rw [ruleAt, notBoth wf.rulesApart here found]
        exact nothing.rule here value rule found isRule k isKey v stored
    · rintro nm ⟨nonempty, key, found, same⟩
      have isMac := wf.names key (AList.lookup_isSome.mp (by simp [found]))
      by_cases here : key = mac
      · rw [here] at found
        rw [found]
        simp [shownName, nonempty]
      · have upperKey := (eq_or_eq_toUpper isMac same).resolve_left here
        rw [upperKey] at here found
        rw [notBoth wf.namesApart here found]
        exact nothing.name here nm nonempty found

/-- The rows are right exactly when the devices are joined. -/
theorem shows_iff_joined (visit : Visit) (samples : Map Text RateSample)
    (now : Int) {rows : List Object}
    (sorted : rows.Perm (files.rows visit samples now)) :
    files.Shows rows ↔ files.Joined := by
  have deviceRows : ∀ device ∈ files.devices,
      toLower device.1 = device.1 := by
    intro device member
    exact toLower_device wf (mem_keys_of_device wf member)
  have shown : ((files.devices.map fun device =>
      (files.deviceRow samples now device.1 device.2).1).map shownMac) =
        files.devices.map fun device => shownBy device.1 device.2 := by
    rw [List.map_map]
    apply List.map_congr_left
    intro device member
    exact shownMac_deviceRow files samples now (deviceRows device member)
      device.2
  have once : (rows.map shownMac).Perm (files.macs.map some) ↔
      (files.devices.map fun device => shownBy device.1 device.2).Perm
        (files.devices.map fun device => some device.1) := by
    have left := sorted.map shownMac
    have right := (macs_perm wf visit).map some
    rw [rows_eq wf, List.map_append, shown, List.map_map] at left
    rw [List.map_append, List.map_map, ← shownMac_appended wf] at right
    refine Iff.trans ?_ (List.perm_append_right_iff
      ((files.appended visit).map fun item =>
        shownMac (files.ruleOnlyRow (itemMac item) item.2)))
    constructor
    · intro perm
      exact left.symm.trans (perm.trans right)
    · intro perm
      exact left.trans (perm.trans right.symm)
  constructor
  · intro shows
    have finds : ∀ device ∈ files.devices, ∀ address,
        shownBy device.1 device.2 = some address →
          files.Finds device.1 device.2 address := by
      intro device member address isShown
      have lower := deviceRows device member
      have inRows :
          (files.deviceRow samples now device.1 device.2).1 ∈ rows := by
        rw [sorted.mem_iff, rows_eq wf]
        exact List.mem_append_left _ (List.mem_map_of_mem member)
      apply (rowShows_deviceRow files samples now lower device.2 address).mp
      apply shows.each _ inRows
      rw [shownMac_deviceRow files samples now lower]
      exact isShown
    refine ⟨once.mp shows.once, ?_, ?_⟩
    · intro device member isShown
      exact (finds_own wf (mem_keys_of_device wf member) device.2).mp
        (finds device member device.1 isShown)
    · intro device member address _ isShown
      exact finds device member address isShown
  · intro joined
    refine ⟨once.mpr joined.shown, ?_⟩
    intro row member address isShown
    rw [sorted.mem_iff, rows_eq wf] at member
    rcases List.mem_append.mp member with isDevice | isAppended
    · obtain ⟨device, inFile, rfl⟩ := List.mem_map.mp isDevice
      have lower := deviceRows device inFile
      rw [shownMac_deviceRow files samples now lower] at isShown
      apply (rowShows_deviceRow files samples now lower device.2 address).mpr
      by_cases own : address = device.1
      · subst own
        exact (finds_own wf (mem_keys_of_device wf inFile) device.2).mpr
          (joined.own device inFile isShown)
      · exact joined.foreign device inFile address own isShown
    · obtain ⟨item, inItems, rfl⟩ := List.mem_map.mp isAppended
      obtain ⟨_, lowerItem, _⟩ :=
        itemMac_item wf (FirstKeys.mem_of_mem_firsts inItems)
      rw [shownMac, mac_ruleOnlyRow] at isShown
      have same : itemMac item = address :=
        lowerItem.symm.trans (Option.some.inj isShown)
      rw [← same]
      exact rowShows_ruleOnlyRow wf inItems

end WellFormed

end Files

/-- The list shows every device once with its own rules exactly when the devices
are joined. -/
theorem list_shows_devices_iff (files : Files) (wf : files.WellFormed)
    (visit : Visit) (lastSamples : Map Text RateSample) (now : Int) :
    files.Shows (buildDevicesPayload files visit lastSamples now).1.devices ↔
      files.Joined :=
  Files.shows_iff_joined wf visit lastSamples now (List.mergeSort_perm _ _)

/-- A device with a rule under `key`. -/
def ruledBy (key : Text) : Files where
  devicesRaw := some (.object [("aa:bb:cc:dd:ee:01".toList, .object
    [("mac".toList, .string "aa:bb:cc:dd:ee:01".toList),
      ("ip".toList, .string "192.168.43.7".toList)])])
  rulesRaw := some (.object
    [("devices".toList, .object [(key, .object
        [("mark_id".toList, .number 5), ("down_mbps".toList, .number 2),
          ("limit_enabled".toList, .bool true)])]),
      ("blacklist".toList, .array [])])
  namesRaw := none

def phone : Text := "aa:bb:cc:dd:ee:01".toList

/-- Its rule. -/
def phoneRule : Object :=
  (((∅ : Object).insert "mark_id".toList (.number 5)).insert
    "down_mbps".toList (.number 2)).insert "limit_enabled".toList (.bool true)

/-- Its fields. -/
def phoneDevice : Object :=
  ((∅ : Object).insert "mac".toList (.string phone)).insert "ip".toList
    (.string "192.168.43.7".toList)

theorem devices_ruledBy (key : Text) :
    (ruledBy key).devices = [(phone, phoneDevice)] := rfl

theorem deviceRules_ruledBy (key : Text) :
    ∃ value, Value.asMap value = some phoneRule ∧
      (ruledBy key).deviceRules = (∅ : Object).insert key value :=
  ⟨_, rfl, rfl⟩

theorem wellFormed_ruledBy {key : Text} (mac : isMac key = true) :
    (ruledBy key).WellFormed := by
  obtain ⟨value, _, rules⟩ := deviceRules_ruledBy key
  have keys : (ruledBy key).deviceRules.keys = [key] := by
    rw [rules]
    simp
  constructor
  case devices =>
      intro mac member
      have one : (ruledBy key).devicesMap.keys = [phone] := rfl
      rw [one, List.mem_singleton] at member
      rw [member]
      decide
  case objects =>
      intro entry member
      have one : (ruledBy key).devicesMap.entries.all
          (fun entry => (Value.asMap entry.2).isSome) = true := rfl
      exact List.all_eq_true.mp one entry member
  case rules =>
      intro other member
      rw [keys, List.mem_singleton] at member
      rw [member]
      exact mac
  case rulesApart =>
      exact List.nodup_singleton _
  case blacklist =>
      intro other member
      cases member
  case names =>
      intro other member
      cases member
  case namesApart => exact List.nodup_nil

theorem shownBy_phone : Files.shownBy phone phoneDevice = some phone := rfl

/-- The rule under the upper-case key is missed. -/
theorem upper_case_rule_is_missed :
    (ruledBy "AA:BB:CC:DD:EE:01".toList).WellFormed ∧
      ¬(ruledBy "AA:BB:CC:DD:EE:01".toList).Shows
        (buildDevicesPayload (ruledBy "AA:BB:CC:DD:EE:01".toList)
          ⟨id, fun _ => .refl _⟩ ∅ 0).1.devices := by
  have wf : (ruledBy "AA:BB:CC:DD:EE:01".toList).WellFormed :=
    wellFormed_ruledBy (by decide)
  refine ⟨wf, ?_⟩
  intro shows
  have joined := (Files.shows_iff_joined wf _ _ _
    (List.mergeSort_perm _ _)).mp shows
  obtain ⟨value, isRule, rules⟩ := deviceRules_ruledBy "AA:BB:CC:DD:EE:01".toList
  have found : (ruledBy "AA:BB:CC:DD:EE:01".toList).deviceRules.lookup
      (toUpper phone) = some value := by
    have upper : toUpper phone = "AA:BB:CC:DD:EE:01".toList := by decide
    rw [rules, upper]
    exact AList.lookup_insert _
  have nothing := joined.own (phone, phoneDevice)
    (by rw [devices_ruledBy]; exact List.mem_singleton_self _) shownBy_phone
  have mark := nothing.rule (by decide) value phoneRule found isRule
    "mark_id".toList (by decide) (.number 5) rfl
  cases mark

/-- Under the lower-case key it is found. -/
theorem lower_case_rule_is_found :
    (ruledBy phone).Shows (buildDevicesPayload (ruledBy phone)
      ⟨id, fun _ => .refl _⟩ ∅ 0).1.devices := by
  refine (list_shows_devices_iff (ruledBy phone)
    (wellFormed_ruledBy (by decide)) _ _ _).mpr ?_
  obtain ⟨value, _, rules⟩ := deviceRules_ruledBy phone
  constructor
  case shown => exact .refl _
  case own =>
      intro device member _
      rw [devices_ruledBy, List.mem_singleton] at member
      subst member
      constructor
      · intro upper value rule found
        rw [rules, AList.lookup_insert_ne upper] at found
        cases found
      · intro _ nm _ found
        cases found
  case foreign =>
      intro device member shown differ isShown
      rw [devices_ruledBy, List.mem_singleton] at member
      subst member
      rw [shownBy_phone] at isShown
      exact absurd (Option.some.inj isShown).symm differ

end Httpd.DeviceList
