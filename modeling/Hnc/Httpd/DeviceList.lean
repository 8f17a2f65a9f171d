import Hnc.Httpd.Pairing
import Mathlib.Data.Rat.Defs
import Mathlib.Algebra.Order.Ring.Unbundled.Rat
import Mathlib.Data.List.Lex

/-!
# The device list

`buildDevicesPayload` of `daemon/hnc_httpd/server.go` joins `devices.json`,
`rules.json` and `device_names.json`, as `json.Unmarshal` decodes them.  The rows
of `devices.json` come first; then the rules and the blacklist add what has not
been seen.
-/

namespace Httpd.DeviceList

open Posix
open KeyMap

/-- A decoded value.  A `float64` of a file is the rational that it stands
for. -/
inductive Value where
  | null
  | bool (b : Bool)
  | number (n : ℚ)
  | string (s : Text)
  | array (elements : List Value)
  | object (members : List (Text × Value))

abbrev Object := Map Text Value

/-- `v.(map[string]interface{})`; of the members of one name the decoder keeps
the last. -/
def Value.asMap : Value → Option Object
  | .object members =>
      some (members.foldl (fun map member => map.insert member.1 member.2) ∅)
  | _ => none

/-- `asString`. -/
def asString : Option Value → Text
  | some (.string s) => s
  | _ => []

/-- The number that `strconv.ParseInt` returns next to its error. -/
def parsedInt (text : Text) : Int :=
  let negative := text.head? == some '-'
  let digits :=
    if negative || text.head? == some '+' then text.tail else text
  if digits = [] ∨ ¬digits.all isDigit then 0
  else if negative then -min (decimal digits : Int) (2 ^ 63)
  else min (decimal digits : Int) (2 ^ 63 - 1)

/-- `toInt64`; what is too large becomes the nearest `int64`. -/
def toInt64 : Option Value → Int
  | some (.number n) => max (-2 ^ 63) (min (n.num.tdiv n.den) (2 ^ 63 - 1))
  | some (.string s) => parsedInt s
  | _ => 0

/-- `strings.ToLower`, for addresses. -/
def toLower (text : Text) : Text :=
  text.map Char.toLower

/-- `strings.ToUpper`, for addresses. -/
def toUpper (text : Text) : Text :=
  text.map Char.toUpper

structure RateSample where
  rxBytes : Int
  txBytes : Int
  ts : Int
  lastRxBps : Int
  lastTxBps : Int

/-- The growth of a counter; the difference of two `int64` wraps. -/
def grown (now before : Int) : Int :=
  max 0 ((now - before).bmod (2 ^ 64))

/-- The next sample of a device, with `rx_bps` and `tx_bps`. -/
def rates (prev : Option RateSample) (now rx tx : Int) :
    RateSample × Int × Int :=
  match prev with
  | none => (⟨rx, tx, now, 0, 0⟩, 0, 0)
  | some prev =>
      let dt := now - prev.ts
      if 2 ≤ dt ∧ dt ≤ 120 then
        let rxBps := grown rx prev.rxBytes / dt
        let txBps := grown tx prev.txBytes / dt
        (⟨rx, tx, now, rxBps, txBps⟩, rxBps, txBps)
      else if dt < 2 then (prev, prev.lastRxBps, prev.lastTxBps)
      else (⟨rx, tx, now, 0, 0⟩, 0, 0)

/-- The keys that a rule lays over a row. -/
def ruleKeys : List Text :=
  ["mark_id".toList, "down_mbps".toList, "up_mbps".toList, "delay_ms".toList,
    "jitter_ms".toList, "loss_pct".toList, "limit_enabled".toList,
    "delay_enabled".toList]

def overlay (rule : Object) (keys : List Text) (row : Object) : Object :=
  keys.foldl (fun row k =>
    match rule.lookup k with
    | some v => row.insert k v
    | none => row) row

/-- `map[first]`, or `map[second]` when there is no such key. -/
def lookupOr (map : Object) (first second : Text) : Option Value :=
  match map.lookup first with
  | some v => some v
  | none => map.lookup second

/-- A manual name overrides the host name. -/
def named (name : Option Value) (row : Object) : Object :=
  match name with
  | some (.string nm) =>
      if nm ≠ [] then
        (row.insert "hostname".toList (.string nm)).insert
          "hostname_src".toList (.string "manual".toList)
      else row
  | _ => row

def statusText (blocked : Bool) : Value :=
  .string (if blocked then "blocked".toList else "allowed".toList)

/-- `now - last_seen < 90`, for a device that has been seen. -/
def online (now : Int) (lastSeen : Option Value) : Bool :=
  match lastSeen with
  | some (.number seen) => decide (0 < seen) && decide ((now : ℚ) - seen < 90)
  | _ => false

/-- The decoded files. -/
structure Files where
  devicesRaw : Option Value
  rulesRaw : Option Value
  namesRaw : Option Value

namespace Files

variable (files : Files)

/-- A file that cannot be read or is no object counts as empty. -/
def readMap (raw : Option Value) : Object :=
  (raw.bind Value.asMap).getD ∅

def devicesMap : Object := readMap files.devicesRaw

def rulesMap : Object := readMap files.rulesRaw

def namesMap : Object := readMap files.namesRaw

def deviceRules : Object :=
  readMap (files.rulesMap.lookup "devices".toList)

/-- The entries of the blacklist that are strings. -/
def blacklist : List Text :=
  match files.rulesMap.lookup "blacklist".toList with
  | some (.array elements) =>
      elements.filterMap fun
        | .string s => some s
        | _ => none
  | _ => []

/-- The keys of `blSet`. -/
def blSet : List Text :=
  (files.blacklist.map toLower).dedup

/-- The fields of a device with the rule laid over them. -/
def laidRow (mac : Text) (dev : Object) : Object :=
  let row := (∅ : Object).insert "mac".toList (.string mac)
  -- All fields of the device, its own `mac` too.
  let row := dev.foldl (fun row k v => row.insert k v) row
  match (lookupOr files.deviceRules mac (toLower mac)).bind Value.asMap with
  | some rule => overlay rule ruleKeys row
  | none => row

/-- A row of `devices.json` before the rates are added. -/
def mergedRow (now : Int) (mac : Text) (dev : Object) : Object :=
  let macKey := toLower mac
  let row := named (lookupOr files.namesMap mac macKey) (files.laidRow mac dev)
  let row := row.insert "status".toList (statusText (macKey ∈ files.blSet))
  row.insert "online".toList
    (.bool (online now (row.lookup "last_seen".toList)))

/-- A row of `devices.json`, with the next sample of the device. -/
def deviceRow (lastSamples : Map Text RateSample) (now : Int) (mac : Text)
    (dev : Object) : Object × RateSample :=
  let row := files.mergedRow now mac dev
  let (sample, rxBps, txBps) :=
    rates (lastSamples.lookup mac) now
      (toInt64 (row.lookup "rx_bytes".toList))
      (toInt64 (row.lookup "tx_bytes".toList))
  ((row.insert "rx_bps".toList (.number rxBps)).insert "tx_bps".toList
    (.number txBps), sample)

/-- The row of a rule or of a blacklist entry. -/
def ruleOnlyRow (mac : Text) (rule : Option Object) : Object :=
  let row := (∅ : Object).insert "mac".toList (.string mac)
  let row := row.insert "ip".toList (.string "-".toList)
  let row := row.insert "online".toList (.bool false)
  let row := row.insert "rx_bps".toList (.number 0)
  let row := row.insert "tx_bps".toList (.number 0)
  let row :=
    match rule with
    | some rule => overlay rule ("ip".toList :: ruleKeys) row
    | none => row
  let row := named (lookupOr files.namesMap mac (toUpper mac)) row
  row.insert "status".toList (statusText (mac ∈ files.blSet))

/-- The MACs seen so far and the rows. -/
structure Listed where
  seen : List Text
  out : List Object

def appendRuleOnly (listed : Listed) (item : Text × Option Object) : Listed :=
  let mac := toLower (trimSpace item.1)
  if mac = [] ∨ mac ∈ listed.seen then listed
  else
    ⟨mac :: listed.seen, listed.out ++ [files.ruleOnlyRow mac item.2]⟩

end Files

/-- `ipSortKey`. -/
def ipSortKey (s : Text) : List Int :=
  let parts := s.splitOn '.'
  if parts.length = 4 then parts.map parsedInt else [0, 0, 0, 0]

def sortsBefore (left right : Object) : Bool :=
  decide (ipSortKey (asString (left.lookup "ip".toList)) ≤
    ipSortKey (asString (right.lookup "ip".toList)))

/-- The order in which `range` visits a set is open. -/
structure Visit where
  order : List Text → List Text
  perm : ∀ keys, (order keys).Perm keys

structure Payload where
  devices : List Object
  whitelistMode : Option Value
  remoteEnabled : Option Value

/-- The entries of `devices.json` that are objects. -/
def Files.devices (files : Files) : List (Text × Object) :=
  files.devicesMap.entries.filterMap fun entry =>
    (Value.asMap entry.2).map fun dev => (entry.1, dev)

/-- The rules and the blacklist, in the order in which they are appended. -/
def Files.items (files : Files) (visit : Visit) :
    List (Text × Option Object) :=
  (files.deviceRules.entries.map fun entry =>
      (entry.1, Value.asMap entry.2)) ++
    (visit.order files.blSet).map fun mac => (mac, none)

/-- The rows in the order in which they are appended. -/
def Files.rows (files : Files) (visit : Visit)
    (lastSamples : Map Text RateSample) (now : Int) : List Object :=
  let listed : Files.Listed :=
    ⟨files.devices.map fun device => toLower device.1,
      files.devices.map fun device =>
        (files.deviceRow lastSamples now device.1 device.2).1⟩
  ((files.items visit).foldl files.appendRuleOnly listed).out

/-- The payload, with the samples for the next request.  A map is visited in the
order in which it is listed; rows with one address may be swapped. -/
def buildDevicesPayload (files : Files) (visit : Visit)
    (lastSamples : Map Text RateSample) (now : Int) :
    Payload × Map Text RateSample :=
  let newSamples := files.devices.foldl (fun samples device =>
    samples.insert device.1
      (files.deviceRow lastSamples now device.1 device.2).2) ∅
  (⟨(files.rows visit lastSamples now).mergeSort sortsBefore,
      files.rulesMap.lookup "whitelist_mode".toList,
      files.rulesMap.lookup "remote_enabled".toList⟩,
    newSamples)

end Httpd.DeviceList
