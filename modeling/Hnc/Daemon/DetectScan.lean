import Hnc.Daemon.DeviceNames
import Hnc.Daemon.DetectCache
import Hnc.Daemon.WriteJson
import Hnc.Lib.QuotedWords

/-!
# The scanner of `bin/device_detect.sh`

`do_scan_shell` writes `devices.json` when the daemon does not answer.  The
devices of the ARP table pass through a temporary file with six columns; the
devices of the earlier file are cut out of its text by patterns.  A text stands
for bytes, and `echo` prints backslashes as they are.
-/

namespace Hnc.DeviceDetect

open Posix JsonText
open DeviceNames (isMacChar)
open Hotspotd (jsonField)

/-- What the sources of a name answer for a device; an empty text is no answer.
The cache is the file at the time of the lookup. -/
structure Lookup where
  manual : Text
  cache : Cache
  now : Nat
  dhcp : Text
  mdns : Text
  lease : Text
deriving DecidableEq

/-- `get_hostname`: what it prints and the cache it leaves. -/
def getHostname (mac : Text) (lookup : Lookup) : Text × Cache :=
  let discovered (name : Text) (src : String) :=
    let answer := name ++ '|' :: src.toList
    (answer, hostnameCacheSet mac answer lookup.now lookup.cache)
  if lookup.manual ≠ [] then (lookup.manual ++ "|manual".toList, lookup.cache)
  else
    match hostnameCached mac lookup.now lookup.cache with
    | some cached =>
        (if '|' ∈ cached then cached else cached ++ "|cache".toList, lookup.cache)
    | none =>
        if lookup.dhcp ≠ [] then discovered lookup.dhcp "dhcp"
        else if lookup.mdns ≠ [] then discovered lookup.mdns "mdns"
        else if lookup.lease ≠ [] then discovered lookup.lease "dhcp"
        else ([], lookup.cache)

/-- `${text%|*}`. -/
def beforeLastBar (text : Text) : Text :=
  if '|' ∈ text then ((text.reverse.dropWhile (· != '|')).drop 1).reverse
  else text

/-- `${text##*|}`. -/
def behindLastBar (text : Text) : Text :=
  (text.reverse.takeWhile (· != '|')).reverse

/-- `echo "$mac" | tr -d ':' | tail -c 9`. -/
def lastEight (mac : Text) : Text :=
  captured ((mac.filter (· ≠ ':') ++ ['\n']).rtake 9)

/-- `hn` and `hn_src`. -/
def nameAndSource (mac hnRaw : Text) : Text × Text :=
  let hn := if hnRaw ≠ [] then beforeLastBar hnRaw else []
  let hnSrc := if hnRaw ≠ [] then behindLastBar hnRaw else []
  if hn = [] then (lastEight mac, "mac".toList) else (hn, hnSrc)

/-- `"blacklist":\[[^]]*\]`. -/
def blacklistArray (text : Text) : Option Text :=
  (after? (quote "blacklist".toList ++ [':', '[']) text).bind fun items =>
    match items.dropWhile (· != ']') with
    | [] => none
    | _ :: behind => some behind

/-- `[0-9a-fA-F:]{17}`. -/
def isMacWord (word : Text) : Bool :=
  word.length == 17 && word.all isMacChar

/-- `tr -d '"' | tr 'A-Z' 'a-z'`. -/
def bareLower (word : Text) : Text :=
  (word.filter (· ≠ '"')).map Char.toLower

/-- The lines of `blacklist`. -/
def blacklist (rules : Text) : List Text :=
  (((records rules).flatMap (grepO blacklistArray)).flatMap
    (grepO (worded isMacWord some))).map bareLower

/-- A line of `/proc/net/arp` behind the header. -/
structure ArpLine where
  ip : Ipv4
  flags : Text
  mac : Mac
  dev : Text
deriving DecidableEq

/-- What a scan reads, apart from the file that it writes. -/
structure Scan where
  ts : Nat
  rules : Text
  iface : Text
  arp : List ArpLine
  lookup : Text → Lookup
  stats : List (Text × Nat × Nat)

/-- `IFS='|' read -r` with this many variables; the last one takes the rest. -/
def readVars : Nat → Text → List Text
  | 0, _ => []
  | 1, line => [line]
  | n + 2, line =>
      match line.dropWhile (· != '|') with
      | [] => line :: List.replicate (n + 1) []
      | _ :: rest => line.takeWhile (· != '|') :: readVars (n + 1) rest

namespace Scan

/-- The lines of the table that are on the interface of the hotspot. -/
def devices (scan : Scan) : List ArpLine :=
  if scan.iface = [] then []
  else scan.arp.filter fun line =>
    line.flags ≠ "0x0".toList ∧ line.mac.text ≠ "00:00:00:00:00:00".toList ∧
      line.dev = scan.iface

/-- `ARP_TMP`. -/
def arpTmp (scan : Scan) : Text :=
  scan.devices.flatMap fun line =>
    line.ip.text ++ '|' :: (line.mac.text ++ '|' :: (line.dev ++ ['\n']))

/-- What `printf` adds to `TMP` for a device. -/
def tmpLine (scan : Scan) (ip arpMac dev : Text) : Text :=
  let mac := arpMac.map Char.toLower
  let hnRaw := captured ((getHostname mac (scan.lookup mac)).1 ++ ['\n'])
  let (hn, hnSrc) := nameAndSource mac hnRaw
  let status := if mac ∈ blacklist scan.rules then "blocked" else "allowed"
  ip ++ '|' :: (mac ++ '|' :: (hn ++ '|' :: (hnSrc ++ '|' ::
    (dev ++ '|' :: (status.toList ++ ['\n'])))))

/-- `TMP` behind the first loop. -/
def tmp (scan : Scan) : Text :=
  (records scan.arpTmp).flatMap fun line =>
    match readVars 3 line with
    | [ip, mac, dev] => if ip = [] then [] else scan.tmpLine ip mac dev
    | _ => []

/-- `rx` and `tx`. -/
def bytes (scan : Scan) (ip : Text) : Nat × Nat :=
  ((scan.stats.find? fun row => row.1 = ip).map Prod.snd).getD (0, 0)

end Scan

/-- `tr -d '\000-\037' | sed 's/\\/\\\\/g; s/"/\\"/g'`. -/
def hnJson (hn : Text) : Text :=
  (doubleBackslash (hn.filter fun c => 0x20 ≤ c.toNat)).flatMap fun c =>
    if c = '"' then ['\\', '"'] else [c]

/-- The text of a device in `devices.json`. -/
def deviceBlock (mac ip hn hnSrc dev status : Text) (bytes : Nat × Nat)
    (ts : Nat) : Text :=
  quote mac ++ ':' :: '\x7b' ::
    (jsonField "ip" (quote ip) ++
      ',' :: jsonField "mac" (quote mac) ++
      ',' :: jsonField "hostname" (quote (hnJson hn)) ++
      ',' :: jsonField "hostname_src" (quote hnSrc) ++
      ',' :: jsonField "iface" (quote dev) ++
      ',' :: jsonField "rx_bytes" (Nat.toDigits 10 bytes.1) ++
      ',' :: jsonField "tx_bytes" (Nat.toDigits 10 bytes.2) ++
      ',' :: jsonField "status" (quote status) ++
      ',' :: jsonField "last_seen" (Nat.toDigits 10 ts) ++
      ['\x7d'])

/-- `json` and `first`. -/
structure Output where
  json : Text
  first : Bool

/-- `[ $first -eq 0 ] && json="$json,"`, and a block. -/
def Output.add (out : Output) (block : Text) : Output :=
  ⟨out.json ++ ((if out.first then [] else [',']) ++ block), false⟩

/-- The body of the third loop. -/
def Scan.addDevice (scan : Scan) (out : Output) (line : Text) : Output :=
  match readVars 6 line with
  | [ip, mac, hn, hnSrc, dev, status] =>
      if ip = [] then out
      else out.add
        (deviceBlock mac ip hn hnSrc dev status (scan.bytes ip) scan.ts)
  | _ => out

/-- `[0-9]+`. -/
def digits (text : Text) : Option Text :=
  if text.takeWhile isDigit = [] then none else some (text.dropWhile isDigit)

/-- `"last_seen":[0-9]+`. -/
def lastSeenField : Text → Option Text :=
  named "last_seen".toList (tightColon digits)

/-- `"[^"]*"`. -/
def anyString : Text → Option Text
  | '"' :: rest =>
      match rest.dropWhile (· != '"') with
      | [] => none
      | _ :: behind => some behind
  | _ => none

/-- `"status":"[^"]*"`. -/
def statusField : Text → Option Text :=
  named "status".toList (tightColon anyString)

/-- `:\{[^}]*"last_seen":[0-9]+[^}]*\}`. -/
def seenObject : Text → Option Text
  | ':' :: '\x7b' :: block =>
      match block.dropWhile (· != '\x7d') with
      | [] => none
      | _ :: behind =>
          if grepO lastSeenField (block.takeWhile (· != '\x7d')) = [] then none
          else some behind
  | _ => none

/-- The lines of `oldblocks`. -/
def oldBlocks (file : Text) : List Text :=
  (records file).flatMap (grepO (worded isMacWord seenObject))

/-- `old_mac`. -/
def oldMac (block : Text) : Text :=
  match worded isMacWord some block with
  | none => []
  | some behind => bareLower (upTo block behind)

/-- The lines of `old_ls`. -/
def oldLastSeen (block : Text) : List Text :=
  (grepO lastSeenField block).map fun found =>
    (found.reverse.takeWhile isDigit).reverse

/-- `entry_body`. -/
def entryBody (block : Text) : Text :=
  let keyless := worded isMacWord (tightColon some) block
  substitute statusField "\"status\":\"stale\"".toList (keyless.getD block)

namespace Scan

/-- `newmacs`. -/
def newMacs (scan : Scan) : List Text :=
  (records scan.tmp).map fun line =>
    ((fields '|' line).getD 1 []).map Char.toLower

/-- The tests of the last loop.  A block with two times is an error of the
arithmetic. -/
def keepsBlock (scan : Scan) (block : Text) : Bool :=
  match oldLastSeen block with
  | [seen] =>
      let age : Int := (scan.ts : Int) - digitsValue seen
      oldMac block ≠ [] ∧ 0 ≤ age ∧ age ≤ 180 ∧ oldMac block ∉ scan.newMacs
  | _ => false

/-- The body of the last loop. -/
def addOld (scan : Scan) (out : Output) (block : Text) : Output :=
  if scan.keepsBlock block then
    out.add (quote (oldMac block) ++ ':' :: entryBody block)
  else out

/-- `do_scan_shell`: the file that it writes, next to the earlier one. -/
def doScanShell (scan : Scan) (file : Option Text) : Text :=
  let scanned := (records scan.tmp).foldl scan.addDevice ⟨['\x7b'], true⟩
  let merged :=
    match file with
    | none => scanned
    | some old => (oldBlocks old).foldl scan.addOld scanned
  merged.json ++ ['\x7d']

end Scan

end Hnc.DeviceDetect
