import Hnc.Net.Tables
import Mathlib.Algebra.GroupWithZero.Nat
import Mathlib.Data.List.Dedup

/-!
# `bin/iptables_manager.sh`

The commands that change the chains, in the order of their `iptables` calls.
All calls are taken to succeed, apart from `-D`, which fails when there is
nothing to delete.
-/

namespace Hnc.IptablesManager

open Posix

def markBase : Nat := 0x800000

/-- `printf "0x%x"`. -/
def hexText (n : Nat) : Text :=
  "0x".toList ++ Nat.toDigits 16 n

/-- `ipt_del_all` on `HNC_MARK`. -/
def delMark (rule : MarkRule) (chain : List MarkRule) : List MarkRule :=
  Chain.deleteAll id rule chain

/-- `ipt_del_all` on `HNC_STATS`. -/
def delStat (rule : StatRule) (chain : List Counted) : List Counted :=
  Chain.deleteAll Counted.rule rule chain

/-- `ipt_del_all` on `HNC_CTRL`. -/
def delCtrl (rule : CtrlRule) (chain : List CtrlRule) : List CtrlRule :=
  Chain.deleteAll id rule chain

/-- `-s ip -m mac --mac-source mac -j MARK --set-mark mark`. -/
def srcRule (ip mac : Text) (mark : Nat) : MarkRule :=
  ⟨some ip, none, some mac, false, mark⟩

/-- `-m mac --mac-source mac -m mark --mark 0 -j MARK --set-mark mark`. -/
def macRule (mac : Text) (mark : Nat) : MarkRule :=
  ⟨none, none, some mac, true, mark⟩

/-- `-d ip -j MARK --set-mark mark`. -/
def dstRule (ip : Text) (mark : Nat) : MarkRule :=
  ⟨none, some ip, none, false, mark⟩

def statSrc (ip : Text) : StatRule := ⟨some ip, none⟩

def statDst (ip : Text) : StatRule := ⟨none, some ip⟩

/-- The words of one line of `iptables -t mangle -S HNC_MARK`. -/
def listing (rule : MarkRule) : List Text :=
  ["-A".toList, "HNC_MARK".toList] ++
    (match rule.src with
      | none => []
      | some ip => ["-s".toList, ip ++ "/32".toList]) ++
    (match rule.dst with
      | none => []
      | some ip => ["-d".toList, ip ++ "/32".toList]) ++
    (match rule.macSource with
      | none => []
      | some mac => ["-m".toList, "mac".toList, "--mac-source".toList, mac]) ++
    (if rule.unmarked then
      ["-m".toList, "mark".toList, "--mark".toList, "0x0".toList]
    else []) ++
    ["-j".toList, "MARK".toList, "--set-xmark".toList,
      hexText rule.setMark ++ "/0xffffffff".toList]

/-- `sub(/\/32$/, "", ip)`. -/
def stripCidr (word : Text) : Text :=
  if "/32".toList.isSuffixOf word then word.take (word.length - 3) else word

/-- The variables of the awk program of `_gc_stale_ips_for_mac`. -/
structure LineScan where
  hasMac : Bool
  hasMark : Bool
  srcIp : Text
  dstIp : Text

/-- One round of its field loop, at the field `word` followed by `next`. -/
def scanWord (mac mark : Text) (scan : LineScan) (word next : Text) : LineScan :=
  { hasMac := scan.hasMac || (word == "--mac-source".toList && next == mac)
    hasMark := scan.hasMark ||
      ((word == "--set-xmark".toList || word == "--set-mark".toList) &&
        mark.isPrefixOf next)
    srcIp := if word = "-s".toList then stripCidr next else scan.srcIp
    dstIp := if word = "-d".toList then stripCidr next else scan.dstIp }

def scanLine (mac mark : Text) (scan : LineScan) : List Text → LineScan
  | [] => scan
  | word :: rest =>
      scanLine mac mark (scanWord mac mark scan word (rest.headD [])) rest

/-- The addresses the awk program prints for one line. -/
def printedIps (mac mark : Text) (line : List Text) : List Text :=
  let scan := scanLine mac mark ⟨false, false, [], []⟩ line
  (if scan.hasMac ∧ scan.srcIp ≠ [] then [scan.srcIp] else []) ++
    (if ¬scan.hasMac ∧ scan.hasMark ∧ scan.dstIp ≠ [] then [scan.dstIp] else [])

/-- The loop variable values of the clean-up: every listed address other than
the current one. -/
def staleIps (mac mark curIp : Text) (chain : List MarkRule) : List Text :=
  ((chain.flatMap fun rule => printedIps mac mark (listing rule)).dedup).filter
    fun old => old ≠ [] ∧ old ≠ curIp

/-- One round of the clean-up loop. -/
def gcAddress (mac : Text) (mark : Nat) (tables : Tables) (old : Text) :
    Tables :=
  { tables with
    hncMark := delMark (dstRule old mark)
      (delMark (srcRule old mac mark) tables.hncMark)
    hncStats := delStat (statDst old) (delStat (statSrc old) tables.hncStats) }

/-- `_gc_stale_ips_for_mac`. -/
def gcStaleIpsForMac (mac : Text) (mark : Nat) (curIp : Text)
    (tables : Tables) : Tables :=
  (staleIps mac (hexText mark) curIp tables.hncMark).foldl
    (gcAddress mac mark) tables

/-- The three deletions that `mark_device` and `unmark_device` share. -/
def delMarkRules (ip mac : Text) (mark : Nat) (tables : Tables) : Tables :=
  { tables with
    hncMark := delMark (macRule mac mark)
      (delMark (dstRule ip mark) (delMark (srcRule ip mac mark) tables.hncMark))
    hncMark6 :=
      if tables.ipv6Ok then delMark (macRule mac mark) tables.hncMark6
      else tables.hncMark6 }

def delStatRules (ip : Text) (tables : Tables) : Tables :=
  { tables with
    hncStats := delStat (statDst ip) (delStat (statSrc ip) tables.hncStats) }

/-- Append the pair of counting rules. -/
def addStatRules (ip : Text) (tables : Tables) : Tables :=
  { tables with
    hncStats := tables.hncStats ++ [⟨statSrc ip, 0⟩, ⟨statDst ip, 0⟩] }

def addMarkRules (ip mac : Text) (mark : Nat) (tables : Tables) : Tables :=
  { tables with
    hncMark := tables.hncMark ++
      [srcRule ip mac mark, macRule mac mark, dstRule ip mark]
    hncMark6 :=
      if tables.ipv6Ok then tables.hncMark6 ++ [macRule mac mark]
      else tables.hncMark6 }

/-- `mark_device`. -/
def markDevice (ip mac : Text) (markId : Nat) (tables : Tables) : Tables :=
  if ip = [] then tables
  else
    let mark := markBase + markId
    addStatRules ip
      (delStatRules ip
        (addMarkRules ip mac mark
          (delMarkRules ip mac mark (gcStaleIpsForMac mac mark ip tables))))

/-- `unmark_device`; the tc filters that `v6_sync.sh clear` removes are not
part of the chains. -/
def unmarkDevice (ip mac : Text) (markId : Nat) (tables : Tables) : Tables :=
  delStatRules ip (delMarkRules ip mac (markBase + markId) tables)

/-- `ensure_stats`. -/
def ensureStats (ip : Text) (tables : Tables) : Tables :=
  if ip = [] then tables else addStatRules ip (delStatRules ip tables)

def ctrlMac (mac : Text) : CtrlRule := ⟨none, none, some mac, false, .drop⟩

def ctrlReset (mac : Text) : CtrlRule := ⟨none, none, some mac, true, .reject⟩

def ctrlTcp (mac : Text) : CtrlRule := ⟨none, none, some mac, true, .drop⟩

def ctrlSrc (ip : Text) : CtrlRule := ⟨some ip, none, none, false, .drop⟩

def ctrlDst (ip : Text) : CtrlRule := ⟨none, some ip, none, false, .drop⟩

/-- The clean-up at the head of `blacklist_add` and `blacklist_remove`. -/
def delCtrlMac (mac : Text) (chain : List CtrlRule) : List CtrlRule :=
  delCtrl (ctrlTcp mac) (delCtrl (ctrlReset mac) (delCtrl (ctrlMac mac) chain))

/-- `blacklist_add`. -/
def blacklistAdd (ip mac : Text) (tables : Tables) : Tables :=
  let dropMac := delCtrlMac mac tables.hncCtrl ++ [ctrlMac mac]
  let dropIp :=
    if ip = [] then dropMac
    else delCtrl (ctrlDst ip) (delCtrl (ctrlSrc ip) dropMac) ++
      [ctrlSrc ip, ctrlDst ip]
  { tables with
    hncCtrl := ctrlReset mac :: dropIp
    hncCtrl6 :=
      if tables.ipv6Ok then
        ctrlReset mac :: (delCtrlMac mac tables.hncCtrl6 ++ [ctrlMac mac])
      else tables.hncCtrl6 }

/-- `blacklist_remove`. -/
def blacklistRemove (ip mac : Text) (tables : Tables) : Tables :=
  let withoutMac := delCtrlMac mac tables.hncCtrl
  { tables with
    hncCtrl :=
      if ip = [] then withoutMac
      else delCtrl (ctrlDst ip) (delCtrl (ctrlSrc ip) withoutMac)
    hncCtrl6 :=
      if tables.ipv6Ok then delCtrlMac mac tables.hncCtrl6
      else tables.hncCtrl6 }

/-- The source and destination columns of `iptables -L HNC_STATS -nvx`. -/
def statColumns (rule : StatRule) : Text × Text :=
  (rule.src.getD "0.0.0.0/0".toList, rule.dst.getD "0.0.0.0/0".toList)

/-- The array `rx` of `stats_all`. -/
def rxBytes (chain : List Counted) (ip : Text) : Nat :=
  ((chain.filter fun entry =>
    (statColumns entry.rule).1 = "0.0.0.0/0".toList ∧
      (statColumns entry.rule).2 ≠ "0.0.0.0/0".toList ∧
      (statColumns entry.rule).2 = ip).map Counted.bytes).sum

/-- The array `tx` of `stats_all`. -/
def txBytes (chain : List Counted) (ip : Text) : Nat :=
  ((chain.filter fun entry =>
    (statColumns entry.rule).1 ≠ "0.0.0.0/0".toList ∧
      (statColumns entry.rule).2 = "0.0.0.0/0".toList ∧
      (statColumns entry.rule).1 = ip).map Counted.bytes).sum

/-- The lines `stats_all` prints, by address. -/
def statsAll (chain : List Counted) : List (Text × Nat × Nat) :=
  (chain.flatMap fun entry =>
    match statColumns entry.rule with
    | (source, destination) =>
        if source ≠ "0.0.0.0/0".toList ∧ destination = "0.0.0.0/0".toList then
          [source]
        else if source = "0.0.0.0/0".toList ∧
            destination ≠ "0.0.0.0/0".toList then [destination]
        else []).dedup.map fun ip => (ip, rxBytes chain ip, txBytes chain ip)

end Hnc.IptablesManager
