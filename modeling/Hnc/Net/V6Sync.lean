import Hnc.Lib.KeyMap
import Hnc.Net.IptablesManager
import Mathlib.Data.Char
import Mathlib.Data.List.Infix
import Mathlib.Data.List.Lex
import Mathlib.Data.List.Sort

/-!
# `bin/v6_sync.sh`

The IPv6 filters of a marked device are rebuilt from the neighbour table when
its addresses differ from those of its snapshot file.  The hotspot interface and
`ifb0` have one list of filters each; all `tc` calls succeed apart from the
additions that an argument names.
-/

namespace Hnc.V6Sync

open Posix IptablesManager

/-- The state of a neighbour, the last word of its line. -/
inductive Nud where
  | reachable
  | stale
  | delay
  | probe
  | permanent
  | noarp
  | failed
  | incomplete
deriving DecidableEq, Repr

def Nud.text : Nud → String
  | .reachable => "REACHABLE"
  | .stale => "STALE"
  | .delay => "DELAY"
  | .probe => "PROBE"
  | .permanent => "PERMANENT"
  | .noarp => "NOARP"
  | .failed => "FAILED"
  | .incomplete => "INCOMPLETE"

/-- An entry of the neighbour table of the hotspot interface. -/
structure Neighbour where
  address : Text
  lladdr : Option Mac
  router : Bool
  state : Nud
deriving DecidableEq

/-- The words of its line in `ip neigh show dev`. -/
def Neighbour.words (entry : Neighbour) : List Text :=
  [entry.address] ++
    (match entry.lladdr with
      | none => []
      | some mac => ["lladdr".toList, mac.text]) ++
    (if entry.router then ["router".toList] else []) ++
    [entry.state.text.toList]

/-- `$1 ~ /:/`. -/
def isV6 (address : Text) : Bool :=
  address.any (· == ':')

/-- `$1 ~ /^fe80/`. -/
def isLinkLocal (address : Text) : Bool :=
  "fe80".toList.isPrefixOf address

/-- `tolower(line) ~ tolower(mac)`: no word boundary is asked for, but the
address has no blank, so the match is within a word. -/
def mentions (mac : Text) (entry : Neighbour) : Bool :=
  entry.words.any fun word =>
    decide (mac.map Char.toLower <:+: word.map Char.toLower)

def isActive (state : Nud) : Bool :=
  state.text.toList != "FAILED".toList &&
    state.text.toList != "INCOMPLETE".toList

/-- `ip -6 neigh`, and the table of both protocols when it is empty. -/
def neighLines (table : List Neighbour) : List Neighbour :=
  if table.filter (fun entry => isV6 entry.address) = [] then table
  else table.filter fun entry => isV6 entry.address

/-- `sort -u`. -/
def sortUnique (lines : List Text) : List Text :=
  lines.dedup.insertionSort (· ≤ ·)

/-- `get_v6_addrs`. -/
def getV6Addrs (table : List Neighbour) (mac : Text) : List Text :=
  sortUnique (((neighLines table).filter fun entry =>
    mentions mac entry && isV6 entry.address && !isLinkLocal entry.address &&
      isActive entry.state).map Neighbour.address)

/-- A line of `list_marked_devices`. -/
structure Marked where
  mac : Text
  mark : Nat
deriving DecidableEq, Repr

def Marked.line (device : Marked) : Text :=
  device.mac ++ ' ' :: hexText device.mark

/-- `list_marked_devices`: the rules whose listing has a `MAC` and its mark. -/
def listMarkedDevices (chain : List MarkRule) : List Marked :=
  (chain.filterMap fun rule =>
    rule.macSource.map fun mac => ⟨mac, rule.setMark⟩).dedup.insertionSort
      fun left right => left.line ≤ right.line

/-- `awk '$1==m {print $2; exit}'`. -/
def markOfMac (chain : List MarkRule) (mac : Text) : Option Nat :=
  ((listMarkedDevices chain).find? fun device => device.mac = mac).map
    Marked.mark

/-- A u32 filter for one IPv6 address. -/
structure Filter where
  prio : Nat
  address : Text
  flowid : Nat
deriving DecidableEq, Repr

/-- The interface of a filter: egress matches destinations, `ifb0` sources. -/
inductive Device where
  | hotspot
  | ifb0
deriving DecidableEq, Repr

structure State where
  tables : Tables
  neigh : List Neighbour
  filters : Device → List Filter
  classes : List Nat
  snapshots : KeyMap.Map Text (List Text)

def prioBase : Nat := 200

/-- `tc filter del dev .. parent 1: prio .. protocol ipv6`. -/
def delFilters (prio : Nat) (filters : List Filter) : List Filter :=
  filters.filter fun filter => filter.prio ≠ prio

/-- `grep -q "1:$mark_id "` on the lines `class htb 1:ID root` and
`class htb 1:ID parent 1:1` of `ifb0`: class 1:1 is there whenever another one
is, so only the class itself matches. -/
def hasIngress (classes : List Nat) (markId : Nat) : Bool :=
  classes.contains markId

/-- The additions of the loop over the addresses that do not fail. -/
def added (failing : List (Device × Text)) (device : Device) (prio markId : Nat)
    (addrs : List Text) : List Filter :=
  (addrs.filter fun addr => (device, addr) ∉ failing).map fun addr =>
    ⟨prio, addr, markId⟩

/-- The part of `sync_one` behind the comparison with the snapshot. -/
def rebuild (failing : List (Device × Text)) (mac : Text) (markId : Nat)
    (cur : List Text) (state : State) : State :=
  let prio := prioBase + markId
  { state with
    filters := fun device =>
      delFilters prio (state.filters device) ++
        (if device = .hotspot ∨ hasIngress state.classes markId then
          added failing device prio markId cur
        else [])
    snapshots := state.snapshots.insert mac cur }

/-- `clear_one`. -/
def clearOne (mac : Text) (state : State) : State :=
  { state with
    filters := fun device =>
      match markOfMac state.tables.hncMark mac with
      | some mark => delFilters (prioBase + mark - markBase)
          (state.filters device)
      | none => state.filters device
    snapshots := state.snapshots.erase mac }

/-- `sync_one`. -/
def syncOne (failing : List (Device × Text)) (state : State) (mac : Text) :
    State :=
  match markOfMac state.tables.hncMark mac with
  | none => clearOne mac state
  | some mark =>
      if mark < markBase + 1 ∨ mark > markBase + 99 then state
      else
        let cur := getV6Addrs state.neigh mac
        if cur = (state.snapshots.lookup mac).getD [] then state
        else rebuild failing mac (mark - markBase) cur state

/-- The loop over the snapshots without a marked device. -/
def clearOrphans (state : State) : State :=
  (state.snapshots.keys.filter fun mac =>
    (markOfMac state.tables.hncMark mac).isNone).foldl
      (fun state mac => clearOne mac state) state

/-- `sync_all`.  Without marked devices every snapshot is an orphan. -/
def syncAll (failing : List (Device × Text)) (state : State) : State :=
  clearOrphans
    (((listMarkedDevices state.tables.hncMark).map Marked.mac).foldl
      (syncOne failing) state)

/-- Commands of the other scripts, changes of the neighbour table, and a
synchronisation with the additions that fail in it. -/
inductive Event where
  | mark (ip : Ipv4) (mac : Mac) (markId : Nat)
  | unmark (ip : Ipv4) (mac : Mac) (markId : Nat)
  | flushMarks
  | neighbours (table : List Neighbour)
  | addClass (classId : Nat)
  | delClass (classId : Nat)
  | initHotspot
  | initIfb
  | cleanup
  | sync (failing : List (Device × Text))

/-- Replace the filters of one interface. -/
def State.setFilters (state : State) (device : Device) (filters : List Filter) :
    State :=
  { state with filters := Function.update state.filters device filters }

def flushed (tables : Tables) : Tables :=
  { tables with hncMark := [], hncMark6 := [] }

def step (state : State) : Event → State
  | .mark ip mac markId =>
      { state with tables := markDevice ip.text mac.text markId state.tables }
  | .unmark ip mac markId =>
      -- `unmark_device` calls `v6_sync.sh clear` before it deletes the rules.
      let cleared := clearOne mac.text state
      { cleared with
        tables := unmarkDevice ip.text mac.text markId cleared.tables }
  | .flushMarks => { state with tables := flushed state.tables }
  | .neighbours table => { state with neigh := table }
  | .addClass classId => { state with classes := classId :: state.classes }
  | .delClass classId =>
      { state with classes := state.classes.filter (· ≠ classId) }
  | .initHotspot => state.setFilters .hotspot []
  | .initIfb =>
      { state.setFilters .ifb0 [] with classes := [1, 9999] }
  | .cleanup =>
      { state with
        tables := flushed state.tables
        filters := fun _ => []
        classes := []
        snapshots := ∅ }
  | .sync failing => syncAll failing state

/-- Before the first command. -/
def State.init (ipv6Ok : Bool) : State where
  tables := .init ipv6Ok
  neigh := []
  filters := fun _ => []
  classes := []
  snapshots := ∅

/-- The device carries the mark in `HNC_MARK`. -/
def HasMark (chain : List MarkRule) (mac : Mac) (markId : Nat) : Prop :=
  ∃ rule ∈ chain, rule.macSource = some mac.text ∧
    rule.setMark = markBase + markId

/-- The neighbour table lists the address with the device's link-layer address,
and it is neither link-local nor failed. -/
def IsCurrent (table : List Neighbour) (mac : Mac) (address : Text) : Prop :=
  ∃ entry ∈ table, entry.address = address ∧ entry.lladdr = some mac ∧
    isV6 address = true ∧ isLinkLocal address = false ∧
    entry.state ≠ .failed ∧ entry.state ≠ .incomplete

/-- The addresses of the filters at a priority, in their order. -/
def addressesAt (filters : List Filter) (prio : Nat) : List Text :=
  (filters.filter fun filter => filter.prio = prio).map Filter.address

/-- One filter for each address and no other. -/
def OnePer (addresses : Text → Prop) (filtered : List Text) : Prop :=
  filtered.Nodup ∧ ∀ address, address ∈ filtered ↔ addresses address

structure Converged (state : State) : Prop where
  hotspot : ∀ mac markId, HasMark state.tables.hncMark mac markId →
    OnePer (IsCurrent state.neigh mac)
      (addressesAt (state.filters .hotspot) (prioBase + markId))
  ifb0 : ∀ mac markId, HasMark state.tables.hncMark mac markId →
    markId ∈ state.classes →
    OnePer (IsCurrent state.neigh mac)
      (addressesAt (state.filters .ifb0) (prioBase + markId))
  marked : ∀ device, ∀ filter ∈ state.filters device,
    201 ≤ filter.prio → filter.prio ≤ 299 →
    ∃ mac, HasMark state.tables.hncMark mac (filter.prio - prioBase)

def snapshotOf (state : State) (mac : Mac) : List Text :=
  (state.snapshots.lookup mac.text).getD []

/-- A device has one mark from 1 to 99 and shares it with no other. -/
def OwnMark (state : State) : Event → Prop
  | .mark _ mac markId =>
      1 ≤ markId ∧ markId ≤ 99 ∧
        (∀ other, HasMark state.tables.hncMark mac other → other = markId) ∧
        ∀ other, HasMark state.tables.hncMark other markId → other = mac
  | _ => True

/-- Nothing takes filters away, or asks for more of them, behind the back of a
snapshot; no addition fails; and no other neighbour has the text of a marked
device's link-layer address inside its network address. -/
def KeepsPace (state : State) : Event → Prop
  | .flushMarks => ∀ device, state.filters device = []
  | .initHotspot => state.filters .hotspot = []
  | .initIfb => ∀ mac, HasMark state.tables.hncMark mac 1 →
      snapshotOf state mac = []
  | .addClass classId => ∀ mac, HasMark state.tables.hncMark mac classId →
      addressesAt (state.filters .ifb0) (prioBase + classId) =
        snapshotOf state mac
  | .sync failing => failing = [] ∧
      ∀ mac markId, HasMark state.tables.hncMark mac markId →
        ∀ entry ∈ state.neigh,
          mac.text <:+: entry.address.map Char.toLower →
            entry.lladdr = some mac
  | _ => True

end Hnc.V6Sync
