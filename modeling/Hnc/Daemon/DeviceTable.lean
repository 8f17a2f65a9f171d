import Hnc.Daemon.MdnsAnswers

/-!
# The device table and the events that reach it

The table has a fixed number of slots.  `scan_arp` and `nl_process` look for the
slot of an address and allocate one when there is none; a netlink message, the
sweep for silent devices and an eviction end the use of a slot.  The fields of
`Device` that the names do not depend on are kept beside it, slot by slot.
-/

namespace Hnc.Hotspotd

open Posix

/-- The fields of a slot that `Device` leaves out. -/
structure Rest where
  iface : Text
  rxBytes : Int
  txBytes : Int
  state : BitVec 16
deriving DecidableEq, Repr

def blankRest : Rest :=
  ⟨[], 0, 0, 0⟩

structure Table where
  daemon : Daemon
  rest : List Rest
deriving DecidableEq, Repr

/-- The table when the daemon starts; `check` is the time of its start. -/
def emptyTable (check : Int) : Table :=
  ⟨{ emptyDaemon with lastOfflineCheck := check },
    List.replicate maxDevices blankRest⟩

def skippedIfaces : List Text :=
  ["lo".toList, "rmnet".toList, "dummy".toList, "v4-".toList, "tun".toList,
    "p2p".toList, "r_rmnet".toList]

def isHotspotIface (iface : Text) : Bool :=
  iface ≠ [] && skippedIfaces.all fun skip => !skip.isPrefixOf iface

def nudIncomplete : BitVec 16 := 0x01
def nudReachable : BitVec 16 := 0x02
def nudStale : BitVec 16 := 0x04
def nudDelay : BitVec 16 := 0x08
def nudProbe : BitVec 16 := 0x10
def nudFailed : BitVec 16 := 0x20
def nudNoarp : BitVec 16 := 0x40
def nudPermanent : BitVec 16 := 0x80

/-- `NUD_VALID`. -/
def nudValid : BitVec 16 :=
  nudReachable ||| nudStale ||| nudDelay ||| nudProbe ||| nudPermanent |||
    nudNoarp

/-- A line of `/proc/net/arp` with six fields; the ones that are not read are
left out. -/
structure ArpEntry where
  ip : Text
  flags : Text
  mac : Text
  iface : Text
  now : Int
  lookups : Lookups
deriving DecidableEq, Repr

/-- What `scan_arp` makes of a line. -/
def ArpEntry.sighting (entry : ArpEntry) : Option Sighting :=
  if entry.flags = "0x0".toList then none
  else if entry.mac = "00:00:00:00:00:00".toList then none
  else if isHotspotIface entry.iface then
    some ⟨entry.mac.map Scheduler.toLower, entry.ip, entry.now, entry.lookups⟩
  else none

/-- A message about a neighbour.  `ip` and `mac` are empty when the message has
no such attribute. -/
structure NeighMessage where
  /-- `RTM_DELNEIGH`; otherwise `RTM_NEWNEIGH`. -/
  deleted : Bool
  ipv4 : Bool
  iface : Text
  ip : Text
  mac : Text
  state : BitVec 16
  now : Int
  lookups : Lookups
deriving DecidableEq, Repr

inductive Notice where
  | ignored
  | gone (mac : Text)
  | seen (seen : Sighting)
deriving DecidableEq, Repr

/-- What `nl_process` makes of a message. -/
def NeighMessage.notice (message : NeighMessage) : Notice :=
  if !message.ipv4 then .ignored
  else if !isHotspotIface message.iface then .ignored
  else if message.ip = [] ∨ message.mac = [] then .ignored
  else if message.deleted ∨ message.state &&& nudValid = 0 then
    if message.state &&& (nudFailed ||| nudIncomplete) ≠ 0 then
      .gone message.mac
    else .ignored
  else .seen ⟨message.mac, message.ip, message.now, message.lookups⟩

/-- What `alloc_device` leaves in the slot that it gives. -/
def allocRest (devs : List Device) (rest : List Rest) : Rest :=
  match devs.findIdx? fun d => !d.active with
  | some i => (rest[i]?).getD blankRest
  | none => blankRest

/-- The other fields that `scan_arp` and `nl_process` write. -/
def placeRest (t : Table) (seen : Sighting) (iface : Text)
    (state : BitVec 16) : List Rest :=
  match findDevice t.daemon.devs seen.mac with
  | some i => t.rest.modify i fun r => { r with iface := iface, state := state }
  | none =>
      t.rest.set (allocDevice t.daemon.devs).1
        { allocRest t.daemon.devs t.rest with iface := iface, state := state }

def Table.sight (t : Table) (seen : Sighting) (iface : Text)
    (state : BitVec 16) : Table :=
  ⟨Hotspotd.sight t.daemon seen, placeRest t seen iface state⟩

/-- A line that `iptables_manager.sh stats_all` prints. -/
structure StatsLine where
  ip : Text
  rx : Int
  tx : Int
deriving DecidableEq, Repr

/-- The loop of `update_traffic_stats` for one line: the first active device
with the address gets the counters. -/
def countTraffic (devs : List Device) (rest : List Rest) (line : StatsLine) :
    List Rest :=
  match devs.findIdx? fun d => d.active && decide (d.ip = line.ip) with
  | none => rest
  | some i =>
      rest.modify i fun r => { r with rxBytes := line.rx, txBytes := line.tx }

def Table.updateTrafficStats (t : Table) (lines : List StatsLine) : Table :=
  { t with rest := lines.foldl (countTraffic t.daemon.devs) t.rest }

inductive TableEvent where
  | scanArp (entry : ArpEntry)
  | nlProcess (message : NeighMessage)
  | updateTrafficStats (lines : List StatsLine)
  | takeTask
  | finishTask (found : Option Text)
  | processPendingMdns (now : Int) (lookups : Lookups)
  | drainResults
  | offlineCheck (now : Int)
deriving DecidableEq, Repr

def handle (t : Table) : TableEvent → Table
  | .scanArp entry =>
      match entry.sighting with
      | none => t
      | some seen => t.sight seen entry.iface nudStale
  | .nlProcess message =>
      match message.notice with
      | .ignored => t
      | .gone mac => { t with daemon := lose t.daemon mac }
      | .seen seen => t.sight seen message.iface message.state
  | .updateTrafficStats lines => t.updateTrafficStats lines
  | .takeTask => { t with daemon := takeTask t.daemon }
  | .finishTask found => { t with daemon := finishTask t.daemon found }
  | .processPendingMdns now lookups =>
      { t with daemon := processPendingMdns t.daemon now lookups }
  | .drainResults => { t with daemon := drainResults t.daemon }
  | .offlineCheck now => { t with daemon := offlineCheck t.daemon now }

/-- The sighting in an event, with the interface and the state that come with
it. -/
def TableEvent.sighting : TableEvent → Option (Sighting × Text × BitVec 16)
  | .scanArp entry =>
      entry.sighting.map fun seen => (seen, entry.iface, nudStale)
  | .nlProcess message =>
      match message.notice with
      | .seen seen => some (seen, message.iface, message.state)
      | _ => none
  | _ => none

/-- When the daemon looked at the clock for an event. -/
def TableEvent.time : TableEvent → Option Int
  | .scanArp entry => some entry.now
  | .nlProcess message => some message.now
  | .processPendingMdns now _ => some now
  | .offlineCheck now => some now
  | _ => none

/-- The clock does not go back. -/
def Clocked (events : List TableEvent) : Prop :=
  (events.filterMap TableEvent.time).Pairwise (· ≤ ·)

def sightings (events : List TableEvent) : List Sighting :=
  events.filterMap fun event => event.sighting.map Prod.fst

/-- What the table holds at a slot. -/
def Table.slot (t : Table) (i : Nat) : Option Device × Option Rest :=
  (t.daemon.devs[i]?, t.rest[i]?)

section

variable {event : TableEvent} {seen : Sighting} {iface : Text} {state : BitVec 16}
  (sighted : event.sighting = some (seen, iface, state))
include sighted

theorem handle_of_sighting (t : Table) :
    handle t event = t.sight seen iface state := by
  cases event with
  | scanArp entry =>
      obtain ⟨found, sees, same⟩ := Option.map_eq_some_iff.mp sighted
      cases same
      simp only [handle, sees]
  | nlProcess message =>
      simp only [TableEvent.sighting] at sighted
      split at sighted
      · rename_i found notice
        cases sighted
        simp only [handle, notice]
      · cases sighted
  | _ => cases sighted

/-- A sighting carries the time of its event. -/
theorem time_of_sighting :
    event.time = some seen.now := by
  cases event with
  | scanArp entry =>
      obtain ⟨found, sees, same⟩ := Option.map_eq_some_iff.mp sighted
      cases same
      simp only [ArpEntry.sighting] at sees
      split at sees
      · cases sees
      · split at sees
        · cases sees
        · split at sees
          · cases sees
            rfl
          · cases sees
  | nlProcess message =>
      simp only [TableEvent.sighting] at sighted
      split at sighted
      · rename_i found notice
        cases sighted
        unfold NeighMessage.notice at notice
        split_ifs at notice
        cases notice
        rfl
      · cases sighted
  | _ => cases sighted

end

theorem sight_known {s : Daemon} {seen : Sighting} {i : Nat}
    (found : findDevice s.devs seen.mac = some i) :
    ∃ d, (sight s seen).devs = s.devs.set i d ∧ d.active = true ∧
      macKey d.mac = macKey seen.mac ∧ d.ip = seen.ip ∧
      d.lastSeen = seen.now ∧
      ∃ old, s.devs[i]? = some old ∧ d.mac = old.mac := by
  obtain ⟨old, here, active, mac⟩ := findDevice_eq_some found
  have again : ∀ (e : Device), e.mac = old.mac →
      ∃ d, (setDevice s i (seenAgain e seen)).devs = s.devs.set i d ∧
        d.active = true ∧ macKey d.mac = macKey seen.mac ∧ d.ip = seen.ip ∧
        d.lastSeen = seen.now ∧
        ∃ other, some old = some other ∧ d.mac = other.mac := by
    intro e same
    refine ⟨seenAgain e seen, rfl, rfl, ?_, rfl, rfl, old, rfl, same⟩
    rw [← mac, ← same]
    rfl
  rw [sight, found]
  simp only [here]
  split
  · split
    · split
      · rename_i queued enqueued
        have devs : queued.devs = s.devs := by
          rw [enqueue] at enqueued
          split at enqueued
          · cases enqueued
          · cases enqueued
            rfl
        refine ⟨{ seenAgain (renamed old seen) seen with
          hostnameSrc := .pending, pendingSince := seen.now }, ?_, rfl, ?_,
          rfl, rfl, old, rfl, rfl⟩
        · rw [setDevice, devs]
        · rw [← mac]
          rfl
      · exact again (renamed old seen) rfl
    · exact again (renamed old seen) rfl
  · exact again old rfl

theorem sight_new {s : Daemon} {seen : Sighting}
    (missing : findDevice s.devs seen.mac = none) :
    (sight s seen).devs = s.devs.set (allocDevice s.devs).1
      (newDevice (allocDevice s.devs).2 seen) := by
  rw [sight, missing]
  rfl

/-- The body of the eviction loop. -/
def olderSlot (devs : List Device) (oldest i : Nat) : Nat :=
  match devs[i]?, devs[oldest]? with
  | some d, some o => if d.active && d.lastSeen < o.lastSeen then i else oldest
  | _, _ => oldest

theorem oldestDevice_eq (devs : List Device) :
    oldestDevice devs = (List.range devs.length).foldl (olderSlot devs) 0 :=
  rfl

variable {devs : List Device}

/-- The candidate of the eviction loop after some slots. -/
theorem oldestDevice_prefix {first : Device} (start : devs[0]? = some first)
    (active : ∀ d ∈ devs, d.active = true) (count : Nat)
    (bound : count ≤ devs.length) :
    ∃ i d, (List.range count).foldl (olderSlot devs) 0 = i ∧
      devs[i]? = some d ∧ d.lastSeen ≤ first.lastSeen ∧
      ∀ j < count, ∀ e, devs[j]? = some e → d.lastSeen ≤ e.lastSeen := by
  induction count with
  | zero => exact ⟨0, first, rfl, start, le_refl _, nofun⟩
  | succ count induction =>
      obtain ⟨i, d, chosen, here, below, least⟩ := induction (by omega)
      have inside : count < devs.length := by omega
      have next : devs[count]? = some devs[count] :=
        List.getElem?_eq_getElem inside
      have on : devs[count].active = true := active _ (List.getElem_mem inside)
      rw [List.range_succ, List.foldl_append, chosen]
      simp only [List.foldl_cons, olderSlot, next, here, on, Bool.true_and,
        decide_eq_true_eq]
      split
      · refine ⟨count, devs[count], rfl, next, by omega, ?_⟩
        intro j before e there
        rcases Nat.lt_succ_iff_lt_or_eq.mp before with earlier | rfl
        · have := least j earlier e there
          omega
        · rw [next] at there
          cases there
          exact le_refl _
      · refine ⟨i, d, rfl, here, below, ?_⟩
        intro j before e there
        rcases Nat.lt_succ_iff_lt_or_eq.mp before with earlier | rfl
        · exact least j earlier e there
        · rw [next] at there
          cases there
          omega

/-- In a full table the slot that was seen the longest ago goes. -/
theorem oldestDevice_least (some_slot : devs ≠ [])
    (active : ∀ d ∈ devs, d.active = true) :
    ∃ d, devs[oldestDevice devs]? = some d ∧
      ∀ e ∈ devs, d.lastSeen ≤ e.lastSeen := by
  obtain ⟨first, others, rfl⟩ := List.exists_cons_of_ne_nil some_slot
  have start : (first :: others)[0]? = some first := rfl
  obtain ⟨i, d, chosen, here, _, least⟩ :=
    oldestDevice_prefix start active _ (le_refl _)
  refine ⟨d, ?_, fun e member => ?_⟩
  · rw [oldestDevice_eq, chosen]
    exact here
  · obtain ⟨j, bound, there⟩ := List.getElem_of_mem member
    exact least j bound e (by rw [List.getElem?_eq_getElem bound, there])

/-- `alloc_device` gives a free slot, or the one seen the longest ago when none
is free. -/
theorem allocDevice_cases (some_slot : devs ≠ []) :
    (∃ d, devs[(allocDevice devs).1]? = some d ∧ d.active = false) ∨
    (∀ d ∈ devs, d.active = true) ∧
      ∃ d, devs[(allocDevice devs).1]? = some d ∧
        ∀ e ∈ devs, d.lastSeen ≤ e.lastSeen := by
  unfold allocDevice
  split
  · rename_i i found
    obtain ⟨bound, free, _⟩ := List.findIdx?_eq_some_iff_getElem.mp found
    exact .inl ⟨devs[i], List.getElem?_eq_getElem bound, by simpa using free⟩
  · rename_i none_free
    have active : ∀ d ∈ devs, d.active = true := by
      simpa using List.findIdx?_eq_none_iff.mp none_free
    exact .inr ⟨active, oldestDevice_least some_slot active⟩

end Hnc.Hotspotd
