import Hnc.Daemon.DeviceTableMap

/-!
# What a slot keeps of its former device

`alloc_device` clears a slot only when it evicts a device.  A slot that a netlink
message or the sweep has freed still holds the traffic counters, and the code for
a new device does not write them.  Two histories that leave the same devices are
compared by the record that a new device gets.
-/

namespace Hnc.Hotspotd

open Posix

/-- The fields of a device that `devices.json` shows. -/
structure Record where
  mac : Text
  ip : Text
  hostname : Text
  hostnameSrc : Source
  iface : Text
  rxBytes : Int
  txBytes : Int
  lastSeen : Int
deriving DecidableEq, Repr

def record (d : Device) (r : Rest) : Record :=
  ⟨d.mac, d.ip, d.hostname, d.hostnameSrc, r.iface, r.rxBytes, r.txBytes,
    d.lastSeen⟩

def recordOf (t : Table) (mac : Text) : Option Record :=
  (findDevice t.daemon.devs mac).bind fun i =>
    (t.daemon.devs[i]?).bind fun d => (t.rest[i]?).map (record d)

/-- The counters in the slot that `alloc_device` takes, once it has it. -/
def leftCounters (t : Table) : Int × Int :=
  match t.daemon.devs.findIdx? fun d => !d.active with
  | some i => ((t.rest[i]?).map fun r => (r.rxBytes, r.txBytes)).getD (0, 0)
  | none => (0, 0)

/-- The same devices are active. -/
def SameActive (t other : Table) : Prop :=
  ∀ mac, (findDevice t.daemon.devs mac).isSome =
    (findDevice other.daemon.devs mac).isSome

/-- Both parts of the table have all their slots. -/
def Sized (t : Table) : Prop :=
  t.daemon.devs.length = maxDevices ∧ t.rest.length = maxDevices

theorem countTraffic_length (devs : List Device) (lines : List StatsLine)
    (rest : List Rest) :
    (lines.foldl (countTraffic devs) rest).length = rest.length := by
  induction lines generalizing rest with
  | nil => rfl
  | cons line lines induction =>
      rw [List.foldl_cons, induction, countTraffic]
      split
      · rfl
      · exact List.length_modify _ _ _

theorem placeRest_length (t : Table) (seen : Sighting) (iface : Text)
    (state : BitVec 16) : (placeRest t seen iface state).length =
      t.rest.length := by
  rw [placeRest]
  split
  · exact List.length_modify _ _ _
  · exact List.length_set

theorem sized_handle (t : Table) (event : TableEvent) (sized : Sized t) :
    Sized (handle t event) := by
  cases sighted : event.sighting with
  | some sight =>
      obtain ⟨seen, iface, state⟩ := sight
      rw [handle_of_sighting sighted]
      obtain ⟨i, d, _, devs, _⟩ := sight_slot t seen iface state sized.1
      refine ⟨?_, (placeRest_length t seen iface state).trans sized.2⟩
      rw [devs, List.length_set]
      exact sized.1
  | none =>
      refine ⟨(handle_carried sighted t).length.trans sized.1, ?_⟩
      cases event with
      | scanArp entry =>
          have none : entry.sighting = none := Option.map_eq_none_iff.mp sighted
          simp only [handle, none]
          exact sized.2
      | nlProcess message =>
          cases notice : message.notice with
          | seen seen => simp [TableEvent.sighting, notice] at sighted
          | ignored | gone _ =>
              simp only [handle, notice]
              exact sized.2
      | updateTrafficStats lines =>
          exact (countTraffic_length _ lines t.rest).trans sized.2
      | _ => exact sized.2

theorem run_sized (check : Int) (past : List TableEvent) :
    Sized (past.foldl handle (emptyTable check)) :=
  Runs.foldl_induction Sized sized_handle
    ⟨List.length_replicate, List.length_replicate⟩ past

theorem allocRest_counters (t : Table) :
    ((allocRest t.daemon.devs t.rest).rxBytes,
      (allocRest t.daemon.devs t.rest).txBytes) = leftCounters t := by
  cases free : t.daemon.devs.findIdx? fun d => !d.active with
  | none =>
      simp only [allocRest, leftCounters, free]
      rfl
  | some i =>
      simp only [allocRest, leftCounters, free]
      cases t.rest[i]? with
      | none => rfl
      | some r => rfl

/-- The record of a device that was not in the table. -/
theorem recordOf_new {t : Table} (sized : Sized t) {seen : Sighting}
    (unknown : findDevice t.daemon.devs seen.mac = none) (iface : Text)
    (state : BitVec 16) :
    recordOf (t.sight seen iface state) seen.mac = some
      { mac := seen.mac
        ip := seen.ip
        hostname := (resolveHostnameFast seen.lookups seen.mac).1
        hostnameSrc :=
          if (resolveHostnameFast seen.lookups seen.mac).2 = .mac then .pending
          else (resolveHostnameFast seen.lookups seen.mac).2
        iface := iface
        rxBytes := (leftCounters t).1
        txBytes := (leftCounters t).2
        lastSeen := seen.now } := by
  obtain ⟨i, _, inside, devs, _, _, _, _, _, chosen⟩ :=
    sight_slot t seen iface state sized.1
  have slot : i = (allocDevice t.daemon.devs).1 := by
    rcases chosen with found | ⟨_, slot⟩
    · rw [unknown] at found
      cases found
    · exact slot
  have new := sight_new unknown
  have there : (t.sight seen iface state).daemon.devs[i]? =
      some (newDevice (allocDevice t.daemon.devs).2 seen) := by
    rw [show (t.sight seen iface state).daemon.devs = _ from new, ← slot]
    apply List.getElem?_set_self
    rw [sized.1]
    exact inside
  have beside : (t.sight seen iface state).rest[i]? = some
      { allocRest t.daemon.devs t.rest with iface := iface, state := state } := by
    simp only [Table.sight, placeRest, unknown, ← slot]
    apply List.getElem?_set_self
    rw [sized.2]
    exact inside
  have located : findDevice (t.sight seen iface state).daemon.devs seen.mac =
      some i := by
    cases found : findDevice (t.sight seen iface state).daemon.devs seen.mac with
    | none => exact absurd rfl (findDevice_eq_none found i _ there rfl)
    | some j =>
        obtain ⟨e, here, active, mac⟩ := findDevice_eq_some found
        rw [devs] at here
        rcases getElem?_set_cases here with ⟨_, rfl⟩ | ⟨before, _⟩
        · rfl
        · exact absurd mac (findDevice_eq_none unknown j e before active)
  rw [← allocRest_counters]
  simp only [recordOf, located, there, beside, Option.bind_some,
    Option.map_some, record, newDevice]

/-- After two histories that leave the same devices, a new device gets the same
record in both exactly when the slot it gets holds the same counters. -/
theorem same_record_iff (check check' : Int)
    (history other : List TableEvent) (event : TableEvent) (seen : Sighting)
    (iface : Text) (state : BitVec 16)
    (same : SameActive (history.foldl handle (emptyTable check))
      (other.foldl handle (emptyTable check')))
    (sighted : event.sighting = some (seen, iface, state))
    (unknown : findDevice (history.foldl handle (emptyTable check)).daemon.devs
      seen.mac = none) :
    recordOf (handle (history.foldl handle (emptyTable check)) event)
        seen.mac =
      recordOf (handle (other.foldl handle (emptyTable check')) event)
        seen.mac ↔
    leftCounters (history.foldl handle (emptyTable check)) =
      leftCounters (other.foldl handle (emptyTable check')) := by
  have unknown' : findDevice
      (other.foldl handle (emptyTable check')).daemon.devs seen.mac = none := by
    have both := same seen.mac
    rw [unknown] at both
    exact Option.isSome_eq_false_iff.mp both.symm |> Option.isNone_iff_eq_none.mp
  rw [handle_of_sighting sighted, handle_of_sighting sighted,
    recordOf_new (run_sized check history) unknown,
    recordOf_new (run_sized check' other) unknown']
  simp [Prod.ext_iff]

/-- The new device after a phone has come and gone. -/
def laptopEntry : TableEvent :=
  .scanArp ⟨"192.168.43.9".toList, "0x2".toList, "3a:bb:cc:dd:ee:02".toList,
    "wlan0".toList, 120, noNames⟩

def phoneFailed : TableEvent :=
  .nlProcess ⟨false, true, "wlan0".toList, "192.168.43.5".toList,
    "3a:bb:cc:dd:ee:01".toList, nudFailed, 100, noNames⟩

def phoneTraffic : TableEvent :=
  .updateTrafficStats [⟨"192.168.43.5".toList, 5000, 700⟩]

theorem findDevice_of_inactive {devs : List Device}
    (inactive : (devs.all fun d => !d.active) = true) (mac : Text) :
    findDevice devs mac = none := by
  apply List.findIdx?_eq_none_iff.mpr
  intro d member
  have off := List.all_eq_true.mp inactive d member
  simp only [Bool.not_eq_true'] at off
  simp [off]

/-- Without traffic the phone leaves no trace. -/
theorem quiet_phone_leaves_no_trace :
    recordOf (handle ([phoneEntry 0, phoneFailed].foldl handle (emptyTable 0))
        laptopEntry) "3a:bb:cc:dd:ee:02".toList =
      recordOf (handle (([] : List TableEvent).foldl handle (emptyTable 0))
        laptopEntry) "3a:bb:cc:dd:ee:02".toList := by
  have sighted : laptopEntry.sighting = some
      (⟨"3a:bb:cc:dd:ee:02".toList, "192.168.43.9".toList, 120, noNames⟩,
        "wlan0".toList, nudStale) := by decide +kernel
  apply (same_record_iff 0 0 [phoneEntry 0, phoneFailed] [] laptopEntry _ _ _ ?_
    sighted ?_).mpr
  · decide +kernel
  · intro mac
    rw [findDevice_of_inactive (by decide +kernel),
      findDevice_of_inactive (by decide +kernel)]
  · decide +kernel

/-- The laptop starts with the counters of the phone. -/
theorem laptop_gets_counters_of_phone :
    ¬ ∀ (check check' : Int) (history other : List TableEvent)
      (event : TableEvent) (seen : Sighting) (iface : Text)
      (state : BitVec 16),
      SameActive (history.foldl handle (emptyTable check))
        (other.foldl handle (emptyTable check')) →
      event.sighting = some (seen, iface, state) →
      findDevice (history.foldl handle (emptyTable check)).daemon.devs
        seen.mac = none →
      recordOf (handle (history.foldl handle (emptyTable check)) event)
          seen.mac =
        recordOf (handle (other.foldl handle (emptyTable check')) event)
          seen.mac := by
  intro noTrace
  have same := noTrace 0 0 [phoneEntry 0, phoneTraffic, phoneFailed] []
    laptopEntry
    ⟨"3a:bb:cc:dd:ee:02".toList, "192.168.43.9".toList, 120, noNames⟩
    "wlan0".toList nudStale ?_ (by decide +kernel) (by decide +kernel)
  · have counters : (recordOf (handle
          ([phoneEntry 0, phoneTraffic, phoneFailed].foldl handle
            (emptyTable 0)) laptopEntry)
          "3a:bb:cc:dd:ee:02".toList).map Record.rxBytes = some 5000 ∧
        (recordOf (handle (([] : List TableEvent).foldl handle (emptyTable 0))
          laptopEntry) "3a:bb:cc:dd:ee:02".toList).map Record.rxBytes =
          some 0 := by decide +kernel
    rw [same, counters.2] at counters
    exact absurd counters.1 (by decide)
  · intro mac
    rw [findDevice_of_inactive (by decide +kernel),
      findDevice_of_inactive (by decide +kernel)]

end Hnc.Hotspotd
