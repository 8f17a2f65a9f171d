import Hnc.Daemon.DeviceTableMap
import Hnc.Daemon.DevicesJson
import Hnc.Lib.Runs

/-!
# `devices.json` over the runs of the daemon

Every event takes the names from the sources as they are at that time.  The file
stays well-formed as long as no name is cut inside a character.
-/

namespace Hnc.Hotspotd

open Posix JsonText

/-- An event, in which the sources replace the names. -/
structure Input where
  event : TableEvent
  sources : Sources
deriving DecidableEq, Repr

/-- The address of the device that `process_pending_mdns` takes. -/
def pendingMac (t : Table) (now : Int) : Text :=
  (((oldestPending t.daemon.devs now).bind fun i => t.daemon.devs[i]?).map
    Device.mac).getD []

def Input.fed (t : Table) (input : Input) : TableEvent :=
  match input.event with
  | .scanArp entry =>
      .scanArp { entry with
        lookups := input.sources.lookups (entry.mac.map Scheduler.toLower) }
  | .nlProcess message =>
      .nlProcess { message with
        lookups := input.sources.lookups message.mac }
  | .finishTask _ =>
      .finishTask (tryMdnsResolve input.sources.mdnsOutput
        input.sources.mdnsExit hnLen)
  | .processPendingMdns now _ =>
      .processPendingMdns now (input.sources.lookups (pendingMac t now))
  | .updateTrafficStats lines => .updateTrafficStats lines
  | .takeTask => .takeTask
  | .drainResults => .drainResults
  | .offlineCheck now => .offlineCheck now

def receive (t : Table) (input : Input) : Table :=
  handle t (input.fed t)

/-- The addresses are as the kernel prints them. -/
def Input.FromKernel (input : Input) : Prop :=
  match input.event with
  | .scanArp entry =>
      JsonSetBatch.isMacLine entry.mac = true ∧ isDottedQuad entry.ip = true
  | .nlProcess message =>
      (message.mac = [] ∨ JsonSetBatch.isMacLine message.mac = true) ∧
        (message.ip = [] ∨ isDottedQuad message.ip = true)
  | _ => True

/-- No name is cut inside a character, and the interface needs no escape. -/
structure Input.Whole (t : Table) (input : Input) : Prop where
  sighted : ∀ seen iface state,
    (input.fed t).sighting = some (seen, iface, state) →
      input.sources.Whole seen.mac ∧ IsPlain iface
  answered : ∀ found, input.event = .finishTask found →
    CutsWhole input.sources.mdnsOutput
  pending : ∀ now lookups, input.event = .processPendingMdns now lookups →
    input.sources.Whole (pendingMac t now)

/-! ## Names of devices -/

/-- `Printable`, but for the interface. -/
structure Named (d : Device) : Prop where
  mac : JsonSetBatch.isMacLine d.mac = true
  ip : isDottedQuad d.ip = true
  name : IsStored d.hostname
  src : IsPlain d.hostnameSrc.text

variable {mac : Text}

theorem isStored_macFallback (shape : JsonSetBatch.isMacLine mac = true) :
    IsStored (macFallback mac) := by
  obtain ⟨_, _, _, _, _, _, _, chars⟩ := (DeviceNames.MacArg.mk mac shape).parts
  refine ⟨.of_ascii fun c member => ?_, ?_⟩
  · have inMac := List.mem_of_mem_take (List.mem_of_mem_drop member)
    exact DeviceNames.toNat_lt_of_isMacChar
      (List.all_eq_true.mp chars c (List.mem_filter.mp inMac).1)
  · rw [macFallback, List.length_drop]
    omega

/-- The labels other than those of the cache. -/
theorem isPlain_label {src : Source} (own : ∀ cached, src ≠ .cached cached) :
    IsPlain src.text := by
  apply isPlain_of_all
  cases src with
  | cached src => exact absurd rfl (own src)
  | _ => decide

/-- A name with its label. -/
def Labelled (name : Text × Source) : Prop :=
  IsStored name.1 ∧ IsPlain name.2.text

theorem labelled_fallback (shape : JsonSetBatch.isMacLine mac = true) :
    Labelled (macFallback mac, .mac) :=
  ⟨isStored_macFallback shape, isPlain_label (by simp)⟩

variable {lookups : Lookups}

theorem Lookups.Whole.labelled_manual (whole : lookups.Whole) {name : Text}
    (found : lookups.manual = some name) : Labelled (name, .manual) :=
  ⟨whole.manual name found, isPlain_label (by simp)⟩

theorem Lookups.Whole.fast (whole : lookups.Whole)
    (shape : JsonSetBatch.isMacLine mac = true) :
    Labelled (resolveHostnameFast lookups mac) := by
  rw [resolveHostnameFast]
  split
  · next found => exact whole.labelled_manual found
  · exact labelled_fallback shape

theorem Lookups.Whole.dhcpOnly (whole : lookups.Whole)
    (shape : JsonSetBatch.isMacLine mac = true) :
    Labelled (resolveHostnameDhcpOnly lookups mac) := by
  rw [resolveHostnameDhcpOnly]
  split
  · next found => exact whole.labelled_manual found
  · split
    · next found => exact ⟨whole.dhcp _ found, isPlain_label (by simp)⟩
    · split
      · next found => exact whole.cache _ _ found
      · split
        · next found => exact ⟨whole.oui _ found, isPlain_label (by simp)⟩
        · exact labelled_fallback shape

/-- What a sighting brings. -/
structure Sighting.Clean (seen : Sighting) : Prop where
  mac : JsonSetBatch.isMacLine seen.mac = true
  ip : isDottedQuad seen.ip = true
  lookups : seen.lookups.Whole

variable {d : Device} {seen : Sighting}

theorem Named.seenAgain (named : Named d) (clean : seen.Clean) :
    Named (seenAgain d seen) :=
  ⟨named.mac, clean.ip, named.name, named.src⟩

theorem Named.renamed (named : Named d) (clean : seen.Clean) :
    Named (renamed d seen) :=
  have labelled := clean.lookups.dhcpOnly clean.mac
  ⟨named.mac, named.ip, labelled.1, labelled.2⟩

theorem Named.pending (named : Named d) (since : Int) :
    Named { d with hostnameSrc := .pending, pendingSince := since } :=
  ⟨named.mac, named.ip, named.name, isPlain_label (by simp)⟩

theorem Sighting.Clean.newDevice (clean : seen.Clean) (left : Device) :
    Named (newDevice left seen) := by
  have labelled := clean.lookups.fast clean.mac
  refine ⟨clean.mac, clean.ip, labelled.1, ?_⟩
  simp only [Hotspotd.newDevice]
  split
  · exact isPlain_label (by simp)
  · exact labelled.2

theorem Named.answered (named : Named d) {r : Result}
    (stored : r.success = true → IsStored r.hostname) : Named (answered r d) := by
  rw [Hotspotd.answered]
  split
  · exact named
  · split
    · next success =>
        exact ⟨named.mac, named.ip, stored success, isPlain_label (by simp)⟩
    · exact ⟨named.mac, named.ip, isStored_macFallback named.mac,
        isPlain_label (by simp)⟩

/-! ## One step -/

/-- What an event brings into the table. -/
structure TableEvent.Clean (event : TableEvent) : Prop where
  sighted : ∀ seen iface state, event.sighting = some (seen, iface, state) →
    seen.Clean ∧ IsPlain iface
  answered : ∀ name, event = .finishTask (some name) → IsStored name
  pending : ∀ now lookups, event = .processPendingMdns now lookups →
    lookups.Whole

/-- The invariant of a run. -/
structure Table.Ready (t : Table) : Prop where
  length : t.daemon.devs.length = maxDevices
  unique : Unique t.daemon.devs
  devices : ∀ (i : Nat) (d : Device), t.daemon.devs[i]? = some d →
    d.active = true → Named d
  ifaces : ∀ (i : Nat) (d : Device) (r : Rest), t.daemon.devs[i]? = some d →
    d.active = true → t.rest[i]? = some r → IsPlain r.iface
  results : ∀ r ∈ t.daemon.results, r.success = true → IsStored r.hostname

/-- An active device was active before, and kept or got a name. -/
def Retains (devs later : List Device) : Prop :=
  ∀ (i : Nat) (e : Device), later[i]? = some e → e.active = true →
    ∃ d, devs[i]? = some d ∧ d.active = true ∧ (Named d → Named e)

theorem Retains.refl (devs : List Device) : Retains devs devs :=
  fun _ e here active => ⟨e, here, active, id⟩

variable {devs : List Device}

theorem Retains.trans {later latest : List Device} (first : Retains devs later)
    (second : Retains later latest) : Retains devs latest := by
  intro i f here active
  obtain ⟨e, there, activeMiddle, named⟩ := second i f here active
  obtain ⟨d, before, activeBefore, namedBefore⟩ := first i e there activeMiddle
  exact ⟨d, before, activeBefore, named ∘ namedBefore⟩

variable {i : Nat}

/-- A change of one slot. -/
theorem Retains.modify {change : Device → Device}
    (named : ∀ d, devs[i]? = some d → (change d).active = true → d.active = true ∧ (Named d → Named (change d))) :
    Retains devs (devs.modify i change) := by
  intro j e here active
  rw [List.getElem?_modify] at here
  obtain ⟨d, before, same⟩ := Option.map_eq_some_iff.mp here
  by_cases chosen : i = j
  · subst chosen
    rw [if_pos rfl] at same
    subst same
    obtain ⟨activeBefore, keeps⟩ := named d before active
    exact ⟨d, before, activeBefore, keeps⟩
  · rw [if_neg chosen] at same
    subst same
    exact ⟨_, before, active, id⟩

theorem Retains.applyResult {r : Result}
    (stored : r.success = true → IsStored r.hostname) :
    Retains devs (applyResult devs r) := by
  rw [Hotspotd.applyResult]
  split
  · exact .refl devs
  · apply Retains.modify
    intro d _ active
    rw [(answered_identity r d).2] at active
    exact ⟨active, fun named => named.answered stored⟩

theorem Retains.foldl_applyResult {rs : List Result}
    (stored : ∀ r ∈ rs, r.success = true → IsStored r.hostname) :
    Retains devs (rs.foldl Hotspotd.applyResult devs) := by
  induction rs generalizing devs with
  | nil => exact .refl devs
  | cons r rs induction =>
      exact (Retains.applyResult (stored r (by simp))).trans
        (induction fun other member => stored other (by simp [member]))

theorem Retains.lose (s : Daemon) (mac : Text) :
    Retains s.devs (lose s mac).devs := by
  rw [Hotspotd.lose]
  split
  · exact .refl _
  · apply Retains.modify
    intro d _ active
    cases active

theorem Retains.offlineCheck (s : Daemon) (now : Int) :
    Retains s.devs (offlineCheck s now).devs := by
  rw [Hotspotd.offlineCheck]
  split
  · intro i e here active
    rw [List.getElem?_map] at here
    obtain ⟨d, before, same⟩ := Option.map_eq_some_iff.mp here
    split at same
    · subst same
      cases active
    · subst same
      exact ⟨_, before, active, id⟩
  · exact .refl _

theorem Retains.processPendingMdns (s : Daemon) (now : Int)
    (whole : lookups.Whole) :
    Retains s.devs (processPendingMdns s now lookups).devs := by
  rw [Hotspotd.processPendingMdns]
  split
  · exact .refl _
  · apply Retains.modify
    intro d _ active
    refine ⟨active, fun named => ?_⟩
    have labelled := whole.dhcpOnly named.mac
    exact ⟨named.mac, named.ip, labelled.1, labelled.2⟩

/-- The slot of a sighting. -/
def Chosen (devs : List Device) (seen : Sighting) (i : Nat) : Prop :=
  findDevice devs seen.mac = some i ∨
    findDevice devs seen.mac = none ∧ i = (allocDevice devs).1

theorem Chosen.unique {j : Nat} (first : Chosen devs seen i)
    (second : Chosen devs seen j) : i = j := by
  rcases first with found | ⟨missing, same⟩
  · rcases second with again | ⟨missing, _⟩
    · rw [found] at again
      exact Option.some.inj again
    · rw [found] at missing
      cases missing
  · rcases second with again | ⟨_, other⟩
    · rw [missing] at again
      cases again
    · rw [same, other]

variable {s : Daemon}

theorem enqueue_eq_some {queued : Daemon} {task : Task}
    (enqueued : enqueue s task = some queued) :
    queued.devs = s.devs ∧ queued.results = s.results := by
  rw [enqueue] at enqueued
  split at enqueued
  · cases enqueued
  · cases enqueued
    exact ⟨rfl, rfl⟩

/-- A sighting leaves a device with a name in its slot, and the results alone. -/
theorem sight_named (clean : seen.Clean)
    (devices : ∀ (i : Nat) (d : Device), s.devs[i]? = some d → d.active = true → Named d) :
    (∃ i d, Chosen s.devs seen i ∧ (sight s seen).devs = s.devs.set i d ∧
      Named d) ∧ (sight s seen).results = s.results := by
  cases known : findDevice s.devs seen.mac with
  | none =>
      rw [sight, known]
      exact ⟨⟨_, _, .inr ⟨known, rfl⟩, rfl, clean.newDevice _⟩, rfl⟩
  | some i =>
      obtain ⟨old, here, active, _⟩ := findDevice_eq_some known
      have named := devices i old here active
      have again (e : Device) (namedE : Named e) :
          (∃ j d, Chosen s.devs seen j ∧
            (setDevice s i (seenAgain e seen)).devs = s.devs.set j d ∧
            Named d) ∧
            (setDevice s i (seenAgain e seen)).results = s.results :=
        ⟨⟨i, _, .inl known, rfl, namedE.seenAgain clean⟩, rfl⟩
      rw [sight, known]
      simp only [here]
      split
      · have renamed := named.renamed clean
        split
        · split
          · rename_i queued enqueued
            obtain ⟨devs, results⟩ := enqueue_eq_some enqueued
            refine ⟨⟨i, _, .inl known, by rw [setDevice, devs],
              (renamed.seenAgain clean).pending seen.now⟩, ?_⟩
            exact results
          · exact again _ renamed
        · exact again _ renamed
      · exact again old named

variable {t : Table}

/-- The interface of a sighting is written to its slot. -/
theorem placeRest_iface {iface : Text} {state : BitVec 16}
    (chosen : Chosen t.daemon.devs seen i) {r : Rest}
    (here : (placeRest t seen iface state)[i]? = some r) : r.iface = iface := by
  rcases chosen with found | ⟨missing, rfl⟩
  · simp only [placeRest, found, List.getElem?_modify] at here
    obtain ⟨_, _, rfl⟩ := Option.map_eq_some_iff.mp here
    rfl
  · simp only [placeRest, missing, List.getElem?_set, if_true] at here
    split at here
    · cases here
      rfl
    · cases here

/-- The interfaces of a table, slot by slot. -/
def SameIfaces (rest later : List Rest) : Prop :=
  ∀ (i : Nat) (r : Rest), later[i]? = some r →
    ∃ old, rest[i]? = some old ∧ r.iface = old.iface

theorem SameIfaces.refl (rest : List Rest) : SameIfaces rest rest :=
  fun _ r here => ⟨r, here, rfl⟩

theorem SameIfaces.trans {rest later latest : List Rest}
    (first : SameIfaces rest later) (second : SameIfaces later latest) :
    SameIfaces rest latest := by
  intro i r here
  obtain ⟨middle, there, same⟩ := second i r here
  obtain ⟨old, before, equal⟩ := first i middle there
  exact ⟨old, before, same.trans equal⟩

theorem SameIfaces.countTraffic (devs : List Device) (rest : List Rest)
    (line : StatsLine) : SameIfaces rest (countTraffic devs rest line) := by
  rw [Hotspotd.countTraffic]
  split
  · exact .refl rest
  · intro i r here
    rw [List.getElem?_modify] at here
    obtain ⟨old, before, same⟩ := Option.map_eq_some_iff.mp here
    refine ⟨old, before, ?_⟩
    rw [← same]
    split <;> rfl

theorem SameIfaces.foldl_countTraffic (devs : List Device) (rest : List Rest)
    (lines : List StatsLine) :
    SameIfaces rest (lines.foldl (Hotspotd.countTraffic devs) rest) := by
  induction lines generalizing rest with
  | nil => exact .refl rest
  | cons line lines induction =>
      exact (SameIfaces.countTraffic devs rest line).trans (induction _)

/-- The names of the results. -/
def Results (s : Daemon) : Prop :=
  ∀ r ∈ s.results, r.success = true → IsStored r.hostname

theorem Results.finishTask (results : Results s) {found : Option Text}
    (stored : ∀ name, found = some name → IsStored name) :
    Results (finishTask s found) := by
  have pushed (t : Daemon) (r : Result) (same : t.results = s.results)
      (fine : r.success = true → IsStored r.hostname) :
      Results (pushResult t r) := by
    intro other member success
    rw [pushResult] at member
    split at member
    · rw [same] at member
      exact results other member success
    · rcases List.mem_append.mp member with old | new
      · rw [same] at old
        exact results other old success
      · rw [List.mem_singleton.mp new] at success ⊢
        exact fine success
  rw [Hotspotd.finishTask]
  split
  · exact results
  · split
    · rename_i task _ name
      exact pushed _ _ rfl fun _ => stored name rfl
    · exact pushed _ _ rfl (by simp)

theorem handle_unseen {event : TableEvent} (clean : event.Clean)
    (unseen : event.sighting = none) (results : Results t.daemon) :
    Retains t.daemon.devs (handle t event).daemon.devs ∧
      SameIfaces t.rest (handle t event).rest ∧
      Results (handle t event).daemon := by
  cases event with
  | scanArp entry =>
      have none : entry.sighting = none := Option.map_eq_none_iff.mp unseen
      simp only [handle, none]
      exact ⟨.refl _, .refl _, results⟩
  | nlProcess message =>
      simp only [TableEvent.sighting] at unseen
      simp only [handle]
      split
      · exact ⟨.refl _, .refl _, results⟩
      · refine ⟨.lose _ _, .refl _, ?_⟩
        rw [lose]
        split <;> exact results
      · rename_i seen notice
        rw [notice] at unseen
        cases unseen
  | updateTrafficStats lines =>
      exact ⟨.refl _, .foldl_countTraffic _ _ lines, results⟩
  | takeTask =>
      simp only [handle]
      refine ⟨by rw [takeTask_devs]; exact .refl _, .refl _, ?_⟩
      rw [takeTask]
      split <;> exact results
  | finishTask found =>
      simp only [handle]
      refine ⟨by rw [finishTask_devs]; exact .refl _, .refl _, ?_⟩
      exact results.finishTask fun name same =>
        clean.answered name (by rw [same])
  | processPendingMdns now lookups =>
      simp only [handle]
      refine ⟨.processPendingMdns _ _ (clean.pending now lookups rfl), .refl _,
        ?_⟩
      rw [processPendingMdns]
      split <;> exact results
  | drainResults =>
      refine ⟨.foldl_applyResult fun r member =>
        results r (List.mem_of_mem_take member), .refl _, ?_⟩
      exact fun r member => results r (List.mem_of_mem_drop member)
  | offlineCheck now =>
      simp only [handle]
      refine ⟨.offlineCheck _ _, .refl _, ?_⟩
      rw [offlineCheck]
      split <;> exact results

/-- One event keeps the table ready. -/
theorem Table.Ready.handle (ready : t.Ready) {event : TableEvent}
    (clean : event.Clean) : (handle t event).Ready := by
  cases sighted : event.sighting with
  | none =>
      have carried := handle_carried sighted t
      obtain ⟨retains, ifaces, results⟩ :=
        handle_unseen clean sighted ready.results
      refine ⟨carried.length.trans ready.length, carried.unique ready.unique,
        ?_, ?_, results⟩
      · intro i e here active
        obtain ⟨d, before, activeBefore, named⟩ := retains i e here active
        exact named (ready.devices i d before activeBefore)
      · intro i e r here active there
        obtain ⟨d, before, activeBefore, _⟩ := retains i e here active
        obtain ⟨old, rest, same⟩ := ifaces i r there
        rw [same]
        exact ready.ifaces i d old before activeBefore rest
  | some sight =>
      obtain ⟨seen, iface, state⟩ := sight
      obtain ⟨cleanSeen, plain⟩ := clean.sighted seen iface state sighted
      rw [handle_of_sighting sighted]
      obtain ⟨i, d, _, devs, sameBut, _, mac, _, _, chosen⟩ :=
        sight_slot t seen iface state ready.length
      have others := other_slots ready.unique (chosen.imp id fun free => free.1)
      obtain ⟨⟨j, e, chosenE, devsE, named⟩, results⟩ :=
        sight_named cleanSeen ready.devices
      obtain rfl := Chosen.unique chosen chosenE
      refine ⟨?_, ?_, ?_, ?_, ?_⟩
      · rw [devs, List.length_set]
        exact ready.length
      · rw [devs]
        apply ready.unique.set
        intro k f here active other
        rw [mac]
        exact others k f here active other
      · intro k f here active
        have here' : (t.daemon.devs.set i e)[k]? = some f := by
          rw [← devsE]
          exact here
        rcases getElem?_set_cases here' with ⟨rfl, _⟩ | ⟨before, _⟩
        · exact named
        · exact ready.devices k f before active
      · intro k f r here active there
        by_cases same : k = i
        · subst same
          rw [placeRest_iface chosen there]
          exact plain
        · have slot := sameBut k same
          simp only [Table.slot, Prod.mk.injEq] at slot
          rw [slot.1] at here
          rw [slot.2] at there
          exact ready.ifaces k f r here active there
      · intro r member
        have inOld : r ∈ t.daemon.results := by
          rw [← results]
          exact member
        exact ready.results r inOld

theorem ready_start (check : Int) : (emptyTable check).Ready where
  length := List.length_replicate
  unique := (tracks_start check).unique
  devices := by
    intro i d here active
    rw [List.eq_of_mem_replicate (List.mem_of_getElem? here)] at active
    cases active
  ifaces := by
    intro i d r here active _
    rw [List.eq_of_mem_replicate (List.mem_of_getElem? here)] at active
    cases active
  results := fun r member => absurd member (by simp [emptyTable, emptyDaemon])

/-! ## Runs -/

theorem isHex_toLower {c : Char} (hex : Guard.isHex c = true) :
    Guard.isHex (Scheduler.toLower c) = true := by
  have all : ∀ n : Fin 128, Guard.isHex (Char.ofNat n) = true →
      Guard.isHex (Scheduler.toLower (Char.ofNat n)) = true := by decide
  have small := DeviceNames.toNat_lt_of_isMacChar
    (show DeviceNames.isMacChar c = true by simp [DeviceNames.isMacChar, hex])
  have here := all ⟨c.toNat, small⟩
  rw [Char.ofNat_toNat] at here
  exact here hex

theorem isMacLine_toLower (shape : JsonSetBatch.isMacLine mac = true) :
    JsonSetBatch.isMacLine (mac.map Scheduler.toLower) = true := by
  unfold JsonSetBatch.isMacLine at shape
  split at shape
  · simp only [List.all_cons, List.all_nil, Bool.and_true, Bool.and_eq_true,
      beq_iff_eq, JsonSetBatch.isHexDigit] at shape
    obtain ⟨⟨h1, h2, h3, h4, h5, h6, h7, h8, h9, h10, h11, h12⟩, rfl, rfl, rfl,
      rfl, rfl⟩ := shape
    have colon : Scheduler.toLower ':' = ':' := by decide
    simp [JsonSetBatch.isMacLine, JsonSetBatch.isHexDigit, isHex_toLower, h1,
      h2, h3, h4, h5, h6, h7, h8, h9, h10, h11, h12, colon]
  · cases shape

theorem ArpEntry.sighting_eq_some {entry : ArpEntry}
    (sighted : entry.sighting = some seen) :
    seen = ⟨entry.mac.map Scheduler.toLower, entry.ip, entry.now,
      entry.lookups⟩ := by
  unfold ArpEntry.sighting at sighted
  split_ifs at sighted
  cases sighted
  rfl

theorem notice_seen {message : NeighMessage}
    (notice : message.notice = .seen seen) :
    seen = ⟨message.mac, message.ip, message.now, message.lookups⟩ ∧
      message.ip ≠ [] ∧ message.mac ≠ [] := by
  unfold NeighMessage.notice at notice
  split_ifs at notice with _ _ empty _ _
  cases notice
  rw [not_or] at empty
  exact ⟨rfl, empty⟩

theorem clean_fed {input : Input} (kernel : input.FromKernel)
    (whole : input.Whole t) : (input.fed t).Clean := by
  obtain ⟨event, sources⟩ := input
  refine ⟨?_, ?_, ?_⟩
  · intro seen iface state sighted
    obtain ⟨names, plain⟩ := whole.sighted seen iface state sighted
    refine ⟨?_, plain⟩
    cases event with
    | scanArp entry =>
        obtain ⟨found, sees, same⟩ := Option.map_eq_some_iff.mp sighted
        cases same
        obtain rfl := ArpEntry.sighting_eq_some sees
        exact ⟨isMacLine_toLower kernel.1, kernel.2, names.lookups⟩
    | nlProcess message =>
        simp only [Input.fed, TableEvent.sighting] at sighted
        split at sighted
        · rename_i found notice
          cases sighted
          obtain ⟨rfl, ip, mac⟩ := notice_seen notice
          exact ⟨kernel.1.resolve_left mac, kernel.2.resolve_left ip,
            names.lookups⟩
        · cases sighted
    | _ => cases sighted
  · intro name fed
    cases event with
    | finishTask found =>
        simp only [Input.fed, TableEvent.finishTask.injEq] at fed
        exact tryMdnsResolve_isStored (whole.answered found rfl) fed
    | _ => cases fed
  · intro now lookups fed
    cases event with
    | processPendingMdns when old =>
        obtain ⟨rfl, rfl⟩ := fed
        exact (whole.pending _ _ rfl).lookups
    | _ => cases fed

theorem Table.Ready.nodup (ready : t.Ready) :
    (t.active.map fun slot => slot.1.mac).Nodup := by
  rw [List.Nodup, List.pairwise_map, Table.active, List.pairwise_filter,
    List.pairwise_iff_getElem]
  intro i j first second earlier activeFirst activeSecond same
  rw [List.getElem_zip] at activeFirst activeSecond same
  rw [List.getElem_zip] at same
  have lengths := @List.length_zip _ _ t.daemon.devs t.rest
  have index := ready.unique i j _ _
    (List.getElem?_eq_getElem (by omega)) (List.getElem?_eq_getElem (by omega))
    activeFirst activeSecond (congrArg macKey same)
  omega

theorem Table.Ready.printable (ready : t.Ready) :
    ∀ slot ∈ t.active, Printable slot.1 slot.2 := by
  intro slot member
  obtain ⟨zipped, active⟩ := List.mem_filter.mp member
  obtain ⟨i, bound, here⟩ := List.getElem_of_mem zipped
  rw [List.getElem_zip] at here
  have lengths := @List.length_zip _ _ t.daemon.devs t.rest
  have device : t.daemon.devs[i]? = some slot.1 := by
    rw [← here]
    exact List.getElem?_eq_getElem (by omega)
  have rest : t.rest[i]? = some slot.2 := by
    rw [← here]
    exact List.getElem?_eq_getElem (by omega)
  have named := ready.devices i slot.1 device active
  exact ⟨named.mac, named.ip, named.name, named.src,
    ready.ifaces i slot.1 slot.2 device active rest⟩

/-- When no step of a run cuts a name inside a character, the file is
well-formed in every table that the run reaches. -/
theorem devices_json_wellFormed (check : Int) (inputs : List Input)
    (blacklist : List Text)
    (guarded : Runs.Guarded receive
      (fun t input => input.FromKernel ∧ input.Whole t) (emptyTable check)
      inputs) :
    ∀ t ∈ Runs.visited receive (emptyTable check) inputs,
      WellFormed t blacklist := by
  have ready := Runs.Guarded.induction Table.Ready
    (fun t input ready conditions =>
      ready.handle (clean_fed conditions.1 conditions.2))
    (ready_start check) guarded
  intro t visited
  exact wellFormed_of_printable (ready t visited).printable
    (ready t visited).nodup blacklist

/-- The sources when only `device_names.json` is there, with one name. -/
def namesOnly (name : String) : Sources :=
  ⟨encode ("\x7b\"aa:bb:cc:dd:ee:01\":\"".toList ++ (name.toList ++
    "\"\x7d".toList)), [], none, none, [], 1⟩

def namedPhone (name : String) : Input :=
  ⟨.scanArp ⟨"192.168.43.7".toList, "0x2".toList, "aa:bb:cc:dd:ee:01".toList,
    "wlan2".toList, 100, ⟨none, none, none, none⟩⟩, namesOnly name⟩

theorem whole_namedPhone {name : String}
    (short : (namesOnly name).names.length ≤ 8191)
    (fits : (uncutManualName "aa:bb:cc:dd:ee:01".toList
      (namesOnly name).names).length ≤ 63) :
    (namedPhone name).Whole (emptyTable 0) where
  sighted := by
    intro seen iface state sighted
    have fed : ((namedPhone name).fed (emptyTable 0)).sighting =
        some (⟨"aa:bb:cc:dd:ee:01".toList, "192.168.43.7".toList, 100,
          (namesOnly name).lookups "aa:bb:cc:dd:ee:01".toList⟩,
          "wlan2".toList, nudStale) := rfl
    rw [fed] at sighted
    cases sighted
    have empty : IsUtf8 [] := .of_ascii (by simp)
    have noLease : latestField "aa:bb:cc:dd:ee:01".toList (dumpLines []) =
        none := rfl
    have address : "aa:bb:cc:dd:ee:01".toList.length ≤ 27 := by decide
    refine ⟨Sources.whole_of_short address ⟨.encode _, short⟩
      ⟨empty, Nat.zero_le _⟩ fits ?_ nofun nofun, isPlain_of_all (by decide)⟩
    intro field found
    cases found
  answered := nofun
  pending := nofun

theorem fromKernel_namedPhone (name : String) :
    (namedPhone name).FromKernel := by
  constructor <;> decide

theorem named_phone_wellFormed :
    WellFormed (receive (emptyTable 0) (namedPhone "Rémi")) [] :=
  devices_json_wellFormed 0 [namedPhone "Rémi"] []
    ⟨⟨fromKernel_namedPhone _, whole_namedPhone (by decide) (by decide)⟩, trivial⟩
    _ (by simp [Runs.visited])

/-- 32 characters of two bytes each. -/
def longName : String :=
  String.ofList (List.replicate 32 'é')

def cutFile : Text :=
  (receive (emptyTable 0) (namedPhone longName)).writeJson []

theorem cut_name_breaks_file :
    (namedPhone longName).FromKernel ∧
      IsUtf8 (namedPhone longName).sources.names ∧
      ¬WellFormed (receive (emptyTable 0) (namedPhone longName)) [] := by
  refine ⟨fromKernel_namedPhone _, .encode _, ?_⟩
  intro wellFormed
  obtain ⟨text, _, bytes, _, _⟩ := wellFormed.object
  -- the first byte of the last character stands right before the quote
  have split : cutFile =
      (cutFile.take 142 ++ ['\xc3']) ++ '"' :: cutFile.drop 144 := by
    decide +kernel
  have whole : IsUtf8 ((cutFile.take 142 ++ ['\xc3']) ++
      '"' :: cutFile.drop 144) :=
    ⟨text, bytes.trans split⟩
  obtain ⟨front, same⟩ := whole.left_of (by decide)
  have last : (encode front).getLast? = some '\xc3' := by
    rw [same]
    simp
  exact absurd (getLast_encode last) (by decide)

end Hnc.Hotspotd
