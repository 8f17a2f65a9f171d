import Hnc.Daemon.DeviceTable

/-!
# The device table as a map

Over any run the active slots have different addresses, a sighting of an address
is recorded in the slot that has it, and an active device leaves its slot for
one of three reasons only.  The invariant ties the `last_seen` of an active
device to the sightings of the run.
-/

namespace Hnc.Hotspotd

open Posix

/-- A slot holds what a sighting says about its device. -/
def Records (t : Table) (i : Nat) (seen : Sighting) : Prop :=
  ∃ d, t.daemon.devs[i]? = some d ∧ d.active = true ∧
    macKey d.mac = macKey seen.mac ∧ d.ip = seen.ip ∧ d.lastSeen = seen.now

/-- All slots but one are as before. -/
def SameBut (i : Nat) (before after : Table) : Prop :=
  ∀ j, j ≠ i → after.slot j = before.slot j

/-- The device was last seen when it says. -/
def LastSeen (past : List TableEvent) (d : Device) : Prop :=
  (∃ seen ∈ sightings past, macKey seen.mac = macKey d.mac ∧
      seen.now = d.lastSeen) ∧
    ∀ seen ∈ sightings past, macKey seen.mac = macKey d.mac →
      seen.now ≤ d.lastSeen

/-- The reasons for which an active device leaves its slot. -/
inductive Dropped (before : Table) (d : Device) : TableEvent → Prop where
  | failed (message : NeighMessage)
      (mac : macKey message.mac = macKey d.mac)
      (state : message.state &&& (nudFailed ||| nudIncomplete) ≠ 0) :
      Dropped before d (.nlProcess message)
  | silent (now : Int) (long : now - d.lastSeen > 90) :
      Dropped before d (.offlineCheck now)
  | evicted (event : TableEvent) (seen : Sighting) (iface : Text)
      (state : BitVec 16)
      (sighted : event.sighting = some (seen, iface, state))
      (unknown : findDevice before.daemon.devs seen.mac = none)
      (full : before.daemon.devs.length = maxDevices)
      (active : ∀ e ∈ before.daemon.devs, e.active = true)
      (least : ∀ e ∈ before.daemon.devs, d.lastSeen ≤ e.lastSeen) :
      Dropped before d event

/-- What the results for one address make of its device. -/
def answeredAll (rs : List Result) (d : Device) : Device :=
  (rs.filter fun r => macKey r.mac = macKey d.mac).foldl
    (fun d r => answered r d) d

/-- One step of the table, read as a step of a map from addresses to devices. -/
structure StepAsMap (past : List TableEvent) (before : Table)
    (event : TableEvent) (after : Table) : Prop where
  unique : Unique before.daemon.devs ∧ Unique after.daemon.devs
  lastSeen : ∀ (i : Nat) (d : Device), before.daemon.devs[i]? = some d →
    d.active = true → LastSeen past d
  sighted : ∀ seen iface state, event.sighting = some (seen, iface, state) →
    ∃ i, Records after i seen ∧ SameBut i before after ∧
      ∀ known, findDevice before.daemon.devs seen.mac = some known → i = known
  lost : ∀ message mac i d, event = .nlProcess message →
    message.notice = .gone mac →
    findDevice before.daemon.devs mac = some i →
    before.daemon.devs[i]? = some d →
    after.daemon.devs[i]? = some { d with active := false } ∧
      SameBut i before after
  answers : event = .drainResults → ∀ (i : Nat) (d : Device),
    before.daemon.devs[i]? = some d → d.active = true →
    after.daemon.devs[i]? = some
      (answeredAll (before.daemon.results.take queueSize) d)
  pending : ∀ now lookups, event = .processPendingMdns now lookups →
    ∀ (i : Nat) (d : Device), before.daemon.devs[i]? = some d →
    d.active = true →
    ∃ e, after.daemon.devs[i]? = some e ∧ e.mac = d.mac ∧ e.ip = d.ip ∧
      e.lastSeen = d.lastSeen ∧ e.active = true
  stays : ∀ (i : Nat) (d : Device), before.daemon.devs[i]? = some d →
    d.active = true →
    (∃ e, after.daemon.devs[i]? = some e ∧ e.active = true ∧
      macKey e.mac = macKey d.mac) ∨ Dropped before d event

/-- What the steps keep that see no device. -/
structure Carried (devs later : List Device) : Prop where
  length : later.length = devs.length
  slots : ∀ (i : Nat) (e : Device), later[i]? = some e →
    ∃ d, devs[i]? = some d ∧ e.mac = d.mac ∧ e.lastSeen = d.lastSeen ∧
      (e.active = true → d.active = true)

/-- The invariant of a run. -/
structure Tracks (past : List TableEvent) (t : Table) : Prop where
  length : t.daemon.devs.length = maxDevices
  unique : Unique t.daemon.devs
  lastSeen : ∀ (i : Nat) (d : Device), t.daemon.devs[i]? = some d →
    d.active = true → LastSeen past d

theorem Carried.refl (devs : List Device) : Carried devs devs where
  length := rfl
  slots := fun _ e here => ⟨e, here, rfl, rfl, id⟩

variable {devs : List Device}

theorem Carried.trans {later latest : List Device} (first : Carried devs later)
    (second : Carried later latest) : Carried devs latest where
  length := second.length.trans first.length
  slots := by
    intro i f here
    obtain ⟨e, there, mac, seen, active⟩ := second.slots i f here
    obtain ⟨d, before, mac', seen', active'⟩ := first.slots i e there
    exact ⟨d, before, mac.trans mac', seen.trans seen',
      fun on => active' (active on)⟩

theorem Carried.modify (devs : List Device) (i : Nat)
    {change : Device → Device} (keeps : Keeps change)
    (seen : ∀ d, (change d).lastSeen = d.lastSeen) :
    Carried devs (devs.modify i change) where
  length := List.length_modify _ _ _
  slots := by
    intro j e here
    obtain ⟨d, before, same | changed⟩ := getElem?_modify_cases here
    · exact ⟨d, before, by rw [same.1], by rw [same.1], by
        rw [same.1]
        exact id⟩
    · rw [changed.1]
      exact ⟨d, before, (keeps d).1, seen d, (keeps d).2⟩

theorem Carried.applyResult (devs : List Device) (r : Result) :
    Carried devs (applyResult devs r) := by
  rw [Hotspotd.applyResult]
  split
  · exact .refl devs
  · apply Carried.modify _ _ (keeps_answered r)
    intro d
    rw [answered]
    split
    · rfl
    · split <;> rfl

theorem Carried.foldl_applyResult (devs : List Device) (rs : List Result) :
    Carried devs (rs.foldl Hotspotd.applyResult devs) := by
  induction rs generalizing devs with
  | nil => exact .refl devs
  | cons r rs induction =>
      exact (Carried.applyResult devs r).trans (induction _)

theorem Carried.lose (s : Daemon) (mac : Text) :
    Carried s.devs (lose s mac).devs := by
  rw [Hotspotd.lose]
  split
  · exact .refl _
  · exact Carried.modify _ _ (fun d => ⟨rfl, by simp⟩) fun _ => rfl

theorem Carried.processPendingMdns (s : Daemon) (now : Int)
    (lookups : Lookups) :
    Carried s.devs (processPendingMdns s now lookups).devs := by
  rw [Hotspotd.processPendingMdns]
  split
  · exact .refl _
  · exact Carried.modify _ _ (fun d => ⟨rfl, id⟩) fun _ => rfl

theorem Carried.offlineCheck (s : Daemon) (now : Int) :
    Carried s.devs (offlineCheck s now).devs := by
  rw [Hotspotd.offlineCheck]
  split
  · refine ⟨List.length_map _, fun i e here => ?_⟩
    rw [List.getElem?_map] at here
    obtain ⟨d, before, result⟩ := Option.map_eq_some_iff.mp here
    rw [← result]
    refine ⟨d, before, ?_⟩
    split
    · exact ⟨rfl, rfl, by simp⟩
    · exact ⟨rfl, rfl, id⟩
  · exact .refl _

theorem takeTask_devs (s : Daemon) : (takeTask s).devs = s.devs := by
  rw [takeTask]
  split <;> rfl

theorem finishTask_devs (s : Daemon) (found : Option Text) :
    (finishTask s found).devs = s.devs := by
  rw [finishTask]
  split
  · rfl
  · split
    · rw [pushResult]
      split <;> rfl
    · rw [pushResult]
      split <;> rfl

variable {event : TableEvent}

theorem handle_carried (unseen : event.sighting = none) (t : Table) :
    Carried t.daemon.devs (handle t event).daemon.devs := by
  cases event with
  | scanArp entry =>
      have none : entry.sighting = none := Option.map_eq_none_iff.mp unseen
      simp only [handle, none]
      exact .refl _
  | nlProcess message =>
      cases notice : message.notice with
      | ignored =>
          simp only [handle, notice]
          exact .refl _
      | gone mac =>
          simp only [handle, notice]
          exact .lose t.daemon mac
      | seen seen => simp [TableEvent.sighting, notice] at unseen
  | updateTrafficStats lines => exact .refl _
  | takeTask =>
      simp only [handle, takeTask_devs]
      exact .refl _
  | finishTask found =>
      simp only [handle, finishTask_devs]
      exact .refl _
  | processPendingMdns now lookups =>
      exact .processPendingMdns t.daemon now lookups
  | drainResults => exact .foldl_applyResult _ _
  | offlineCheck now => exact .offlineCheck t.daemon now

theorem Carried.unique {later : List Device} (carried : Carried devs later)
    (unique : Unique devs) : Unique later := by
  intro i j d e first second activeFirst activeSecond same
  obtain ⟨d', before, mac, _, active⟩ := carried.slots i d first
  obtain ⟨e', before', mac', _, active'⟩ := carried.slots j e second
  apply unique i j d' e' before before' (active activeFirst)
    (active' activeSecond)
  rw [← mac, ← mac', same]

theorem sightings_append (past : List TableEvent) (event : TableEvent) :
    sightings (past ++ [event]) =
      sightings past ++ (event.sighting.map Prod.fst).toList := by
  cases seen : event.sighting with
  | none => simp [sightings, seen]
  | some sight => simp [sightings, seen]

variable {past : List TableEvent} {seen : Sighting}

/-- A sighting is no earlier than those before it. -/
theorem Clocked.latest (clock : Clocked (past ++ [event])) {iface : Text}
    {state : BitVec 16} (sighted : event.sighting = some (seen, iface, state)) :
    ∀ earlier ∈ sightings past, earlier.now ≤ seen.now := by
  intro earlier member
  obtain ⟨before, inPast, found⟩ := List.mem_filterMap.mp member
  obtain ⟨⟨same, iface', state'⟩, sees, rfl⟩ := Option.map_eq_some_iff.mp found
  have timed : (past ++ [event]).filterMap TableEvent.time =
      past.filterMap TableEvent.time ++ [seen.now] := by
    simp [time_of_sighting sighted]
  rw [Clocked, timed, List.pairwise_append] at clock
  apply clock.2.2 _ _ _ (List.mem_singleton_self _)
  exact List.mem_filterMap.mpr ⟨before, inPast, time_of_sighting sees⟩

variable {d : Device}

theorem LastSeen.later {e : Device} (last : LastSeen past d) (mac : e.mac = d.mac)
    (when : e.lastSeen = d.lastSeen)
    (other : ∀ seen ∈ event.sighting.map Prod.fst, macKey seen.mac ≠ macKey d.mac) :
    LastSeen (past ++ [event]) e := by
  obtain ⟨⟨seen, member, same, now⟩, greatest⟩ := last
  rw [LastSeen, mac, when, sightings_append]
  refine ⟨⟨seen, List.mem_append_left _ member, same, now⟩, ?_⟩
  intro another among same'
  rcases List.mem_append.mp among with inPast | new
  · exact greatest another inPast same'
  · exact absurd same' (other another (Option.mem_toList.mp new))

variable {t : Table}

theorem Carried.tracks {after : Table} (tracks : Tracks past t)
    (unseen : event.sighting = none)
    (carried : Carried t.daemon.devs after.daemon.devs) :
    Tracks (past ++ [event]) after where
  length := carried.length.trans tracks.length
  unique := carried.unique tracks.unique
  lastSeen := by
    intro i e here active
    obtain ⟨d, before, mac, when, on⟩ := carried.slots i e here
    apply (tracks.lastSeen i d before (on active)).later mac when
    rw [unseen]
    exact nofun

theorem sight_slot (t : Table) (seen : Sighting) (iface : Text)
    (state : BitVec 16) (length : t.daemon.devs.length = maxDevices) :
    ∃ i d, i < maxDevices ∧
      (t.sight seen iface state).daemon.devs = t.daemon.devs.set i d ∧
      SameBut i t (t.sight seen iface state) ∧
      d.active = true ∧ macKey d.mac = macKey seen.mac ∧ d.ip = seen.ip ∧
      d.lastSeen = seen.now ∧
      (findDevice t.daemon.devs seen.mac = some i ∨
        findDevice t.daemon.devs seen.mac = none ∧
          i = (allocDevice t.daemon.devs).1) := by
  have elsewhere : ∀ (i : Nat) (d : Device),
      (sight t.daemon seen).devs = t.daemon.devs.set i d →
      (∀ j, j ≠ i → (placeRest t seen iface state)[j]? = t.rest[j]?) →
      SameBut i t (t.sight seen iface state) := by
    intro i d devs rest j other
    simp only [Table.slot, Table.sight, devs, Prod.mk.injEq]
    exact ⟨List.getElem?_set_ne (Ne.symm other), rest j other⟩
  cases known : findDevice t.daemon.devs seen.mac with
  | some i =>
      obtain ⟨d, devs, active, mac, ip, now, old, here, _⟩ := sight_known known
      have inside : i < maxDevices := by
        rw [← length]
        exact (List.getElem?_eq_some_iff.mp here).1
      refine ⟨i, d, inside, devs, elsewhere i d devs ?_, active, mac, ip, now,
        .inl rfl⟩
      intro j other
      simp only [placeRest, known]
      exact List.getElem?_modify_ne _ _ (Ne.symm other)
  | none =>
      have devs := sight_new known
      have inside : (allocDevice t.daemon.devs).1 < maxDevices := by
        have some_slot : t.daemon.devs ≠ [] := by
          intro empty
          rw [empty] at length
          cases length
        rw [← length]
        rcases allocDevice_cases some_slot with ⟨d, here, _⟩ | ⟨_, d, here, _⟩
        · exact (List.getElem?_eq_some_iff.mp here).1
        · exact (List.getElem?_eq_some_iff.mp here).1
      refine ⟨_, _, inside, devs, elsewhere _ _ devs ?_, rfl, rfl, rfl, rfl,
        .inr ⟨rfl, rfl⟩⟩
      intro j other
      simp only [placeRest, known]
      exact List.getElem?_set_ne (Ne.symm other)

variable {i : Nat}

theorem other_slots (unique : Unique devs)
    (chosen : findDevice devs seen.mac = some i ∨ findDevice devs seen.mac = none) :
    ∀ (j : Nat) (d : Device), devs[j]? = some d → d.active = true → j ≠ i →
      macKey d.mac ≠ macKey seen.mac := by
  intro j d here active other same
  rcases chosen with found | missing
  · obtain ⟨e, there, active', mac⟩ := findDevice_eq_some found
    exact other (unique j i d e here there active active'
      (same.trans mac.symm))
  · exact findDevice_eq_none missing j d here active same

theorem Tracks.handle (tracks : Tracks past t) (event : TableEvent)
    (clock : Clocked (past ++ [event])) :
    Tracks (past ++ [event]) (handle t event) := by
  cases sighted : event.sighting with
  | none => exact (handle_carried sighted t).tracks tracks sighted
  | some sight =>
      obtain ⟨seen, iface, state⟩ := sight
      rw [handle_of_sighting sighted]
      obtain ⟨i, d, _, devs, _, _, mac, _, now, chosen⟩ :=
        sight_slot t seen iface state tracks.length
      have others := other_slots tracks.unique
        (chosen.imp id fun free => free.1)
      refine ⟨?_, ?_, ?_⟩
      · rw [devs, List.length_set]
        exact tracks.length
      · rw [devs]
        apply tracks.unique.set
        intro j e here active other
        rw [mac]
        exact others j e here active other
      · intro j e here active
        rw [devs] at here
        rcases getElem?_set_cases here with ⟨rfl, _⟩ | ⟨before, other⟩
        · rw [LastSeen, sightings_append, sighted]
          refine ⟨⟨seen, by simp, mac.symm, now.symm⟩, ?_⟩
          intro another among _
          rw [now]
          rcases List.mem_append.mp among with inPast | new
          · exact clock.latest sighted another inPast
          · simp only [Option.map_some, Option.toList_some,
              List.mem_singleton] at new
            rw [new]
        · apply (tracks.lastSeen j e before active).later rfl rfl
          rw [sighted]
          intro another same
          cases same
          exact Ne.symm (others j e before active (Ne.symm other))

theorem tracks_start (check : Int) : Tracks [] (emptyTable check) where
  length := List.length_replicate
  unique := by
    intro i j d e here _ active
    rw [List.eq_of_mem_replicate (List.mem_of_getElem? here)] at active
    cases active
  lastSeen := by
    intro i d here active
    rw [List.eq_of_mem_replicate (List.mem_of_getElem? here)] at active
    cases active

theorem Clocked.of_append {later : List TableEvent}
    (clock : Clocked (past ++ later)) : Clocked past := by
  rw [Clocked, List.filterMap_append] at clock
  exact (List.pairwise_append.mp clock).1

theorem run_tracks (check : Int) (past : List TableEvent)
    (clock : Clocked past) :
    Tracks past (past.foldl handle (emptyTable check)) := by
  induction past using List.reverseRecOn with
  | nil => exact tracks_start check
  | append_singleton past event induction =>
      rw [List.foldl_append]
      exact (induction clock.of_append).handle event clock

theorem answered_identity (r : Result) (d : Device) :
    (answered r d).mac = d.mac ∧ (answered r d).active = d.active := by
  rw [answered]
  split
  · exact ⟨rfl, rfl⟩
  · split <;> exact ⟨rfl, rfl⟩

theorem answeredAll_identity (rs : List Result) (d : Device) :
    (answeredAll rs d).mac = d.mac ∧ (answeredAll rs d).active = d.active := by
  rw [answeredAll]
  generalize rs.filter (fun r => macKey r.mac = macKey d.mac) = own
  induction own generalizing d with
  | nil => exact ⟨rfl, rfl⟩
  | cons r own induction =>
      obtain ⟨mac, active⟩ := induction (answered r d)
      obtain ⟨mac', active'⟩ := answered_identity r d
      exact ⟨mac.trans mac', active.trans active'⟩

/-- The results that are drained reach every device as if they were applied to
it alone. -/
theorem foldl_applyResult_answered (unique : Unique devs)
    (here : devs[i]? = some d) (active : d.active = true) (rs : List Result) :
    (rs.foldl applyResult devs)[i]? = some (answeredAll rs d) := by
  induction rs generalizing devs d with
  | nil => exact here
  | cons r rs induction =>
      obtain ⟨mac, on⟩ := answered_identity r d
      rw [List.foldl_cons]
      by_cases same : macKey r.mac = macKey d.mac
      · have found : findDevice devs r.mac = some i := by
          cases located : findDevice devs r.mac with
          | none =>
              exact absurd same.symm
                (findDevice_eq_none located i d here active)
          | some j =>
              obtain ⟨e, there, on, mac⟩ := findDevice_eq_some located
              rw [unique j i e d there here on active (mac.trans same)]
        have there : (applyResult devs r)[i]? = some (answered r d) := by
          simp only [applyResult, found, List.getElem?_modify, here, if_true,
            Option.map_some, Option.map_eq_map]
        rw [induction (unique.applyResult r) there (on.trans active)]
        simp only [answeredAll, mac, List.filter_cons, same, decide_true,
          if_true, List.foldl_cons]
      · obtain ⟨e, there, _, _, unchanged⟩ := applyResult_slot (r := r) here
        rw [unchanged same] at there
        rw [induction (unique.applyResult r) there active]
        simp only [answeredAll, List.filter_cons, same, decide_false,
          Bool.false_eq_true, if_false]

theorem notice_gone {message : NeighMessage} {mac : Text}
    (notice : message.notice = .gone mac) :
    mac = message.mac ∧
      message.state &&& (nudFailed ||| nudIncomplete) ≠ 0 := by
  unfold NeighMessage.notice at notice
  split_ifs at notice with _ _ _ _ failed
  cases notice
  exact ⟨rfl, failed⟩

/-- What becomes of an active device in a step that sees no device. -/
theorem stays_of_unseen (unseen : event.sighting = none)
    (unique : Unique t.daemon.devs) (here : t.daemon.devs[i]? = some d)
    (active : d.active = true) :
    (∃ e, (handle t event).daemon.devs[i]? = some e ∧ e.active = true ∧
      macKey e.mac = macKey d.mac) ∨ Dropped t d event := by
  cases event with
  | scanArp entry =>
      have none : entry.sighting = none := Option.map_eq_none_iff.mp unseen
      simp only [handle, none]
      exact .inl ⟨d, here, active, rfl⟩
  | nlProcess message =>
      cases notice : message.notice with
      | ignored =>
          simp only [handle, notice]
          exact .inl ⟨d, here, active, rfl⟩
      | seen seen => simp [TableEvent.sighting, notice] at unseen
      | gone mac =>
          obtain ⟨rfl, failed⟩ := notice_gone notice
          simp only [handle, notice, lose]
          cases found : findDevice t.daemon.devs message.mac with
          | none => exact .inl ⟨d, here, active, rfl⟩
          | some j =>
              obtain ⟨e, there, on, mac⟩ := findDevice_eq_some found
              by_cases same : j = i
              · subst same
                rw [there] at here
                cases here
                exact .inr (.failed message mac.symm failed)
              · refine .inl ⟨d, ?_, active, rfl⟩
                rw [← here]
                exact List.getElem?_modify_ne _ _ same
  | updateTrafficStats lines => exact .inl ⟨d, here, active, rfl⟩
  | takeTask =>
      simp only [handle, takeTask_devs]
      exact .inl ⟨d, here, active, rfl⟩
  | finishTask found =>
      simp only [handle, finishTask_devs]
      exact .inl ⟨d, here, active, rfl⟩
  | processPendingMdns now lookups =>
      simp only [handle, processPendingMdns]
      split
      · exact .inl ⟨d, here, active, rfl⟩
      · rename_i j _
        refine .inl ?_
        rw [List.getElem?_modify, here]
        by_cases same : j = i
        · simp [same, active]
        · simp [same, active]
  | drainResults =>
      have there := foldl_applyResult_answered unique here active
        (t.daemon.results.take queueSize)
      obtain ⟨mac, on⟩ := answeredAll_identity
        (t.daemon.results.take queueSize) d
      exact .inl ⟨_, there, on.trans active, by rw [mac]⟩
  | offlineCheck now =>
      simp only [handle, offlineCheck]
      split
      · by_cases long : now - d.lastSeen > 90
        · exact .inr (.silent now long)
        · refine .inl ⟨d, ?_, active, rfl⟩
          simp [here, long]
      · exact .inl ⟨d, here, active, rfl⟩

theorem stays_of_sighting {iface : Text} {state : BitVec 16}
    (sighted : event.sighting = some (seen, iface, state))
    (length : t.daemon.devs.length = maxDevices)
    (here : t.daemon.devs[i]? = some d) (active : d.active = true) :
    (∃ e, (handle t event).daemon.devs[i]? = some e ∧ e.active = true ∧
      macKey e.mac = macKey d.mac) ∨ Dropped t d event := by
  rw [handle_of_sighting sighted]
  obtain ⟨j, e, _, devs, _, on, mac, _, _, chosen⟩ :=
    sight_slot t seen iface state length
  rw [devs]
  by_cases other : j = i
  · subst other
    have there : (t.daemon.devs.set j e)[j]? = some e :=
      List.getElem?_set_self (List.getElem?_eq_some_iff.mp here).1
    rcases chosen with found | ⟨missing, rfl⟩
    · obtain ⟨old, here', _, mac'⟩ := findDevice_eq_some found
      rw [here] at here'
      cases here'
      exact .inl ⟨e, there, on, mac.trans mac'.symm⟩
    · -- The slot was in use, so that it was the oldest of a full table.
      have some_slot : t.daemon.devs ≠ [] := by
        intro empty
        rw [empty] at length
        cases length
      rcases allocDevice_cases some_slot with
        ⟨free, here', off⟩ | ⟨full, oldest, here', least⟩
      · rw [here] at here'
        cases here'
        rw [active] at off
        cases off
      · rw [here] at here'
        cases here'
        exact .inr (.evicted event seen iface state sighted missing length full
          least)
  · refine .inl ⟨d, ?_, active, rfl⟩
    rw [List.getElem?_set_ne other, here]

/-- Every step of a run with a clock that does not go back is a step of a map. -/
theorem device_table_is_map (check : Int) (past : List TableEvent)
    (event : TableEvent) (clock : Clocked (past ++ [event])) :
    StepAsMap past (past.foldl handle (emptyTable check)) event
      (handle (past.foldl handle (emptyTable check)) event) := by
  have tracks := run_tracks check past clock.of_append
  revert tracks
  generalize past.foldl handle (emptyTable check) = t
  intro tracks
  refine ⟨⟨tracks.unique, (tracks.handle event clock).unique⟩,
    tracks.lastSeen, ?_, ?_, ?_, ?_, ?_⟩
  · intro seen iface state sighted
    rw [handle_of_sighting sighted]
    obtain ⟨i, d, inside, devs, same, active, mac, ip, now, chosen⟩ :=
      sight_slot t seen iface state tracks.length
    refine ⟨i, ⟨d, ?_, active, mac, ip, now⟩, same, ?_⟩
    · rw [devs]
      apply List.getElem?_set_self
      rw [tracks.length]
      exact inside
    · intro known found
      rcases chosen with located | ⟨missing, _⟩
      · rw [found] at located
        cases located
        rfl
      · rw [found] at missing
        cases missing
  · intro message mac i d isMessage notice found here
    subst isMessage
    simp only [handle, notice, lose, found]
    refine ⟨?_, fun j other => ?_⟩
    · simp [here]
    · simp only [Table.slot, List.getElem?_modify_ne _ _ (Ne.symm other)]
  · intro isDrain i d here active
    subst isDrain
    exact foldl_applyResult_answered tracks.unique here active _
  · intro now lookups isPending i d here active
    subst isPending
    simp only [handle, processPendingMdns]
    split
    · exact ⟨d, here, rfl, rfl, rfl, active⟩
    · rename_i j _
      rw [List.getElem?_modify, here]
      by_cases same : j = i
      · simp [same, active]
      · simp [same, active]
  · intro i d here active
    cases sighted : event.sighting with
    | none => exact stays_of_unseen sighted tracks.unique here active
    | some sight =>
        exact stays_of_sighting sighted tracks.length here active

/-- A phone is in the table, and a minute later it is there again. -/
def phoneEntry (now : Int) : TableEvent :=
  .scanArp ⟨"192.168.43.5".toList, "0x2".toList, "3a:bb:cc:dd:ee:01".toList,
    "wlan0".toList, now, noNames⟩

theorem phone_seen_twice :
    StepAsMap [phoneEntry 0] ([phoneEntry 0].foldl handle (emptyTable 0))
      (phoneEntry 60) (handle ([phoneEntry 0].foldl handle (emptyTable 0))
        (phoneEntry 60)) :=
  device_table_is_map 0 [phoneEntry 0] (phoneEntry 60) (by
    unfold Clocked
    decide +kernel)

end Hnc.Hotspotd
