import Hnc.Daemon.DevicesSearch
import Hnc.Service.RestoreReader

/-!
# The address that the scripts read from `devices.json`

`get_ip` of `apply_device_rule.sh` and `get_current_ip` of `tc_manager.sh` look
for the quoted hardware address and take the first `"ip"` behind it.  A host
name may contain the quoted address, and then the answer is the address of the
next device.
-/

namespace Hnc.OwnIp

open Posix JsonText Hotspotd

/-! ## The answer -/

theorem mem_deviceFields {blacklist : List Text} {d : Device} {r : Rest}
    {m : Member} (member : m ∈ fieldsBehindName blacklist d r) :
    m ∈ deviceFields blacklist d r :=
  .tail _ (.tail _ (.tail _ member))

/-- What the scripts read: the record of the address, or the record behind the
one whose name quotes it, whichever comes first. -/
def readIp (mac : Text) : List (Device × Rest) → Text
  | [] => []
  | slot :: later =>
      if slot.1.mac = mac then slot.1.ip
      else if Quotes mac slot.1.hostname then
        (later.head?.map fun next => next.1.ip).getD []
      else readIp mac later

section Answer

variable (blacklist : List Text) (mac : DeviceNames.MacArg)

def AllShown (slots : List (Device × Rest)) : Prop :=
  ∀ slot ∈ slots, Shown slot.1 slot.2

section

variable {slots : List (Device × Rest)} (shown : AllShown slots)
include shown

theorem oneLine_members :
    ∀ m ∈ slots.map (deviceMember blacklist), '\n' ∉ m.render := by
  intro m member
  obtain ⟨slot, listed, rfl⟩ := List.mem_map.mp member
  exact (shown slot listed).oneLine_member blacklist

theorem wf_members :
    ∀ m ∈ slots.map (deviceMember blacklist), m.Wf := by
  intro m member
  obtain ⟨slot, listed, rfl⟩ := List.mem_map.mp member
  exact (shown slot listed).member_wf blacklist

theorem hits_ip_closing :
    (hits (named "ip".toList (colon ipBehind))
      (closing (slots.map (deviceMember blacklist)) []) []).head? =
      slots.head?.map fun next => next.1.ip := by
  have text := hits_closing keyName_ip (colon ipBehind)
    (wf_members blacklist shown) []
  rw [show closing (slots.map (deviceMember blacklist)) [] =
    more (slots.map (deviceMember blacklist)) ++ ['}'] from rfl, text]
  cases slots with
  | nil => rfl
  | cons slot later =>
      exact (shown slot (by simp)).ip_of_member blacklist [] _

/-- The address behind the first quoted hardware address. -/
theorem read_members :
    (((hitsIn mac.text some (slots.map (deviceMember blacklist)) []).head?.map
      fun rest => quote mac.text ++ rest).bind
        (matchKey "ip".toList ipBehind)).getD [] =
      readIp mac.text slots := by
  induction slots with
  | nil => rfl
  | cons slot later induction =>
      obtain ⟨d, r⟩ := slot
      have here : Shown d r := shown (d, r) (by simp)
      have others : AllShown later := fun other member =>
        shown other (by simp [member])
      have laterLine := @oneLine_closing (later.map (deviceMember blacklist)) []
        (oneLine_members blacklist others) (by simp)
      rw [List.map_cons, readIp]
      by_cases own : d.mac = mac.text
      · have line : '\n' ∉ ':' :: ((deviceObj blacklist d r).render ++
            closing (later.map (deviceMember blacklist)) []) := by
          simp [here.oneLine_obj blacklist, laterLine]
        have apart : Apart (':' :: ((deviceObj blacklist d r).render ++
            closing (later.map (deviceMember blacklist)) [])) := by
          intro c tail same
          cases same
          decide
        have first := here.ip_first blacklist
          (closing (later.map (deviceMember blacklist)) [])
        rw [deviceMember, own, hitsIn_bare_here, lineOf_self line]
        simp only [Option.toList_some, List.cons_append, List.head?_cons,
          Option.map_some, Option.bind_some]
        rw [matchKey_behind mac line apart, hits_other _ _ (by decide),
          hits_append, List.append_nil,
          hits_obj keyName_ip _ (here.obj_wf blacklist), List.head?_append,
          show (deviceObj blacklist d r).members =
            deviceFields blacklist d r from rfl, first]
        rfl
      · rw [if_neg own, deviceMember, hitsIn_bare _ _ _ own,
          hits_obj (plainName_mac mac).name _ (here.obj_wf blacklist),
          show (deviceObj blacklist d r).members =
            deviceFields blacklist d r from rfl,
          here.hits_fields blacklist mac _ own]
        by_cases quotes : Quotes mac.text d.hostname
        · have line := @oneLine_closing (fieldsBehindName blacklist d r)
            (closing (later.map (deviceMember blacklist)) [])
            (fun m member => here.oneLine_fields blacklist m
              (mem_deviceFields member)) laterLine
          have behind := hits_closing keyName_ip (colon ipBehind)
            (fun m member => here.fields_wf blacklist m
              (mem_deviceFields member))
            (closing (later.map (deviceMember blacklist)) [])
          have text : closing (fieldsBehindName blacklist d r)
              (closing (later.map (deviceMember blacklist)) []) =
              (more (fieldsBehindName blacklist d r) ++ ['}']) ++
                closing (later.map (deviceMember blacklist)) [] := by
            simp [closing]
          rw [if_pos quotes, if_pos quotes, lineOf_self line]
          simp only [List.cons_append, List.head?_cons, Option.map_some,
            Option.bind_some]
          rw [matchKey_behind mac line (apart_closing _ _), text, hits_append,
            List.append_nil, behind, here.no_ip_behindName blacklist,
            List.nil_append, hits_ip_closing blacklist others]
        · rw [if_neg quotes, if_neg quotes]
          exact induction others

end

theorem liveIp_writeJson {t : Table} (shown : AllShown t.active) :
    TcManager.liveIp (some (t.writeJson blacklist)) mac.text =
      readIp mac.text t.active := by
  have wf : (t.fileObj blacklist).Wf :=
    ⟨wf_members blacklist shown, rfl⟩
  have line : '\n' ∉ (t.fileObj blacklist).render :=
    oneLine_obj (oneLine_members blacklist shown) (by simp [Table.fileObj])
  have nonempty : (t.fileObj blacklist).render ≠ [] := by
    simp [Obj.render]
  have found := read_members blacklist mac shown
  rw [TcManager.liveIp, t.writeJson_eq, records_line line nonempty]
  simp only [List.findSome?_cons]
  rw [show '"' :: mac.text ++ ['"'] = quote mac.text from rfl,
    tailFrom_eq_hits _ line, hits_obj (plainName_mac mac).name _ wf,
    show (t.fileObj blacklist).members =
      t.active.map (deviceMember blacklist) from rfl]
  have parse : (matchKey "ip".toList fun value =>
      (quoted isNumberChar value).filter (· ≠ [])) =
      matchKey "ip".toList ipBehind := rfl
  simp only [parse]
  cases answer : ((hitsIn mac.text some (t.active.map (deviceMember blacklist))
      []).head?.map fun rest => quote mac.text ++ rest).bind
        (matchKey "ip".toList ipBehind) with
  | none =>
      rw [answer] at found
      exact found
  | some ip =>
      rw [answer] at found
      exact found

end Answer

/-- The address of the device with a hardware address, nothing if there is no
such device. -/
def ownIp (mac : Text) (slots : List (Device × Rest)) : Option Text :=
  (slots.find? fun slot => slot.1.mac = mac).map fun slot => slot.1.ip

/-- Where a name quotes the hardware address and stands in front of its record,
the record right behind that name has the address that is looked for. -/
def NotMisled (mac : Text) (slots : List (Device × Rest)) : Prop :=
  ∀ before slot after, slots = before ++ slot :: after →
    (∀ other ∈ before, other.1.mac ≠ mac ∧ ¬Quotes mac other.1.hostname) →
    slot.1.mac ≠ mac → Quotes mac slot.1.hostname →
    (after.head?.map fun next => next.1.ip) = ownIp mac after

theorem notMisled_of_no_quotes {mac : Text} {slots : List (Device × Rest)}
    (free : ∀ slot ∈ slots, ¬Quotes mac slot.1.hostname) :
    NotMisled mac slots := by
  intro before slot after split _ _ quotes
  subst split
  exact absurd quotes (free slot (by simp))

theorem notMisled_cons {mac : Text} {slot : Device × Rest}
    {later : List (Device × Rest)} (other : slot.1.mac ≠ mac)
    (silent : ¬Quotes mac slot.1.hostname) :
    NotMisled mac (slot :: later) ↔ NotMisled mac later := by
  constructor
  · intro right before first after split clean
    apply right (slot :: before) first after (by rw [split]; rfl)
    intro earlier member
    rcases List.mem_cons.mp member with rfl | member
    · exact ⟨other, silent⟩
    · exact clean earlier member
  · intro right before first after split clean foreign quotes
    cases before with
    | nil =>
        simp only [List.nil_append, List.cons.injEq] at split
        rw [← split.1] at quotes
        exact absurd quotes silent
    | cons earlier before =>
        simp only [List.cons_append, List.cons.injEq] at split
        exact right before first after split.2
          (fun e member => clean e (by simp [member])) foreign quotes

theorem readIp_eq_iff {mac : Text} {slots : List (Device × Rest)}
    (addressed : ∀ slot ∈ slots, slot.1.ip ≠ []) :
    readIp mac slots = (ownIp mac slots).getD [] ↔ NotMisled mac slots := by
  have getD_inj {left right : Option Text} (leftSolid : left ≠ some [])
      (rightSolid : right ≠ some []) :
      left.getD [] = right.getD [] ↔ left = right := by
    cases left <;> cases right <;> simp_all [eq_comm]
  induction slots with
  | nil =>
      refine iff_of_true rfl (notMisled_of_no_quotes (by simp))
  | cons slot later induction =>
      have others : ∀ next ∈ later, next.1.ip ≠ [] := fun next member =>
        addressed next (by simp [member])
      rw [readIp]
      by_cases own : slot.1.mac = mac
      · refine iff_of_true (by simp [ownIp, own]) ?_
        intro before first after split clean foreign _
        cases before with
        | nil =>
            simp only [List.nil_append, List.cons.injEq] at split
            exact absurd (split.1 ▸ own) foreign
        | cons earlier before =>
            simp only [List.cons_append, List.cons.injEq] at split
            exact absurd (split.1 ▸ own) (clean earlier (by simp)).1
      · have skipped : ownIp mac (slot :: later) = ownIp mac later := by
          simp [ownIp, own]
        rw [if_neg own, skipped]
        by_cases quotes : Quotes mac slot.1.hostname
        · rw [if_pos quotes, getD_inj]
          · constructor
            · intro same before first after split clean foreign quotesFirst
              cases before with
              | nil =>
                  simp only [List.nil_append, List.cons.injEq] at split
                  rw [← split.2]
                  exact same
              | cons earlier before =>
                  simp only [List.cons_append, List.cons.injEq] at split
                  exact absurd (split.1 ▸ quotes) (clean earlier (by simp)).2
            · intro right
              exact right [] slot later rfl (by simp) own quotes
          · cases later with
            | nil => simp
            | cons next later => simpa using others next (by simp)
          · intro found
            simp only [ownIp, Option.map_eq_some_iff] at found
            obtain ⟨next, hit, empty⟩ := found
            exact others next (List.mem_of_find?_eq_some hit) empty
        · rw [if_neg quotes, notMisled_cons own quotes]
          exact induction others

/-- The scripts read the address of the device itself if and only if no name
misleads them. -/
theorem own_ip_iff (t : Table) (shown : AllShown t.active)
    (blacklist : List Text) (mac : DeviceNames.MacArg) :
    TcManager.liveIp (some (t.writeJson blacklist)) mac.text =
        (ownIp mac.text t.active).getD [] ↔
      NotMisled mac.text t.active := by
  rw [liveIp_writeJson blacklist mac shown]
  apply readIp_eq_iff
  intro slot member
  exact Ipv4.text_ne_nil ⟨slot.1.ip, (shown slot member).ip⟩

def guest (mac : Mac) (ip : Ipv4) (name : String) : Device :=
  ⟨mac.text, ip.text, name.toList, .dhcp, 100, 100, 0, true⟩

def tableOf (devs : List Device) : Table :=
  ⟨{ emptyDaemon with devs := devs },
    devs.map fun _ => ⟨"wlan2".toList, 0, 0, 0⟩⟩

def laptop : Mac :=
  ⟨"aa:bb:cc:dd:ee:03".toList, by decide⟩

def tabletArg : DeviceNames.MacArg :=
  ⟨tablet.text, by decide⟩

/-- A test for the devices of such a table. -/
def isShown (d : Device) : Bool :=
  JsonSetBatch.isMacLine d.mac && isDottedQuad d.ip &&
    decide (d.hostname.length ≤ 63) && d.hostnameSrc.text.all isWordChar

theorem shown_tableOf {devs : List Device} (each : devs.all isShown = true) :
    AllShown (tableOf devs).active := by
  intro slot member
  have zipped := (List.mem_filter.mp member).1
  obtain ⟨listed, hotspot⟩ := List.of_mem_zip zipped
  obtain ⟨_, _, same⟩ := List.mem_map.mp hotspot
  have passed := List.all_eq_true.mp each slot.1 listed
  simp only [isShown, Bool.and_eq_true, decide_eq_true_eq] at passed
  obtain ⟨⟨⟨mac, ip⟩, name⟩, src⟩ := passed
  rw [← same]
  exact ⟨mac, ip, name, src, by decide, by decide⟩

/-- A name with a quote in it, and one with an address that nobody asks for. -/
def quietTable : Table :=
  tableOf [guest laptop spareIp "Pixel \"7\"",
    guest phone phoneIp "aa:bb:cc:dd:ee:03", guest tablet tabletIp "Tab"]

theorem own_ip_of_tablet :
    TcManager.liveIp (some (quietTable.writeJson [])) tablet.text =
      tabletIp.text :=
  (own_ip_iff quietTable (shown_tableOf (by decide)) [] tabletArg).mpr
    (notMisled_of_no_quotes (by decide))

/-- The phone is named like the tablet. -/
def misleadingTable : Table :=
  tableOf [guest phone phoneIp "aa:bb:cc:dd:ee:02",
    guest laptop spareIp "Laptop", guest tablet tabletIp "Tab"]

theorem tablet_gets_ip_of_laptop :
    AllShown misleadingTable.active ∧
      ownIp tablet.text misleadingTable.active = some tabletIp.text ∧
      TcManager.liveIp (some (misleadingTable.writeJson [])) tablet.text =
        spareIp.text := by
  have shown : AllShown misleadingTable.active := shown_tableOf (by decide)
  refine ⟨shown, by decide, ?_⟩
  rw [show tablet.text = tabletArg.text from rfl,
    liveIp_writeJson [] tabletArg shown]
  decide

end Hnc.OwnIp
