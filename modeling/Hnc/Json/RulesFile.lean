import Hnc.Json.HncJsonEdit
import Hnc.Json.SafeWriterEdit

/-!
# The devices of `rules.json`

The value of `devices` as a list of entries, one object for each address.  The
two writers act on it in the same way but for the place of what is new: the
programs of `json_set.sh` insert in front, those of `hnc_json` append on a line
of its own.
-/

namespace Hnc

open Posix JsonText

/-- The entry of an address below `devices`. -/
structure Entry where
  lead : Text
  mac : Text
  device : Obj
  trail : Text
deriving DecidableEq

namespace Entry

def member (e : Entry) : Member :=
  ⟨e.lead, e.mac, [], [' '], e.device.render, e.trail⟩

structure Wf (e : Entry) : Prop where
  lead : blank e.lead = true
  mac : plainKey e.mac = true
  device : e.device.Wf
  trail : blank e.trail = true

@[simp] theorem member_key (e : Entry) : e.member.key = e.mac :=
  rfl

theorem Wf.member {e : Entry} (wf : e.Wf) : e.member.Wf :=
  ⟨wf.lead, wf.mac, rfl, rfl, wf.device.shaped.val_render, wf.trail⟩

end Entry

structure Devices where
  entries : List Entry
  hollow : Text
deriving DecidableEq

/-- An object with one field, as both writers make it. -/
def oneField (key val : Text) : Obj :=
  ⟨[written [] key val], []⟩

namespace Devices

def obj (d : Devices) : Obj :=
  ⟨d.entries.map Entry.member, d.hollow⟩

structure Wf (d : Devices) : Prop where
  entries : ∀ e ∈ d.entries, e.Wf
  hollow : blank d.hollow = true
  distinct : (d.entries.map Entry.mac).Nodup

def find (d : Devices) (mac : Text) : Option Entry :=
  d.entries.find? fun e => e.mac = mac

/-- The stored value of a field. -/
def get (d : Devices) (mac key : Text) : Option Text :=
  (d.find mac).bind fun e => e.device.get key

/-- Change the object of an address. -/
def change (d : Devices) (mac : Text) (f : Obj → Obj) : Devices :=
  ⟨d.entries.map fun e =>
    if e.mac = mac then { e with device := f e.device } else e, d.hollow⟩

/-- A new entry in front of the others. -/
def pushFront (d : Devices) (mac : Text) (device : Obj) : Devices :=
  ⟨⟨[], mac, device, if d.entries = [] then d.hollow else []⟩ :: d.entries,
    d.hollow⟩

/-- A new entry on a line of its own behind the others. -/
def pushBack (d : Devices) (mac : Text) (device : Obj) : Devices :=
  ⟨d.entries ++ [⟨if d.entries = [] then d.hollow ++ indent else indent, mac,
    device, []⟩], d.hollow⟩

/-- What `json_set.sh device` does. -/
def putFront (d : Devices) (mac key val : Text) : Devices :=
  match d.find mac with
  | some _ => d.change mac fun device => SafeWriter.setFront device key val
  | none => d.pushFront mac (oneField key val)

/-- What one field of `hnc_json set-device-batch` does. -/
def putBack (d : Devices) (mac key val : Text) : Devices :=
  match d.find mac with
  | some _ => d.change mac fun device => device.setBack key val
  | none => d.pushBack mac (oneField key val)

theorem Wf.obj {d : Devices} (wf : d.Wf) : d.obj.Wf := by
  refine ⟨?_, wf.hollow⟩
  intro m member
  obtain ⟨e, listed, rfl⟩ := List.mem_map.mp member
  exact (wf.entries e listed).member

theorem findMember_none {d : Devices} {mac : Text} (absent : d.find mac = none) :
    findMember mac d.obj.members = none := by
  rw [findMember_eq_none]
  intro m member
  obtain ⟨e, listed, rfl⟩ := List.mem_map.mp member
  have other := List.find?_eq_none.mp absent e listed
  simpa using other

variable {e : Entry}

theorem findMember_some {d : Devices} {mac : Text} (found : d.find mac = some e) :
    ∃ others, findMember mac d.obj.members = some (e.member, others) := by
  obtain ⟨entries, hollow⟩ := d
  simp only [find, obj] at found ⊢
  induction entries with
  | nil => cases found
  | cons first rest induction =>
      rw [List.find?_cons] at found
      split at found
      · rename_i same
        cases found
        refine ⟨rest.map Entry.member, ?_⟩
        have named : e.member.key = mac := by simpa using same
        rw [List.map_cons, findMember, if_pos named]
      · rename_i other
        have named : ¬first.member.key = mac := by simpa using other
        obtain ⟨others, hit⟩ := induction found
        exact ⟨others, by rw [List.map_cons, findMember, if_neg named, hit]⟩

theorem mac_of_find {d : Devices} {mac : Text} (found : d.find mac = some e) :
    e ∈ d.entries ∧ e.mac = mac := by
  have named := List.find?_some found
  exact ⟨List.mem_of_find?_eq_some found, by simpa using named⟩

theorem find_of_mem {d : Devices} (wf : d.Wf) (member : e ∈ d.entries) :
    d.find e.mac = some e := by
  obtain ⟨entries, hollow⟩ := d
  have distinct := wf.distinct
  simp only [find] at distinct member ⊢
  induction entries with
  | nil => cases member
  | cons first rest induction =>
      simp only [List.map_cons, List.nodup_cons] at distinct
      rw [List.find?_cons]
      rcases List.mem_cons.mp member with rfl | later
      · simp
      · have other : first.mac ≠ e.mac := by
          intro same
          exact distinct.1 (same ▸ List.mem_map_of_mem later)
        have smaller : (Devices.mk rest hollow).Wf :=
          ⟨fun e listed => wf.entries e (by simp [listed]), wf.hollow, distinct.2⟩
        simp only [other]
        exact induction smaller later distinct.2

theorem get_of_mem {d : Devices} (wf : d.Wf) (member : e ∈ d.entries) (key : Text) :
    d.get e.mac key = e.device.get key := by
  rw [get, find_of_mem wf member]
  rfl

theorem map_of_other {entries : List Entry} {mac : Text}
    (absent : mac ∉ entries.map Entry.mac) (f : Obj → Obj) :
    (entries.map fun e =>
      if e.mac = mac then { e with device := f e.device } else e) = entries := by
  conv_rhs => rw [← List.map_id entries]
  apply List.map_congr_left
  intro e listed
  have other : e.mac ≠ mac := by
    rintro rfl
    exact absent (List.mem_map_of_mem listed)
  simp [other]

theorem setValue_change {d : Devices} (wf : d.Wf) {mac : Text}
    (found : d.find mac = some e) (f : Obj → Obj) :
    d.obj.setValue mac (f e.device).render = (d.change mac f).obj := by
  obtain ⟨entries, hollow⟩ := d
  have distinct := wf.distinct
  simp only [find, Devices.obj, Obj.setValue, Obj.modify, change, Obj.mk.injEq,
    and_true] at found distinct ⊢
  induction entries with
  | nil => cases found
  | cons first rest induction =>
      rw [List.find?_cons] at found
      simp only [List.map_cons, List.nodup_cons] at distinct
      split at found
      · rename_i same
        cases found
        have named : e.mac = mac := by simpa using same
        have key : e.member.key = mac := named
        rw [List.map_cons, replaceFirst, if_pos key, List.map_cons, if_pos named,
          map_of_other (named ▸ distinct.1)]
        rfl
      · rename_i other
        have named : ¬first.mac = mac := by simpa using other
        have key : ¬first.member.key = mac := named
        have smaller : (Devices.mk rest hollow).Wf :=
          ⟨fun e listed => wf.entries e (by simp [listed]), wf.hollow, distinct.2⟩
        rw [List.map_cons, replaceFirst, if_neg key, List.map_cons, if_neg named,
          List.map_cons, induction smaller found distinct.2]

theorem prepend_pushFront (d : Devices) (mac : Text) (device : Obj) :
    d.obj.prepend mac device.render = (d.pushFront mac device).obj := by
  obtain ⟨entries, hollow⟩ := d
  cases entries with
  | nil => rfl
  | cons first rest => rfl

theorem append_pushBack (d : Devices) (mac : Text) (device : Obj) :
    d.obj.append mac device.render = (d.pushBack mac device).obj := by
  obtain ⟨entries, hollow⟩ := d
  cases entries with
  | nil => rfl
  | cons first rest =>
      simp [Devices.obj, Obj.append, pushBack, Entry.member, written]

theorem oneField_render (key val : Text) :
    (oneField key val).render = '{' :: SafeWriter.entry key val ++ ['}'] := by
  simp [oneField, Obj.render, Obj.inner, Member.render, Member.fromKey,
    Member.fromValue, written, more, SafeWriter.entry, quote]

theorem updateDevice_file (f : Frame) {d : Devices} (wf : d.Wf)
    (mac key val : Text) :
    SafeWriter.updateDevice mac key val (f.file d.obj) =
      .ok (f.file (d.putFront mac key val).obj) := by
  unfold putFront
  cases found : d.find mac with
  | none =>
      rw [SafeWriter.updateDevice_new f wf.obj (findMember_none found),
        ← oneField_render, prepend_pushFront]
  | some e =>
      obtain ⟨others, hit⟩ := findMember_some found
      have device := (wf.entries e (mac_of_find found).1).device
      rw [SafeWriter.updateDevice_old f wf.obj hit rfl device]
      rw [← setValue_change wf found]

theorem setDeviceInner_file (f : Frame) {d : Devices} (wf : d.Wf) {mac key : Text}
    (plainMac : plainKey mac = true) (plain : plainKey key = true) (lit : Text) :
    HncJson.setDeviceInner mac key lit (f.file d.obj) =
      .ok (f.file (d.putBack mac key lit).obj) := by
  unfold putBack
  cases found : d.find mac with
  | none =>
      have render : '{' :: HncJson.newMember key lit ++ ['}'] =
          (oneField key lit).render := by
        rw [HncJson.newMember_plain plain, oneField_render]
        simp [SafeWriter.entry, quote]
      have absent := findMember_none found
      rw [← escapeName_plain plainMac] at absent
      rw [HncJson.setDeviceInner_new f wf.obj.laid absent,
        escapeName_plain plainMac, render, append_pushBack]
  | some e =>
      obtain ⟨others, hit⟩ := findMember_some found
      have device := (wf.entries e (mac_of_find found).1).device
      rw [← escapeName_plain plainMac] at hit
      rw [HncJson.setDeviceInner_old f wf.obj.laid hit rfl device.laid,
        escapeName_plain plainMac, escapeName_plain plain]
      rw [← setValue_change wf found]

/-- The strict reader reads the stored value. -/
theorem getDeviceInner_file (f : Frame) {d : Devices} (wf : d.Wf)
    (mac key : Text) :
    HncJson.getDeviceInner mac key (f.file d.obj) =
      match d.get mac key with
      | none => .error 3
      | some val => .ok (val ++ ['\n']) := by
  rw [HncJson.getDeviceInner_devices f wf.obj.laid,
    findMember_escapeName wf.obj.members, get]
  cases found : d.find mac with
  | none =>
      rw [findMember_none found]
      rfl
  | some e =>
      obtain ⟨others, hit⟩ := findMember_some found
      have device := (wf.entries e (mac_of_find found).1).device
      rw [hit]
      simp only [Option.bind_some, Obj.get]
      rw [HncJson.memberOf_obj device.laid
        (show e.member.val = e.device.render from rfl),
        findMember_escapeName device.members]
      cases field : findMember key e.device.members with
      | none => rfl
      | some foundField =>
          have shape := (device.mem_of_findMember field).val
          simp only [Option.map_some, HncJson.foundAt, HncJson.upTo_fromValue,
            HncJson.trimWs_val shape]

theorem wf_oneField {key val : Text} (plain : plainKey key = true)
    (shape : Val val) : (oneField key val).Wf := by
  refine ⟨?_, rfl⟩
  intro m member
  rw [List.mem_singleton.mp member]
  exact wf_written rfl plain shape

theorem map_mac_change (d : Devices) (mac : Text) (f : Obj → Obj) :
    (d.change mac f).entries.map Entry.mac = d.entries.map Entry.mac := by
  rw [change, List.map_map]
  apply List.map_congr_left
  intro e _
  simp only [Function.comp]
  split <;> rfl

theorem wf_change {d : Devices} (wf : d.Wf) {mac : Text} {f : Obj → Obj}
    (kept : ∀ device : Obj, device.Wf → (f device).Wf) : (d.change mac f).Wf := by
  refine ⟨?_, wf.hollow, by rw [map_mac_change]; exact wf.distinct⟩
  intro e member
  obtain ⟨old, listed, rfl⟩ := List.mem_map.mp member
  have oldWf := wf.entries old listed
  split
  · exact ⟨oldWf.lead, oldWf.mac, kept _ oldWf.device, oldWf.trail⟩
  · exact oldWf

theorem not_mem_of_find {d : Devices} {mac : Text} (absent : d.find mac = none) :
    mac ∉ d.entries.map Entry.mac := by
  intro member
  obtain ⟨e, listed, same⟩ := List.mem_map.mp member
  have other := List.find?_eq_none.mp absent e listed
  simp [same] at other

section

variable {d : Devices} (wf : d.Wf) {mac : Text} {device : Obj}
  (plainMac : plainKey mac = true) (deviceWf : device.Wf)
  (absent : d.find mac = none)
include wf plainMac deviceWf absent

theorem wf_pushFront : (d.pushFront mac device).Wf := by
  refine ⟨?_, wf.hollow, ?_⟩
  · intro e member
    rcases List.mem_cons.mp member with rfl | old
    · refine ⟨rfl, plainMac, deviceWf, ?_⟩
      split
      · exact wf.hollow
      · rfl
    · exact wf.entries e old
  · simp only [pushFront, List.map_cons, List.nodup_cons]
    exact ⟨not_mem_of_find absent, wf.distinct⟩

theorem wf_pushBack : (d.pushBack mac device).Wf := by
  refine ⟨?_, wf.hollow, ?_⟩
  · intro e member
    rcases List.mem_append.mp member with old | new
    · exact wf.entries e old
    · rw [List.mem_singleton.mp new]
      refine ⟨?_, plainMac, deviceWf, rfl⟩
      split
      · exact blank_append.mpr ⟨wf.hollow, rfl⟩
      · rfl
  · simp only [pushBack, List.map_append, List.map_cons]
    rw [List.nodup_append]
    refine ⟨wf.distinct, by simp, ?_⟩
    intro left old right new same
    rw [List.mem_singleton.mp new] at same
    exact not_mem_of_find absent (same ▸ old)

end

theorem find_change (d : Devices) (mac : Text) (f : Obj → Obj) (other : Text) :
    (d.change mac f).find other = (d.find other).map fun e =>
      if e.mac = mac then { e with device := f e.device } else e := by
  rw [change, find, List.find?_map]
  congr 2
  funext e
  simp only [Function.comp]
  split <;> rfl

theorem get_change (d : Devices) (mac : Text) (f : Obj → Obj) (other key : Text) :
    (d.change mac f).get other key =
      if other = mac then (d.find mac).bind fun e => (f e.device).get key
      else d.get other key := by
  rw [get, find_change]
  cases found : d.find other with
  | none =>
      by_cases same : other = mac
      · subst same
        simp [found]
      · simp [same, get, found]
  | some e =>
      have named := (mac_of_find found).2
      by_cases same : other = mac
      · subst same
        simp [found, named]
      · simp [same, get, found, named]

theorem find_pushFront (d : Devices) (mac : Text) (device : Obj) (other : Text) :
    (d.pushFront mac device).find other =
      if other = mac then
        some ⟨[], mac, device, if d.entries = [] then d.hollow else []⟩
      else d.find other := by
  rw [find, pushFront]
  by_cases same : other = mac
  · simp [same]
  · simp [same, Ne.symm same, find]

theorem find_pushBack {d : Devices} {mac : Text} (absent : d.find mac = none)
    (device : Obj) (other : Text) :
    (d.pushBack mac device).find other =
      if other = mac then
        some ⟨if d.entries = [] then d.hollow ++ indent else indent, mac, device, []⟩
      else d.find other := by
  rw [find, pushBack]
  rw [find] at absent
  by_cases same : other = mac
  · subst same
    simp [absent]
  · simp [same, Ne.symm same, find]

theorem get_putFront (d : Devices) (mac key val other field : Text) :
    (d.putFront mac key val).get other field =
      if other = mac ∧ field = key then some val else d.get other field := by
  unfold putFront
  cases found : d.find mac with
  | none =>
      rw [get, find_pushFront]
      by_cases same : other = mac
      · subst same
        simp [get, found, oneField, Obj.get, findMember, written, eq_comm]
      · simp [same, get]
  | some e =>
      rw [get_change]
      by_cases same : other = mac
      · subst same
        simp [SafeWriter.get_setFront, get, found]
      · simp [same]

theorem get_putBack (d : Devices) (mac key val other field : Text) :
    (d.putBack mac key val).get other field =
      if other = mac ∧ field = key then some val else d.get other field := by
  unfold putBack
  cases found : d.find mac with
  | none =>
      rw [get, find_pushBack found]
      by_cases same : other = mac
      · subst same
        simp [get, found, oneField, Obj.get, findMember, written, eq_comm]
      · simp [same, get]
  | some e =>
      rw [get_change]
      by_cases same : other = mac
      · subst same
        simp [Obj.get_setBack, get, found]
      · simp [same]

section Put

variable {d : Devices} {mac key val : Text}

theorem wf_putFront (wf : d.Wf) (plainMac : plainKey mac = true)
    (plain : plainKey key = true) (shape : Val val) :
    (d.putFront mac key val).Wf := by
  unfold putFront
  split
  · exact wf_change wf fun device deviceWf =>
      SafeWriter.wf_setFront deviceWf plain shape
  · rename_i absent
    exact wf_pushFront wf plainMac (wf_oneField plain shape) absent

theorem wf_putBack (wf : d.Wf) (plainMac : plainKey mac = true)
    (plain : plainKey key = true) (shape : Val val) :
    (d.putBack mac key val).Wf := by
  unfold putBack
  split
  · exact wf_change wf fun device deviceWf => deviceWf.setBack plain shape
  · rename_i absent
    exact wf_pushBack wf plainMac (wf_oneField plain shape) absent

theorem mem_change {g : Obj → Obj} (member : e ∈ (d.change mac g).entries) :
    ∃ old ∈ d.entries, (old.mac ≠ mac ∧ e = old) ∨
      (old.mac = mac ∧ e = { old with device := g old.device }) := by
  obtain ⟨old, listed, rfl⟩ := List.mem_map.mp member
  refine ⟨old, listed, ?_⟩
  by_cases same : old.mac = mac
  · exact .inr ⟨same, by rw [if_pos same]⟩
  · exact .inl ⟨same, by rw [if_neg same]⟩

/-- What holds of every entry still holds after a write of `json_set.sh`. -/
theorem forall_putFront {P : Entry → Prop} (all : ∀ e ∈ d.entries, P e)
    (changed : ∀ e ∈ d.entries, e.mac = mac →
      P { e with device := SafeWriter.setFront e.device key val })
    (new : d.find mac = none → ∀ trail, P ⟨[], mac, oneField key val, trail⟩) :
    ∀ e ∈ (d.putFront mac key val).entries, P e := by
  intro e member
  unfold putFront at member
  split at member
  · obtain ⟨old, listed, ⟨_, rfl⟩ | ⟨same, rfl⟩⟩ := mem_change member
    · exact all e listed
    · exact changed old listed same
  · rename_i absent
    rcases List.mem_cons.mp member with rfl | old
    · exact new absent _
    · exact all e old

/-- What holds of every entry still holds after a write of `hnc_json`. -/
theorem forall_putBack {P : Entry → Prop} (all : ∀ e ∈ d.entries, P e)
    (changed : ∀ e ∈ d.entries, e.mac = mac →
      P { e with device := e.device.setBack key val })
    (new : d.find mac = none → ∀ lead, P ⟨lead, mac, oneField key val, []⟩) :
    ∀ e ∈ (d.putBack mac key val).entries, P e := by
  intro e member
  unfold putBack at member
  split at member
  · obtain ⟨old, listed, ⟨_, rfl⟩ | ⟨same, rfl⟩⟩ := mem_change member
    · exact all e listed
    · exact changed old listed same
  · rename_i absent
    rcases List.mem_append.mp member with old | isNew
    · exact all e old
    · rw [List.mem_singleton.mp isNew]
      exact new absent _

end Put

end Devices

end Hnc
