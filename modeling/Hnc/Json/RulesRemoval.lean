import Hnc.Json.RulesFile

/-!
# Removing a device from `rules.json`
-/

namespace Hnc.Devices

open Posix JsonText

/-- The entries without one of them; white space around it stays. -/
def cutEntry (before : List Entry) (e : Entry) (after : List Entry)
    (hollow : Text) : Devices :=
  match after with
  | next :: rest =>
      ⟨before ++ { next with lead := e.lead ++ next.lead } :: rest, hollow⟩
  | [] =>
      match before.getLast? with
      | some last =>
          ⟨before.dropLast ++ [{ last with trail := last.trail ++ e.trail }],
            hollow⟩
      | none => ⟨[], e.lead ++ e.trail⟩

/-- What `json_set.sh device_remove` does. -/
def remove (d : Devices) (mac : Text) : Devices :=
  match d.entries.dropWhile fun e => e.mac ≠ mac with
  | [] => d
  | e :: after =>
      cutEntry (d.entries.takeWhile fun e => e.mac ≠ mac) e after d.hollow

theorem remove_cases (d : Devices) (mac : Text) :
    (d.find mac = none ∧ d.remove mac = d) ∨
      ∃ before e after, d.entries = before ++ e :: after ∧ e.mac = mac ∧
        (∀ other ∈ before, other.mac ≠ mac) ∧
        d.remove mac = cutEntry before e after d.hollow := by
  have split : d.entries = (d.entries.takeWhile fun e => e.mac ≠ mac) ++
      d.entries.dropWhile fun e => e.mac ≠ mac :=
    List.takeWhile_append_dropWhile.symm
  cases rest : d.entries.dropWhile fun e => e.mac ≠ mac with
  | nil =>
      left
      refine ⟨?_, by rw [remove, rest]⟩
      rw [find, List.find?_eq_none]
      intro e member
      have other := List.dropWhile_eq_nil_iff.mp rest e member
      simpa using other
  | cons e after =>
      right
      have first : e.mac = mac := by
        have head := List.head?_dropWhile_not (fun e : Entry => e.mac ≠ mac)
          d.entries
        rw [rest] at head
        simpa using head
      refine ⟨_, e, after, by rw [← rest]; exact split, first, ?_,
        by rw [remove, rest]⟩
      intro other member
      simpa using List.mem_takeWhile_imp member

section Cut

variable {before after : List Entry} {e : Entry} {hollow : Text}

theorem obj_cutEntry :
    (cutEntry before e after hollow).obj =
      cut (before.map Entry.member) e.member (after.map Entry.member)
        hollow := by
  cases after with
  | cons next rest => simp [cutEntry, cut, obj, Entry.member]
  | nil =>
      rcases List.eq_nil_or_concat before with rfl | ⟨init, last, rfl⟩
      · rfl
      · simp [cutEntry, cut, obj, Entry.member]

theorem mem_cutEntry {found : Entry}
    (member : found ∈ (cutEntry before e after hollow).entries) :
    ∃ old ∈ before ++ after, found.mac = old.mac ∧
      found.device = old.device ∧
      (found.lead = old.lead ∨ found.lead = e.lead ++ old.lead) ∧
      (found.trail = old.trail ∨ found.trail = old.trail ++ e.trail) := by
  cases after with
  | cons next rest =>
      simp only [cutEntry, List.mem_append, List.mem_cons] at member
      rcases member with old | rfl | old
      · exact ⟨found, by simp [old], rfl, rfl, .inl rfl, .inl rfl⟩
      · exact ⟨next, by simp, rfl, rfl, .inr rfl, .inl rfl⟩
      · exact ⟨found, by simp [old], rfl, rfl, .inl rfl, .inl rfl⟩
  | nil =>
      rcases List.eq_nil_or_concat before with rfl | ⟨init, last, rfl⟩
      · simp [cutEntry] at member
      · simp only [cutEntry, List.concat_eq_append, List.getLast?_concat,
          List.dropLast_concat, List.mem_append, List.mem_singleton] at member
        rcases member with old | rfl
        · exact ⟨found, by simp [old], rfl, rfl, .inl rfl, .inl rfl⟩
        · exact ⟨last, by simp, rfl, rfl, .inl rfl, .inr rfl⟩

/-- Addresses and objects of the other entries stay as they are. -/
theorem map_content_cutEntry :
    ((cutEntry before e after hollow).entries.map fun e => (e.mac, e.device)) =
      (before ++ after).map fun e => (e.mac, e.device) := by
  cases after with
  | cons next rest => simp [cutEntry]
  | nil =>
      rcases List.eq_nil_or_concat before with rfl | ⟨init, last, rfl⟩
      · rfl
      · simp [cutEntry]

end Cut

theorem obj_remove (d : Devices) (mac : Text) :
    (d.remove mac).obj = d.obj.remove mac := by
  rcases d.remove_cases mac with ⟨absent, same⟩ |
    ⟨before, e, after, split, named, others, same⟩
  · rw [same, Obj.remove, findMember_none absent]
  · have members : d.obj.members = before.map Entry.member ++
        e.member :: after.map Entry.member := by
      simp [obj, split]
    have hit : findMember mac d.obj.members =
        some (e.member, after.map Entry.member) := by
      rw [members]
      have key : e.member.key = mac := named
      refine findMember_split ?_ key _
      intro m member
      obtain ⟨other, inside, rfl⟩ := List.mem_map.mp member
      exact others other inside
    rw [same, obj_cutEntry, Obj.remove, hit, members]
    simp [obj]

theorem removeDevice_file (f : Frame) {d : Devices} (wf : d.Wf) (mac : Text) :
    SafeWriter.removeDevice mac (f.file d.obj) =
      .ok (f.file (d.remove mac).obj) := by
  rw [SafeWriter.removeDevice_obj f wf.obj, obj_remove]
  intro m member
  obtain ⟨e, _, rfl⟩ := List.mem_map.mp member
  exact SafeWriter.isBare_obj e.device

section Remove

variable {d : Devices} {mac : Text}

theorem mem_remove {found : Entry} (member : found ∈ (d.remove mac).entries) :
    ∃ old ∈ d.entries, found.mac = old.mac ∧ found.device = old.device := by
  rcases d.remove_cases mac with ⟨_, same⟩ | ⟨before, e, after, split, _, _, same⟩
  · rw [same] at member
    exact ⟨found, member, rfl, rfl⟩
  · rw [same] at member
    obtain ⟨old, listed, named, device, _⟩ := mem_cutEntry member
    refine ⟨old, ?_, named, device⟩
    rw [split]
    rcases List.mem_append.mp listed with left | right
    · simp [left]
    · simp [right]

variable (wf : d.Wf)

include wf

theorem wf_remove : (d.remove mac).Wf := by
  rcases d.remove_cases mac with ⟨_, same⟩ | ⟨before, e, after, split, _, _, same⟩
  · rw [same]
    exact wf
  · have removed := wf.entries e (by simp [split])
    rw [same]
    refine ⟨?_, ?_, ?_⟩
    · intro found member
      obtain ⟨old, listed, named, device, lead, trail⟩ := mem_cutEntry member
      have oldWf : old.Wf := wf.entries old (by
        rw [split]
        rcases List.mem_append.mp listed with left | right
        · simp [left]
        · simp [right])
      refine ⟨?_, named ▸ oldWf.mac, device ▸ oldWf.device, ?_⟩
      · rcases lead with kept | joined
        · exact kept ▸ oldWf.lead
        · rw [joined, blank_append]
          exact ⟨removed.lead, oldWf.lead⟩
      · rcases trail with kept | joined
        · exact kept ▸ oldWf.trail
        · rw [joined, blank_append]
          exact ⟨oldWf.trail, removed.trail⟩
    · cases after with
      | cons next rest => exact wf.hollow
      | nil =>
          rcases List.eq_nil_or_concat before with rfl | ⟨init, last, rfl⟩
          · exact blank_append.mpr ⟨removed.lead, removed.trail⟩
          · simp only [cutEntry, List.concat_eq_append, List.getLast?_concat]
            exact wf.hollow
    · have macs := congrArg (List.map Prod.fst)
        (@map_content_cutEntry before after e d.hollow)
      simp only [List.map_map] at macs
      have distinct := wf.distinct
      rw [split] at distinct
      have shorter : ((before ++ after).map Entry.mac).Sublist
          ((before ++ e :: after).map Entry.mac) :=
        ((List.sublist_cons_self e after).append_left before).map Entry.mac
      have kept := List.Nodup.sublist shorter distinct
      exact macs ▸ kept

/-- After a removal the other devices hold what they held. -/
theorem get_remove (other key : Text) :
    (d.remove mac).get other key =
      if other = mac then none else d.get other key := by
  have content : ∀ list : Devices, list.get other key =
      ((list.entries.map fun e => (e.mac, e.device)).find?
        fun pair => pair.1 = other).bind fun pair => pair.2.get key := by
    intro list
    rw [List.find?_map, get, Option.bind_map]
    rfl
  rcases d.remove_cases mac with ⟨absent, same⟩ |
    ⟨before, e, after, split, named, others, same⟩
  · rw [same]
    split
    · rename_i here
      rw [here, get, absent]
      rfl
    · rfl
  · rw [content, content, same, map_content_cutEntry, split]
    by_cases here : other = mac
    · have distinct := wf.distinct
      rw [split, List.map_append, List.nodup_append] at distinct
      have gone : ((before ++ after).map fun e => (e.mac, e.device)).find?
          (fun pair => pair.1 = other) = none := by
        rw [List.find?_eq_none]
        intro pair member
        obtain ⟨left, listed, rfl⟩ := List.mem_map.mp member
        simp only [decide_eq_true_eq]
        intro equal
        rcases List.mem_append.mp listed with inside | behind
        · exact others left inside (equal.trans here)
        · apply (List.nodup_cons.mp distinct.2.1).1
          rw [named, ← here, ← equal]
          exact List.mem_map_of_mem behind
      rw [gone, if_pos here]
      rfl
    · have skip : ¬e.mac = other := by
        rw [named]
        exact Ne.symm here
      rw [if_neg here]
      simp [skip]

end Remove

end Hnc.Devices
