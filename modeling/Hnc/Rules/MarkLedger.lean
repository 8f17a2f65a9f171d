import Hnc.Rules.MarkLines

/-!
# The commands keep the marks on their lines
-/

namespace Hnc.ApplyDeviceRule

open Posix JsonText TcManager

variable {o : Obj} {m : Member}

theorem lead_of_modify (key : Text) {change : Member → Member}
    (kept : ∀ m, (change m).lead = m.lead) (member : m ∈ o.members) :
    ∃ other ∈ (o.modify key change).members, other.lead = m.lead := by
  have leads := map_replaceFirst Member.lead key change kept o.members
  have inside : m.lead ∈ (o.modify key change).members.map Member.lead := by
    rw [Obj.modify, leads]
    exact List.mem_map_of_mem member
  exact List.mem_map.mp inside

theorem lead_of_setFront (key val : Text) (member : m ∈ o.members) :
    ∃ other ∈ (SafeWriter.setFront o key val).members, other.lead = m.lead := by
  unfold SafeWriter.setFront
  split
  · apply lead_of_modify key _ member
    intro _
    rfl
  · refine ⟨m, ?_, rfl⟩
    unfold Obj.prepend
    split
    · rename_i none
      rw [none] at member
      cases member
    · rename_i first rest list
      rw [list] at member
      simp only [List.mem_cons] at member ⊢
      exact .inr member

theorem lead_of_setBack (key val : Text) (member : m ∈ o.members) :
    ∃ other ∈ (o.setBack key val).members, other.lead = m.lead := by
  unfold Obj.setBack
  split
  · apply lead_of_modify key _ member
    intro _
    rfl
  · refine ⟨m, ?_, rfl⟩
    unfold Obj.append
    split
    · rename_i none
      rw [none] at member
      cases member
    · rename_i first rest list
      rw [list] at member
      exact List.mem_append_left _ member

section Entries

variable {e : Entry} {a : Assignment} (whole : WholeMark a)

include whole

theorem lined_setFront (lined : Lined e) :
    Lined { e with
      device := SafeWriter.setFront e.device a.field.key a.literal } := by
  refine ⟨laidOut_setFront lined.layout whole, ?_⟩
  simp only [SafeWriter.get_setFront]
  intro unmarked
  split at unmarked
  · cases unmarked
  · obtain ⟨m, member, lead⟩ := lined.ends unmarked
    obtain ⟨other, listed, same⟩ := lead_of_setFront a.field.key a.literal member
    exact ⟨other, listed, same.trans lead⟩

theorem lined_setBack (lined : Lined e) (other : a.field ≠ .markId) :
    Lined { e with device := e.device.setBack a.field.key a.literal } := by
  refine ⟨laidOut_setBack lined.layout whole (.inr other), ?_⟩
  simp only [Obj.get_setBack]
  intro unmarked
  split at unmarked
  · cases unmarked
  · obtain ⟨m, member, lead⟩ := lined.ends unmarked
    obtain ⟨found, listed, same⟩ := lead_of_setBack a.field.key a.literal member
    exact ⟨found, listed, same.trans lead⟩

theorem lined_second (layout : LaidOut (· ≠ .markId) e)
    (other : a.field ≠ .markId) (absent : e.device.get a.field.key = none) :
    Lined { e with device := e.device.setBack a.field.key a.literal } := by
  refine ⟨laidOut_setBack layout whole (.inr other), ?_⟩
  intro _
  obtain ⟨front, back, members, nonempty, _⟩ := layout.members
  refine ⟨written indent a.field.key a.literal, ?_, rfl⟩
  have missing : findMember a.field.key e.device.members = none := by
    rwa [Obj.get, Option.map_eq_none_iff] at absent
  simp only [Obj.setBack, missing, Obj.append]
  split
  · rename_i none
    rw [none] at members
    simp [nonempty] at members
  · simp

end Entries

theorem lined_marked {lead trail mark : Text} (mac : Mac) (isMark : IsMark mark) :
    Lined ⟨lead, mac.text, oneField "mark_id".toList mark, trail⟩ := by
  obtain ⟨n, _, high, rfl⟩ := isMark
  have digits := (decimalText_facts n high).2.2.1
  have layout := @laidOut_oneField (· ≠ .markId) lead mac.text trail
    ⟨.markId, decimalText n, isUnsigned_decimalText n⟩ mac.shape fun _ => digits
  have held : (oneField "mark_id".toList (decimalText n)).get "mark_id".toList =
      some (decimalText n) := by
    rw [oneField, Obj.get_cons]
    exact if_pos rfl
  refine ⟨layout, ?_⟩
  intro unmarked
  cases unmarked

theorem find_isSome_of_get {d : Devices} {mac key val : Text}
    (stored : d.get mac key = some val) : (d.find mac).isSome = true := by
  obtain ⟨e, found, _⟩ := Option.bind_eq_some_iff.mp stored
  rw [found]
  rfl

variable {pairs : List Assignment}

/-- A batch that writes no mark to a device that has an entry. -/
theorem lined_putAll {d : Devices} (all : ∀ e ∈ d.entries, Lined e) (mac : Mac)
    (present : (d.find mac.text).isSome = true)
    (others : ∀ a ∈ pairs, a.field ≠ .markId) :
    ∀ e ∈ (putAll mac d pairs).entries, Lined e := by
  induction pairs generalizing d with
  | nil => exact all
  | cons a rest induction =>
      have other := others a (by simp)
      refine induction ?_ ?_ fun b member => others b (by simp [member])
      · apply Devices.forall_putBack all
        · intro e listed _
          exact lined_setBack (fun same => absurd same other) (all e listed) other
        · intro absent
          rw [absent] at present
          cases present
      · refine @find_isSome_of_get _ _ a.field.key a.literal ?_
        rw [Devices.get_putBack, if_pos ⟨rfl, rfl⟩]

theorem putBack_pushBack {d : Devices} {mac : Text} (absent : d.find mac = none)
    (device : Obj) (key val : Text) :
    (d.pushBack mac device).putBack mac key val =
      d.pushBack mac (device.setBack key val) := by
  have others := Devices.map_of_other (Devices.not_mem_of_find absent)
    fun device => device.setBack key val
  rw [Devices.putBack, Devices.find_pushBack absent]
  simp [Devices.change, Devices.pushBack, others]

theorem lined_clear {d : Devices} (all : ∀ e ∈ d.entries, Lined e) (mac : Mac) :
    ∀ e ∈ (putAll mac d clearFields).entries, Lined e := by
  cases found : d.find mac.text with
  | some e =>
      apply lined_putAll all mac (by rw [found]; rfl)
      intro a member
      simp only [clearFields, List.mem_cons, List.not_mem_nil, or_false] at member
      rcases member with rfl | rfl | rfl <;> simp
  | none =>
      let down : Assignment := ⟨.downMbps, "0".toList, by decide⟩
      let up : Assignment := ⟨.upMbps, "0".toList, by decide⟩
      let enabled : Assignment := ⟨.limitEnabled, "false".toList, by decide⟩
      let made := ((oneField down.field.key down.literal).setBack up.field.key
        up.literal).setBack enabled.field.key enabled.literal
      have entries : putAll mac d clearFields = d.pushBack mac.text made := by
        have first : d.putBack mac.text down.field.key down.literal =
            d.pushBack mac.text (oneField down.field.key down.literal) := by
          rw [Devices.putBack, found]
        have batch : putAll mac d clearFields =
            ((d.putBack mac.text down.field.key down.literal).putBack mac.text
              up.field.key up.literal).putBack mac.text enabled.field.key
                enabled.literal := rfl
        rw [batch, first, putBack_pushBack found, putBack_pushBack found]
      have lined : ∀ lead, Lined ⟨lead, mac.text, made, []⟩ := by
        intro lead
        have layout := @laidOut_oneField (· ≠ .markId) lead mac.text [] down
          mac.shape (by simp [WholeMark, down])
        have missing : (oneField down.field.key down.literal).get up.field.key =
            none := by decide
        have second := @lined_second _ up (by simp [WholeMark, up]) layout
          (by simp [up]) missing
        exact @lined_setBack _ enabled (by simp [WholeMark, enabled]) second
          (by simp [enabled])
      intro e member
      rw [entries] at member
      rcases List.mem_append.mp member with old | new
      · exact all e old
      · rw [List.mem_singleton.mp new]
        exact lined _

theorem get_putAll_mark {d : Devices} (mac : Mac)
    (others : ∀ a ∈ pairs, a.field ≠ .markId) (other : Text) :
    (putAll mac d pairs).get other "mark_id".toList =
      d.get other "mark_id".toList := by
  unfold putAll
  induction pairs generalizing d with
  | nil => rfl
  | cons a rest induction =>
      have different : "mark_id".toList ≠ a.field.key := fun same =>
        others a (by simp) (Field.key_injective _ .markId same.symm)
      rw [List.foldl_cons, induction fun b member => others b (by simp [member]),
        Devices.get_putBack, if_neg fun both => different both.2]

section Ledger

variable {rules : Text} {f : Frame} {d : Devices} (ledger : Ledger rules f d)

include ledger

/-- The mark of `limit` and `alloc_mid`: the stored one, or a new one that
nobody else holds. -/
theorem storeMark_ledger {mac : Mac} {now : Nat} {mid marked : Text}
    (stored : storeMark rules mac now = some (mid, marked)) :
    IsMark mid ∧ (∀ old, d.get mac.text "mark_id".toList = some old → mid = old) ∧
      ∃ after, Ledger marked f after ∧ (after.find mac.text).isSome = true ∧
        ∀ other, after.get other "mark_id".toList =
          if other = mac.text then some mid
          else d.get other "mark_id".toList := by
  obtain ⟨framed, simple, short, marks, lined, rfl, valid⟩ := id ledger
  obtain ⟨assigned, found, rest⟩ := Option.bind_eq_some_iff.mp stored
  obtain ⟨next, written, same⟩ := Option.map_eq_some_iff.mp rest
  obtain ⟨rfl, rfl⟩ := Prod.mk.inj same
  obtain ⟨mark, others⟩ := getOrAssignMid_own framed marks valid
    (ownMark_ledger ledger mac) found
  have kept : ∀ old, d.get mac.text "mark_id".toList = some old →
      assigned = old := by
    intro old held
    have range := (marks.isMark held).1.range
    rw [getOrAssignMid, existingMark_ledger ledger, held] at found
    simp only [if_pos range, Option.some.injEq] at found
    exact found.symm
  refine ⟨mark, kept, ?_⟩
  let assignment : Assignment := ⟨.markId, assigned, mark.isUnsigned⟩
  have wholeMark : WholeMark assignment := by
    intro _
    obtain ⟨n, _, high, text⟩ := mark
    rw [show assignment.value = decimalText n from text]
    exact (decimalText_facts n high).2.2.1
  have wholeSeen : WholeMark (seen now) := by
    simp [WholeMark, seen]
  have simpleMark := assignment.isSimple_literal
  have fits : Fits "mark_id".toList assigned :=
    ⟨by decide, val_of_isSimple simpleMark, fun _ => mark,
      muteValue_simple simpleMark⟩
  have seenOther : (seen now).field ≠ .markId := by
    simp [seen]
  have seenKey : (seen now).field.key ≠ "mark_id".toList := fun same =>
    seenOther (Field.key_injective _ .markId same)
  let first := d.putFront mac.text "mark_id".toList assigned
  have firstText := jsonSet_device_file f marks.wf mac assignment written
  have firstMarks : DeviceMarks first := marks.putFront mac fits fun _ => others
  have firstLined : ∀ e ∈ first.entries, Lined e := by
    apply Devices.forall_putFront lined
    · intro e listed _
      exact lined_setFront wholeMark (lined e listed)
    · intro _ trail
      exact lined_marked mac mark
  have firstGet : ∀ other, first.get other "mark_id".toList =
      if other = mac.text then some assigned
      else d.get other "mark_id".toList := by
    intro other
    rw [Devices.get_putFront]
    by_cases here : other = mac.text
    · rw [if_pos ⟨here, rfl⟩, if_pos here]
    · rw [if_neg fun both => here both.1, if_neg here]
  have firstLedger : Ledger next f first :=
    ⟨framed, simple, short, firstMarks, firstLined, firstText,
      JsonSet.guardedCommit_valid written⟩
  have present : (first.find mac.text).isSome = true := by
    refine @find_isSome_of_get _ _ "mark_id".toList assigned ?_
    rw [firstGet, if_pos rfl]
  rw [DeviceWrite.run]
  cases timed : JsonSet.device next mac.text (seen now).field.key
      (seen now).value with
  | none => exact ⟨first, firstLedger, present, firstGet⟩
  | some last =>
      have secondText := jsonSet_device_file f firstMarks.wf mac (seen now)
        (firstText ▸ timed)
      refine ⟨_, ⟨framed, simple, short, firstMarks.putFront mac
        (fits_assignment (seen now) seenOther) fun same => absurd same seenKey,
        ?_, secondText, JsonSet.guardedCommit_valid timed⟩, ?_, ?_⟩
      · apply Devices.forall_putFront firstLined
        · intro e listed _
          exact lined_setFront wholeSeen (firstLined e listed)
        · intro absent
          rw [absent] at present
          cases present
      · refine @find_isSome_of_get _ _ "mark_id".toList assigned ?_
        rw [Devices.get_putFront, if_neg fun both => seenKey both.2.symm,
          firstGet, if_pos rfl]
      · intro other
        rw [Devices.get_putFront, if_neg fun both => seenKey both.2.symm,
          firstGet]

theorem batch_ledger (mac : Mac) (others : ∀ a ∈ pairs, a.field ≠ .markId)
    (kept : ∀ e ∈ (putAll mac d pairs).entries, Lined e) :
    ∃ after, Ledger ((DeviceWrite.jsonSetBatch mac pairs).run rules) f after ∧
      ∀ other, after.get other "mark_id".toList =
        d.get other "mark_id".toList := by
  rw [DeviceWrite.run]
  cases written : JsonSetBatch.device rules mac.text
      (pairs.map fun a => (a.field.key, a.value)) with
  | none => exact ⟨d, ledger, fun _ => rfl⟩
  | some next =>
      have text := jsonSetBatch_device_file f ledger.marks.wf mac pairs
        (ledger.text ▸ written)
      refine ⟨putAll mac d pairs, ⟨ledger.framed, ledger.simple, ledger.short,
        ledger.marks.putAll mac others, kept, text,
        jsonSetBatch_device_valid ledger.valid written⟩, ?_⟩
      intro other
      exact get_putAll_mark mac others other

theorem deviceRemove_ledger {mac : Text} (plain : '\\' ∉ mac) :
    ∃ after, Ledger ((JsonSet.deviceRemove rules mac).getD rules) f after ∧
      ∀ other, other ≠ mac → after.get other "mark_id".toList =
        d.get other "mark_id".toList := by
  cases removed : JsonSet.deviceRemove rules mac with
  | none => exact ⟨d, ledger, fun _ _ => rfl⟩
  | some next =>
      obtain ⟨framed, simple, short, marks, lined, rfl, valid⟩ := ledger
      unfold JsonSet.deviceRemove at removed
      split at removed
      · cases removed
      · have done := JsonSet.guardedCommit_some removed
        rw [assign_of_no_backslash plain,
          Devices.removeDevice_file f marks.wf] at done
        cases done
        have get := @Devices.get_remove d mac marks.wf
        refine ⟨d.remove mac, ⟨framed, simple, short, ⟨?_, ?_, ?_⟩, ?_, rfl,
          JsonSet.guardedCommit_valid removed⟩, ?_⟩
        · exact Devices.wf_remove marks.wf
        · intro found member
          obtain ⟨old, listed, named, device⟩ := Devices.mem_remove member
          have marked := marks.marked old listed
          exact ⟨named ▸ marked.mac, device ▸ marked.distinct,
            device ▸ marked.marks, device ▸ marked.mute⟩
        · intro left right mark leftMark rightMark
          rw [get] at leftMark rightMark
          split at leftMark
          · cases leftMark
          · split at rightMark
            · cases rightMark
            · exact marks.distinct left right mark leftMark rightMark
        · intro found member
          obtain ⟨old, listed, named, device⟩ := Devices.mem_remove member
          obtain ⟨layout, ends⟩ := lined old listed
          exact ⟨⟨named ▸ layout.mac, device ▸ layout.members,
            device ▸ layout.distinct⟩, device ▸ ends⟩
        · intro other different
          rw [get, if_neg different]

end Ledger

theorem ledger_default {rules : Text} (default : IsDefault rules) :
    ∃ f d, Ledger rules f d := by
  obtain ⟨f, framed, simple, short, marks, text, valid⟩ := framed_default default
  exact ⟨f, ⟨[], []⟩, framed, simple, short, marks, by simp, text, valid⟩

end Hnc.ApplyDeviceRule
