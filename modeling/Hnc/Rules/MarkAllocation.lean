import Hnc.Lib.Runs
import Hnc.Rules.Blacklist

/-!
# Marks keep devices apart

`get_or_assign_mid` takes the first `mark_id` that stands behind the quoted
address on a line.  As long as that is the mark of the device itself, no two
devices get one mark.
-/

namespace Hnc.ApplyDeviceRule

open Posix JsonText Runs

/-- The stored mark of a device. -/
def markOf (rules mac : Text) : Option Nat :=
  (storedField rules mac "mark_id".toList).bind fun text =>
    if text ≠ [] ∧ text.all isDigit = true then some (decimal text) else none

/-- No two devices hold one mark, and a device is refused a mark only when all
are held. -/
structure MarksApart (rules : Text) : Prop where
  distinct : ∀ (left right : Mac) (n : Nat), 1 ≤ n → n ≤ 99 →
    markOf rules left.text = some n → markOf rules right.text = some n →
    left = right
  exhausted : ∀ mac : Mac, getOrAssignMid rules mac.text = none →
    ∀ n, 1 ≤ n → n ≤ 99 → ∃ holder : Mac, markOf rules holder.text = some n

/-- The marks that stand behind the quoted address, one for each line. -/
def marksBehind (rules mac : Text) : List Text :=
  (records rules).filterMap fun line =>
    (tailFrom (quote mac) line).bind (matchKey "mark_id".toList (run isDigit))

/-- On the first line with a mark behind the address, it is the mark of the
device itself. -/
def OwnMark (rules mac : Text) : Prop :=
  ∀ mark ∈ (marksBehind rules mac).head?,
    storedField rules mac "mark_id".toList = some mark

/-- The condition on a command. -/
def KeepsApart (rules : Text) : Command → Prop
  | .limit mac _ _ _ _ _ => OwnMark rules mac.text
  | .allocMid mac _ _ => OwnMark rules mac.text
  | .jsonSet _ field value _ => plainKey field = true ∧ '\n' ∉ value
  | _ => True

/-- A file whose devices have different marks. -/
def Store (rules : Text) : Prop :=
  ∃ (f : Frame) (d : Devices), Framed f ∧ DeviceMarks d ∧
    rules = f.file d.obj ∧ Guard.jsonGuard rules = true

theorem DeviceMarks.isMark {d : Devices} (marks : DeviceMarks d) {mac mark : Text}
    (stored : d.get mac "mark_id".toList = some mark) :
    IsMark mark ∧ isLowerMac mac = true := by
  obtain ⟨e, found, inside⟩ := Option.bind_eq_some_iff.mp stored
  obtain ⟨listed, same⟩ := Devices.mac_of_find found
  obtain ⟨⟨m, after⟩, hit, rfl⟩ := Option.map_eq_some_iff.mp inside
  obtain ⟨named, before, split, _⟩ := findMember_mem hit
  have marked := marks.marked e listed
  refine ⟨(marked.marks m (by simp [split]) named).2.2, ?_⟩
  rw [← same]
  exact marked.mac

variable {mac : Mac}

section Stored

variable {f : Frame} {d : Devices} (framed : Framed f) (marks : DeviceMarks d)
variable (valid : Guard.jsonGuard (f.file d.obj) = true)

include marks valid

theorem stored_mark (mac : Mac) :
    storedField (f.file d.obj) mac.text "mark_id".toList =
      d.get mac.text "mark_id".toList :=
  storedField_file f marks.wf valid mac .markId

theorem markOf_file (mac : Mac) (n : Nat) (high : n ≤ 99) :
    markOf (f.file d.obj) mac.text = some n ↔
      d.get mac.text "mark_id".toList = some (decimalText n) := by
  rw [markOf, stored_mark marks valid]
  cases stored : d.get mac.text "mark_id".toList with
  | none => simp
  | some text =>
      obtain ⟨k, _, small, rfl⟩ := (marks.isMark stored).1
      obtain ⟨value, nonempty, digits, _⟩ := decimalText_facts k small
      rw [Option.bind_some, if_pos ⟨nonempty, digits⟩, value]
      simp only [Option.some.injEq]
      constructor
      · intro same
        rw [same]
      · intro same
        rw [← value, same, (decimalText_facts n high).1]

include framed

omit valid in
theorem used_iff {mark : Text} :
    mark ∈ usedMarks (f.file d.obj) ↔
      ∃ mac, d.get mac "mark_id".toList = some mark := by
  rw [usedMarks_file framed.silent marks.wf marks.marked]
  exact mem_held marks.wf

theorem marksApart_file : MarksApart (f.file d.obj) := by
  constructor
  · intro left right n _ high leftMark rightMark
    rw [markOf_file marks valid _ _ high] at leftMark rightMark
    exact Mac.ext_text (marks.distinct _ _ _ leftMark rightMark)
  · intro mac failed n low high
    have probed : assignMid (f.file d.obj) mac.text = none := by
      unfold getOrAssignMid at failed
      split at failed
      · split at failed
        · cases failed
        · exact failed
      · exact failed
    have used := assignMid_none probed low high
    obtain ⟨holder, stored⟩ := (used_iff framed marks).mp used
    refine ⟨⟨holder, (marks.isMark stored).2⟩, ?_⟩
    rw [markOf_file marks valid _ _ high]
    exact stored

/-- The mark that a device gets is its own or nobody's. -/
theorem getOrAssignMid_own (own : OwnMark (f.file d.obj) mac.text) {mid : Text}
    (assigned : getOrAssignMid (f.file d.obj) mac.text = some mid) :
    IsMark mid ∧ ∀ other, d.get other "mark_id".toList = some mid →
      other = mac.text := by
  have fresh : assignMid (f.file d.obj) mac.text = some mid →
      IsMark mid ∧ ∀ other, d.get other "mark_id".toList = some mid →
        other = mac.text := by
    intro probed
    obtain ⟨mark, unused⟩ := assignMid_some probed
    refine ⟨mark, ?_⟩
    intro other stored
    exact absurd ((used_iff framed marks).mpr ⟨other, stored⟩) unused
  unfold getOrAssignMid at assigned
  split at assigned
  · rename_i existing found
    split at assigned
    · cases assigned
      have first : (marksBehind (f.file d.obj) mac.text).head? = some mid := by
        rw [marksBehind, List.head?_filterMap]
        exact found
      have stored := own mid first
      rw [stored_mark marks valid] at stored
      exact ⟨(marks.isMark stored).1, fun other held =>
        marks.distinct _ _ _ held stored⟩
    · exact fresh assigned
  · exact fresh assigned

end Stored

/-! ### The commands keep it -/

theorem assign_plain {field : Text} (plain : plainKey field = true) :
    assign field = field := by
  apply assign_of_no_backslash
  intro member
  have char := List.all_eq_true.mp plain _ member
  simp at char

theorem store_jsonSet {f : Frame} {d : Devices} (framed : Framed f)
    (marks : DeviceMarks d) {field value next : Text}
    (fits : Fits field (JsonSet.literal value))
    (own : field = "mark_id".toList → ∀ other, d.get other "mark_id".toList = some (JsonSet.literal value) → other = mac.text)
    (written : JsonSet.device (f.file d.obj) mac.text field value = some next) :
    Store next := by
  have done := JsonSet.guardedCommit_some written
  rw [mac.assign_text, assign_plain fits.plain,
    Devices.updateDevice_file f marks.wf] at done
  cases done
  exact ⟨f, _, framed, marks.putFront mac fits own, rfl,
    JsonSet.guardedCommit_valid written⟩

variable {rules : Text}

theorem store_write (store : Store rules) (mac : Mac) {a : Assignment}
    (other : a.field ≠ .markId) :
    Store ((DeviceWrite.jsonSet mac a).run rules) := by
  obtain ⟨f, d, framed, marks, rfl, valid⟩ := store
  rw [DeviceWrite.run]
  cases written : JsonSet.device (f.file d.obj) mac.text a.field.key a.value with
  | none => exact ⟨f, d, framed, marks, rfl, valid⟩
  | some next =>
      have literal : JsonSet.literal a.value = a.literal := a.jsonEncode
      have fits := fits_assignment a other
      rw [← literal] at fits
      refine store_jsonSet framed marks fits ?_ written
      intro same
      exact absurd (Field.key_injective a.field .markId same) other

theorem store_batch (store : Store rules) (mac : Mac) {pairs : List Assignment}
    (others : ∀ a ∈ pairs, a.field ≠ .markId) :
    Store ((DeviceWrite.jsonSetBatch mac pairs).run rules) := by
  obtain ⟨f, d, framed, marks, rfl, valid⟩ := store
  rw [DeviceWrite.run]
  cases written : JsonSetBatch.device (f.file d.obj) mac.text
      (pairs.map fun a => (a.field.key, a.value)) with
  | none => exact ⟨f, d, framed, marks, rfl, valid⟩
  | some next =>
      have text := jsonSetBatch_device_file f marks.wf mac pairs written
      exact ⟨f, putAll mac d pairs, framed, marks.putAll mac others, text,
        jsonSetBatch_device_valid valid written⟩

theorem storeMark_store (store : Store rules) (own : OwnMark rules mac.text)
    {now : Nat} {mid marked : Text}
    (stored : storeMark rules mac now = some (mid, marked)) : Store marked := by
  obtain ⟨f, d, framed, marks, rfl, valid⟩ := store
  obtain ⟨assigned, found, rest⟩ := Option.bind_eq_some_iff.mp stored
  obtain ⟨next, written, same⟩ := Option.map_eq_some_iff.mp rest
  obtain ⟨rfl, rfl⟩ := Prod.mk.inj same
  obtain ⟨mark, others⟩ := getOrAssignMid_own framed marks valid own found
  have literal : JsonSet.literal assigned = assigned :=
    (Assignment.mk .markId assigned mark.isUnsigned).jsonEncode
  have simple : isSimple assigned = true :=
    (Assignment.mk .markId assigned mark.isUnsigned).isSimple_literal
  have fits : Fits "mark_id".toList assigned :=
    ⟨by decide, val_of_isSimple simple, fun _ => mark, muteValue_simple simple⟩
  rw [← literal] at fits
  have first : Store next := by
    refine store_jsonSet framed marks fits ?_ written
    intro _ other held
    rw [literal] at held
    exact others other held
  exact store_write first mac (by simp [seen])

theorem step_store (store : Store rules) (command : Command)
    (keeps : KeepsApart rules command) : Store (step rules command) := by
  cases command with
  | limit mac online down up now later =>
      rw [step, limit]
      cases stored : storeMark rules mac now with
      | none => exact store
      | some pair =>
          have first := storeMark_store store keeps stored
          apply store_batch first
          intro a member
          simp only [limitFields, seen, List.mem_cons, List.not_mem_nil,
            or_false] at member
          rcases member with rfl | rfl | rfl | rfl | rfl <;> simp
  | allocMid mac online now =>
      rw [step, allocMid]
      cases stored : storeMark rules mac now with
      | none => exact store
      | some pair =>
          exact storeMark_store store keeps stored
  | clear mac =>
      apply store_batch store
      intro a member
      simp only [clearFields, List.mem_cons, List.not_mem_nil, or_false] at member
      rcases member with rfl | rfl | rfl <;> simp
  | blAdd mac =>
      obtain ⟨f, d, framed, marks, rfl, valid⟩ := store
      rw [step, blAdd]
      cases added : JsonSet.blAdd (f.file d.obj) mac.text with
      | none => exact ⟨f, d, framed, marks, rfl, valid⟩
      | some next =>
          obtain ⟨committed, g, newFramed, text⟩ :=
            blAdd_file framed marks.wf.obj valid mac added
          exact ⟨g, d, newFramed, marks, text, committed⟩
  | blDel mac =>
      obtain ⟨f, d, framed, marks, rfl, valid⟩ := store
      rw [step, blDel]
      cases deleted : JsonSet.blDel (f.file d.obj) mac.text with
      | none => exact ⟨f, d, framed, marks, rfl, valid⟩
      | some next =>
          obtain ⟨committed, g, newFramed, text⟩ :=
            blDel_file framed marks.wf.obj valid mac deleted
          exact ⟨g, d, newFramed, marks, text, committed⟩
  | jsonSet mac field value other =>
      obtain ⟨f, d, framed, marks, rfl, valid⟩ := store
      obtain ⟨plain, oneLine⟩ := keeps
      rw [step]
      cases written : JsonSet.device (f.file d.obj) mac.text field value with
      | none => exact ⟨f, d, framed, marks, rfl, valid⟩
      | some next =>
          have mute : MuteValue (JsonSet.literal value) := by
            rcases JsonSet.literal_cases oneLine with ⟨_, atom⟩ | ⟨body, ok, same⟩
            · apply muteValue_of_not_mem
              intro member
              have char := List.all_eq_true.mp atom _ member
              exact absurd char (by decide)
            · rw [same]
              exact muteValue_string ok
          have fits : Fits field (JsonSet.literal value) :=
            ⟨plain, JsonSet.val_literal oneLine, fun same => absurd same other, mute⟩
          exact store_jsonSet framed marks fits (fun same => absurd same other) written

theorem framed_default (default : IsDefault rules) :
    ∃ f : Frame, Framed f ∧ f.Simple ∧
      (∀ m ∈ f.before ++ f.after, m.val.length < 19) ∧
      DeviceMarks ⟨[], []⟩ ∧ rules = f.file (Devices.mk [] []).obj ∧
      Guard.jsonGuard rules = true := by
  obtain ⟨f, simple, text, short, others, m, right, after, named, value⟩ :=
    default.frame_blacklist
  have silent : f.Silent "mark_id".toList markBehind :=
    simple.silent markId_keyName (run isDigit) (by decide +kernel)
  have place : BlacklistAt f [] m right [] :=
    ⟨after, by simpa using others, named, value⟩
  have marks : DeviceMarks ⟨[], []⟩ :=
    ⟨⟨by simp, rfl, by simp⟩, by simp, by simp [Devices.get, Devices.find]⟩
  exact ⟨f, ⟨silent, [], m, right, [], place⟩, simple, short, marks, text,
    default.valid⟩

theorem store_default (default : IsDefault rules) : Store rules := by
  obtain ⟨f, framed, _, _, marks, text, valid⟩ := framed_default default
  exact ⟨f, ⟨[], []⟩, framed, marks, text, valid⟩

instance ownMarkDecidable (rules mac : Text) : Decidable (OwnMark rules mac) :=
  inferInstanceAs (Decidable (∀ mark ∈ (marksBehind rules mac).head?,
    storedField rules mac "mark_id".toList = some mark))

instance keepsApartDecidable (rules : Text) :
    ∀ command, Decidable (KeepsApart rules command)
  | .limit mac _ _ _ _ _ => ownMarkDecidable rules mac.text
  | .allocMid mac _ _ => ownMarkDecidable rules mac.text
  | .clear _ => inferInstanceAs (Decidable True)
  | .blAdd _ => inferInstanceAs (Decidable True)
  | .blDel _ => inferInstanceAs (Decidable True)
  | .jsonSet _ field value _ =>
      inferInstanceAs (Decidable (plainKey field = true ∧ '\n' ∉ value))

def phone : Mac :=
  ⟨"02:00:00:00:00:01".toList, by decide⟩

def tablet : Mac :=
  ⟨"02:00:00:00:00:02".toList, by decide⟩

/-- `devices.json` with both devices. -/
def sampleDevices : Text :=
  "\x7b\"02:00:00:00:00:01\":\x7b\"ip\":\"192.168.43.7\"\x7d,".toList ++
    "\"02:00:00:00:00:02\":\x7b\"ip\":\"192.168.43.8\"\x7d\x7d\n".toList

theorem isDottedQuad_phone : isDottedQuad "192.168.43.7".toList = true := by
  decide

def phoneOnline : Online phone :=
  ⟨sampleDevices, ⟨"192.168.43.7".toList, isDottedQuad_phone⟩,
    by decide +kernel⟩

def tabletOnline : Online tablet :=
  ⟨sampleDevices, ⟨"192.168.43.8".toList, by decide⟩, by decide +kernel⟩

def sampleCommands : List Command :=
  [.limit phone phoneOnline ⟨"10".toList, by decide⟩ ⟨"2".toList, by decide⟩ 1 2,
    .blAdd tablet, .clear tablet, .allocMid tablet tabletOnline 3,
    .jsonSet tablet "note".toList "kitchen".toList (by decide), .blDel tablet]

/-- A field of the phone makes its entry, in front of that of the tablet. -/
def sharedCommands : List Command :=
  [.allocMid tablet tabletOnline 1,
    .jsonSet phone "ip".toList "192.168.43.7".toList (by decide),
    .allocMid phone phoneOnline 2]

end Hnc.ApplyDeviceRule
