import Hnc.Json.RulesRemoval
import Hnc.Rules.MarkAllocation
import Hnc.Service.RestoreMacs

/-!
# The line on which `get_or_assign_mid` looks

The commands of `apply_device_rule.sh` write a mark on the line of the address
of its device.  An entry without a mark is made by `clear`, and its line ends
before the line of any other address.  So the mark behind an address is the
mark of that device.
-/

namespace Hnc.ApplyDeviceRule

open Posix JsonText TcManager

/-- An entry whose mark stands on the line of its address; without a mark, the
line ends inside the entry. -/
structure Lined (e : Entry) : Prop where
  layout : LaidOut (· ≠ .markId) e
  ends : e.device.get "mark_id".toList = none →
    ∃ m ∈ e.device.members, m.lead = indent

theorem Lined.laid {e : Entry} (lined : Lined e) {m : Member}
    (member : m ∈ e.device.members) : ∃ a, Laid m a := by
  obtain ⟨front, back, members, _, frontLaid, backLaid⟩ := lined.layout.members
  rw [members, List.mem_append] at member
  rcases member with inside | behind
  · exact (frontLaid m inside).2
  · obtain ⟨_, a, laid, _⟩ := backLaid m behind
    exact ⟨a, laid⟩

/-- A row of members on one line without a mark, in front of others. -/
theorem hits_row {before : List Member}
    (laid : ∀ m ∈ before, m.lead = [] ∧ ∃ a, Laid m a)
    (others : ∀ m ∈ before, m.key ≠ "mark_id".toList) (rest : Text) :
    '\n' ∉ (before.flatMap fun m => m.render ++ [',']) ∧
      hits (named "mark_id".toList markBehind)
        (before.flatMap fun m => m.render ++ [',']) rest = [] := by
  refine ⟨?_, ?_⟩
  · intro member
    obtain ⟨m, listed, inside⟩ := List.mem_flatMap.mp member
    obtain ⟨lead, a, facts⟩ := laid m listed
    rcases List.mem_append.mp inside with render | comma
    · exact facts.oneLine lead render
    · exact absurd (List.mem_singleton.mp comma) (by decide)
  · apply hits_before markId_keyName
    · intro m listed
      obtain ⟨lead, a, facts⟩ := laid m listed
      exact facts.wf (by rw [lead]; rfl)
    · intro m listed
      obtain ⟨_, a, facts⟩ := laid m listed
      exact ⟨others m listed, facts.mute markId_keyName (run isDigit)⟩

section Line

variable {e : Entry} (lined : Lined e) (marked : Marked e) (rest : Text)

include lined

/-- What stands behind the address of an entry. -/
def behindAddress (e : Entry) (rest : Text) : Text :=
  ':' :: ' ' :: (e.device.render ++ rest)

theorem hits_unmarked (unmarked : e.device.get "mark_id".toList = none) :
    hits (named "mark_id".toList markBehind) (lineOf (behindAddress e rest)) [] =
      [] := by
  obtain ⟨front, back, members, _, frontLaid, backLaid⟩ := lined.layout.members
  have absent : ∀ m ∈ e.device.members, m.key ≠ "mark_id".toList := by
    rw [Obj.get, Option.map_eq_none_iff, findMember_eq_none] at unmarked
    exact unmarked
  obtain ⟨b, member, lead⟩ := lined.ends unmarked
  cases back with
  | nil =>
      rw [members, List.append_nil] at member
      rw [(frontLaid b member).1] at lead
      cases lead
  | cons first back =>
      obtain ⟨row, silent⟩ := hits_row frontLaid
        (fun m listed => absent m (by simp [members, listed])) []
      have line : lineOf (behindAddress e rest) = [':', ' ', '{'] ++
          front.flatMap fun m => m.render ++ [','] := by
        have text : behindAddress e rest = [':', ' ', '{'] ++
            ((front.flatMap fun m => m.render ++ [',']) ++
              ('\n' :: (' ' :: ' ' :: first.fromKey ++ more back ++
                '}' :: rest))) := by
          obtain ⟨lead, mac, ⟨list, hollow⟩, trail⟩ := e
          subst members
          rw [behindAddress, Obj.render_append, inner_split]
          simp [Member.render, (backLaid first (by simp)).1, indent]
        rw [text, lineOf_of_not_mem (by decide), lineOf_of_not_mem row]
        simp [lineOf]
      rw [line, hits_append, hits_of_not_mem markBehind (by decide)]
      simpa using silent

include marked

theorem hits_marked {mark : Text}
    (stored : e.device.get "mark_id".toList = some mark) :
    ∃ more, hits (named "mark_id".toList markBehind)
      (lineOf (behindAddress e rest)) [] = mark :: more := by
  obtain ⟨front, back, members, _, frontLaid, backLaid⟩ := lined.layout.members
  obtain ⟨⟨m, after⟩, hit, rfl⟩ := Option.map_eq_some_iff.mp stored
  obtain ⟨named, before, split, others⟩ := findMember_mem hit
  have here : ∀ other ∈ before ++ [m], other.lead = [] ∧ ∃ a, Laid other a := by
    -- the mark is not among the fields on lines of their own
    have notBack : m ∉ back := by
      intro behind
      obtain ⟨_, a, laid, different⟩ := backLaid m behind
      exact different (Field.key_injective _ .markId (laid.key.symm.trans named))
    rw [members] at split
    rcases List.append_eq_append_iff.mp split with ⟨as, first, second⟩ |
      ⟨bs, first, second⟩
    · rw [second] at notBack
      simp at notBack
    · intro other inside
      apply frontLaid
      cases bs with
      | nil =>
          rw [List.nil_append] at second
          rw [← second] at notBack
          simp at notBack
      | cons c bs =>
          obtain ⟨rfl, _⟩ := List.cons.inj second
          rw [first]
          rcases List.mem_append.mp inside with old | new
          · simp [old]
          · simp [List.mem_singleton.mp new]
  obtain ⟨lead, a, laid⟩ := here m (by simp)
  obtain ⟨gap, pad, mark⟩ := marked.marks m (by simp [split]) named
  obtain ⟨row, silent⟩ := hits_row
    (fun other inside => here other (by simp [inside])) others
    (m.render ++ lineOf (closing after rest))
  have follows := follows_lineOf (follows_closing after rest)
  have wf : m.Wf := laid.wf (by rw [lead]; rfl)
  have found : hits (JsonText.named "mark_id".toList markBehind) m.render
      (lineOf (closing after rest)) = [m.val] := by
    have text : m.gap ++ ':' :: (m.pad ++
        (m.fromValue ++ lineOf (closing after rest))) =
        ':' :: ' ' :: (m.val ++ (m.trail ++ lineOf (closing after rest))) := by
      simp [gap, pad, Member.fromValue]
    rw [hits_member markId_keyName _ wf, hitsAt, if_pos named, text,
      markBehind_mark mark wf.trail follows,
      marked.mute m (by simp [split]) _ _ wf.trail follows]
    rfl
  have line : lineOf (behindAddress e rest) = [':', ' ', '{'] ++
      ((before.flatMap fun m => m.render ++ [',']) ++
        (m.render ++ lineOf (closing after rest))) := by
    have text : behindAddress e rest = [':', ' ', '{'] ++
        ((before.flatMap fun m => m.render ++ [',']) ++
          (m.render ++ closing after rest)) := by
      obtain ⟨lead, mac, ⟨list, hollow⟩, trail⟩ := e
      subst split
      rw [behindAddress, Obj.render_append, inner_split]
      simp [closing]
    rw [text, lineOf_of_not_mem (by decide), lineOf_of_not_mem row,
      lineOf_of_not_mem (laid.oneLine lead)]
  refine ⟨hits (JsonText.named "mark_id".toList markBehind)
    (lineOf (closing after rest)) [], ?_⟩
  rw [line, hits_append, hits_of_not_mem markBehind (by decide), hits_append,
    hits_append, List.append_nil, List.append_nil, found, silent]
  rfl

/-- The first mark behind the address on its line is the mark of the entry. -/
theorem mark_behind_address :
    matchKey "mark_id".toList (run isDigit)
        (quote e.mac ++ lineOf (behindAddress e rest)) =
      e.device.get "mark_id".toList := by
  have name := mac_keyName ⟨e.mac, marked.mac⟩
  have other : e.mac ≠ "mark_id".toList := by
    intro same
    have shape := marked.mac
    rw [same] at shape
    exact absurd shape (by decide)
  have colonFirst : lineOf (behindAddress e rest) =
      ':' :: lineOf (' ' :: (e.device.render ++ rest)) := rfl
  have oneLine : '\n' ∉ quote e.mac ++ lineOf (behindAddress e rest) := by
    intro member
    rcases List.mem_append.mp member with address | line
    · simp only [quote, List.cons_append, List.mem_cons,
        List.mem_append] at address
      rcases address with impossible | inside | impossible
      · exact absurd impossible (by decide)
      · exact name.oneLine inside
      · exact absurd impossible (by decide)
    · have kept := List.mem_takeWhile_imp line
      simp at kept
  have apart : Apart (lineOf (behindAddress e rest) ++ []) := by
    intro c tail same
    obtain ⟨rfl, _⟩ := List.cons.inj same
    decide
  rw [matchKey_eq_hits _ _ oneLine, keyed_eq_named, hits_append,
    hits_quote_plain markId_keyName _ apart name.plain, if_neg other]
  cases stored : e.device.get "mark_id".toList with
  | none =>
      have silent := hits_unmarked lined rest stored
      exact congrArg List.head? silent
  | some mark =>
      obtain ⟨more, first⟩ := hits_marked lined marked rest stored
      exact congrArg List.head? first

end Line

/-- A rules file as the commands leave it. -/
structure Ledger (rules : Text) (f : Frame) (d : Devices) : Prop where
  framed : Framed f
  simple : f.Simple
  short : ∀ m ∈ f.before ++ f.after, m.val.length < 19
  marks : DeviceMarks d
  lined : ∀ e ∈ d.entries, Lined e
  text : rules = f.file d.obj
  valid : Guard.jsonGuard rules = true

theorem literal_ne_quote_mac (a : Assignment) (mac : Mac) :
    a.literal ≠ quote mac.text := by
  have numbers : ∀ c ∈ a.value, isNumberChar c = true → c ≠ ':' ∧ c ≠ '"' := by
    intro c _ char
    refine ⟨?_, ?_⟩ <;> rintro rfl <;> exact absurd char (by decide)
  intro same
  rcases a.cases with ⟨_, quad, literal⟩ | ⟨literal, unsigned | flag⟩
  · have value : a.value = mac.text := by
      rw [literal] at same
      simpa [quote] using same
    have member : ':' ∈ a.value := by
      rw [value]
      exact colon_mem_of_isMacText (isMacText_of_isLowerMac mac.shape)
    have char := List.all_eq_true.mp (isDottedQuad_numberChars quad) _ member
    exact (numbers _ member char).1 rfl
  · have member : '"' ∈ a.value := by
      rw [← literal, same]
      simp [quote]
    simp only [isUnsigned, Bool.and_eq_true] at unsigned
    exact (numbers _ member (List.all_eq_true.mp unsigned.1 _ member)).2 rfl
  · have member : '"' ∈ a.value := by
      rw [← literal, same]
      simp [quote]
    simp only [isFlag, Bool.or_eq_true, beq_iff_eq] at flag
    rcases flag with text | text <;> rw [text] at member <;>
      exact absurd member (by decide)

section Ledger

variable {rules : Text} {f : Frame} {d : Devices} (ledger : Ledger rules f d)

include ledger

/-- `existing` is the stored mark of the device. -/
theorem existingMark_ledger (mac : Mac) :
    existingMark rules mac.text = d.get mac.text "mark_id".toList := by
  have name := mac_keyName mac
  have wf := ledger.marks.wf
  have silent : f.Silent mac.text some := by
    intro m member
    have checked := ledger.simple.members m member
    simp only [Member.isSimple, Bool.and_eq_true] at checked
    refine ⟨?_, mute_other name some checked.1.2 checked.2 ?_⟩
    · rintro same
      exact mac_not_topKey mac (same ▸ ledger.simple.keys m member)
    · intro same
      have short := ledger.short m member
      rw [same] at short
      simp [quote, mac.text_length] at short
  have fields : ∀ e ∈ d.entries, ∀ m ∈ e.device.members,
      Silent mac.text some m := by
    intro e listed m member
    obtain ⟨a, laid⟩ := (ledger.lined e listed).laid member
    refine ⟨?_, mute_other name some (laid.val ▸ a.isSimple_literal)
      (by rw [laid.trail]; rfl) ?_⟩
    · rw [laid.key]
      exact mac_ne_field mac a.field
    · rw [laid.val]
      exact literal_ne_quote_mac a mac
  have lines : existingMark rules mac.text =
      (records rules).findSome? fun line =>
        (hits (named mac.text some) line []).head?.bind fun rest =>
          matchKey "mark_id".toList (run isDigit) (quote mac.text ++ rest) := by
    apply findSome_congr
    intro line member
    rw [tailFrom_eq_hits _ (records_oneLine member), Option.bind_map]
    rfl
  have found := f.hits_file name silent (mac_ne_devices mac) wf.obj
  obtain ⟨absent, present⟩ := Devices.hitsIn_entry wf name some fields f.tail
  rw [lines, Devices.get, ledger.text]
  cases entry : d.find mac.text with
  | none =>
      rw [absent entry] at found
      exact findSome_of_none (named_nil _ _) found _
  | some e =>
      obtain ⟨after, hit⟩ := present e entry
      obtain ⟨listed, same⟩ := Devices.mac_of_find entry
      rw [hit] at found
      rw [findSome_of_single (named_nil _ _) found, ← same]
      exact mark_behind_address (ledger.lined e listed)
        (ledger.marks.marked e listed) _

theorem ownMark_ledger (mac : Mac) : OwnMark rules mac.text := by
  intro mark first
  have existing : existingMark rules mac.text = some mark := by
    rw [marksBehind, List.head?_filterMap] at first
    exact first
  rw [existingMark_ledger ledger] at existing
  have stored := stored_mark ledger.marks (ledger.text ▸ ledger.valid) mac
  rw [← ledger.text] at stored
  exact stored.trans existing

end Ledger

end Hnc.ApplyDeviceRule
