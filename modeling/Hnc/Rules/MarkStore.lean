import Hnc.Json.RulesSearch
import Hnc.Rules.ApplyDeviceRule

/-!
# The marks in `rules.json`

Wherever the writers put them, the marks of the devices are the only text of
the file that the pattern for `mark_id` matches.
-/

namespace Hnc.ApplyDeviceRule

open Posix JsonText

/-- What the pattern for `mark_id` accepts behind the key. -/
def markBehind : Text → Option Text :=
  colon (run isDigit)

/-- A value that the pattern does not match, in any place. -/
def MuteValue (val : Text) : Prop :=
  ∀ trail rest, blank trail = true → Follows rest →
    hits (named "mark_id".toList markBehind) val (trail ++ rest) = []

theorem muteValue_of_not_mem {val : Text} (free : '"' ∉ val) : MuteValue val := by
  intro trail rest _ _
  exact hits_of_not_mem _ free _

theorem muteValue_string {body : Text} (ok : Body false body) :
    MuteValue (quote body) := by
  intro trail rest space follows
  exact hits_quote_silent markId_keyName
    (apart_of_blank space (apart_of_follows follows))
    (colon_silent (run isDigit) space follows) ok

theorem muteValue_simple {val : Text} (simple : isSimple val = true) :
    MuteValue val := by
  rcases isSimple_cases simple with free | ⟨body, plain, rfl⟩
  · exact muteValue_of_not_mem free
  · exact muteValue_string (body_of_plainKey plain)

/-- An entry whose only matches are its own mark. -/
structure Marked (e : Entry) : Prop where
  mac : isLowerMac e.mac = true
  distinct : (e.device.members.map Member.key).Nodup
  marks : ∀ m ∈ e.device.members, m.key = "mark_id".toList →
    m.gap = [] ∧ m.pad = [' '] ∧ IsMark m.val
  mute : ∀ m ∈ e.device.members, MuteValue m.val

theorem head_lineOf {trail rest : Text} (space : blank trail = true)
    (follows : Follows rest) {c : Char}
    (first : (lineOf (trail ++ rest)).head? = some c) : isDigit c = false := by
  have member : (trail ++ rest).head? = some c := by
    cases text : trail ++ rest with
    | nil => simp [text, lineOf] at first
    | cons d others =>
        rw [text, lineOf] at first
        by_cases newline : d = '\n'
        · simp [newline] at first
        · simpa [newline] using first
  cases trail with
  | nil =>
      rcases follows with rfl | ⟨d, tail, rfl, stops⟩
      · cases member
      · simp only [List.nil_append, List.head?_cons, Option.some.injEq] at member
        subst member
        rcases stops with rfl | rfl | rfl <;> decide
  | cons d trail =>
      simp only [List.cons_append, List.head?_cons, Option.some.injEq] at member
      subst member
      have white := List.all_eq_true.mp space d (by simp)
      simp only [isWs, Bool.or_eq_true, beq_iff_eq] at white
      rcases white with ((rfl | rfl) | rfl) | rfl <;> decide

theorem markBehind_mark {val : Text} (mark : IsMark val) {trail rest : Text}
    (space : blank trail = true) (follows : Follows rest) :
    markBehind (lineOf (':' :: ' ' :: (val ++ (trail ++ rest)))) = some val := by
  obtain ⟨n, _, high, rfl⟩ := mark
  obtain ⟨_, nonempty, digits, _⟩ := decimalText_facts n high
  have oneLine : '\n' ∉ ':' :: ' ' :: decimalText n := by
    intro member
    simp only [List.mem_cons] at member
    rcases member with impossible | impossible | inside
    · exact absurd impossible (by decide)
    · exact absurd impossible (by decide)
    · exact absurd (List.all_eq_true.mp digits _ inside) (by decide)
  have line : lineOf (':' :: ' ' :: (decimalText n ++ (trail ++ rest))) =
      ':' :: ' ' :: (decimalText n ++ lineOf (trail ++ rest)) := by
    have split := lineOf_of_not_mem oneLine (trail ++ rest)
    simpa using split
  have value : (' ' :: (decimalText n ++ lineOf (trail ++ rest))).dropWhile
      isSpace = decimalText n ++ lineOf (trail ++ rest) := by
    rw [List.dropWhile_cons_of_pos (by decide)]
    cases text : decimalText n with
    | nil => exact absurd text nonempty
    | cons c others =>
        have digit := List.all_eq_true.mp digits c (by simp [text])
        have solid : isSpace c = false :=
          isSpace_of_class digit (by decide)
        simp [solid]
  rw [line, markBehind, colon, List.dropWhile_cons_of_neg (by decide)]
  simp only [value]
  exact run_append digits nonempty fun c first => head_lineOf space follows first

theorem hitsIn_members {members : List Member} (wf : ∀ m ∈ members, m.Wf)
    (distinct : (members.map Member.key).Nodup)
    (marks : ∀ m ∈ members, m.key = "mark_id".toList →
      m.gap = [] ∧ m.pad = [' '] ∧ IsMark m.val)
    (mute : ∀ m ∈ members, MuteValue m.val) (hollow rest : Text) :
    hitsIn "mark_id".toList markBehind members rest =
      ((Obj.mk members hollow).get "mark_id".toList).toList := by
  induction members with
  | nil => rfl
  | cons m after induction =>
      simp only [List.map_cons, List.nodup_cons] at distinct
      have follows := follows_closing after rest
      have space := (wf m (by simp)).trail
      have tail := induction (fun other member => wf other (by simp [member]))
        distinct.2 (fun other member => marks other (by simp [member]))
        fun other member => mute other (by simp [member])
      rw [hitsIn, tail, hitsAt, mute m (by simp) _ _ space follows, Obj.get_cons]
      by_cases same : m.key = "mark_id".toList
      · obtain ⟨gap, pad, mark⟩ := marks m (by simp) same
        have absent : (Obj.mk after hollow).get "mark_id".toList = none := by
          rw [Obj.get, Option.map_eq_none_iff, findMember_eq_none]
          intro other member named
          apply distinct.1
          rw [same, ← named]
          exact List.mem_map_of_mem member
        have text : m.gap ++ ':' :: (m.pad ++ (m.fromValue ++ closing after rest)) =
            ':' :: ' ' :: (m.val ++ (m.trail ++ closing after rest)) := by
          simp [gap, pad, Member.fromValue]
        rw [if_pos same, if_pos same, text, markBehind_mark mark space follows,
          absent]
        rfl
      · rw [if_neg same, if_neg same]
        rfl

/-- The marks that are stored, entry by entry. -/
def held (d : Devices) : List Text :=
  d.entries.flatMap fun e => (e.device.get "mark_id".toList).toList

theorem hitsIn_devices {d : Devices} (wf : d.Wf)
    (all : ∀ e ∈ d.entries, Marked e) (rest : Text) :
    hitsIn "mark_id".toList markBehind d.obj.members rest = held d := by
  obtain ⟨entries, hollow⟩ := d
  have entriesWf := wf.entries
  simp only [Devices.obj] at entriesWf all ⊢
  clear wf
  induction entries with
  | nil => rfl
  | cons e others induction =>
      have eWf := entriesWf e (by simp)
      have marked := all e (by simp)
      have other : e.mac ≠ "mark_id".toList := by
        intro same
        have shape := marked.mac
        rw [same] at shape
        exact absurd shape (by decide)
      rw [List.map_cons, hitsIn, Entry.hitsAt_member markId_keyName _ eWf,
        if_neg other,
        hitsIn_members eWf.device.members marked.distinct marked.marks marked.mute e.device.hollow,
        induction (fun entry member => all entry (by simp [member])) fun entry member => entriesWf entry (by simp [member])]
      rfl

theorem mem_held {d : Devices} (wf : d.Wf) {mark : Text} :
    mark ∈ held d ↔ ∃ mac, d.get mac "mark_id".toList = some mark := by
  simp only [held, List.mem_flatMap, Option.mem_toList]
  constructor
  · rintro ⟨e, listed, stored⟩
    exact ⟨e.mac, by rw [Devices.get_of_mem wf listed]; exact stored⟩
  · rintro ⟨mac, stored⟩
    obtain ⟨e, found, inside⟩ := Option.bind_eq_some_iff.mp stored
    exact ⟨e, (Devices.mac_of_find found).1, inside⟩

/-- `used` is exactly the marks that are stored. -/
theorem usedMarks_file {f : Frame} {d : Devices}
    (silent : f.Silent "mark_id".toList markBehind) (wf : d.Wf)
    (all : ∀ e ∈ d.entries, Marked e) :
    usedMarks (f.file d.obj) = held d := by
  rw [usedMarks_eq_hits]
  refine (f.hits_file markId_keyName silent (by decide) wf.obj).trans ?_
  exact hitsIn_devices wf all _

/-- A field and a literal that may be written: a mark for `mark_id`. -/
structure Fits (key val : Text) : Prop where
  plain : plainKey key = true
  shape : Val val
  mark : key = "mark_id".toList → IsMark val
  mute : MuteValue val

theorem Marked.set {e : Entry} (marked : Marked e) {key val : Text}
    (fits : Fits key val) {device : Obj}
    (members : ∀ m ∈ device.members, m ∈ e.device.members ∨
      e.device.Sets key val m)
    (distinct : (device.members.map Member.key).Nodup) :
    Marked { e with device := device } := by
  refine ⟨marked.mac, distinct, ?_, ?_⟩
  · intro m member named
    rcases members m member with old | new
    · exact marked.marks m old named
    · have mark := fits.mark (new.named.symm.trans named)
      rcases new.place with ⟨gap, pad⟩ | ⟨old, listed, same, gap, pad⟩
      · exact ⟨gap, pad, new.value ▸ mark⟩
      · obtain ⟨oldGap, oldPad, _⟩ := marked.marks old listed
          (same.trans (new.named.symm.trans named))
        exact ⟨gap.trans oldGap, pad.trans oldPad, new.value ▸ mark⟩
  · intro m member
    rcases members m member with old | new
    · exact marked.mute m old
    · exact new.value ▸ fits.mute

theorem marked_oneField {lead trail key val : Text} (mac : Mac)
    (fits : Fits key val) : Marked ⟨lead, mac.text, oneField key val, trail⟩ := by
  refine ⟨mac.shape, by simp [oneField], ?_, ?_⟩
  · intro m member named
    rw [List.mem_singleton.mp member] at named ⊢
    exact ⟨rfl, rfl, fits.mark named⟩
  · intro m member
    rw [List.mem_singleton.mp member]
    exact fits.mute

section Put

variable {d : Devices} (wf : d.Wf) (all : ∀ e ∈ d.entries, Marked e) (mac : Mac)
variable {key val : Text} (fits : Fits key val)

include wf all fits

theorem marked_putFront :
    ∀ e ∈ (d.putFront mac.text key val).entries, Marked e := by
  apply Devices.forall_putFront all
  · intro e listed _
    have device := (wf.entries e listed).device
    exact (all e listed).set fits
      (fun m member => SafeWriter.mem_setFront device member)
      (SafeWriter.nodup_setFront (all e listed).distinct key val)
  · intro _ trail
    exact marked_oneField mac fits

theorem marked_putBack :
    ∀ e ∈ (d.putBack mac.text key val).entries, Marked e := by
  apply Devices.forall_putBack all
  · intro e listed _
    have device := (wf.entries e listed).device
    exact (all e listed).set fits
      (fun m member => Obj.mem_setBack device member)
      (Obj.nodup_setBack (all e listed).distinct key val)
  · intro _ lead
    exact marked_oneField mac fits

end Put

/-- The devices of a file, with marks that are all different. -/
structure DeviceMarks (d : Devices) : Prop where
  wf : d.Wf
  marked : ∀ e ∈ d.entries, Marked e
  distinct : ∀ left right mark, d.get left "mark_id".toList = some mark →
    d.get right "mark_id".toList = some mark → left = right

/-- A write that gives no device the mark of another. -/
theorem DeviceMarks.putFront {d : Devices} (marks : DeviceMarks d) (mac : Mac)
    {key val : Text} (fits : Fits key val)
    (own : key = "mark_id".toList → ∀ other,
      d.get other "mark_id".toList = some val → other = mac.text) :
    DeviceMarks (d.putFront mac.text key val) := by
  refine ⟨Devices.wf_putFront marks.wf mac.plain_text fits.plain fits.shape,
    marked_putFront marks.wf marks.marked mac fits, ?_⟩
  intro left right mark leftMark rightMark
  rw [Devices.get_putFront] at leftMark rightMark
  split at leftMark
  · rename_i here
    cases leftMark
    split at rightMark
    · rename_i there
      exact here.1.trans there.1.symm
    · rw [here.1]
      exact (own here.2.symm right rightMark).symm
  · split at rightMark
    · rename_i there
      cases rightMark
      rw [there.1]
      exact own there.2.symm left leftMark
    · exact marks.distinct left right mark leftMark rightMark

theorem DeviceMarks.putBack {d : Devices} (marks : DeviceMarks d) (mac : Mac)
    {key val : Text} (fits : Fits key val) (other : key ≠ "mark_id".toList) :
    DeviceMarks (d.putBack mac.text key val) := by
  refine ⟨Devices.wf_putBack marks.wf mac.plain_text fits.plain fits.shape,
    marked_putBack marks.wf marks.marked mac fits, ?_⟩
  intro left right mark leftMark rightMark
  have kept : ∀ device : Text, (d.putBack mac.text key val).get device
      "mark_id".toList = d.get device "mark_id".toList := by
    intro device
    rw [Devices.get_putBack, if_neg]
    rintro ⟨_, same⟩
    exact other same.symm
  rw [kept] at leftMark rightMark
  exact marks.distinct left right mark leftMark rightMark

theorem fits_assignment (a : Assignment) (other : a.field ≠ .markId) :
    Fits a.field.key a.literal := by
  refine ⟨a.field.plain_key, a.val_literal, ?_, muteValue_simple a.isSimple_literal⟩
  intro same
  exact absurd (Field.key_injective a.field .markId same) other

theorem DeviceMarks.putAll {d : Devices} (marks : DeviceMarks d) (mac : Mac)
    {pairs : List Assignment} (others : ∀ a ∈ pairs, a.field ≠ .markId) :
    DeviceMarks (putAll mac d pairs) := by
  induction pairs generalizing d with
  | nil => exact marks
  | cons a rest induction =>
      have other := others a (by simp)
      have next := marks.putBack mac (fits_assignment a other) fun same =>
        other (Field.key_injective a.field .markId same)
      exact induction next fun b member => others b (by simp [member])

end Hnc.ApplyDeviceRule
