import Hnc.Json.Defaults
import Hnc.Json.RulesFile
import Hnc.Lib.JsonSearch

/-!
# Looking for a key in a rules file

What a line pattern for a quoted key finds in a rules file, entry by entry.
-/

namespace Hnc

open Posix JsonText

variable {Value : Type}

/-- The pattern finds nothing in the value of a member. -/
def Mute (key : Text) (behind : Text → Option Value) (m : Member) : Prop :=
  ∀ rest, Follows rest → hits (named key behind) m.val (m.trail ++ rest) = []

/-- The pattern finds nothing in a member. -/
structure Silent (key : Text) (behind : Text → Option Value) (m : Member) :
    Prop where
  other : m.key ≠ key
  mute : Mute key behind m

variable {key : Text} {behind : Text → Option Value} {m : Member}

theorem hitsAt_silent (silent : Silent key behind m) {rest : Text}
    (follows : Follows rest) : hitsAt key behind m rest = [] := by
  rw [hitsAt, if_neg silent.other, silent.mute rest follows]
  rfl

theorem hitsIn_silent {members : List Member}
    (silent : ∀ m ∈ members, Silent key behind m) (rest : Text) :
    hitsIn key behind members rest = [] := by
  induction members with
  | nil => rfl
  | cons m after induction =>
      rw [hitsIn, hitsAt_silent (silent m (by simp)) (follows_closing after rest),
        induction fun other member => silent other (by simp [member])]
      rfl

theorem hitsIn_append {before : List Member}
    (silent : ∀ m ∈ before, Silent key behind m) (m : Member)
    (after : List Member) (rest : Text) :
    hitsIn key behind (before ++ m :: after) rest =
      hitsIn key behind (m :: after) rest := by
  induction before with
  | nil => rfl
  | cons first before induction =>
      rw [List.cons_append, hitsIn,
        hitsAt_silent (silent first (by simp)) (follows_closing _ rest),
        induction fun other member => silent other (by simp [member])]
      rfl

theorem hits_before (name : KeyName key) {before : List Member}
    (wf : ∀ m ∈ before, m.Wf) (silent : ∀ m ∈ before, Silent key behind m)
    (rest : Text) :
    hits (named key behind) (before.flatMap fun m => m.render ++ [',']) rest =
      [] := by
  induction before with
  | nil => rfl
  | cons m before induction =>
      have follows : Follows ([','] ++ ((before.flatMap fun m =>
          m.render ++ [',']) ++ rest)) :=
        .inr ⟨',', _, rfl, .inl rfl⟩
      rw [List.flatMap_cons, List.append_assoc, hits_append, List.append_assoc,
        hits_member name behind (wf m (by simp)),
        hitsAt_silent (silent m (by simp)) follows, hits_append,
        induction (fun other member => wf other (by simp [member])) fun other member => silent other (by simp [member])]
      rfl

theorem colon_silent (parse : Text → Option Value) {trail rest : Text}
    (space : blank trail = true) (follows : Follows rest) :
    colon parse (lineOf (trail ++ rest)) = none := by
  induction trail with
  | nil =>
      rcases follows with rfl | ⟨c, tail, rfl, stops⟩
      · rfl
      · rcases stops with rfl | rfl | rfl <;>
          simp [colon, lineOf, isSpace, isWs]
  | cons c trail induction =>
      simp only [blank, List.all_cons, Bool.and_eq_true] at space
      have tail := induction space.2
      by_cases newline : c = '\n'
      · simp [colon, lineOf, newline]
      · have white : isSpace c = true := by simp [isSpace, space.1]
        rw [lineOf, List.cons_append, List.takeWhile_cons_of_pos (by simpa using newline)]
        rw [colon, List.dropWhile_cons_of_pos white]
        exact tail

theorem mute_string (name : KeyName key) (parse : Text → Option Value)
    {body : Text} (ok : Body false body) (value : m.val = quote body)
    (space : blank m.trail = true) : Mute key (colon parse) m := by
  intro rest follows
  rw [value]
  exact hits_quote_silent name
    (apart_of_blank space (apart_of_follows follows))
    (colon_silent parse space follows) ok

theorem mute_simple (name : KeyName key) (parse : Text → Option Value)
    (simple : isSimple m.val = true) (space : blank m.trail = true) :
    Mute key (colon parse) m := by
  rcases isSimple_cases simple with free | ⟨body, plain, value⟩
  · intro rest _
    exact hits_of_not_mem _ free _
  · exact mute_string name parse (body_of_plainKey plain) value space

/-- A quoted key is not found in another simple value. -/
theorem mute_other (name : KeyName key) (behind : Text → Option Value)
    (simple : isSimple m.val = true) (space : blank m.trail = true)
    (other : m.val ≠ quote key) : Mute key behind m := by
  intro rest follows
  rcases isSimple_cases simple with free | ⟨body, plain, value⟩
  · exact hits_of_not_mem _ free _
  · have apart := apart_of_blank space (apart_of_follows follows)
    rw [value, hits_quote_plain name behind apart plain, if_neg]
    rintro rfl
    exact other value

namespace Frame

variable (f : Frame)

/-- What follows the devices in the file. -/
def tail : Text :=
  f.trail ++ closing f.after (f.post ++ ['\n'])

/-- Outside the devices the pattern finds nothing. -/
def Silent (key : Text) (behind : Text → Option Value) : Prop :=
  ∀ m ∈ f.before ++ f.after, Hnc.Silent key behind m

theorem Simple.silent {f : Frame} (simple : f.Simple) (name : KeyName key)
    (parse : Text → Option Value) (other : key ∉ topKeys) :
    f.Silent key (colon parse) := by
  intro m member
  have checked := simple.members m member
  simp only [Member.isSimple, Bool.and_eq_true] at checked
  refine ⟨?_, mute_simple name parse checked.1.2 checked.2⟩
  rintro rfl
  exact other (simple.keys m member)

theorem hits_file (name : KeyName key) (silent : f.Silent key behind)
    (other : key ≠ "devices".toList) {devices : Obj} (wf : devices.Wf) :
    hits (named key behind) (f.file devices) [] =
      hitsIn key behind devices.members f.tail := by
  have text : f.file devices =
      f.pre ++ ((f.root devices).render ++ (f.post ++ ['\n'])) := by
    simp [file, body]
  have free : '"' ∉ f.post ++ ['\n'] := by
    simpa using quote_not_mem f.blank_post
  rw [text, hits_append, hits_of_not_mem behind (quote_not_mem f.blank_pre),
    hits_append, hits_of_not_mem behind free,
    hits_obj name behind (f.wf_root wf.shaped), root,
    hitsIn_append (fun m member => silent m (by simp [member])), hitsIn,
    hitsIn_silent fun m member => silent m (by simp [member])]
  have field : (f.field devices).key ≠ key := Ne.symm other
  have behindFree : f.post ++ ['\n'] ++ [] = f.post ++ ['\n'] := by simp
  rw [hitsAt, if_neg field]
  simp only [List.append_nil]
  exact hits_obj name behind wf _

end Frame

namespace Entry

/-- What the pattern finds in an entry. -/
theorem hitsAt_member (name : KeyName key) (behind : Text → Option Value)
    {e : Entry} (wf : e.Wf) (rest : Text) :
    hitsAt key behind e.member rest =
      (if e.mac = key then
        (behind (lineOf (':' :: ' ' :: (e.device.render ++ (e.trail ++ rest))))).toList
      else []) ++ hitsIn key behind e.device.members (e.trail ++ rest) := by
  have inner := hits_obj name behind wf.device (e.trail ++ rest)
  rw [hitsAt]
  simp only [member, Member.fromValue, List.nil_append, List.append_assoc,
    List.cons_append, inner]

end Entry

namespace Devices

/-- The pattern for the quoted address of an entry, when no field of a device
and no other part of the file matches it. -/
theorem hitsIn_entry {d : Devices} (wf : d.Wf) {mac : Text} (name : KeyName mac)
    (behind : Text → Option Value)
    (fields : ∀ e ∈ d.entries, ∀ m ∈ e.device.members, Silent mac behind m)
    (rest : Text) :
    (d.find mac = none → hitsIn mac behind d.obj.members rest = []) ∧
    ∀ e, d.find mac = some e → ∃ after,
      hitsIn mac behind d.obj.members rest =
        (behind (lineOf (':' :: ' ' :: (e.device.render ++
          (e.trail ++ closing after rest))))).toList := by
  obtain ⟨entries, hollow⟩ := d
  have all := wf.entries
  have distinct := wf.distinct
  simp only [find, obj] at all distinct fields ⊢
  have quiet : ∀ others : List Entry, (∀ e ∈ others, e ∈ entries) →
      mac ∉ others.map Entry.mac →
      hitsIn mac behind (others.map Entry.member) rest = [] := by
    intro others listed absent
    apply hitsIn_silent
    intro m member
    obtain ⟨e, inside, rfl⟩ := List.mem_map.mp member
    refine ⟨?_, ?_⟩
    · rintro rfl
      exact absent (List.mem_map_of_mem inside)
    · intro behindRest _
      have inner := hits_obj name behind (all e (listed e inside)).device
        (e.trail ++ behindRest)
      rw [hitsIn_silent (fields e (listed e inside))] at inner
      exact inner
  constructor
  · intro absent
    apply quiet entries (fun e listed => listed)
    intro member
    obtain ⟨e, listed, same⟩ := List.mem_map.mp member
    have other := List.find?_eq_none.mp absent e listed
    simp [same] at other
  · intro e found
    obtain ⟨named, before, after, split, others⟩ :=
      List.find?_eq_some_iff_append.mp found
    have same : e.mac = mac := by simpa using named
    refine ⟨after.map Entry.member, ?_⟩
    have listed : e ∈ entries := by simp [split]
    have notAfter : mac ∉ after.map Entry.mac := by
      rw [split, List.map_append, List.nodup_append] at distinct
      have tail := (List.nodup_cons.mp distinct.2.1).1
      rwa [same] at tail
    have silentBefore : ∀ m ∈ before.map Entry.member, Silent mac behind m := by
      intro m member
      obtain ⟨other, inside, rfl⟩ := List.mem_map.mp member
      have different := others other inside
      have inEntries : other ∈ entries := by simp [split, inside]
      refine ⟨by simpa using different, ?_⟩
      intro behindRest _
      have inner := hits_obj name behind (all other inEntries).device
        (other.trail ++ behindRest)
      rw [hitsIn_silent (fields other inEntries)] at inner
      exact inner
    rw [split, List.map_append, List.map_cons, hitsIn_append silentBefore, hitsIn,
      Entry.hitsAt_member name behind (all e listed), if_pos same,
      hitsIn_silent (fields e listed),
      quiet after (fun other inside => by simp [split, inside]) notAfter]
    simp

end Devices

end Hnc
