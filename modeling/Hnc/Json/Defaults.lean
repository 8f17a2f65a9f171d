import Hnc.Json.Guard
import Hnc.Lib.JsonText

/-!
# A rules file around its devices

Every program of the scripts that writes below `devices` leaves the rest of
`rules.json` alone.  A frame is that rest: the members before and behind
`devices`, with the white space of the file.
-/

namespace Hnc

open Posix JsonText

/-- A rules file without the value of `devices`. -/
structure Frame where
  pre : Text
  before : List Member
  lead : Text
  gap : Text
  pad : Text
  trail : Text
  after : List Member
  post : Text
  blank_pre : blank pre = true
  wf_before : ∀ m ∈ before, m.Wf
  others : ∀ m ∈ before, m.key ≠ "devices".toList
  blank_lead : blank lead = true
  blank_gap : blank gap = true
  blank_pad : blank pad = true
  blank_trail : blank trail = true
  wf_after : ∀ m ∈ after, m.Wf
  blank_post : blank post = true

namespace Frame

variable (f : Frame) {devices : Obj}

def field (devices : Obj) : Member :=
  ⟨f.lead, "devices".toList, f.gap, f.pad, devices.render, f.trail⟩

def root (devices : Obj) : Obj :=
  ⟨f.before ++ f.field devices :: f.after, []⟩

/-- The text without the newline at its end. -/
def body (devices : Obj) : Text :=
  f.pre ++ ((f.root devices).render ++ f.post)

def file (devices : Obj) : Text :=
  f.body devices ++ ['\n']

theorem wf_root (shaped : devices.Shaped) : (f.root devices).Wf := by
  refine ⟨?_, rfl⟩
  intro m member
  simp only [root, List.mem_append, List.mem_cons] at member
  rcases member with old | rfl | old
  · exact f.wf_before m old
  · exact ⟨f.blank_lead, by simp [field]; decide, f.blank_gap, f.blank_pad,
      shaped.val_render, f.blank_trail⟩
  · exact f.wf_after m old

theorem findMember_root (devices : Obj) :
    findMember "devices".toList (f.root devices).members =
      some (f.field devices, f.after) :=
  findMember_split f.others rfl f.after

theorem setValue_root (devices other : Obj) :
    (f.root devices).setValue "devices".toList other.render = f.root other := by
  rw [Obj.setValue, Obj.modify, root, replaceFirst_split f.others rfl]
  rfl

end Frame

end Hnc

namespace Posix

theorem slurp_line (text : Text) : slurp (text ++ ['\n']) = text ++ ['\n'] := by
  rw [slurp_eq, if_pos]
  right
  simp

theorem chomp_line (text : Text) : chomp (text ++ ['\n']) = text := by
  simp [chomp]

end Posix

/-!
## The rules files that an installation starts from

The module ships `data/rules.json`, `post-fs-data.sh` writes a shorter one when
there is none, and `json_set.sh` and `json_set_batch.sh` write one on a single
line.
-/

namespace Hnc

open Posix JsonText

/-- The file that `json_set.sh` and `json_set_batch.sh` create, with these
members of the object `devices`. -/
def defaultRules (devices : Text) : Text :=
  "\x7b\"version\":1,\"whitelist_mode\":false,\"devices\":\x7b".toList ++
    devices ++ "\x7d,\"blacklist\":[],\"whitelist\":[]\x7d\n".toList

/-- The file that `post-fs-data.sh` creates. -/
def bootRules : Text :=
  "\x7b\n  \"version\": 1,\n  \"whitelist_mode\": false,\n".toList ++
    "  \"auth_required\": false,\n  \"devices\": \x7b\x7d,\n".toList ++
    "  \"blacklist\": [],\n  \"whitelist\": []\n\x7d\n".toList

/-- `data/rules.json`. -/
def shippedRules : Text :=
  "\x7b\n  \"version\": 1,\n  \"whitelist_mode\": false,\n".toList ++
    "  \"auth_required\": false,\n  \"remote_enabled\": false,\n".toList ++
    "  \"hotspot_auto\": false,\n  \"hotspot_ssid\": \"\",\n".toList ++
    "  \"hotspot_pass\": \"\",\n  \"hotspot_delay\": 60,\n".toList ++
    "  \"hotspot_charging_only\": false,\n  \"stale_rule_ttl_days\": 30,\n".toList ++
    "  \"hotspot_time_enable\": false,\n".toList ++
    "  \"hotspot_time_start\": \"08:00\",\n".toList ++
    "  \"hotspot_time_end\": \"23:00\",\n  \"devices\": \x7b\x7d,\n".toList ++
    "  \"blacklist\": [],\n  \"whitelist\": []\n\x7d\n".toList

/-- A default `rules.json`. -/
def IsDefault (file : Text) : Prop :=
  file = shippedRules ∨ file = bootRules ∨ file = defaultRules []

/-- The keys next to `devices` in the defaults. -/
def topKeys : List Text :=
  ["version", "whitelist_mode", "auth_required", "remote_enabled",
    "hotspot_auto", "hotspot_ssid", "hotspot_pass", "hotspot_delay",
    "hotspot_charging_only", "stale_rule_ttl_days", "hotspot_time_enable",
    "hotspot_time_start", "hotspot_time_end", "blacklist",
    "whitelist"].map String.toList

/-- A frame whose members have simple values, written without a line break
between a key and its value. -/
structure Frame.Simple (f : Frame) : Prop where
  members : ∀ m ∈ f.before ++ f.after, m.isSimple = true
  keys : ∀ m ∈ f.before ++ f.after, m.key ∈ topKeys
  layout : ∀ m ∈ f.before ++ f.after, m.gap = [] ∧ '\n' ∉ m.pad
  gap : f.gap = []
  pad : '\n' ∉ f.pad

def simpleMember (lead key pad val trail : String) : Member :=
  ⟨lead.toList, key.toList, [], pad.toList, val.toList, trail.toList⟩

/-- A frame around the two arrays that every default ends with. -/
def simpleFrame (lead pad : String) (before : List Member) (ending : String)
    (blanks : blank lead.toList = true ∧ blank pad.toList = true ∧
      blank ending.toList = true)
    (simple : before.all Member.isSimple = true)
    (others : ∀ m ∈ before, m.key ≠ "devices".toList) : Frame where
  pre := []
  before := before
  lead := lead.toList
  gap := []
  pad := pad.toList
  trail := []
  after := [simpleMember lead "blacklist" pad "[]" "",
    simpleMember lead "whitelist" pad "[]" ending]
  post := []
  blank_pre := rfl
  wf_before := fun m member =>
    Member.wf_of_isSimple (List.all_eq_true.mp simple m member)
  others := others
  blank_lead := blanks.1
  blank_gap := rfl
  blank_pad := blanks.2.1
  blank_trail := rfl
  wf_after := by
    intro m member
    have brackets : Val "[]".toList := @Val.square [] .nil
    simp only [List.mem_cons, List.not_mem_nil, or_false] at member
    rcases member with rfl | rfl
    · exact ⟨blanks.1, show plainKey "blacklist".toList = true by decide, rfl,
        blanks.2.1, brackets, rfl⟩
    · exact ⟨blanks.1, show plainKey "whitelist".toList = true by decide, rfl,
        blanks.2.1, brackets, blanks.2.2⟩
  blank_post := rfl

def createdFrame : Frame :=
  simpleFrame "" "" [simpleMember "" "version" "" "1" "",
    simpleMember "" "whitelist_mode" "" "false" ""] "" (by decide) (by decide)
    (by decide)

def bootFrame : Frame :=
  simpleFrame "\n  " " " [simpleMember "\n  " "version" " " "1" "",
    simpleMember "\n  " "whitelist_mode" " " "false" "",
    simpleMember "\n  " "auth_required" " " "false" ""] "\n" (by decide)
    (by decide) (by decide)

def shippedFrame : Frame :=
  simpleFrame "\n  " " " [simpleMember "\n  " "version" " " "1" "",
    simpleMember "\n  " "whitelist_mode" " " "false" "",
    simpleMember "\n  " "auth_required" " " "false" "",
    simpleMember "\n  " "remote_enabled" " " "false" "",
    simpleMember "\n  " "hotspot_auto" " " "false" "",
    simpleMember "\n  " "hotspot_ssid" " " "\"\"" "",
    simpleMember "\n  " "hotspot_pass" " " "\"\"" "",
    simpleMember "\n  " "hotspot_delay" " " "60" "",
    simpleMember "\n  " "hotspot_charging_only" " " "false" "",
    simpleMember "\n  " "stale_rule_ttl_days" " " "30" "",
    simpleMember "\n  " "hotspot_time_enable" " " "false" "",
    simpleMember "\n  " "hotspot_time_start" " " "\"08:00\"" "",
    simpleMember "\n  " "hotspot_time_end" " " "\"23:00\"" ""] "\n" (by decide)
    (by decide +kernel) (by decide +kernel)

theorem IsDefault.valid {file : Text} (default : IsDefault file) :
    Guard.jsonGuard file = true := by
  -- The literals become lists of characters, which the kernel reads faster.
  rcases default with rfl | rfl | rfl
  · repeat rw [String.toList_ofList]
    decide +kernel
  · repeat rw [String.toList_ofList]
    decide +kernel
  · repeat rw [String.toList_ofList]
    decide +kernel

/-- Every default is a simple frame around no devices, with short values and an
empty blacklist behind them. -/
theorem IsDefault.frame_blacklist {file : Text} (default : IsDefault file) :
    ∃ f : Frame, f.Simple ∧ file = f.file ⟨[], []⟩ ∧
      (∀ m ∈ f.before ++ f.after, m.val.length < 19) ∧
      (∀ m ∈ f.before, m.key ≠ "blacklist".toList) ∧
      ∃ m right, f.after = m :: right ∧ m.key = "blacklist".toList ∧
        m.val = ['[', ']'] := by
  have shipped : shippedRules = shippedFrame.file ⟨[], []⟩ := by
    repeat rw [String.toList_ofList]
    decide +kernel
  have boot : bootRules = bootFrame.file ⟨[], []⟩ := by
    repeat rw [String.toList_ofList]
    decide +kernel
  have created : defaultRules [] = createdFrame.file ⟨[], []⟩ := by
    repeat rw [String.toList_ofList]
    decide +kernel
  rcases default with same | same | same
  · refine ⟨shippedFrame, ⟨?_, ?_, ?_, rfl, by decide⟩, same.trans shipped, ?_,
      ?_, _, _, rfl, rfl, rfl⟩ <;> decide +kernel
  · refine ⟨bootFrame, ⟨?_, ?_, ?_, rfl, by decide⟩, same.trans boot, ?_,
      ?_, _, _, rfl, rfl, rfl⟩ <;> decide +kernel
  · refine ⟨createdFrame, ⟨?_, ?_, ?_, rfl, by decide⟩, same.trans created, ?_,
      ?_, _, _, rfl, rfl, rfl⟩ <;> decide +kernel

theorem IsDefault.frame {file : Text} (default : IsDefault file) :
    ∃ f : Frame, f.Simple ∧ file = f.file ⟨[], []⟩ := by
  obtain ⟨f, simple, text, _⟩ := default.frame_blacklist
  exact ⟨f, simple, text⟩

end Hnc
