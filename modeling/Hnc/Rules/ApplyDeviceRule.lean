import Hnc.Json.DeviceWrites
import Hnc.Lib.JsonSearch
import Hnc.Service.RestoreReader

/-!
# `get_or_assign_mid`

A device keeps the mark that is written behind its address in `rules.json`;
for a device without one the marks from 1 to 99 are probed, from a start that
depends on the last byte of the address.
-/

namespace Hnc.ApplyDeviceRule

open Posix JsonText

/-- A number as the shell prints it. -/
def decimalText (n : Nat) : Text :=
  Nat.toDigits 10 n

/-- The digits at the end of the pattern for `mark_id`, with what follows. -/
def readMark (value : Text) : Option (Text × Text) :=
  (run isDigit value).map fun mark => (mark, value.dropWhile isDigit)

/-- `existing`: the first line with a `mark_id` behind the quoted address. -/
def existingMark (rules mac : Text) : Option Text :=
  (records rules).findSome? fun line =>
    (tailFrom (quote mac) line).bind (matchKey "mark_id".toList (run isDigit))

/-- `used`: every `mark_id` of the file. -/
def usedMarks (rules : Text) : List Text :=
  (records rules).flatMap fun line =>
    matchAll "mark_id".toList readMark line.length line

def hexDigit (c : Char) : Nat :=
  if isDigit c then c.toNat - '0'.toNat
  else if 'a'.toNat ≤ c.toNat then c.toNat - 'a'.toNat + 10
  else c.toNat - 'A'.toNat + 10

/-- `$((0x.. % 99 + 1))` of the last byte. -/
def firstMark (mac : Text) : Nat :=
  let last := ((fields ':' mac).drop 5).headD []
  let byte := if last = [] then ['1'] else last
  byte.foldl (fun value c => 16 * value + hexDigit c) 0 % 99 + 1

/-- The marks in the order of the probing loop. -/
def candidates (start : Nat) : List Text :=
  (List.range 99).map fun k => decimalText ((start - 1 + k) % 99 + 1)

def assignMid (rules mac : Text) : Option Text :=
  (candidates (firstMark mac)).find? fun cand => cand ∉ usedMarks rules

/-- `get_or_assign_mid`; `none` when it returns 1. -/
def getOrAssignMid (rules mac : Text) : Option Text :=
  match existingMark rules mac with
  | some existing =>
      if 1 ≤ decimal existing ∧ decimal existing ≤ 99 then some existing
      else assignMid rules mac
  | none => assignMid rules mac

/-! ### Marks -/

/-- The text of a mark from 1 to 99. -/
def IsMark (text : Text) : Prop :=
  ∃ n, 1 ≤ n ∧ n ≤ 99 ∧ text = decimalText n

theorem decimalText_facts : ∀ n ≤ 99, decimal (decimalText n) = n ∧
    decimalText n ≠ [] ∧ (decimalText n).all isDigit = true ∧
    isNumeral (decimalText n) = true := by
  decide +kernel

theorem IsMark.range {text : Text} (mark : IsMark text) :
    1 ≤ decimal text ∧ decimal text ≤ 99 := by
  obtain ⟨n, low, high, rfl⟩ := mark
  rw [(decimalText_facts n high).1]
  exact ⟨low, high⟩

theorem IsMark.isUnsigned {text : Text} (mark : IsMark text) :
    isUnsigned text = true := by
  obtain ⟨n, _, high, rfl⟩ := mark
  obtain ⟨_, nonempty, digits, _⟩ := decimalText_facts n high
  exact isUnsigned_of_digits nonempty digits

theorem mem_candidates {start n : Nat} (low : 1 ≤ n) (high : n ≤ 99)
    (positive : 1 ≤ start) (small : start ≤ 99) :
    decimalText n ∈ candidates start := by
  apply List.mem_map.mpr
  refine ⟨(n + 99 - start) % 99, ?_, ?_⟩
  · rw [List.mem_range]
    omega
  · congr 1
    omega

theorem isMark_of_mem_candidates {start : Nat} {cand : Text}
    (member : cand ∈ candidates start) : IsMark cand := by
  obtain ⟨k, _, rfl⟩ := List.mem_map.mp member
  exact ⟨_, by omega, by omega, rfl⟩

theorem firstMark_range (mac : Text) : 1 ≤ firstMark mac ∧ firstMark mac ≤ 99 := by
  simp only [firstMark]
  omega

/-- A new mark is one of 1 to 99 and not in the file. -/
theorem assignMid_some {rules mac mid : Text} (assigned : assignMid rules mac = some mid) :
    IsMark mid ∧ mid ∉ usedMarks rules := by
  have unused := List.find?_some assigned
  exact ⟨isMark_of_mem_candidates (List.mem_of_find?_eq_some assigned),
    by simpa using unused⟩

/-- The probing fails when the file holds all marks. -/
theorem assignMid_none {rules mac : Text} (failed : assignMid rules mac = none)
    {n : Nat} (low : 1 ≤ n) (high : n ≤ 99) :
    decimalText n ∈ usedMarks rules := by
  obtain ⟨positive, small⟩ := firstMark_range mac
  have used := List.find?_eq_none.mp failed _
    (mem_candidates low high positive small)
  simpa using used

theorem markId_keyName : KeyName "mark_id".toList :=
  ⟨by decide, by decide, 'm', "ark_id".toList, rfl, by decide⟩

theorem usedMarks_eq_hits (rules : Text) :
    usedMarks rules =
      hits (named "mark_id".toList (colon (run isDigit))) rules [] := by
  have free : ∀ text value rest, readMark text = some (value, rest) →
      ∃ used, text = used ++ rest ∧ '"' ∉ used := by
    intro text value rest read
    obtain ⟨mark, _, same⟩ := Option.map_eq_some_iff.mp read
    obtain ⟨rfl, rfl⟩ := Prod.mk.inj same
    refine ⟨text.takeWhile isDigit, List.takeWhile_append_dropWhile.symm, ?_⟩
    intro member
    have digit := List.mem_takeWhile_imp member
    exact absurd digit (by decide)
  have parse : (fun text => (readMark text).map Prod.fst) = run isDigit := by
    funext text
    rw [readMark, Option.map_map]
    exact congrFun Option.map_id _
  have solid : ∀ c rest, "mark_id".toList = c :: rest → isSpace c = false := by
    intro c rest same
    obtain ⟨rfl, _⟩ := List.cons.inj same
    decide
  rw [← hits_records (named_nil _ _)]
  apply List.flatMap_congr
  intro line member
  rw [matchAll_eq_hits markId_keyName solid free (records_oneLine member)
    (Nat.le_refl _), parse]

end Hnc.ApplyDeviceRule

/-!
## What `apply_device_rule.sh` writes

The commands as they change `rules.json`.  What they do to the packet filter
comes in between and does not change what they write, unless it fails.
-/

namespace Hnc.ApplyDeviceRule

open Posix JsonText

/-- A rate argument: a number without a sign; a missing one is 0. -/
structure Rate where
  text : Text
  shape : isUnsigned text = true
deriving DecidableEq

/-- A device that `get_ip` finds in `devices.json`, with its address there. -/
structure Online (mac : Mac) where
  devices : Text
  ip : Ipv4
  found : TcManager.liveIp (some devices) mac.text = ip.text

theorem isUnsigned_decimalText (n : Nat) : isUnsigned (decimalText n) = true := by
  have digits : ∀ c ∈ decimalText n, isDigit c = true := by
    intro c member
    have digit := Nat.isDigit_of_mem_toDigits (by decide) (by decide) member
    simpa [isDigit, Char.isDigit, UInt32.le_iff_toNat_le] using digit
  exact isUnsigned_of_digits Nat.toDigits_ne_nil (List.all_eq_true.mpr digits)

/-- The field that `now_ts` goes to. -/
def seen (now : Nat) : Assignment :=
  ⟨.lastSeenPersist, decimalText now, isUnsigned_decimalText now⟩

/-- The fields that `limit` flushes at its end. -/
def limitFields (ip : Ipv4) (down up : Rate) (now : Nat) : List Assignment :=
  [⟨.ip, ip.text, ip.shape⟩, ⟨.downMbps, down.text, down.shape⟩,
    ⟨.upMbps, up.text, up.shape⟩, ⟨.limitEnabled, "true".toList, by decide⟩,
    seen now]

/-- The fields that `clear` flushes, with and without a mark. -/
def clearFields : List Assignment :=
  [⟨.downMbps, "0".toList, by decide⟩, ⟨.upMbps, "0".toList, by decide⟩,
    ⟨.limitEnabled, "false".toList, by decide⟩]

/-- The part of `limit` and `alloc_mid` under the gate lock: the mark, and the
file with it.  Only a failed write of the time is passed over. -/
def storeMark (rules : Text) (mac : Mac) (now : Nat) : Option (Text × Text) :=
  (getOrAssignMid rules mac.text).bind fun mid =>
    (JsonSet.device rules mac.text "mark_id".toList mid).map fun marked =>
      (mid, (DeviceWrite.jsonSet mac (seen now)).run marked)

/-- `limit`, from the time of the mark and that of the flush. -/
def limit (rules : Text) (mac : Mac) (ip : Ipv4) (down up : Rate)
    (now later : Nat) : Text :=
  match storeMark rules mac now with
  | none => rules
  | some (_, marked) =>
      (DeviceWrite.jsonSetBatch mac (limitFields ip down up later)).run marked

def allocMid (rules : Text) (mac : Mac) (now : Nat) : Text :=
  match storeMark rules mac now with
  | none => rules
  | some (_, marked) => marked

def clear (rules : Text) (mac : Mac) : Text :=
  (DeviceWrite.jsonSetBatch mac clearFields).run rules

def blAdd (rules : Text) (mac : Mac) : Text :=
  (JsonSet.blAdd rules mac.text).getD rules

def blDel (rules : Text) (mac : Mac) : Text :=
  (JsonSet.blDel rules mac.text).getD rules

/-- The commands of the script, and writes of other fields by
`json_set.sh device`. -/
inductive Command where
  | limit (mac : Mac) (online : Online mac) (down up : Rate) (now later : Nat)
  | allocMid (mac : Mac) (online : Online mac) (now : Nat)
  | clear (mac : Mac)
  | blAdd (mac : Mac)
  | blDel (mac : Mac)
  | jsonSet (mac : Mac) (field value : Text) (other : field ≠ "mark_id".toList)

/-- `rules.json` after a command; one that exits with an error leaves it as it
is then. -/
def step (rules : Text) : Command → Text
  | .limit mac online down up now later =>
      limit rules mac online.ip down up now later
  | .allocMid mac _ now => allocMid rules mac now
  | .clear mac => clear rules mac
  | .blAdd mac => blAdd rules mac
  | .blDel mac => blDel rules mac
  | .jsonSet mac field value _ =>
      (JsonSet.device rules mac.text field value).getD rules

end Hnc.ApplyDeviceRule
