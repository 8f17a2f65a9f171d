import Hnc.Lib.ByteText
import Mathlib.Algebra.Group.Nat.Defs

/-!
# The name lookup of `hotspotd`

`hnc_lookup_manual_name` of `daemon/hotspotd/hnc_helpers.c` does not parse
`device_names.json`.  It reads the file into a buffer and looks for the bytes
`"mac":"`, without regard to letter case, behind a brace or a comma.
-/

namespace Hnc.HncHelpers

open Posix

abbrev Bytes := List UInt8

/-- `tolower` of the C locale. -/
def toLower (b : UInt8) : UInt8 :=
  if 65 ≤ b ∧ b ≤ 90 then b + 32 else b

/-- The inner loop: the bytes behind the pattern, if the pattern ends before
the text does. -/
def matchCase : Bytes → Bytes → Option Bytes
  | [], q => some q
  | _ :: _, [] => none
  | m :: pattern, c :: q =>
      if toLower c = toLower m then matchCase pattern q else none

def isAnchorSpace (b : UInt8) : Bool :=
  b == 32 || b == 9 || b == 10 || b == 13

/-- `anchored`, from the bytes before the candidate, nearest first. -/
def anchored (left : Bytes) : Bool :=
  match left.dropWhile isAnchorSpace with
  | [] => true
  | b :: _ => b == 123 || b == 44

/-- The copy loop, with the room that is left in `out`. -/
def copyName : Nat → Bytes → Bytes
  | 0, _ => []
  | _ + 1, [] => []
  | room + 1, c :: q =>
      if c = 34 then []
      else if c = 92 then
        match q with
        | [] => [c]
        | d :: q' =>
            if d = 34 ∨ d = 92 then d :: copyName room q'
            else c :: copyName room q
      else c :: copyName room q

/-- What the function returns and the C string it leaves in `out`. -/
structure Lookup where
  found : Nat
  out : Bytes
deriving DecidableEq

def lookupLoop (pattern : Bytes) (room : Nat) (left : Bytes) : Bytes → Lookup
  | [] => ⟨0, []⟩
  | c :: rest =>
      match matchCase pattern (c :: rest) with
      | none => lookupLoop pattern room (c :: left) rest
      | some q =>
          if anchored left then
            let out := copyName room q
            ⟨if out = [] then 0 else 1, out⟩
          else lookupLoop pattern room (c :: left) rest

/-- `hnc_lookup_manual_name` on the bytes of the file.  The buffer holds 8191
bytes and is read as a C string; `outlen - 1` is computed in `size_t`. -/
def lookupManualName (mac file : Bytes) (outlen : Nat) : Lookup :=
  let buf := (file.take 8191).takeWhile (· ≠ 0)
  let pattern := (34 :: mac ++ [34, 58, 34]).take 31
  lookupLoop pattern ((outlen + (2 ^ 64 - 1)) % 2 ^ 64) [] buf

theorem matchCase_some {pattern text q : Bytes}
    (hit : matchCase pattern text = some q) :
    ∃ front, text = front ++ q ∧ front.map toLower = pattern.map toLower := by
  induction pattern generalizing text with
  | nil => exact ⟨[], by simpa [matchCase] using hit, rfl⟩
  | cons m pattern induction =>
      cases text with
      | nil => cases hit
      | cons c text =>
          rw [matchCase] at hit
          split at hit
          · rename_i same
            obtain ⟨front, rfl, lowered⟩ := induction hit
            exact ⟨c :: front, rfl, by simp [same, lowered]⟩
          · cases hit

/-- A lookup that finds something has found its pattern. -/
theorem lookupLoop_found {pattern : Bytes} {room : Nat} {left text : Bytes}
    (found : (lookupLoop pattern room left text).found ≠ 0) :
    ∃ before behind, text = before ++ behind ∧
      (matchCase pattern behind).isSome = true := by
  induction text generalizing left with
  | nil => exact absurd rfl found
  | cons c rest induction =>
      rw [lookupLoop] at found
      cases hit : matchCase pattern (c :: rest) with
      | some q => exact ⟨[], c :: rest, rfl, by simp [hit]⟩
      | none =>
          rw [hit] at found
          obtain ⟨before, behind, rfl, inside⟩ := induction found
          exact ⟨c :: before, behind, rfl, inside⟩

theorem take_takeWhile_append (file : Bytes) :
    ∃ tail, file = (file.take 8191).takeWhile (· ≠ 0) ++ tail := by
  refine ⟨(file.take 8191).dropWhile (· ≠ 0) ++ file.drop 8191, ?_⟩
  rw [← List.append_assoc, List.takeWhile_append_dropWhile,
    List.take_append_drop]

theorem lookupManualName_found {mac file : Bytes} {outlen : Nat}
    (short : mac.length ≤ 27)
    (found : (lookupManualName mac file outlen).found ≠ 0) :
    ∃ before front behind, file = before ++ (front ++ behind) ∧
      front.map toLower = (34 :: mac ++ [34, 58, 34]).map toLower := by
  have whole : (34 :: mac ++ [34, 58, 34]).take 31 = 34 :: mac ++ [34, 58, 34] :=
    List.take_of_length_le (by simp; omega)
  rw [lookupManualName, whole] at found
  obtain ⟨before, behind, split, hit⟩ := lookupLoop_found found
  obtain ⟨q, hit⟩ := Option.isSome_iff_exists.mp hit
  obtain ⟨front, rfl, lowered⟩ := matchCase_some hit
  obtain ⟨tail, file⟩ := take_takeWhile_append file
  refine ⟨before, front, q ++ tail, ?_, lowered⟩
  rw [file, split]
  simp

end Hnc.HncHelpers
