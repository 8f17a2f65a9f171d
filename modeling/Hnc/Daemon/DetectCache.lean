import Hnc.Lib.AwkNumber
import Hnc.Lib.Runs
import Hnc.Net.Tables

/-!
# The host name cache of `bin/device_detect.sh`

`get_hostname` stores a name together with its source, as `name|src`, in a line
whose columns are separated by the same character.  The reader takes the name for
the second column and the source for the time.
-/

namespace Hnc.DeviceDetect

open Posix JsonText

/-- The lines of `hostname_cache`, when there is such a file. -/
abbrev Cache := Option (List Text)

def cacheTtl : ℚ := 600

/-- `echo "$mac|$name|$now"`. -/
def cacheLine (mac name : Text) (now : Nat) : Text :=
  mac ++ '|' :: (name ++ '|' :: Nat.toDigits 10 now)

/-- `grep "^$mac|"`. -/
def isLineOf (mac line : Text) : Bool :=
  (mac ++ ['|']).isPrefixOf line

/-- `hostname_cache_set`. -/
def hostnameCacheSet (mac name : Text) (now : Nat) (cache : Cache) : Cache :=
  if name = [] then cache
  else
    match cache with
    | some lines =>
        some ((lines.filter fun line => !isLineOf mac line) ++
          [cacheLine mac name now])
    | none => some [cacheLine mac name now]

/-- `$1`, `$2` and so on of `awk -F'|'`. -/
def column (n : Nat) (line : Text) : Text :=
  (fields '|' line).getD (n - 1) []

/-- The condition of the awk program. -/
def isFresh (mac : Text) (now : Nat) (line : Text) : Bool :=
  column 1 line = mac ∧ (now : ℚ) - awkNumber (column 3 line) < cacheTtl

/-- `hostname_cached`; `none` is a miss. -/
def hostnameCached (mac : Text) (now : Nat) (cache : Cache) : Option Text :=
  match cache with
  | none => none
  | some lines => (lines.find? (isFresh mac now)).map (column 2)

/-- A call of `hostname_cache_set`. -/
structure Store where
  mac : Mac
  name : Text
  oneLine : '\n' ∉ name
  time : Nat
deriving DecidableEq

def Store.apply (cache : Cache) (store : Store) : Cache :=
  hostnameCacheSet store.mac.text store.name store.time cache

/-- The cache behind some calls; there is no file at first. -/
def cacheAfter (stores : List Store) : Cache :=
  stores.foldl Store.apply none

/-- What `get_hostname` stores. -/
def namedStore (mac : Mac) (name src : Text) (nameLine : '\n' ∉ name)
    (srcLine : '\n' ∉ src) (time : Nat) : Store :=
  ⟨mac, name ++ '|' :: src, by simp [nameLine, srcLine], time⟩

/-- The cache answers with what was stored, as long as it is fresh. -/
structure Returns (before : List Store) (stored : Store) : Prop where
  hit : ∀ later : List Store, (∀ store ∈ later, store.mac ≠ stored.mac) →
    ∀ now, stored.time ≤ now → now < stored.time + 600 →
      hostnameCached stored.mac.text now
        (cacheAfter (before ++ stored :: later)) = some stored.name
  miss : ∀ later : List Store, (∀ store ∈ later, store.mac ≠ stored.mac) →
    ∀ now, stored.time + 600 ≤ now →
      hostnameCached stored.mac.text now
        (cacheAfter (before ++ stored :: later)) = none
  others : ∀ other : Mac, other ≠ stored.mac → ∀ now,
    hostnameCached other.text now (cacheAfter (before ++ [stored])) =
      hostnameCached other.text now (cacheAfter before)

theorem not_mem_of_mem_fields {sep : Char} {text piece : Text}
    (member : piece ∈ fields sep text) : sep ∉ piece := by
  induction text generalizing piece with
  | nil =>
      rw [List.mem_singleton.mp member]
      exact List.not_mem_nil
  | cons c rest induction =>
      rw [fields] at member
      split at member
      · rcases List.mem_cons.mp member with empty | later
        · rw [empty]
          exact List.not_mem_nil
        · exact induction later
      · rename_i other
        split at member
        · rw [List.mem_singleton.mp member, List.mem_singleton]
          exact Ne.symm other
        · rename_i first others split
          rcases List.mem_cons.mp member with here | later
          · rw [here, List.mem_cons, not_or]
            exact ⟨Ne.symm other, induction (split ▸ List.mem_cons_self)⟩
          · exact induction (split ▸ List.mem_cons_of_mem _ later)

/-- A column holds no separator. -/
theorem bar_not_mem_column (n : Nat) (line : Text) : '|' ∉ column n line := by
  rw [column, List.getD_eq_getElem?_getD]
  cases found : (fields '|' line)[n - 1]? with
  | none => exact List.not_mem_nil
  | some piece => exact not_mem_of_mem_fields (List.mem_of_getElem? found)

theorem bar_not_mem_cached {mac : Text} {now : Nat} {cache : Cache} {answer : Text}
    (cached : hostnameCached mac now cache = some answer) : '|' ∉ answer := by
  cases cache with
  | none => cases cached
  | some lines =>
    obtain ⟨line, _, same⟩ := Option.map_eq_some_iff.mp cached
    rw [← same]
    exact bar_not_mem_column 2 line

theorem bar_not_mem_mac (mac : Mac) : '|' ∉ mac.text :=
  mac.not_mem (by decide) (by decide)

theorem column_one_cacheLine (mac : Mac) (name : Text) (now : Nat) :
    column 1 (cacheLine mac.text name now) = mac.text := by
  rw [column, cacheLine, fields_split, fields_of_not_mem (bar_not_mem_mac mac)]
  rfl

theorem cacheAfter_append_singleton (before : List Store) (stored : Store) :
    cacheAfter (before ++ [stored]) = stored.apply (cacheAfter before) := by
  rw [cacheAfter, List.foldl_append]
  rfl

variable {name src : Text}

/-- The reader takes the source for the time of the line. -/
theorem column_three_named (mac : Mac) (nameFree : '|' ∉ name)
    (srcFree : '|' ∉ src) (now : Nat) :
    column 3 (cacheLine mac.text (name ++ '|' :: src) now) = src := by
  rw [column, cacheLine, fields_split, fields_split, fields_split,
    fields_of_not_mem (bar_not_mem_mac mac), fields_of_not_mem nameFree,
    fields_of_not_mem srcFree]
  rfl

theorem column_two_named (mac : Mac) (nameFree : '|' ∉ name) (now : Nat) :
    column 2 (cacheLine mac.text (name ++ '|' :: src) now) = name := by
  rw [column, cacheLine, List.append_assoc, List.cons_append, fields_split,
    fields_split, fields_of_not_mem (bar_not_mem_mac mac),
    fields_of_not_mem nameFree]
  rfl

/-- Every line of the file has a separator. -/
def Barred (cache : Cache) : Prop :=
  ∀ lines, cache = some lines → ∀ line ∈ lines, '|' ∈ line

theorem barred_apply {cache : Cache} (barred : Barred cache) (store : Store) :
    Barred (store.apply cache) := by
  unfold Store.apply hostnameCacheSet
  split
  · exact barred
  have stored : '|' ∈ cacheLine store.mac.text store.name store.time :=
    List.mem_append_right _ List.mem_cons_self
  cases cache with
  | none =>
      rintro lines ⟨⟩ line member
      exact List.mem_singleton.mp member ▸ stored
  | some old =>
      rintro lines ⟨⟩ line member
      rcases List.mem_append.mp member with kept | new
      · exact barred old rfl line (List.mem_of_mem_filter kept)
      · exact List.mem_singleton.mp new ▸ stored

theorem barred_cacheAfter (stores : List Store) : Barred (cacheAfter stores) := by
  apply Runs.foldl_induction Barred fun _ store barred => barred_apply barred store
  intro lines absent
  cases absent

/-- A line with a separator begins with `mac|` when its first column is `mac`. -/
theorem isLineOf_of_column_one {mac line : Text} (barred : '|' ∈ line)
    (own : column 1 line = mac) : isLineOf mac line = true := by
  obtain ⟨front, behind, split, first⟩ := List.eq_append_cons_of_mem barred
  rw [split, column, fields_split, fields_of_not_mem first] at own
  apply List.isPrefixOf_iff_prefix.mpr
  exact ⟨behind, by rw [split, List.append_assoc, ← own]; rfl⟩

/-- What was stored with a source is never returned. -/
theorem named_store_is_lost (before : List Store) (mac : Mac) (name src : Text)
    (nameLine : '\n' ∉ name) (srcLine : '\n' ∉ src) (time : Nat) :
    ¬ Returns before (namedStore mac name src nameLine srcLine time) := by
  intro returns
  have answered := returns.hit [] (fun _ absent => nomatch absent) time le_rfl
    (Nat.lt_add_of_pos_right (by decide))
  exact bar_not_mem_cached answered
    (List.mem_append_right name List.mem_cons_self)

theorem phone_name_is_lost :
    ('\n' ∉ "Mi-10".toList ∧ '\n' ∉ "dhcp".toList) ∧
      ¬ Returns [] (namedStore phone "Mi-10".toList "dhcp".toList (by decide)
        (by decide) 1000) :=
  ⟨by decide, named_store_is_lost [] phone _ _ (by decide) (by decide) 1000⟩

/-- The name of the phone is stored and missed within the same second. -/
theorem cache_does_not_return :
    ¬ ∀ (before : List Store) (mac : Mac) (name src : Text)
      (nameLine : '\n' ∉ name) (srcLine : '\n' ∉ src) (time : Nat),
      Returns before (namedStore mac name src nameLine srcLine time) := by
  intro returns
  have stored := returns [] phone "Mi-10".toList "dhcp".toList (by decide)
    (by decide) 1000
  have answered := stored.hit [] (fun _ absent => nomatch absent) 1000 le_rfl
    (by decide)
  have missed : hostnameCached phone.text 1000
      (cacheAfter [namedStore phone "Mi-10".toList "dhcp".toList (by decide)
        (by decide) 1000]) = none := by decide +kernel
  exact nomatch missed.symm.trans answered

end Hnc.DeviceDetect
