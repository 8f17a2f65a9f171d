import Mathlib.Data.List.AList
import Mathlib.Tactic.Common

/-!
# Loops over a map

A loop that visits every entry of a map and changes at most the visited key of
another map does to each key what its one visit does, whatever the order of the
visits.
-/

namespace KeyMap

variable {Key Value : Type} [DecidableEq Key]

abbrev Map (Key Value : Type) := AList fun _ : Key => Value

theorem lookup_insert_eq (map : Map Key Value) (key written : Key)
    (value : Value) :
    (map.insert written value).lookup key =
      if key = written then some value else map.lookup key := by
  by_cases same : key = written
  · subst same
    simp
  · simp [same]

theorem lookup_erase_eq (map : Map Key Value) (key erased : Key) :
    (map.erase erased).lookup key =
      if key = erased then none else map.lookup key := by
  by_cases same : key = erased
  · subst same
    simp
  · simp [same]

/-- The loop `for _, key := range keys { delete(map, key) }`. -/
def eraseAll (map : Map Key Value) (keys : List Key) : Map Key Value :=
  keys.foldl (fun remaining key => remaining.erase key) map

@[simp] theorem lookup_eraseAll (map : Map Key Value) (keys : List Key)
    (key : Key) :
    (eraseAll map keys).lookup key =
      if key ∈ keys then none else map.lookup key := by
  induction keys generalizing map with
  | nil => simp [eraseAll]
  | cons first rest induction =>
      have step : eraseAll map (first :: rest) =
          eraseAll (map.erase first) rest := rfl
      rw [step, induction, lookup_erase_eq]
      by_cases here : key = first <;> by_cases later : key ∈ rest <;>
        simp [later]

variable {Other : Type}

/-- A loop over `entries` whose body at `visited` leaves all other keys alone
and turns the value under `visited` into `change visited value`. -/
theorem lookup_foldl (body : Map Key Value → (key : Key) → Other →
      Map Key Value)
    (change : Key → Other → Option Value → Option Value)
    (local_body : ∀ map visited value key,
      (body map visited value).lookup key =
        if key = visited then change visited value (map.lookup visited)
        else map.lookup key)
    (map : Map Key Value) (entries : Map Key Other) (key : Key) :
    (entries.foldl body map).lookup key =
      match entries.lookup key with
      | none => map.lookup key
      | some value => change key value (map.lookup key) := by
  obtain ⟨entries, nodup⟩ := entries
  simp only [AList.foldl, AList.lookup]
  induction entries generalizing map with
  | nil => simp
  | cons first rest induction =>
      obtain ⟨visited, value⟩ := first
      have restNodup := (List.nodupKeys_cons.mp nodup).2
      have fresh : visited ∉ rest.keys := (List.nodupKeys_cons.mp nodup).1
      have tail := induction (body map visited value) restNodup
      refine tail.trans ?_
      have changed := local_body map visited value key
      simp only [AList.lookup] at changed
      rw [changed]
      by_cases here : key = visited
      · subst here
        rw [List.dlookup_eq_none.mpr fresh]
        simp
      · simp [here]

section

variable {Item : Type} (key : Item → Key) (value : Item → Value)
  {items : List Item}

theorem lookup_foldl_insert_of_not_mem {other : Key}
    (fresh : other ∉ items.map key) (map : Map Key Value) :
    (items.foldl (fun map item => map.insert (key item) (value item))
      map).lookup other = map.lookup other := by
  induction items generalizing map with
  | nil => rfl
  | cons first rest induction =>
      rw [List.map_cons, List.mem_cons, not_or] at fresh
      rw [List.foldl_cons, induction fresh.2, AList.lookup_insert_ne fresh.1]

/-- A loop that inserts what it makes of each item. -/
theorem lookup_foldl_insert {item : Item} (nodup : (items.map key).Nodup)
    (member : item ∈ items) (map : Map Key Value) :
    (items.foldl (fun map item => map.insert (key item) (value item))
      map).lookup (key item) = some (value item) := by
  induction items generalizing map with
  | nil => cases member
  | cons first rest induction =>
      obtain ⟨fresh, nodup⟩ := List.nodup_cons.mp nodup
      rw [List.foldl_cons]
      rcases List.mem_cons.mp member with rfl | later
      · rw [lookup_foldl_insert_of_not_mem key value fresh, AList.lookup_insert]
      · exact induction nodup later _

end

section

variable {Key' Value' : Type}

abbrev Entry (Key Value : Type) := Sigma fun _ : Key => Value

omit [DecidableEq Key] in
theorem mem_map_entries_iff (key : Key → Key')
    (injective : Function.Injective key) (map : Map Key Value) (k : Key) :
    key k ∈ map.entries.map (fun entry => key entry.1) ↔ k ∈ map := by
  rw [AList.mem_keys, AList.keys, List.keys, List.mem_map, List.mem_map]
  constructor
  · rintro ⟨entry, member, same⟩
    exact ⟨entry, member, injective same⟩
  · rintro ⟨entry, member, rfl⟩
    exact ⟨entry, member, rfl⟩

variable [DecidableEq Key'] (key : Key → Key') (value : Key → Value → Value')

/-- The map that a loop over the entries of another one fills. -/
def rebuild (map : Map Key Value) : Map Key' Value' :=
  map.entries.foldl
    (fun built entry => built.insert (key entry.1) (value entry.1 entry.2)) ∅

theorem lookup_rebuild (injective : Function.Injective key)
    (map : Map Key Value) (k : Key) :
    (rebuild key value map).lookup (key k) = (map.lookup k).map (value k) := by
  cases found : map.lookup k with
  | some v =>
      have nodup : (map.entries.map fun entry => key entry.1).Nodup := by
        have keys : (map.entries.map fun entry => key entry.1) =
            map.keys.map key := by
          rw [AList.keys, List.keys, List.map_map]
          rfl
        rw [keys]
        exact map.keys_nodup.map injective
      exact lookup_foldl_insert (fun entry : Entry Key Value => key entry.1)
        (fun entry => value entry.1 entry.2) nodup
        (AList.mem_lookup_iff.mp found) ∅
  | none =>
      have absent : key k ∉ map.entries.map fun entry => key entry.1 := by
        rw [mem_map_entries_iff key injective]
        exact AList.lookup_eq_none.mp found
      exact lookup_foldl_insert_of_not_mem (fun entry : Entry Key Value => key entry.1)
        (fun entry => value entry.1 entry.2) absent ∅

/-- Two loops that write alike fill maps that are alike. -/
theorem lookup_rebuild_congr {value' : Key → Value → Value'}
    (injective : Function.Injective key) {map map' : Map Key Value}
    (alike : ∀ k,
      (map.lookup k).map (value k) = (map'.lookup k).map (value' k))
    (k' : Key') :
    (rebuild key value map).lookup k' = (rebuild key value' map').lookup k' := by
  by_cases inside : ∃ k, key k = k'
  · obtain ⟨k, rfl⟩ := inside
    rw [lookup_rebuild key value injective, lookup_rebuild key value' injective]
    exact alike k
  · have outside : ∀ map : Map Key Value,
        k' ∉ map.entries.map fun entry => key entry.1 := by
      intro map member
      obtain ⟨entry, _, same⟩ := List.mem_map.mp member
      exact inside ⟨entry.1, same⟩
    rw [rebuild, rebuild,
      lookup_foldl_insert_of_not_mem (fun entry : Entry Key Value => key entry.1)
        (fun entry => value entry.1 entry.2) (outside map),
      lookup_foldl_insert_of_not_mem (fun entry : Entry Key Value => key entry.1)
        (fun entry => value' entry.1 entry.2) (outside map')]

end

end KeyMap
