import Hnc.Lib.KeyMap

/-!
# Maps that lose their oldest entry

A map with a limit makes room for a new key by dropping an entry that was seen
the longest time ago.  The loop that looks for it visits the keys in any order
and takes one key, which no entry may have, for none.
-/

namespace OldestFirst

open KeyMap

/-- The order in which a loop visits the keys of a map is open. -/
structure Visit (Key : Type) where
  order : List Key → List Key
  perm : ∀ keys, (order keys).Perm keys

section

variable {Key Value : Type} [DecidableEq Key]

/-- `len(map)`. -/
def size (map : Map Key Value) : Nat :=
  map.keys.length

variable (noKey : Key) (lastSeen : Value → Int)

/-- The body of the loop, which keeps the oldest entry so far. -/
def older (map : Map Key Value) (best : Key × Int) (key : Key) : Key × Int :=
  match map.lookup key with
  | none => best
  | some value =>
      if best.1 = noKey ∨ lastSeen value < best.2 then (key, lastSeen value)
      else best

def oldestKey (visit : Visit Key) (map : Map Key Value) : Key :=
  ((visit.order map.keys).foldl (older noKey lastSeen map) (noKey, 0)).1

def evictOldest (visit : Visit Key) (map : Map Key Value) : Map Key Value :=
  let oldest := oldestKey noKey lastSeen visit map
  if oldest = noKey then map else map.erase oldest

/-- The map with room for a key. -/
def makeRoom (visit : Visit Key) (limit : Nat) (map : Map Key Value)
    (key : Key) : Map Key Value :=
  if limit ≤ size map ∧ key ∉ map then evictOldest noKey lastSeen visit map
  else map

/-- A key is dropped for the sake of a new one. -/
structure Displaced (limit : Nat) (map : Map Key Value) (recorded key : Key) :
    Prop where
  full : limit ≤ size map
  fresh : recorded ∉ map
  least : ∃ value, map.lookup key = some value ∧
    ∀ other otherValue, map.lookup other = some otherValue →
      lastSeen value ≤ lastSeen otherValue

end

section

variable {Key Value : Type} [DecidableEq Key] {noKey : Key}
  {lastSeen : Value → Int} {map : Map Key Value}

/-- The best entry is in the map and is the oldest of those seen. -/
def Least (lastSeen : Value → Int) (map : Map Key Value) (seen : List Key)
    (best : Key × Int) : Prop :=
  (∃ value, map.lookup best.1 = some value ∧ lastSeen value = best.2) ∧
    ∀ key ∈ seen, ∀ value, map.lookup key = some value →
      best.2 ≤ lastSeen value

theorem Least.older (usable : noKey ∉ map) {seen : List Key}
    {best : Key × Int} (least : Least lastSeen map seen best) (key : Key) :
    Least lastSeen map (seen ++ [key])
      (older noKey lastSeen map best key) := by
  obtain ⟨⟨value, found, time⟩, all⟩ := least
  have named : best.1 ≠ noKey := by
    intro same
    rw [same, AList.lookup_eq_none.mpr usable] at found
    cases found
  unfold OldestFirst.older
  cases here : map.lookup key with
  | none =>
      refine ⟨⟨value, found, time⟩, ?_⟩
      intro other member otherValue otherFound
      rcases List.mem_append.mp member with earlier | last
      · exact all other earlier otherValue otherFound
      · rw [List.mem_singleton.mp last, here] at otherFound
        cases otherFound
  | some value' =>
      dsimp only
      by_cases before : lastSeen value' < best.2
      · rw [if_pos (.inr before)]
        refine ⟨⟨value', here, rfl⟩, ?_⟩
        intro other member otherValue otherFound
        rcases List.mem_append.mp member with earlier | last
        · have := all other earlier otherValue otherFound
          omega
        · rw [List.mem_singleton.mp last, here] at otherFound
          cases otherFound
          exact Int.le_refl _
      · rw [if_neg (not_or.mpr ⟨named, before⟩)]
        refine ⟨⟨value, found, time⟩, ?_⟩
        intro other member otherValue otherFound
        rcases List.mem_append.mp member with earlier | last
        · exact all other earlier otherValue otherFound
        · rw [List.mem_singleton.mp last, here] at otherFound
          cases otherFound
          omega

theorem Least.foldl (usable : noKey ∉ map) {seen : List Key}
    {best : Key × Int} (least : Least lastSeen map seen best)
    (keys : List Key) :
    Least lastSeen map (seen ++ keys)
      (keys.foldl (OldestFirst.older noKey lastSeen map) best) := by
  induction keys generalizing seen best with
  | nil =>
      rw [List.append_nil]
      exact least
  | cons key keys induction =>
      have next := induction (least.older usable key)
      rwa [List.append_assoc, List.singleton_append] at next

/-- The loop finds an entry that no other is older than. -/
theorem oldestKey_least (usable : noKey ∉ map) (nonempty : map.keys ≠ [])
    (visit : Visit Key) :
    ∃ value, map.lookup (oldestKey noKey lastSeen visit map) = some value ∧
      ∀ key other, map.lookup key = some other →
        lastSeen value ≤ lastSeen other := by
  have perm := visit.perm map.keys
  rw [oldestKey]
  cases order : visit.order map.keys with
  | nil =>
      rw [order] at perm
      exact absurd perm.symm.eq_nil nonempty
  | cons key keys =>
      rw [order] at perm
      have member : key ∈ map := perm.mem_iff.mp List.mem_cons_self
      obtain ⟨value, found⟩ := Option.isSome_iff_exists.mp
        (AList.lookup_isSome.mpr member)
      have first : older noKey lastSeen map (noKey, 0) key =
          (key, lastSeen value) := by
        rw [older, found]
        exact if_pos (.inl rfl)
      have start : Least lastSeen map [key] (key, lastSeen value) := by
        refine ⟨⟨value, found, rfl⟩, ?_⟩
        intro other same otherValue otherFound
        rw [List.mem_singleton.mp same, found] at otherFound
        cases otherFound
        exact Int.le_refl _
      obtain ⟨⟨oldest, oldestFound, time⟩, all⟩ := start.foldl usable keys
      rw [List.foldl_cons, first]
      refine ⟨oldest, oldestFound, ?_⟩
      intro other otherValue otherFound
      rw [time]
      apply all other ?_ otherValue otherFound
      apply perm.mem_iff.mpr
      apply AList.lookup_isSome.mp
      rw [otherFound]
      rfl

theorem size_insert (map : Map Key Value) (key : Key) (value : Value) :
    size (map.insert key value) =
      if key ∈ map then size map else size map + 1 := by
  rw [size, AList.keys_insert, List.length_cons]
  by_cases member : key ∈ map
  · rw [if_pos member, List.length_erase_of_mem member]
    exact Nat.succ_pred_eq_of_pos (List.length_pos_of_mem member)
  · rw [if_neg member, List.erase_of_not_mem member, size]

theorem size_erase {key : Key} (member : key ∈ map) :
    size (map.erase key) + 1 = size map := by
  rw [size, AList.keys_erase, List.length_erase_of_mem member]
  exact Nat.succ_pred_eq_of_pos (List.length_pos_of_mem member)

/-- Room is there already, or it is made by dropping the oldest entry. -/
theorem makeRoom_cases (usable : noKey ∉ map) {limit : Nat} (some_ : 0 < limit)
    (visit : Visit Key) (key : Key) :
    makeRoom noKey lastSeen visit limit map key = map ∧
        (size map < limit ∨ key ∈ map) ∨
      ∃ dropped, makeRoom noKey lastSeen visit limit map key =
          map.erase dropped ∧
        dropped ∈ map ∧ Displaced lastSeen limit map key dropped := by
  unfold makeRoom
  by_cases needed : limit ≤ size map ∧ key ∉ map
  · rw [if_pos needed]
    have nonempty : map.keys ≠ [] :=
      List.ne_nil_of_length_pos (Nat.lt_of_lt_of_le some_ needed.1)
    obtain ⟨value, found, least⟩ :=
      @oldestKey_least _ _ _ _ lastSeen _ usable nonempty visit
    have member : oldestKey noKey lastSeen visit map ∈ map := by
      apply AList.lookup_isSome.mp
      rw [found]
      rfl
    have named : oldestKey noKey lastSeen visit map ≠ noKey := by
      intro same
      rw [same] at member
      exact usable member
    refine .inr ⟨_, if_neg named, member, needed.1, needed.2, value, found,
      least⟩
  · rw [if_neg needed]
    refine .inl ⟨rfl, ?_⟩
    by_cases member : key ∈ map
    · exact .inr member
    · exact .inl (Nat.lt_of_not_le fun full => needed ⟨full, member⟩)

/-- The map with an entry under a key, for which room is made. -/
def put (noKey : Key) (lastSeen : Value → Int) (visit : Visit Key)
    (limit : Nat) (map : Map Key Value) (key : Key) (value : Value) :
    Map Key Value :=
  (makeRoom noKey lastSeen visit limit map key).insert key value

section

variable {limit : Nat} {visit : Visit Key} {key : Key} {value : Value}

/-- Making room does not touch what is under the key. -/
theorem lookup_makeRoom (key : Key) :
    (makeRoom noKey lastSeen visit limit map key).lookup key =
      map.lookup key := by
  unfold makeRoom
  split
  · rename_i needed
    have missing := AList.lookup_eq_none.mpr needed.2
    unfold evictOldest
    dsimp only
    split
    · rfl
    · rw [lookup_erase_eq, missing, ite_self]
  · rfl

theorem insert_put (other : Value) :
    (put noKey lastSeen visit limit map key value).insert key other =
      put noKey lastSeen visit limit map key other :=
  AList.insert_insert _

theorem lookup_put_self :
    (put noKey lastSeen visit limit map key value).lookup key = some value :=
  AList.lookup_insert _

/-- An entry under another key stays or is displaced. -/
theorem lookup_put_other (usable : noKey ∉ map) (some_ : 0 < limit)
    {other : Key} (different : other ≠ key) :
    (put noKey lastSeen visit limit map key value).lookup other =
        map.lookup other ∨
      (put noKey lastSeen visit limit map key value).lookup other = none ∧
        Displaced lastSeen limit map key other := by
  rw [put, AList.lookup_insert_ne different]
  rcases makeRoom_cases usable some_ visit key with room | dropping
  · rw [room.1]
    exact .inl rfl
  · obtain ⟨dropped, erased, -, displaced⟩ := dropping
    rw [erased, lookup_erase_eq]
    by_cases here : other = dropped
    · rw [if_pos here, here]
      exact .inr ⟨rfl, displaced⟩
    · rw [if_neg here]
      exact .inl rfl

theorem size_put_le (usable : noKey ∉ map) (some_ : 0 < limit)
    (bounded : size map ≤ limit) :
    size (put noKey lastSeen visit limit map key value) ≤ limit := by
  rw [put, size_insert]
  rcases makeRoom_cases usable some_ visit key with room | dropping
  · rw [room.1]
    split
    · exact bounded
    · rename_i fresh
      exact room.2.resolve_right fresh
  · obtain ⟨dropped, erased, member, displaced⟩ := dropping
    have smaller := size_erase member
    rw [erased]
    split <;> omega

theorem not_mem_put (usable : noKey ∉ map) (some_ : 0 < limit)
    (named : key ≠ noKey) :
    noKey ∉ put noKey lastSeen visit limit map key value := by
  intro member
  obtain ⟨found, here⟩ := Option.isSome_iff_exists.mp
    (AList.lookup_isSome.mpr member)
  have missing := AList.lookup_eq_none.mpr usable
  rcases lookup_put_other usable some_ named.symm with same | gone
  · rw [same, missing] at here
    cases here
  · rw [gone.1] at here
    cases here

end

/-- The map keeps its limit, and no entry has the key that stands for none. -/
structure Fits (noKey : Key) (limit : Nat) (map : Map Key Value) : Prop where
  bounded : size map ≤ limit
  usable : noKey ∉ map

omit [DecidableEq Key] in
theorem fits_empty (noKey : Key) (limit : Nat) :
    Fits noKey limit (∅ : Map Key Value) where
  bounded := Nat.zero_le limit
  usable := AList.notMem_empty noKey

theorem Fits.put {limit : Nat} (fits : Fits noKey limit map)
    (some_ : 0 < limit) (visit : Visit Key) {key : Key} (named : key ≠ noKey)
    (value : Value) :
    Fits noKey limit (put noKey lastSeen visit limit map key value) where
  bounded := size_put_le fits.usable some_ fits.bounded
  usable := not_mem_put fits.usable some_ named

end

end OldestFirst
