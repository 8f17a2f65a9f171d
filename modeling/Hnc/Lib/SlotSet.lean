import Mathlib.Data.List.Induction
import Mathlib.Data.List.Nodup
import Mathlib.Data.List.Perm.Basic
import Mathlib.Tactic.Common

/-!
# Sets kept in an array

An unordered set in the first slots of an array: members are looked up by a
scan, a new one goes behind the last, and the last one fills the hole that a
removal leaves.
-/

namespace SlotSet

variable {α : Type} [DecidableEq α]

/-- The first slot that holds `item`. -/
def find (slots : List α) (item : α) : Option Nat :=
  slots.findIdx? (· = item)

/-- The slots after `item` was added, or nothing when it was there before or
all `room` slots are taken. -/
def add (room : Nat) (slots : List α) (item : α) : Option (List α) :=
  if (find slots item).isSome then none
  else if room ≤ slots.length then none
  else some (slots ++ [item])

/-- The slot at `index` gets the last one, and there is one slot less. -/
def fillHole (slots : List α) (index : Nat) : List α :=
  match slots.getLast? with
  | none => slots
  | some last => (slots.set index last).dropLast

/-- The slots after `item` was removed, or nothing when it was not there. -/
def remove (slots : List α) (item : α) : Option (List α) :=
  (find slots item).map (fillHole slots)

theorem find_isSome (slots : List α) (item : α) :
    (find slots item).isSome = true ↔ item ∈ slots := by
  simp [find]

variable {slots : List α} {item : α}

theorem find_eq_some {index : Nat} (found : find slots item = some index) :
    slots[index]? = some item := by
  obtain ⟨bound, here, _⟩ := List.findIdx?_eq_some_iff_getElem.mp found
  rw [List.getElem?_eq_getElem bound]
  simpa using here

omit [DecidableEq α] in
theorem fillHole_perm {index : Nat} (bound : index < slots.length) :
    (fillHole slots index).Perm (slots.eraseIdx index) := by
  induction slots using List.reverseRecOn with
  | nil => simp at bound
  | append_singleton front last _ =>
      simp only [List.length_append, List.length_singleton] at bound
      simp only [fillHole, List.getLast?_concat]
      by_cases inside : index < front.length
      · rw [List.set_append_left _ _ inside, List.dropLast_concat,
          List.eraseIdx_append_of_lt_length inside]
        exact (List.set_perm_cons_eraseIdx inside last).trans
          (List.perm_append_singleton last _).symm
      · have atEnd : index = front.length := by omega
        subst atEnd
        simp [List.eraseIdx_append_of_length_le]

/-- A removal takes out the one occurrence of the item. -/
theorem remove_perm {removed : List α} (done : remove slots item = some removed) :
    slots.Perm (item :: removed) := by
  obtain ⟨index, found, rfl⟩ := Option.map_eq_some_iff.mp done
  have here := find_eq_some found
  obtain ⟨bound, value⟩ := List.getElem?_eq_some_iff.mp here
  have split := List.getElem_cons_eraseIdx_perm bound
  rw [value] at split
  exact split.symm.trans ((fillHole_perm bound).symm.cons item)

theorem remove_eq_none : remove slots item = none ↔ item ∉ slots := by
  rw [remove, ← find_isSome]
  simp

variable {room : Nat}

theorem add_eq_some {added : List α} (done : add room slots item = some added) :
    item ∉ slots ∧ slots.length < room ∧ added = slots ++ [item] := by
  rw [add] at done
  split at done
  · cases done
  · rename_i absent
    split at done
    · cases done
    · refine ⟨?_, by omega, (Option.some.inj done).symm⟩
      rwa [find_isSome] at absent

theorem add_eq_none :
    add room slots item = none ↔ item ∈ slots ∨ room ≤ slots.length := by
  rw [add, ← find_isSome]
  split <;> simp_all

/-- Adding keeps a set of slots a set, whether it succeeds or not. -/
theorem nodup_add (nodup : slots.Nodup) :
    ((add room slots item).getD slots).Nodup := by
  cases done : add room slots item with
  | none => exact nodup
  | some added =>
      obtain ⟨absent, _, rfl⟩ := add_eq_some done
      exact List.nodup_append_comm.mp (nodup.cons absent)

theorem nodup_remove (nodup : slots.Nodup) :
    ((remove slots item).getD slots).Nodup := by
  cases done : remove slots item with
  | none => exact nodup
  | some removed =>
      exact ((remove_perm done).nodup_iff.mp nodup).of_cons

theorem mem_add (free : item ∉ slots → slots.length < room) (other : α) :
    other ∈ (add room slots item).getD slots ↔ other = item ∨ other ∈ slots := by
  cases done : add room slots item with
  | none =>
      rcases add_eq_none.mp done with present | full
      · constructor
        · exact Or.inr
        · intro either
          rcases either with same | member
          · rw [same]
            exact present
          · exact member
      · have present : item ∈ slots := by
          by_contra absent
          exact absurd (free absent) (by omega)
        simp only [Option.getD_none, iff_or_self]
        intro same
        rw [same]
        exact present
  | some added =>
      obtain ⟨_, _, rfl⟩ := add_eq_some done
      simp only [Option.getD_some, List.mem_append, List.mem_singleton]
      exact or_comm

theorem mem_remove (nodup : slots.Nodup) (other : α) :
    other ∈ (remove slots item).getD slots ↔ other ≠ item ∧ other ∈ slots := by
  cases done : remove slots item with
  | none =>
      have absent := remove_eq_none.mp done
      constructor
      · intro member
        refine ⟨?_, member⟩
        intro same
        exact absent (same ▸ member)
      · exact And.right
  | some removed =>
      have split := remove_perm done
      have fresh : item ∉ removed :=
        (List.nodup_cons.mp (split.nodup_iff.mp nodup)).1
      simp only [split.mem_iff, List.mem_cons]
      constructor
      · intro member
        refine ⟨?_, Or.inr member⟩
        intro same
        exact fresh (same ▸ member)
      · intro both
        exact both.2.resolve_left both.1

end SlotSet
