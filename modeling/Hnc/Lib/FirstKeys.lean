import Mathlib.Data.List.Nodup
import Mathlib.Tactic.Common

/-!
# The first items of their keys

A loop over items that skips an item whose key it has seen keeps the first item
of each key.
-/

namespace FirstKeys

variable {Item Key : Type} [DecidableEq Key] (key : Item → Key)

/-- The items whose key is new. -/
def firsts : List Key → List Item → List Item
  | _, [] => []
  | seen, item :: rest =>
      if key item ∈ seen then firsts seen rest
      else item :: firsts (key item :: seen) rest

variable {key}

variable {seen : List Key} {items : List Item} {item : Item}

theorem mem_of_mem_firsts (member : item ∈ firsts key seen items) :
    item ∈ items := by
  induction items generalizing seen with
  | nil => cases member
  | cons first rest induction =>
      rw [firsts] at member
      split at member
      · exact List.mem_cons_of_mem _ (induction member)
      · rcases List.mem_cons.mp member with same | later
        · rw [same]
          exact List.mem_cons_self
        · exact List.mem_cons_of_mem _ (induction later)

theorem key_not_seen (member : item ∈ firsts key seen items) :
    key item ∉ seen := by
  induction items generalizing seen with
  | nil => cases member
  | cons first rest induction =>
      rw [firsts] at member
      split at member
      · exact induction member
      · rename_i fresh
        rcases List.mem_cons.mp member with same | later
        · rw [same]
          exact fresh
        · intro known
          exact induction later (List.mem_cons_of_mem _ known)

theorem nodup_firsts (seen : List Key) (items : List Item) :
    ((firsts key seen items).map key).Nodup := by
  induction items generalizing seen with
  | nil => exact List.nodup_nil
  | cons first rest induction =>
      rw [firsts]
      split
      · exact induction seen
      · rw [List.map_cons, List.nodup_cons]
        refine ⟨?_, induction _⟩
        intro again
        obtain ⟨item, member, same⟩ := List.mem_map.mp again
        apply key_not_seen member
        rw [same]
        exact List.mem_cons_self

/-- Every key that has not been seen has a first item. -/
theorem mem_keys_firsts (seen : List Key) (items : List Item) (k : Key) :
    k ∈ (firsts key seen items).map key ↔ k ∈ items.map key ∧ k ∉ seen := by
  induction items generalizing seen with
  | nil => simp [firsts]
  | cons first rest induction =>
      rw [firsts]
      by_cases known : key first ∈ seen
      · rw [if_pos known, induction, List.map_cons, List.mem_cons]
        constructor
        · rintro ⟨member, fresh⟩
          exact ⟨.inr member, fresh⟩
        · rintro ⟨same | member, fresh⟩
          · rw [same] at fresh
            exact absurd known fresh
          · exact ⟨member, fresh⟩
      · rw [if_neg known, List.map_cons, List.mem_cons, induction, List.map_cons]
        by_cases same : k = key first
        · simp [same, known]
        · simp [same]

theorem mem_firsts_append {more : List Item}
    (member : item ∈ firsts key seen (items ++ more)) :
    item ∈ items ∨ item ∈ more ∧ key item ∉ items.map key := by
  induction items generalizing seen with
  | nil => exact .inr ⟨mem_of_mem_firsts member, by simp⟩
  | cons first rest induction =>
      rw [List.cons_append, firsts] at member
      split at member
      · rename_i known
        have fresh := key_not_seen member
        rcases induction member with here | ⟨later, absent⟩
        · exact .inl (List.mem_cons_of_mem _ here)
        · refine .inr ⟨later, ?_⟩
          rw [List.map_cons, List.mem_cons]
          rintro (same | before)
          · rw [same] at fresh
            exact fresh known
          · exact absent before
      · rcases List.mem_cons.mp member with same | member
        · rw [same]
          exact .inl List.mem_cons_self
        · have fresh := key_not_seen member
          rcases induction member with here | ⟨later, absent⟩
          · exact .inl (List.mem_cons_of_mem _ here)
          · refine .inr ⟨later, ?_⟩
            rw [List.map_cons, List.mem_cons]
            rintro (same | before)
            · rw [same] at fresh
              exact fresh List.mem_cons_self
            · exact absent before

end FirstKeys
