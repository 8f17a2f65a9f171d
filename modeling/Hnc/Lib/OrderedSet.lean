import Mathlib.Data.List.Induction
import Mathlib.Data.List.Nodup
import Mathlib.Tactic.Common

/-!
# Sets as lists

A list without duplicates is a set whose elements are in the order in which they
came.  A run of additions and removals leaves the others in their order.
-/

namespace OrderedSet

variable {Element : Type} [DecidableEq Element]

inductive Update (Element : Type) where
  | add (e : Element)
  | del (e : Element)
deriving DecidableEq, Repr

def Update.element : Update Element → Element
  | add e | del e => e

/-- A new element goes behind the others. -/
def apply (set : List Element) : Update Element → List Element
  | .add e => if e ∈ set then set else set ++ [e]
  | .del e => set.filter (· ≠ e)

/-- The last update of an element. -/
def lastUpdate (updates : List (Update Element)) (e : Element) :
    Option (Update Element) :=
  updates.reverse.find? fun update => update.element = e

/-- What the last update of an element says about it. -/
def Member (was : Prop) : Option (Update Element) → Prop
  | none => was
  | some (.add _) => True
  | some (.del _) => False

theorem nodup_apply {set : List Element} (nodup : set.Nodup)
    (update : Update Element) : (apply set update).Nodup := by
  cases update with
  | add e =>
      rw [apply]
      split
      · exact nodup
      · rename_i fresh
        rw [← List.concat_eq_append]
        exact nodup.concat fresh
  | del e => exact nodup.filter _

theorem mem_apply (set : List Element) (update : Update Element)
    (e : Element) :
    e ∈ apply set update ↔
      if update.element = e then update = .add e else e ∈ set := by
  cases update with
  | add other =>
      by_cases same : other = e
      · subst same
        by_cases member : other ∈ set <;> simp [apply, Update.element, member]
      · have differ : ¬ e = other := fun equal => same equal.symm
        by_cases member : other ∈ set <;>
          simp [apply, Update.element, member, same, differ]
  | del other =>
      by_cases same : other = e
      · subst same
        simp [apply, Update.element]
      · have differ : ¬ e = other := fun equal => same equal.symm
        simp [apply, Update.element, same, differ]

/-- The elements that a update does not remove stay in their order. -/
theorem sublist_apply (set : List Element) (update : Update Element) :
    (set.filter fun e => update ≠ .del e).Sublist (apply set update) := by
  cases update with
  | add other =>
      have all : (set.filter fun e => Update.add other ≠ .del e) = set :=
        List.filter_eq_self.mpr fun e _ => by simp
      rw [all, apply]
      split
      · exact List.Sublist.refl _
      · exact List.sublist_append_left _ _
  | del other =>
      have same : (set.filter fun e => Update.del other ≠ .del e) =
          set.filter (· ≠ other) := by
        apply List.filter_congr
        intro e _
        simp [eq_comm]
      rw [same, apply]

def run (set : List Element) (updates : List (Update Element)) :
    List Element :=
  updates.foldl apply set

theorem nodup_run {set : List Element} (nodup : set.Nodup)
    (updates : List (Update Element)) : (run set updates).Nodup := by
  induction updates generalizing set with
  | nil => exact nodup
  | cons update updates induction => exact induction (nodup_apply nodup update)

theorem mem_run (set : List Element) (updates : List (Update Element))
    (e : Element) :
    e ∈ run set updates ↔ Member (e ∈ set) (lastUpdate updates e) := by
  induction updates using List.reverseRecOn with
  | nil => rfl
  | append_singleton updates update induction =>
      rw [run, List.foldl_append, List.foldl_cons, List.foldl_nil, mem_apply,
        lastUpdate, List.reverse_append, List.reverse_singleton,
        List.singleton_append]
      by_cases same : update.element = e
      · rw [if_pos same, List.find?_cons_of_pos (by simpa using same)]
        cases update with
        | add other => simp [Member, ← same, Update.element]
        | del other => simp [Member]
      · rw [if_neg same, List.find?_cons_of_neg (by simpa using same)]
        exact induction

/-- The elements that are never removed stay in their order. -/
theorem sublist_run (set : List Element) (updates : List (Update Element)) :
    (set.filter fun e => Update.del e ∉ updates).Sublist
      (run set updates) := by
  induction updates generalizing set with
  | nil => simp [run]
  | cons update updates induction =>
      have kept := (sublist_apply set update).filter
        fun e => Update.del e ∉ updates
      rw [List.filter_filter] at kept
      have same : (set.filter fun e => Update.del e ∉ update :: updates) =
          set.filter fun e => decide (Update.del e ∉ updates) &&
            decide (update ≠ .del e) := by
        apply List.filter_congr
        intro e _
        by_cases first : update = .del e
        · simp [first]
        · have differ : ¬ Update.del e = update := fun equal => first equal.symm
          simp [first, differ]
      rw [same]
      exact kept.trans (induction (apply set update))

end OrderedSet
