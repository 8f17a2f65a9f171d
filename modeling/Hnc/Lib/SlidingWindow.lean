import Mathlib.Data.List.Basic
import Mathlib.Data.List.DropRight
import Mathlib.Data.List.TakeWhile
import Mathlib.Order.Lattice
import Mathlib.Tactic.Common

/-!
# Sliding windows over a log

A log of events is kept with its newest times only: what is missing in front has
expired.  A cutoff only moves forward, so that a time that has expired once
never counts again.  A log that keeps a fixed number of its last times still
tells whether so many of all its times are within the window.
-/

namespace SlidingWindow

variable {Time : Type} [LinearOrder Time]

/-- The times within the window. -/
def inside (cutoff : Time) (times : List Time) : List Time :=
  times.filter fun t => cutoff < t

/-- `stored` is the log without some expired times in front. -/
def Keeps (cutoff : Time) (log stored : List Time) : Prop :=
  ∃ expired, log = expired ++ stored ∧ ∀ t ∈ expired, t ≤ cutoff

variable {cutoff next : Time} {log stored : List Time}

theorem Keeps.refl (cutoff : Time) (log : List Time) : Keeps cutoff log log :=
  ⟨[], rfl, by simp⟩

theorem Keeps.later (keeps : Keeps cutoff log stored) (le : cutoff ≤ next) :
    Keeps next log stored := by
  obtain ⟨expired, split, old⟩ := keeps
  exact ⟨expired, split, fun t member => le_trans (old t member) le⟩

theorem Keeps.append (keeps : Keeps cutoff log stored) (times : List Time) :
    Keeps cutoff (log ++ times) (stored ++ times) := by
  obtain ⟨expired, split, old⟩ := keeps
  exact ⟨expired, by rw [split, List.append_assoc], old⟩

/-- All times have expired. -/
theorem keeps_nil (old : ∀ t ∈ log, t ≤ cutoff) : Keeps cutoff log [] :=
  ⟨log, (List.append_nil log).symm, old⟩

theorem Keeps.sorted (keeps : Keeps cutoff log stored)
    (sorted : log.Pairwise (· ≤ ·)) : stored.Pairwise (· ≤ ·) := by
  obtain ⟨expired, split, _⟩ := keeps
  rw [split] at sorted
  exact (List.pairwise_append.mp sorted).2.1

/-- The front of sorted times up to the cutoff is all that has expired. -/
theorem dropWhile_eq_inside {times : List Time}
    (sorted : times.Pairwise (· ≤ ·)) (cutoff : Time) :
    (times.dropWhile fun t => t ≤ cutoff) = inside cutoff times := by
  induction times with
  | nil => rfl
  | cons t times induction =>
      obtain ⟨first, rest⟩ := List.pairwise_cons.mp sorted
      by_cases old : t ≤ cutoff
      · have outside : ¬cutoff < t := not_lt.mpr old
        rw [List.dropWhile_cons_of_pos (by simpa using old), induction rest,
          inside, inside, List.filter_cons_of_neg (by simpa using outside)]
      · have fresh : ∀ u ∈ t :: times, cutoff < u := by
          intro u member
          rcases List.mem_cons.mp member with rfl | behind
          · exact not_le.mp old
          · exact lt_of_lt_of_le (not_le.mp old) (first u behind)
        rw [List.dropWhile_cons_of_neg (by simpa using old)]
        exact (List.filter_eq_self.mpr fun u member => by
          simpa using fresh u member).symm

/-- Trimming what is stored leaves the part of the log within the window. -/
theorem Keeps.trim (keeps : Keeps cutoff log stored)
    (sorted : log.Pairwise (· ≤ ·)) (le : cutoff ≤ next) :
    (stored.dropWhile fun t => t ≤ next) = inside next log ∧
      Keeps next log (inside next log) := by
  have storedSorted := keeps.sorted sorted
  obtain ⟨expired, split, old⟩ := keeps.later le
  have same : inside next log = inside next stored := by
    have none : expired.filter (fun t => decide (next < t)) = [] := by
      apply List.filter_eq_nil_iff.mpr
      intro t member
      simpa using old t member
    rw [inside, split, List.filter_append, none, List.nil_append, inside]
  have trimmed := dropWhile_eq_inside storedSorted next
  refine ⟨trimmed.trans same.symm, ?_⟩
  refine ⟨expired ++ stored.takeWhile fun t => t ≤ next, ?_, ?_⟩
  · rw [same, ← trimmed, List.append_assoc, List.takeWhile_append_dropWhile]
    exact split
  · intro t member
    rcases List.mem_append.mp member with front | behind
    · exact old t front
    · simpa using List.mem_takeWhile_imp behind

/-- The last times move up by one when they are full. -/
theorem rtake_concat (log : List Time) (t : Time) {n : Nat} (positive : 0 < n) :
    (log ++ [t]).rtake n =
      (if (log.rtake n).length < n then log.rtake n else (log.rtake n).tail) ++
        [t] := by
  obtain ⟨m, rfl⟩ := Nat.exists_eq_succ_of_ne_zero (Nat.ne_of_gt positive)
  rw [List.rtake_concat_succ]
  congr 1
  simp only [List.rtake, List.length_drop]
  split
  · have short : log.length - m = log.length - (m + 1) := by omega
    rw [short]
  · have next : log.length - m = log.length - (m + 1) + 1 := by omega
    rw [List.tail_drop, next]

/-- Times that are forgotten do not matter: when one of the last times has
expired, so have all in front of them. -/
theorem le_countP_rtake_iff (sorted : log.Pairwise (· ≤ ·)) (cutoff : Time)
    {n m : Nat} (le : n ≤ m) :
    n ≤ (log.rtake m).countP (fun t => decide (cutoff ≤ t)) ↔
      n ≤ log.countP fun t => decide (cutoff ≤ t) := by
  have split : log = log.take (log.length - m) ++ log.rtake m :=
    (List.take_append_drop _ _).symm
  have total := congrArg (List.countP fun t => decide (cutoff ≤ t)) split
  rw [List.countP_append] at total
  constructor
  · intro last
    omega
  · intro all
    by_contra few
    rw [split] at sorted
    obtain ⟨_, _, across⟩ := List.pairwise_append.mp sorted
    -- a last time has expired, or there are fewer than `m` times in all
    have front : (log.take (log.length - m)).countP
        (fun t => decide (cutoff ≤ t)) = 0 := by
      by_cases long : m ≤ log.length
      · have length : (log.rtake m).length = m := by
          rw [List.rtake, List.length_drop]
          omega
        obtain ⟨old, member, expired⟩ : ∃ t ∈ log.rtake m, ¬cutoff ≤ t := by
          by_contra fresh
          have every : (log.rtake m).countP (fun t => decide (cutoff ≤ t)) =
              (log.rtake m).length := by
            apply List.countP_eq_length.mpr
            intro t member
            by_contra other
            exact fresh ⟨t, member, by simpa using other⟩
          omega
        apply List.countP_eq_zero.mpr
        intro t earlier
        have before := across t earlier old member
        simpa using lt_of_le_of_lt before (not_le.mp expired)
      · have none : log.length - m = 0 := by omega
        rw [none]
        rfl
    omega

end SlidingWindow
