import Hnc.Lib.Runs
import Mathlib.Data.List.Induction

/-!
# Tallies that come and go

A run keeps a cell with a counter, which comes with the first step that hits
it, counts the steps that hit it later and may be dropped by a step that does
not.
-/

namespace Tallies

variable {State Step Cell : Type} (step : State → Step → State)
  (cell : State → Option Cell) (hits : Step → Bool)

/-- The cell came with a step of the run and was there ever since; with that
step, `n` steps have hit it. -/
def HitsSince (start : State) (steps : List Step) (n : Nat) : Prop :=
  ∃ before first after,
    steps = before ++ first :: after ∧
      cell (before.foldl step start) = none ∧ hits first = true ∧
      (∀ earlier, earlier <+: after →
        (cell (earlier.foldl step
          (step (before.foldl step start) first))).isSome) ∧
      n = 1 + after.countP hits

/-- What a step does to the cell. -/
structure Counted (count : Cell → UInt64) (state : State) (next : Step) :
    Prop where
  hit : hits next = true → ∃ found, cell (step state next) = some found ∧
    count found = (cell state).elim 1 fun before => count before + 1
  miss : hits next = false →
    cell (step state next) = cell state ∨ cell (step state next) = none

variable {step cell hits} {count : Cell → UInt64}

theorem HitsSince.longer {start : State} {steps : List Step} {n : Nat}
    (since : HitsSince step cell hits start steps n) {last : Step}
    (stays : (cell (step (steps.foldl step start) last)).isSome) :
    HitsSince step cell hits start (steps ++ [last])
      (n + if hits last then 1 else 0) := by
  obtain ⟨before, first, after, split, absent, hit, present, total⟩ := since
  refine ⟨before, first, after ++ [last], ?_, absent, hit, ?_, ?_⟩
  · rw [split, List.append_assoc, List.cons_append]
  · intro earlier isPrefix
    rcases List.prefix_concat_iff.mp isPrefix with whole | shorter
    · rw [split, List.foldl_append] at stays
      rw [whole, List.foldl_append, List.foldl_cons]
      exact stays
    · exact present earlier shorter
  · rw [List.countP_append, List.countP_singleton]
    split <;> omega

/-- The counter of a cell is the number of hits since it came, as far as 64
bits go. -/
theorem count_hitsSince (inv : State → Prop) {start : State}
    (preserved : ∀ state next, inv state → inv (step state next))
    (counted : ∀ state next, inv state →
      Counted step cell hits count state next)
    (initial : inv start) (absent : cell start = none) {steps : List Step}
    {found : Cell} (here : cell (steps.foldl step start) = some found) :
    ∃ n, HitsSince step cell hits start steps n ∧
      count found = UInt64.ofNat n := by
  induction steps using List.reverseRecOn generalizing found with
  | nil =>
      rw [List.foldl_nil, absent] at here
      cases here
  | append_singleton steps last induction =>
      have holds := Runs.foldl_induction inv preserved initial steps
      have change := counted _ last holds
      rw [List.foldl_append, List.foldl_cons, List.foldl_nil] at here
      have stays : (cell (step (steps.foldl step start) last)).isSome := by
        rw [here]
        rfl
      cases hit : hits last with
      | true =>
          obtain ⟨after, same, value⟩ := change.hit hit
          rw [here] at same
          cases same
          cases before : cell (steps.foldl step start) with
          | none =>
              rw [before] at value
              refine ⟨1, ⟨steps, last, [], rfl, before, hit, ?_, rfl⟩, value⟩
              intro earlier isPrefix
              rw [List.prefix_nil.mp isPrefix]
              exact stays
          | some earlier =>
              rw [before] at value
              obtain ⟨n, since, tally⟩ := induction before
              have longer := since.longer stays
              rw [hit] at longer
              refine ⟨n + 1, longer, ?_⟩
              rw [value, Option.elim_some, tally, UInt64.ofNat_add]
              rfl
      | false =>
          rcases change.miss hit with same | gone
          · rw [here] at same
            obtain ⟨n, since, tally⟩ := induction same.symm
            have longer := since.longer stays
            rw [hit] at longer
            exact ⟨n, longer, tally⟩
          · rw [here] at gone
            cases gone

end Tallies
