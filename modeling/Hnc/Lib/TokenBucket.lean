import Hnc.Lib.Runs
import Mathlib.Algebra.Order.Group.Int
import Mathlib.Algebra.Order.Ring.Int
import Mathlib.Tactic.Ring

/-!
# Token buckets

A bucket holds at most `capacity` tokens and gains `rate` of them in each unit
of time.  A machine that takes tokens out of it takes at most
`capacity + rate * d` of them in an interval of length `d`, whatever else it
does: what has been taken and what is left grow together no faster than the
rate.
-/

namespace TokenBucket

/-- What a bucket holds at a time, if it held `tokens` when it was last
refilled. -/
def level (capacity rate tokens lastRefill now : Int) : Int :=
  min capacity (tokens + rate * (now - lastRefill))

theorem level_le (capacity rate tokens lastRefill now : Int) :
    level capacity rate tokens lastRefill now ≤ capacity :=
  min_le_left _ _

theorem level_later {capacity rate : Int} (gains : 0 ≤ rate)
    (tokens lastRefill : Int) {now later : Int} (le : now ≤ later) :
    level capacity rate tokens lastRefill later ≤
      level capacity rate tokens lastRefill now + rate * (later - now) := by
  have gained : 0 ≤ rate * (later - now) := mul_nonneg gains (by omega)
  have split : rate * (later - lastRefill) =
      rate * (now - lastRefill) + rate * (later - now) := by ring
  simp only [level]
  omega

theorem level_nonneg {capacity rate tokens lastRefill now : Int}
    (holds : 0 ≤ capacity) (gains : 0 ≤ rate) (some : 0 ≤ tokens)
    (past : lastRefill ≤ now) :
    0 ≤ level capacity rate tokens lastRefill now := by
  have gained : 0 ≤ rate * (now - lastRefill) := mul_nonneg gains (by omega)
  simp only [level]
  omega

/-- A machine with a clock that takes tokens out of a bucket. -/
structure Machine (State Step : Type) where
  step : State → Step → State
  clock : State → Int
  level : State → Int
  takes : State → Step → Bool

namespace Machine

variable {State Step : Type} (machine : Machine State Step)

/-- The step ends in the interval. -/
def Within (t1 t2 : Int) (state : State) (next : Step) : Prop :=
  t1 ≤ machine.clock (machine.step state next) ∧
    machine.clock (machine.step state next) ≤ t2

instance (t1 t2 : Int) (state : State) (next : Step) :
    Decidable (machine.Within t1 t2 state next) :=
  inferInstanceAs (Decidable (_ ∧ _))

/-- The tokens that a step takes. -/
def spent (state : State) (next : Step) : Nat :=
  if machine.takes state next then 1 else 0

/-- The tokens that the steps ending in an interval take. -/
def taken (t1 t2 : Int) : State → List Step → Nat
  | _, [] => 0
  | state, first :: rest =>
      (if machine.Within t1 t2 state first then machine.spent state first
        else 0) + taken t1 t2 (machine.step state first) rest

theorem taken_append (t1 t2 : Int) (state : State) (steps more : List Step) :
    machine.taken t1 t2 state (steps ++ more) =
      machine.taken t1 t2 state steps +
        machine.taken t1 t2 (steps.foldl machine.step state) more := by
  induction steps generalizing state with
  | nil => simp [taken]
  | cons first rest induction =>
      rw [List.cons_append, taken, taken, induction, List.foldl_cons,
        Nat.add_assoc]

variable {steps : List Step}

theorem taken_eq_zero (t1 t2 : Int) (state : State)
    (idle : ∀ state, ∀ next ∈ steps, machine.takes state next = false) :
    machine.taken t1 t2 state steps = 0 := by
  induction steps generalizing state with
  | nil => rfl
  | cons first rest induction =>
      have none : machine.spent state first = 0 := by
        simp [spent, idle state first]
      rw [taken, none, ite_self, Nat.zero_add]
      exact induction _ fun state next member =>
        idle state next (List.mem_cons_of_mem first member)

/-- The rules of the bucket.  A step that is not spared may fill it for
nothing. -/
structure Governed (capacity rate : Int) (inv : State → Prop)
    (spared : State → Step → Prop) : Prop where
  gains : 0 ≤ rate
  nonneg : ∀ state, inv state → 0 ≤ machine.level state
  atMost : ∀ state, inv state → machine.level state ≤ capacity
  runs : ∀ state next, machine.clock state ≤
    machine.clock (machine.step state next)
  preserved : ∀ state next, inv state → inv (machine.step state next)
  pays : ∀ state next, inv state → spared state next →
    machine.level (machine.step state next) + machine.spent state next ≤
      min capacity (machine.level state + rate *
        (machine.clock (machine.step state next) - machine.clock state))

namespace Governed

variable {machine} {capacity rate t1 t2 : Int} {inv : State → Prop}
  {spared : State → Step → Prop}
  (governed : machine.Governed capacity rate inv spared)

include governed

variable {state : State}

theorem taken_after (late : t2 < machine.clock state) :
    machine.taken t1 t2 state steps = 0 := by
  induction steps generalizing state with
  | nil => rfl
  | cons first rest induction =>
      have runs := governed.runs state first
      have outside : ¬machine.Within t1 t2 state first := by
        rintro ⟨_, early⟩
        omega
      rw [taken, if_neg outside, induction (by omega)]

/-- From a state inside the interval on, the level of that state counts. -/
theorem taken_inside (holds : inv state)
    (safe : Runs.Guarded machine.step (fun state next => machine.Within t1 t2 state next → spared state next) state steps)
    (started : t1 ≤ machine.clock state) (running : machine.clock state ≤ t2) :
    (machine.taken t1 t2 state steps : Int) ≤
      machine.level state + rate * (t2 - machine.clock state) := by
  induction steps generalizing state with
  | nil =>
      have gained : 0 ≤ rate * (t2 - machine.clock state) :=
        mul_nonneg governed.gains (by omega)
      have nonneg := governed.nonneg state holds
      simp only [taken]
      omega
  | cons first rest induction =>
      have runs := governed.runs state first
      have kept := governed.preserved state first holds
      by_cases within : machine.Within t1 t2 state first
      · have pays := governed.pays state first holds (safe.1 within)
        have later := induction kept safe.2 within.1 within.2
        have split : rate * (t2 - machine.clock state) =
            rate * (machine.clock (machine.step state first) -
              machine.clock state) +
            rate * (t2 - machine.clock (machine.step state first)) := by ring
        rw [taken]
        push_cast
        omega
      · have late : t2 < machine.clock (machine.step state first) := by
          by_contra early
          exact within ⟨by omega, by omega⟩
        have gained : 0 ≤ rate * (t2 - machine.clock state) :=
          mul_nonneg governed.gains (by omega)
        have nonneg := governed.nonneg state holds
        rw [taken, if_neg within, governed.taken_after late]
        omega

theorem taken_le (holdsSome : 0 ≤ capacity) (ordered : t1 ≤ t2)
    (holds : inv state)
    (safe : Runs.Guarded machine.step (fun state next => machine.Within t1 t2 state next → spared state next) state steps) :
    (machine.taken t1 t2 state steps : Int) ≤ capacity + rate * (t2 - t1) := by
  have gained : 0 ≤ rate * (t2 - t1) :=
    mul_nonneg governed.gains (by omega)
  induction steps generalizing state with
  | nil =>
      simp only [taken]
      omega
  | cons first rest induction =>
      have kept := governed.preserved state first holds
      by_cases within : machine.Within t1 t2 state first
      · have pays := governed.pays state first holds (safe.1 within)
        have later :=
          governed.taken_inside kept safe.2 within.1 within.2
        have shorter : rate * (t2 - machine.clock (machine.step state first)) ≤
            rate * (t2 - t1) :=
          mul_le_mul_of_nonneg_left (by have start := within.1; omega)
            governed.gains
        rw [taken]
        push_cast
        omega
      · rw [taken, if_neg within, Nat.zero_add]
        exact induction kept safe.2

end Governed

end Machine

end TokenBucket
