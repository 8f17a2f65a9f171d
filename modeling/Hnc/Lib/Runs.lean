import Mathlib.Data.List.Basic
import Mathlib.Tactic.Common

/-!
# Runs of a deterministic machine

A run is a list of steps folded over a state.  `Guarded` says that a condition
on the state before the step held at every step of a run; the rules below turn
preservation by one guarded step into a fact about every state that the run
visits.
-/

namespace Runs

variable {State Step : Type} (step : State → Step → State)

/-- The states a run visits, the first one included. -/
def visited (start : State) (steps : List Step) : List State :=
  steps.scanl step start

/-- Every step of the run is taken in a state that meets `cond`. -/
def Guarded (cond : State → Step → Prop) : State → List Step → Prop
  | _, [] => True
  | state, first :: rest =>
      cond state first ∧ Guarded cond (step state first) rest

variable {step} {cond : State → Step → Prop}

theorem mem_visited_start (start : State) (steps : List Step) :
    start ∈ visited step start steps := by
  cases steps <;> simp [visited]

theorem mem_visited_final (start : State) (steps : List Step) :
    steps.foldl step start ∈ visited step start steps := by
  induction steps generalizing start with
  | nil => exact mem_visited_start start []
  | cons first rest induction =>
      rw [visited, List.scanl_cons]
      exact List.mem_cons_of_mem _ (induction (step start first))

instance guardedDecidable [∀ state next, Decidable (cond state next)] :
    ∀ start steps, Decidable (Guarded step cond start steps)
  | _, [] => inferInstanceAs (Decidable True)
  | start, first :: rest =>
      haveI := guardedDecidable (step start first) rest
      inferInstanceAs (Decidable (_ ∧ _))

section

variable (inv : State → Prop)
  (preserved : ∀ state next, inv state → cond state next → inv (step state next))
  {start : State} {steps : List Step} (initial : inv start)
  (guarded : Guarded step cond start steps)
include inv preserved initial guarded

theorem Guarded.induction :
    ∀ state ∈ visited step start steps, inv state := by
  induction steps generalizing start with
  | nil =>
      intro state membership
      simp only [visited, List.scanl_nil, List.mem_singleton] at membership
      rw [membership]
      exact initial
  | cons first rest induction =>
      intro state membership
      simp only [visited, List.scanl_cons, List.mem_cons] at membership
      rcases membership with here | later
      · rw [here]
        exact initial
      · exact induction (preserved start first initial guarded.1) guarded.2
          state later

/-- The invariant rule for the last state of a run. -/
theorem Guarded.final_induction :
    inv (steps.foldl step start) := by
  induction steps generalizing start with
  | nil => exact initial
  | cons first rest induction =>
      exact induction (preserved start first initial guarded.1) guarded.2

end

section

variable {other : State → Step → Prop}

theorem guarded_congr (same : ∀ state next, cond state next ↔ other state next)
    (start : State) (steps : List Step) :
    Guarded step cond start steps ↔ Guarded step other start steps := by
  induction steps generalizing start with
  | nil => exact Iff.rfl
  | cons first rest induction =>
      exact and_congr (same start first) (induction (step start first))

variable {start : State} {steps : List Step}

theorem Guarded.imp (guarded : Guarded step cond start steps)
    (weaker : ∀ state next, cond state next → other state next) :
    Guarded step other start steps := by
  induction steps generalizing start with
  | nil => trivial
  | cons first rest induction =>
      exact ⟨weaker start first guarded.1, induction guarded.2⟩

theorem Guarded.and (left : Guarded step cond start steps)
    (right : Guarded step other start steps) :
    Guarded step (fun state next => cond state next ∧ other state next) start
      steps := by
  induction steps generalizing start with
  | nil => trivial
  | cons first rest induction =>
      exact ⟨⟨left.1, right.1⟩, induction left.2 right.2⟩

/-- What an invariant gives at every step of a run that keeps it. -/
theorem Guarded.of_invariant (inv : State → Prop)
    (preserved : ∀ state next, inv state → cond state next → inv (step state next))
    (gives : ∀ state next, inv state → other state next) (initial : inv start)
    (guarded : Guarded step cond start steps) :
    Guarded step other start steps := by
  induction steps generalizing start with
  | nil => trivial
  | cons first rest induction =>
      exact ⟨gives start first initial,
        induction (preserved start first initial guarded.1) guarded.2⟩

end

/-- A condition on what a machine shows is one on the machine it shows. -/
theorem guarded_map {Shown : Type} {shown : Shown → Step → Shown}
    (view : State → Shown)
    (follows : ∀ state next, view (step state next) = shown (view state) next)
    {cond : Shown → Step → Prop} {start : State} {steps : List Step} :
    Guarded step (fun state next => cond (view state) next) start steps ↔
      Guarded shown cond (view start) steps := by
  induction steps generalizing start with
  | nil => exact Iff.rfl
  | cons first rest induction =>
      rw [Guarded, Guarded, induction, follows]

theorem guarded_append {start : State} {steps more : List Step} :
    Guarded step cond start (steps ++ more) ↔
      Guarded step cond start steps ∧
        Guarded step cond (steps.foldl step start) more := by
  induction steps generalizing start with
  | nil => simp [Guarded]
  | cons first rest induction =>
      simp only [List.cons_append, Guarded, List.foldl_cons, induction,
        and_assoc]

theorem guarded_of_forall
    (always : ∀ state next, cond state next) (start : State)
    (steps : List Step) : Guarded step cond start steps := by
  induction steps generalizing start with
  | nil => trivial
  | cons first rest induction => exact ⟨always start first, induction _⟩

theorem guarded_of_steps {allowed : Step → Prop} (start : State)
    {steps : List Step} (all : ∀ next ∈ steps, allowed next) :
    Guarded step (fun _ next => allowed next) start steps := by
  induction steps generalizing start with
  | nil => trivial
  | cons first rest induction =>
      refine ⟨all first (by simp), ?_⟩
      exact induction (step start first)
        fun next member => all next (by simp [member])

theorem Guarded.and_forall {other : Step → Prop} {start : State}
    {steps : List Step} (guarded : Guarded step cond start steps)
    (all : ∀ next ∈ steps, other next) :
    Guarded step (fun state next => cond state next ∧ other next) start
      steps := by
  induction steps generalizing start with
  | nil => trivial
  | cons first rest induction =>
      refine ⟨⟨guarded.1, all first (by simp)⟩, ?_⟩
      exact induction guarded.2 fun next member => all next (by simp [member])

/-- What is preserved by the steps that lead to a good state holds as long as
all states are good. -/
theorem Guarded.induction_while
    (inv good : State → Prop)
    (preserved : ∀ state next, inv state → cond state next →
      good (step state next) → inv (step state next))
    {start : State} {steps : List Step}
    (initial : inv start) (guarded : Guarded step cond start steps)
    (always : ∀ state ∈ visited step start steps, good state) :
    ∀ state ∈ visited step start steps, inv state := by
  induction steps generalizing start with
  | nil =>
      intro state membership
      simp only [visited, List.scanl_nil, List.mem_singleton] at membership
      rw [membership]
      exact initial
  | cons first rest induction =>
      simp only [visited, List.scanl_cons, List.mem_cons] at always ⊢
      have reached : step start first ∈ visited step (step start first) rest :=
        mem_visited_start _ _
      intro state membership
      rcases membership with here | later
      · rw [here]
        exact initial
      · refine induction ?_ guarded.2
          (fun state member => always state (.inr member)) state later
        exact preserved start first initial guarded.1
          (always _ (.inr reached))

/-- When a step from a good state leads to a good state exactly under `cond`,
all states of a run are good exactly when it is guarded by `cond`. -/
theorem forall_visited_iff_guarded
    (inv good : State → Prop) {allowed : State → Step → Prop}
    (preserved : ∀ state next, inv state → allowed state next →
      inv (step state next))
    (exact_step : ∀ state next, inv state → good state → allowed state next →
      (good (step state next) ↔ cond state next))
    {start : State} {steps : List Step} (initial : inv start)
    (good_start : good start) (ok : Guarded step allowed start steps) :
    (∀ state ∈ visited step start steps, good state) ↔
      Guarded step cond start steps := by
  induction steps generalizing start with
  | nil => simpa [visited, Guarded] using good_start
  | cons first rest induction =>
      have here := exact_step start first initial good_start ok.1
      simp only [visited, List.scanl_cons, List.mem_cons, forall_eq_or_imp]
      constructor
      · rintro ⟨_, later⟩
        have reached := later _ (mem_visited_start (step start first) rest)
        exact ⟨here.mp reached,
          (induction (preserved _ _ initial ok.1) reached ok.2).mp later⟩
      · rintro ⟨first_ok, rest_ok⟩
        have reached := here.mpr first_ok
        exact ⟨good_start,
          (induction (preserved _ _ initial ok.1) reached ok.2).mpr rest_ok⟩

section

variable (inv : State → Prop)
  (preserved : ∀ state next, inv state → inv (step state next)) {start : State}
  (initial : inv start) (steps : List Step)
include inv preserved initial steps

/-- The invariant rule without a condition on the steps. -/
theorem visited_induction :
    ∀ state ∈ visited step start steps, inv state := by
  have guarded : Guarded step (fun _ _ => True) start steps :=
    guarded_of_forall (fun _ _ => trivial) start steps
  exact guarded.induction inv
    (fun state next holds _ => preserved state next holds) initial

theorem foldl_induction :
    inv (steps.foldl step start) := by
  have guarded : Guarded step (fun _ _ => True) start steps :=
    guarded_of_forall (fun _ _ => trivial) start steps
  exact guarded.final_induction inv
    (fun state next holds _ => preserved state next holds) initial

end

section

variable {Settled : State → Step → Prop}

/-- A step that settles its own item, and unsettles none, settles every item of
its list. -/
theorem settled_foldl (own : ∀ state next, Settled (step state next) next)
    (kept : ∀ state next other, Settled state other →
      Settled (step state next) other)
    (start : State) (steps : List Step) :
    ∀ next ∈ steps, Settled (steps.foldl step start) next := by
  have still : ∀ (rest : List Step) (state : State) (other : Step),
      Settled state other → Settled (rest.foldl step state) other := by
    intro rest
    induction rest with
    | nil => exact fun _ _ settled => settled
    | cons first rest induction =>
        intro state other settled
        exact induction (step state first) other (kept state first other settled)
  induction steps generalizing start with
  | nil => simp
  | cons first rest induction =>
      intro next member
      rcases List.mem_cons.mp member with rfl | later
      · exact still rest (step start next) next (own start next)
      · exact induction (step start first) next later

theorem foldl_of_settled
    (still : ∀ state next, Settled state next → step state next = state)
    {start : State} {steps : List Step}
    (settled : ∀ next ∈ steps, Settled start next) :
    steps.foldl step start = start := by
  induction steps with
  | nil => rfl
  | cons first rest induction =>
      rw [List.foldl_cons, still start first (settled first (by simp))]
      apply induction
      intro next member
      exact settled next (by simp [member])

end

end Runs
