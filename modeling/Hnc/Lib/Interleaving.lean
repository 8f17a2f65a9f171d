import Hnc.Lib.Runs
import Mathlib.Logic.Function.Basic
import Mathlib.Order.WellFounded

/-!
# Interleaved processes

Any number of processes run the same program over shared data.  An event lets
one process take its next step, gives it a command, ends it, or lets a second
pass; a run is a list of events.  A dead process takes no step.
-/

namespace Interleaving

variable {Shared Local Command : Type}

/-- The clock in seconds and the processes that have ended. -/
structure Env where
  now : Nat
  dead : List Nat
deriving DecidableEq

def Env.alive (env : Env) (pid : Nat) : Bool :=
  !env.dead.contains pid

structure Program (Shared Local Command : Type) where
  /-- The next step of a process. -/
  act : Nat → Env → Shared → Local → Shared × Local
  /-- A command, given to a process. -/
  call : Command → Local → Local

structure World (Shared Local : Type) where
  env : Env
  shared : Shared
  procs : Nat → Local

inductive Event (Command : Type) where
  | act (pid : Nat)
  | call (pid : Nat) (command : Command)
  | exit (pid : Nat)
  | tick
deriving DecidableEq

/-- The process an event is about. -/
def Event.pid : Event Command → Option Nat
  | act pid | call pid _ | exit pid => some pid
  | tick => none

namespace World

/-- The world before any process has done anything. -/
def start (now : Nat) (shared : Shared) (procs : Nat → Local) :
    World Shared Local :=
  { env := { now, dead := [] }, shared, procs }

def alive (world : World Shared Local) (pid : Nat) : Bool :=
  world.env.alive pid

def enter (world : World Shared Local) (pid : Nat) (result : Shared × Local) :
    World Shared Local :=
  { world with
    shared := result.1
    procs := Function.update world.procs pid result.2 }

def step (program : Program Shared Local Command)
    (world : World Shared Local) : Event Command → World Shared Local
  | .act pid =>
      if world.alive pid then
        world.enter pid
          (program.act pid world.env world.shared (world.procs pid))
      else world
  | .call pid command =>
      if world.alive pid then
        world.enter pid
          (world.shared, program.call command (world.procs pid))
      else world
  | .exit pid =>
      { world with env := { world.env with dead := pid :: world.env.dead } }
  | .tick =>
      { world with env := { world.env with now := world.env.now + 1 } }

variable {world : World Shared Local} {pid other : Nat}

@[simp] theorem shared_enter (result : Shared × Local) :
    (world.enter pid result).shared = result.1 :=
  rfl

@[simp] theorem alive_enter (result : Shared × Local) :
    (world.enter pid result).alive other = world.alive other :=
  rfl

@[simp] theorem env_enter (result : Shared × Local) :
    (world.enter pid result).env = world.env :=
  rfl

@[simp] theorem procs_enter (result : Shared × Local) :
    (world.enter pid result).procs other =
      if other = pid then result.2 else world.procs other := by
  simp [enter, Function.update_apply]

theorem alive_exit {env : Env} :
    (Env.mk env.now (pid :: env.dead)).alive other = true ↔
      other ≠ pid ∧ env.alive other = true := by
  simp [Env.alive]

variable {program : Program Shared Local Command}

/-- An invariant of the world is kept when each kind of event keeps it. -/
theorem step_induction {inv : World Shared Local → Prop} {event : Event Command}
    (holds : inv world)
    (act : ∀ pid, event = .act pid → world.alive pid = true → inv (world.enter pid (program.act pid world.env world.shared (world.procs pid))))
    (call : ∀ pid command, event = .call pid command → world.alive pid = true → inv (world.enter pid (world.shared, program.call command (world.procs pid))))
    (exit : ∀ pid, event = .exit pid → inv { world with env := { world.env with dead := pid :: world.env.dead } })
    (tick : event = .tick → inv { world with env := { world.env with now := world.env.now + 1 } }) :
    inv (world.step program event) := by
  cases event with
  | act pid =>
      by_cases live : world.alive pid = true
      · rw [step, if_pos live]
        exact act pid rfl live
      · rw [step, if_neg live]
        exact holds
  | call pid command =>
      by_cases live : world.alive pid = true
      · rw [step, if_pos live]
        exact call pid command rfl live
      · rw [step, if_neg live]
        exact holds
  | exit pid => exact exit pid rfl
  | tick => exact tick rfl

/-- Processes from `bound` on have not been heard of. -/
def Untouched (initial : Nat → Local) (bound : Nat)
    (world : World Shared Local) : Prop :=
  ∀ other, bound ≤ other → world.procs other = initial other

variable {initial : Nat → Local} {bound : Nat}

/-- What holds of untouched processes has to be looked up for the others
only. -/
theorem Untouched.forall (untouched : Untouched initial bound world)
    {p : Nat → Local → Prop} (initially : ∀ pid, p pid (initial pid))
    (below : ∀ pid ∈ List.range bound, p pid (world.procs pid)) (pid : Nat) :
    p pid (world.procs pid) := by
  by_cases inside : pid < bound
  · exact below pid (List.mem_range.mpr inside)
  · rw [untouched pid (by omega)]
    exact initially pid

theorem Untouched.step (untouched : Untouched initial bound world)
    {event : Event Command} (below : ∀ pid, event.pid = some pid → pid < bound) :
    Untouched initial bound (world.step program event) := by
  have moved : ∀ pid result, pid < bound →
      Untouched initial bound (world.enter pid result) := by
    intro pid result inside other outside
    rw [procs_enter, if_neg (by omega)]
    exact untouched other outside
  refine step_induction untouched ?_ ?_ ?_ ?_
  · rintro pid rfl _
    exact moved pid _ (below pid rfl)
  · rintro pid command rfl _
    exact moved pid _ (below pid rfl)
  · rintro pid rfl
    exact untouched
  · rintro rfl
    exact untouched

/-- A condition that holds of untouched processes has to be checked on the
others only. -/
theorem guarded_of_below
    {cond checked : World Shared Local → Event Command → Prop}
    (suffices_below : ∀ world event, Untouched initial bound world → checked world event → cond world event)
    {events : List (Event Command)}
    (below : ∀ event ∈ events, ∀ pid, event.pid = some pid → pid < bound)
    (untouched : Untouched initial bound world)
    (guarded : Runs.Guarded (step program) checked world events) :
    Runs.Guarded (step program) cond world events := by
  induction events generalizing world with
  | nil => trivial
  | cons event rest induction =>
      refine ⟨suffices_below world event untouched guarded.1, ?_⟩
      apply induction
      · exact fun later member => below later (by simp [member])
      · exact untouched.step (below event (by simp))
      · exact guarded.2

/-- The states of a run without end. -/
def along (program : Program Shared Local Command) (start : World Shared Local)
    (events : Nat → Event Command) : Nat → World Shared Local
  | 0 => start
  | n + 1 => (along program start events n).step program (events n)

section

variable {Rank : Type} [Preorder Rank] (rank : Local → Rank) (idle : Local → Prop)
  (descends : ∀ pid env shared proc, ¬idle proc →
    rank (program.act pid env shared proc).2 < rank proc)
  (busy : ∀ command proc, ¬idle proc → program.call command proc = proc)
include descends busy

theorem rank_step_le (notIdle : ¬idle (world.procs pid))
    (event : Event Command) :
    rank ((world.step program event).procs pid) ≤ rank (world.procs pid) := by
  have moved : ∀ actor result,
      (actor = pid → rank result.2 ≤ rank (world.procs pid)) →
      rank ((world.enter actor result).procs pid) ≤ rank (world.procs pid) := by
    intro actor result own
    rw [procs_enter]
    split
    · next same => exact own same.symm
    · exact le_rfl
  cases event with
  | act actor =>
      rw [step]
      split
      · apply moved
        rintro rfl
        exact (descends actor _ _ _ notIdle).le
      · exact le_rfl
  | call actor command =>
      rw [step]
      split
      · apply moved
        rintro rfl
        exact (congrArg rank (busy command _ notIdle)).le
      · exact le_rfl
  | exit _ | tick => exact le_rfl

/-- A process whose own steps descend, as long as it is not idle, gets idle
again and again when it gets its turn again and again. -/
theorem comes_back [WellFoundedLT Rank] {start : World Shared Local}
    {events : Nat → Event Command}
    (turns : ∀ k, ∃ n, k ≤ n ∧ events n = .act pid ∧
      (along program start events n).alive pid = true) (k : Nat) :
    ∃ n, k ≤ n ∧ idle ((along program start events n).procs pid) := by
  -- By induction on the rank at `k`: up to its next turn the process gets idle
  -- or keeps a rank that this turn lowers.
  induction same : rank ((along program start events k).procs pid)
    using WellFoundedLT.induction generalizing k with
  | _ bound induction =>
  by_contra never
  push Not at never
  have below : ∀ n, k ≤ n →
      rank ((along program start events n).procs pid) ≤ bound := by
    apply Nat.le_induction
    · exact same.le
    · intro n later bounded
      have step := rank_step_le rank idle descends busy (never n later)
      exact (step (events n)).trans bounded
  obtain ⟨n, later, turn, alive⟩ := turns k
  have lower : rank ((along program start events (n + 1)).procs pid) < bound := by
    have moved := descends pid (along program start events n).env
      (along program start events n).shared _ (never n later)
    rw [along, turn, step, if_pos alive, procs_enter, if_pos rfl]
    exact moved.trans_le (below n later)
  obtain ⟨m, after, found⟩ := induction _ lower (n + 1) rfl
  exact never m (by omega) found

end

end World

end Interleaving
