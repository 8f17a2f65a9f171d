import Hnc.Lib.Runs

/-!
# The launcher of the capture daemon

`hnc_launcher.c` starts `hnc_dpid` again when it ends abnormally.  The pause
between two starts grows, and after five crashes within a minute the launcher
writes a flag and gives up.  The statements of the loop are steps here, since a
signal may come between any two of them.
-/

namespace Dpid.Launcher

open Runs

def restartBackoffMin : Nat := 2
def restartBackoffMax : Nat := 30
def crashWindowSec : Int := 60
def crashLimit : Nat := 5

/-- The first `count` entries of the array. -/
structure CrashTracker where
  timestamps : List Int
deriving DecidableEq

/-- `crash_tracker_record`, with what it returns. -/
def CrashTracker.record (t : CrashTracker) (now : Int) : CrashTracker × Bool :=
  let recent := t.timestamps.countP fun ts => decide (now - ts ≤ crashWindowSec)
  let kept :=
    if t.timestamps.length < crashLimit then t.timestamps
    else t.timestamps.tail
  (⟨kept ++ [now]⟩, decide (crashLimit ≤ recent + 1))

/-- The pause that follows a pause. -/
def nextBackoff (backoff : Nat) : Nat :=
  if backoff < restartBackoffMax then backoff * 2 else backoff

/-- How a child ends: with the exit code 0 or in another way. -/
inductive Status where
  | clean
  | abnormal
deriving DecidableEq

abbrev Pid := { pid : Nat // 0 < pid }

/-- A child that has not been waited for. -/
structure Child where
  pid : Pid
  ended : Option Status
  termSent : Bool
deriving DecidableEq

/-- The next statement of `run_supervise_loop` and of the functions that it
calls. -/
inductive Pc where
  | loopTest
  | fork
  | storePid (pid : Pid)
  | enterWait
  | waiting
  | interrupted
  | reaped (status : Status)
  | afterWait (status : Status)
  | forkFailed
  | pausing
  | lastTest
  | lastWait
  | stopped (crashFlag : Bool)
deriving DecidableEq

structure State where
  pc : Pc
  gShutdown : Bool
  gChildPid : Nat
  child : Option Child
  crashes : CrashTracker
  backoff : Nat
deriving DecidableEq

/-- The handlers are installed and the loop is about to be entered. -/
def start : State :=
  ⟨.loopTest, false, 0, none, ⟨[]⟩, restartBackoffMin⟩

/-- The launcher executes a statement.  `forked` is what `fork` returns, and
`now` what `time` does. -/
def State.next (s : State) (forked : Option Pid) (now : Int) : State :=
  match s.pc with
  | .loopTest => { s with pc := if s.gShutdown then .lastTest else .fork }
  | .fork =>
      match forked with
      | none => { s with pc := .forkFailed }
      | some pid =>
          { s with pc := .storePid pid, child := some ⟨pid, none, false⟩ }
  | .storePid pid => { s with pc := .enterWait, gChildPid := pid }
  | .enterWait => { s with pc := .waiting }
  | .waiting =>
      match s.child.bind Child.ended with
      | none => s
      | some status => { s with pc := .reaped status, child := none }
  | .interrupted => { s with pc := if s.gShutdown then .lastTest else .enterWait }
  | .reaped status => { s with pc := .afterWait status, gChildPid := 0 }
  | .afterWait status =>
      if s.gShutdown ∨ status = .clean then { s with pc := .lastTest }
      else
        let recorded := s.crashes.record now
        { s with
          crashes := recorded.1
          pc := if recorded.2 then .stopped true else .pausing }
  | .forkFailed => { s with pc := if s.gShutdown then .lastTest else .pausing }
  | .pausing => { s with pc := .loopTest, backoff := nextBackoff s.backoff }
  | .lastTest =>
      { s with pc := if 0 < s.gChildPid then .lastWait else .stopped false }
  | .lastWait =>
      match s.child.bind Child.ended with
      | none => s
      | some _ => { s with pc := .stopped false, child := none }
  | .stopped _ => s

/-- `kill(pid, SIGTERM)`. -/
def Child.kill (c : Child) (pid : Nat) : Child :=
  if 0 < pid ∧ c.pid.1 = pid then { c with termSent := true } else c

/-- `on_term_signal`.  A `waitpid` that blocks returns `EINTR`; one whose child
has ended may return that or the child. -/
def State.onTermSignal (s : State) (wakes : Bool) : State :=
  let blocked := s.child.bind Child.ended = none ∨ wakes
  { s with
    gShutdown := true
    child := s.child.map fun c => c.kill s.gChildPid
    pc := match s.pc with
      | .waiting => if blocked then .interrupted else .waiting
      | .lastWait => if blocked then .stopped false else .lastWait
      | pc => pc }

inductive Event where
  | run (forked : Option Pid) (now : Int)
  | signal (wakes : Bool)
  | childEnds (status : Status)
deriving DecidableEq

/-- One event; only the first signal counts. -/
def step (s : State) : Event → State
  | .run forked now => s.next forked now
  | .signal wakes => if s.gShutdown then s else s.onTermSignal wakes
  | .childEnds status =>
      { s with
        child := s.child.map fun c =>
          { c with ended := some (c.ended.getD status) } }

/-! ### Signals -/

/-- The signal has come, and the launcher waits for a child that nobody told to
end. -/
def Lost (s : State) : Prop :=
  s.gShutdown = true ∧ (s.pc = .waiting ∨ s.pc = .lastWait) ∧
    ∃ c, s.child = some c ∧ c.ended = none ∧ c.termSent = false

/-- The child that is being stored runs although the signal has come. -/
def StoresLate (s : State) (event : Event) : Prop :=
  s.gShutdown = true ∧ (∃ pid, s.pc = .storePid pid) ∧
    (∃ forked now, event = .run forked now) ∧
    ∃ c, s.child = some c ∧ c.ended = none

/-- The child is known, and a signal that has come has been sent on to it. -/
def Watched (s : State) : Prop :=
  ∃ c, s.child = some c ∧ s.gChildPid = c.pid.1 ∧
    (s.gShutdown = true → c.termSent = true ∨ c.ended ≠ none)

def NoChild (s : State) : Prop :=
  s.child = none ∧ s.gChildPid = 0

/-- What holds at each statement. -/
def Inv (s : State) : Prop :=
  match s.pc with
  | .storePid pid => s.gChildPid = 0 ∧
      ∃ c, s.child = some c ∧ c.pid = pid ∧ c.termSent = false
  | .enterWait | .waiting | .interrupted => Watched s
  | .lastTest | .lastWait => NoChild s ∨ Watched s
  | .reaped _ => s.child = none
  | .stopped _ => True
  | _ => NoChild s

theorem inv_start : Inv start :=
  ⟨rfl, rfl⟩

section

variable {s : State}

theorem Watched.kill (watched : Watched s) (wakes : Bool) :
    Watched (s.onTermSignal wakes) := by
  obtain ⟨c, child, pid, _⟩ := watched
  have reached : c.kill s.gChildPid = { c with termSent := true } := by
    rw [Child.kill, if_pos ⟨pid ▸ c.pid.2, pid.symm⟩]
  refine ⟨{ c with termSent := true }, ?_, pid, fun _ => .inl rfl⟩
  rw [State.onTermSignal, child, Option.map_some, reached]

theorem NoChild.kill (alone : NoChild s) (wakes : Bool) :
    NoChild (s.onTermSignal wakes) := by
  refine ⟨?_, alone.2⟩
  rw [State.onTermSignal, alone.1]
  rfl

theorem Watched.childEnds (watched : Watched s) (status : Status) :
    Watched (step s (.childEnds status)) := by
  obtain ⟨c, child, pid, _⟩ := watched
  refine ⟨{ c with ended := some (c.ended.getD status) }, ?_, pid, fun _ => .inr ?_⟩
  · simp only [step, child, Option.map_some]
  · exact Option.some_ne_none _

theorem NoChild.childEnds (alone : NoChild s) (status : Status) :
    NoChild (step s (.childEnds status)) := by
  refine ⟨?_, alone.2⟩
  simp only [step, alone.1, Option.map_none]

/-- The statements keep the invariant, unless a child is stored late. -/
theorem inv_next (inv : Inv s) (forked : Option Pid) (now : Int)
    (inTime : ¬StoresLate s (.run forked now)) : Inv (s.next forked now) := by
  obtain ⟨pc, gShutdown, gChildPid, child, crashes, backoff⟩ := s
  cases pc with
  | loopTest =>
      cases gShutdown with
      | true => exact .inl inv
      | false => exact inv
  | fork =>
      cases forked with
      | none => exact inv
      | some pid => exact ⟨inv.2, _, rfl, rfl, rfl⟩
  | storePid pid =>
      obtain ⟨_, c, found, same, _⟩ := inv
      refine ⟨c, found, congrArg Subtype.val same.symm, fun signalled => .inr ?_⟩
      intro running
      exact inTime ⟨signalled, ⟨pid, rfl⟩, ⟨forked, now, rfl⟩, c, found, running⟩
  | enterWait => exact inv
  | waiting =>
      cases ended : child.bind Child.ended with
      | none =>
          simp only [State.next, ended]
          exact inv
      | some status =>
          simp only [State.next, ended]
          rfl
  | interrupted =>
      cases gShutdown with
      | true => exact .inr inv
      | false => exact inv
  | reaped status => exact ⟨inv, rfl⟩
  | afterWait status =>
      simp only [State.next]
      split
      · exact .inl inv
      · cases (crashes.record now).2 with
        | true => trivial
        | false => exact inv
  | forkFailed =>
      cases gShutdown with
      | true => exact .inl inv
      | false => exact inv
  | pausing => exact inv
  | lastTest =>
      by_cases known : 0 < gChildPid
      · simp only [State.next, if_pos known]
        exact inv
      · simp only [State.next, if_neg known]
        trivial
  | lastWait =>
      cases ended : child.bind Child.ended with
      | none =>
          simp only [State.next, ended]
          exact inv
      | some status =>
          simp only [State.next, ended]
          trivial
  | stopped crashFlag => trivial

theorem inv_onTermSignal (inv : Inv s) (wakes : Bool) :
    Inv (s.onTermSignal wakes) := by
  obtain ⟨pc, gShutdown, gChildPid, child, crashes, backoff⟩ := s
  cases pc with
  | storePid pid =>
      obtain ⟨unknown, c, found, same, unsent⟩ := inv
      have missed : c.kill gChildPid = c := by
        rw [Child.kill, if_neg fun known => absurd known.1 (by
          rw [show gChildPid = 0 from unknown]
          decide)]
      refine ⟨unknown, c, ?_, same, unsent⟩
      change child.map (fun c => c.kill gChildPid) = some c
      rw [show child = some c from found, Option.map_some, missed]
  | enterWait => exact Watched.kill inv wakes
  | waiting =>
      have watched := Watched.kill inv wakes
      by_cases blocked : child.bind Child.ended = none ∨ wakes
      · have pc : (State.onTermSignal ⟨.waiting, gShutdown, gChildPid, child,
            crashes, backoff⟩ wakes).pc = .interrupted := if_pos blocked
        rw [Inv, pc]
        exact watched
      · have pc : (State.onTermSignal ⟨.waiting, gShutdown, gChildPid, child,
            crashes, backoff⟩ wakes).pc = .waiting := if_neg blocked
        rw [Inv, pc]
        exact watched
  | interrupted => exact Watched.kill inv wakes
  | reaped status =>
      change child.map _ = none
      rw [show child = none from inv]
      rfl
  | lastTest => exact inv.imp (NoChild.kill · wakes) (Watched.kill · wakes)
  | lastWait =>
      by_cases blocked : child.bind Child.ended = none ∨ wakes
      · have pc : (State.onTermSignal ⟨.lastWait, gShutdown, gChildPid, child,
            crashes, backoff⟩ wakes).pc = .stopped false := if_pos blocked
        rw [Inv, pc]
        trivial
      · have pc : (State.onTermSignal ⟨.lastWait, gShutdown, gChildPid, child,
            crashes, backoff⟩ wakes).pc = .lastWait := if_neg blocked
        rw [Inv, pc]
        exact inv.imp (NoChild.kill · wakes) (Watched.kill · wakes)
  | stopped crashFlag => trivial
  | _ => exact NoChild.kill inv wakes

theorem inv_childEnds (inv : Inv s) (status : Status) :
    Inv (step s (.childEnds status)) := by
  obtain ⟨pc, gShutdown, gChildPid, child, crashes, backoff⟩ := s
  cases pc with
  | storePid pid =>
      obtain ⟨unknown, c, found, same, unsent⟩ := inv
      refine ⟨unknown, { c with ended := some (c.ended.getD status) }, ?_, same,
        unsent⟩
      change child.map _ = _
      rw [show child = some c from found, Option.map_some]
  | enterWait => exact Watched.childEnds inv status
  | waiting => exact Watched.childEnds inv status
  | interrupted => exact Watched.childEnds inv status
  | reaped _ =>
      change child.map _ = none
      rw [show child = none from inv]
      rfl
  | lastTest =>
      exact inv.imp (NoChild.childEnds · status) (Watched.childEnds · status)
  | lastWait =>
      exact inv.imp (NoChild.childEnds · status) (Watched.childEnds · status)
  | stopped crashFlag => trivial
  | _ => exact NoChild.childEnds inv status

theorem inv_step {event : Event} (inv : Inv s) (inTime : ¬StoresLate s event) :
    Inv (step s event) := by
  cases event with
  | run forked now => exact inv_next inv forked now inTime
  | signal wakes =>
      rw [step]
      split
      · exact inv
      · exact inv_onTermSignal inv wakes
  | childEnds status => exact inv_childEnds inv status

theorem not_lost_of_inv (inv : Inv s) : ¬Lost s := by
  rintro ⟨signalled, blocked, c, found, running, unsent⟩
  have told : ¬Watched s := by
    rintro ⟨d, known, _, sent⟩
    rw [found] at known
    cases known
    rcases sent signalled with sent | ended
    · rw [unsent] at sent
      cases sent
    · exact ended running
  rcases blocked with pc | pc
  · rw [Inv, pc] at inv
    exact told inv
  · rw [Inv, pc] at inv
    rcases inv with ⟨none, _⟩ | watched
    · rw [found] at none
      cases none
    · exact told watched

/-- Two statements behind a late store the launcher waits in vain. -/
theorem lost_of_storesLate {event : Event} (inv : Inv s)
    (late : StoresLate s event) :
    Lost ([event, .run none 0].foldl step s) := by
  obtain ⟨signalled, ⟨pid, pc⟩, ⟨forked, now, rfl⟩, c, found, running⟩ := late
  rw [Inv, pc] at inv
  obtain ⟨_, d, known, _, unsent⟩ := inv
  rw [found] at known
  cases known
  simp only [List.foldl_cons, step, State.next, pc]
  exact ⟨signalled, .inl rfl, c, found, running, unsent⟩

end

/-- No signal is lost in a run that stores no child late, and a run that stores
one can lose the signal. -/
theorem signal_reaches_child_iff {events : List Event}
    (inTime : Guarded step (fun s event => ¬StoresLate s event) start events) :
    (∀ s ∈ visited step start events, ¬Lost s) ∧
    ∀ event, StoresLate (events.foldl step start) event →
      ∃ more, Lost ((events ++ event :: more).foldl step start) := by
  constructor
  · intro s member
    apply not_lost_of_inv
    exact inTime.induction Inv (fun s event inv => inv_step inv) inv_start s member
  · intro event late
    have inv : Inv (events.foldl step start) :=
      inTime.final_induction Inv (fun s event inv => inv_step inv) inv_start
    refine ⟨[.run none 0], ?_⟩
    rw [List.foldl_append]
    exact lost_of_storesLate inv late

/-- The launcher starts a child and waits for it. -/
def startsChild : List Event :=
  [.run none 0, .run (some ⟨100, by decide⟩) 0, .run none 0, .run none 0]

theorem signal_while_waiting_is_kept :
    Guarded step (fun s event => ¬StoresLate s event) start
        (startsChild ++ [.signal false, .run none 0]) ∧
      ∀ s ∈ visited step start (startsChild ++ [.signal false, .run none 0]),
        ¬Lost s := by
  have inTime : Guarded step (fun s event => ¬StoresLate s event) start
      (startsChild ++ [.signal false, .run none 0]) := by
    refine ⟨?_, ?_, ?_, ?_, ?_, ?_, trivial⟩ <;>
      rintro ⟨signalled, ⟨pid, pc⟩, ⟨forked, now, same⟩, _⟩
    iterate 4 exact absurd signalled (by decide)
    · cases same
    · cases pc
  exact ⟨inTime, (signal_reaches_child_iff inTime).1⟩

/-- The signal comes between `fork` and the store. -/
theorem signal_before_store_is_lost :
    ¬∀ events, ∀ s ∈ visited step start events, ¬Lost s := by
  intro never
  apply never [.run none 0, .run (some ⟨100, by decide⟩) 0, .signal false,
    .run none 0, .run none 0] _ (mem_visited_final start _)
  exact ⟨rfl, .inl rfl, _, rfl, rfl, rfl⟩

/-- The child that has not been waited for is the one in `g_child_pid`. -/
def Stored (s : State) : Prop :=
  ∃ c, s.child = some c ∧ s.gChildPid = c.pid.1

/-- What holds at each statement, whenever signals come. -/
def OneChild (s : State) : Prop :=
  match s.pc with
  | .storePid pid => s.gChildPid = 0 ∧ ∃ c, s.child = some c ∧ c.pid = pid
  | .enterWait | .waiting | .interrupted => Stored s
  | .lastTest | .lastWait => NoChild s ∨ Stored s
  | .reaped _ => s.child = none
  | .stopped _ => True
  | _ => NoChild s

theorem oneChild_step {s : State} (one : OneChild s) (event : Event) :
    OneChild (step s event) := by
  obtain ⟨pc, gShutdown, gChildPid, child, crashes, backoff⟩ := s
  cases event with
  | run forked now =>
      cases pc <;>
        simp only [OneChild, step, State.next, NoChild, Stored] at one ⊢ <;>
        grind
  | signal wakes =>
      cases pc <;>
        simp only [OneChild, step, State.onTermSignal, NoChild, Stored,
          Child.kill] at one ⊢ <;>
        grind
  | childEnds status =>
      cases pc <;>
        simp only [OneChild, step, NoChild, Stored] at one ⊢ <;>
        grind

end Dpid.Launcher
