import Hnc.Lib.Runs
import Mathlib.Data.Fintype.Basic
import Mathlib.Data.List.FinRange
import Mathlib.Logic.Function.Basic

/-!
# Read, modify, write under lock files

Processes rewrite one shared file.  Each takes its lock, reads the file, writes
a candidate next to it, renames the candidate over the file and releases the
lock.  Two processes with different locks do not exclude each other.  If
nevertheless no process reads while one with another lock is between its read
and its rename, then the file is always what the renamed processes make of it
one after another, in the order of their renames.
-/

namespace ReadModifyWrite

/-- What a process does to the file, the lock it takes and the name of its
candidate. -/
structure Job (File Lock Tmp : Type) where
  lock : Lock
  tmp : Tmp
  edit : File → Option File

/-- The step a process has taken last. -/
inductive Phase (File : Type) where
  | waiting
  | locked
  | read (snapshot : File)
  | wrote
  | renamed
  | finished
  | failed

namespace Phase

variable {File : Type}

/-- Between the read and the rename. -/
def inWindow : Phase File → Bool
  | read _ | wrote => true
  | _ => false

def holding : Phase File → Bool
  | locked | read _ | wrote | renamed => true
  | _ => false

def aboutToRead : Phase File → Bool
  | locked => true
  | _ => false

def hasRenamed : Phase File → Bool
  | renamed | finished => true
  | _ => false

def isFinished : Phase File → Bool
  | finished => true
  | _ => false

theorem hasRenamed_of_isFinished {phase : Phase File}
    (done : phase.isFinished = true) : phase.hasRenamed = true := by
  cases phase <;> simp_all [isFinished, hasRenamed]

theorem holding_of_inWindow {phase : Phase File}
    (inside : phase.inWindow = true) : phase.holding = true := by
  cases phase <;> simp_all [inWindow, holding]

end Phase

structure State (File Lock Tmp Pid : Type) where
  file : File
  holder : Lock → Option Pid
  candidate : Tmp → Option File
  phase : Pid → Phase File
  renames : List Pid

variable {File Lock Tmp Pid : Type}

def State.start (file : File) : State File Lock Tmp Pid :=
  ⟨file, fun _ => none, fun _ => none, fun _ => .waiting, []⟩

def enter [DecidableEq Pid] (state : State File Lock Tmp Pid) (pid : Pid)
    (phase : Phase File) : State File Lock Tmp Pid :=
  { state with phase := Function.update state.phase pid phase }

theorem enter_phase [DecidableEq Pid] (state : State File Lock Tmp Pid)
    (pid other : Pid) (phase : Phase File) :
    (enter state pid phase).phase other =
      if other = pid then phase else state.phase other := by
  simp [enter, Function.update_apply]

variable (jobs : Pid → Job File Lock Tmp)

/-- When a process reads, no process with another lock is between its read and
its rename. -/
def Undisturbed (state : State File Lock Tmp Pid) (pid : Pid) : Prop :=
  (state.phase pid).aboutToRead = true →
    ∀ other, (state.phase other).inWindow = true →
      (jobs other).lock = (jobs pid).lock

instance [Fintype Pid] [DecidableEq Lock] (state : State File Lock Tmp Pid)
    (pid : Pid) : Decidable (Undisturbed jobs state pid) := by
  unfold Undisturbed
  infer_instance

/-- What the jobs make of the file one after another. -/
def serial (file : File) (order : List Pid) : Option File :=
  order.foldlM (fun current pid => (jobs pid).edit current) file

structure Serialized (start : File) (state : State File Lock Tmp Pid) :
    Prop where
  serial : serial jobs start state.renames = some state.file
  snapshot : ∀ pid seen, state.phase pid = .read seen → seen = state.file
  written : ∀ pid, state.phase pid = .wrote →
    ∃ new, state.candidate (jobs pid).tmp = some new ∧
      (jobs pid).edit state.file = some new
  alone : ∀ left right, (state.phase left).inWindow = true →
    (state.phase right).inWindow = true → left = right
  holds : ∀ pid, (state.phase pid).holding = true →
    state.holder (jobs pid).lock = some pid
  nodup : state.renames.Nodup
  renamed : ∀ pid, pid ∈ state.renames ↔ (state.phase pid).hasRenamed = true

/-- No process but `pid` is between its read and its rename. -/
def AloneInside (state : State File Lock Tmp Pid) (pid : Pid) : Prop :=
  ∀ other, (state.phase other).inWindow = true → other = pid

/-- What a step of `pid` into `phase` owes to itself and to the others, when it
first changes the shared parts of `state` into those of `next`. -/
structure Advance (start : File) (state next : State File Lock Tmp Pid)
    (pid : Pid) (phase : Phase File) : Prop where
  samePhase : next.phase = state.phase
  serial : ReadModifyWrite.serial jobs start next.renames = some next.file
  window : AloneInside state pid ∨
    (phase.inWindow = false ∧ next.file = state.file ∧
      next.candidate = state.candidate)
  snapshot : ∀ seen, phase = .read seen → seen = next.file
  written : phase = .wrote →
    ∃ new, next.candidate (jobs pid).tmp = some new ∧
      (jobs pid).edit next.file = some new
  holds : phase.holding = true → next.holder (jobs pid).lock = some pid
  others : ∀ other, other ≠ pid → (state.phase other).holding = true →
    next.holder (jobs other).lock = some other
  nodup : next.renames.Nodup
  renamed : pid ∈ next.renames ↔ phase.hasRenamed = true
  kept : ∀ other, other ≠ pid →
    (other ∈ next.renames ↔ other ∈ state.renames)

section Steps

variable {jobs} {start : File} {state : State File Lock Tmp Pid} {pid : Pid}

theorem start_serialized (file : File) :
    Serialized jobs file (State.start file) := by
  constructor
  case serial => rfl
  case snapshot => intro pid seen reading; cases reading
  case written => intro pid wrote; cases wrote
  case alone => intro left right inside; cases inside
  case holds => intro pid holding; cases holding
  case nodup => exact List.nodup_nil
  case renamed => intro pid; simp [State.start, Phase.hasRenamed]

theorem aloneInside_of_inWindow (inv : Serialized jobs start state)
    (inside : (state.phase pid).inWindow = true) : AloneInside state pid :=
  fun other otherInside => inv.alone other pid otherInside inside

theorem Advance.serialized [DecidableEq Pid] {next : State File Lock Tmp Pid}
    {phase : Phase File} (inv : Serialized jobs start state)
    (advance : Advance jobs start state next pid phase) :
    Serialized jobs start (enter next pid phase) := by
  have phases : ∀ other, (enter next pid phase).phase other =
      if other = pid then phase else state.phase other := by
    intro other
    rw [enter_phase, advance.samePhase]
  have outside : ∀ other, other ≠ pid →
      (state.phase other).inWindow = true →
      phase.inWindow = false ∧ next.file = state.file ∧
        next.candidate = state.candidate := by
    intro other different inside
    rcases advance.window with alone | unchanged
    · exact absurd (alone other inside) different
    · exact unchanged
  refine ⟨advance.serial, ?_, ?_, ?_, ?_, advance.nodup, ?_⟩
  · intro other seen reading
    rw [phases] at reading
    split at reading
    · exact advance.snapshot seen reading
    · rename_i different
      have unchanged := outside other different (by rw [reading]; rfl)
      exact (inv.snapshot other seen reading).trans unchanged.2.1.symm
  · intro other wrote
    rw [phases] at wrote
    split at wrote
    · rename_i same
      subst same
      exact advance.written wrote
    · rename_i different
      have unchanged := outside other different (by rw [wrote]; rfl)
      obtain ⟨new, stored, edited⟩ := inv.written other wrote
      refine ⟨new, ?_, ?_⟩
      · exact (congrFun unchanged.2.2 _).trans stored
      · exact (congrArg _ unchanged.2.1).trans edited
  · intro left right leftInside rightInside
    rw [phases] at leftInside rightInside
    split at leftInside <;> split at rightInside
    · simp_all
    · rename_i _ different
      have unchanged := outside right different rightInside
      rw [unchanged.1] at leftInside
      cases leftInside
    · rename_i different _
      have unchanged := outside left different leftInside
      rw [unchanged.1] at rightInside
      cases rightInside
    · exact inv.alone left right leftInside rightInside
  · intro other holding
    rw [phases] at holding
    split at holding
    · rename_i same
      subst same
      exact advance.holds holding
    · rename_i different
      exact advance.others other different holding
  · intro other
    rw [phases]
    split
    · rename_i same
      subst same
      exact advance.renamed
    · rename_i different
      exact (advance.kept other different).trans (inv.renamed other)

theorem read_advance (inv : Serialized jobs start state)
    (phase : state.phase pid = .locked)
    (undisturbed : Undisturbed jobs state pid) :
    Advance jobs start state state pid (.read state.file) := by
  have held : (state.phase pid).holding = true := by rw [phase]; rfl
  constructor
  case samePhase => rfl
  case serial => exact inv.serial
  case window =>
    left
    intro other inside
    have sameLock := undisturbed (by rw [phase]; rfl) other inside
    have theirs := inv.holds other (Phase.holding_of_inWindow inside)
    rw [sameLock, inv.holds pid held] at theirs
    exact (Option.some.inj theirs).symm
  case snapshot => intro seen reading; cases reading; rfl
  case written => intro wrote; cases wrote
  case holds => intro _; exact inv.holds pid held
  case others => intro other _ holding; exact inv.holds other holding
  case nodup => exact inv.nodup
  case renamed =>
    rw [inv.renamed pid, phase]
    rfl
  case kept => intro other _; rfl

theorem write_advance [DecidableEq Tmp]
    (inv : Serialized jobs start state) {snapshot new : File}
    (phase : state.phase pid = .read snapshot)
    (edited : (jobs pid).edit snapshot = some new) :
    Advance jobs start state { state with
      candidate := Function.update state.candidate (jobs pid).tmp (some new) }
      pid .wrote := by
  have inside : (state.phase pid).inWindow = true := by rw [phase]; rfl
  have current : snapshot = state.file := inv.snapshot pid snapshot phase
  constructor
  case samePhase => rfl
  case serial => exact inv.serial
  case window => exact .inl (aloneInside_of_inWindow inv inside)
  case snapshot => intro seen reading; cases reading
  case written =>
    intro _
    exact ⟨new, by simp, by rw [← current]; exact edited⟩
  case holds =>
    intro _
    exact inv.holds pid (Phase.holding_of_inWindow inside)
  case others => intro other _ holding; exact inv.holds other holding
  case nodup => exact inv.nodup
  case renamed =>
    rw [inv.renamed pid, phase]
    rfl
  case kept => intro other _; rfl

theorem rename_advance [DecidableEq Tmp]
    (inv : Serialized jobs start state) {new : File}
    (phase : state.phase pid = .wrote)
    (stored : state.candidate (jobs pid).tmp = some new) :
    Advance jobs start state { state with
      file := new
      candidate := Function.update state.candidate (jobs pid).tmp none
      renames := state.renames ++ [pid] } pid .renamed := by
  have inside : (state.phase pid).inWindow = true := by rw [phase]; rfl
  have first : pid ∉ state.renames := by
    rw [inv.renamed pid, phase]
    simp [Phase.hasRenamed]
  obtain ⟨written, sameCandidate, edited⟩ := inv.written pid phase
  rw [stored] at sameCandidate
  cases sameCandidate
  constructor
  case samePhase => rfl
  case serial =>
    have before : serial jobs start state.renames = some state.file :=
      inv.serial
    simp only [serial, List.foldlM_append] at before ⊢
    rw [before]
    simpa using edited
  case window => exact .inl (aloneInside_of_inWindow inv inside)
  case snapshot => intro seen reading; cases reading
  case written => intro wrote; cases wrote
  case holds =>
    intro _
    exact inv.holds pid (Phase.holding_of_inWindow inside)
  case others => intro other _ holding; exact inv.holds other holding
  case nodup =>
    refine List.nodup_append.mpr ⟨inv.nodup, by simp, ?_⟩
    intro listed member other single
    rw [List.mem_singleton.mp single]
    intro same
    exact first (same ▸ member)
  case renamed => simp [Phase.hasRenamed]
  case kept =>
    intro other different
    simp [different]

variable [DecidableEq Lock]

variable (jobs) in
def release (state : State File Lock Tmp Pid) (pid : Pid) :
    State File Lock Tmp Pid :=
  { state with holder := Function.update state.holder (jobs pid).lock none }

/-- Giving back the own lock takes no lock from another process. -/
theorem release_others (inv : Serialized jobs start state)
    (held : (state.phase pid).holding = true) (other : Pid)
    (different : other ≠ pid) (holding : (state.phase other).holding = true) :
    (release jobs state pid).holder (jobs other).lock = some other := by
  have own := inv.holds pid held
  have theirs := inv.holds other holding
  have otherLock : (jobs other).lock ≠ (jobs pid).lock := by
    intro same
    rw [same, own] at theirs
    exact different (Option.some.inj theirs).symm
  simpa [release, Function.update_of_ne otherLock] using theirs

theorem lock_advance (inv : Serialized jobs start state)
    (phase : state.phase pid = .waiting)
    (free : state.holder (jobs pid).lock = none) :
    Advance jobs start state { state with
      holder := Function.update state.holder (jobs pid).lock (some pid) }
      pid .locked := by
  constructor
  case samePhase => rfl
  case serial => exact inv.serial
  case window => exact .inr ⟨rfl, rfl, rfl⟩
  case snapshot => intro seen reading; cases reading
  case written => intro wrote; cases wrote
  case holds => intro _; simp
  case others =>
    intro other _ holding
    have old := inv.holds other holding
    have different : (jobs other).lock ≠ (jobs pid).lock := by
      intro same
      rw [same, free] at old
      cases old
    simpa [Function.update_of_ne different] using old
  case nodup => exact inv.nodup
  case renamed =>
    rw [inv.renamed pid, phase]
    rfl
  case kept => intro other _; rfl

/-- The lock is given back at the end, and also when the process fails. -/
theorem release_advance (inv : Serialized jobs start state)
    (held : (state.phase pid).holding = true) {phase : Phase File}
    (done : phase.holding = false)
    (sameRenamed : phase.hasRenamed = (state.phase pid).hasRenamed) :
    Advance jobs start state (release jobs state pid) pid phase := by
  constructor
  case samePhase => rfl
  case serial => exact inv.serial
  case window =>
    refine .inr ⟨?_, rfl, rfl⟩
    cases inside : phase.inWindow with
    | false => rfl
    | true =>
        rw [Phase.holding_of_inWindow inside] at done
        cases done
  case snapshot =>
    intro seen reading
    rw [reading] at done
    cases done
  case written =>
    intro wrote
    rw [wrote] at done
    cases done
  case holds =>
    intro holding
    rw [done] at holding
    cases holding
  case others => exact release_others inv held
  case nodup => exact inv.nodup
  case renamed =>
    rw [sameRenamed]
    exact inv.renamed pid
  case kept => intro other _; rfl

variable [DecidableEq Tmp] [DecidableEq Pid]

variable (jobs) in
/-- The next step of one process; a process whose lock is taken waits. -/
def step (state : State File Lock Tmp Pid) (pid : Pid) :
    State File Lock Tmp Pid :=
  match state.phase pid with
  | .waiting =>
      if (state.holder (jobs pid).lock).isNone then
        enter { state with
          holder := Function.update state.holder (jobs pid).lock (some pid) }
          pid .locked
      else state
  | .locked => enter state pid (.read state.file)
  | .read snapshot =>
      match (jobs pid).edit snapshot with
      | none => enter (release jobs state pid) pid .failed
      | some new =>
          enter { state with
            candidate := Function.update state.candidate (jobs pid).tmp
              (some new) } pid .wrote
  | .wrote =>
      match state.candidate (jobs pid).tmp with
      | none => enter (release jobs state pid) pid .failed
      | some new =>
          enter { state with
            file := new
            candidate := Function.update state.candidate (jobs pid).tmp none
            renames := state.renames ++ [pid] } pid .renamed
  | .renamed => enter (release jobs state pid) pid .finished
  | .finished => state
  | .failed => state

theorem step_serialized (state : State File Lock Tmp Pid) (pid : Pid)
    (inv : Serialized jobs start state)
    (undisturbed : Undisturbed jobs state pid) :
    Serialized jobs start (step jobs state pid) := by
  unfold step
  cases phase : state.phase pid with
  | waiting =>
      cases holder : state.holder (jobs pid).lock with
      | none =>
          exact (lock_advance inv phase holder).serialized inv
      | some _ => simpa using inv
  | locked => exact (read_advance inv phase undisturbed).serialized inv
  | read snapshot =>
      have held : (state.phase pid).holding = true := by rw [phase]; rfl
      cases edited : (jobs pid).edit snapshot with
      | none =>
          simp only [edited]
          refine (release_advance inv held rfl ?_).serialized inv
          rw [phase]
          rfl
      | some new =>
          simp only [edited]
          exact (write_advance inv phase edited).serialized inv
  | wrote =>
      obtain ⟨new, stored, _⟩ := inv.written pid phase
      simp only [stored]
      exact (rename_advance inv phase stored).serialized inv
  | renamed =>
      have held : (state.phase pid).holding = true := by rw [phase]; rfl
      refine (release_advance inv held rfl ?_).serialized inv
      rw [phase]
      rfl
  | finished => exact inv
  | failed => exact inv

/-- When all processes have finished, the file is what they make of it one
after another. -/
theorem run_serial {schedule : List Pid}
    (undisturbed : Runs.Guarded (step jobs) (Undisturbed jobs)
      (State.start start) schedule)
    (finished : ∀ pid, ((schedule.foldl (step jobs)
      (State.start start)).phase pid).isFinished = true) :
    ∃ order : List Pid, order.Nodup ∧ (∀ pid, pid ∈ order) ∧
      serial jobs start order =
        some (schedule.foldl (step jobs) (State.start start)).file := by
  have inv := undisturbed.final_induction (Serialized jobs start)
    step_serialized (start_serialized start)
  refine ⟨_, inv.nodup, ?_, inv.serial⟩
  intro pid
  exact (inv.renamed pid).mpr (Phase.hasRenamed_of_isFinished (finished pid))

end Steps

end ReadModifyWrite
