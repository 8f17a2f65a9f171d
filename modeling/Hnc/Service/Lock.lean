import Hnc.Lib.Interleaving
import Hnc.Lib.KeyMap
import Hnc.Service.RestoreReader

/-!
# The lock directories of `bin/hnc_lock.sh` and `tc_action_lock`

The directories as one process and its children see them while nobody else
takes or releases a lock.  All holders are alive, so no directory is reclaimed
as stale.
-/

namespace Hnc.Lock

open Posix

/-- The lock directories that exist. -/
structure Locks where
  tcAction : Bool
  gate : Bool
  macs : List Text

def Locks.free : Locks := ⟨false, false, []⟩

def timeoutRounds : Nat := 50

/-- `_mac_sanitize`. -/
def macSanitize (raw : Text) : Option Text :=
  let mac := raw.map TcManager.toLower
  if isLowerMac mac then some mac else none

/-- The rounds of `mac_lock`: a round waits for the gate first and then tries to
make the directory of the address. -/
def macLockRounds (mac : Text) : Nat → Locks → Locks × Nat
  | 0, locks => (locks, 11)
  | rounds + 1, locks =>
      if locks.gate then macLockRounds mac rounds locks
      else if mac ∈ locks.macs then macLockRounds mac rounds locks
      else ({ locks with macs := mac :: locks.macs }, 0)

def macLock (raw : Text) (locks : Locks) : Locks × Nat :=
  match macSanitize raw with
  | none => (locks, 1)
  | some mac => macLockRounds mac timeoutRounds locks

def macUnlock (raw : Text) (locks : Locks) : Locks :=
  match macSanitize raw with
  | none => locks
  | some mac => { locks with macs := locks.macs.erase mac }

/-- `gate_lock`: make the directory of the gate, then wait for the directories
of all addresses to go; when they do not, give the gate back. -/
def gateLock (locks : Locks) : Locks × Nat :=
  if locks.gate then (locks, 11)
  else if locks.macs = [] then ({ locks with gate := true }, 0)
  else (locks, 11)

def gateUnlock (locks : Locks) : Locks :=
  { locks with gate := false }

def tcActionLock (locks : Locks) : Locks × Nat :=
  if locks.tcAction then (locks, 1) else ({ locks with tcAction := true }, 0)

def tcActionUnlock (locks : Locks) : Locks :=
  { locks with tcAction := false }

variable {locks : Locks}

theorem gate_of_gateLock (taken : (gateLock locks).2 = 0) :
    (gateLock locks).1.gate = true := by
  unfold gateLock at taken ⊢
  split at taken
  · cases taken
  · split at taken
    · simp_all
    · cases taken

/-- While the gate is held, every round of `mac_lock` is spent waiting for it,
also when it is held by the parent of the waiting process. -/
theorem macLockRounds_of_gate (mac : Text) (rounds : Nat)
    (held : locks.gate = true) :
    macLockRounds mac rounds locks = (locks, 11) := by
  induction rounds with
  | zero => rfl
  | succ rounds induction => rw [macLockRounds, if_pos held, induction]

theorem macLock_of_gate (raw : Text) (held : locks.gate = true) :
    (macLock raw locks).1 = locks ∧ (macLock raw locks).2 ≠ 0 := by
  unfold macLock
  cases macSanitize raw with
  | none => exact ⟨rfl, by simp⟩
  | some mac =>
      have timedOut := macLockRounds_of_gate mac timeoutRounds held
      simp [timedOut]

end Hnc.Lock

/-!
## The steps of `bin/hnc_lock.sh`

Processes that take and release the gate and the locks of addresses, one access
to the file system at a time.  A sleep is no step of its own, since any number
of steps of other processes and of seconds can pass before the next one.
-/

namespace Hnc.LockSteps

open Posix
open KeyMap
open Interleaving
open Lock (macSanitize timeoutRounds)

/-- The lock directories. -/
inductive Name where
  | gate
  | mac (addr : Text)
deriving DecidableEq

/-- A lock directory: the process that made it, the content of its `pid` file
and the second of its last change. -/
structure Dir where
  maker : Nat
  pid : Option Nat
  mtime : Nat
deriving DecidableEq

abbrev Dirs := Map Name Dir

/-- `mkdir`, on a name that is free. -/
def makeDir (pid now : Nat) (name : Name) (dirs : Dirs) : Dirs :=
  dirs.insert name ⟨pid, none, now⟩

/-- `echo ... > "$lockdir/pid"`. -/
def writePid (content now : Nat) (name : Name) (dirs : Dirs) : Dirs :=
  match dirs.lookup name with
  | none => dirs
  | some dir =>
      dirs.insert name
        { dir with
          pid := some content
          mtime := if dir.pid = none then now else dir.mtime }

/-- `rm -f "$lockdir/pid"`. -/
def removePid (now : Nat) (name : Name) (dirs : Dirs) : Dirs :=
  match dirs.lookup name with
  | none => dirs
  | some dir =>
      dirs.insert name
        { dir with
          pid := none
          mtime := if dir.pid = none then dir.mtime else now }

/-- `rmdir`, which fails on a directory with a `pid` file. -/
def removeDir (name : Name) (dirs : Dirs) : Dirs :=
  match dirs.lookup name with
  | none => dirs
  | some dir => if dir.pid = none then dirs.erase name else dirs

/-- `ls -A "$MAC_LOCK_DIR"`. -/
def listMacs (dirs : Dirs) : List Text :=
  dirs.keys.filterMap fun
    | .gate => none
    | .mac addr => some addr

/-- Where `_try_reclaim_stale` was called. -/
inductive Caller where
  | macLock (addr : Text) (i : Nat)
  | gateLock (i : Nat)
  | gateScan (j : Nat) (rest : List Text)
deriving DecidableEq

/-- The next access of `_try_reclaim_stale`. -/
inductive Stage where
  | read
  | stat
  | date (mtime : Nat)
  | kill (holder : Nat)
  | removePid
  | removeDir
deriving DecidableEq

/-- The next access of a process.  `i` and `j` are the rounds of the loops;
`made` is the second of the `mkdir`. -/
inductive Pc where
  | idle
  | macGate (addr : Text) (i : Nat)
  | macMake (addr : Text) (i : Nat)
  | macPid (addr : Text) (i made : Nat)
  | macRecheck (addr : Text) (i : Nat)
  | macYieldPid (addr : Text) (i : Nat)
  | macYieldDir (addr : Text) (i : Nat)
  | gateMake (i : Nat)
  | gatePid (made : Nat)
  | gateList (j : Nat)
  | gateGlob (j : Nat)
  | gateScan (j : Nat) (rest : List Text)
  | gateYieldPid
  | gateYieldDir
  | unlockPid (name : Name)
  | unlockDir (name : Name)
  | reclaim (name : Name) (caller : Caller) (stage : Stage)
deriving DecidableEq

/-- A process: `$HNC_LOCK_HOLDER_PID`, the locks it holds and its next access.
A lock is held from the return of its lock function until its directory is
given back. -/
structure Proc where
  holderPid : Option Nat
  held : List Name
  pc : Pc
deriving DecidableEq

/-- The round at which the `pid` of a taken lock is looked at. -/
def staleCheckRound : Nat := 20

/-- Behind the call of `_try_reclaim_stale`. -/
def Caller.resume : Caller → Pc
  | macLock addr i => .macGate addr (i + 1)
  | gateLock i => .gateMake (i + 1)
  | gateScan j rest => .gateScan j rest

/-- One access of `_try_reclaim_stale`. -/
def reclaimStep (env : Env) (dirs : Dirs) (name : Name) (caller : Caller) :
    Stage → Dirs × Pc
  | .read =>
      match (dirs.lookup name).bind Dir.pid with
      | none => (dirs, .reclaim name caller .stat)
      | some holder => (dirs, .reclaim name caller (.kill holder))
  | .stat =>
      let mtime := ((dirs.lookup name).map Dir.mtime).getD 0
      (dirs, .reclaim name caller (.date mtime))
  | .date mtime =>
      if 0 < mtime ∧ 5 < env.now - mtime then
        (dirs, .reclaim name caller .removePid)
      else (dirs, caller.resume)
  | .kill holder =>
      if env.alive holder then (dirs, caller.resume)
      else (dirs, .reclaim name caller .removePid)
  | .removePid =>
      (removePid env.now name dirs, .reclaim name caller .removeDir)
  | .removeDir => (removeDir name dirs, caller.resume)

/-- The next access of a process. -/
def act (pid : Nat) (env : Env) (dirs : Dirs) (proc : Proc) : Dirs × Proc :=
  let content := proc.holderPid.getD pid
  match proc.pc with
  | .idle => (dirs, proc)
  -- `mac_lock`
  | .macGate addr i =>
      if timeoutRounds ≤ i then (dirs, { proc with pc := .idle })
      else if (dirs.lookup .gate).isSome then
        (dirs, { proc with pc := .macGate addr (i + 1) })
      else (dirs, { proc with pc := .macMake addr i })
  | .macMake addr i =>
      if (dirs.lookup (.mac addr)).isNone then
        (makeDir pid env.now (.mac addr) dirs,
          { proc with pc := .macPid addr i env.now })
      else if i = staleCheckRound then
        (dirs, { proc with
          pc := .reclaim (.mac addr) (.macLock addr i) .read })
      else (dirs, { proc with pc := .macGate addr (i + 1) })
  | .macPid addr i _ =>
      (writePid content env.now (.mac addr) dirs,
        { proc with pc := .macRecheck addr i })
  | .macRecheck addr i =>
      if (dirs.lookup .gate).isSome then
        (dirs, { proc with pc := .macYieldPid addr i })
      else (dirs, { proc with held := .mac addr :: proc.held, pc := .idle })
  | .macYieldPid addr i =>
      (removePid env.now (.mac addr) dirs,
        { proc with pc := .macYieldDir addr i })
  | .macYieldDir addr i =>
      (removeDir (.mac addr) dirs, { proc with pc := .macGate addr (i + 1) })
  -- `gate_lock`
  | .gateMake i =>
      if timeoutRounds ≤ i then (dirs, { proc with pc := .idle })
      else if (dirs.lookup .gate).isNone then
        (makeDir pid env.now .gate dirs,
          { proc with pc := .gatePid env.now })
      else if i = staleCheckRound then
        (dirs, { proc with pc := .reclaim .gate (.gateLock i) .read })
      else (dirs, { proc with pc := .gateMake (i + 1) })
  | .gatePid _ =>
      (writePid content env.now .gate dirs, { proc with pc := .gateList 0 })
  | .gateList j =>
      if timeoutRounds ≤ j then (dirs, { proc with pc := .gateYieldPid })
      else if listMacs dirs = [] then
        (dirs, { proc with held := .gate :: proc.held, pc := .idle })
      else (dirs, { proc with pc := .gateGlob j })
  | .gateGlob j => (dirs, { proc with pc := .gateScan j (listMacs dirs) })
  | .gateScan j [] => (dirs, { proc with pc := .gateList (j + 1) })
  | .gateScan j (addr :: rest) =>
      if (dirs.lookup (.mac addr)).isSome then
        (dirs, { proc with
          pc := .reclaim (.mac addr) (.gateScan j rest) .read })
      else (dirs, { proc with pc := .gateScan j rest })
  | .gateYieldPid =>
      (removePid env.now .gate dirs, { proc with pc := .gateYieldDir })
  | .gateYieldDir => (removeDir .gate dirs, { proc with pc := .idle })
  -- `mac_unlock` and `gate_unlock`
  | .unlockPid name =>
      (removePid env.now name dirs, { proc with pc := .unlockDir name })
  | .unlockDir name =>
      (removeDir name dirs,
        { proc with held := proc.held.erase name, pc := .idle })
  | .reclaim name caller stage =>
      let (dirs, pc) := reclaimStep env dirs name caller stage
      (dirs, { proc with pc })

inductive Command where
  | macLock (raw : Text)
  | macUnlock (raw : Text)
  | gateLock
  | gateUnlock
deriving DecidableEq

/-- The lock that a command releases. -/
def Command.unlocks : Command → Option Name
  | macUnlock raw => (macSanitize raw).map .mac
  | gateUnlock => some .gate
  | _ => none

/-- The first access of a command. -/
def Command.entry : Command → Pc
  | macLock raw =>
      match macSanitize raw with
      | none => .idle
      | some addr => .macGate addr 0
  | gateLock => .gateMake 0
  | macUnlock raw =>
      match macSanitize raw with
      | none => .idle
      | some addr => .unlockPid (.mac addr)
  | gateUnlock => .unlockPid .gate

/-- A process takes a command when it has returned from the last one. -/
def call (command : Command) (proc : Proc) : Proc :=
  if proc.pc = .idle then { proc with pc := command.entry } else proc

def program : Program Dirs Proc Command :=
  ⟨act, call⟩

abbrev Locks := World Dirs Proc

/-- No lock is taken; `holderPid` is what the environment of each process says. -/
def start (now : Nat) (holderPid : Nat → Option Nat) : Locks :=
  World.start now ∅ fun pid => ⟨holderPid pid, [], .idle⟩

/-- Only a process that holds a lock calls its unlock function. -/
def UnlocksOwn (locks : Locks) : Event Command → Prop
  | .call pid command => ∀ name, command.unlocks = some name →
      name ∈ (locks.procs pid).held
  | _ => True

end Hnc.LockSteps
