import Hnc.Service.Lock
import Mathlib.Data.Prod.Lex

/-!
# What a step does to a lock directory

A process goes through four roles for a lock: it has made the directory, it has
written its `pid`, it holds the lock, and it has removed the `pid` again.  Every
access outside `_try_reclaim_stale` either leaves all directories alone or takes
the process from one role to the next.
-/

namespace Hnc.LockSteps

open Posix
open KeyMap
open Interleaving
open Lock (macSanitize timeoutRounds)

inductive Role where
  | marking (made : Nat)
  | marked
  | held
  | releasing
deriving DecidableEq

/-- The lock that a process is acquiring or giving back. -/
def Pc.own : Pc → Option (Name × Role)
  | .macPid addr _ made => some (.mac addr, .marking made)
  | .macRecheck addr _ | .macYieldPid addr _ => some (.mac addr, .marked)
  | .macYieldDir addr _ => some (.mac addr, .releasing)
  | .gatePid made => some (.gate, .marking made)
  | .gateList _ | .gateGlob _ | .gateScan _ _ | .gateYieldPid =>
      some (.gate, .marked)
  | .reclaim _ (.gateScan _ _) _ => some (.gate, .marked)
  | .gateYieldDir => some (.gate, .releasing)
  | .unlockPid name => some (name, .held)
  | .unlockDir name => some (name, .releasing)
  | _ => none

/-- The lock that a process is giving back after it held it. -/
def Pc.unlocking : Pc → Option Name
  | .unlockPid name | .unlockDir name => some name
  | _ => none

/-- How far `_try_reclaim_stale` has come, and with which directory. -/
def Pc.reclaiming : Pc → Option (Name × Stage)
  | .reclaim name _ stage => some (name, stage)
  | _ => none

/-- The directory that the next access makes, or writes a `pid` into. -/
def Pc.marks (dirs : Dirs) : Pc → Option Name
  | .macMake addr _ =>
      if (dirs.lookup (.mac addr)).isNone then some (.mac addr) else none
  | .gateMake i =>
      if i < timeoutRounds ∧ (dirs.lookup .gate).isNone then some .gate
      else none
  | .macPid addr _ _ => some (.mac addr)
  | .gatePid _ => some .gate
  | _ => none

/-- What a process has of a lock. -/
def Proc.role (proc : Proc) (name : Name) : Option Role :=
  match proc.pc.own with
  | some (own, role) =>
      if name = own then some role
      else if name ∈ proc.held then some .held else none
  | none => if name ∈ proc.held then some .held else none

/-- A process gives back only what it holds, and does not hold what it is still
acquiring. -/
structure Proc.Wf (proc : Proc) : Prop where
  nodup : proc.held.Nodup
  unlocking : ∀ name, proc.pc.unlocking = some name → name ∈ proc.held
  acquiring : ∀ name role, proc.pc.own = some (name, role) →
    proc.pc.unlocking = none → name ∉ proc.held

theorem Proc.role_of_mem {proc : Proc} {name : Name}
    (member : name ∈ proc.held) : proc.role name ≠ none := by
  cases own : proc.pc.own with
  | none => simp [Proc.role, own, member]
  | some pair =>
      by_cases same : name = pair.1
      · simp [Proc.role, own, same]
      · simp [Proc.role, own, same, member]

theorem Proc.role_of_own {proc : Proc} {name : Name} {role : Role}
    (own : proc.pc.own = some (name, role)) :
    proc.role name = some role := by
  simp [Proc.role, own]

/-- The roles after one of them has changed. -/
def setRole (roles : Name → Option Role) (name : Name) (role : Option Role) :
    Name → Option Role :=
  fun other => if other = name then role else roles other

/-- What an access of a process does. -/
inductive Effect (pid : Nat) (env : Env) (dirs : Dirs) (proc : Proc) :
    Dirs × Proc → Prop where
  | look {proc' : Proc} : proc'.role = proc.role → proc'.held = proc.held →
      (∀ name stage, proc'.pc.reclaiming = some (name, stage) →
        stage = .read) →
      Effect pid env dirs proc (dirs, proc')
  | take {proc' : Proc} (name : Name) : proc.role name = some .marked →
      proc'.role = setRole proc.role name (some .held) →
      proc'.held = name :: proc.held → proc'.pc.reclaiming = none →
      (name = .gate → listMacs dirs = []) →
      (∀ addr, name = .mac addr → dirs.lookup .gate = none) →
      Effect pid env dirs proc (dirs, proc')
  | make {proc' : Proc} (name : Name) : proc.pc.marks dirs = some name →
      dirs.lookup name = none →
      proc'.role = setRole proc.role name (some (.marking env.now)) →
      proc'.held = proc.held → proc'.pc.reclaiming = none →
      Effect pid env dirs proc (makeDir pid env.now name dirs, proc')
  | mark {proc' : Proc} (name : Name) (made : Nat) :
      proc.pc.marks dirs = some name →
      proc.role name = some (.marking made) →
      proc'.role = setRole proc.role name (some .marked) →
      proc'.held = proc.held → proc'.pc.reclaiming = none →
      Effect pid env dirs proc
        (writePid (proc.holderPid.getD pid) env.now name dirs, proc')
  | unmark {proc' : Proc} (name : Name) :
      (proc.role name = some .marked ∨ proc.role name = some .held) →
      proc'.role = setRole proc.role name (some .releasing) →
      proc'.held = proc.held → proc'.pc.reclaiming = none →
      Effect pid env dirs proc (removePid env.now name dirs, proc')
  | release {proc' : Proc} (name : Name) :
      proc.role name = some .releasing →
      proc'.role = setRole proc.role name none →
      proc'.held = proc.held.erase name → proc'.pc.reclaiming = none →
      Effect pid env dirs proc (removeDir name dirs, proc')
  | reclaim {proc' : Proc} (name : Name) (caller : Caller) (stage : Stage) :
      proc.pc = .reclaim name caller stage →
      proc'.role = proc.role → proc'.held = proc.held →
      proc'.pc = (reclaimStep env dirs name caller stage).2 →
      Effect pid env dirs proc
        ((reclaimStep env dirs name caller stage).1, proc')

/-- Only a return from a lock function adds to the locks of a process, and it
has found no directory of the other kind. -/
theorem Effect.held {pid : Nat} {env : Env} {dirs : Dirs} {proc : Proc}
    {next : Dirs × Proc} (effect : Effect pid env dirs proc next) {lock : Name}
    (member : lock ∈ next.2.held) :
    lock ∈ proc.held ∨ (proc.role lock = some .marked ∧
      (lock = .gate → listMacs dirs = []) ∧
      ∀ addr, lock = .mac addr → dirs.lookup .gate = none) := by
  cases effect with
  | take name marked _ held _ noMacs noGate =>
      rw [held] at member
      rcases List.mem_cons.mp member with rfl | before
      · exact .inr ⟨marked, noMacs, noGate⟩
      · exact .inl before
  | release name _ _ held _ =>
      rw [held] at member
      exact .inl (List.mem_of_mem_erase member)
  | look _ held _ | make _ _ _ _ held _ | mark _ _ _ _ _ held _
  | unmark _ _ _ held _ | reclaim _ _ _ _ _ held _ => exact .inl (held ▸ member)

theorem own_reclaim (name : Name) (caller : Caller) (stage : Stage) :
    (Pc.reclaim name caller stage).own = caller.resume.own := by
  cases caller <;> rfl

theorem own_reclaimStep (env : Env) (dirs : Dirs) (name : Name)
    (caller : Caller) (stage : Stage) :
    (reclaimStep env dirs name caller stage).2.own = caller.resume.own := by
  cases stage with
  | read =>
      simp only [reclaimStep]
      split <;> exact own_reclaim ..
  | stat => exact own_reclaim ..
  | date mtime =>
      simp only [reclaimStep]
      split
      · exact own_reclaim ..
      · rfl
  | kill holder =>
      simp only [reclaimStep]
      split
      · rfl
      · exact own_reclaim ..
  | removePid => exact own_reclaim ..
  | removeDir => rfl

/-- The roles depend on the locks that are held and on the own lock. -/
theorem role_congr {proc proc' : Proc} (held : proc'.held = proc.held)
    (own : proc'.pc.own = proc.pc.own) : proc'.role = proc.role := by
  funext name
  rw [Proc.role, Proc.role, held, own]

section

variable {proc proc' : Proc} {name : Name}

theorem role_setOwn {old new : Role} (held : proc'.held = proc.held)
    (before : proc.pc.own = some (name, old))
    (after : proc'.pc.own = some (name, new)) :
    proc'.role = setRole proc.role name (some new) := by
  funext other
  simp only [Proc.role, setRole, held, before, after]
  split <;> rfl

theorem role_newOwn {new : Role} (held : proc'.held = proc.held)
    (before : proc.pc.own = none) (after : proc'.pc.own = some (name, new)) :
    proc'.role = setRole proc.role name (some new) := by
  funext other
  simp only [Proc.role, setRole, held, before, after]

theorem role_take {role : Role} (before : proc.pc.own = some (name, role))
    (after : proc'.pc.own = none) (held : proc'.held = name :: proc.held) :
    proc'.role = setRole proc.role name (some .held) := by
  funext other
  simp only [Proc.role, setRole, held, before, after]
  by_cases same : other = name <;> simp [same]

theorem role_dropOwn {role : Role} (before : proc.pc.own = some (name, role))
    (after : proc'.pc.own = none)
    (held : ∀ other, other ∈ proc'.held ↔ other ∈ proc.held ∧ other ≠ name) :
    proc'.role = setRole proc.role name none := by
  funext other
  simp only [Proc.role, setRole, held, before, after]
  by_cases same : other = name <;> simp [same]

end

theorem reclaiming_resume (caller : Caller) :
    caller.resume.reclaiming = none := by
  cases caller <;> rfl

theorem held_yield {proc : Proc} (wf : proc.Wf) {name : Name} {role : Role}
    (own : proc.pc.own = some (name, role))
    (acquiring : proc.pc.unlocking = none) (other : Name) :
    other ∈ proc.held ↔ other ∈ proc.held ∧ other ≠ name := by
  constructor
  · intro member
    refine ⟨member, ?_⟩
    rintro rfl
    exact wf.acquiring other role own acquiring member
  · exact fun both => both.1

theorem act_effect (pid : Nat) (env : Env) (dirs : Dirs) {proc : Proc}
    (wf : proc.Wf) : Effect pid env dirs proc (act pid env dirs proc) := by
  obtain ⟨holderPid, held, pc⟩ := proc
  cases pc with
  | idle => exact .look rfl rfl (by rintro _ _ ⟨⟩)
  | macGate addr i =>
      simp only [act]
      repeat' split
      all_goals exact .look (role_congr rfl rfl) rfl (by rintro _ _ ⟨⟩)
  | macMake addr i =>
      simp only [act]
      split
      · rename_i free
        exact .make (.mac addr) (if_pos free)
          (Option.isNone_iff_eq_none.mp free) (role_newOwn rfl rfl rfl) rfl rfl
      · split
        · exact .look (role_congr rfl rfl) rfl (by rintro _ _ ⟨⟩; rfl)
        · exact .look (role_congr rfl rfl) rfl (by rintro _ _ ⟨⟩)
  | macPid addr i made =>
      exact .mark (.mac addr) made rfl (Proc.role_of_own rfl)
        (role_setOwn rfl rfl rfl) rfl rfl
  | macRecheck addr i =>
      simp only [act]
      split
      · exact .look (role_congr rfl rfl) rfl (by rintro _ _ ⟨⟩)
      · rename_i open_
        refine .take (.mac addr) (Proc.role_of_own rfl) (role_take rfl rfl rfl)
          rfl rfl (by rintro ⟨⟩) ?_
        intro _ _
        simpa using open_
  | macYieldPid addr i =>
      exact .unmark (.mac addr) (.inl (Proc.role_of_own rfl))
        (role_setOwn rfl rfl rfl) rfl rfl
  | macYieldDir addr i =>
      refine .release (.mac addr) (Proc.role_of_own rfl)
        (role_dropOwn rfl rfl (held_yield wf rfl rfl)) ?_ rfl
      exact (List.erase_of_not_mem (wf.acquiring _ _ rfl rfl)).symm
  | gateMake i =>
      simp only [act]
      split
      · exact .look (role_congr rfl rfl) rfl (by rintro _ _ ⟨⟩)
      · split
        · rename_i free
          refine .make .gate (if_pos ⟨by omega, free⟩)
            (Option.isNone_iff_eq_none.mp free) (role_newOwn rfl rfl rfl) rfl
            rfl
        · split
          · exact .look (role_congr rfl rfl) rfl (by rintro _ _ ⟨⟩; rfl)
          · exact .look (role_congr rfl rfl) rfl (by rintro _ _ ⟨⟩)
  | gatePid made =>
      exact .mark .gate made rfl (Proc.role_of_own rfl)
        (role_setOwn rfl rfl rfl) rfl rfl
  | gateList j =>
      simp only [act]
      split
      · exact .look (role_congr rfl rfl) rfl (by rintro _ _ ⟨⟩)
      · split
        · rename_i empty
          exact .take .gate (Proc.role_of_own rfl) (role_take rfl rfl rfl)
            rfl rfl (fun _ => empty) (by rintro _ ⟨⟩)
        · exact .look (role_congr rfl rfl) rfl (by rintro _ _ ⟨⟩)
  | gateGlob j => exact .look (role_congr rfl rfl) rfl (by rintro _ _ ⟨⟩)
  | gateScan j rest =>
      cases rest with
      | nil => exact .look (role_congr rfl rfl) rfl (by rintro _ _ ⟨⟩)
      | cons addr rest =>
          simp only [act]
          split
          · exact .look (role_congr rfl rfl) rfl (by rintro _ _ ⟨⟩; rfl)
          · exact .look (role_congr rfl rfl) rfl (by rintro _ _ ⟨⟩)
  | gateYieldPid =>
      exact .unmark .gate (.inl (Proc.role_of_own rfl))
        (role_setOwn rfl rfl rfl) rfl rfl
  | gateYieldDir =>
      refine .release .gate (Proc.role_of_own rfl)
        (role_dropOwn rfl rfl (held_yield wf rfl rfl)) ?_ rfl
      exact (List.erase_of_not_mem (wf.acquiring _ _ rfl rfl)).symm
  | unlockPid name =>
      exact .unmark name (.inr (Proc.role_of_own rfl))
        (role_setOwn rfl rfl rfl) rfl rfl
  | unlockDir name =>
      refine .release name (Proc.role_of_own rfl)
        (role_dropOwn rfl rfl ?_) rfl rfl
      intro other
      exact (wf.nodup.mem_erase_iff).trans and_comm
  | reclaim name caller stage =>
      refine .reclaim name caller stage rfl (role_congr rfl ?_) rfl rfl
      exact (own_reclaimStep ..).trans (own_reclaim name caller stage).symm

theorem wf_without_own {proc : Proc} (nodup : proc.held.Nodup)
    (own : proc.pc.own = none) (unlocking : proc.pc.unlocking = none) :
    proc.Wf where
  nodup := nodup
  unlocking name same := by
    rw [unlocking] at same
    cases same
  acquiring name role same _ := by
    rw [own] at same
    cases same

theorem wf_acquiring {proc : Proc} {name : Name} {role : Role}
    (nodup : proc.held.Nodup) (own : proc.pc.own = some (name, role))
    (unlocking : proc.pc.unlocking = none) (fresh : name ∉ proc.held) :
    proc.Wf where
  nodup := nodup
  unlocking other same := by
    rw [unlocking] at same
    cases same
  acquiring other otherRole same _ := by
    rw [own] at same
    cases same
    exact fresh

theorem wf_unlocking {proc : Proc} {name : Name} (nodup : proc.held.Nodup)
    (unlocking : proc.pc.unlocking = some name) (member : name ∈ proc.held) :
    proc.Wf where
  nodup := nodup
  unlocking other same := by
    rw [unlocking] at same
    cases same
    exact member
  acquiring other role _ none := by
    rw [unlocking] at none
    cases none

theorem unlocking_reclaimStep (env : Env) (dirs : Dirs) (name : Name)
    (caller : Caller) (stage : Stage) :
    (reclaimStep env dirs name caller stage).2.unlocking = none := by
  have resume : caller.resume.unlocking = none := by
    cases caller <;> rfl
  cases stage with
  | read =>
      simp only [reclaimStep]
      split <;> rfl
  | stat => rfl
  | date mtime =>
      simp only [reclaimStep]
      split
      · rfl
      · exact resume
  | kill holder =>
      simp only [reclaimStep]
      split
      · exact resume
      · rfl
  | removePid => rfl
  | removeDir => exact resume

theorem act_wf (pid : Nat) (env : Env) (dirs : Dirs) {proc : Proc}
    (wf : proc.Wf)
    (present : ∀ name ∈ proc.held, dirs.lookup name ≠ none) :
    (act pid env dirs proc).2.Wf := by
  have free : ∀ name, (dirs.lookup name).isNone = true →
      name ∉ proc.held := by
    intro name none member
    exact present name member (Option.isNone_iff_eq_none.mp none)
  obtain ⟨holderPid, held, pc⟩ := proc
  have nodup := wf.nodup
  cases pc with
  | idle => exact wf
  | macGate addr i =>
      simp only [act]
      repeat' split
      all_goals exact wf_without_own nodup rfl rfl
  | macMake addr i =>
      simp only [act]
      split
      · rename_i none
        exact wf_acquiring nodup rfl rfl (free _ none)
      · split <;> exact wf_without_own nodup rfl rfl
  | macPid addr i made =>
      exact wf_acquiring nodup rfl rfl (wf.acquiring _ _ rfl rfl)
  | macRecheck addr i =>
      have fresh : Name.mac addr ∉ held := wf.acquiring _ _ rfl rfl
      simp only [act]
      split
      · exact wf_acquiring nodup rfl rfl fresh
      · exact wf_without_own (List.nodup_cons.mpr ⟨fresh, nodup⟩) rfl rfl
  | macYieldPid addr i =>
      exact wf_acquiring nodup rfl rfl (wf.acquiring _ _ rfl rfl)
  | macYieldDir addr i => exact wf_without_own nodup rfl rfl
  | gateMake i =>
      simp only [act]
      split
      · exact wf_without_own nodup rfl rfl
      · split
        · rename_i none
          exact wf_acquiring nodup rfl rfl (free _ none)
        · split <;> exact wf_without_own nodup rfl rfl
  | gatePid made =>
      exact wf_acquiring nodup rfl rfl (wf.acquiring _ _ rfl rfl)
  | gateList j =>
      have fresh : Name.gate ∉ held := wf.acquiring _ _ rfl rfl
      simp only [act]
      split
      · exact wf_acquiring nodup rfl rfl fresh
      · split
        · exact wf_without_own (List.nodup_cons.mpr ⟨fresh, nodup⟩) rfl rfl
        · exact wf_acquiring nodup rfl rfl fresh
  | gateGlob j =>
      exact wf_acquiring nodup rfl rfl (wf.acquiring _ _ rfl rfl)
  | gateScan j rest =>
      have fresh : Name.gate ∉ held := wf.acquiring _ _ rfl rfl
      cases rest with
      | nil => exact wf_acquiring nodup rfl rfl fresh
      | cons addr rest =>
          simp only [act]
          split <;> exact wf_acquiring nodup rfl rfl fresh
  | gateYieldPid =>
      exact wf_acquiring nodup rfl rfl (wf.acquiring _ _ rfl rfl)
  | gateYieldDir => exact wf_without_own nodup rfl rfl
  | unlockPid name => exact wf_unlocking nodup rfl (wf.unlocking _ rfl)
  | unlockDir name => exact wf_without_own (nodup.erase name) rfl rfl
  | reclaim name caller stage =>
      have own := (own_reclaimStep env dirs name caller stage).trans
        (own_reclaim name caller stage).symm
      refine ⟨nodup, ?_, ?_⟩
      · intro other same
        have none := unlocking_reclaimStep env dirs name caller stage
        exact absurd (none.symm.trans same) (by simp)
      · intro other role same _
        exact wf.acquiring other role (own.symm.trans same) rfl

variable {command : Command}

theorem entry_unlocking {name : Name}
    (unlocking : command.entry.unlocking = some name) :
    command.unlocks = some name := by
  cases command with
  | macLock raw =>
      simp only [Command.entry] at unlocking
      split at unlocking <;> cases unlocking
  | gateLock => cases unlocking
  | gateUnlock => exact unlocking
  | macUnlock raw =>
      simp only [Command.entry] at unlocking
      simp only [Command.unlocks]
      split at unlocking
      · cases unlocking
      · rename_i addr known
        rw [known]
        exact unlocking

theorem own_entry {name : Name} {role : Role}
    (own : command.entry.own = some (name, role)) :
    role = .held ∧ command.entry.unlocking = some name := by
  cases command with
  | macLock raw =>
      simp only [Command.entry] at own
      split at own <;> cases own
  | gateLock => cases own
  | gateUnlock =>
      cases own
      exact ⟨rfl, rfl⟩
  | macUnlock raw =>
      simp only [Command.entry] at own ⊢
      split at own
      · cases own
      · cases own
        exact ⟨rfl, rfl⟩

theorem reclaiming_entry (command : Command) :
    command.entry.reclaiming = none := by
  cases command with
  | macLock raw =>
      simp only [Command.entry]
      split <;> rfl
  | gateLock => rfl
  | gateUnlock => rfl
  | macUnlock raw =>
      simp only [Command.entry]
      split <;> rfl

theorem call_keeps {proc : Proc} (wf : proc.Wf)
    (owns : ∀ name, command.unlocks = some name → name ∈ proc.held) :
    (call command proc).Wf ∧ (call command proc).role = proc.role ∧
      (call command proc).held = proc.held ∧
      ((call command proc).pc.reclaiming = none ∨
        (call command proc).pc = proc.pc) := by
  unfold call
  split
  · rename_i idle
    have before : proc.pc.own = none := by rw [idle]; rfl
    refine ⟨⟨wf.nodup, ?_, ?_⟩, ?_, rfl, .inl (reclaiming_entry command)⟩
    · exact fun name unlocking => owns name (entry_unlocking unlocking)
    · intro name role own none
      exact absurd ((own_entry own).2.symm.trans none) (by simp)
    · funext name
      cases own : command.entry.own with
      | none => simp [Proc.role, own, before]
      | some pair =>
          obtain ⟨released, role⟩ := pair
          obtain ⟨rfl, unlocking⟩ := own_entry own
          have member := owns released (entry_unlocking unlocking)
          simp only [Proc.role, own, before]
          split
          · rename_i same
            rw [same, if_pos member]
          · rfl
  · exact ⟨wf, rfl, rfl, .inr rfl⟩

/-- The accesses of `_try_reclaim_stale` that are left. -/
def Stage.rank : Stage → Nat
  | .read => 6
  | .stat => 5
  | .date _ | .kill _ => 4
  | .removePid => 3
  | .removeDir => 2

/-- Each access goes to a smaller pair, first of the rounds that are left and
then of the accesses of a round. -/
def Pc.rank : Pc → Nat ×ₗ Nat
  | .idle => toLex (0, 0)
  | .macGate _ i => toLex (50 - i, if 50 ≤ i then 1 else 9)
  | .macMake _ i => toLex (50 - i, 8)
  | .macPid _ i _ => toLex (50 - i, 7)
  | .macRecheck _ i => toLex (50 - i, 6)
  | .macYieldPid _ i => toLex (50 - i, 5)
  | .macYieldDir _ i => toLex (50 - i, 4)
  | .gateMake i => toLex (200 + (50 - i), if 50 ≤ i then 1 else 9)
  | .gatePid _ => toLex (150, 0)
  | .gateList j => toLex (if 50 ≤ j then 1 else 2 * (50 - j) + 3, 1)
  | .gateGlob j => toLex (2 * (50 - j) + 3, 0)
  | .gateScan j rest => toLex (2 * (50 - j) + 2, 8 * rest.length + 1)
  | .gateYieldPid => toLex (0, 3)
  | .gateYieldDir => toLex (0, 2)
  | .unlockPid _ => toLex (0, 2)
  | .unlockDir _ => toLex (0, 1)
  | .reclaim _ (.macLock _ i) stage => toLex (50 - i, stage.rank)
  | .reclaim _ (.gateLock i) stage => toLex (200 + (50 - i), stage.rank)
  | .reclaim _ (.gateScan j rest) stage =>
      toLex (2 * (50 - j) + 2, 8 * rest.length + 1 + stage.rank)

theorem reclaimStep_descends (env : Env) (dirs : Dirs) (name : Name)
    (caller : Caller) (stage : Stage) :
    (reclaimStep env dirs name caller stage).2.rank <
      (Pc.reclaim name caller stage).rank := by
  have further : ∀ {later : Stage}, later.rank < stage.rank →
      (Pc.reclaim name caller later).rank <
        (Pc.reclaim name caller stage).rank := by
    intro later fewer
    cases caller <;> simp only [Pc.rank, Prod.Lex.toLex_lt_toLex] <;> grind
  have back : caller.resume.rank < (Pc.reclaim name caller stage).rank := by
    have left : 2 ≤ stage.rank := by
      cases stage <;> simp [Stage.rank]
    cases caller <;>
      simp only [Caller.resume, Pc.rank, Prod.Lex.toLex_lt_toLex] <;> grind
  cases stage with
  | read =>
      rw [reclaimStep]
      split <;> exact further (by simp [Stage.rank])
  | date mtime =>
      rw [reclaimStep]
      split
      · exact further (by simp [Stage.rank])
      · exact back
  | kill holder =>
      rw [reclaimStep]
      split
      · exact back
      · exact further (by simp [Stage.rank])
  | stat | removePid => exact further (by simp [Stage.rank])
  | removeDir => exact back

def Proc.rank (proc : Proc) : Nat ×ₗ Nat :=
  proc.pc.rank

theorem act_descends (pid : Nat) (env : Env) (dirs : Dirs) (proc : Proc)
    (busy : ¬proc.pc = .idle) :
    (act pid env dirs proc).2.rank < proc.rank := by
  obtain ⟨holderPid, held, pc⟩ := proc
  cases pc with
  | idle => exact absurd rfl busy
  | reclaim name caller stage =>
      exact reclaimStep_descends env dirs name caller stage
  | gateScan j rest =>
      cases rest with
      | nil =>
          simp only [act, Proc.rank, Pc.rank, Prod.Lex.toLex_lt_toLex]
          grind
      | cons addr rest =>
          simp only [act]
          split <;> simp only [Proc.rank, Pc.rank, Prod.Lex.toLex_lt_toLex, Stage.rank,
            List.length_cons] <;> grind
  | _ =>
      simp only [act, timeoutRounds]
      repeat' split
      all_goals
        simp only [Proc.rank, Pc.rank, Prod.Lex.toLex_lt_toLex, Stage.rank]
        grind

/-- Every call of a lock function or an unlock function returns, as long as the
process lives and gets its turn again and again. -/
theorem calls_return (locks : Locks) (events : Nat → Event Command) (pid : Nat)
    (turns : ∀ k, ∃ n, k ≤ n ∧ events n = .act pid ∧
      (World.along program locks events n).alive pid = true) (k : Nat) :
    ∃ n, k ≤ n ∧ ((World.along program locks events n).procs pid).pc = .idle :=
  World.comes_back Proc.rank (fun proc => proc.pc = .idle) act_descends
    (fun _ _ busy => if_neg busy) turns k

/-- A process takes the gate and then always has its turn. -/
def gateAlone (n : Nat) : Event Command :=
  if n = 0 then .call 1 .gateLock else .act 1

theorem calls_return_gateAlone :
    ∃ n, 1 ≤ n ∧ ((World.along program (start 0 fun _ => none) gateAlone
      n).procs 1).pc = .idle := by
  apply calls_return
  intro k
  refine ⟨k + 1, by omega, rfl, ?_⟩
  induction k + 1 with
  | zero => rfl
  | succ n alive =>
      rw [World.along, gateAlone]
      split <;> simpa [World.step, alive] using alive

end Hnc.LockSteps
