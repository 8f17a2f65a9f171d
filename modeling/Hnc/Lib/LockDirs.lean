import Hnc.Lib.Interleaving

/-!
# Directories as locks

A process takes a lock by making a directory and marks it with who it is.  A
process that finds the lock taken may look at the mark and reclaim the
directory.  A protocol says what the directory looks like to its maker in each
of the maker's roles, and what a process knows about a live maker at each stage
of reclaiming.  `Tracked` says that both are true; the rules below show it for
the kinds of steps there are.
-/

namespace LockDirs

open Interleaving

/-- How the processes of a program use their lock directories. -/
structure Protocol (Shared Local Name Dir Role Stage : Type) where
  lookup : Shared → Name → Option Dir
  maker : Dir → Nat
  /-- What a process has of a lock. -/
  role : Local → Name → Option Role
  /-- The directory a process is reclaiming, and how far it has come. -/
  reclaiming : Local → Option (Name × Stage)
  /-- The directory of a process, by the clock and the role of the process. -/
  Shows : Nat → Nat → Role → Dir → Prop
  /-- What a stage of reclaiming knows of a live maker and its role. -/
  Allows : Nat → Nat → Option Role → Stage → Prop

variable {Shared Local Name Dir Role Stage : Type}

section Tracking

variable (protocol : Protocol Shared Local Name Dir Role Stage)

def Protocol.makerOf (shared : Shared) (name : Name) : Option Nat :=
  (protocol.lookup shared name).map protocol.maker

/-- The directory of a lock as a process with a role for it, or with none, finds
it. -/
def Protocol.DirFor (now : Nat) (shared : Shared) (pid : Nat) (name : Name) :
    Option Role → Prop
  | none => protocol.makerOf shared name ≠ some pid
  | some role => ∃ dir, protocol.lookup shared name = some dir ∧
      protocol.maker dir = pid ∧ protocol.Shows now pid role dir

structure Tracked (world : World Shared Local) : Prop where
  dirs : ∀ pid name, world.alive pid = true →
    protocol.DirFor world.env.now world.shared pid name
      (protocol.role (world.procs pid) name)
  stages : ∀ pid name stage, world.alive pid = true →
    protocol.reclaiming (world.procs pid) = some (name, stage) →
    ∀ maker, world.alive maker = true →
      protocol.makerOf world.shared name = some maker →
      protocol.Allows world.env.now maker
        (protocol.role (world.procs maker) name) stage

end Tracking

variable {protocol : Protocol Shared Local Name Dir Role Stage}
  {world : World Shared Local}

variable {shared : Shared}

theorem makerOf_of_dirFor {now : Nat} {pid : Nat} {name : Name} {role : Role}
    (dirFor : protocol.DirFor now shared pid name (some role)) :
    protocol.makerOf shared name = some pid := by
  obtain ⟨dir, found, maker, _⟩ := dirFor
  rw [Protocol.makerOf, found, Option.map_some, maker]

theorem makerOf_congr {shared' : Shared} {name : Name}
    (same : protocol.lookup shared' name = protocol.lookup shared name) :
    protocol.makerOf shared' name = protocol.makerOf shared name := by
  rw [Protocol.makerOf, Protocol.makerOf, same]

/-- Only the directory itself matters. -/
theorem dirFor_congr {now : Nat} {shared' : Shared} {pid : Nat} {name : Name}
    {role : Option Role} (dirFor : protocol.DirFor now shared pid name role)
    (same : protocol.lookup shared' name = protocol.lookup shared name) :
    protocol.DirFor now shared' pid name role := by
  cases role with
  | none => exact ne_of_eq_of_ne (makerOf_congr same) dirFor
  | some role =>
      obtain ⟨dir, found, rest⟩ := dirFor
      exact ⟨dir, same.trans found, rest⟩

namespace Tracked

section

variable (tracked : Tracked protocol world) {pid : Nat} {name : Name}
  {role : Role} (live : world.alive pid = true)
  (has : protocol.role (world.procs pid) name = some role)
include tracked live has

theorem dir_of_role :
    ∃ dir, protocol.lookup world.shared name = some dir ∧
      protocol.maker dir = pid ∧
      protocol.Shows world.env.now pid role dir := by
  have dirFor := tracked.dirs pid name live
  rw [has] at dirFor
  exact dirFor

theorem makerOf_eq :
    protocol.makerOf world.shared name = some pid :=
  makerOf_of_dirFor (has ▸ tracked.dirs pid name live)

end

theorem role_eq_none (tracked : Tracked protocol world) {pid : Nat}
    {name : Name} (live : world.alive pid = true)
    (other : protocol.makerOf world.shared name ≠ some pid) :
    protocol.role (world.procs pid) name = none := by
  cases role : protocol.role (world.procs pid) name with
  | none => rfl
  | some role' => exact absurd (tracked.makerOf_eq live role) other

/-- A live maker of a directory has a role for the lock. -/
theorem role_of_maker (tracked : Tracked protocol world) {maker : Nat}
    {name : Name} (live : world.alive maker = true)
    (made : protocol.makerOf world.shared name = some maker) :
    ∃ role dir, protocol.role (world.procs maker) name = some role ∧
      protocol.lookup world.shared name = some dir ∧
      protocol.Shows world.env.now maker role dir := by
  have dirFor := tracked.dirs maker name live
  cases role : protocol.role (world.procs maker) name with
  | none =>
      rw [role] at dirFor
      exact absurd made dirFor
  | some role' =>
      rw [role] at dirFor
      obtain ⟨dir, found, _, shows⟩ := dirFor
      exact ⟨role', dir, rfl, found, shows⟩

/-- Two live processes with roles for one lock are the same. -/
theorem unique (tracked : Tracked protocol world) {left right : Nat}
    {name : Name} {leftRole rightRole : Role}
    (leftLive : world.alive left = true) (rightLive : world.alive right = true)
    (leftHas : protocol.role (world.procs left) name = some leftRole)
    (rightHas : protocol.role (world.procs right) name = some rightRole) :
    left = right := by
  have one := tracked.makerOf_eq leftLive leftHas
  rw [tracked.makerOf_eq rightLive rightHas] at one
  exact (Option.some.inj one).symm

variable {proc : Local}

/-- A step that takes a process from one role for a lock to another. -/
theorem enter [DecidableEq Name] (tracked : Tracked protocol world) {pid : Nat}
    {name : Name} {role : Option Role} (live : world.alive pid = true)
    (roles : ∀ other, protocol.role proc other = if other = name then role else protocol.role (world.procs pid) other)
    (notReclaiming : protocol.reclaiming proc = none)
    (elsewhere : ∀ other, other ≠ name → protocol.lookup shared other = protocol.lookup world.shared other)
    (before : ∀ other, protocol.makerOf world.shared name = some other → other = pid)
    (after : ∀ other, protocol.makerOf shared name = some other → other = pid)
    (dirFor : protocol.DirFor world.env.now shared pid name role)
    (evidence : ∀ other stage, world.alive other = true → protocol.reclaiming (world.procs other) = some (name, stage) → protocol.makerOf shared name = some pid → protocol.Allows world.env.now pid role stage) :
    Tracked protocol (world.enter pid (shared, proc)) := by
  constructor
  case dirs =>
    intro other lock alive
    rw [World.procs_enter]
    split
    · rename_i same
      rw [same, roles]
      split
      · rename_i own
        rw [own]
        exact dirFor
      · rename_i different
        exact dirFor_congr (tracked.dirs pid lock live)
          (elsewhere lock different)
    · rename_i different
      by_cases own : lock = name
      · subst own
        have none := tracked.role_eq_none alive
          fun maker => different (before other maker)
        rw [none]
        exact fun maker => different (after other maker)
      · exact dirFor_congr (tracked.dirs other lock alive) (elsewhere lock own)
  case stages =>
    intro other lock stage alive reclaiming maker makerAlive made
    rw [World.procs_enter] at reclaiming ⊢
    rw [World.shared_enter] at made
    split at reclaiming
    · rw [notReclaiming] at reclaiming
      cases reclaiming
    · by_cases own : lock = name
      · subst own
        have isOwn := after maker made
        subst isOwn
        have allows := evidence other stage alive reclaiming made
        simpa [roles] using allows
      · rw [makerOf_congr (elsewhere lock own)] at made
        have allows := tracked.stages other lock stage alive reclaiming maker
          makerAlive made
        split
        · rename_i same
          rw [roles, if_neg own, ← same]
          exact allows
        · exact allows

/-- A step that changes no role and no directory. -/
theorem enter_look (tracked : Tracked protocol world) {pid : Nat}
    (roles : ∀ name, protocol.role proc name = protocol.role (world.procs pid) name)
    (own : ∀ name stage, protocol.reclaiming proc = some (name, stage) → ∀ maker, world.alive maker = true → protocol.makerOf world.shared name = some maker → protocol.Allows world.env.now maker (protocol.role (world.procs maker) name) stage) :
    Tracked protocol (world.enter pid (world.shared, proc)) := by
  have role : ∀ other name, protocol.role
      ((world.enter pid (world.shared, proc)).procs other) name =
      protocol.role (world.procs other) name := by
    intro other name
    rw [World.procs_enter]
    split
    · rename_i same
      rw [same]
      exact roles name
    · rfl
  constructor
  case dirs =>
    intro other name alive
    rw [role]
    exact tracked.dirs other name alive
  case stages =>
    intro other name stage alive reclaiming maker makerAlive made
    rw [role]
    rw [World.procs_enter] at reclaiming
    split at reclaiming
    · exact own name stage reclaiming maker makerAlive made
    · exact tracked.stages other name stage alive reclaiming maker makerAlive
        made

/-- A step that changes or removes a directory that no live process made. -/
theorem enter_reclaim (tracked : Tracked protocol world) {pid : Nat} {name : Name}
    (roles : ∀ other, protocol.role proc other = protocol.role (world.procs pid) other)
    (abandoned : ∀ maker, world.alive maker = true → protocol.makerOf world.shared name ≠ some maker)
    (elsewhere : ∀ other, other ≠ name → protocol.lookup shared other = protocol.lookup world.shared other)
    (makers : ∀ maker, protocol.makerOf shared name = some maker → protocol.makerOf world.shared name = some maker)
    (own : ∀ lock stage, protocol.reclaiming proc = some (lock, stage) → lock = name) :
    Tracked protocol (world.enter pid (shared, proc)) := by
  have role : ∀ other lock, protocol.role
      ((world.enter pid (shared, proc)).procs other) lock =
      protocol.role (world.procs other) lock := by
    intro other lock
    rw [World.procs_enter]
    split
    · rename_i same
      rw [same]
      exact roles lock
    · rfl
  constructor
  case dirs =>
    intro other lock alive
    rw [role]
    by_cases here : lock = name
    · subst here
      rw [tracked.role_eq_none alive (abandoned other alive)]
      exact fun made => abandoned other alive (makers other made)
    · exact dirFor_congr (tracked.dirs other lock alive) (elsewhere lock here)
  case stages =>
    intro other lock stage alive reclaiming maker makerAlive made
    rw [role]
    by_cases here : lock = name
    · subst here
      exact absurd (makers maker made) (abandoned maker makerAlive)
    · rw [World.procs_enter] at reclaiming
      split at reclaiming
      · exact absurd (own lock stage reclaiming) here
      · exact tracked.stages other lock stage alive reclaiming maker makerAlive
          (makerOf_congr (elsewhere lock here) ▸ made)

theorem exit (tracked : Tracked protocol world) (pid : Nat) :
    Tracked protocol
      { world with
        env := { world.env with dead := pid :: world.env.dead } } where
  dirs other name alive :=
    tracked.dirs other name (World.alive_exit.mp alive).2
  stages other name stage alive reclaiming maker makerAlive :=
    tracked.stages other name stage (World.alive_exit.mp alive).2 reclaiming
      maker (World.alive_exit.mp makerAlive).2

/-- A second passes that no live process minds. -/
theorem tick (tracked : Tracked protocol world)
    (shows : ∀ pid name role dir, world.alive pid = true →
      protocol.role (world.procs pid) name = some role →
      protocol.Shows world.env.now pid role dir →
      protocol.Shows (world.env.now + 1) pid role dir)
    (allows : ∀ maker role stage,
      protocol.Allows world.env.now maker role stage →
      protocol.Allows (world.env.now + 1) maker role stage) :
    Tracked protocol
      { world with env := { world.env with now := world.env.now + 1 } } where
  dirs pid name alive := by
    have dirFor := tracked.dirs pid name alive
    cases role : protocol.role (world.procs pid) name with
    | none =>
        rw [role] at dirFor
        exact dirFor
    | some role' =>
        rw [role] at dirFor
        obtain ⟨dir, found, maker, shown⟩ := dirFor
        exact ⟨dir, found, maker, shows pid name role' dir alive role shown⟩
  stages pid name stage alive reclaiming maker makerAlive made :=
    allows maker _ stage
      (tracked.stages pid name stage alive reclaiming maker makerAlive made)

section Single

variable {protocol : Protocol Shared Local Unit Dir Role Stage}

variable {pid : Nat} {role : Role}

/-- The directory of a live process with a role is its own. -/
theorem maker_eq_of_role (tracked : Tracked protocol world)
    (live : world.alive pid = true)
    (has : protocol.role (world.procs pid) () = some role) (other : Nat)
    (made : protocol.makerOf world.shared () = some other) : other = pid :=
  Option.some.inj (made.symm.trans (tracked.makerOf_eq live has))

/-- A process makes its directory, or changes it. -/
theorem enter_own (tracked : Tracked protocol world)
    (live : world.alive pid = true)
    (notReclaiming : protocol.reclaiming proc = none)
    (has : protocol.role proc () = some role)
    (before : ∀ other, protocol.makerOf world.shared () = some other → other = pid)
    (dirFor : protocol.DirFor world.env.now shared pid () (some role))
    (evidence : ∀ other stage, world.alive other = true → protocol.reclaiming (world.procs other) = some ((), stage) → protocol.Allows world.env.now pid (some role) stage) :
    Tracked protocol (world.enter pid (shared, proc)) := by
  have roles : ∀ other, protocol.role proc other =
      if other = () then some role
      else protocol.role (world.procs pid) other := by
    intro other
    exact has
  refine tracked.enter live roles notReclaiming
    (fun _ different => absurd rfl different) before ?_ dirFor ?_
  · intro other made
    exact Option.some.inj (made.symm.trans (makerOf_of_dirFor dirFor))
  · intro other stage alive reclaiming _
    exact evidence other stage alive reclaiming

/-- A process removes its directory. -/
theorem enter_release (tracked : Tracked protocol world)
    (live : world.alive pid = true)
    (notReclaiming : protocol.reclaiming proc = none)
    (has : protocol.role (world.procs pid) () = some role)
    (left : protocol.role proc () = none)
    (removed : protocol.lookup shared () = none) :
    Tracked protocol (world.enter pid (shared, proc)) := by
  have noMaker : ∀ other, protocol.makerOf shared () ≠ some other := by
    intro other made
    rw [Protocol.makerOf, removed] at made
    cases made
  have roles : ∀ other, protocol.role proc other =
      if other = () then none else protocol.role (world.procs pid) other := by
    intro other
    exact left
  exact tracked.enter live roles notReclaiming
    (fun _ different => absurd rfl different)
    (tracked.maker_eq_of_role live has)
    (fun other made => absurd made (noMaker other)) (noMaker pid)
    (fun _ _ _ _ made => absurd made (noMaker pid))

/-- The removal of a directory that no live process made. -/
theorem enter_remove (tracked : Tracked protocol world)
    (roles : protocol.role proc () = protocol.role (world.procs pid) ())
    (abandoned : ∀ maker, world.alive maker = true → protocol.makerOf world.shared () ≠ some maker)
    (removed : protocol.lookup shared () = none) :
    Tracked protocol (world.enter pid (shared, proc)) := by
  refine tracked.enter_reclaim (fun _ => roles) abandoned ?_ ?_ ?_
  · exact fun _ different => absurd rfl different
  · intro maker made
    rw [Protocol.makerOf, removed] at made
    cases made
  · exact fun _ _ _ => rfl

end Single

end Tracked

end LockDirs
