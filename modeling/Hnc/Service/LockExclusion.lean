import Hnc.Service.LockEffects

/-!
# The gate and the locks of addresses exclude each other

A process makes its own directory before it looks for the directory of the
others.  So of a process with the gate and one with the lock of an address, the
one that looked last saw the directory of the other.
-/

namespace Hnc.LockSteps

open Posix
open KeyMap
open Interleaving

/-- The process that made a directory. -/
def makerOf (dirs : Dirs) (name : Name) : Option Nat :=
  (dirs.lookup name).map Dir.maker

variable {dirs : Dirs} {name : Name}

theorem makerOf_eq_none : makerOf dirs name = none ↔ dirs.lookup name = none := by
  simp [makerOf]

theorem lookup_makeDir (pid now : Nat) (name other : Name) (dirs : Dirs) :
    (makeDir pid now name dirs).lookup other =
      if other = name then some ⟨pid, none, now⟩ else dirs.lookup other :=
  lookup_insert_eq dirs other name _

theorem lookup_writePid (content now : Nat) (name other : Name)
    (dirs : Dirs) :
    (writePid content now name dirs).lookup other =
      if other = name then
        (dirs.lookup name).map fun dir =>
          { dir with
            pid := some content
            mtime := if dir.pid = none then now else dir.mtime }
      else dirs.lookup other := by
  unfold writePid
  split
  · rename_i absent
    split
    · rename_i same
      rw [same, absent]
      rfl
    · rfl
  · rename_i dir present
    rw [lookup_insert_eq, present]
    rfl

theorem lookup_removePid (now : Nat) (name other : Name) (dirs : Dirs) :
    (removePid now name dirs).lookup other =
      if other = name then
        (dirs.lookup name).map fun dir =>
          { dir with
            pid := none
            mtime := if dir.pid = none then dir.mtime else now }
      else dirs.lookup other := by
  unfold removePid
  split
  · rename_i absent
    split
    · rename_i same
      rw [same, absent]
      rfl
    · rfl
  · rename_i dir present
    rw [lookup_insert_eq, present]
    rfl

theorem lookup_removeDir_other {other : Name} (different : other ≠ name)
    (dirs : Dirs) : (removeDir name dirs).lookup other = dirs.lookup other := by
  unfold removeDir
  split
  · rfl
  · split
    · rw [lookup_erase_eq, if_neg different]
    · rfl

theorem makerOf_writePid (content now : Nat) (name : Name) (dirs : Dirs) :
    makerOf (writePid content now name dirs) = makerOf dirs := by
  funext other
  rw [makerOf, lookup_writePid]
  split
  · rename_i same
    rw [same, Option.map_map]
    rfl
  · rfl

theorem makerOf_removePid (now : Nat) (name : Name) (dirs : Dirs) :
    makerOf (removePid now name dirs) = makerOf dirs := by
  funext other
  rw [makerOf, lookup_removePid]
  split
  · rename_i same
    rw [same, Option.map_map]
    rfl
  · rfl

theorem makerOf_of_removeDir {other : Name} {maker : Nat}
    (made : makerOf (removeDir name dirs) other = some maker) :
    makerOf dirs other = some maker := by
  by_cases own : other = name
  · subst own
    unfold removeDir at made
    split at made
    · exact made
    · split at made
      · rw [makerOf, lookup_erase_eq, if_pos rfl] at made
        cases made
      · exact made
  · rw [makerOf, lookup_removeDir_other own] at made
    exact made

theorem lookup_of_listMacs (empty : listMacs dirs = []) (addr : Text) :
    dirs.lookup (.mac addr) = none := by
  cases found : dirs.lookup (.mac addr) with
  | none => rfl
  | some dir =>
      have key : Name.mac addr ∈ dirs.keys := by
        apply AList.mem_keys.mpr
        apply AList.lookup_isSome.mp
        rw [found]
        rfl
      have listed : addr ∈ listMacs dirs :=
        List.mem_filterMap.mpr ⟨.mac addr, key, rfl⟩
      rw [empty] at listed
      cases listed

/-- `_try_reclaim_stale` leaves the directories as they are. -/
def ReclaimsNothing (locks : Locks) : Event Command → Prop
  | .act pid => (locks.procs pid).pc.reclaiming ≠ none →
      ∀ name, (act pid locks.env locks.shared
        (locks.procs pid)).1.lookup name = locks.shared.lookup name
  | _ => True

/-- No holder of the gate beside a holder of an address, and no two holders of
one lock. -/
structure Exclusive (locks : Locks) : Prop where
  gate : ∀ left right addr, Name.gate ∈ (locks.procs left).held →
    Name.mac addr ∉ (locks.procs right).held
  once : ∀ left right name, name ∈ (locks.procs left).held →
    name ∈ (locks.procs right).held → left = right

/-- Every process with a role for a lock made its directory. -/
structure Owned (locks : Locks) : Prop where
  wf : ∀ pid, (locks.procs pid).Wf
  maker : ∀ pid name, (locks.procs pid).role name ≠ none →
    makerOf locks.shared name = some pid
  apart : ∀ left right addr, Name.gate ∈ (locks.procs left).held →
    Name.mac addr ∉ (locks.procs right).held

namespace Owned

variable {locks : Locks}

variable {pid : Nat}

theorem held_maker (owned : Owned locks) (member : name ∈ (locks.procs pid).held) :
    makerOf locks.shared name = some pid :=
  owned.maker pid name (Proc.role_of_mem member)

theorem exclusive (owned : Owned locks) : Exclusive locks where
  gate := owned.apart
  once left right name first second := by
    have one := owned.held_maker first
    rw [owned.held_maker second] at one
    exact (Option.some.inj one).symm

theorem start (now : Nat) (holderPid : Nat → Option Nat) :
    Owned (start now holderPid) where
  wf _ := wf_without_own List.nodup_nil rfl rfl
  maker _ _ has := absurd rfl has
  apart _ _ _ _ := List.not_mem_nil

/-- A step that takes no lock: the directories of the others stay, and the
process keeps no role without a directory. -/
theorem enter (owned : Owned locks) {proc : Proc} (wf : proc.Wf)
    (others : ∀ name maker, maker ≠ pid → makerOf locks.shared name = some maker → makerOf dirs name = some maker)
    (own : ∀ name, proc.role name ≠ none → makerOf dirs name = some pid)
    (held : proc.held ⊆ (locks.procs pid).held) :
    Owned (locks.enter pid (dirs, proc)) := by
  have heldBefore : ∀ other, ((locks.enter pid (dirs, proc)).procs other).held ⊆
      (locks.procs other).held := by
    intro other
    rw [World.procs_enter]
    split
    · rename_i same
      rw [same]
      exact held
    · exact fun _ member => member
  constructor
  case wf =>
    intro other
    rw [World.procs_enter]
    split
    · exact wf
    · exact owned.wf other
  case maker =>
    intro other name has
    rw [World.procs_enter] at has
    split at has
    · rename_i same
      rw [same]
      exact own name has
    · rename_i different
      exact others name other different (owned.maker other name has)
  case apart =>
    intro left right addr first second
    exact owned.apart left right addr (heldBefore left first)
      (heldBefore right second)

/-- A lock function returns with its lock, after it has looked for the others. -/
theorem enter_take (owned : Owned locks) {proc : Proc} (wf : proc.Wf)
    (has : (locks.procs pid).role name ≠ none)
    (roles : proc.role = setRole (locks.procs pid).role name (some .held))
    (held : proc.held = name :: (locks.procs pid).held)
    (noMacs : name = .gate → listMacs locks.shared = [])
    (noGate : ∀ addr, name = .mac addr → locks.shared.lookup .gate = none) :
    Owned (locks.enter pid (locks.shared, proc)) := by
  have heldAfter : ∀ other lock,
      lock ∈ ((locks.enter pid (locks.shared, proc)).procs other).held →
      lock = name ∨ lock ∈ (locks.procs other).held := by
    intro other lock member
    rw [World.procs_enter] at member
    split at member
    · rename_i same
      rw [held] at member
      rw [same]
      exact List.mem_cons.mp member
    · exact .inr member
  have absent : ∀ other lock, locks.shared.lookup lock = none →
      lock ∉ (locks.procs other).held := by
    intro other lock none member
    have maker := owned.held_maker member
    rw [makerOf_eq_none.mpr none] at maker
    cases maker
  constructor
  case wf =>
    intro other
    rw [World.procs_enter]
    split
    · exact wf
    · exact owned.wf other
  case maker =>
    intro other lock role
    rw [World.procs_enter] at role
    split at role
    · rename_i same
      rw [roles] at role
      rw [same]
      apply owned.maker pid lock
      by_cases own : lock = name
      · rw [own]
        exact has
      · rwa [setRole, if_neg own] at role
    · exact owned.maker other lock role
  case apart =>
    intro left right addr first second
    rcases heldAfter left .gate first with isGate | gateBefore
    · rcases heldAfter right (.mac addr) second with isMac | macBefore
      · rw [← isGate] at isMac
        cases isMac
      · exact absent right _ (lookup_of_listMacs (noMacs isGate.symm) addr)
          macBefore
    · rcases heldAfter right (.mac addr) second with isMac | macBefore
      · exact absent left _ (noGate addr isMac.symm) gateBefore
      · exact owned.apart left right addr gateBefore macBefore

theorem act (owned : Owned locks) (pid : Nat)
    (nothing : ReclaimsNothing locks (.act pid)) :
    Owned (locks.enter pid (LockSteps.act pid locks.env locks.shared
      (locks.procs pid))) := by
  have wf : (LockSteps.act pid locks.env locks.shared
      (locks.procs pid)).2.Wf := by
    apply act_wf pid locks.env locks.shared (owned.wf pid)
    intro name member absent
    have maker := owned.held_maker member
    rw [makerOf_eq_none.mpr absent] at maker
    cases maker
  have effect := act_effect pid locks.env locks.shared (owned.wf pid)
  generalize result : LockSteps.act pid locks.env locks.shared
    (locks.procs pid) = next at wf effect
  have keepsOwn : ∀ name, (locks.procs pid).role name ≠ none →
      makerOf locks.shared name = some pid := owned.maker pid
  cases effect with
  | look roles held _ =>
      refine owned.enter wf (fun _ _ _ maker => maker) ?_ (by rw [held]; simp)
      intro name has
      rw [roles] at has
      exact keepsOwn name has
  | take name marked roles held _ noMacs noGate =>
      exact owned.enter_take wf (by rw [marked]; simp) roles held noMacs noGate
  | make name _ free roles held _ =>
      refine owned.enter wf ?_ ?_ (by rw [held]; simp)
      · intro other maker _ made
        have different : other ≠ name := by
          rintro rfl
          rw [makerOf_eq_none.mpr free] at made
          cases made
        rw [makerOf, lookup_makeDir, if_neg different]
        exact made
      · intro other has
        rw [roles] at has
        rw [makerOf, lookup_makeDir]
        by_cases same : other = name
        · rw [if_pos same]
          rfl
        · rw [if_neg same]
          rw [setRole, if_neg same] at has
          exact keepsOwn other has
  | mark name made _ marking roles held _ =>
      refine owned.enter wf ?_ ?_ (by rw [held]; simp)
      · intro other maker _ known
        rwa [makerOf_writePid]
      · intro other has
        rw [makerOf_writePid]
        rw [roles] at has
        by_cases same : other = name
        · rw [same]
          exact keepsOwn name (by rw [marking]; simp)
        · rw [setRole, if_neg same] at has
          exact keepsOwn other has
  | unmark name marked roles held _ =>
      refine owned.enter wf ?_ ?_ (by rw [held]; simp)
      · intro other maker _ known
        rwa [makerOf_removePid]
      · intro other has
        rw [makerOf_removePid]
        rw [roles] at has
        by_cases same : other = name
        · rw [same]
          apply keepsOwn name
          rcases marked with marked | marked
          all_goals
            rw [marked]
            simp
        · rw [setRole, if_neg same] at has
          exact keepsOwn other has
  | release name releasing roles held _ =>
      have ownDir := keepsOwn name (by rw [releasing]; simp)
      refine owned.enter wf ?_ ?_ (by rw [held]; exact List.erase_subset)
      · intro other maker different known
        have elsewhere : other ≠ name := by
          rintro rfl
          rw [ownDir] at known
          exact different (Option.some.inj known).symm
        rw [makerOf, lookup_removeDir_other elsewhere]
        exact known
      · intro other has
        rw [roles] at has
        by_cases same : other = name
        · rw [setRole, if_pos same] at has
          exact absurd rfl has
        · rw [setRole, if_neg same] at has
          rw [makerOf, lookup_removeDir_other same]
          exact keepsOwn other has
  | reclaim name caller stage isReclaim roles held _ =>
      have unchanged : ∀ other, makerOf
          (reclaimStep locks.env locks.shared name caller stage).1 other =
          makerOf locks.shared other := by
        intro other
        have same := nothing (by rw [isReclaim]; simp [Pc.reclaiming]) other
        rw [result] at same
        rw [makerOf, same]
        rfl
      refine owned.enter wf ?_ ?_ (by rw [held]; simp)
      · intro other maker _ known
        rwa [unchanged]
      · intro other has
        rw [unchanged]
        rw [roles] at has
        exact keepsOwn other has

theorem step (owned : Owned locks) {event : Event Command}
    (nothing : ReclaimsNothing locks event)
    (unlocks : UnlocksOwn locks event) :
    Owned (locks.step program event) := by
  refine World.step_induction owned ?_ ?_ ?_ ?_
  · rintro pid rfl _
    exact owned.act pid nothing
  · rintro pid command rfl _
    obtain ⟨wf, roles, held, _⟩ := call_keeps (owned.wf pid) unlocks
    refine owned.enter wf (fun _ _ _ maker => maker) ?_ ?_
    · intro name has
      exact owned.maker pid name (by rwa [← roles])
    · intro name member
      exact held ▸ member
  · rintro pid rfl
    exact ⟨owned.wf, owned.maker, owned.apart⟩
  · rintro rfl
    exact ⟨owned.wf, owned.maker, owned.apart⟩

end Owned

/-- Whatever the order of the steps: as long as nothing is reclaimed and only
holders unlock, the holders exclude each other in every state. -/
theorem gate_and_macs_exclude (now : Nat) (holderPid : Nat → Option Nat)
    (events : List (Event Command))
    (run : Runs.Guarded (World.step program)
      (fun locks event => ReclaimsNothing locks event ∧ UnlocksOwn locks event)
      (start now holderPid) events) :
    ∀ locks ∈ Runs.visited (World.step program) (start now holderPid) events,
      Exclusive locks := by
  intro locks visited
  have owned := run.induction Owned
    (fun locks event owned conditions =>
      owned.step conditions.1 conditions.2)
    (Owned.start now holderPid) locks visited
  exact owned.exclusive

/-- The two conditions of the run, in a form that can be evaluated. -/
def checkedStep (locks : Locks) : Event Command → Bool
  | .act pid =>
      (locks.procs pid).pc.reclaiming = none ∨
        (act pid locks.env locks.shared (locks.procs pid)).1.entries =
          locks.shared.entries
  | .call pid command =>
      command.unlocks.all fun name => name ∈ (locks.procs pid).held
  | _ => true

theorem conditions_of_checkedStep (locks : Locks) (event : Event Command)
    (checked : checkedStep locks event = true) :
    ReclaimsNothing locks event ∧ UnlocksOwn locks event := by
  cases event with
  | act pid =>
      refine ⟨?_, trivial⟩
      intro reclaiming name
      simp only [checkedStep, decide_eq_true_eq] at checked
      rcases checked with none | same
      · exact absurd none reclaiming
      · rw [AList.ext same]
  | call pid command =>
      refine ⟨trivial, ?_⟩
      intro name unlocks
      simpa [checkedStep, unlocks] using checked
  | exit pid => exact ⟨trivial, trivial⟩
  | tick => exact ⟨trivial, trivial⟩

/-- A process waits with the gate until another one has given back the lock of
an address. -/
def waitingGate : List (Event Command) :=
  [.call 1 (.macLock "AA:bb:cc:dd:ee:01".toList),
    .act 1, .act 1, .act 1, .act 1,
    .call 2 .gateLock,
    .act 2, .act 2, .act 2, .act 2, .act 2, .act 2, .act 2, .act 2,
    .call 1 (.macUnlock "aa:bb:cc:dd:ee:01".toList),
    .act 1, .act 1, .act 2]

theorem waitingGate_excludes :
    Name.gate ∈ ((waitingGate.foldl (World.step program)
      (start 0 fun _ => none)).procs 2).held ∧
    ∀ locks ∈ Runs.visited (World.step program) (start 0 fun _ => none)
      waitingGate, Exclusive locks := by
  have checked : Runs.Guarded (World.step program)
      (fun locks event => checkedStep locks event = true)
      (start 0 fun _ => none) waitingGate := by
    decide +kernel
  exact ⟨by decide +kernel, gate_and_macs_exclude 0 _ waitingGate
    (checked.imp conditions_of_checkedStep)⟩

end Hnc.LockSteps
