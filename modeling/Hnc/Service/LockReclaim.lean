import Hnc.Lib.LockDirs
import Hnc.Service.LockExclusion

/-!
# Reclaiming stale locks

`_try_reclaim_stale` reads the `pid` of a lock directory, looks whether that
process is alive, and removes the directory, without noticing that the directory
may be another one by then.  When no directory is made or marked between the
read and the removal, only directories of dead processes are removed.
-/

namespace Hnc.LockSteps

open Posix
open KeyMap
open Interleaving

/-- Every process writes its `pid` within five seconds of its `mkdir`. -/
def InTime (locks : Locks) : Event Command → Prop
  | .tick => ∀ pid name made, locks.alive pid = true →
      (locks.procs pid).role name = some (.marking made) →
      locks.env.now + 1 ≤ made + 5
  | _ => True

/-- `_try_reclaim_stale` removes no directory whose maker is alive and has not
released it. -/
def SparesHolders (locks : Locks) : Event Command → Prop
  | .act pid => locks.alive pid = true → ∀ name,
      (locks.procs pid).pc.reclaiming = some (name, .removeDir) →
      ∀ dir, locks.shared.lookup name = some dir → dir.pid = none →
        locks.alive dir.maker = true →
        (locks.procs dir.maker).role name = none
  | _ => True

/-- A live process is in `_try_reclaim_stale` with a directory, behind its read
of the `pid`. -/
def Reclaimed (locks : Locks) (pid : Nat) (name : Name) : Prop :=
  locks.alive pid = true ∧ ∃ stage,
    (locks.procs pid).pc.reclaiming = some (name, stage) ∧ stage ≠ .read

/-- No directory is made or marked under a process that reclaims it, no `pid` is
read for reclaiming while its directory is being released, and every process
marks with its own `pid`. -/
structure ReclaimsApart (locks : Locks) (pid : Nat) : Prop where
  marks : ∀ name, (locks.procs pid).pc.marks locks.shared = some name →
    ∀ other, ¬Reclaimed locks other name
  reads : ∀ name, (locks.procs pid).pc.reclaiming = some (name, .read) →
    ∀ other, locks.alive other = true →
      (locks.procs other).role name ≠ some .releasing
  own : ∀ name made, (locks.procs pid).role name = some (.marking made) →
    (locks.procs pid).holderPid.getD pid = pid

def ActsApart (locks : Locks) : Event Command → Prop
  | .act pid => ReclaimsApart locks pid
  | _ => True

/-- What the directory of a process looks like in each role, and what
`_try_reclaim_stale` knows about a live maker. -/
def protocol : LockDirs.Protocol Dirs Proc Name Dir Role Stage where
  lookup dirs name := dirs.lookup name
  maker := Dir.maker
  role := Proc.role
  reclaiming proc := proc.pc.reclaiming
  Shows now pid role dir :=
    match role with
    | .marking made => dir.pid = none ∧ dir.mtime = made ∧ now ≤ made + 5
    | .marked | .held => dir.pid = some pid
    | .releasing => dir.pid = none
  Allows _ maker role stage :=
    match stage with
    | .read => True
    | .stat => ∃ made, role = some (.marking made)
    | .date mtime => role = some (.marking mtime)
    | .kill holder => holder = maker
    | .removePid | .removeDir => False

structure Tracked (locks : Locks) : Prop
    extends LockDirs.Tracked protocol locks where
  wf : ∀ pid, (locks.procs pid).Wf

namespace Tracked

variable {locks : Locks}

theorem start (now : Nat) (holderPid : Nat → Option Nat) :
    Tracked (start now holderPid) where
  wf _ := wf_without_own List.nodup_nil rfl rfl
  dirs _ name _ := by
    show makerOf ∅ name ≠ _
    simp [makerOf]
  stages _ _ _ _ reclaiming := by cases reclaiming

section

variable (tracked : Tracked locks)
include tracked

variable {pid : Nat} {proc : Proc}

theorem wf_enter {dirs : Dirs} (wf : proc.Wf) (other : Nat) :
    ((locks.enter pid (dirs, proc)).procs other).Wf := by
  rw [World.procs_enter]
  split
  · exact wf
  · exact tracked.wf other

/-- An access of `_try_reclaim_stale` that only reads. -/
theorem enter_read (name : Name) {caller : Caller} (wf : proc.Wf)
    (roles : proc.role = (locks.procs pid).role)
    (next : proc.pc = caller.resume ∨ ∃ stage, proc.pc = .reclaim name caller stage ∧ ∀ maker, locks.alive maker = true → makerOf locks.shared name = some maker → protocol.Allows locks.env.now maker ((locks.procs maker).role name) stage) :
    Tracked (locks.enter pid (locks.shared, proc)) := by
  refine ⟨tracked.enter_look (congrFun roles) ?_, tracked.wf_enter wf⟩
  intro lock after reclaiming maker alive made
  have still : proc.pc.reclaiming = some (lock, after) := reclaiming
  rcases next with resumed | ⟨stage, same, allows⟩
  · rw [resumed, reclaiming_resume] at still
    cases still
  · rw [same] at still
    cases still
    exact allows maker alive made

/-- The `pid` that is read belongs to the maker of the directory, or the maker
has not written it yet. -/
theorem allows_read {name : Name} {maker : Nat} (alive : locks.alive maker = true)
    (made : makerOf locks.shared name = some maker)
    (notReleasing : (locks.procs maker).role name ≠ some .releasing) :
    ((locks.shared.lookup name).bind Dir.pid = none ∧
        ∃ made, (locks.procs maker).role name = some (.marking made)) ∨
      (locks.shared.lookup name).bind Dir.pid = some maker := by
  obtain ⟨role, dir, has, found, shows⟩ := tracked.role_of_maker alive made
  have inside : locks.shared.lookup name = some dir := found
  rw [inside]
  cases role with
  | marking second => exact .inl ⟨shows.1, second, has⟩
  | marked | held => exact .inr shows
  | releasing => exact absurd has notReleasing

theorem reclaim {name : Name} {caller : Caller} {stage : Stage}
    (live : locks.alive pid = true) (wf : proc.Wf)
    (isReclaim : (locks.procs pid).pc = .reclaim name caller stage)
    (roles : proc.role = (locks.procs pid).role)
    (pc : proc.pc = (reclaimStep locks.env locks.shared name caller stage).2)
    (apart : ReclaimsApart locks pid) :
    Tracked (locks.enter pid
      ((reclaimStep locks.env locks.shared name caller stage).1, proc)) := by
  have reclaiming : (locks.procs pid).pc.reclaiming = some (name, stage) := by
    rw [isReclaim]
    rfl
  have known := tracked.stages pid name stage live reclaiming
  cases stage with
  | read =>
      have evidence : ∀ maker, locks.alive maker = true →
          makerOf locks.shared name = some maker →
          ((locks.shared.lookup name).bind Dir.pid = none ∧
              ∃ made, (locks.procs maker).role name = some (.marking made)) ∨
            (locks.shared.lookup name).bind Dir.pid = some maker :=
        fun maker alive made => tracked.allows_read alive made
          (apart.reads name reclaiming maker alive)
      simp only [reclaimStep] at pc ⊢
      split at pc
      · rename_i empty
        refine tracked.enter_read name wf roles (.inr ⟨_, pc, ?_⟩)
        intro maker alive made
        rcases evidence maker alive made with ⟨_, marking⟩ | marked
        · exact marking
        · rw [empty] at marked
          cases marked
      · rename_i holder content
        refine tracked.enter_read name wf roles (.inr ⟨_, pc, ?_⟩)
        intro maker alive made
        rcases evidence maker alive made with ⟨empty, _⟩ | marked
        · rw [content] at empty
          cases empty
        · rw [content] at marked
          exact Option.some.inj marked
  | stat =>
      refine tracked.enter_read name wf roles (.inr ⟨_, pc, ?_⟩)
      intro maker alive made
      obtain ⟨second, marking⟩ := known maker alive made
      obtain ⟨role, dir, has, found, shows⟩ := tracked.role_of_maker alive made
      have inside : locks.shared.lookup name = some dir := found
      rw [marking] at has
      cases has
      have mtime : dir.mtime = second := shows.2.1
      show (locks.procs maker).role name = _
      rw [inside, Option.map_some, mtime]
      exact marking
  | date mtime =>
      by_cases old : 0 < mtime ∧ 5 < locks.env.now - mtime
      · simp only [reclaimStep, if_pos old] at pc ⊢
        refine tracked.enter_read name wf roles (.inr ⟨_, pc, ?_⟩)
        intro maker alive made
        obtain ⟨role, dir, has, _, shows⟩ := tracked.role_of_maker alive made
        have marking : protocol.role (locks.procs maker) name =
            some (.marking mtime) := known maker alive made
        rw [marking] at has
        cases has
        have inTime : locks.env.now ≤ mtime + 5 := shows.2.2
        omega
      · simp only [reclaimStep, if_neg old] at pc ⊢
        exact tracked.enter_read name wf roles (.inl pc)
  | kill holder =>
      by_cases running : locks.env.alive holder = true
      · simp only [reclaimStep, if_pos running] at pc ⊢
        exact tracked.enter_read name wf roles (.inl pc)
      · simp only [reclaimStep, if_neg running] at pc ⊢
        refine tracked.enter_read name wf roles (.inr ⟨_, pc, ?_⟩)
        intro maker alive made
        have same : holder = maker := known maker alive made
        rw [same] at running
        exact running alive
  | removePid =>
      refine ⟨tracked.enter_reclaim (congrFun roles) known ?_ ?_ ?_,
        tracked.wf_enter wf⟩
      · intro other different
        exact (lookup_removePid ..).trans (if_neg different)
      · intro maker made
        have same := congrFun
          (makerOf_removePid locks.env.now name locks.shared) name
        exact same.symm.trans made
      · intro lock after still
        have same : proc.pc.reclaiming = some (lock, after) := still
        rw [pc] at same
        cases same
        rfl
  | removeDir =>
      refine ⟨tracked.enter_reclaim (congrFun roles) known ?_ ?_ ?_,
        tracked.wf_enter wf⟩
      · exact fun other different => lookup_removeDir_other different _
      · exact fun maker made => makerOf_of_removeDir made
      · intro lock after still
        have same : proc.pc.reclaiming = some (lock, after) := still
        have resumed : proc.pc = caller.resume := pc
        rw [resumed, reclaiming_resume] at same
        cases same

theorem act (live : locks.alive pid = true) (apart : ReclaimsApart locks pid) :
    Tracked (locks.enter pid (LockSteps.act pid locks.env locks.shared
      (locks.procs pid))) := by
  have own : ∀ {name role}, (locks.procs pid).role name = some role →
      makerOf locks.shared name = some pid :=
    fun has => tracked.makerOf_eq live has
  have wf : (LockSteps.act pid locks.env locks.shared
      (locks.procs pid)).2.Wf := by
    apply act_wf pid locks.env locks.shared (tracked.wf pid)
    intro name member absent
    obtain ⟨role, has⟩ :=
      Option.ne_none_iff_exists'.mp (Proc.role_of_mem member)
    have maker := own has
    rw [makerOf_eq_none.mpr absent] at maker
    cases maker
  have effect := act_effect pid locks.env locks.shared (tracked.wf pid)
  generalize LockSteps.act pid locks.env locks.shared
    (locks.procs pid) = next at wf effect
  have unique : ∀ {name}, makerOf locks.shared name = some pid →
      ∀ other, makerOf locks.shared name = some other → other = pid := by
    intro name ownDir other made
    rw [ownDir] at made
    exact (Option.some.inj made).symm
  -- Whoever has found no `pid` has seen the maker before it wrote it.
  have evidence : ∀ {name role new}, (locks.procs pid).role name = some role →
      (∀ made, role ≠ .marking made) → ∀ other stage,
      locks.alive other = true →
      (locks.procs other).pc.reclaiming = some (name, stage) →
      protocol.Allows locks.env.now pid new stage := by
    intro name role new has notMarking other stage alive reclaiming
    have allows := tracked.stages other name stage alive reclaiming pid live
      (own has)
    have same : protocol.role (locks.procs pid) name = some role := has
    rw [same] at allows
    cases stage with
    | read => trivial
    | stat =>
        obtain ⟨made, marking⟩ := allows
        exact absurd (Option.some.inj marking) (notMarking made)
    | date mtime =>
        exact absurd (Option.some.inj allows) (notMarking mtime)
    | kill holder => exact allows
    | removePid | removeDir => exact allows
  cases effect with
  | look roles held onlyRead =>
      refine ⟨tracked.enter_look (congrFun roles) ?_, tracked.wf_enter wf⟩
      intro name stage reclaiming
      rw [onlyRead name stage reclaiming]
      exact fun _ _ _ => trivial
  | take name marked roles held notReclaiming _ _ =>
      obtain ⟨dir, found, maker, shows⟩ := tracked.dir_of_role live marked
      refine ⟨tracked.enter live (congrFun roles) notReclaiming
        (fun _ _ => rfl) (unique (own marked)) (unique (own marked))
        ⟨dir, found, maker, shows⟩ ?_, tracked.wf_enter wf⟩
      intro other stage alive reclaiming _
      exact evidence marked (by simp) other stage alive reclaiming
  | make name marks free roles held notReclaiming =>
      have made : (makeDir pid locks.env.now name locks.shared).lookup name =
          some ⟨pid, none, locks.env.now⟩ :=
        (lookup_makeDir ..).trans (if_pos rfl)
      refine ⟨tracked.enter live (congrFun roles) notReclaiming ?_ ?_ ?_ ?_ ?_,
        tracked.wf_enter wf⟩
      · intro other different
        exact (lookup_makeDir ..).trans (if_neg different)
      · intro other known
        have absent : makerOf locks.shared name = none :=
          makerOf_eq_none.mpr free
        exact absurd (absent.symm.trans known) (by simp)
      · intro other known
        have maker : makerOf (makeDir pid locks.env.now name locks.shared)
            name = some pid := by
          rw [makerOf, made]
          rfl
        exact (Option.some.inj (maker.symm.trans known)).symm
      · exact ⟨_, made, rfl, rfl, rfl, Nat.le_add_right ..⟩
      · intro other stage alive reclaiming _
        by_cases reading : stage = .read
        · rw [reading]
          trivial
        · exact absurd ⟨alive, stage, reclaiming, reading⟩
            (apart.marks name marks other)
  | mark name second marks marking roles held notReclaiming =>
      obtain ⟨dir, found, maker, shows⟩ := tracked.dir_of_role live marking
      have inside : locks.shared.lookup name = some dir := found
      have makers := makerOf_writePid ((locks.procs pid).holderPid.getD pid)
        locks.env.now name locks.shared
      refine ⟨tracked.enter live (congrFun roles) notReclaiming ?_
        (unique (own marking)) ?_ ?_ ?_, tracked.wf_enter wf⟩
      · intro other different
        exact (lookup_writePid ..).trans (if_neg different)
      · intro other known
        exact unique (own marking) other
          ((congrFun makers name).symm.trans known)
      · have written : (writePid ((locks.procs pid).holderPid.getD pid)
            locks.env.now name locks.shared).lookup name =
            some { dir with
              pid := some ((locks.procs pid).holderPid.getD pid)
              mtime := if dir.pid = none then locks.env.now else dir.mtime } := by
          rw [lookup_writePid, if_pos rfl, inside, Option.map_some]
        exact ⟨_, written, maker, congrArg some (apart.own name second marking)⟩
      · intro other stage alive reclaiming _
        by_cases reading : stage = .read
        · rw [reading]
          trivial
        · exact absurd ⟨alive, stage, reclaiming, reading⟩
            (apart.marks name marks other)
  | unmark name marked roles held notReclaiming =>
      have some_role : ∃ role, (locks.procs pid).role name = some role ∧
          ∀ made, role ≠ .marking made := by
        rcases marked with same | same
        · exact ⟨_, same, by simp⟩
        · exact ⟨_, same, by simp⟩
      obtain ⟨role, has, notMarking⟩ := some_role
      obtain ⟨dir, found, maker, _⟩ := tracked.dir_of_role live has
      have inside : locks.shared.lookup name = some dir := found
      have makers := makerOf_removePid locks.env.now name locks.shared
      refine ⟨tracked.enter live (congrFun roles) notReclaiming ?_
        (unique (own has)) ?_ ?_ ?_, tracked.wf_enter wf⟩
      · intro other different
        exact (lookup_removePid ..).trans (if_neg different)
      · intro other known
        exact unique (own has) other ((congrFun makers name).symm.trans known)
      · have emptied : (removePid locks.env.now name locks.shared).lookup name =
            some { dir with
              pid := none
              mtime := if dir.pid = none then dir.mtime else locks.env.now } := by
          rw [lookup_removePid, if_pos rfl, inside, Option.map_some]
        exact ⟨_, emptied, maker, rfl⟩
      · intro other stage alive reclaiming _
        exact evidence has notMarking other stage alive reclaiming
  | release name releasing roles held notReclaiming =>
      obtain ⟨dir, found, _, shows⟩ := tracked.dir_of_role live releasing
      have inside : locks.shared.lookup name = some dir := found
      have unmarked : dir.pid = none := shows
      have gone : makerOf (removeDir name locks.shared) name = none := by
        rw [makerOf_eq_none]
        simp [removeDir, inside, unmarked]
      have noMaker : ∀ {other}, protocol.makerOf
          (removeDir name locks.shared) name ≠ some other := fun made =>
        absurd (gone.symm.trans made) (by simp)
      refine ⟨tracked.enter live (congrFun roles) notReclaiming
        (fun other different => lookup_removeDir_other different _)
        (unique (own releasing)) (fun other made => absurd made noMaker)
        noMaker (fun other stage _ _ made => absurd made noMaker),
        tracked.wf_enter wf⟩
  | reclaim name caller stage isReclaim roles held pc =>
      exact tracked.reclaim live wf isReclaim roles pc apart

theorem step {event : Event Command} (apart : ActsApart locks event)
    (unlocks : UnlocksOwn locks event) (inTime : InTime locks event) :
    Tracked (locks.step program event) := by
  refine World.step_induction tracked ?_ ?_ ?_ ?_
  · rintro pid rfl live
    exact tracked.act live apart
  · rintro pid command rfl live
    obtain ⟨wf, roles, _, pc⟩ := call_keeps (tracked.wf pid) unlocks
    refine ⟨tracked.enter_look (congrFun roles) ?_, tracked.wf_enter wf⟩
    intro name stage reclaiming
    have still : (call command (locks.procs pid)).pc.reclaiming =
        some (name, stage) := reclaiming
    rcases pc with none | same
    · rw [none] at still
      cases still
    · rw [same] at still
      exact tracked.stages pid name stage live still
  · rintro pid rfl
    exact ⟨tracked.exit pid, tracked.wf⟩
  · rintro rfl
    refine ⟨tracked.tick ?_ (fun _ _ _ allows => allows), tracked.wf⟩
    intro pid name role dir live has shows
    cases role with
    | marking made =>
        exact ⟨shows.1, shows.2.1, inTime pid name made live has⟩
    | marked | held | releasing => exact shows

/-- A directory about to be removed has no live maker. -/
theorem sparesHolders (event : Event Command) :
    SparesHolders locks event := by
  cases event with
  | act pid =>
      intro live name reclaiming dir found _ alive
      have made : makerOf locks.shared name = some dir.maker := by
        rw [makerOf, found]
        rfl
      exact (tracked.stages pid name .removeDir live reclaiming dir.maker alive
        made).elim
  | call _ _ | exit _ | tick => trivial

end

end Tracked

/-- In every run in which each process marks its directories in time and unlocks
only its own locks: if no directory is made, marked or released under a process
that reclaims it, no directory of a live process is reclaimed. -/
theorem reclaims_only_dead (now : Nat) (holderPid : Nat → Option Nat)
    (events : List (Event Command))
    (run : Runs.Guarded (World.step program)
      (fun locks event => UnlocksOwn locks event ∧ InTime locks event)
      (start now holderPid) events)
    (apart : Runs.Guarded (World.step program) ActsApart
      (start now holderPid) events) :
    Runs.Guarded (World.step program) SparesHolders (start now holderPid)
      events :=
  (apart.and run).of_invariant Tracked
    (fun _ _ tracked conditions =>
      tracked.step conditions.1 conditions.2.1 conditions.2.2)
    (fun _ event tracked => tracked.sparesHolders event)
    (Tracked.start now holderPid)

/-- The conditions on a run within one second, in a form that can be
evaluated. -/
def checkedUnlocks (locks : Locks) : Event Command → Bool
  | .call pid command =>
      command.unlocks.all fun name => name ∈ (locks.procs pid).held
  | .tick => false
  | _ => true

theorem conditions_of_checkedUnlocks (locks : Locks) (event : Event Command)
    (checked : checkedUnlocks locks event = true) :
    UnlocksOwn locks event ∧ InTime locks event := by
  cases event with
  | act pid => exact ⟨trivial, trivial⟩
  | exit pid => exact ⟨trivial, trivial⟩
  | tick => cases checked
  | call pid command =>
      refine ⟨?_, trivial⟩
      intro name unlocks
      simpa [checkedUnlocks, unlocks] using checked

def checkedApart (bound : Nat) (locks : Locks) : Event Command → Bool
  | .act pid =>
      let proc := locks.procs pid
      (match proc.pc.marks locks.shared with
        | none => true
        | some name => (List.range bound).all fun other =>
            match (locks.procs other).pc.reclaiming with
            | some (reclaimed, stage) =>
                decide (reclaimed ≠ name) || decide (stage = .read)
            | none => true) &&
      (match proc.pc.reclaiming with
        | some (name, .read) => (List.range bound).all fun other =>
            decide ((locks.procs other).role name ≠ some .releasing)
        | _ => true) &&
      decide (proc.holderPid.getD pid = pid)
  | _ => true

theorem actsApart_of_checkedApart {bound : Nat} (locks : Locks)
    (event : Event Command)
    (untouched : World.Untouched (fun _ => ⟨none, [], .idle⟩) bound locks)
    (checked : checkedApart bound locks event = true) :
    ActsApart locks event := by
  cases event with
  | call _ _ | exit _ | tick => trivial
  | act pid =>
      simp only [checkedApart, Bool.and_eq_true, decide_eq_true_eq] at checked
      obtain ⟨⟨marks, reads⟩, own⟩ := checked
      refine ⟨?_, ?_, fun _ _ _ => own⟩
      · rintro name marked other ⟨_, stage, reclaiming, past⟩
        rw [marked] at marks
        have inside : other < bound := by
          by_contra outside
          rw [untouched other (by omega)] at reclaiming
          cases reclaiming
        have here := List.all_eq_true.mp marks other (List.mem_range.mpr inside)
        rw [reclaiming] at here
        simp [past] at here
      · intro name reading other _ releasing
        rw [reading] at reads
        have inside : other < bound := by
          by_contra outside
          rw [untouched other (by omega)] at releasing
          cases releasing
        have here := List.all_eq_true.mp reads other (List.mem_range.mpr inside)
        simp [releasing] at here

/-- A process ends with the lock of an address; another one takes the gate and
reclaims that lock. -/
def gateAfterExit : List (Event Command) :=
  [.call 1 (.macLock "aa:bb:cc:dd:ee:01".toList),
    .act 1, .act 1, .act 1, .act 1, .exit 1,
    .call 2 .gateLock] ++ List.replicate 11 (.act 2)

theorem gateAfterExit_reclaims_dead :
    Name.gate ∈ ((gateAfterExit.foldl (World.step program)
      (start 0 fun _ => none)).procs 2).held ∧
    Runs.Guarded (World.step program) SparesHolders (start 0 fun _ => none)
      gateAfterExit := by
  have unlocks : Runs.Guarded (World.step program)
      (fun locks event => checkedUnlocks locks event = true)
      (start 0 fun _ => none) gateAfterExit := by
    decide +kernel
  have apart : Runs.Guarded (World.step program)
      (fun locks event => checkedApart 3 locks event = true)
      (start 0 fun _ => none) gateAfterExit := by
    decide +kernel
  refine ⟨by decide +kernel, reclaims_only_dead 0 _ gateAfterExit
    (unlocks.imp conditions_of_checkedUnlocks) ?_⟩
  refine World.guarded_of_below actsApart_of_checkedApart ?_
    (fun _ _ => rfl) apart
  decide +kernel

/-- A process that waits for the lock of an address has read the `pid` of its
holder.  The holder unlocks and ends, a third process takes the lock, and the
waiting process removes it. -/
def staleRead : List (Event Command) :=
  [.call 1 (.macLock "aa:bb:cc:dd:ee:01".toList),
    .act 1, .act 1, .act 1, .act 1,
    .call 2 (.macLock "aa:bb:cc:dd:ee:01".toList)] ++
  List.replicate 43 (.act 2) ++
  [.call 1 (.macUnlock "aa:bb:cc:dd:ee:01".toList), .act 1, .act 1, .exit 1,
    .call 3 (.macLock "aa:bb:cc:dd:ee:01".toList),
    .act 3, .act 3, .act 3, .act 3, .act 2, .act 2]

theorem staleRead_takes_lock_of_holder :
    ¬ ∀ (now : Nat) (holderPid : Nat → Option Nat)
        (events : List (Event Command)),
      Runs.Guarded (World.step program)
        (fun locks event => UnlocksOwn locks event ∧ InTime locks event)
        (start now holderPid) events →
      Runs.Guarded (World.step program) SparesHolders (start now holderPid)
        events := by
  intro always
  have unlocks : Runs.Guarded (World.step program)
      (fun locks event => checkedUnlocks locks event = true)
      (start 0 fun _ => none) (staleRead ++ [.act 2]) := by
    decide +kernel
  have spares := always 0 (fun _ => none) (staleRead ++ [.act 2])
    (unlocks.imp conditions_of_checkedUnlocks)
  have last := (Runs.guarded_append.mp spares).2.1
  have role := last (by decide +kernel)
    (.mac "aa:bb:cc:dd:ee:01".toList) (by decide +kernel) ⟨3, none, 0⟩
    (by decide +kernel) rfl (by decide +kernel)
  revert role
  decide +kernel

def Holds (locks : Locks) (pid : Nat) (lock : Name) : Prop :=
  locks.alive pid = true ∧ lock ∈ (locks.procs pid).held

/-- No live holder of the gate beside a live holder of an address. -/
def GateApart (locks : Locks) : Prop :=
  ∀ left right addr, Holds locks left .gate → ¬Holds locks right (.mac addr)

namespace Tracked

variable {locks : Locks}

theorem lookup_of_role (tracked : Tracked locks) {pid : Nat} {lock : Name}
    {role : Role} (live : locks.alive pid = true)
    (has : (locks.procs pid).role lock = some role) :
    locks.shared.lookup lock ≠ none := by
  intro absent
  have made := tracked.makerOf_eq live has
  have gone : makerOf locks.shared lock = none := makerOf_eq_none.mpr absent
  exact absurd (gone.symm.trans made) (by simp)

theorem lookup_of_holds (tracked : Tracked locks) {pid : Nat} {lock : Name}
    (holds : Holds locks pid lock) : locks.shared.lookup lock ≠ none := by
  obtain ⟨role, has⟩ := Option.ne_none_iff_exists'.mp (Proc.role_of_mem holds.2)
  exact tracked.lookup_of_role holds.1 has

/-- No two live processes hold one lock. -/
theorem once (tracked : Tracked locks) {left right : Nat} {lock : Name}
    (first : Holds locks left lock) (second : Holds locks right lock) :
    left = right := by
  obtain ⟨role, has⟩ := Option.ne_none_iff_exists'.mp (Proc.role_of_mem first.2)
  obtain ⟨_, also⟩ := Option.ne_none_iff_exists'.mp (Proc.role_of_mem second.2)
  exact tracked.unique first.1 second.1 has also

/-- What a process holds behind an access had a directory before it. -/
theorem gateApart_act (tracked : Tracked locks) (apart : GateApart locks)
    (pid : Nat) : GateApart (locks.enter pid (LockSteps.act pid locks.env
      locks.shared (locks.procs pid))) := by
  have effect := act_effect pid locks.env locks.shared (tracked.wf pid)
  generalize LockSteps.act pid locks.env locks.shared
    (locks.procs pid) = next at effect ⊢
  have before : ∀ {other lock}, Holds (locks.enter pid next) other lock →
      locks.shared.lookup lock ≠ none ∧ (Holds locks other lock ∨
        (lock = .gate → listMacs locks.shared = []) ∧
          ∀ addr, lock = .mac addr → locks.shared.lookup .gate = none) := by
    rintro other lock ⟨live, member⟩
    rw [World.alive_enter] at live
    rw [World.procs_enter] at member
    split at member
    · next same =>
        subst same
        rcases effect.held member with kept | ⟨marked, none⟩
        · exact ⟨tracked.lookup_of_holds ⟨live, kept⟩, .inl ⟨live, kept⟩⟩
        · exact ⟨tracked.lookup_of_role live marked, .inr none⟩
    · exact ⟨tracked.lookup_of_holds ⟨live, member⟩, .inl ⟨live, member⟩⟩
  intro left right addr first second
  obtain ⟨gateDir, gateBefore | ⟨noMacs, _⟩⟩ := before first
  · obtain ⟨_, macBefore | ⟨_, noGate⟩⟩ := before second
    · exact apart left right addr gateBefore macBefore
    · exact gateDir (noGate addr rfl)
  · exact (before second).1 (lookup_of_listMacs (noMacs rfl) addr)

theorem gateApart_step (tracked : Tracked locks) (apart : GateApart locks)
    {event : Event Command} (unlocks : UnlocksOwn locks event) :
    GateApart (locks.step program event) := by
  have fewer : ∀ {next : Locks}, (∀ pid lock, Holds next pid lock →
      Holds locks pid lock) → GateApart next :=
    fun old left right addr first second =>
      apart left right addr (old _ _ first) (old _ _ second)
  refine World.step_induction apart ?_ ?_ ?_ ?_
  · rintro pid rfl _
    exact tracked.gateApart_act apart pid
  · rintro pid command rfl _
    obtain ⟨_, _, held, _⟩ := call_keeps (tracked.wf pid) unlocks
    apply fewer
    rintro other lock ⟨live, member⟩
    refine ⟨live, ?_⟩
    rw [World.procs_enter] at member
    split at member
    · next same => exact same ▸ held ▸ member
    · exact member
  · rintro pid rfl
    apply fewer
    exact fun other lock holds => ⟨(World.alive_exit.mp holds.1).2, holds.2⟩
  · rintro rfl
    exact apart

end Tracked

end Hnc.LockSteps
