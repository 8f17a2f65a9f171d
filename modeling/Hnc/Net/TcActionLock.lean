import Hnc.Lib.LockDirs

/-!
# The lock of the writers in `bin/tc_manager.sh`

Every command that writes reads the clock, makes the lock directory, writes an
owner record with the second it has read, works, and removes the directory.  A
command that finds the directory removes it when the record is twenty-five
seconds back and tries once more; otherwise it ends.  An access to the file
system is one step, and so is `rm -rf`.
-/

namespace Hnc.TcActionLock

open Interleaving

/-- The commands that write. -/
inductive Command where
  | init
  | cleanup
  | restore
  | ensureIngress
  | setLimit
  | setDelay
  | setAll
  | remove
deriving DecidableEq

/-- The file `owner`: process, command and second. -/
structure Owner where
  pid : Nat
  requester : Command
  now : Nat
deriving DecidableEq

/-- The lock directory: the process that made it and its `owner`. -/
structure Dir where
  maker : Nat
  owner : Option Owner
deriving DecidableEq

/-- The next access of a process.  `now` is the second it has read; a process is
`critical` from the return of `tc_action_lock` until `tc_action_unlock`, which
`init`, `cleanup` and `restore` also call when they do not get the gate. -/
inductive Pc where
  | begin
  | date (requester : Command)
  | make (requester : Command) (now : Nat)
  | readOwner (requester : Command) (now : Nat)
  | removeOld (requester : Command) (now : Nat)
  | remake (requester : Command) (now : Nat)
  | writeOwner (requester : Command) (now : Nat)
  | critical (now since : Nat)
  | ended
deriving DecidableEq

/-- `TC_ACTION_STALE_SEC`. -/
def staleSeconds : Nat := 25

/-- The next access of a process. -/
def act (pid : Nat) (env : Env) (lock : Option Dir) : Pc → Option Dir × Pc
  | .begin => (lock, .begin)
  | .date requester => (lock, .make requester env.now)
  | .make requester now =>
      if lock.isNone then (some ⟨pid, none⟩, .writeOwner requester now)
      else (lock, .readOwner requester now)
  | .readOwner requester now =>
      -- Without a record the age is counted from the epoch.  The second read
      -- of the record goes into the log only.
      let old := ((lock.bind Dir.owner).map Owner.now).getD 0
      if staleSeconds ≤ now - old then (lock, .removeOld requester now)
      else (lock, .ended)
  | .removeOld requester now => (none, .remake requester now)
  | .remake requester now =>
      if lock.isNone then (some ⟨pid, none⟩, .writeOwner requester now)
      else (lock, .ended)
  | .writeOwner requester now =>
      (lock.map fun dir => { dir with owner := some ⟨pid, requester, now⟩ },
        .critical now env.now)
  | .critical _ _ => (none, .ended)
  | .ended => (lock, .ended)

/-- A process runs one command. -/
def call (command : Command) : Pc → Pc
  | .begin => .date command
  | pc => pc

def program : Program (Option Dir) Pc Command :=
  ⟨act, call⟩

abbrev Lock := World (Option Dir) Pc

def start (now : Nat) : Lock :=
  World.start now none fun _ => .begin

/-- At most one live process is between its `tc_action_lock` and its
`tc_action_unlock`. -/
def Exclusive (lock : Lock) : Prop :=
  ∀ left right leftNow rightNow leftSince rightSince,
    lock.alive left = true → lock.alive right = true →
    lock.procs left = .critical leftNow leftSince →
    lock.procs right = .critical rightNow rightSince → left = right

/-- Every critical section lasts less than twenty-five seconds. -/
def Brief (lock : Lock) : Event Command → Prop
  | .tick => ∀ pid now since, lock.alive pid = true →
      lock.procs pid = .critical now since →
      lock.env.now + 1 < since + staleSeconds
  | _ => True

/-! ### When it is exclusive -/

/-- The process makes the directory if it is not there. -/
def Pc.makes : Pc → Bool
  | make _ _ | remake _ _ => true
  | _ => false

/-- The process removes a directory for the record it has read. -/
def Pc.removes : Pc → Bool
  | removeOld _ _ => true
  | _ => false

/-- The process has made the directory and has not written the record. -/
def Pc.marking : Pc → Bool
  | writeOwner _ _ => true
  | _ => false

/-- No process makes the directory while another one is about to remove it, none
reads the record before it is written, and no record is old when it is
written. -/
structure LooksApart (lock : Lock) (pid : Nat) : Prop where
  makes : (lock.procs pid).makes = true → lock.shared = none →
    ∀ other, lock.alive other = true → (lock.procs other).removes = false
  reads : ∀ requester now, lock.procs pid = .readOwner requester now →
    ∀ other, lock.alive other = true → (lock.procs other).marking = false
  fresh : ∀ requester now, lock.procs pid = .writeOwner requester now →
    lock.env.now < now + staleSeconds

/-- The processes look apart from each other, and the record of a live process
in its critical section does not get twenty-five seconds old. -/
def ActsApart (lock : Lock) : Event Command → Prop
  | .act pid => LooksApart lock pid
  | .tick => ∀ pid now since, lock.alive pid = true →
      lock.procs pid = .critical now since →
      lock.env.now + 1 < now + staleSeconds
  | _ => True

/-- What a process has of the lock, with the second in the record. -/
inductive Role where
  | made
  | held (now : Nat)
deriving DecidableEq

def Pc.role : Pc → Option Role
  | writeOwner _ _ => some .made
  | critical now _ => some (.held now)
  | _ => none

/-- Reclaiming: reading the record, or removing the directory for it. -/
inductive Stage where
  | read
  | remove
deriving DecidableEq

def protocol : LockDirs.Protocol (Option Dir) Pc Unit Dir Role Stage where
  lookup lock _ := lock
  maker := Dir.maker
  role pc _ := pc.role
  reclaiming
    | .readOwner _ _ => some ((), .read)
    | .removeOld _ _ => some ((), .remove)
    | _ => none
  Shows now _ role dir :=
    match role with
    | .made => True
    | .held recorded =>
        dir.owner.map Owner.now = some recorded ∧
          now < recorded + staleSeconds
  Allows _ _ _ stage := stage = .read

/-- The second a process has read. -/
def Pc.clock : Pc → Option Nat
  | make _ now | readOwner _ now => some now
  | _ => none

structure Tracked (lock : Lock) : Prop
    extends LockDirs.Tracked protocol lock where
  clocks : ∀ pid now, (lock.procs pid).clock = some now → now ≤ lock.env.now

namespace Tracked

variable {lock : Lock}

theorem start (now : Nat) : Tracked (start now) where
  dirs _ _ _ := by
    intro made
    cases made
  stages _ _ _ _ reclaiming := by cases reclaiming
  clocks _ _ read := by cases read

section

variable (tracked : Tracked lock)
include tracked

variable {pid : Nat} {pc : Pc}

/-- A process has read no second that is yet to come. -/
theorem clocks_enter {after : Option Dir}
    (read : ∀ now, pc.clock = some now → now ≤ lock.env.now) (other now : Nat)
    (has : ((lock.enter pid (after, pc)).procs other).clock = some now) :
    now ≤ lock.env.now := by
  rw [World.procs_enter] at has
  split at has
  · exact read now has
  · exact tracked.clocks other now has

/-- A step after which the directory is as before. -/
theorem enter_pc (roles : pc.role = (lock.procs pid).role)
    (read : ∀ now, pc.clock = some now → now ≤ lock.env.now)
    (own : pc.removes = true → ∀ maker, lock.alive maker = true → protocol.makerOf lock.shared () ≠ some maker) :
    Tracked (lock.enter pid (lock.shared, pc)) := by
  refine ⟨tracked.enter_look (fun _ => roles) ?_, tracked.clocks_enter read⟩
  intro _ stage reclaiming maker alive made
  cases pc with
  | readOwner _ _ =>
      cases reclaiming
      rfl
  | removeOld _ _ => exact absurd made (own rfl maker alive)
  | _ => cases reclaiming

/-- A step of a process that has its own directory afterwards. -/
theorem enter_marks {after : Option Dir} {role : Role}
    (live : lock.alive pid = true) (notReclaiming : protocol.reclaiming pc = none)
    (read : pc.clock = none) (has : pc.role = some role)
    (before : ∀ other, protocol.makerOf lock.shared () = some other → other = pid)
    (dirFor : protocol.DirFor lock.env.now after pid () (some role))
    (notRemoving : ∀ other, lock.alive other = true → (lock.procs other).removes = false) :
    Tracked (lock.enter pid (after, pc)) := by
  refine ⟨LockDirs.Tracked.enter_own tracked.toTracked live notReclaiming has
    before dirFor ?_, tracked.clocks_enter ?_⟩
  · intro other stage alive reclaiming
    have quiet := notRemoving other alive
    cases otherPc : lock.procs other with
    | readOwner _ _ =>
        rw [otherPc] at reclaiming
        cases reclaiming
        rfl
    | removeOld _ _ =>
        rw [otherPc] at quiet
        cases quiet
    | _ =>
        rw [otherPc] at reclaiming
        cases reclaiming
  · intro now has
    rw [read] at has
    cases has

theorem not_removing {role : Role} (live : lock.alive pid = true)
    (has : (lock.procs pid).role = some role) {other : Nat}
    (alive : lock.alive other = true) : (lock.procs other).removes = false := by
  have isRole : protocol.role (lock.procs pid) () = some role := has
  have made := tracked.makerOf_eq live isRole
  cases otherPc : lock.procs other with
  | removeOld _ _ =>
      have reclaiming :
          protocol.reclaiming (lock.procs other) = some ((), .remove) := by
        rw [otherPc]
        rfl
      have allows := tracked.stages other () .remove alive reclaiming pid live
        made
      cases allows
  | _ => rfl

/-- The first and the second `mkdir`, on a name that is free. -/
theorem make {now : Nat} {requester : Command} (live : lock.alive pid = true)
    (apart : LooksApart lock pid) (isMake : (lock.procs pid).makes = true)
    (free : lock.shared = none) :
    Tracked (lock.enter pid
      (some ⟨pid, none⟩, .writeOwner requester now)) := by
  refine tracked.enter_marks live rfl rfl rfl ?_ ⟨_, rfl, rfl, trivial⟩
    (apart.makes isMake free)
  intro other made
  rw [free] at made
  cases made

/-- No live process loses its directory for the record that is read. -/
theorem read {now : Nat} {requester : Command}
    (pc : lock.procs pid = .readOwner requester now) (apart : LooksApart lock pid)
    (old : staleSeconds ≤ now - ((lock.shared.bind Dir.owner).map Owner.now).getD 0)
    (maker : Nat) (alive : lock.alive maker = true) :
    protocol.makerOf lock.shared () ≠ some maker := by
  intro made
  obtain ⟨role, dir, has, found, shows⟩ := tracked.role_of_maker alive made
  have isRole : (lock.procs maker).role = some role := has
  have inside : lock.shared = some dir := found
  have notMarking := apart.reads requester now pc maker alive
  have notAhead := tracked.clocks pid now (by rw [pc]; rfl)
  cases role with
  | made =>
      cases makerPc : lock.procs maker with
      | writeOwner _ _ =>
          rw [makerPc] at notMarking
          cases notMarking
      | _ =>
          rw [makerPc] at isRole
          cases isRole
  | held recorded =>
      obtain ⟨record, young⟩ := shows
      rw [inside, Option.bind_some, record, Option.getD_some] at old
      simp only [staleSeconds] at old young
      omega

theorem act (live : lock.alive pid = true) (apart : LooksApart lock pid) :
    Tracked (lock.enter pid
      (TcActionLock.act pid lock.env lock.shared (lock.procs pid))) := by
  cases pc : lock.procs pid with
  | begin | ended =>
      refine tracked.enter_pc (by rw [pc]) ?_ ?_
      · intro now read
        cases read
      · intro removes
        cases removes
  | date requester =>
      refine tracked.enter_pc (by rw [pc]; rfl) ?_ ?_
      · rintro now ⟨⟩
        exact Nat.le_refl _
      · intro removes
        cases removes
  | make requester now =>
      by_cases free : lock.shared.isNone = true
      · rw [TcActionLock.act, if_pos free]
        rw [Option.isNone_iff_eq_none] at free
        exact tracked.make live apart (by rw [pc]; rfl) free
      · rw [TcActionLock.act, if_neg free]
        refine tracked.enter_pc (by rw [pc]; rfl) ?_ ?_
        · rintro second ⟨⟩
          exact tracked.clocks pid now (by rw [pc]; rfl)
        · intro removes
          cases removes
  | readOwner requester now =>
      by_cases old : staleSeconds ≤
          now - ((lock.shared.bind Dir.owner).map Owner.now).getD 0
      · simp only [TcActionLock.act, if_pos old]
        refine tracked.enter_pc (by rw [pc]; rfl) ?_ ?_
        · intro second read
          cases read
        · exact fun _ => tracked.read pc apart old
      · simp only [TcActionLock.act, if_neg old]
        refine tracked.enter_pc (by rw [pc]; rfl) ?_ ?_
        · intro second read
          cases read
        · intro removes
          cases removes
  | removeOld requester now =>
      have reclaiming :
          protocol.reclaiming (lock.procs pid) = some ((), .remove) := by
        rw [pc]
        rfl
      refine ⟨LockDirs.Tracked.enter_remove tracked.toTracked ?_ ?_ rfl,
        tracked.clocks_enter ?_⟩
      · rw [pc]
        rfl
      · intro maker alive made
        have allows := tracked.stages pid () .remove live reclaiming maker
          alive made
        cases allows
      · intro second read
        cases read
  | remake requester now =>
      by_cases free : lock.shared.isNone = true
      · rw [TcActionLock.act, if_pos free]
        rw [Option.isNone_iff_eq_none] at free
        exact tracked.make live apart (by rw [pc]; rfl) free
      · rw [TcActionLock.act, if_neg free]
        refine tracked.enter_pc (by rw [pc]; rfl) ?_ ?_
        · intro second read
          cases read
        · intro removes
          cases removes
  | writeOwner requester now =>
      have has : protocol.role (lock.procs pid) () = some .made := by
        rw [pc]
        rfl
      obtain ⟨dir, found, maker, _⟩ := tracked.dir_of_role live has
      have inside : lock.shared = some dir := found
      simp only [inside]
      exact tracked.enter_marks live rfl rfl rfl
        (tracked.maker_eq_of_role live has)
        ⟨_, rfl, maker, rfl, apart.fresh requester now pc⟩
        fun _ => tracked.not_removing live has
  | critical now since =>
      have has : (lock.procs pid).role = some (.held now) := by
        rw [pc]
        rfl
      refine ⟨tracked.enter_release live rfl has rfl rfl, tracked.clocks_enter ?_⟩
      intro now read
      cases read

theorem call {command : Command} (live : lock.alive pid = true) :
    Tracked (lock.enter pid
      (lock.shared, TcActionLock.call command (lock.procs pid))) := by
  by_cases fresh : lock.procs pid = .begin
  · rw [fresh]
    refine tracked.enter_pc (by rw [fresh]; rfl) ?_ ?_
    · intro now read
      cases read
    · intro removes
      cases removes
  · have same : TcActionLock.call command (lock.procs pid) =
        lock.procs pid := by
      unfold TcActionLock.call
      split
      · rename_i isBegin
        exact absurd isBegin fresh
      · rfl
    rw [same]
    refine tracked.enter_pc rfl (tracked.clocks pid) ?_
    intro removes maker alive made
    cases pc : lock.procs pid with
    | removeOld _ _ =>
        have reclaiming :
            protocol.reclaiming (lock.procs pid) = some ((), .remove) := by
          rw [pc]
          rfl
        have allows := tracked.stages pid () .remove live reclaiming maker
          alive made
        cases allows
    | _ =>
        rw [pc] at removes
        cases removes

theorem step {event : Event Command} (apart : ActsApart lock event) :
    Tracked (lock.step program event) := by
  refine World.step_induction tracked ?_ ?_ ?_ ?_
  · rintro pid rfl live
    exact tracked.act live apart
  · rintro pid command rfl live
    exact tracked.call live
  · rintro pid rfl
    exact ⟨LockDirs.Tracked.exit tracked.toTracked pid, tracked.clocks⟩
  · rintro rfl
    refine ⟨LockDirs.Tracked.tick tracked.toTracked ?_
      (fun _ _ _ allows => allows), ?_⟩
    · intro pid name role dir live has shows
      have isRole : (lock.procs pid).role = some role := has
      cases role with
      | made => trivial
      | held recorded =>
          refine ⟨shows.1, ?_⟩
          cases pc : lock.procs pid with
          | critical now since =>
              have young := apart pid now since live pc
              rw [pc] at isRole
              cases isRole
              exact young
          | _ =>
              rw [pc] at isRole
              cases isRole
    · intro pid now read
      exact Nat.le_succ_of_le (tracked.clocks pid now read)

theorem exclusive : Exclusive lock := by
  intro left right leftNow rightNow _ _ leftLive rightLive leftPc rightPc
  have leftHas : protocol.role (lock.procs left) () =
      some (.held leftNow) := by
    rw [leftPc]
    rfl
  have rightHas : protocol.role (lock.procs right) () =
      some (.held rightNow) := by
    rw [rightPc]
    rfl
  exact tracked.unique leftLive rightLive leftHas rightHas

end

end Tracked

/-- In every run: if no process makes the directory while another one is about
to remove it, none reads a record before it is written, and no record of a live
process gets twenty-five seconds old, at most one writer runs in every state. -/
theorem run_one_writer (now : Nat) (events : List (Event Command))
    (apart : Runs.Guarded (World.step program) ActsApart (start now) events) :
    ∀ lock ∈ Runs.visited (World.step program) (start now) events,
      Exclusive lock := by
  intro lock visited
  have tracked := apart.induction Tracked
    (fun lock event tracked conditions => tracked.step conditions)
    (Tracked.start now) lock visited
  exact tracked.exclusive

/-- The condition on a run of the processes below `bound`, in a form that can be
evaluated. -/
def checkedStep (bound : Nat) (lock : Lock) : Event Command → Bool
  | .act pid =>
      match lock.procs pid with
      | .make _ _ | .remake _ _ =>
          lock.shared.isSome || (List.range bound).all fun other =>
            (lock.procs other).removes = false
      | .readOwner _ _ => (List.range bound).all fun other =>
          (lock.procs other).marking = false
      | .writeOwner _ now => lock.env.now < now + staleSeconds
      | _ => true
  | .tick => (List.range bound).all fun pid =>
      match lock.procs pid with
      | .critical now _ => lock.alive pid = true →
          lock.env.now + 1 < now + staleSeconds
      | _ => true
  | _ => true

theorem actsApart_of_checkedStep {bound : Nat} (lock : Lock)
    (event : Event Command)
    (untouched : World.Untouched (fun _ => Pc.begin) bound lock)
    (checked : checkedStep bound lock event = true) :
    ActsApart lock event := by
  cases event with
  | call _ _ | exit _ => trivial
  | tick =>
      refine untouched.forall (p := fun pid pc => ∀ now since,
        lock.alive pid = true → pc = .critical now since →
        lock.env.now + 1 < now + staleSeconds) (by simp) ?_
      intro pid inside now since live critical
      have here := List.all_eq_true.mp checked pid inside
      rw [critical] at here
      exact (of_decide_eq_true here) live
  | act pid =>
      constructor
      case makes =>
        intro isMake free other _
        refine untouched.forall (p := fun _ pc => pc.removes = false)
          (fun _ => rfl) ?_ other
        intro pid' inside
        have all : (List.range bound).all fun other =>
            decide ((lock.procs other).removes = false) := by
          cases pc : lock.procs pid with
          | make _ _ | remake _ _ =>
              simpa [checkedStep, pc, free] using checked
          | _ =>
              rw [pc] at isMake
              cases isMake
        exact of_decide_eq_true (List.all_eq_true.mp all pid' inside)
      case reads =>
        intro requester now read other _
        simp only [checkedStep, read] at checked
        refine untouched.forall (p := fun _ pc => pc.marking = false)
          (fun _ => rfl) ?_ other
        exact fun pid inside =>
          of_decide_eq_true (List.all_eq_true.mp checked pid inside)
      case fresh =>
        intro requester now write
        simpa [checkedStep, write] using checked

/-- A process ends without unlocking; after twenty-five seconds another one
reclaims its directory. -/
def reclaimedLater : List (Event Command) :=
  [.call 1 .restore, .act 1, .act 1, .act 1, .exit 1] ++
    List.replicate 25 .tick ++ [.call 2 .setLimit] ++
    List.replicate 6 (.act 2) ++ [.tick]

theorem reclaimedLater_one_writer :
    (reclaimedLater.foldl (World.step program) (start 100)).procs 2 =
      .critical 125 125 ∧
    ∀ lock ∈ Runs.visited (World.step program) (start 100) reclaimedLater,
      Exclusive lock := by
  have checked : Runs.Guarded (World.step program)
      (fun lock event => checkedStep 3 lock event = true) (start 100)
      reclaimedLater := by
    decide +kernel
  refine ⟨by decide +kernel, run_one_writer 100 reclaimedLater ?_⟩
  refine World.guarded_of_below actsApart_of_checkedStep ?_
    (fun _ _ => rfl) checked
  decide +kernel

/-- A process finds the directory before its maker has written the record, takes
it for one from the epoch and removes it. -/
def recordMissing : List (Event Command) :=
  [.call 1 .restore, .act 1, .act 1, .call 2 .setLimit] ++
    List.replicate 6 (.act 2) ++ [.act 1]

theorem recordMissing_two_writers :
    ¬ ∀ (now : Nat) (events : List (Event Command)),
      Runs.Guarded (World.step program) Brief (start now) events →
      ∀ lock ∈ Runs.visited (World.step program) (start now) events,
        Exclusive lock := by
  intro always
  have sameSecond : ∀ event ∈ recordMissing, event ≠ Event.tick := by
    decide +kernel
  have brief : Runs.Guarded (World.step program) Brief (start 100)
      recordMissing := by
    refine (Runs.guarded_of_steps (start 100) sameSecond).imp ?_
    intro lock event notTick
    cases event with
    | act _ | call _ _ | exit _ => trivial
    | tick => exact absurd rfl notTick
  have same := always 100 recordMissing brief _
    (Runs.mem_visited_final _ _) 1 2 100 100 100 100 (by decide +kernel)
    (by decide +kernel) (by decide +kernel) (by decide +kernel)
  cases same

end Hnc.TcActionLock
