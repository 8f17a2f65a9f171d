import Hnc.Lib.LockDirs

/-!
# The lock of `bin/hnc_json`

Every command of `hnc_json` that writes takes one lock: it makes a directory,
writes its process id and the second into it, works, and removes the directory
in its `EXIT` trap.  A process that finds the directory reclaims it when the
recorded process has ended, when the recorded second is thirty seconds back, or
when after twenty rounds there is no `pid`.  An access of a process to the file
system is one step, and so is `rm -rf`.
-/

namespace Hnc.HncJsonLock

open Interleaving

/-- The lock directory: the process that made it, its `pid` and its `ts`. -/
structure Dir where
  maker : Nat
  pid : Option Nat
  ts : Option Nat
deriving DecidableEq

/-- The next access of the body of the loop in `acquire_lock`, from the first
one of `reclaim_stale_lock`. -/
inductive Stage where
  | test
  | read
  | kill (holder : Nat)
  | removeDead
  | date
  | readTs (now : Nat)
  | removeOld
  | testPid
  | removeUnmarked
deriving DecidableEq

/-- The next access of a process.  `i` counts the rounds of the loop; a process
is `critical` from the return of `acquire_lock` until its `EXIT` trap. -/
inductive Pc where
  | begin
  | make (i : Nat)
  | reclaim (i : Nat) (stage : Stage)
  | writePid
  | writeTs
  | critical (since : Nat)
  | ended
deriving DecidableEq

def staleSeconds : Nat := 30

/-- The round after which a directory without `pid` is removed. -/
def unmarkedRound : Nat := 20

def timeoutRound : Nat := 50

/-- The end of the body of the loop. -/
def again (i : Nat) : Pc :=
  if timeoutRound < i then .ended else .make i

/-- One access of the body of the loop in `acquire_lock`. -/
def reclaimStep (env : Env) (lock : Option Dir) (i : Nat) :
    Stage → Option Dir × Pc
  | .test =>
      if lock.isSome then (lock, .reclaim i .read)
      else (lock, .reclaim i .testPid)
  | .read =>
      match lock.bind Dir.pid with
      | none => (lock, .reclaim i .date)
      | some holder => (lock, .reclaim i (.kill holder))
  | .kill holder =>
      if env.alive holder then (lock, .reclaim i .date)
      else (lock, .reclaim i .removeDead)
  | .removeDead => (none, .reclaim i .testPid)
  | .date => (lock, .reclaim i (.readTs env.now))
  | .readTs now =>
      -- Without a `ts` the age is counted from the epoch.
      let ts := (lock.bind Dir.ts).getD 0
      if now ≠ 0 ∧ staleSeconds ≤ now - ts then
        (lock, .reclaim i .removeOld)
      else (lock, .reclaim i .testPid)
  | .removeOld => (none, .reclaim i .testPid)
  | .testPid =>
      if unmarkedRound < i ∧ lock.bind Dir.pid = none then
        (lock, .reclaim i .removeUnmarked)
      else (lock, again i)
  | .removeUnmarked => (none, again i)

/-- The next access of a process. -/
def act (pid : Nat) (env : Env) (lock : Option Dir) : Pc → Option Dir × Pc
  | .begin => (lock, .begin)
  | .make i =>
      if lock.isNone then (some ⟨pid, none, none⟩, .writePid)
      else (lock, .reclaim (i + 1) .test)
  | .reclaim i stage => reclaimStep env lock i stage
  | .writePid => (lock.map fun dir => { dir with pid := some pid }, .writeTs)
  | .writeTs =>
      (lock.map fun dir => { dir with ts := some env.now },
        .critical env.now)
  -- The `EXIT` trap.
  | .critical _ => (none, .ended)
  | .ended => (lock, .ended)

/-- A process calls `acquire_lock` once. -/
def call (_ : Unit) : Pc → Pc
  | .begin => .make 0
  | pc => pc

def program : Program (Option Dir) Pc Unit :=
  ⟨act, call⟩

abbrev Lock := World (Option Dir) Pc

def start (now : Nat) : Lock :=
  World.start now none fun _ => .begin

/-- No two live processes are between the return of `acquire_lock` and their
`EXIT` trap. -/
def Exclusive (lock : Lock) : Prop :=
  ∀ left right leftSince rightSince,
    lock.alive left = true → lock.alive right = true →
    lock.procs left = .critical leftSince →
    lock.procs right = .critical rightSince → left = right

/-- Every critical section is shorter than thirty seconds. -/
def Brief (lock : Lock) : Event Unit → Prop
  | .tick => ∀ pid since, lock.alive pid = true →
      lock.procs pid = .critical since →
      lock.env.now + 1 < since + staleSeconds
  | _ => True

/-! ### When it is exclusive -/

/-- What a process has of the lock: a directory without its `pid`, without its
`ts`, or the lock itself. -/
inductive Role where
  | made
  | marked
  | held (since : Nat)
deriving DecidableEq

def Pc.role : Pc → Option Role
  | writePid => some .made
  | writeTs => some .marked
  | critical since => some (.held since)
  | _ => none

/-- A process has made the directory and has not written all of its marks. -/
def Pc.marking : Pc → Bool
  | writePid | writeTs => true
  | _ => false

/-- A process has looked into the directory and may remove it. -/
def Pc.looked : Pc → Bool
  | reclaim _ .test | reclaim _ .read => false
  | reclaim i .testPid => unmarkedRound < i
  | reclaim _ _ => true
  | _ => false

/-- No process makes the directory while another one may remove it for what it
saw before, and none looks into it while its maker has not marked it. -/
structure LooksApart (lock : Lock) (pid : Nat) : Prop where
  makes : ∀ i, lock.procs pid = .make i → lock.shared = none →
    ∀ other, lock.alive other = true → (lock.procs other).looked = false
  reads : ∀ i, lock.procs pid = .reclaim i .read →
    ∀ other, lock.alive other = true → (lock.procs other).marking = false

def ActsApart (lock : Lock) : Event Unit → Prop
  | .act pid => LooksApart lock pid
  | _ => True

/-- The directory of a holder has its `pid` and its second; a process that has
looked has seen a live maker hold it. -/
def protocol : LockDirs.Protocol (Option Dir) Pc Unit Dir Role (Nat × Stage)
    where
  lookup lock _ := lock
  maker := Dir.maker
  role pc _ := pc.role
  reclaiming
    | .reclaim i stage => some ((), i, stage)
    | _ => none
  Shows now pid role dir :=
    match role with
    | .made => True
    | .marked => dir.pid = some pid
    | .held since =>
        dir.pid = some pid ∧ dir.ts = some since ∧ now < since + staleSeconds
  Allows _ maker role stage :=
    match stage with
    | (_, .test) | (_, .read) => True
    | (_, .kill holder) => holder = maker ∧ ∃ since, role = some (.held since)
    | (_, .date) => ∃ since, role = some (.held since)
    | (_, .readTs now) => ∃ since, role = some (.held since) ∧
        now < since + staleSeconds
    | (i, .testPid) => unmarkedRound < i → ∃ since, role = some (.held since)
    | (_, .removeDead) | (_, .removeOld) | (_, .removeUnmarked) => False

variable {maker i : Nat} {stage : Stage}

/-- A role for which nobody has looked yet. -/
theorem allows_of_not_looked {now : Nat} {role : Option Role}
    (notLooked : (Pc.reclaim i stage).looked = false) :
    protocol.Allows now maker role (i, stage) := by
  cases stage with
  | test | read => trivial
  | testPid =>
      intro late
      exact absurd notLooked (by simp [Pc.looked, late])
  | _ =>
      cases notLooked

/-- Nobody has looked at a directory whose maker does not hold the lock. -/
theorem not_looked_of_allows {now : Nat} {role : Option Role}
    (notHeld : ∀ since, role ≠ some (.held since))
    (allows : protocol.Allows now maker role (i, stage)) :
    (Pc.reclaim i stage).looked = false := by
  cases stage with
  | test | read => rfl
  | testPid =>
      by_contra looked
      have late : unmarkedRound < i := by simpa [Pc.looked] using looked
      obtain ⟨since, held⟩ := allows late
      exact notHeld since held
  | kill _ =>
      obtain ⟨_, since, held⟩ := allows
      exact absurd held (notHeld since)
  | date =>
      obtain ⟨since, held⟩ := allows
      exact absurd held (notHeld since)
  | readTs _ =>
      obtain ⟨since, held, _⟩ := allows
      exact absurd held (notHeld since)
  | removeDead | removeOld | removeUnmarked => exact allows.elim

variable {pc : Pc}

theorem marking_of_role {role : Role} (has : pc.role = some role)
    (notHeld : ∀ since, role ≠ .held since) : pc.marking = true := by
  cases pc with
  | writePid | writeTs => rfl
  | critical since => exact absurd (Option.some.inj has).symm (notHeld since)
  | _ => cases has

theorem not_marking_of_held {since : Nat} (held : pc.role = some (.held since)) :
    pc.marking = false := by
  cases pc with
  | writePid | writeTs => cases held
  | _ => rfl

theorem reclaiming_again (i : Nat) : protocol.reclaiming (again i) = none := by
  unfold again
  split <;> rfl

theorem role_again (i : Nat) : (again i).role = none := by
  unfold again
  split <;> rfl

theorem role_reclaimStep (env : Env) (lock : Option Dir) (i : Nat)
    (stage : Stage) : (reclaimStep env lock i stage).2.role = none := by
  cases stage with
  | test | read | kill _ | readTs _ =>
      simp only [reclaimStep]
      split <;> rfl
  | removeDead | date | removeOld => rfl
  | testPid =>
      simp only [reclaimStep]
      split
      · rfl
      · exact role_again i
  | removeUnmarked => exact role_again i

abbrev Tracked (lock : Lock) : Prop :=
  LockDirs.Tracked protocol lock

namespace Tracked

variable {lock : Lock}

theorem start (now : Nat) : Tracked (start now) where
  dirs _ _ _ := by
    intro made
    cases made
  stages _ _ _ _ reclaiming := by cases reclaiming

section

variable (tracked : Tracked lock)
include tracked

variable {pid : Nat}

/-- A step after which a process goes on in the loop, or leaves it, and the
directory is as before. -/
theorem enter_pc (roles : pc.role = (lock.procs pid).role)
    (own : ∀ i stage, pc = .reclaim i stage → ∀ maker, lock.alive maker = true → protocol.makerOf lock.shared () = some maker → protocol.Allows lock.env.now maker (lock.procs maker).role (i, stage)) :
    Tracked (lock.enter pid (lock.shared, pc)) := by
  refine tracked.enter_look (fun _ => roles) ?_
  intro _ stage reclaiming
  cases pc with
  | reclaim i stage' =>
      cases reclaiming
      exact own i stage' rfl
  | _ =>
      cases reclaiming

theorem held_of_maker (alive : lock.alive maker = true)
    (made : protocol.makerOf lock.shared () = some maker)
    (notMarking : (lock.procs maker).marking = false) :
    ∃ dir since, lock.shared = some dir ∧
      (lock.procs maker).role = some (.held since) ∧ dir.pid = some maker ∧
      dir.ts = some since ∧ lock.env.now < since + staleSeconds := by
  obtain ⟨role, dir, has, found, shows⟩ := tracked.role_of_maker alive made
  have isRole : (lock.procs maker).role = some role := has
  cases role with
  | made | marked =>
      exact absurd (marking_of_role isRole (by simp)) (by simp [notMarking])
  | held since => exact ⟨dir, since, found, has, shows⟩

theorem reclaim (live : lock.alive pid = true)
    (pc : lock.procs pid = .reclaim i stage) (apart : LooksApart lock pid) :
    Tracked (lock.enter pid (reclaimStep lock.env lock.shared i stage)) := by
  have reclaiming :
      protocol.reclaiming (lock.procs pid) = some ((), i, stage) := by
    rw [pc]
    rfl
  have known := tracked.stages pid () (i, stage) live reclaiming
  have roles : (reclaimStep lock.env lock.shared i stage).2.role =
      (lock.procs pid).role := by
    rw [role_reclaimStep, pc]
    rfl
  cases stage with
  | test =>
      by_cases present : lock.shared.isSome = true
      · simp only [reclaimStep, if_pos present] at roles ⊢
        refine tracked.enter_pc roles ?_
        rintro round stage' ⟨⟩ maker alive made
        trivial
      · simp only [reclaimStep, if_neg present] at roles ⊢
        refine tracked.enter_pc roles ?_
        intro round stage' _ maker _ made
        rw [Option.not_isSome_iff_eq_none] at present
        rw [present] at made
        cases made
  | read =>
      have evidence : ∀ maker, lock.alive maker = true →
          protocol.makerOf lock.shared () = some maker →
          lock.shared.bind Dir.pid = some maker ∧
            ∃ since, (lock.procs maker).role = some (.held since) := by
        intro maker alive made
        obtain ⟨dir, since, found, held, marked, _⟩ :=
          tracked.held_of_maker alive made (apart.reads i pc maker alive)
        rw [found]
        exact ⟨marked, since, held⟩
      cases content : lock.shared.bind Dir.pid with
      | none =>
          simp only [reclaimStep, content] at roles ⊢
          refine tracked.enter_pc roles ?_
          rintro round stage' ⟨⟩ maker alive made
          exact (evidence maker alive made).2
      | some holder =>
          simp only [reclaimStep, content] at roles ⊢
          refine tracked.enter_pc roles ?_
          rintro round stage' ⟨⟩ maker alive made
          obtain ⟨marked, held⟩ := evidence maker alive made
          rw [content] at marked
          exact ⟨Option.some.inj marked, held⟩
  | kill holder =>
      by_cases running : lock.env.alive holder = true
      · simp only [reclaimStep, if_pos running] at roles ⊢
        refine tracked.enter_pc roles ?_
        rintro round stage' ⟨⟩ maker alive made
        exact (known maker alive made).2
      · simp only [reclaimStep, if_neg running] at roles ⊢
        refine tracked.enter_pc roles ?_
        rintro round stage' ⟨⟩ maker alive made
        have same : holder = maker := (known maker alive made).1
        rw [same] at running
        exact running alive
  | date =>
      refine tracked.enter_pc roles ?_
      rintro round stage' ⟨⟩ maker alive made
      obtain ⟨since, held⟩ := known maker alive made
      obtain ⟨_, since', _, held', _, _, young⟩ :=
        tracked.held_of_maker alive made (not_marking_of_held held)
      exact ⟨since', held', young⟩
  | readTs now =>
      by_cases old : now ≠ 0 ∧
          staleSeconds ≤ now - (lock.shared.bind Dir.ts).getD 0
      · simp only [reclaimStep, if_pos old] at roles ⊢
        refine tracked.enter_pc roles ?_
        rintro round stage' ⟨⟩ maker alive made
        obtain ⟨since, held, young⟩ := known maker alive made
        have has : (lock.procs maker).role = some (.held since) := held
        obtain ⟨dir, since', found, held', _, stamped, _⟩ :=
          tracked.held_of_maker alive made (not_marking_of_held has)
        rw [has] at held'
        cases held'
        rw [found, Option.bind_some, stamped, Option.getD_some] at old
        simp only [staleSeconds] at old young
        show False
        omega
      · simp only [reclaimStep, if_neg old] at roles ⊢
        refine tracked.enter_pc roles ?_
        rintro round stage' ⟨⟩ maker alive made _
        obtain ⟨since, held, _⟩ := known maker alive made
        exact ⟨since, held⟩
  | testPid =>
      by_cases unmarked : unmarkedRound < i ∧ lock.shared.bind Dir.pid = none
      · simp only [reclaimStep, if_pos unmarked] at roles ⊢
        refine tracked.enter_pc roles ?_
        rintro round stage' ⟨⟩ maker alive made
        obtain ⟨since, held⟩ := known maker alive made unmarked.1
        have has : (lock.procs maker).role = some (.held since) := held
        obtain ⟨dir, _, found, _, marked, _⟩ :=
          tracked.held_of_maker alive made (not_marking_of_held has)
        rw [found, Option.bind_some, marked] at unmarked
        exact absurd unmarked.2 (by simp)
      · simp only [reclaimStep, if_neg unmarked] at roles ⊢
        refine tracked.enter_pc roles ?_
        intro round stage' same
        have none := reclaiming_again i
        rw [same] at none
        cases none
  | removeDead | removeOld | removeUnmarked =>
      exact LockDirs.Tracked.enter_remove tracked roles
        (fun maker alive made => known maker alive made) rfl

/-- A step of a process with its own directory that nobody has looked into. -/
theorem enter_marks {after : Option Dir} {role : Role}
    (live : lock.alive pid = true) (notReclaiming : protocol.reclaiming pc = none)
    (has : pc.role = some role)
    (before : ∀ other, protocol.makerOf lock.shared () = some other → other = pid)
    (dirFor : protocol.DirFor lock.env.now after pid () (some role))
    (notLooked : ∀ other, lock.alive other = true → (lock.procs other).looked = false) :
    Tracked (lock.enter pid (after, pc)) := by
  refine LockDirs.Tracked.enter_own tracked live notReclaiming has before dirFor
    ?_
  intro other stage alive reclaiming
  have quiet := notLooked other alive
  cases otherPc : lock.procs other with
  | reclaim i stage' =>
      rw [otherPc] at reclaiming quiet
      cases reclaiming
      exact allows_of_not_looked quiet
  | _ =>
      rw [otherPc] at reclaiming
      cases reclaiming

theorem not_looked_of_role {role : Role} (live : lock.alive pid = true)
    (has : (lock.procs pid).role = some role)
    (notHeld : ∀ since, role ≠ .held since) {other : Nat}
    (alive : lock.alive other = true) : (lock.procs other).looked = false := by
  have isRole : protocol.role (lock.procs pid) () = some role := has
  have made := tracked.makerOf_eq live isRole
  cases otherPc : lock.procs other with
  | reclaim i stage =>
      have reclaiming :
          protocol.reclaiming (lock.procs other) = some ((), i, stage) := by
        rw [otherPc]
        rfl
      have allows := tracked.stages other () (i, stage) alive reclaiming pid
        live made
      rw [isRole] at allows
      exact not_looked_of_allows (by simpa using notHeld) allows
  | _ => rfl

theorem act (live : lock.alive pid = true) (apart : LooksApart lock pid) :
    Tracked (lock.enter pid
      (HncJsonLock.act pid lock.env lock.shared (lock.procs pid))) := by
  cases pc : lock.procs pid with
  | begin | ended =>
      refine tracked.enter_pc (by rw [pc]) ?_
      intro i stage same
      cases same
  | make i =>
      by_cases free : lock.shared.isNone = true
      · rw [HncJsonLock.act, if_pos free]
        rw [Option.isNone_iff_eq_none] at free
        refine tracked.enter_marks live rfl rfl ?_ ⟨_, rfl, rfl, trivial⟩
          (apart.makes i pc free)
        intro other made
        rw [free] at made
        cases made
      · rw [HncJsonLock.act, if_neg free]
        refine tracked.enter_pc (by rw [pc]; rfl) ?_
        rintro round stage ⟨⟩ maker alive made
        trivial
  | reclaim i stage => exact tracked.reclaim live pc apart
  | writePid =>
      have has : protocol.role (lock.procs pid) () = some .made := by
        rw [pc]
        rfl
      obtain ⟨dir, found, maker, _⟩ := tracked.dir_of_role live has
      have inside : lock.shared = some dir := found
      simp only [inside]
      exact tracked.enter_marks live rfl rfl (tracked.maker_eq_of_role live has)
        ⟨_, rfl, maker, rfl⟩ fun _ => tracked.not_looked_of_role live has (by simp)
  | writeTs =>
      have has : protocol.role (lock.procs pid) () = some .marked := by
        rw [pc]
        rfl
      obtain ⟨dir, found, maker, marked⟩ := tracked.dir_of_role live has
      have inside : lock.shared = some dir := found
      have young : lock.env.now < lock.env.now + staleSeconds := by
        simp only [staleSeconds]
        omega
      simp only [inside]
      exact tracked.enter_marks live rfl rfl (tracked.maker_eq_of_role live has)
        ⟨_, rfl, maker, marked, rfl, young⟩
        fun _ => tracked.not_looked_of_role live has (by simp)
  | critical since =>
      have held : protocol.role (lock.procs pid) () = some (.held since) := by
        rw [pc]
        rfl
      exact LockDirs.Tracked.enter_release tracked live rfl held rfl rfl

theorem step {event : Event Unit} (brief : Brief lock event)
    (apart : ActsApart lock event) :
    Tracked (lock.step program event) := by
  refine World.step_induction tracked ?_ ?_ ?_ ?_
  · rintro pid rfl live
    exact tracked.act live apart
  · rintro pid command rfl live
    show Tracked (lock.enter pid (lock.shared, call command (lock.procs pid)))
    cases pc : lock.procs pid with
    | begin =>
        refine tracked.enter_pc (by rw [pc]; rfl) ?_
        intro i stage same
        cases same
    | reclaim i stage =>
        refine tracked.enter_pc (by rw [pc]; rfl) ?_
        rintro i stage ⟨⟩
        refine tracked.stages pid () (i, stage) live ?_
        rw [pc]
        rfl
    | _ =>
        refine tracked.enter_pc (by rw [pc]; rfl) ?_
        intro i stage same
        cases same
  · rintro pid rfl
    exact LockDirs.Tracked.exit tracked pid
  · rintro rfl
    refine LockDirs.Tracked.tick tracked ?_ (fun _ _ _ allows => allows)
    intro pid name role dir live has shows
    have isRole : (lock.procs pid).role = some role := has
    cases role with
    | made | marked => exact shows
    | held since =>
        refine ⟨shows.1, shows.2.1, brief pid since live ?_⟩
        cases pc : lock.procs pid with
        | critical since' =>
            rw [pc] at isRole
            cases isRole
            rfl
        | _ =>
            rw [pc] at isRole
            cases isRole

theorem exclusive : Exclusive lock := by
  intro left right leftSince rightSince leftLive rightLive leftPc rightPc
  have leftHas : protocol.role (lock.procs left) () =
      some (.held leftSince) := by
    rw [leftPc]
    rfl
  have rightHas : protocol.role (lock.procs right) () =
      some (.held rightSince) := by
    rw [rightPc]
    rfl
  exact tracked.unique leftLive rightLive leftHas rightHas

end

end Tracked

/-- In every run whose critical sections are shorter than thirty seconds: if no
process makes the directory while another one may remove it for what it saw
before, and none looks into a directory that is not marked yet, the lock is
exclusive in every state. -/
theorem run_exclusive (now : Nat) (events : List (Event Unit))
    (run : Runs.Guarded (World.step program) Brief (start now) events)
    (apart : Runs.Guarded (World.step program) ActsApart (start now) events) :
    ∀ lock ∈ Runs.visited (World.step program) (start now) events,
      Exclusive lock := by
  intro lock visited
  have tracked := (run.and apart).induction Tracked
    (fun lock event tracked conditions =>
      tracked.step conditions.1 conditions.2)
    (Tracked.start now) lock visited
  exact tracked.exclusive

/-- The conditions on a run of the processes below `bound`, in a form that can be
evaluated. -/
def checkedStep (bound : Nat) (lock : Lock) : Event Unit → Bool
  | .act pid =>
      match lock.procs pid with
      | .make _ => lock.shared.isSome || (List.range bound).all fun other =>
          (lock.procs other).looked = false
      | .reclaim _ .read => (List.range bound).all fun other =>
          (lock.procs other).marking = false
      | _ => true
  | .tick => (List.range bound).all fun pid =>
      match lock.procs pid with
      | .critical since => lock.env.now + 1 < since + staleSeconds
      | _ => true
  | _ => true

theorem conditions_of_checkedStep {bound : Nat} (lock : Lock)
    (event : Event Unit)
    (untouched : World.Untouched (fun _ => Pc.begin) bound lock)
    (checked : checkedStep bound lock event = true) :
    Brief lock event ∧ ActsApart lock event := by
  cases event with
  | call _ _ | exit _ => exact ⟨trivial, trivial⟩
  | tick =>
      refine ⟨?_, trivial⟩
      refine untouched.forall (p := fun pid pc => ∀ since,
        lock.alive pid = true → pc = .critical since →
        lock.env.now + 1 < since + staleSeconds) (by simp) ?_
      intro pid inside since _ critical
      have here := List.all_eq_true.mp checked pid inside
      rw [critical] at here
      exact of_decide_eq_true here
  | act pid =>
      refine ⟨trivial, ?_, ?_⟩
      · intro i make free other _
        simp only [checkedStep, make, free] at checked
        refine untouched.forall (p := fun _ pc => pc.looked = false)
          (fun _ => rfl) ?_ other
        exact fun pid inside =>
          of_decide_eq_true (List.all_eq_true.mp checked pid inside)
      · intro i read other _
        simp only [checkedStep, read] at checked
        refine untouched.forall (p := fun _ pc => pc.marking = false)
          (fun _ => rfl) ?_ other
        exact fun pid inside =>
          of_decide_eq_true (List.all_eq_true.mp checked pid inside)

/-- One process takes the lock while another one waits for it, and gives it
back. -/
def handedOver : List (Event Unit) :=
  [.call 1 (), .act 1, .act 1, .act 1, .tick, .call 2 ()] ++
    List.replicate 7 (.act 2) ++ [.act 1, .act 2, .act 2, .act 2]

theorem handedOver_exclusive :
    (handedOver.foldl (World.step program) (start 100)).procs 2 =
      .critical 101 ∧
    ∀ lock ∈ Runs.visited (World.step program) (start 100) handedOver,
      Exclusive lock := by
  have checked : Runs.Guarded (World.step program)
      (fun lock event => checkedStep 3 lock event = true) (start 100)
      handedOver := by
    decide +kernel
  have conditions : Runs.Guarded (World.step program)
      (fun lock event => Brief lock event ∧ ActsApart lock event) (start 100)
      handedOver := by
    refine World.guarded_of_below conditions_of_checkedStep ?_
      (fun _ _ => rfl) checked
    decide +kernel
  refine ⟨by decide +kernel, run_exclusive 100 handedOver ?_ ?_⟩
  · exact conditions.imp fun _ _ both => both.1
  · exact conditions.imp fun _ _ both => both.2

/-- A process finds the directory before its maker has marked it, takes it for
one from the epoch and removes it; both end up in their critical sections. -/
def unmarkedRemoved : List (Event Unit) :=
  [.call 1 (), .act 1, .call 2 ()] ++ List.replicate 10 (.act 2) ++
    [.act 1, .act 1]

theorem unmarkedRemoved_not_exclusive :
    ¬ ∀ (now : Nat) (events : List (Event Unit)),
      Runs.Guarded (World.step program) Brief (start now) events →
      ∀ lock ∈ Runs.visited (World.step program) (start now) events,
        Exclusive lock := by
  intro always
  have brief : Runs.Guarded (World.step program) Brief (start 100)
      unmarkedRemoved := by
    have sameSecond : ∀ event ∈ unmarkedRemoved, event ≠ Event.tick := by
      decide +kernel
    refine (Runs.guarded_of_steps (start 100) sameSecond).imp ?_
    intro lock event notTick
    cases event with
    | act _ | call _ _ | exit _ => trivial
    | tick => exact absurd rfl notTick
  have same := always 100 unmarkedRemoved brief _
    (Runs.mem_visited_final _ _) 1 2 100 100 (by decide +kernel)
    (by decide +kernel) (by decide +kernel) (by decide +kernel)
  cases same

end Hnc.HncJsonLock
