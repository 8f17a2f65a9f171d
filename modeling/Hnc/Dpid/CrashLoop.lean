import Hnc.Dpid.Launcher
import Hnc.Lib.SlidingWindow
import Mathlib.Algebra.GroupWithZero.Nat
import Mathlib.Data.Int.Order.Basic
import Mathlib.Data.List.Iterate
import Mathlib.Data.Set.List

/-!
# Pauses and crashes of the launcher

A round of `run_supervise_loop` starts a child, waits for it and pauses.  The
clock counts whole seconds.  The cap of the pause is tested in front of the
doubling, and the pause is never reset, so that five quick crashes may take more
than the minute in which they are counted.
-/

namespace Dpid.Launcher

/-! ### Rounds -/

/-- What a round meets: `fork` fails, or the child ends after some seconds. -/
inductive Fate where
  | forkFails
  | exits (lifetime : Nat) (status : Status)

structure Loop where
  crashes : CrashTracker
  backoff : Nat
  now : Int

/-- A round pauses and goes on, or it is the last one. -/
inductive Turn where
  | again (pause : Nat) (loop : Loop)
  | stopped
  | crashLoop

def Loop.enter (now : Int) : Loop :=
  ⟨⟨[]⟩, restartBackoffMin, now⟩

def Loop.round (l : Loop) : Fate → Turn
  | .forkFails =>
      .again l.backoff ⟨l.crashes, nextBackoff l.backoff, l.now + l.backoff⟩
  | .exits _ .clean => .stopped
  | .exits lifetime .abnormal =>
      let now := l.now + lifetime
      let recorded := l.crashes.record now
      if recorded.2 then .crashLoop
      else .again l.backoff
        ⟨recorded.1, nextBackoff l.backoff, now + l.backoff⟩

/-- The pauses of a run. -/
def Loop.pauses (l : Loop) : List Fate → List Nat
  | [] => []
  | fate :: rest =>
      match l.round fate with
      | .again pause next => pause :: next.pauses rest
      | .stopped => []
      | .crashLoop => []

/-- The head of the loop behind some rounds, when the run gets there. -/
def Loop.reach (l : Loop) : List Fate → Option Loop
  | [] => some l
  | fate :: rest =>
      match l.round fate with
      | .again _ next => next.reach rest
      | .stopped => none
      | .crashLoop => none

/-- The run ends with the crash flag. -/
def Loop.flags (l : Loop) : List Fate → Bool
  | [] => false
  | fate :: rest =>
      match l.round fate with
      | .again _ next => next.flags rest
      | .stopped => false
      | .crashLoop => true

/-- A child that ends abnormally. -/
def crash (lifetime : Nat) : Fate :=
  .exits lifetime .abnormal

/-- The flag is written after at most ten crashes of children that all live no
longer than a second. -/
def StopsCrashLoop (l : Loop) : Prop :=
  ∀ lifetimes : List Nat, lifetimes.length = 10 →
    (∀ lifetime ∈ lifetimes, lifetime ≤ 1) →
      l.flags (lifetimes.map crash) = true

/-- The statement at the head of the loop. -/
def Loop.head (l : Loop) : State :=
  ⟨.loopTest, false, 0, none, l.crashes, l.backoff⟩

/-- The events of a round without a signal. -/
def Loop.statements (l : Loop) (pid : Pid) : Fate → List Event
  | .forkFails => List.replicate 4 (.run none l.now)
  | .exits lifetime status =>
      [.run none l.now, .run (some pid) l.now, .run none l.now, .run none l.now,
        .childEnds status] ++ List.replicate 4 (.run none (l.now + lifetime))

/-- A round is what its statements do. -/
theorem statements_round (l : Loop) (pid : Pid) (fate : Fate) :
    match l.round fate with
    | .again _ next => (l.statements pid fate).foldl step l.head = next.head
    | .stopped => ((l.statements pid fate).foldl step l.head).pc = .stopped false
    | .crashLoop =>
        ((l.statements pid fate).foldl step l.head).pc = .stopped true := by
  cases fate with
  | forkFails => rfl
  | exits lifetime status =>
      cases status with
      | clean => rfl
      | abnormal =>
          have paused : (l.statements pid (.exits lifetime .abnormal)).foldl step
              l.head = step
                { l.head with
                  crashes := (l.crashes.record (l.now + lifetime)).1
                  pc := if (l.crashes.record (l.now + lifetime)).2 then
                    .stopped true else .pausing }
                (.run none (l.now + lifetime)) := rfl
          rw [Loop.round, paused]
          cases (l.crashes.record (l.now + lifetime)).2 with
          | true => rfl
          | false => rfl

/-- The crash times that are recorded, the latest first. -/
def CrashTracker.latest (t : CrashTracker) (j : Nat) : Option Int :=
  t.timestamps.reverse[j]?

/-- The sum of the next pauses. -/
def pauseSum : Nat → Nat → Nat
  | _, 0 => 0
  | backoff, n + 1 => backoff + pauseSum (nextBackoff backoff) n

/-- Behind `i` quick crashes the next one is the fifth within a minute, even if
each child lives for a second. -/
def Due (l : Loop) (i : Nat) : Prop :=
  if i < 4 then
    ∃ ts ∈ l.crashes.latest (3 - i),
      l.now - ts + pauseSum l.backoff i + (i + 1) ≤ crashWindowSec
  else i = 4 ∧ (pauseSum l.backoff 4 : Int) + 4 ≤ crashWindowSec

/-- The crash times are in order and not in the future. -/
structure Ordered (l : Loop) : Prop where
  sorted : l.crashes.timestamps.Pairwise (· ≤ ·)
  past : ∀ ts ∈ l.crashes.timestamps, ts ≤ l.now

/-- In a falling list the elements above a bound stand in front. -/
theorem lt_countP_iff {times : List Int} (falling : times.Pairwise (· ≥ ·))
    (bound : Int) (n : Nat) :
    n < times.countP (fun ts => decide (bound ≤ ts)) ↔
      ∃ ts ∈ times[n]?, bound ≤ ts := by
  induction times generalizing n with
  | nil => simp
  | cons first rest induction =>
      obtain ⟨below, falling⟩ := List.pairwise_cons.mp falling
      by_cases high : bound ≤ first
      · rw [List.countP_cons_of_pos (by simpa using high)]
        cases n with
        | zero => simp [high]
        | succ n =>
            rw [Nat.add_lt_add_iff_right, induction falling]
            rfl
      · have low : ∀ ts ∈ rest, ¬bound ≤ ts := fun ts member =>
          not_le.mpr (lt_of_le_of_lt (below ts member) (not_le.mp high))
        have none : (first :: rest).countP
            (fun ts => decide (bound ≤ ts)) = 0 := by
          apply List.countP_eq_zero.mpr
          intro ts member
          rcases List.mem_cons.mp member with rfl | later
          · simpa using high
          · simpa using low ts later
        rw [none]
        constructor
        · exact fun impossible => absurd impossible (Nat.not_lt_zero n)
        · rintro ⟨ts, found, reaches⟩
          have member := List.mem_of_getElem? found
          rcases List.mem_cons.mp member with rfl | later
          · exact absurd reaches high
          · exact absurd reaches (low ts later)

theorem record_flags_iff {t : CrashTracker}
    (sorted : t.timestamps.Pairwise (· ≤ ·)) (now : Int) :
    (t.record now).2 = true ↔
      ∃ ts ∈ t.latest 3, now - ts ≤ crashWindowSec := by
  have falling : t.timestamps.reverse.Pairwise (· ≥ ·) :=
    List.pairwise_reverse.mpr sorted
  have same : ∀ ts, now - ts ≤ crashWindowSec ↔ now - crashWindowSec ≤ ts := by
    intro ts
    omega
  simp only [CrashTracker.record, CrashTracker.latest, decide_eq_true_eq, same]
  rw [← lt_countP_iff falling, List.countP_reverse, crashLimit]
  omega

/-- A record puts its time in front, and the array is long enough for the four
crashes that count. -/
theorem latest_record (t : CrashTracker) (now : Int) :
    (t.record now).1.latest 0 = some now ∧
      ∀ j < 3, (t.record now).1.latest (j + 1) = t.latest j := by
  have front : (t.record now).1.timestamps.reverse = now ::
      (if t.timestamps.length < crashLimit then t.timestamps
        else t.timestamps.tail).reverse :=
    List.reverse_append
  rw [CrashTracker.latest, front]
  refine ⟨rfl, ?_⟩
  intro j small
  rw [CrashTracker.latest, CrashTracker.latest, front, List.getElem?_cons_succ]
  split
  · rfl
  · rename_i full
    rw [crashLimit] at full
    rw [← List.dropLast_reverse, List.getElem?_dropLast, if_pos]
    rw [List.length_reverse]
    omega

/-! ### The window of the tracker -/

/-- The tracker behind some calls, from `crash_tracker_init` on. -/
def trackerAfter (calls : List Int) : CrashTracker :=
  calls.foldl (fun t now => (t.record now).1) ⟨[]⟩

theorem timestamps_record {t : CrashTracker} {calls : List Int}
    (kept : t.timestamps = calls.rtake crashLimit) (now : Int) :
    (t.record now).1.timestamps = (calls ++ [now]).rtake crashLimit := by
  rw [SlidingWindow.rtake_concat calls now (by decide), ← kept]
  rfl

/-- The tracker holds the last times. -/
theorem timestamps_trackerAfter (calls : List Int) :
    (trackerAfter calls).timestamps = calls.rtake crashLimit := by
  induction calls using List.reverseRecOn with
  | nil => rfl
  | append_singleton calls now induction =>
      rw [trackerAfter, List.foldl_append, List.foldl_cons]
      exact timestamps_record induction now

/-- A call reports a crash loop exactly when five of all calls so far lie within
the window, although only the last five times are kept. -/
theorem record_is_sliding_window {before : List Int} {now : Int}
    (clock : (before ++ [now]).Pairwise (· ≤ ·)) :
    (((trackerAfter before).record now).2 = true ↔
      crashLimit ≤ (before ++ [now]).countP fun ts =>
        decide (now - crashWindowSec ≤ ts)) ∧
    ((trackerAfter before).record now).1.timestamps <:+ before ++ [now] ∧
    ((trackerAfter before).record now).1.timestamps.length =
      min crashLimit (before ++ [now]).length := by
  have sorted := (List.pairwise_append.mp clock).1
  have kept := timestamps_trackerAfter before
  have recent : (trackerAfter before).timestamps.countP
      (fun ts => decide (now - ts ≤ crashWindowSec)) =
        (before.rtake crashLimit).countP fun ts =>
          decide (now - crashWindowSec ≤ ts) := by
    rw [kept]
    apply List.countP_congr
    intro ts _
    simp only [decide_eq_true_eq]
    omega
  -- the call itself counts, and four of the others have to
  have here : [now].countP (fun ts => decide (now - crashWindowSec ≤ ts)) = 1 := by
    rw [List.countP_singleton, if_pos]
    rw [decide_eq_true_eq, crashWindowSec]
    omega
  have four := SlidingWindow.le_countP_rtake_iff sorted (now - crashWindowSec)
    (show 4 ≤ crashLimit by decide)
  have last := timestamps_record kept now
  refine ⟨?_, ?_, ?_⟩
  · rw [CrashTracker.record, decide_eq_true_eq, recent, List.countP_append, here]
    have limit : crashLimit = 5 := rfl
    omega
  · rw [last]
    exact List.drop_suffix _ _
  · rw [last, List.rtake, List.length_drop]
    omega

/-- The first of five calls is at the edge of the window. -/
theorem crash_at_edge_counts :
    ((trackerAfter [0, 10, 20, 30, 40]).record 70).2 = true :=
  (record_is_sliding_window (by decide)).1.mpr (by decide)

/-- The head of the loop behind a crash that is not the last one. -/
def Loop.afterCrash (l : Loop) (lifetime : Nat) : Loop :=
  ⟨(l.crashes.record (l.now + lifetime)).1, nextBackoff l.backoff,
    l.now + lifetime + l.backoff⟩

theorem round_crash (l : Loop) (lifetime : Nat) :
    l.round (crash lifetime) =
      if (l.crashes.record (l.now + lifetime)).2 then .crashLoop
      else .again l.backoff (l.afterCrash lifetime) :=
  rfl

variable {l : Loop} {fate : Fate}

/-- A round that goes on pauses for the back-off and doubles it. -/
theorem round_again {next : Loop} {pause : Nat}
    (again : l.round fate = .again pause next) :
    pause = l.backoff ∧ next.backoff = nextBackoff l.backoff ∧
      (fate = .forkFails ∧ next.crashes = l.crashes ∧
          next.now = l.now + l.backoff ∨
        ∃ lifetime, fate = crash lifetime ∧ next = l.afterCrash lifetime) := by
  cases fate with
  | forkFails =>
      cases again
      exact ⟨rfl, rfl, .inl ⟨rfl, rfl, rfl⟩⟩
  | exits lifetime status =>
      cases status with
      | clean => cases again
      | abnormal =>
          change l.round (crash lifetime) = _ at again
          rw [round_crash] at again
          split at again
          · cases again
          · cases again
            exact ⟨rfl, rfl, .inr ⟨lifetime, rfl, rfl⟩⟩

theorem ordered_afterCrash (ordered : Ordered l) (lifetime : Nat) :
    Ordered (l.afterCrash lifetime) := by
  have kept : (if l.crashes.timestamps.length < crashLimit then
      l.crashes.timestamps else l.crashes.timestamps.tail).Sublist
        l.crashes.timestamps := by
    split
    · exact List.Sublist.refl _
    · exact List.tail_sublist _
  constructor
  · apply List.pairwise_append.mpr
    refine ⟨ordered.sorted.sublist kept, List.pairwise_singleton _ _, ?_⟩
    intro ts member now here
    have past := ordered.past ts (kept.subset member)
    rw [List.mem_singleton.mp here]
    omega
  · intro ts member
    change ts ≤ l.now + lifetime + l.backoff
    rcases List.mem_append.mp member with earlier | here
    · have past := ordered.past ts (kept.subset earlier)
      omega
    · rw [List.mem_singleton.mp here]
      omega

theorem Ordered.again {next : Loop} (ordered : Ordered l) {pause : Nat}
    (again : l.round fate = .again pause next) : Ordered next := by
  obtain ⟨_, _, ⟨_, crashes, now⟩ | ⟨lifetime, _, rfl⟩⟩ := round_again again
  · constructor
    · rw [crashes]
      exact ordered.sorted
    · intro ts member
      rw [crashes] at member
      have past := ordered.past ts member
      omega
  · exact ordered_afterCrash ordered lifetime

variable {fates : List Fate}

/-- What a round keeps holds wherever a run gets to. -/
theorem reach_induction (inv : Loop → Prop)
    (preserved : ∀ {l next fate pause}, inv l → l.round fate = .again pause next → inv next)
    {last : Loop} (initial : inv l) (reached : l.reach fates = some last) :
    inv last := by
  induction fates generalizing l with
  | nil =>
      cases reached
      exact initial
  | cons fate rest induction =>
      rw [Loop.reach] at reached
      split at reached
      · rename_i again
        exact induction (preserved initial again) reached
      · cases reached
      · cases reached

theorem ordered_reach {now : Int}
    (reached : (Loop.enter now).reach fates = some l) : Ordered l := by
  apply reach_induction Ordered (fun ordered again => ordered.again again) _ reached
  exact ⟨List.Pairwise.nil, fun _ member => absurd member List.not_mem_nil⟩

theorem le_nextBackoff (backoff : Nat) : backoff ≤ nextBackoff backoff := by
  rw [nextBackoff]
  split <;> omega

theorem pauseSum_next (backoff n : Nat) :
    pauseSum backoff n ≤ pauseSum (nextBackoff backoff) n := by
  induction n generalizing backoff with
  | zero => exact Nat.le_refl 0
  | succ n induction =>
      exact Nat.add_le_add (le_nextBackoff backoff) (induction _)

theorem flags_of_due (ordered : Ordered l) (due : Due l 0) {lifetime : Nat}
    (quick : lifetime ≤ 1) : l.round (crash lifetime) = .crashLoop := by
  obtain ⟨ts, found, recent⟩ := due
  have flags : (l.crashes.record (l.now + lifetime)).2 = true := by
    apply (record_flags_iff ordered.sorted _).mpr
    refine ⟨ts, found, ?_⟩
    omega
  rw [round_crash, if_pos flags]

variable {i : Nat}

/-- Behind a crash the recorded times have moved by one. -/
theorem due_afterCrash_iff (l : Loop) (lifetime : Nat) (small : i < 3) :
    Due (l.afterCrash lifetime) i ↔
      ∃ ts ∈ l.crashes.latest (3 - (i + 1)),
        l.now + lifetime - ts + pauseSum l.backoff (i + 1) + (i + 1) ≤
          crashWindowSec := by
  obtain ⟨_, earlier⟩ := latest_record l.crashes (l.now + lifetime)
  have index : 3 - i = 3 - (i + 1) + 1 := by omega
  have moved : (l.afterCrash lifetime).crashes.latest (3 - i) =
      l.crashes.latest (3 - (i + 1)) := by
    rw [index]
    exact earlier _ (by omega)
  have sum : pauseSum l.backoff (i + 1) =
      l.backoff + pauseSum (l.afterCrash lifetime).backoff i := rfl
  have later : (l.afterCrash lifetime).now = l.now + lifetime + l.backoff := rfl
  rw [Due, if_pos (by omega), moved]
  apply exists_congr
  intro ts
  apply and_congr_right
  intro _
  constructor <;> intro recent <;> omega

/-- The third crash from now is due when the next four pauses are short. -/
theorem due_afterCrash_three_iff (l : Loop) (lifetime : Nat) :
    Due (l.afterCrash lifetime) 3 ↔ Due l 4 := by
  obtain ⟨here, _⟩ := latest_record l.crashes (l.now + lifetime)
  have latest : (l.afterCrash lifetime).crashes.latest 0 =
      some (l.now + lifetime) := here
  have sum : pauseSum l.backoff 4 =
      l.backoff + pauseSum (l.afterCrash lifetime).backoff 3 := rfl
  have later : (l.afterCrash lifetime).now = l.now + lifetime + l.backoff := rfl
  rw [Due, Due, if_pos (by decide), latest]
  simp only [Option.mem_some_iff, true_and]
  push_cast
  constructor <;> intro recent <;> omega

theorem due_afterCrash {lifetime : Nat} (quick : lifetime ≤ 1)
    (due : Due l (i + 1)) : Due (l.afterCrash lifetime) i := by
  by_cases small : i < 3
  · rw [due_afterCrash_iff l lifetime small]
    rw [Due, if_pos (by omega)] at due
    obtain ⟨ts, found, recent⟩ := due
    refine ⟨ts, found, ?_⟩
    omega
  · have third : i = 3 := by
      rw [Due, if_neg (by omega)] at due
      omega
    subst third
    exact (due_afterCrash_three_iff l lifetime).mpr due

/-- Without a due crash children that live for a second go on crashing. -/
theorem not_due_afterCrash (never : ∀ i ≤ 4, ¬Due l i) :
    ∀ i ≤ 4, ¬Due (l.afterCrash 1) i := by
  intro i inside due
  by_cases small : i < 3
  · rw [due_afterCrash_iff l 1 small] at due
    obtain ⟨ts, found, recent⟩ := due
    apply never (i + 1) (by omega)
    rw [Due, if_pos (by omega)]
    refine ⟨ts, found, ?_⟩
    omega
  · by_cases third : i = 3
    · subst third
      exact never 4 (Nat.le_refl 4) ((due_afterCrash_three_iff l 1).mp due)
    · rw [Due, if_neg (by omega)] at due
      apply never 4 (Nat.le_refl 4)
      rw [Due, if_neg (by decide)]
      have longer := pauseSum_next l.backoff 4
      have backoff : (l.afterCrash 1).backoff = nextBackoff l.backoff := rfl
      rw [backoff] at due
      omega

theorem flags_quick (ordered : Ordered l) (due : Due l i) {lifetimes : List Nat}
    (enough : i < lifetimes.length) (quick : ∀ lifetime ∈ lifetimes, lifetime ≤ 1) :
    l.flags (lifetimes.map crash) = true := by
  induction i generalizing l lifetimes with
  | zero =>
      cases lifetimes with
      | nil => exact absurd enough (Nat.not_lt_zero 0)
      | cons lifetime rest =>
          rw [List.map_cons, Loop.flags,
            flags_of_due ordered due (quick lifetime List.mem_cons_self)]
  | succ i induction =>
      cases lifetimes with
      | nil => exact absurd enough (Nat.not_lt_zero _)
      | cons lifetime rest =>
          rw [List.map_cons, Loop.flags, round_crash]
          by_cases recorded : (l.crashes.record (l.now + lifetime)).2 = true
          · rw [if_pos recorded]
          · rw [if_neg recorded]
            apply induction (ordered_afterCrash ordered lifetime)
            · exact due_afterCrash (quick lifetime List.mem_cons_self) due
            · exact Nat.lt_of_succ_lt_succ enough
            · exact fun later member => quick later (List.mem_cons_of_mem _ member)

/-- Children that live for a second are started again and again. -/
theorem not_flags_slow (ordered : Ordered l) (never : ∀ i ≤ 4, ¬Due l i) (n : Nat) :
    l.flags ((List.replicate n 1).map crash) = false := by
  induction n generalizing l with
  | zero => rfl
  | succ n induction =>
      have missed : ¬(l.crashes.record (l.now + (1 : Nat))).2 = true := by
        rw [record_flags_iff ordered.sorted]
        rintro ⟨ts, found, recent⟩
        apply never 0 (Nat.zero_le 4)
        refine ⟨ts, found, ?_⟩
        rw [pauseSum]
        omega
      rw [List.replicate_succ, List.map_cons, Loop.flags, round_crash,
        if_neg missed]
      exact induction (ordered_afterCrash ordered 1) (not_due_afterCrash never)

theorem stopsCrashLoop_iff (ordered : Ordered l) :
    StopsCrashLoop l ↔ ∃ i ≤ 4, Due l i := by
  constructor
  · intro stops
    by_contra never
    simp only [not_exists, not_and] at never
    have flags := stops (List.replicate 10 1) List.length_replicate
      fun lifetime member => (List.eq_of_mem_replicate member).le
    rw [not_flags_slow ordered never] at flags
    cases flags
  · rintro ⟨i, inside, due⟩ lifetimes ten quick
    exact flags_quick ordered due (by omega) quick

/-! ### Pauses -/

/-- The pauses double as long as the cap is not reached. -/
theorem pauses_eq (l : Loop) (fates : List Fate) :
    l.pauses fates =
      List.iterate nextBackoff l.backoff (l.pauses fates).length := by
  induction fates generalizing l with
  | nil => rfl
  | cons fate rest induction =>
      rw [Loop.pauses]
      split
      · rename_i pause next again
        obtain ⟨rfl, backoff, _⟩ := round_again again
        rw [List.length_cons, List.iterate, ← backoff, ← induction]
      · rfl
      · rfl

theorem pauses_short_iff (now : Int) (fates : List Fate) :
    (∀ pause ∈ (Loop.enter now).pauses fates, pause ≤ restartBackoffMax) ↔
      ((Loop.enter now).pauses fates).length < 5 := by
  have same := pauses_eq (Loop.enter now) fates
  generalize (Loop.enter now).pauses fates = pauses at same ⊢
  generalize pauses.length = n at same ⊢
  subst same
  constructor
  · intro short
    by_contra many
    have long : (32 : Nat) ∈ List.iterate nextBackoff restartBackoffMin n := by
      apply List.mem_iterate.mpr
      exact ⟨4, by omega, by decide⟩
    exact absurd (short 32 long) (by decide)
  · intro few pause member
    obtain ⟨i, inside, rfl⟩ := List.mem_iterate.mp member
    have all : ∀ i < 4, nextBackoff^[i] restartBackoffMin ≤ restartBackoffMax := by
      decide
    exact all i (by omega)

theorem le_length_pauses_iff (l : Loop) (fates : List Fate) (n : Nat) :
    n ≤ (l.pauses fates).length ↔
      n ≤ fates.length ∧ (l.reach (fates.take n)).isSome := by
  induction n generalizing l fates with
  | zero => simp [Loop.reach]
  | succ n induction =>
      cases fates with
      | nil => simp [Loop.pauses]
      | cons fate rest =>
          rw [List.take_succ_cons, Loop.pauses, Loop.reach]
          cases l.round fate with
          | again pause next =>
              simp only [List.length_cons, Nat.add_le_add_iff_right]
              exact induction next rest
          | stopped => simp
          | crashLoop => simp

/-- The child did not end by itself with the exit code 0. -/
def Fate.Restarts : Fate → Prop
  | .exits _ .clean => False
  | _ => True

theorem Fate.Restarts.cases (restarts : fate.Restarts) :
    fate = .forkFails ∨ ∃ lifetime, fate = crash lifetime := by
  cases fate with
  | forkFails => exact .inl rfl
  | exits lifetime status =>
      cases status with
      | clean => exact absurd restarts id
      | abnormal => exact .inr ⟨lifetime, rfl⟩

theorem restarts_of_reach {last : Loop} (reached : l.reach fates = some last) :
    ∀ fate ∈ fates, fate.Restarts := by
  induction fates generalizing l with
  | nil => exact fun _ member => absurd member List.not_mem_nil
  | cons fate rest induction =>
      rw [Loop.reach] at reached
      split at reached
      · rename_i pause next again
        intro other member
        rcases List.mem_cons.mp member with rfl | later
        · obtain ⟨_, _, ⟨rfl, _⟩ | ⟨lifetime, rfl, _⟩⟩ := round_again again
          · trivial
          · trivial
        · exact induction reached other later
      · cases reached
      · cases reached

/-- The crash detector needs four earlier crashes. -/
theorem round_few (few : l.crashes.timestamps.length < 4) (lifetime : Nat) :
    l.round (crash lifetime) = .again l.backoff
      ⟨⟨l.crashes.timestamps ++ [l.now + lifetime]⟩, nextBackoff l.backoff,
        l.now + lifetime + l.backoff⟩ := by
  have counted : l.crashes.timestamps.countP
      (fun ts => decide (l.now + lifetime - ts ≤ crashWindowSec)) ≤
        l.crashes.timestamps.length := List.countP_le_length
  have missed : ¬(l.crashes.record (l.now + lifetime)).2 = true := by
    change ¬decide (crashLimit ≤ _ + 1) = true
    rw [decide_eq_true_eq, crashLimit]
    omega
  rw [round_crash, if_neg missed, Loop.afterCrash, CrashTracker.record,
    crashLimit, if_pos (by omega)]

theorem reach_crash (few : l.crashes.timestamps.length < 4) (lifetime : Nat)
    (rest : List Fate) :
    l.reach (crash lifetime :: rest) =
      Loop.reach ⟨⟨l.crashes.timestamps ++ [l.now + lifetime]⟩,
        nextBackoff l.backoff, l.now + lifetime + l.backoff⟩ rest := by
  rw [Loop.reach, round_few few]

/-- Up to four rounds get through, and each crash is recorded. -/
theorem reach_few {l : Loop} {fates : List Fate}
    (restarts : ∀ fate ∈ fates, fate.Restarts)
    (few : l.crashes.timestamps.length + fates.length ≤ 4) :
    ∃ last, l.reach fates = some last ∧
      last.crashes.timestamps.length ≤
        l.crashes.timestamps.length + fates.length ∧
      (.forkFails ∈ fates → last.crashes.timestamps.length <
        l.crashes.timestamps.length + fates.length) := by
  induction fates generalizing l with
  | nil => exact ⟨l, rfl, Nat.le_refl _, fun member => absurd member List.not_mem_nil⟩
  | cons fate rest induction =>
      obtain ⟨first, others⟩ := List.forall_mem_cons.mp restarts
      rw [List.length_cons] at few ⊢
      rcases first.cases with rfl | ⟨lifetime, rfl⟩
      · obtain ⟨last, reached, short, _⟩ := @induction
          ⟨l.crashes, nextBackoff l.backoff, l.now + l.backoff⟩ others
          (by change l.crashes.timestamps.length + _ ≤ 4; omega)
        change last.crashes.timestamps.length ≤
          l.crashes.timestamps.length + rest.length at short
        exact ⟨last, reached, by omega, fun _ => by omega⟩
      · obtain ⟨last, reached, short, fewer⟩ := @induction
          ⟨⟨l.crashes.timestamps ++ [l.now + lifetime]⟩, nextBackoff l.backoff,
            l.now + lifetime + l.backoff⟩ others
          (by rw [List.length_append, List.length_singleton]; omega)
        rw [List.length_append, List.length_singleton] at short fewer
        refine ⟨last, ?_, by omega, ?_⟩
        · rw [reach_crash (by omega)]
          exact reached
        · intro member
          rcases List.mem_cons.mp member with same | later
          · cases same
          · have less := fewer later
            omega

theorem reach_append (l : Loop) (front back : List Fate) :
    l.reach (front ++ back) =
      (l.reach front).bind fun next => next.reach back := by
  induction front generalizing l with
  | nil => rfl
  | cons fate rest induction =>
      rw [List.cons_append, Loop.reach, Loop.reach]
      cases l.round fate with
      | again pause next => exact induction next
      | stopped => rfl
      | crashLoop => rfl

/-- The head of the loop behind four crashes. -/
def fourCrashes (now : Int) (d₁ d₂ d₃ d₄ : Nat) : Loop :=
  ⟨⟨[now + d₁, now + d₁ + 2 + d₂, now + d₁ + 2 + d₂ + 4 + d₃,
      now + d₁ + 2 + d₂ + 4 + d₃ + 8 + d₄]⟩,
    32, now + d₁ + 2 + d₂ + 4 + d₃ + 8 + d₄ + 16⟩

theorem reach_fourCrashes (now : Int) (d₁ d₂ d₃ d₄ : Nat) :
    (Loop.enter now).reach ([d₁, d₂, d₃, d₄].map crash) =
      some (fourCrashes now d₁ d₂ d₃ d₄) := by
  simp only [List.map_cons]
  rw [reach_crash, reach_crash, reach_crash, reach_crash]
  · rfl
  all_goals simp [Loop.enter]

/-- The fifth crash in a row makes the flag when the children before it were
quick. -/
theorem reach_fiveCrashes_iff (now : Int) (d₁ d₂ d₃ d₄ d₅ : Nat) :
    ((Loop.enter now).reach ([d₁, d₂, d₃, d₄, d₅].map crash)).isSome ↔
      30 < d₂ + d₃ + d₄ + d₅ := by
  have reached := reach_fourCrashes now d₁ d₂ d₃ d₄
  have split : [d₁, d₂, d₃, d₄, d₅].map crash =
      [d₁, d₂, d₃, d₄].map crash ++ [crash d₅] := rfl
  have flags := record_flags_iff (ordered_reach reached).sorted
    ((fourCrashes now d₁ d₂ d₃ d₄).now + d₅)
  have oldest : (fourCrashes now d₁ d₂ d₃ d₄).crashes.latest 3 =
      some (now + d₁) := rfl
  have clock : (fourCrashes now d₁ d₂ d₃ d₄).now =
      now + d₁ + 2 + d₂ + 4 + d₃ + 8 + d₄ + 16 := rfl
  rw [split, reach_append, reached, Option.bind_some, Loop.reach, round_crash]
  rw [oldest] at flags
  simp only [Option.mem_some_iff, exists_eq_left', crashWindowSec] at flags
  by_cases recorded : ((fourCrashes now d₁ d₂ d₃ d₄).crashes.record
      ((fourCrashes now d₁ d₂ d₃ d₄).now + d₅)).2 = true
  · rw [if_pos recorded]
    have quick := flags.mp recorded
    simp only [Option.isSome_none, Bool.false_eq_true, false_iff]
    omega
  · rw [if_neg recorded]
    have slow := mt flags.mpr recorded
    simp only [Loop.reach, Option.isSome_some, true_iff]
    omega

theorem five_elements {Item : Type} {items : List Item}
    (five : items.length = 5) : ∃ a b c d e, items = [a, b, c, d, e] := by
  obtain ⟨a, rest, rfl⟩ := List.exists_cons_of_length_eq_add_one five
  obtain ⟨b, c, d, e, rfl⟩ :=
    List.length_eq_four.mp (Nat.succ.inj five)
  exact ⟨a, b, c, d, e, rfl⟩

/-- Five rounds get through if no child ends well, and `fork` fails or the
crashes take more than a minute. -/
theorem five_rounds_iff (now : Int) (five : fates.length = 5) :
    ((Loop.enter now).reach fates).isSome ↔
      (∀ fate ∈ fates, fate.Restarts) ∧
        ∀ lifetimes : List Nat, fates = lifetimes.map crash →
          30 < lifetimes.tail.sum := by
  constructor
  · intro reached
    obtain ⟨last, reached⟩ := Option.isSome_iff_exists.mp reached
    refine ⟨restarts_of_reach reached, ?_⟩
    rintro lifetimes rfl
    rw [List.length_map] at five
    obtain ⟨d₁, d₂, d₃, d₄, d₅, rfl⟩ := five_elements five
    have slow := (reach_fiveCrashes_iff now d₁ d₂ d₃ d₄ d₅).mp (by rw [reached]; rfl)
    simpa [Nat.add_assoc] using slow
  · rintro ⟨restarts, slow⟩
    by_cases forks : .forkFails ∈ fates
    · obtain ⟨front, fate, rfl⟩ : ∃ front fate, fates = front ++ [fate] := by
        rcases List.eq_nil_or_concat fates with rfl | ⟨front, fate, rfl⟩
        · cases five
        · exact ⟨front, fate, List.concat_eq_append⟩
      rw [List.length_append, List.length_singleton] at five
      have inside : ∀ other ∈ front, other.Restarts := fun other member =>
        restarts other (List.mem_append_left _ member)
      obtain ⟨last, reached, _, fewer⟩ := @reach_few (Loop.enter now) front inside
        (by change 0 + front.length ≤ 4; omega)
      rw [reach_append, reached, Option.bind_some]
      rcases (restarts fate (by simp)).cases with rfl | ⟨lifetime, rfl⟩
      · rfl
      · have earlier : .forkFails ∈ front := by
          rcases List.mem_append.mp forks with member | last
          · exact member
          · cases List.mem_singleton.mp last
        have few : last.crashes.timestamps.length < 0 + front.length :=
          fewer earlier
        rw [reach_crash (by omega)]
        rfl
    · have crashes : ∃ lifetimes : List Nat, fates = lifetimes.map crash := by
        have each : ∀ fate ∈ fates, ∃ lifetime, crash lifetime = fate := by
          intro fate member
          rcases (restarts fate member).cases with rfl | ⟨lifetime, rfl⟩
          · exact absurd member forks
          · exact ⟨lifetime, rfl⟩
        have inside : fates ∈ Set.range (List.map crash) := by
          rw [Set.range_list_map]
          exact each
        obtain ⟨lifetimes, same⟩ := inside
        exact ⟨lifetimes, same.symm⟩
      obtain ⟨lifetimes, rfl⟩ := crashes
      rw [List.length_map] at five
      obtain ⟨d₁, d₂, d₃, d₄, d₅, rfl⟩ := five_elements five
      apply (reach_fiveCrashes_iff now d₁ d₂ d₃ d₄ d₅).mpr
      simpa [Nat.add_assoc] using slow _ rfl

/-- At most four rounds are followed by another one: there are no more, a child
among the first five ends well, or the fifth crash makes the flag. -/
def FewRounds (fates : List Fate) : Prop :=
  fates.length < 5 ∨ (∃ fate ∈ fates.take 5, ¬fate.Restarts) ∨
    ∃ lifetimes : List Nat, fates.take 5 = lifetimes.map crash ∧
      lifetimes.tail.sum ≤ 30

theorem pauses_capped_iff (now : Int) (fates : List Fate) :
    (∀ pause ∈ (Loop.enter now).pauses fates, pause ≤ restartBackoffMax) ↔
      FewRounds fates := by
  rw [pauses_short_iff, ← not_le, le_length_pauses_iff, FewRounds]
  by_cases short : fates.length < 5
  · exact iff_of_true (fun five => absurd five.1 (not_le.mpr short)) (.inl short)
  · have five : (fates.take 5).length = 5 := by
      rw [List.length_take]
      omega
    rw [five_rounds_iff now five]
    simp only [not_lt.mp short, short, true_and, false_or, not_and_or, not_forall,
      not_lt, exists_prop]

/-- The pauses stay below the cap exactly in runs of few rounds, and a crash
loop is stopped exactly when its crashes are counted in time. -/
theorem restart_policy_iff (now : Int) (fates : List Fate) :
    ((∀ pause ∈ (Loop.enter now).pauses fates, pause ≤ restartBackoffMax) ↔
      FewRounds fates) ∧
    ∀ l, (Loop.enter now).reach fates = some l →
      (StopsCrashLoop l ↔ ∃ i ≤ 4, Due l i) := by
  refine ⟨pauses_capped_iff now fates, ?_⟩
  intro l reached
  exact stopsCrashLoop_iff (ordered_reach reached)

theorem first_crash_loop_is_stopped : StopsCrashLoop (Loop.enter 0) := by
  apply ((restart_policy_iff 0 []).2 _ rfl).mpr
  exact ⟨4, Nat.le_refl 4, rfl, by decide⟩

/-- Five crashes far apart lead to a pause of 32 seconds, and two are enough for
a crash loop that is never stopped. -/
theorem restart_policy_fails :
    (¬∀ now fates, ∀ pause ∈ (Loop.enter now).pauses fates,
      pause ≤ restartBackoffMax) ∧
    ¬∀ now fates l, (Loop.enter now).reach fates = some l →
      StopsCrashLoop l := by
  constructor
  · intro capped
    have pause := capped 0 (List.replicate 5 (crash 100)) 32 (by decide)
    exact absurd pause (by decide)
  · intro stops
    have stopped := stops 0 [crash 100, crash 100]
      ⟨⟨[100, 202]⟩, 8, 206⟩ (by rfl)
    have flags := stopped (List.replicate 10 1) rfl (by decide)
    exact absurd flags (by decide)

end Dpid.Launcher
