import Hnc.Httpd.RateLimit

/-!
# Five failures lock an IP

`RegisterPinFail` counts in a fixed window: it starts at a failure, and the first
failure more than a minute later starts the next one.  The count is lost with
the entry when another IP evicts it.  Five failures in one window of an entry
that stays lock the IP.
-/

namespace Httpd

open Posix
open KeyMap

/-- The IP for which a call finds or creates the entry. -/
def Call.user : Call → Option Text
  | .checkPinVerify ip | .registerPinFail ip | .checkUnauth ip => some ip
  | .resetPin _ | .gc => none

/-- The counter of an entry. -/
structure SamePin (old new : RlEntry) : Prop where
  attempts : new.pinAttempts = old.pinAttempts
  window : new.pinWindowStart = old.pinWindowStart
  lock : new.pinLockTS = old.pinLockTS

theorem SamePin.refl (entry : RlEntry) : SamePin entry entry :=
  ⟨rfl, rfl, rfl⟩

def RlEntry.seenAt (entry : RlEntry) (now : Int) : RlEntry :=
  { entry with lastSeen := now }

namespace RateLimiter

variable {rl : RateLimiter} {now : Int} {ip : Text}

/-- A call that does not fail or reset `ip`, evict it or collect it keeps its
counter and does not make it older. -/
theorem apply_keeps {old : RlEntry} (found : rl.entries.lookup ip = some old)
    (call : Call) (notFail : call ≠ .registerPinFail ip)
    (notReset : call ≠ .resetPin ip)
    (notEvicted : call.user ≠ none → ¬rl.WouldEvict now ip)
    (recent : now - old.lastSeen ≤ rlEntryTTL) :
    ∃ new, (Limiter.apply rl now call).entries.lookup ip = some new ∧
      SamePin old new ∧ (new.lastSeen = old.lastSeen ∨ new.lastSeen = now) := by
  -- The entry after `getOrCreate`, whoever calls it.
  have touched : ∀ user rl' entry, call.user = some user →
      rl.getOrCreate user now = some (rl', entry) →
      ∃ new, rl'.entries.lookup ip = some new ∧ SamePin old new ∧
        (new.lastSeen = old.lastSeen ∨ new.lastSeen = now) ∧
        (user = ip → new = entry) := by
    intro user rl' entry isUser got
    by_cases own : user = ip
    · subst own
      obtain ⟨stored, fresh | ⟨same, known, rfl⟩⟩ := getOrCreate_own got
      · rw [found] at fresh
        cases fresh.1
      · rw [found] at known
        cases known
        exact ⟨_, stored, ⟨rfl, rfl, rfl⟩, .inr rfl, fun _ => rfl⟩
    · have evictable := notEvicted (by rw [isUser]; simp)
      rcases getOrCreate_other got (Ne.symm own) with same | ⟨_, evicts⟩
      · rw [found] at same
        exact ⟨old, same, .refl old, .inl rfl, fun isOwn => absurd isOwn own⟩
      · exact absurd evicts evictable
  cases call with
  | checkPinVerify user =>
      simp only [Limiter.apply, checkPinVerify_fst]
      cases got : rl.getOrCreate user now with
      | none => exact ⟨old, found, .refl old, .inl rfl⟩
      | some result =>
          obtain ⟨new, stored, same, seen, _⟩ :=
            touched user result.1 result.2 rfl got
          exact ⟨new, stored, same, seen⟩
  | registerPinFail user =>
      have other : user ≠ ip := fun same => notFail (by rw [same])
      simp only [Limiter.apply, registerPinFail]
      cases got : rl.getOrCreate user now with
      | none => exact ⟨old, found, .refl old, .inl rfl⟩
      | some result =>
          obtain ⟨new, stored, same, seen, _⟩ :=
            touched user result.1 result.2 rfl got
          refine ⟨new, ?_, same, seen⟩
          rw [lookup_setEntry, if_neg (Ne.symm other)]
          exact stored
  | resetPin user =>
      have other : user ≠ ip := fun same => notReset (by rw [same])
      simp only [Limiter.apply, resetPin]
      cases rl.entries.lookup user with
      | none => exact ⟨old, found, .refl old, .inl rfl⟩
      | some entry =>
          refine ⟨old, ?_, .refl old, .inl rfl⟩
          rw [lookup_setEntry, if_neg (Ne.symm other)]
          exact found
  | checkUnauth user =>
      simp only [Limiter.apply, checkUnauth]
      cases got : rl.getOrCreate user now with
      | none =>
          dsimp only
          split <;> exact ⟨old, found, .refl old, .inl rfl⟩
      | some result =>
          obtain ⟨new, stored, same, seen, isOwn⟩ :=
            touched user result.1 result.2 rfl got
          dsimp only
          by_cases own : user = ip
          · subst own
            cases isOwn rfl
            split
            all_goals
              rw [lookup_setEntry, if_pos rfl]
              exact ⟨_, rfl, ⟨same.attempts, same.window, same.lock⟩, seen⟩
          · split
            all_goals
              refine ⟨new, ?_, same, seen⟩
              rw [lookup_setEntry, if_neg (Ne.symm own)]
              exact stored
  | gc =>
      refine ⟨old, ?_, .refl old, .inl rfl⟩
      rw [Limiter.apply, lookup_gc, if_neg (not_mem_victims found (.inr recent))]
      exact found

theorem registerPinFail_found {old : RlEntry}
    (found : rl.entries.lookup ip = some old) :
    (rl.registerPinFail ip now).1.entries.lookup ip =
      some (countFail (old.seenAt now) now) := by
  rw [registerPinFail, getOrCreate_of_found found]
  simp [RlEntry.seenAt]

/-- In a window that has not expired a failure is added to the others. -/
theorem countFail_in_window {entry : RlEntry} {now : Int}
    (inside : now ≤ entry.pinWindowStart + rlPinWindow) :
    (countFail entry now).pinAttempts = entry.pinAttempts + 1 ∧
      (countFail entry now).pinWindowStart = entry.pinWindowStart ∧
      (countFail entry now).lastSeen = entry.lastSeen ∧
      (rlPinAttemptsMax ≤ entry.pinAttempts + 1 →
        (countFail entry now).pinLockTS = now + rlPinLockDuration) := by
  have sameWindow : ¬now - entry.pinWindowStart > rlPinWindow := by omega
  simp only [countFail, if_neg sameWindow]
  split
  · exact ⟨rfl, rfl, rfl, fun _ => rfl⟩
  · rename_i few
    exact ⟨rfl, rfl, rfl, fun enough => absurd enough few⟩

theorem countFail_counts (entry : RlEntry) (now : Int) :
    1 ≤ (countFail entry now).pinAttempts ∧
      (countFail entry now).lastSeen = entry.lastSeen := by
  unfold countFail
  split
  all_goals
    dsimp only
    split
    all_goals exact ⟨by simp, rfl⟩

/-- After a failure the entry, if there is one, counts it. -/
theorem registerPinFail_own {entry : RlEntry}
    (stored : (rl.registerPinFail ip now).1.entries.lookup ip = some entry) :
    1 ≤ entry.pinAttempts ∧ entry.lastSeen = now := by
  unfold registerPinFail at stored
  cases got : rl.getOrCreate ip now with
  | none =>
      simp only [got] at stored
      rw [getOrCreate_of_found stored] at got
      cases got
  | some result =>
      simp only [got, lookup_setEntry, if_true, Option.some.injEq] at stored
      obtain ⟨counts, seen⟩ := countFail_counts result.2 now
      rw [← stored]
      refine ⟨counts, seen.trans ?_⟩
      obtain ⟨_, ⟨_, fresh⟩ | ⟨old, _, touched⟩⟩ := getOrCreate_own got
      · rw [fresh]
        rfl
      · rw [touched]

end RateLimiter

namespace Limiter

def entry (limiter : Limiter) (ip : Text) : Option RlEntry :=
  limiter.rl.entries.lookup ip

/-- The call makes room by evicting `ip`. -/
def Evicts (ip : Text) (limiter : Limiter) (timed : TimedCall) : Prop :=
  timed.call.user ≠ none ∧
    limiter.rl.WouldEvict (limiter.now + timed.delay) ip

/-- At least `fails` failures are counted in the window from `window` on, and
the entry has been used since `used`. -/
def Counted (ip : Text) (window used : Int) (fails : Nat)
    (limiter : Limiter) : Prop :=
  ∃ entry, limiter.entry ip = some entry ∧ fails ≤ entry.pinAttempts ∧
    entry.pinWindowStart = window ∧ used ≤ entry.lastSeen ∧
    used ≤ limiter.now

def failures (ip : Text) (calls : List TimedCall) : Nat :=
  calls.countP fun timed => timed.call == .registerPinFail ip

theorem run_now_le (limiter : Limiter) (calls : List TimedCall) :
    limiter.now ≤ (limiter.run calls).now := by
  induction calls generalizing limiter with
  | nil => exact Int.le_refl _
  | cons first rest induction =>
      have later : limiter.now ≤ (limiter.step first).now := by
        simp only [step]
        omega
      exact Int.le_trans later (induction (limiter.step first))

section

variable {ip : Text} {window used : Int} {fails : Nat} {limiter : Limiter}
  (counted : Counted ip window used fails limiter)
include counted

/-- One call inside the window: a failure raises the count. -/
theorem step_counted (timed : TimedCall) (notReset : timed.call ≠ .resetPin ip)
    (kept : ¬limiter.Evicts ip timed)
    (minute : (limiter.step timed).now ≤ used + rlPinWindow)
    (inside : (limiter.step timed).now ≤ window + rlPinWindow) :
    Counted ip window used (fails + failures ip [timed])
      (limiter.step timed) := by
  obtain ⟨entry, found, enough, sameWindow, recent, past⟩ := counted
  simp only [step] at minute inside
  have stillPast : used ≤ (limiter.step timed).now := by
    simp only [step]
    omega
  by_cases isFail : timed.call = .registerPinFail ip
  · have one : failures ip [timed] = 1 := by
      simp [failures, isFail]
    have inWindow : limiter.now + timed.delay ≤
        entry.pinWindowStart + rlPinWindow := by omega
    obtain ⟨attempts, start, seen, _⟩ :=
      @RateLimiter.countFail_in_window
        (entry.seenAt (limiter.now + timed.delay)) _ inWindow
    have stored : (limiter.step timed).entry ip = some (RateLimiter.countFail
        (entry.seenAt (limiter.now + timed.delay))
        (limiter.now + timed.delay)) := by
      simp only [step, isFail]
      exact RateLimiter.registerPinFail_found found
    refine ⟨_, stored, ?_, ?_, ?_, stillPast⟩
    · rw [one, attempts]
      exact Nat.add_le_add_right enough 1
    · rw [start]
      exact sameWindow
    · rw [seen]
      exact stillPast
  · have zero : failures ip [timed] = 0 := by
      simp [failures, isFail]
    have live : limiter.now + timed.delay - entry.lastSeen ≤ rlEntryTTL := by
      simp only [rlPinWindow, rlEntryTTL] at minute ⊢
      omega
    obtain ⟨new, stored, same, seen⟩ :=
      RateLimiter.apply_keeps found timed.call isFail notReset
        (fun uses evicts => kept ⟨uses, evicts⟩) live
    refine ⟨new, stored, ?_, ?_, ?_, stillPast⟩
    · rw [zero, same.attempts]
      exact enough
    · rw [same.window]
      exact sameWindow
    · rcases seen with old | now
      · omega
      · rw [now]
        exact stillPast

theorem run_counted (calls : List TimedCall)
    (notReset : ∀ timed ∈ calls, timed.call ≠ .resetPin ip)
    (kept : Runs.Guarded step (fun state timed => ¬state.Evicts ip timed)
      limiter calls) (minute : (limiter.run calls).now ≤ used + rlPinWindow)
    (inside : (limiter.run calls).now ≤ window + rlPinWindow) :
    Counted ip window used (fails + failures ip calls)
      (limiter.run calls) := by
  induction calls generalizing limiter fails with
  | nil => exact counted
  | cons first rest induction =>
      have later := run_now_le (limiter.step first) rest
      have same : limiter.run (first :: rest) =
          (limiter.step first).run rest := rfl
      rw [same] at minute inside ⊢
      have next := step_counted counted first (notReset first (by simp))
        kept.1 (by omega) (by omega)
      have total : failures ip (first :: rest) =
          failures ip [first] + failures ip rest := by
        simp only [failures, List.countP_cons, List.countP_nil]
        omega
      rw [total, ← Nat.add_assoc]
      exact induction next
        (fun timed member => notReset timed (by simp [member])) kept.2
        minute inside

end

/-- Five failures of an IP within a minute lock it for the next ten minutes, if
the first of them has found room for its entry, the others fall into the window
that is open after the first, no call in between resets the counter, and no
other IP evicts the entry. -/
theorem five_failures_lock (now : Int) (before : List TimedCall) (ip : Text)
    (delay : Nat) (between : List TimedCall) (lastDelay : Nat)
    {first last : Limiter} (entry : RlEntry)
    (atFirst : first =
      ((start now).run before).step ⟨delay, .registerPinFail ip⟩)
    (atLast : last =
      first.run (between ++ [⟨lastDelay, .registerPinFail ip⟩]))
    (room : first.entry ip = some entry)
    (five : 3 ≤ failures ip between)
    (notReset : ∀ timed ∈ between, timed.call ≠ .resetPin ip)
    (kept : Runs.Guarded step (fun state timed => ¬state.Evicts ip timed)
      first (between ++ [⟨lastDelay, .registerPinFail ip⟩]))
    (minute : last.now ≤ first.now + rlPinWindow)
    (window : last.now ≤ entry.pinWindowStart + rlPinWindow)
    (wait : Nat) (soon : wait < rlPinLockDuration) :
    (last.rl.checkPinVerify ip (last.now + wait)).2.1 = false := by
  have firstStored : (((start now).run before).rl.registerPinFail ip
      first.now).1.entries.lookup ip = some entry := by
    rw [atFirst] at room ⊢
    exact room
  obtain ⟨one, seen⟩ := RateLimiter.registerPinFail_own firstStored
  have counted : Counted ip entry.pinWindowStart first.now 1 first :=
    ⟨entry, room, one, rfl, Int.le_of_eq seen.symm, Int.le_refl _⟩
  obtain ⟨keptBetween, _⟩ := Runs.guarded_append.mp kept
  -- The last failure completes the five.
  have lastStep : last = (first.run between).step
      ⟨lastDelay, .registerPinFail ip⟩ := by
    rw [atLast]
    simp [run]
  have monotone : (first.run between).now ≤ last.now := by
    rw [lastStep]
    exact run_now_le _ [⟨lastDelay, .registerPinFail ip⟩]
  obtain ⟨found, stored, enough, sameWindow, _, _⟩ :=
    run_counted counted between notReset keptBetween (by omega) (by omega)
  have lastNow : last.now = (first.run between).now + lastDelay := by
    rw [lastStep]
    rfl
  have inWindow : last.now ≤
      (found.seenAt last.now).pinWindowStart + rlPinWindow := by
    simp only [RlEntry.seenAt, sameWindow]
    exact window
  obtain ⟨_, _, _, locks⟩ := RateLimiter.countFail_in_window inWindow
  have locked := locks (by
    simp only [RlEntry.seenAt, rlPinAttemptsMax]
    omega)
  have lastStored : last.entry ip = some
      (RateLimiter.countFail (found.seenAt last.now) last.now) := by
    rw [lastNow, lastStep]
    exact RateLimiter.registerPinFail_found stored
  refine RateLimiter.checkPinVerify_locked lastStored ?_
  rw [locked]
  omega

def attacker : Text := "192.168.43.7".toList

/-- Failures at 100, 155, 158 and 160, and then two more at 161 and 162. -/
def acrossWindows : List TimedCall :=
  [⟨0, .registerPinFail attacker⟩, ⟨55, .registerPinFail attacker⟩,
    ⟨3, .registerPinFail attacker⟩, ⟨2, .registerPinFail attacker⟩,
    ⟨1, .registerPinFail attacker⟩, ⟨1, .registerPinFail attacker⟩]

/-- Five failures within seven seconds do not lock the IP when the window ends
between them. -/
theorem five_failures_across_windows :
    failures attacker (acrossWindows.drop 1) = 5 ∧
      ((start 100).run (acrossWindows.take 2)).now = 155 ∧
      ((start 100).run acrossWindows).now = 162 ∧
      (((start 100).run acrossWindows).rl.checkPinVerify attacker 162).2.1 =
        true := by
  decide +kernel

/-- Five failures at once. -/
theorem five_failures_at_once :
    (((start 100).run (List.replicate 5
      ⟨0, .registerPinFail attacker⟩)).rl.checkPinVerify attacker
      (((start 100).run (List.replicate 5
        ⟨0, .registerPinFail attacker⟩)).now + 0)).2.1 = false := by
  refine five_failures_lock 100 [] attacker 0
    (List.replicate 3 ⟨0, .registerPinFail attacker⟩) 0
    ⟨1, 100, 0, 20, 100, 100⟩ rfl rfl ?_ ?_ ?_ ?_ ?_ ?_ 0 ?_
  · decide +kernel
  · decide +kernel
  · decide +kernel
  · refine ⟨?_, ?_, ?_, ?_, trivial⟩
    all_goals
      intro evicts
      exact absurd evicts.2.1 (by decide +kernel)
  · decide +kernel
  · decide +kernel
  · decide

end Limiter

end Httpd
