import Hnc.Httpd.RateLimitGc
import Hnc.Httpd.RateLimitLock
import Hnc.Lib.TokenBucket

/-!
# What the buckets let through

The bucket of an IP holds twenty tokens and gains twenty in a second.  An entry
that `gc` has removed was full by then, so that it may be created full again; one
that was evicted for capacity may not have been.  Requests of IPs that find no
entry share one bucket of fifty.
-/

namespace Httpd

open Posix
open KeyMap
open TokenBucket (level Machine)

/-- The tokens are within the capacity, and the last refill is not after the
last use. -/
structure Bucketed (now : Int) (entry : RlEntry) : Prop where
  nonneg : 0 ≤ entry.unauthTokens
  atMost : entry.unauthTokens ≤ rlUnauthCapacity
  refill : entry.unauthLastRefill ≤ entry.lastSeen
  seen : entry.lastSeen ≤ now

/-- What the bucket of an entry holds; a new entry is full. -/
def entryLevel (now : Int) : Option RlEntry → Int
  | none => rlUnauthCapacity
  | some entry =>
      level rlUnauthCapacity rlUnauthRefillRate entry.unauthTokens
        entry.unauthLastRefill now

/-- The shared bucket. -/
structure Shared (now : Int) (rl : RateLimiter) : Prop where
  nonneg : 0 ≤ rl.globalTokens
  atMost : rl.globalTokens ≤ rlGlobalCapacity
  refill : rl.globalLastRefill ≤ now

def sharedLevel (now : Int) (rl : RateLimiter) : Int :=
  level rlGlobalCapacity rlGlobalRefillRate rl.globalTokens
    rl.globalLastRefill now

namespace Limiter

/-- The answer to `CheckUnauth`. -/
def answers (ip : Text) (limiter : Limiter) (timed : TimedCall) : Bool :=
  (limiter.rl.checkUnauth ip (limiter.now + timed.delay)).2.1

/-- The call finds or creates an entry of the IP. -/
def hasEntry (ip : Text) (limiter : Limiter) (timed : TimedCall) : Bool :=
  (limiter.rl.getOrCreate ip (limiter.now + timed.delay)).isSome

/-- `CheckUnauth` of the IP returns true. -/
def allowed (ip : Text) (limiter : Limiter) (timed : TimedCall) : Bool :=
  timed.call == .checkUnauth ip && limiter.answers ip timed

/-- The entry of the IP lets a request through. -/
def allowedByEntry (ip : Text) (limiter : Limiter) (timed : TimedCall) :
    Bool :=
  limiter.allowed ip timed && limiter.hasEntry ip timed

/-- The shared bucket lets a request through. -/
def allowedByShared (limiter : Limiter) (timed : TimedCall) : Bool :=
  match timed.call with
  | .checkUnauth ip => limiter.answers ip timed && !limiter.hasEntry ip timed
  | _ => false

/-- The bucket of an IP as the limiter runs. -/
def entryBucket (ip : Text) : Machine Limiter TimedCall where
  step := step
  clock := Limiter.now
  level limiter := entryLevel limiter.now (limiter.entry ip)
  takes := allowedByEntry ip

def sharedBucket : Machine Limiter TimedCall where
  step := step
  clock := Limiter.now
  level limiter := sharedLevel limiter.now limiter.rl
  takes := allowedByShared

/-- All requests of an IP that are let through. -/
def requests (ip : Text) : Machine Limiter TimedCall :=
  { entryBucket ip with takes := allowed ip }

end Limiter

/-! ### The bucket of an entry -/

theorem entryLevel_some_le (now : Int) (entry : RlEntry) :
    entryLevel now (some entry) ≤ rlUnauthCapacity :=
  TokenBucket.level_le _ _ _ _ _

theorem entryLevel_le (now : Int) (entry : Option RlEntry) :
    entryLevel now entry ≤ rlUnauthCapacity := by
  cases entry with
  | none => exact Int.le_refl _
  | some entry => exact entryLevel_some_le now entry

theorem bucketed_new (now : Int) : Bucketed now (RateLimiter.newEntry now) where
  nonneg := show 0 ≤ rlUnauthCapacity by decide
  atMost := Int.le_refl _
  refill := Int.le_refl _
  seen := Int.le_refl _

theorem entryLevel_new (now : Int) :
    entryLevel now (some (RateLimiter.newEntry now)) = rlUnauthCapacity := by
  simp [entryLevel, level, RateLimiter.newEntry]

theorem Bucketed.later {now next : Int} {entry : RlEntry}
    (bucketed : Bucketed now entry) (le : now ≤ next) : Bucketed next entry :=
  ⟨bucketed.nonneg, bucketed.atMost, bucketed.refill,
    Int.le_trans bucketed.seen le⟩

/-- A refill brings the bucket to its level. -/
theorem refill_eq_level {tokens lastRefill now rate capacity : Int}
    (atMost : tokens ≤ capacity) (past : lastRefill ≤ now) :
    RateLimiter.refill tokens (now - lastRefill) rate capacity =
      level capacity rate tokens lastRefill now := by
  rw [RateLimiter.refill, level]
  by_cases elapsed : now - lastRefill > 0
  · rw [if_pos elapsed, Int.mul_comm rate, min_comm]
  · have same : lastRefill = now := by omega
    rw [if_neg elapsed, same, sub_self, Int.mul_zero, Int.add_zero,
      min_eq_right atMost]

theorem refilled_at {lastRefill now : Int} (past : lastRefill ≤ now) :
    (if now - lastRefill > 0 then now else lastRefill) = now := by
  split <;> omega

theorem level_refilled (capacity rate tokens now : Int) :
    level capacity rate tokens now now = min capacity tokens := by
  simp [level]

/-- The entry after a refill and what was taken out. -/
def RlEntry.holding (entry : RlEntry) (tokens now : Int) : RlEntry :=
  { entry with unauthTokens := tokens, unauthLastRefill := now }

theorem entryLevel_holding {entry : RlEntry} {tokens now : Int}
    (atMost : tokens ≤ rlUnauthCapacity) :
    entryLevel now (some (entry.holding tokens now)) = tokens := by
  simp only [entryLevel, RlEntry.holding, level_refilled]
  exact min_eq_right atMost

theorem Bucketed.past {now : Int} {entry : RlEntry}
    (bucketed : Bucketed now entry) : entry.unauthLastRefill ≤ now :=
  Int.le_trans bucketed.refill bucketed.seen

theorem Bucketed.level_nonneg {now : Int} {entry : RlEntry}
    (bucketed : Bucketed now entry) : 0 ≤ entryLevel now (some entry) :=
  TokenBucket.level_nonneg (by decide) (by decide) bucketed.nonneg bucketed.past

section

variable {rl rl' : RateLimiter} {ip : Text} {now : Int} {entry : RlEntry}
  (got : rl.getOrCreate ip now = some (rl', entry))
include got

/-- A request that finds an entry takes a token if there is one. -/
theorem checkUnauth_of_entry (bucketed : Bucketed now entry) :
    ∃ left, 0 ≤ left ∧
      (rl.checkUnauth ip now).1 = rl'.setEntry ip (entry.holding left now) ∧
      left + (if (rl.checkUnauth ip now).2.1 then 1 else 0) =
        entryLevel now (some entry) := by
  have refreshed := refilled_at bucketed.past
  have levelled : RateLimiter.refill entry.unauthTokens
      (now - entry.unauthLastRefill) rlUnauthRefillRate rlUnauthCapacity =
        entryLevel now (some entry) :=
    refill_eq_level bucketed.atMost bucketed.past
  have nonneg := bucketed.level_nonneg
  simp only [RateLimiter.checkUnauth, got, levelled, refreshed]
  by_cases empty : entryLevel now (some entry) < 1
  · refine ⟨entryLevel now (some entry), nonneg, ?_, ?_⟩
    · rw [if_pos empty]
      rfl
    · rw [if_pos empty]
      simp
  · refine ⟨entryLevel now (some entry) - 1, by omega, ?_, ?_⟩
    · rw [if_neg empty]
      rfl
    · rw [if_neg empty]
      simp

/-- The entry that `getOrCreate` hands out has just been used. -/
theorem getOrCreate_seen :
    entry.lastSeen = now := by
  obtain ⟨_, ⟨_, rfl⟩ | ⟨old, _, rfl⟩⟩ := RateLimiter.getOrCreate_own got
  · rfl
  · rfl

theorem getOrCreate_level
    (bucketed : ∀ old ∈ rl.entries.lookup ip, Bucketed now old) :
    rl'.entries.lookup ip = some entry ∧ Bucketed now entry ∧
      entryLevel now (some entry) = entryLevel now (rl.entries.lookup ip) := by
  obtain ⟨stored, ⟨none, rfl⟩ | ⟨old, found, rfl⟩⟩ :=
    RateLimiter.getOrCreate_own got
  · refine ⟨stored, bucketed_new now, ?_⟩
    rw [none, entryLevel_new]
    rfl
  · have before := bucketed old found
    have refill := before.refill
    have seen := before.seen
    refine ⟨stored, ⟨before.nonneg, before.atMost, ?_, Int.le_refl _⟩, ?_⟩
    · simp only
      omega
    · rw [found]
      rfl

end

theorem bucket_countFail (entry : RlEntry) (now : Int) :
    (RateLimiter.countFail entry now).unauthTokens = entry.unauthTokens ∧
      (RateLimiter.countFail entry now).unauthLastRefill =
        entry.unauthLastRefill ∧
      (RateLimiter.countFail entry now).lastSeen = entry.lastSeen := by
  unfold RateLimiter.countFail
  dsimp only
  repeat' split
  all_goals exact ⟨rfl, rfl, rfl⟩

/-- What one call does to the entry of an IP. -/
structure EntryStep (rl next : RateLimiter) (now : Int) (ip : Text)
    (spent : Nat) (evicts : Prop) : Prop where
  bucketed : ∀ entry ∈ next.entries.lookup ip, Bucketed now entry
  pays : ¬evicts → entryLevel now (next.entries.lookup ip) + spent ≤
    entryLevel now (rl.entries.lookup ip)

variable {next : RateLimiter} {evicts : Prop}

section Calls

variable {rl : RateLimiter} {now : Int} {ip : Text}
  (bucketed : ∀ old ∈ rl.entries.lookup ip, Bucketed now old)

include bucketed

theorem EntryStep.same (same : next.entries.lookup ip = rl.entries.lookup ip) :
    EntryStep rl next now ip 0 evicts where
  bucketed := by
    rw [same]
    exact bucketed
  pays := by
    intro _
    rw [same]
    omega

omit bucketed in
/-- A new state of the entry that leaves its bucket alone. -/
theorem EntryStep.kept {entry : RlEntry}
    (stored : next.entries.lookup ip = some entry) (keeps : Bucketed now entry)
    (level : entryLevel now (some entry) = entryLevel now (rl.entries.lookup ip)) :
    EntryStep rl next now ip 0 evicts where
  bucketed := by
    intro found here
    rw [stored, Option.mem_some_iff] at here
    exact here ▸ keeps
  pays := by
    intro _
    rw [stored]
    omega

omit bucketed in
theorem EntryStep.evicted {next : RateLimiter} {spent : Nat} {evicts : Prop}
    (gone : next.entries.lookup ip = none) (victim : evicts) :
    EntryStep rl next now ip spent evicts where
  bucketed := by
    intro found here
    rw [gone] at here
    cases here
  pays := fun spared => absurd victim spared

variable {user : Text}

theorem entryStep_getOrCreate {rl' : RateLimiter} {entry : RlEntry}
    (got : rl.getOrCreate user now = some (rl', entry)) :
    EntryStep rl rl' now ip 0 (rl.WouldEvict now ip) := by
  by_cases own : user = ip
  · subst own
    obtain ⟨stored, keeps, same⟩ := getOrCreate_level got bucketed
    exact .kept stored keeps same
  · rcases RateLimiter.getOrCreate_other got (Ne.symm own) with
      same | ⟨gone, victim⟩
    · exact .same bucketed same
    · exact .evicted gone victim

omit bucketed in
/-- Storing another entry does not matter to this one. -/
theorem EntryStep.setEntry_other {rl' : RateLimiter} {spent : Nat}
    (stepped : EntryStep rl rl' now ip spent evicts) (other : ip ≠ user)
    (entry : RlEntry) :
    EntryStep rl (rl'.setEntry user entry) now ip spent evicts where
  bucketed := by
    rw [RateLimiter.lookup_setEntry, if_neg other]
    exact stepped.bucketed
  pays := by
    rw [RateLimiter.lookup_setEntry, if_neg other]
    exact stepped.pays

theorem entryStep_checkUnauth :
    EntryStep rl (rl.checkUnauth ip now).1 now ip
      (if (rl.checkUnauth ip now).2.1 && (rl.getOrCreate ip now).isSome then 1
        else 0) (rl.WouldEvict now ip) := by
  cases got : rl.getOrCreate ip now with
  | none =>
      have none : (if (rl.checkUnauth ip now).2.1 &&
          (none : Option (RateLimiter × RlEntry)).isSome then 1 else 0) = 0 := by
        simp
      rw [none]
      apply EntryStep.same bucketed
      simp only [RateLimiter.checkUnauth, got]
      split <;> rfl
  | some result =>
      obtain ⟨rl', entry⟩ := result
      obtain ⟨stored, keeps, same⟩ := getOrCreate_level got bucketed
      have bounded := entryLevel_some_le now entry
      have seen := getOrCreate_seen got
      obtain ⟨left, nonneg, next, spent⟩ := checkUnauth_of_entry got keeps
      have atMost : left ≤ rlUnauthCapacity := by
        split at spent <;> omega
      have stored : (rl.checkUnauth ip now).1.entries.lookup ip =
          some (entry.holding left now) := by
        rw [next, RateLimiter.lookup_setEntry, if_pos rfl]
      constructor
      case bucketed =>
          intro found here
          rw [stored, Option.mem_some_iff] at here
          subst here
          exact ⟨nonneg, atMost, seen.ge, keeps.seen⟩
      case pays =>
          intro _
          rw [stored, entryLevel_holding atMost, ← same, ← spent]
          simp

theorem entryStep_registerPinFail (user : Text) :
    EntryStep rl (rl.registerPinFail user now).1 now ip 0
      (rl.WouldEvict now ip) := by
  rw [RateLimiter.registerPinFail]
  cases got : rl.getOrCreate user now with
  | none => exact .same bucketed rfl
  | some result =>
      obtain ⟨rl', entry⟩ := result
      by_cases own : ip = user
      · subst own
        obtain ⟨_, keeps, same⟩ := getOrCreate_level got bucketed
        obtain ⟨tokens, refill, seen⟩ := bucket_countFail entry now
        have stored : (rl'.setEntry ip
            (RateLimiter.countFail entry now)).entries.lookup ip =
              some (RateLimiter.countFail entry now) := by
          rw [RateLimiter.lookup_setEntry, if_pos rfl]
        refine .kept stored ⟨?_, ?_, ?_, ?_⟩ ?_
        · rw [tokens]
          exact keeps.nonneg
        · rw [tokens]
          exact keeps.atMost
        · rw [refill, seen]
          exact keeps.refill
        · rw [seen]
          exact keeps.seen
        · rw [← same, entryLevel, tokens, refill]
          rfl
      · exact (entryStep_getOrCreate bucketed got).setEntry_other own _

theorem entryStep_resetPin (user : Text) :
    EntryStep rl (rl.resetPin user) now ip 0 evicts := by
  rw [RateLimiter.resetPin]
  cases found : rl.entries.lookup user with
  | none => exact .same bucketed rfl
  | some entry =>
      by_cases own : ip = user
      · subst own
        have keeps := bucketed entry found
        have stored : (rl.setEntry ip { entry with
            pinAttempts := 0
            pinLockTS := 0
            pinWindowStart := 0 }).entries.lookup ip = some { entry with
              pinAttempts := 0
              pinLockTS := 0
              pinWindowStart := 0 } := by
          rw [RateLimiter.lookup_setEntry, if_pos rfl]
        refine .kept stored
          ⟨keeps.nonneg, keeps.atMost, keeps.refill, keeps.seen⟩ ?_
        rw [found]
        rfl
      · apply EntryStep.same bucketed
        rw [RateLimiter.lookup_setEntry, if_neg own]

theorem entryStep_checkUnauth_other (other : ip ≠ user) :
    EntryStep rl (rl.checkUnauth user now).1 now ip 0
      (rl.WouldEvict now ip) := by
  rw [RateLimiter.checkUnauth]
  cases got : rl.getOrCreate user now with
  | none =>
      simp only
      split <;> exact .same bucketed rfl
  | some result =>
      have stepped := entryStep_getOrCreate bucketed got
      simp only
      split <;> exact stepped.setEntry_other other _

theorem entryStep_gc : EntryStep rl (rl.gc now) now ip 0 evicts := by
  have after := RateLimiter.lookup_gc rl now ip
  by_cases victim : ip ∈ rl.victims now
  · rw [if_pos victim] at after
    obtain ⟨entry, found, _, idle⟩ := Linked.mem_victims victim
    have keeps := bucketed entry found
    have nonneg := keeps.nonneg
    have refill := keeps.refill
    constructor
    case bucketed =>
        intro entry here
        rw [after] at here
        cases here
    case pays =>
        intro _
        rw [after, found]
        simp only [entryLevel, level, rlUnauthCapacity, rlUnauthRefillRate,
          rlEntryTTL] at idle ⊢
        omega
  · rw [if_neg victim] at after
    exact .same bucketed after

end Calls

theorem EntryStep.imp {rl : RateLimiter} {now : Int} {ip : Text} {spent : Nat}
    {other : Prop} (stepped : EntryStep rl next now ip spent evicts)
    (weaker : evicts → other) : EntryStep rl next now ip spent other :=
  ⟨stepped.bucketed, fun spared => stepped.pays fun victim =>
    spared (weaker victim)⟩

theorem entryStep_apply {limiter : Limiter} {ip : Text} (timed : TimedCall)
    (bucketed : ∀ old ∈ limiter.entry ip,
      Bucketed (limiter.now + timed.delay) old) :
    EntryStep limiter.rl (limiter.step timed).rl (limiter.now + timed.delay) ip
      ((Limiter.entryBucket ip).spent limiter timed)
      (limiter.Evicts ip timed) := by
  obtain ⟨delay, call⟩ := timed
  have idle : ∀ {other : Call}, other ≠ .checkUnauth ip →
      (Limiter.entryBucket ip).spent limiter ⟨delay, other⟩ = 0 := by
    intro other different
    simp [Machine.spent, Limiter.entryBucket, Limiter.allowedByEntry,
      Limiter.allowed, different]
  have uses : ∀ {other : Call} {user : Text}, other.user = some user →
      limiter.rl.WouldEvict (limiter.now + delay) ip →
      limiter.Evicts ip ⟨delay, other⟩ := by
    intro other user isUser victim
    refine ⟨?_, victim⟩
    simp [isUser]
  cases call with
  | checkPinVerify user =>
      simp only [Limiter.step, Limiter.apply, RateLimiter.checkPinVerify_fst]
      cases got : limiter.rl.getOrCreate user (limiter.now + delay) with
      | none => exact .same bucketed rfl
      | some result =>
          exact (entryStep_getOrCreate bucketed got).imp (uses rfl)
  | registerPinFail user =>
      exact (entryStep_registerPinFail bucketed user).imp (uses rfl)
  | resetPin user =>
      exact entryStep_resetPin bucketed user
  | checkUnauth user =>
      by_cases own : ip = user
      · subst own
        have spent : (Limiter.entryBucket ip).spent limiter
            ⟨delay, .checkUnauth ip⟩ =
              if (limiter.rl.checkUnauth ip (limiter.now + delay)).2.1 &&
                (limiter.rl.getOrCreate ip (limiter.now + delay)).isSome then 1
              else 0 := by
          simp [Machine.spent, Limiter.entryBucket, Limiter.allowedByEntry,
            Limiter.allowed, Limiter.answers, Limiter.hasEntry]
        rw [spent]
        exact (entryStep_checkUnauth bucketed).imp (uses rfl)
      · rw [idle (by simpa using Ne.symm own)]
        exact (entryStep_checkUnauth_other bucketed own).imp (uses rfl)
  | gc =>
      exact entryStep_gc bucketed

theorem entryBucket_governed (ip : Text) :
    (Limiter.entryBucket ip).Governed rlUnauthCapacity rlUnauthRefillRate
      (fun limiter => ∀ entry ∈ limiter.entry ip, Bucketed limiter.now entry)
      (fun limiter timed => ¬limiter.Evicts ip timed) where
  gains := by decide
  nonneg := by
    intro limiter bucketed
    simp only [Limiter.entryBucket]
    cases found : limiter.entry ip with
    | none => exact show 0 ≤ rlUnauthCapacity by decide
    | some entry => exact (bucketed entry found).level_nonneg
  atMost := fun limiter _ => entryLevel_le _ _
  runs := by
    intro limiter timed
    simp only [Limiter.entryBucket, Limiter.step]
    omega
  preserved := by
    intro limiter timed bucketed
    refine (entryStep_apply timed fun entry found =>
      (bucketed entry found).later (by omega)).bucketed
  pays := by
    intro limiter timed bucketed spared
    have stepped := entryStep_apply timed fun entry found =>
      (bucketed entry found).later (by omega)
    have paid := stepped.pays spared
    have bounded := entryLevel_le (limiter.now + timed.delay)
      (limiter.entry ip)
    have gained : entryLevel (limiter.now + timed.delay) (limiter.entry ip) ≤
        entryLevel limiter.now (limiter.entry ip) +
          rlUnauthRefillRate * (limiter.now + timed.delay - limiter.now) := by
      cases limiter.entry ip with
      | none =>
          have some : 0 ≤ rlUnauthRefillRate *
              (limiter.now + timed.delay - limiter.now) :=
            Int.mul_nonneg (by decide) (by omega)
          simp only [entryLevel]
          omega
      | some entry =>
          exact TokenBucket.level_later (by decide) _ _ (by omega)
    apply le_min
    · exact Int.le_trans paid bounded
    · exact Int.le_trans paid gained

end Httpd
