import Hnc.Httpd.RateLimitBuckets
import Mathlib.Data.List.Basic
import Mathlib.Data.List.Nodup

/-!
# The shared bucket

Only a request that finds no entry and no room for one takes a token from the
shared bucket.  Its tokens do not count for the bucket of the IP, so that one IP
may use all fifty of them in a second in which every entry is locked.
-/

namespace Httpd

open Posix
open KeyMap
open TokenBucket (Machine)

/-- The shared bucket is as it was. -/
structure SameShared (rl next : RateLimiter) : Prop where
  tokens : next.globalTokens = rl.globalTokens
  refill : next.globalLastRefill = rl.globalLastRefill

theorem SameShared.refl (rl : RateLimiter) : SameShared rl rl :=
  ⟨rfl, rfl⟩

variable {rl : RateLimiter} {now : Int} {ip : Text}

namespace RateLimiter

theorem room_sameShared {roomy : RateLimiter} (made : rl.room now = some roomy) :
    SameShared rl roomy := by
  unfold room at made
  split at made
  · simp only [evictOldestLocked, Option.map_eq_some_iff] at made
    obtain ⟨victim, _, rfl⟩ := made
    exact ⟨rfl, rfl⟩
  · cases made
    exact .refl rl

theorem getOrCreate_sameShared {rl' : RateLimiter} {entry : RlEntry}
    (got : rl.getOrCreate ip now = some (rl', entry)) : SameShared rl rl' := by
  cases found : rl.entries.lookup ip with
  | some old =>
      rw [getOrCreate_of_found found] at got
      cases got
      exact ⟨rfl, rfl⟩
  | none =>
      simp only [getOrCreate, found, Option.map_eq_some_iff] at got
      obtain ⟨roomy, made, same⟩ := got
      cases same
      have kept := room_sameShared made
      exact ⟨kept.tokens, kept.refill⟩

theorem foldl_remove_sameShared (rl : RateLimiter) (ips : List Text) :
    SameShared rl (ips.foldl remove rl) := by
  induction ips generalizing rl with
  | nil => exact .refl rl
  | cons first rest induction =>
      have later := induction (rl.remove first)
      exact ⟨later.tokens, later.refill⟩

/-- A request that finds no room takes a token if there is one. -/
theorem checkUnauth_refused (refused : rl.getOrCreate ip now = none)
    (shared : Shared now rl) :
    ∃ left, 0 ≤ left ∧
      (rl.checkUnauth ip now).1 =
        { rl with globalTokens := left, globalLastRefill := now } ∧
      left + (if (rl.checkUnauth ip now).2.1 then 1 else 0) =
        sharedLevel now rl := by
  have refreshed := refilled_at shared.refill
  have levelled : refill rl.globalTokens (now - rl.globalLastRefill)
      rlGlobalRefillRate rlGlobalCapacity = sharedLevel now rl :=
    refill_eq_level shared.atMost shared.refill
  have nonneg : 0 ≤ sharedLevel now rl :=
    TokenBucket.level_nonneg (by decide) (by decide) shared.nonneg
      shared.refill
  simp only [checkUnauth, refused, levelled, refreshed]
  by_cases empty : sharedLevel now rl < 1
  · refine ⟨sharedLevel now rl, nonneg, ?_, ?_⟩
    · rw [if_pos empty]
    · rw [if_pos empty]
      simp
  · refine ⟨sharedLevel now rl - 1, by omega, ?_, ?_⟩
    · rw [if_neg empty]
    · rw [if_neg empty]
      simp

end RateLimiter

theorem Shared.later {next : Int} (shared : Shared now rl) (le : now ≤ next) :
    Shared next rl :=
  ⟨shared.nonneg, shared.atMost, Int.le_trans shared.refill le⟩

/-- What one call does to the shared bucket. -/
structure SharedStep (rl next : RateLimiter) (now : Int) (spent : Nat) :
    Prop where
  shared : Shared now next
  pays : sharedLevel now next + spent = sharedLevel now rl

theorem SharedStep.same {next : RateLimiter} (shared : Shared now rl)
    (same : SameShared rl next) : SharedStep rl next now 0 where
  shared := by
    constructor
    · rw [same.tokens]
      exact shared.nonneg
    · rw [same.tokens]
      exact shared.atMost
    · rw [same.refill]
      exact shared.refill
  pays := by
    rw [sharedLevel, sharedLevel, same.tokens, same.refill]
    simp

theorem sharedStep_checkUnauth (ip : Text) (shared : Shared now rl) :
    SharedStep rl (rl.checkUnauth ip now).1 now
      (if (rl.checkUnauth ip now).2.1 && !(rl.getOrCreate ip now).isSome then 1
        else 0) := by
  cases got : rl.getOrCreate ip now with
  | some result =>
      obtain ⟨rl', entry⟩ := result
      have kept := RateLimiter.getOrCreate_sameShared got
      have none : (if (rl.checkUnauth ip now).2.1 &&
          !(some (rl', entry)).isSome then 1 else 0) = 0 := by
        simp
      rw [none]
      apply SharedStep.same shared
      simp only [RateLimiter.checkUnauth, got]
      split <;> exact ⟨kept.tokens, kept.refill⟩
  | none =>
      obtain ⟨left, nonneg, next, spent⟩ :=
        RateLimiter.checkUnauth_refused got shared
      have bounded : sharedLevel now rl ≤ rlGlobalCapacity :=
        TokenBucket.level_le _ _ _ _ _
      have atMost : left ≤ rlGlobalCapacity := by
        split at spent <;> omega
      constructor
      case shared =>
          rw [next]
          exact ⟨nonneg, atMost, Int.le_refl _⟩
      case pays =>
          have full : sharedLevel now
              { rl with globalTokens := left, globalLastRefill := now } =
                left := by
            rw [sharedLevel, level_refilled]
            exact min_eq_right atMost
          rw [next, full, ← spent]
          simp

/-- One call of the limiter. -/
theorem sharedStep_apply {limiter : Limiter} (timed : TimedCall)
    (shared : Shared (limiter.now + timed.delay) limiter.rl) :
    SharedStep limiter.rl (limiter.step timed).rl (limiter.now + timed.delay)
      (Limiter.sharedBucket.spent limiter timed) := by
  obtain ⟨delay, call⟩ := timed
  cases call with
  | checkPinVerify user =>
      apply SharedStep.same shared
      simp only [Limiter.step, Limiter.apply, RateLimiter.checkPinVerify_fst]
      cases got : limiter.rl.getOrCreate user (limiter.now + delay) with
      | none => exact .refl _
      | some result => exact RateLimiter.getOrCreate_sameShared got
  | registerPinFail user =>
      apply SharedStep.same shared
      simp only [Limiter.step, Limiter.apply, RateLimiter.registerPinFail]
      cases got : limiter.rl.getOrCreate user (limiter.now + delay) with
      | none => exact .refl _
      | some result =>
          have kept := RateLimiter.getOrCreate_sameShared got
          exact ⟨kept.tokens, kept.refill⟩
  | resetPin user =>
      apply SharedStep.same shared
      simp only [Limiter.step, Limiter.apply, RateLimiter.resetPin]
      cases limiter.rl.entries.lookup user with
      | none => exact .refl _
      | some entry => exact ⟨rfl, rfl⟩
  | checkUnauth user =>
      exact sharedStep_checkUnauth user shared
  | gc =>
      apply SharedStep.same shared
      exact RateLimiter.foldl_remove_sameShared _ _

theorem sharedBucket_governed :
    Limiter.sharedBucket.Governed rlGlobalCapacity rlGlobalRefillRate
      (fun limiter => Shared limiter.now limiter.rl) (fun _ _ => True) where
  gains := by decide
  nonneg := by
    intro limiter shared
    exact TokenBucket.level_nonneg (by decide) (by decide) shared.nonneg
      shared.refill
  atMost := fun limiter _ => TokenBucket.level_le _ _ _ _ _
  runs := by
    intro limiter timed
    simp only [Limiter.sharedBucket, Limiter.step]
    omega
  preserved := by
    intro limiter timed shared
    exact (sharedStep_apply timed (shared.later (by omega))).shared
  pays := by
    intro limiter timed shared _
    have stepped := sharedStep_apply timed (shared.later (by omega))
    have paid := stepped.pays
    have gained : sharedLevel (limiter.now + timed.delay) limiter.rl ≤
        sharedLevel limiter.now limiter.rl +
          rlGlobalRefillRate * (limiter.now + timed.delay - limiter.now) :=
      TokenBucket.level_later (by decide) _ _ (by omega)
    apply le_min
    · exact Int.le_trans (Int.le_of_eq paid) (TokenBucket.level_le _ _ _ _ _)
    · exact Int.le_trans (Int.le_of_eq paid) gained

namespace Limiter

/-- The IP is not evicted by a call in the interval. -/
def Stays (ip : Text) (t1 t2 : Int) : Limiter → List TimedCall → Prop :=
  Runs.Guarded step fun limiter timed =>
    (entryBucket ip).Within t1 t2 limiter timed → ¬limiter.Evicts ip timed

/-- In every interval an entry that is not evicted lets through what its bucket
holds and gains, and so does the shared bucket. -/
theorem buckets_bound_traffic (created : Int) (calls : List TimedCall)
    (t1 t2 : Int) (ordered : t1 ≤ t2) :
    (∀ ip, Stays ip t1 t2 (start created) calls →
      ((entryBucket ip).taken t1 t2 (start created) calls : Int) ≤
        20 + 20 * (t2 - t1)) ∧
      (sharedBucket.taken t1 t2 (start created) calls : Int) ≤
        50 + 50 * (t2 - t1) := by
  constructor
  · intro ip stays
    refine (entryBucket_governed ip).taken_le (by decide) ordered ?_ stays
    intro stored found
    simp [entry, start, RateLimiter.newRateLimiter] at found
  · refine sharedBucket_governed.taken_le (by decide) ordered ?_ ?_
    · refine ⟨?_, ?_, Int.le_refl _⟩
      · exact show (0 : Int) ≤ rlGlobalCapacity by decide
      · exact Int.le_refl _
    · exact Runs.guarded_of_forall (fun _ _ _ => trivial) _ _

/-- A minute of traffic. -/
theorem buckets_bound_traffic_in_a_minute :
    (∀ ip, Stays ip 1000 1060 (start 1000) [⟨5, .checkUnauth attacker⟩] →
      ((entryBucket ip).taken 1000 1060 (start 1000)
        [⟨5, .checkUnauth attacker⟩] : Int) ≤ 20 + 20 * (1060 - 1000)) ∧
      (sharedBucket.taken 1000 1060 (start 1000)
        [⟨5, .checkUnauth attacker⟩] : Int) ≤ 50 + 50 * (1060 - 1000) :=
  buckets_bound_traffic 1000 [⟨5, .checkUnauth attacker⟩] 1000 1060 (by decide)

/-! ### A second in which every entry is locked -/

/-- The IP fails five times at once. -/
def fiveFails (ip : Text) : List TimedCall :=
  List.replicate 5 ⟨0, .registerPinFail ip⟩

def client (i : Nat) : Text :=
  "10.0.".toList ++ Nat.toDigits 10 (i / 256) ++
    '.' :: Nat.toDigits 10 (i % 256)

/-- 512 clients lock themselves out, and then another IP asks 21 times. -/
def lockedOut : List TimedCall :=
  ((List.range 512).map client).flatMap fiveFails ++
    List.replicate 21 ⟨0, .checkUnauth attacker⟩

theorem dot_not_mem_digits (n : Nat) : '.' ∉ Nat.toDigits 10 n := by
  intro member
  have digit := Nat.isDigit_of_mem_toDigits (by decide) (by decide) member
  exact absurd digit (by decide)

theorem toDigits_inj {left right : Nat}
    (same : Nat.toDigits 10 left = Nat.toDigits 10 right) : left = right := by
  have read := congrArg (fun text => Nat.ofDigitChars 10 text 0) same
  simpa only [Nat.ofDigitChars_ten_toDigits] using read

theorem client_injective : Function.Injective client := by
  intro left right same
  simp only [client, List.append_assoc, List.append_cancel_left_eq] at same
  obtain ⟨high, _, low⟩ := List.append_cons_inj_of_notMem
    (dot_not_mem_digits _) (dot_not_mem_digits _) |>.mp same
  have highs := toDigits_inj high
  have lows := toDigits_inj low
  omega

theorem attacker_not_client (i : Nat) : attacker ≠ client i := by
  intro same
  have start : attacker.take 2 = (client i).take 2 := by rw [same]
  have ten : (client i).take 2 = ['1', '0'] := rfl
  rw [ten] at start
  exact absurd start (by decide +kernel)

/-- The entry of an IP after its fifth failure. -/
def lockedEntry : RlEntry :=
  ⟨5, 1000, 1600, 20, 1000, 1000⟩

/-- Every entry is locked, and the shared bucket holds `tokens`. -/
structure AllLocked (ips : List Text) (tokens : Int) (limiter : Limiter) :
    Prop where
  now : limiter.now = 1000
  lru : limiter.rl.lru = ips.reverse
  entries : ∀ ip, limiter.entry ip =
    if ip ∈ ips then some lockedEntry else none
  tokens : limiter.rl.globalTokens = tokens
  refill : limiter.rl.globalLastRefill = 1000

/-- One more IP has an entry that is not locked yet. -/
structure Failing (ips : List Text) (ip : Text) (stored : RlEntry)
    (tokens : Int) (limiter : Limiter) : Prop where
  now : limiter.now = 1000
  lru : limiter.rl.lru = ip :: ips.reverse
  own : limiter.entry ip = some stored
  others : ∀ other, other ≠ ip → limiter.entry other =
    if other ∈ ips then some lockedEntry else none
  tokens : limiter.rl.globalTokens = tokens
  refill : limiter.rl.globalLastRefill = 1000

theorem AllLocked.first_fail {ips : List Text} {tokens : Int} {limiter : Limiter}
    (locked : AllLocked ips tokens limiter) (fresh : ip ∉ ips)
    (space : ips.length < 512) :
    Failing ips ip
      (RateLimiter.countFail (RateLimiter.newEntry 1000) 1000) tokens
      (limiter.step ⟨0, .registerPinFail ip⟩) := by
  have none : limiter.rl.entries.lookup ip = none := by
    have absent := locked.entries ip
    rwa [if_neg fresh] at absent
  have roomy : limiter.rl.room 1000 = some limiter.rl := by
    rw [RateLimiter.room, locked.lru, if_neg]
    simp only [rlMaxEntries, List.length_reverse]
    omega
  have got : limiter.rl.getOrCreate ip (limiter.now + (0 : Nat)) =
      some ({ limiter.rl.setEntry ip (RateLimiter.newEntry 1000) with
        lru := ip :: limiter.rl.lru }, RateLimiter.newEntry 1000) := by
    simp [RateLimiter.getOrCreate, none, locked.now, roomy]
  have next : (limiter.step ⟨0, .registerPinFail ip⟩).rl =
      ({ limiter.rl.setEntry ip (RateLimiter.newEntry 1000) with
        lru := ip :: limiter.rl.lru }).setEntry ip
          (RateLimiter.countFail (RateLimiter.newEntry 1000) 1000) := by
    simp only [step, apply, RateLimiter.registerPinFail, got]
    rw [locked.now]
    rfl
  constructor
  case now => simp [step, locked.now]
  case lru =>
      rw [next, ← locked.lru]
      rfl
  case own =>
      rw [entry, next, RateLimiter.lookup_setEntry, if_pos rfl]
  case others =>
      intro other different
      rw [← locked.entries other]
      simp [entry, next, different]
  case tokens =>
      rw [next]
      exact locked.tokens
  case refill =>
      rw [next]
      exact locked.refill

theorem Failing.again {ips : List Text} {stored : RlEntry} {tokens : Int}
    {limiter : Limiter} (failing : Failing ips ip stored tokens limiter) :
    Failing ips ip (RateLimiter.countFail (stored.seenAt 1000) 1000) tokens
      (limiter.step ⟨0, .registerPinFail ip⟩) := by
  have found : limiter.rl.entries.lookup ip = some stored := failing.own
  have next : (limiter.step ⟨0, .registerPinFail ip⟩).rl =
      ({ limiter.rl.setEntry ip (stored.seenAt 1000) with
        lru := ip :: limiter.rl.lru.erase ip }).setEntry ip
          (RateLimiter.countFail (stored.seenAt 1000) 1000) := by
    simp only [step, apply, RateLimiter.registerPinFail,
      RateLimiter.getOrCreate_of_found found, failing.now]
    rfl
  constructor
  case now => simp [step, failing.now]
  case lru =>
      rw [next]
      simp [failing.lru, RateLimiter.setEntry]
  case own =>
      rw [entry, next, RateLimiter.lookup_setEntry, if_pos rfl]
  case others =>
      intro other different
      rw [← failing.others other different]
      simp [entry, next, different]
  case tokens =>
      rw [next]
      exact failing.tokens
  case refill =>
      rw [next]
      exact failing.refill

theorem Failing.allLocked {ips : List Text} {tokens : Int} {limiter : Limiter}
    (failing : Failing ips ip lockedEntry tokens limiter) :
    AllLocked (ips ++ [ip]) tokens limiter where
  now := failing.now
  lru := by
    rw [failing.lru, List.reverse_append]
    rfl
  entries := by
    intro other
    by_cases own : other = ip
    · subst own
      rw [failing.own, if_pos (by simp)]
    · rw [failing.others other own]
      simp [own]
  tokens := failing.tokens
  refill := failing.refill

section

variable {ips : List Text} {tokens : Int} {limiter : Limiter}
  (locked : AllLocked ips tokens limiter)
include locked

theorem AllLocked.fiveFails (fresh : ip ∉ ips) (space : ips.length < 512) :
    AllLocked (ips ++ [ip]) tokens (limiter.run (fiveFails ip)) :=
  (locked.first_fail fresh space).again.again.again.again.allLocked

theorem AllLocked.locks (more : List Text) (distinct : (ips ++ more).Nodup)
    (space : (ips ++ more).length ≤ 512) :
    AllLocked (ips ++ more) tokens
      (limiter.run (more.flatMap Limiter.fiveFails)) := by
  induction more generalizing ips limiter with
  | nil =>
      rw [List.append_nil]
      exact locked
  | cons first rest induction =>
      have fresh : first ∉ ips := by
        intro member
        exact (List.nodup_append.mp distinct).2.2 first member first
          (by simp) rfl
      have smaller : ips.length < 512 := by
        simp only [List.length_append, List.length_cons] at space
        omega
      have next := locked.fiveFails fresh smaller
      have split : ips ++ first :: rest = ips ++ [first] ++ rest := by simp
      rw [split] at distinct space ⊢
      have rest := induction next distinct space
      exact rest

/-- A request that finds all entries locked. -/
theorem AllLocked.request (full : ips.length = 512) (fresh : ip ∉ ips)
    (some : 1 ≤ tokens) :
    AllLocked ips (tokens - 1) (limiter.step ⟨0, .checkUnauth ip⟩) ∧
      limiter.allowed ip ⟨0, .checkUnauth ip⟩ = true := by
  have absent : limiter.rl.entries.lookup ip = none := by
    have absent := locked.entries ip
    rwa [if_neg fresh] at absent
  have nobody : limiter.rl.oldestUnlocked 1000 = none := by
    rw [RateLimiter.oldestUnlocked, List.find?_eq_none]
    intro other member
    have stored := locked.entries other
    rw [locked.lru, List.reverse_reverse] at member
    rw [if_pos member, entry] at stored
    simp [stored, lockedEntry]
  have crowded : limiter.rl.room 1000 = none := by
    rw [RateLimiter.room, locked.lru, if_pos]
    · simp [RateLimiter.evictOldestLocked, nobody]
    · simp [full, rlMaxEntries]
  have got : limiter.rl.getOrCreate ip (limiter.now + (0 : Nat)) = none := by
    simp [RateLimiter.getOrCreate, absent, locked.now, crowded]
  have answer : limiter.rl.checkUnauth ip (limiter.now + (0 : Nat)) =
      ({ limiter.rl with
          globalTokens := tokens - 1, globalLastRefill := 1000 }, true, 0) := by
    have enough : ¬tokens < 1 := by omega
    simp only [RateLimiter.checkUnauth, got]
    simp [RateLimiter.refill, locked.now, locked.tokens, locked.refill, enough]
  constructor
  · have next : (limiter.step ⟨0, .checkUnauth ip⟩).rl =
        { limiter.rl with
          globalTokens := tokens - 1, globalLastRefill := 1000 } := by
      simp only [step, apply, answer]
    constructor
    case now => simp [step, locked.now]
    case lru =>
        rw [next]
        exact locked.lru
    case entries =>
        intro other
        rw [← locked.entries other, entry, next]
        rfl
    case tokens => rw [next]
    case refill => rw [next]
  · simp only [allowed, answers, answer]
    simp

end

theorem not_evicts_of_absent {limiter : Limiter}
    (absent : limiter.entry ip = none) (timed : TimedCall) :
    ¬limiter.Evicts ip timed := by
  rintro ⟨_, _, victim⟩
  have stored := List.find?_some victim
  rw [entry] at absent
  simp [absent] at stored

theorem fail_keeps_absent {limiter : Limiter} {user : Text} {delay : Nat}
    (absent : limiter.entry ip = none) (other : ip ≠ user) :
    (limiter.step ⟨delay, .registerPinFail user⟩).entry ip = none := by
  simp only [entry, step, apply, RateLimiter.registerPinFail]
  cases got : limiter.rl.getOrCreate user (limiter.now + delay) with
  | none => exact absent
  | some result =>
      simp only [RateLimiter.lookup_setEntry, if_neg other]
      rcases RateLimiter.getOrCreate_other got other with same | ⟨gone, _⟩
      · rw [same]
        exact absent
      · exact gone

theorem AllLocked.requests {ips : List Text} {tokens : Int} {limiter : Limiter}
    (locked : AllLocked ips tokens limiter) (full : ips.length = 512)
    (fresh : ip ∉ ips) (count : Nat) (enough : count ≤ tokens) :
    Stays ip 1000 1000 limiter (List.replicate count ⟨0, .checkUnauth ip⟩) ∧
      (Limiter.requests ip).taken 1000 1000 limiter
        (List.replicate count ⟨0, .checkUnauth ip⟩) = count := by
  induction count generalizing tokens limiter with
  | zero => exact ⟨trivial, rfl⟩
  | succ count induction =>
      obtain ⟨next, allowed⟩ := locked.request full fresh (by omega)
      obtain ⟨stays, taken⟩ := induction next (by omega)
      have absent : limiter.entry ip = none := by
        rw [locked.entries, if_neg fresh]
      have within : (Limiter.requests ip).Within 1000 1000 limiter
          ⟨0, .checkUnauth ip⟩ :=
        ⟨next.now.ge, next.now.le⟩
      have spent : (Limiter.requests ip).spent limiter ⟨0, .checkUnauth ip⟩ =
          1 := if_pos allowed
      rw [List.replicate_succ]
      refine ⟨⟨fun _ => not_evicts_of_absent absent _, stays⟩, ?_⟩
      rw [Machine.taken, if_pos within, spent, Nat.add_comm]
      exact congrArg (· + 1) taken

/-- Another IP asks after 512 clients have locked themselves out. -/
theorem requests_after_lockout {clients : List Text} (distinct : clients.Nodup)
    (full : clients.length = 512) (others : ip ∉ clients) (count : Nat)
    (enough : (count : Int) ≤ 50) :
    Stays ip 1000 1000 (start 1000) (clients.flatMap fiveFails ++
        List.replicate count ⟨0, .checkUnauth ip⟩) ∧
      (requests ip).taken 1000 1000 (start 1000) (clients.flatMap fiveFails ++
        List.replicate count ⟨0, .checkUnauth ip⟩) = count := by
  have calls : ∀ timed ∈ clients.flatMap fiveFails,
      ∃ user, user ≠ ip ∧ timed = ⟨0, .registerPinFail user⟩ := by
    intro timed member
    obtain ⟨user, isClient, fail⟩ := List.mem_flatMap.mp member
    refine ⟨user, ?_, List.eq_of_mem_replicate fail⟩
    rintro rfl
    exact others isClient
  have nobody : AllLocked [] 50 (start 1000) := by
    constructor
    case entries =>
        intro ip
        simp [entry, start, RateLimiter.newRateLimiter]
    all_goals rfl
  have locked := nobody.locks clients distinct full.le
  obtain ⟨stays, taken⟩ := locked.requests full others count enough
  constructor
  · apply Runs.guarded_append.mpr
    refine ⟨?_, stays⟩
    have fails : Runs.Guarded step (fun _ timed => ∃ user, user ≠ ip ∧
        timed = ⟨0, .registerPinFail user⟩) (start 1000)
          (clients.flatMap fiveFails) :=
      Runs.guarded_of_steps _ calls
    refine fails.of_invariant (fun limiter => limiter.entry ip = none)
      ?_ ?_ ?_
    · rintro limiter _ absent ⟨user, other, rfl⟩
      exact fail_keeps_absent absent (Ne.symm other)
    · intro limiter timed absent _
      exact not_evicts_of_absent absent timed
    · simp [entry, start, RateLimiter.newRateLimiter]
  · have idle : (requests ip).taken 1000 1000 (start 1000)
        (clients.flatMap fiveFails) = 0 := by
      apply Machine.taken_eq_zero
      intro limiter timed member
      obtain ⟨user, other, rfl⟩ := calls timed member
      simp [requests, allowed]
    rw [Machine.taken_append, idle, Nat.zero_add]
    exact taken

/-- All 21 requests are let through in one second, though nobody is evicted. -/
theorem shared_bucket_serves_one_ip :
    Stays attacker 1000 1000 (start 1000) lockedOut ∧
      20 + 20 * (1000 - 1000) <
        ((requests attacker).taken 1000 1000 (start 1000) lockedOut : Int) := by
  have distinct : ((List.range 512).map client).Nodup :=
    List.Nodup.map client_injective List.nodup_range
  have full : ((List.range 512).map client).length = 512 := by
    rw [List.length_map, List.length_range]
  have others : attacker ∉ (List.range 512).map client := by
    intro member
    obtain ⟨i, _, same⟩ := List.mem_map.mp member
    exact attacker_not_client i same.symm
  have enough : ((21 : Nat) : Int) ≤ 50 := by decide
  refine And.imp_right ?_
    (requests_after_lockout distinct full others 21 enough)
  intro taken
  rw [lockedOut, taken]
  decide

end Limiter

end Httpd
