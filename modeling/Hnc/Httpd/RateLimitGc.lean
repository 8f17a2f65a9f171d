import Hnc.Httpd.RateLimitRefinement
import Mathlib.Data.List.Dedup
import Mathlib.Data.List.Perm.Subperm

/-!
# Collecting old entries cannot be observed

An entry that `gc` collects is as good as a new one: its window and its lock are
over and its bucket is full again.  So the answers of a run do not depend on the
calls of `gc` in it, as long as the entries of all IPs fit.
-/

namespace Httpd

/-- The IP whose entry a call is about. -/
def Call.ip : Call → Option Posix.Text
  | .checkPinVerify ip | .registerPinFail ip | .resetPin ip
  | .checkUnauth ip => some ip
  | .gc => none

namespace Linked

open Posix
open KeyMap

/-- A call at a time of the system clock, in seconds since 1970. -/
structure ClockedCall where
  time : Nat
  call : Call
deriving DecidableEq

/-- The answers to the calls of a run; `gc` answers nobody. -/
def answers (rl : RateLimiter) : List ClockedCall → List Answer
  | [] => []
  | clocked :: rest =>
      let result := apply rl clocked.time clocked.call
      if clocked.call = .gc then answers result.1 rest
      else result.2 :: answers result.1 rest

/-! ### One entry -/

variable {next : Int}

section Entries

open Httpd.RateLimiter

def touched (entry : Option RlEntry) (now : Int) : RlEntry :=
  match entry with
  | some found => { found with lastSeen := now }
  | none => newEntry now

/-- What a call does to the entry of its own IP. -/
def own (entry : Option RlEntry) (now : Int) : Call → Option RlEntry × Answer
  | .checkPinVerify _ =>
      let entry := touched entry now
      (some entry,
        if entry.pinLockTS > now then .pinVerify false (entry.pinLockTS - now)
        else .pinVerify true 0)
  | .registerPinFail _ =>
      let entry := countFail (touched entry now) now
      (some entry,
        .pinFail (decide (entry.pinAttempts ≥ rlPinAttemptsMax))
          (rlPinAttemptsMax - entry.pinAttempts))
  | .resetPin _ =>
      (entry.map fun entry =>
        { entry with pinAttempts := 0, pinLockTS := 0, pinWindowStart := 0 },
        .reset)
  | .checkUnauth _ =>
      let entry := touched entry now
      let elapsed := now - entry.unauthLastRefill
      let tokens :=
        refill entry.unauthTokens elapsed rlUnauthRefillRate rlUnauthCapacity
      let lastRefill := if elapsed > 0 then now else entry.unauthLastRefill
      if tokens < 1 then
        (some { entry with
          unauthTokens := tokens, unauthLastRefill := lastRefill },
          .unauth false 2)
      else
        (some { entry with
          unauthTokens := tokens - 1, unauthLastRefill := lastRefill },
          .unauth true 0)
  | .gc => (entry, .collected)

/-- The bucket would be full after a refill. -/
structure Full (now : Int) (entry : RlEntry) : Prop where
  atMost : entry.unauthTokens ≤ rlUnauthCapacity
  past : entry.unauthLastRefill ≤ now
  refilled : rlUnauthCapacity ≤
    entry.unauthTokens + (now - entry.unauthLastRefill) * rlUnauthRefillRate

/-- Nothing of what the entry says matters any more. -/
structure Expired (now : Int) (entry : RlEntry) : Prop where
  window : now - entry.pinWindowStart > rlPinWindow
  lock : entry.pinLockTS ≤ now
  bucket : Full now entry

/-- The entries agree where they still matter. -/
structure Alike (now : Int) (left right : RlEntry) : Prop where
  lastSeen : left.lastSeen = right.lastSeen
  window : (left.pinAttempts = right.pinAttempts ∧
      left.pinWindowStart = right.pinWindowStart) ∨
    (now - left.pinWindowStart > rlPinWindow ∧
      now - right.pinWindowStart > rlPinWindow)
  lock : left.pinLockTS = right.pinLockTS ∨
    (left.pinLockTS ≤ now ∧ right.pinLockTS ≤ now)
  bucket : (left.unauthTokens = right.unauthTokens ∧
      left.unauthLastRefill = right.unauthLastRefill) ∨
    (Full now left ∧ Full now right)

/-- The times in an entry are not after its last use. -/
structure Timely (now : Int) (entry : RlEntry) : Prop where
  epoch : 0 ≤ entry.pinWindowStart
  window : entry.pinWindowStart ≤ entry.lastSeen
  refill : entry.unauthLastRefill ≤ entry.lastSeen
  seen : entry.lastSeen ≤ now
  tokens : 0 ≤ entry.unauthTokens ∧ entry.unauthTokens ≤ rlUnauthCapacity

/-- The entry of an IP in a run with `gc` and in the same run without it. -/
def Related (now : Int) : Option RlEntry → Option RlEntry → Prop
  | some left, some right => Alike now left right ∧ Timely now right
  | none, some right => Expired now right ∧ Timely now right
  | none, none => True
  | some _, none => False

variable {now : Int}

theorem Full.later {entry : RlEntry} (full : Full now entry) (le : now ≤ next) :
    Full next entry := by
  obtain ⟨atMost, past, refilled⟩ := full
  refine ⟨atMost, by omega, ?_⟩
  simp only [rlUnauthRefillRate] at refilled ⊢
  omega

variable {left right : Option RlEntry}

theorem Related.later (related : Related now left right) (le : now ≤ next) :
    Related next left right := by
  have timely : ∀ {entry}, Timely now entry → Timely next entry :=
    fun old => { old with seen := Int.le_trans old.seen le }
  cases left with
  | none =>
      cases right with
      | none => trivial
      | some right =>
          obtain ⟨⟨window, lock, bucket⟩, old⟩ := related
          exact ⟨⟨by omega, by omega, bucket.later le⟩, timely old⟩
  | some left =>
      cases right with
      | none => exact related.elim
      | some right =>
          obtain ⟨⟨lastSeen, window, lock, bucket⟩, old⟩ := related
          refine ⟨⟨lastSeen, ?_, ?_, ?_⟩, timely old⟩
          · exact window.imp_right fun both => by omega
          · exact lock.imp_right fun both => by omega
          · exact bucket.imp_right fun both =>
              ⟨both.1.later le, both.2.later le⟩

/-- An expired entry in use again is like a new one. -/
theorem touched_related (started : 0 ≤ now) (related : Related now left right) :
    Related now (some (touched left now)) (some (touched right now)) := by
  have fullNew : Full now (newEntry now) := by
    constructor <;> simp [newEntry]
  cases left with
  | none =>
      cases right with
      | none =>
          refine ⟨⟨rfl, .inl ⟨rfl, rfl⟩, .inl rfl, .inl ⟨rfl, rfl⟩⟩, ?_⟩
          constructor <;>
            simp [touched, newEntry, started, rlUnauthCapacity]
      | some right =>
          obtain ⟨⟨window, lock, bucket⟩, old⟩ := related
          have epoch := old.epoch
          refine ⟨⟨rfl, .inr ⟨?_, window⟩, .inr ⟨started, lock⟩,
            .inr ⟨fullNew, ⟨bucket.1, bucket.2, bucket.3⟩⟩⟩, ?_⟩
          · simp only [touched, newEntry]
            omega
          · exact ⟨old.epoch, Int.le_trans old.window old.seen,
              Int.le_trans old.refill old.seen, Int.le_refl now, old.tokens⟩
  | some left =>
      cases right with
      | none => exact related.elim
      | some right =>
          obtain ⟨⟨_, window, lock, bucket⟩, old⟩ := related
          refine ⟨⟨rfl, window, lock, ?_⟩, ?_⟩
          · exact bucket.imp_right fun both =>
              ⟨⟨both.1.1, both.1.2, both.1.3⟩, ⟨both.2.1, both.2.2, both.2.3⟩⟩
          · exact ⟨old.epoch, Int.le_trans old.window old.seen,
              Int.le_trans old.refill old.seen, Int.le_refl now, old.tokens⟩

/-- The count that a failure starts from. -/
def countBefore (entry : RlEntry) (now : Int) : Nat :=
  if now - entry.pinWindowStart > rlPinWindow then 0 else entry.pinAttempts

theorem countFail_eq (entry : RlEntry) (now : Int) :
    countFail entry now =
      { entry with
        pinAttempts := countBefore entry now + 1
        pinWindowStart :=
          if now - entry.pinWindowStart > rlPinWindow then now
          else entry.pinWindowStart
        pinLockTS :=
          if countBefore entry now + 1 ≥ rlPinAttemptsMax then
            now + rlPinLockDuration
          else entry.pinLockTS } := by
  unfold countFail countBefore
  by_cases expired : now - entry.pinWindowStart > rlPinWindow
  · simp [expired, rlPinAttemptsMax]
  · simp only [expired, if_false]
    split <;> rfl

theorem countFail_related {left right : RlEntry}
    (related : Related now (some left) (some right)) (seen : right.lastSeen = now) :
    Related now (some (countFail left now)) (some (countFail right now)) ∧
      (countFail left now).pinAttempts = (countFail right now).pinAttempts := by
  obtain ⟨⟨lastSeen, window, lock, bucket⟩, old⟩ := related
  have epoch := old.epoch
  have earlier := old.window
  have sameBucket : (left.unauthTokens = right.unauthTokens ∧
      left.unauthLastRefill = right.unauthLastRefill) ∨
      (Full now (countFail left now) ∧ Full now (countFail right now)) := by
    refine bucket.imp_right fun both => ?_
    rw [countFail_eq, countFail_eq]
    exact ⟨⟨both.1.1, both.1.2, both.1.3⟩, ⟨both.2.1, both.2.2, both.2.3⟩⟩
  have timely : Timely now (countFail right now) := by
    rw [countFail_eq]
    refine ⟨?_, ?_, old.refill, old.seen, old.tokens⟩
    all_goals
      dsimp only
      split <;> omega
  rw [countFail_eq left, countFail_eq right] at sameBucket ⊢
  rw [countFail_eq right] at timely
  rcases window with ⟨attempts, start⟩ | ⟨leftOver, rightOver⟩
  · have same : countBefore left now = countBefore right now := by
      simp [countBefore, attempts, start]
    refine ⟨⟨⟨lastSeen, .inl ⟨?_, ?_⟩, ?_, sameBucket⟩, timely⟩, ?_⟩
    · simp [same]
    · simp [start]
    · dsimp only
      rw [same]
      split
      · exact .inl rfl
      · exact lock
    · simp [same]
  · have leftCount : countBefore left now = 0 := if_pos leftOver
    have rightCount : countBefore right now = 0 := if_pos rightOver
    refine ⟨⟨⟨lastSeen, .inl ⟨?_, ?_⟩, ?_, sameBucket⟩, timely⟩, ?_⟩
    · simp [leftCount, rightCount]
    · simp [leftOver, rightOver]
    · simpa [leftCount, rightCount, rlPinAttemptsMax] using lock
    · simp [leftCount, rightCount]

/-- A bucket that is full after its refill has one token less then. -/
theorem refill_full {entry : RlEntry} (full : Full now entry) :
    refill entry.unauthTokens (now - entry.unauthLastRefill)
        rlUnauthRefillRate rlUnauthCapacity = rlUnauthCapacity ∧
      (if now - entry.unauthLastRefill > 0 then now
        else entry.unauthLastRefill) = now := by
  obtain ⟨atMost, past, refilled⟩ := full
  unfold refill
  simp only [rlUnauthRefillRate] at atMost refilled ⊢
  constructor
  · split <;> omega
  · split <;> omega

theorem lastSeen_touched (entry : Option RlEntry) (now : Int) :
    (touched entry now).lastSeen = now := by
  cases entry <;> rfl

theorem unauth_related (ip : Text)
    (related : Related now (some (touched left now)) (some (touched right now))) :
    Related now (own left now (.checkUnauth ip)).1
        (own right now (.checkUnauth ip)).1 ∧
      (own left now (.checkUnauth ip)).2 =
        (own right now (.checkUnauth ip)).2 := by
  have seen := lastSeen_touched right now
  simp only [own]
  generalize touched left now = left at related ⊢
  generalize touched right now = right at related seen ⊢
  obtain ⟨⟨lastSeen, window, lock, bucket⟩, old⟩ := related
  obtain ⟨epoch, start, last, _, tokens⟩ := old
  have bounds := RateLimiter.refill_bounds rlUnauthRefillRate
    (now - right.unauthLastRefill) tokens (by decide)
  have refilledAt : (if now - right.unauthLastRefill > 0 then now
      else right.unauthLastRefill) ≤ right.lastSeen := by
    split <;> omega
  -- The buckets are the same before the call, or full on both sides.
  have same : refill left.unauthTokens (now - left.unauthLastRefill)
        rlUnauthRefillRate rlUnauthCapacity =
      refill right.unauthTokens (now - right.unauthLastRefill)
        rlUnauthRefillRate rlUnauthCapacity ∧
      (if now - left.unauthLastRefill > 0 then now
        else left.unauthLastRefill) =
      (if now - right.unauthLastRefill > 0 then now
        else right.unauthLastRefill) := by
    rcases bucket with ⟨sameTokens, sameRefill⟩ | ⟨leftFull, rightFull⟩
    · rw [sameTokens, sameRefill]
      exact ⟨rfl, rfl⟩
    · obtain ⟨leftTokens, leftRefill⟩ := refill_full leftFull
      obtain ⟨rightTokens, rightRefill⟩ := refill_full rightFull
      rw [leftTokens, leftRefill, rightTokens, rightRefill]
      exact ⟨rfl, rfl⟩
  rw [same.1, same.2]
  split
  · refine ⟨⟨⟨lastSeen, window, lock, .inl ⟨rfl, rfl⟩⟩, ?_⟩, rfl⟩
    exact ⟨epoch, start, refilledAt, Int.le_of_eq seen, bounds⟩
  · refine ⟨⟨⟨lastSeen, window, lock, .inl ⟨rfl, rfl⟩⟩, ?_⟩, rfl⟩
    exact ⟨epoch, start, refilledAt, Int.le_of_eq seen, by dsimp only; omega⟩

theorem own_related (started : 0 ≤ now) (related : Related now left right)
    (call : Call) (notGc : call ≠ .gc) :
    Related now (own left now call).1 (own right now call).1 ∧
      (own left now call).2 = (own right now call).2 := by
  have fresh := touched_related started related
  cases call with
  | checkPinVerify ip =>
      refine ⟨fresh, ?_⟩
      simp only [own]
      rcases fresh.1.lock with same | ⟨leftOver, rightOver⟩
      · rw [same]
      · rw [if_neg (by omega), if_neg (by omega)]
  | registerPinFail ip =>
      obtain ⟨next, attempts⟩ :=
        countFail_related fresh (lastSeen_touched right now)
      refine ⟨next, ?_⟩
      simp only [own, attempts]
  | checkUnauth ip => exact unauth_related ip fresh
  | gc => exact absurd rfl notGc
  | resetPin ip =>
      refine ⟨?_, rfl⟩
      cases left with
      | none =>
          cases right with
          | none => trivial
          | some right =>
              obtain ⟨⟨window, lock, bucket⟩, old⟩ := related
              have epoch := old.epoch
              refine ⟨⟨?_, started, ⟨bucket.1, bucket.2, bucket.3⟩⟩, ?_⟩
              · dsimp only
                omega
              · exact ⟨Int.le_refl 0, Int.le_trans old.epoch old.window,
                  old.refill, old.seen, old.tokens⟩
      | some left =>
          cases right with
          | none => exact related.elim
          | some right =>
              obtain ⟨⟨lastSeen, _, _, bucket⟩, old⟩ := related
              refine ⟨⟨lastSeen, .inl ⟨rfl, rfl⟩, .inl rfl, ?_⟩, ?_⟩
              · exact bucket.imp_right fun both =>
                  ⟨⟨both.1.1, both.1.2, both.1.3⟩,
                    ⟨both.2.1, both.2.2, both.2.3⟩⟩
              · exact ⟨Int.le_refl 0, Int.le_trans old.epoch old.window,
                  old.refill, old.seen, old.tokens⟩

/-- What `gc` collects on one side is expired on the other. -/
theorem collected_related {left : RlEntry}
    (related : Related now (some left) right) (unlocked : left.pinLockTS ≤ now)
    (idle : now - left.lastSeen > rlEntryTTL) : Related now none right := by
  cases right with
  | none => exact related.elim
  | some right =>
      obtain ⟨⟨lastSeen, _, lock, _⟩, old⟩ := related
      obtain ⟨epoch, window, refilled, seen, tokens⟩ := old
      simp only [rlEntryTTL] at idle tokens
      refine ⟨⟨?_, ?_, ⟨tokens.2, by omega, ?_⟩⟩,
        ⟨epoch, window, refilled, seen, tokens⟩⟩
      · simp only [rlPinWindow]
        omega
      · omega
      · simp only [rlUnauthCapacity, rlUnauthRefillRate]
        omega

end Entries

section Limiters

open Httpd.RateLimiter

variable {rl : Httpd.RateLimiter} {now : Int}

theorem getOrCreate_touched (space : rl.lru.length < rlMaxEntries)
    (ip : Text) (now : Int) :
    ∃ rl', rl.getOrCreate ip now =
        some (rl', touched (rl.entries.lookup ip) now) ∧
      ∀ other, rl'.entries.lookup other =
        if other = ip then some (touched (rl.entries.lookup ip) now)
        else rl.entries.lookup other := by
  cases found : rl.entries.lookup ip with
  | some entry =>
      exact ⟨_, getOrCreate_of_found found, fun other =>
        lookup_setEntry rl ip other _⟩
  | none =>
      have roomy : rl.room now = some rl := if_neg (by omega)
      have created : rl.getOrCreate ip now =
          some ({ rl.setEntry ip (newEntry now) with lru := ip :: rl.lru },
            newEntry now) := by
        simp only [getOrCreate, found, roomy]
        rfl
      exact ⟨_, created, fun other => lookup_setEntry rl ip other _⟩

theorem answered_own (space : rl.lru.length < rlMaxEntries) (now : Int)
    (call : Call) {ip : Text} (about : call.ip = some ip) :
    (answered rl now call).2 = (own (rl.entries.lookup ip) now call).2 ∧
      ∀ other, (answered rl now call).1.entries.lookup other =
        if other = ip then (own (rl.entries.lookup ip) now call).1
        else rl.entries.lookup other := by
  obtain ⟨rl', got, lookup⟩ := getOrCreate_touched space ip now
  have written : ∀ entry other, (rl'.setEntry ip entry).entries.lookup other =
      if other = ip then some entry else rl.entries.lookup other := by
    intro entry other
    rw [lookup_setEntry, lookup]
    split <;> rfl
  cases call with
  | gc => cases about
  | checkPinVerify user =>
      cases about
      simp only [answered, checkPinVerify, got, own]
      by_cases locked :
          (touched (rl.entries.lookup ip) now).pinLockTS > now
      · rw [if_pos locked, if_pos locked]
        exact ⟨rfl, lookup⟩
      · rw [if_neg locked, if_neg locked]
        exact ⟨rfl, lookup⟩
  | registerPinFail user =>
      cases about
      simp only [answered, registerPinFail, got, own]
      exact ⟨trivial, written _⟩
  | resetPin user =>
      cases about
      refine ⟨rfl, ?_⟩
      intro other
      simp only [answered, resetPin]
      cases found : rl.entries.lookup ip with
      | none =>
          by_cases same : other = ip
          · rw [if_pos same, same, found]
            rfl
          · rw [if_neg same]
      | some entry => exact lookup_setEntry rl ip other _
  | checkUnauth user =>
      cases about
      simp only [answered, checkUnauth, got, own]
      split <;> exact ⟨rfl, written _⟩

theorem mem_victims {ip : Text} (victim : ip ∈ rl.victims now) :
    ∃ entry, rl.entries.lookup ip = some entry ∧ entry.pinLockTS ≤ now ∧
      now - entry.lastSeen > rlEntryTTL := by
  have conditions := (List.mem_filter.mp victim).2
  cases found : rl.entries.lookup ip with
  | none => simp [found] at conditions
  | some entry =>
      simp only [found, Option.any_some, Bool.and_eq_true, Bool.not_eq_true',
        decide_eq_false_iff_not, decide_eq_true_eq] at conditions
      exact ⟨entry, rfl, by omega, conditions.2⟩

/-- The limiter is what some coherent elements say. -/
def Viewed (rl : Httpd.RateLimiter) (now : Int) : Prop :=
  ∃ linked, Coherent linked now ∧ Views linked rl

theorem Viewed.later (viewed : Viewed rl now) (le : now ≤ next) :
    Viewed rl next := by
  obtain ⟨linked, coherent, views⟩ := viewed
  exact ⟨linked, coherent.later le, views⟩

theorem Viewed.answered (viewed : Viewed rl now) (call : Call) :
    Viewed (answered rl now call).1 now := by
  obtain ⟨linked, coherent, views⟩ := viewed
  exact ⟨_, (apply_keeps coherent call).1, (apply_views views coherent call).1⟩

/-- All entries are those of few IPs. -/
def Within (ips : List Text) (rl : Httpd.RateLimiter) : Prop :=
  ∀ ip, rl.entries.lookup ip ≠ none → ip ∈ ips

variable {ips : List Text}

theorem Viewed.length_lt (viewed : Viewed rl now) (within : Within ips rl)
    (few : ips.dedup.length < rlMaxEntries) : rl.lru.length < rlMaxEntries := by
  obtain ⟨linked, coherent, views⟩ := viewed
  have inside : linked.entries.keys ⊆ ips.dedup := by
    intro ip key
    apply List.mem_dedup.mpr
    apply within
    rw [views.entries]
    obtain ⟨elem, found⟩ := Option.isSome_iff_exists.mp
      (AList.lookup_isSome.mpr (AList.mem_keys.mp key))
    rw [found]
    exact Option.some_ne_none _
  have distinct : linked.entries.keys.Nodup := linked.entries.nodupKeys
  have shorter := (distinct.subperm inside).length_le
  have sizes := coherent.representationInvariant.sameSize
  rw [views.lru, List.length_map]
  omega

theorem Within.answered (within : Within ips rl)
    (space : rl.lru.length < rlMaxEntries) (now : Int) (call : Call)
    (member : ∀ ip, call.ip = some ip → ip ∈ ips) :
    Within ips (answered rl now call).1 := by
  intro other known
  cases about : call.ip with
  | some ip =>
      rw [(answered_own space now call about).2] at known
      split at known
      · rename_i same
        rw [same]
        exact member ip about
      · exact within other known
  | none =>
      cases call with
      | gc =>
          have collected : (rl.gc now).entries.lookup other ≠ none := known
          rw [lookup_gc] at collected
          split at collected
          · exact absurd rfl collected
          · exact within other collected
      | _ => cases about

/-- The answers of the limiter by IPs. -/
def answersByIp (rl : Httpd.RateLimiter) : List ClockedCall → List Answer
  | [] => []
  | clocked :: rest =>
      let result := answered rl clocked.time clocked.call
      if clocked.call = .gc then answersByIp result.1 rest
      else result.2 :: answersByIp result.1 rest

theorem answers_eq_answersByIp {linked : RateLimiter}
    (coherent : Coherent linked now) (views : Views linked rl)
    {calls : List ClockedCall}
    (clock : (calls.map fun clocked => (clocked.time : Int)).Pairwise (· ≤ ·))
    (after : ∀ clocked ∈ calls, now ≤ clocked.time) :
    answers linked calls = answersByIp rl calls := by
  induction calls generalizing linked rl now with
  | nil => rfl
  | cons clocked rest induction =>
      obtain ⟨first, ordered⟩ := List.pairwise_cons.mp clock
      have reached := coherent.later (after clocked (by simp))
      obtain ⟨next, answer⟩ := apply_views views reached clocked.call
      have others := induction (apply_keeps reached clocked.call).1 next ordered
        (fun later member => first _ (List.mem_map.mpr ⟨later, member, rfl⟩))
      simp only [answers, answersByIp]
      rw [others, answer]

/-- The run with `gc` answers as the run without it. -/
theorem answersByIp_without_gc (few : ips.dedup.length < rlMaxEntries)
    {left right : Httpd.RateLimiter} (started : 0 ≤ now)
    (leftViewed : Viewed left now) (rightViewed : Viewed right now)
    (leftWithin : Within ips left) (rightWithin : Within ips right)
    (related : ∀ ip, Related now (left.entries.lookup ip) (right.entries.lookup ip))
    {calls : List ClockedCall}
    (clock : (calls.map fun clocked => (clocked.time : Int)).Pairwise (· ≤ ·))
    (after : ∀ clocked ∈ calls, now ≤ clocked.time)
    (members : ∀ clocked ∈ calls, ∀ ip, clocked.call.ip = some ip → ip ∈ ips) :
    answersByIp left calls =
      answersByIp right (calls.filter fun clocked => clocked.call ≠ .gc) := by
  induction calls generalizing left right now with
  | nil => rfl
  | cons clocked rest induction =>
      obtain ⟨first, ordered⟩ := List.pairwise_cons.mp clock
      have le := after clocked (by simp)
      have restAfter : ∀ later ∈ rest, (clocked.time : Int) ≤ later.time :=
        fun later member => first _ (List.mem_map.mpr ⟨later, member, rfl⟩)
      have restMembers : ∀ later ∈ rest, ∀ ip, later.call.ip = some ip →
          ip ∈ ips := fun later member => members later (by simp [member])
      have leftSpace := leftViewed.length_lt leftWithin few
      have rightSpace := rightViewed.length_lt rightWithin few
      have leftNext := (leftViewed.later le).answered clocked.call
      have leftIps := leftWithin.answered leftSpace clocked.time
        clocked.call (members clocked (by simp))
      have epoch : (0 : Int) ≤ clocked.time := by omega
      have relatedThen : ∀ ip, Related clocked.time (left.entries.lookup ip)
          (right.entries.lookup ip) := fun ip => (related ip).later le
      cases about : clocked.call.ip with
      | none =>
          -- `gc` only removes entries, and they are expired.
          have isGc : clocked.call = .gc := by
            cases call : clocked.call <;> simp_all [Call.ip]
          have filtered : (clocked :: rest).filter
              (fun clocked => clocked.call ≠ .gc) =
              rest.filter fun clocked => clocked.call ≠ .gc := by
            simp [isGc]
          rw [filtered, answersByIp, if_pos isGc]
          refine induction epoch leftNext (rightViewed.later le) leftIps
            rightWithin ?_ ordered restAfter restMembers
          intro ip
          have collected : (answered left clocked.time
              clocked.call).1.entries.lookup ip =
              if ip ∈ left.victims clocked.time then none
              else left.entries.lookup ip := by
            rw [isGc]
            exact lookup_gc left clocked.time ip
          rw [collected]
          split
          · rename_i victim
            obtain ⟨entry, found, unlocked, idle⟩ := mem_victims victim
            have both := relatedThen ip
            rw [found] at both
            exact collected_related both unlocked idle
          · exact relatedThen ip
      | some ip =>
          have notGc : clocked.call ≠ .gc := by
            intro isGc
            rw [isGc] at about
            cases about
          have filtered : (clocked :: rest).filter
              (fun clocked => clocked.call ≠ .gc) =
              clocked :: rest.filter fun clocked => clocked.call ≠ .gc := by
            simp [notGc]
          obtain ⟨leftAnswer, leftLookup⟩ :=
            answered_own leftSpace clocked.time clocked.call about
          obtain ⟨rightAnswer, rightLookup⟩ :=
            answered_own rightSpace clocked.time clocked.call about
          obtain ⟨ownRelated, sameAnswer⟩ :=
            own_related epoch (relatedThen ip) clocked.call notGc
          rw [filtered, answersByIp, answersByIp, if_neg notGc, if_neg notGc]
          rw [leftAnswer, rightAnswer]
          congr 1
          refine induction epoch leftNext
            ((rightViewed.later le).answered clocked.call) leftIps
            (rightWithin.answered rightSpace clocked.time clocked.call
              (members clocked (by simp))) ?_ ordered restAfter restMembers
          intro other
          rw [leftLookup, rightLookup]
          split
          · exact ownRelated
          · exact relatedThen other

end Limiters

/-- Over fewer than 512 IPs, the answers of a run are those of the same run
without its calls of `gc`. -/
theorem answers_without_gc (created : Nat) (calls : List ClockedCall)
    (clock : (created :: calls.map ClockedCall.time).Pairwise (· ≤ ·))
    (few : (calls.filterMap fun clocked => clocked.call.ip).dedup.length <
      rlMaxEntries) :
    answers (.newRateLimiter created) calls =
      answers (.newRateLimiter created)
        (calls.filter fun clocked => clocked.call ≠ .gc) := by
  obtain ⟨first, ordered⟩ := List.pairwise_cons.mp clock
  have coherent := Coherent.new created
  have viewed : Viewed (.newRateLimiter created) created :=
    ⟨_, coherent, Views.start created⟩
  have times : ∀ {some : List ClockedCall},
      (some.map ClockedCall.time).Pairwise (· ≤ ·) →
      (some.map fun clocked => (clocked.time : Int)).Pairwise (· ≤ ·) := by
    intro some ordered
    rw [List.pairwise_map] at ordered ⊢
    exact ordered.imp fun le => by omega
  have after : ∀ clocked ∈ calls, (created : Int) ≤ clocked.time := by
    intro clocked member
    have le := first _ (List.mem_map.mpr ⟨clocked, member, rfl⟩)
    omega
  have fewerOrdered : ((calls.filter fun clocked =>
      clocked.call ≠ .gc).map ClockedCall.time).Pairwise (· ≤ ·) :=
    ordered.sublist (List.filter_sublist.map _)
  have none : Within (calls.filterMap fun clocked => clocked.call.ip)
      (.newRateLimiter created) := fun _ known => absurd rfl known
  rw [answers_eq_answersByIp coherent (Views.start created) (times ordered)
      after,
    answers_eq_answersByIp coherent (Views.start created) (times fewerOrdered)
      fun clocked member => after clocked (List.mem_of_mem_filter member)]
  refine answersByIp_without_gc few (Int.natCast_nonneg created) viewed viewed
    none none (fun _ => trivial) (times ordered) after ?_
  intro clocked member ip about
  exact List.mem_filterMap.mpr ⟨clocked, member, about⟩

/-- An IP that comes back after its entry has been collected. -/
def returningCalls : List ClockedCall :=
  [⟨1000, .registerPinFail "10.0.0.2".toList⟩, ⟨1901, .gc⟩,
    ⟨1950, .registerPinFail "10.0.0.2".toList⟩,
    ⟨1951, .checkUnauth "10.0.0.2".toList⟩]

theorem returningCalls_without_gc :
    answers (.newRateLimiter 1000) returningCalls =
        [.pinFail false 4, .pinFail false 4, .unauth true 0] ∧
      answers (.newRateLimiter 1000) returningCalls =
        answers (.newRateLimiter 1000)
          (returningCalls.filter fun clocked => clocked.call ≠ .gc) := by
  refine ⟨by decide +kernel, ?_⟩
  exact answers_without_gc 1000 returningCalls (by decide) (by decide +kernel)

end Linked

end Httpd
