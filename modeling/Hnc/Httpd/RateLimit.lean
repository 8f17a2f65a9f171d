import Hnc.Lib.KeyMap
import Hnc.Lib.Posix
import Hnc.Lib.Runs

/-!
# The rate limiter of the httpd

`ratelimit.go` counts wrong PINs per IP and locks an IP for ten minutes.  It
keeps at most 512 entries; a new IP evicts the least recently used entry that is
not locked, and is refused when all entries are locked.  The token buckets hold
whole numbers only, so that their floating point arithmetic is exact.
-/

namespace Httpd

open Posix
open KeyMap

def rlMaxEntries : Nat := 512
def rlPinAttemptsMax : Nat := 5
def rlPinLockDuration : Int := 600
def rlPinWindow : Int := 60
def rlUnauthCapacity : Int := 20
def rlUnauthRefillRate : Int := 20
def rlEntryTTL : Int := 900
def rlGlobalCapacity : Int := 50
def rlGlobalRefillRate : Int := 50

/-- The state of one IP; the IP itself is the key of the map. -/
structure RlEntry where
  pinAttempts : Nat
  pinWindowStart : Int
  pinLockTS : Int
  unauthTokens : Int
  unauthLastRefill : Int
  lastSeen : Int
deriving DecidableEq

/-- `lru` lists the IPs of `entries`, the most recently used one first. -/
structure RateLimiter where
  entries : Map Text RlEntry
  lru : List Text
  globalTokens : Int
  globalLastRefill : Int

namespace RateLimiter

def newRateLimiter (now : Int) : RateLimiter :=
  { entries := ∅, lru := [], globalTokens := rlGlobalCapacity,
    globalLastRefill := now }

def newEntry (now : Int) : RlEntry :=
  { pinAttempts := 0, pinWindowStart := 0, pinLockTS := 0,
    unauthTokens := rlUnauthCapacity, unauthLastRefill := now,
    lastSeen := now }

/-- The first entry from the back of the list that is not locked. -/
def oldestUnlocked (rl : RateLimiter) (now : Int) : Option Text :=
  rl.lru.reverse.find? fun ip =>
    (rl.entries.lookup ip).any fun entry => decide (entry.pinLockTS ≤ now)

def remove (rl : RateLimiter) (ip : Text) : RateLimiter :=
  { rl with entries := rl.entries.erase ip, lru := rl.lru.erase ip }

/-- `none` when every entry is locked. -/
def evictOldestLocked (rl : RateLimiter) (now : Int) : Option RateLimiter :=
  (rl.oldestUnlocked now).map rl.remove

/-- Stores the entry that a pointer of the source refers to. -/
def setEntry (rl : RateLimiter) (ip : Text) (entry : RlEntry) : RateLimiter :=
  { rl with entries := rl.entries.insert ip entry }

/-- Makes room for a new IP. -/
def room (rl : RateLimiter) (now : Int) : Option RateLimiter :=
  if rlMaxEntries ≤ rl.lru.length then rl.evictOldestLocked now else some rl

/-- The entry of an IP, found or created, at the front of the list. -/
def getOrCreate (rl : RateLimiter) (ip : Text) (now : Int) :
    Option (RateLimiter × RlEntry) :=
  match rl.entries.lookup ip with
  | some found =>
      let entry := { found with lastSeen := now }
      some ({ rl.setEntry ip entry with lru := ip :: rl.lru.erase ip }, entry)
  | none =>
      (rl.room now).map fun rl =>
        let entry := newEntry now
        ({ rl.setEntry ip entry with lru := ip :: rl.lru }, entry)

/-- The answer is whether the request is allowed, and after how many seconds to
try again. -/
def checkPinVerify (rl : RateLimiter) (ip : Text) (now : Int) :
    RateLimiter × Bool × Int :=
  match rl.getOrCreate ip now with
  | none => (rl, false, rlPinLockDuration)
  | some (rl, entry) =>
      if entry.pinLockTS > now then (rl, false, entry.pinLockTS - now)
      else (rl, true, 0)

/-- One failure: an expired window is restarted before it is counted. -/
def countFail (entry : RlEntry) (now : Int) : RlEntry :=
  let entry :=
    if now - entry.pinWindowStart > rlPinWindow then
      { entry with pinWindowStart := now, pinAttempts := 0 }
    else entry
  let entry := { entry with pinAttempts := entry.pinAttempts + 1 }
  if entry.pinAttempts ≥ rlPinAttemptsMax then
    { entry with pinLockTS := now + rlPinLockDuration }
  else entry

/-- The answer is whether the IP is now locked, and the remaining attempts. -/
def registerPinFail (rl : RateLimiter) (ip : Text) (now : Int) :
    RateLimiter × Bool × Nat :=
  match rl.getOrCreate ip now with
  | none => (rl, false, 0)
  | some (rl, found) =>
      let entry := countFail found now
      (rl.setEntry ip entry,
        decide (entry.pinAttempts ≥ rlPinAttemptsMax),
        rlPinAttemptsMax - entry.pinAttempts)

def resetPin (rl : RateLimiter) (ip : Text) : RateLimiter :=
  match rl.entries.lookup ip with
  | none => rl
  | some entry =>
      rl.setEntry ip
        { entry with pinAttempts := 0, pinLockTS := 0, pinWindowStart := 0 }

/-- A bucket after it has been refilled for the seconds since `lastRefill`. -/
def refill (tokens elapsed rate capacity : Int) : Int :=
  if elapsed > 0 then min (tokens + elapsed * rate) capacity else tokens

def checkUnauth (rl : RateLimiter) (ip : Text) (now : Int) :
    RateLimiter × Bool × Int :=
  match rl.getOrCreate ip now with
  | none =>
      -- All entries are locked: one bucket for everybody else.
      let elapsed := now - rl.globalLastRefill
      let tokens :=
        refill rl.globalTokens elapsed rlGlobalRefillRate rlGlobalCapacity
      let lastRefill := if elapsed > 0 then now else rl.globalLastRefill
      if tokens < 1 then
        ({ rl with globalTokens := tokens, globalLastRefill := lastRefill },
          false, 1)
      else
        ({ rl with
            globalTokens := tokens - 1, globalLastRefill := lastRefill },
          true, 0)
  | some (rl, entry) =>
      let elapsed := now - entry.unauthLastRefill
      let tokens :=
        refill entry.unauthTokens elapsed rlUnauthRefillRate rlUnauthCapacity
      let lastRefill := if elapsed > 0 then now else entry.unauthLastRefill
      if tokens < 1 then
        (rl.setEntry ip
          { entry with unauthTokens := tokens, unauthLastRefill := lastRefill },
          false, 2)
      else
        (rl.setEntry ip
          { entry with
            unauthTokens := tokens - 1, unauthLastRefill := lastRefill },
          true, 0)

/-- The IPs whose entries are neither locked nor used for 15 minutes. -/
def victims (rl : RateLimiter) (now : Int) : List Text :=
  rl.lru.reverse.filter fun ip =>
    (rl.entries.lookup ip).any fun entry =>
      !decide (entry.pinLockTS > now) &&
        decide (now - entry.lastSeen > rlEntryTTL)

def gc (rl : RateLimiter) (now : Int) : RateLimiter :=
  (rl.victims now).foldl remove rl

end RateLimiter

inductive Call where
  | checkPinVerify (ip : Text)
  | registerPinFail (ip : Text)
  | resetPin (ip : Text)
  | checkUnauth (ip : Text)
  | gc
deriving DecidableEq

/-- A call and the seconds since the call before it. -/
structure TimedCall where
  delay : Nat
  call : Call
deriving DecidableEq

/-- The limiter together with the clock. -/
structure Limiter where
  rl : RateLimiter
  now : Int

namespace Limiter

def start (now : Int) : Limiter :=
  { rl := .newRateLimiter now, now := now }

def apply (rl : RateLimiter) (now : Int) : Call → RateLimiter
  | .checkPinVerify ip => (rl.checkPinVerify ip now).1
  | .registerPinFail ip => (rl.registerPinFail ip now).1
  | .resetPin ip => rl.resetPin ip
  | .checkUnauth ip => (rl.checkUnauth ip now).1
  | .gc => rl.gc now

def step (limiter : Limiter) (timed : TimedCall) : Limiter :=
  let now := limiter.now + timed.delay
  { rl := apply limiter.rl now timed.call, now := now }

def run (limiter : Limiter) (calls : List TimedCall) : Limiter :=
  calls.foldl step limiter

end Limiter

end Httpd

/-!
## One entry of the rate limiter

What a call does to the entry of one IP: a call of the IP itself finds it or
creates it, a call of another IP leaves it alone or evicts it.
-/

namespace Httpd

open Posix
open KeyMap

namespace RateLimiter

/-- The entry of `ip` is the one that a new IP would evict now. -/
def WouldEvict (rl : RateLimiter) (now : Int) (ip : Text) : Prop :=
  rlMaxEntries ≤ rl.lru.length ∧ rl.oldestUnlocked now = some ip

instance (rl : RateLimiter) (now : Int) (ip : Text) :
    Decidable (rl.WouldEvict now ip) := by
  unfold WouldEvict
  infer_instance

@[simp] theorem lookup_setEntry (rl : RateLimiter) (ip other : Text)
    (entry : RlEntry) :
    (rl.setEntry ip entry).entries.lookup other =
      if other = ip then some entry else rl.entries.lookup other :=
  lookup_insert_eq rl.entries other ip entry

@[simp] theorem lookup_remove (rl : RateLimiter) (ip other : Text) :
    (rl.remove ip).entries.lookup other =
      if other = ip then none else rl.entries.lookup other :=
  lookup_erase_eq rl.entries other ip

variable {rl : RateLimiter} {now : Int}

theorem lookup_room {roomy : RateLimiter} (made : rl.room now = some roomy)
    (ip : Text) :
    roomy.entries.lookup ip = rl.entries.lookup ip ∨
      roomy.entries.lookup ip = none ∧ rl.WouldEvict now ip := by
  unfold room at made
  split at made
  · rename_i full
    simp only [evictOldestLocked, Option.map_eq_some_iff] at made
    obtain ⟨victim, oldest, rfl⟩ := made
    rw [lookup_remove]
    by_cases own : ip = victim
    · subst own
      exact .inr ⟨if_pos rfl, full, oldest⟩
    · exact .inl (if_neg own)
  · cases made
    exact .inl rfl

variable {ip : Text} {entry : RlEntry}

theorem getOrCreate_of_found (found : rl.entries.lookup ip = some entry) :
    rl.getOrCreate ip now =
      some ({ rl.setEntry ip { entry with lastSeen := now } with
        lru := ip :: rl.lru.erase ip }, { entry with lastSeen := now }) := by
  simp [getOrCreate, found]

theorem getOrCreate_own {rl' : RateLimiter}
    (got : rl.getOrCreate ip now = some (rl', entry)) :
    rl'.entries.lookup ip = some entry ∧
      (rl.entries.lookup ip = none ∧ entry = newEntry now ∨
        ∃ old, rl.entries.lookup ip = some old ∧
          entry = { old with lastSeen := now }) := by
  cases found : rl.entries.lookup ip with
  | some old =>
      rw [getOrCreate_of_found found] at got
      cases got
      exact ⟨by simp, .inr ⟨old, rfl, rfl⟩⟩
  | none =>
      simp only [getOrCreate, found, Option.map_eq_some_iff] at got
      obtain ⟨roomy, _, same⟩ := got
      cases same
      exact ⟨by simp, .inl ⟨rfl, rfl⟩⟩

theorem getOrCreate_other {rl' : RateLimiter} {other : Text}
    (got : rl.getOrCreate ip now = some (rl', entry)) (different : other ≠ ip) :
    rl'.entries.lookup other = rl.entries.lookup other ∨
      rl'.entries.lookup other = none ∧ rl.WouldEvict now other := by
  cases found : rl.entries.lookup ip with
  | some old =>
      rw [getOrCreate_of_found found] at got
      cases got
      exact .inl (by simp [different])
  | none =>
      simp only [getOrCreate, found, Option.map_eq_some_iff] at got
      obtain ⟨roomy, made, same⟩ := got
      cases same
      simpa [different] using lookup_room made other

theorem lookup_foldl_remove (rl : RateLimiter) (ips : List Text)
    (ip : Text) :
    (ips.foldl remove rl).entries.lookup ip =
      if ip ∈ ips then none else rl.entries.lookup ip := by
  induction ips generalizing rl with
  | nil => simp
  | cons first rest induction =>
      rw [List.foldl_cons, induction]
      by_cases here : ip = first <;> by_cases later : ip ∈ rest <;>
        simp [later]

theorem lookup_gc (rl : RateLimiter) (now : Int) (ip : Text) :
    (rl.gc now).entries.lookup ip =
      if ip ∈ rl.victims now then none else rl.entries.lookup ip :=
  lookup_foldl_remove rl (rl.victims now) ip

/-- An entry that is locked, or in use, is not collected. -/
theorem not_mem_victims (found : rl.entries.lookup ip = some entry)
    (live : entry.pinLockTS > now ∨ now - entry.lastSeen ≤ rlEntryTTL) :
    ip ∉ rl.victims now := by
  intro member
  have conditions := (List.mem_filter.mp member).2
  simp only [found, Option.any_some, Bool.and_eq_true, Bool.not_eq_true',
    decide_eq_false_iff_not, decide_eq_true_eq] at conditions
  omega

/-- The entry that belongs to a call of the limiter. -/
theorem checkPinVerify_fst (rl : RateLimiter) (ip : Text) (now : Int) :
    (rl.checkPinVerify ip now).1 =
      match rl.getOrCreate ip now with
      | none => rl
      | some (rl', _) => rl' := by
  unfold checkPinVerify
  cases rl.getOrCreate ip now with
  | none => rfl
  | some result =>
      dsimp only
      split <;> rfl

theorem checkPinVerify_locked (found : rl.entries.lookup ip = some entry)
    (locked : entry.pinLockTS > now) :
    (rl.checkPinVerify ip now).2.1 = false := by
  rw [checkPinVerify, getOrCreate_of_found found]
  simp [locked]

end RateLimiter

end Httpd
