import Hnc.Httpd.RateLimit
import Mathlib.Logic.Function.Basic

/-!
# The map and the list of the rate limiter

`ratelimit.go` keeps the entries in a linked list and finds them through a map
from IPs to list elements.  Here an element is an address, so that the map, the
list and the entries are three things that can disagree.  Every call leaves them
in agreement.
-/

namespace Httpd.Linked

open Posix
open KeyMap

/-- A `*list.Element`. -/
abbrev Element := Nat

/-- The `*rlEntry` of an element. -/
structure Node where
  ip : Text
  entry : RlEntry

/-- Elements from `allocated` on have not been handed out yet. -/
structure RateLimiter where
  nodes : Element → Node
  allocated : Element
  entries : Map Text Element
  lru : List Element
  globalTokens : Int
  globalLastRefill : Int

namespace RateLimiter

open Httpd.RateLimiter (newEntry countFail refill)

def newRateLimiter (now : Int) : RateLimiter :=
  { nodes := fun _ => ⟨[], newEntry now⟩, allocated := 0, entries := ∅,
    lru := [], globalTokens := rlGlobalCapacity, globalLastRefill := now }

def entryOf (rl : RateLimiter) (elem : Element) : RlEntry :=
  (rl.nodes elem).entry

def ipOf (rl : RateLimiter) (elem : Element) : Text :=
  (rl.nodes elem).ip

/-- An assignment through the pointer of an element. -/
def setEntry (rl : RateLimiter) (elem : Element) (entry : RlEntry) :
    RateLimiter :=
  { rl with
    nodes := Function.update rl.nodes elem { rl.nodes elem with entry } }

/-- `lru.MoveToFront`, which leaves a list alone that the element is not in. -/
def moveToFront (rl : RateLimiter) (elem : Element) : RateLimiter :=
  { rl with
    lru := if elem ∈ rl.lru then elem :: rl.lru.erase elem else rl.lru }

/-- `lru.PushFront`, and the element in the map. -/
def pushFront (rl : RateLimiter) (node : Node) : RateLimiter :=
  { rl with
    nodes := Function.update rl.nodes rl.allocated node
    allocated := rl.allocated + 1
    lru := rl.allocated :: rl.lru
    entries := rl.entries.insert node.ip rl.allocated }

/-- `lru.Remove`, and `delete` of the IP that the element holds. -/
def remove (rl : RateLimiter) (elem : Element) : RateLimiter :=
  { rl with
    lru := rl.lru.erase elem
    entries := rl.entries.erase (rl.ipOf elem) }

/-- `none` when every entry is locked. -/
def evictOldestLocked (rl : RateLimiter) (now : Int) : Option RateLimiter :=
  (rl.lru.reverse.find? fun elem =>
    decide ((rl.entryOf elem).pinLockTS ≤ now)).map rl.remove

def room (rl : RateLimiter) (now : Int) : Option RateLimiter :=
  if rlMaxEntries ≤ rl.lru.length then rl.evictOldestLocked now else some rl

def getOrCreate (rl : RateLimiter) (ip : Text) (now : Int) :
    Option (RateLimiter × Element) :=
  match rl.entries.lookup ip with
  | some elem =>
      let rl := rl.moveToFront elem
      some (rl.setEntry elem { rl.entryOf elem with lastSeen := now }, elem)
  | none =>
      (rl.room now).map fun rl =>
        (rl.pushFront ⟨ip, newEntry now⟩, rl.allocated)

def checkPinVerify (rl : RateLimiter) (ip : Text) (now : Int) :
    RateLimiter × Bool × Int :=
  match rl.getOrCreate ip now with
  | none => (rl, false, rlPinLockDuration)
  | some (rl, elem) =>
      if (rl.entryOf elem).pinLockTS > now then
        (rl, false, (rl.entryOf elem).pinLockTS - now)
      else (rl, true, 0)

def registerPinFail (rl : RateLimiter) (ip : Text) (now : Int) :
    RateLimiter × Bool × Nat :=
  match rl.getOrCreate ip now with
  | none => (rl, false, 0)
  | some (rl, elem) =>
      let entry := countFail (rl.entryOf elem) now
      (rl.setEntry elem entry,
        decide (entry.pinAttempts ≥ rlPinAttemptsMax),
        rlPinAttemptsMax - entry.pinAttempts)

def resetPin (rl : RateLimiter) (ip : Text) : RateLimiter :=
  match rl.entries.lookup ip with
  | none => rl
  | some elem =>
      rl.setEntry elem
        { rl.entryOf elem with
          pinAttempts := 0, pinLockTS := 0, pinWindowStart := 0 }

def checkUnauth (rl : RateLimiter) (ip : Text) (now : Int) :
    RateLimiter × Bool × Int :=
  match rl.getOrCreate ip now with
  | none =>
      let elapsed := now - rl.globalLastRefill
      let tokens :=
        refill rl.globalTokens elapsed rlGlobalRefillRate rlGlobalCapacity
      let lastRefill := if elapsed > 0 then now else rl.globalLastRefill
      if tokens < 1 then
        ({ rl with globalTokens := tokens, globalLastRefill := lastRefill },
          false, 1)
      else
        ({ rl with
            globalTokens := tokens - 1, globalLastRefill := lastRefill },
          true, 0)
  | some (rl, elem) =>
      let entry := rl.entryOf elem
      let elapsed := now - entry.unauthLastRefill
      let tokens :=
        refill entry.unauthTokens elapsed rlUnauthRefillRate rlUnauthCapacity
      let lastRefill := if elapsed > 0 then now else entry.unauthLastRefill
      if tokens < 1 then
        (rl.setEntry elem
          { entry with unauthTokens := tokens, unauthLastRefill := lastRefill },
          false, 2)
      else
        (rl.setEntry elem
          { entry with
            unauthTokens := tokens - 1, unauthLastRefill := lastRefill },
          true, 0)

/-- The elements that `gc` collects on its way from the back of the list. -/
def victims (rl : RateLimiter) (now : Int) : List Element :=
  rl.lru.reverse.filter fun elem =>
    !decide ((rl.entryOf elem).pinLockTS > now) &&
      decide (now - (rl.entryOf elem).lastSeen > rlEntryTTL)

def gc (rl : RateLimiter) (now : Int) : RateLimiter :=
  (rl.victims now).foldl remove rl

end RateLimiter

/-- What a call of the limiter returns. -/
inductive Answer where
  | pinVerify (allowed : Bool) (retryAfter : Int)
  | pinFail (locked : Bool) (remaining : Nat)
  | reset
  | unauth (allowed : Bool) (retryAfter : Int)
  | collected
deriving DecidableEq

def apply (rl : RateLimiter) (now : Int) : Call → RateLimiter × Answer
  | .checkPinVerify ip =>
      let (rl, allowed, retryAfter) := rl.checkPinVerify ip now
      (rl, .pinVerify allowed retryAfter)
  | .registerPinFail ip =>
      let (rl, locked, remaining) := rl.registerPinFail ip now
      (rl, .pinFail locked remaining)
  | .resetPin ip => (rl.resetPin ip, .reset)
  | .checkUnauth ip =>
      let (rl, allowed, retryAfter) := rl.checkUnauth ip now
      (rl, .unauth allowed retryAfter)
  | .gc => (rl.gc now, .collected)

/-- The limiter together with the clock. -/
structure Limiter where
  rl : RateLimiter
  now : Int

namespace Limiter

def start (now : Int) : Limiter :=
  { rl := .newRateLimiter now, now := now }

def step (limiter : Limiter) (timed : TimedCall) : Limiter :=
  let now := limiter.now + timed.delay
  { rl := (apply limiter.rl now timed.call).1, now := now }

end Limiter

/-- The map and the list agree, and the entries are within their bounds. -/
structure RepresentationInvariant (rl : RateLimiter) : Prop where
  /-- The IP of each list element maps to that element. -/
  mapped : ∀ elem ∈ rl.lru, rl.entries.lookup (rl.ipOf elem) = some elem
  /-- Each element that the map knows is in the list, under its IP. -/
  listed : ∀ ip elem, rl.entries.lookup ip = some elem →
    elem ∈ rl.lru ∧ rl.ipOf elem = ip
  distinct : (rl.lru.map rl.ipOf).Nodup
  sameSize : rl.entries.keys.length = rl.lru.length
  capacity : rl.lru.length ≤ rlMaxEntries
  ordered : rl.lru.Pairwise fun front behind =>
    (rl.entryOf behind).lastSeen ≤ (rl.entryOf front).lastSeen
  buckets : ∀ elem ∈ rl.lru, 0 ≤ (rl.entryOf elem).unauthTokens ∧
    (rl.entryOf elem).unauthTokens ≤ rlUnauthCapacity
  global : 0 ≤ rl.globalTokens ∧ rl.globalTokens ≤ rlGlobalCapacity

/-- The locked entries of `old` are the same entries in `new`. -/
def KeepsLocked (old new : RateLimiter) (now : Int) : Prop :=
  ∀ elem ∈ old.lru, (old.entryOf elem).pinLockTS > now →
    elem ∈ new.lru ∧ new.entries.lookup (old.ipOf elem) = some elem

end Httpd.Linked
