import Hnc.Lib.KeyMap
import Hnc.Lib.Posix
import Hnc.Lib.SlidingWindow
import Mathlib.Data.Int.Order.Basic

/-!
# The write counter of the httpd

`writelimit.go` keeps the times of the granted writes of a key and drops those
that have left the window of a minute.  `gc` forgets a key after ten minutes,
when all of its times are long out of the window.
-/

namespace Httpd.WriteLimit

open Posix
open KeyMap
open SlidingWindow (inside Keeps)

def writeWindowSec : Int := 60
def writeMaxPerWin : Nat := 60
def writeEntryTTL : Int := 600

structure WriteEntry where
  timestamps : List Int
  lastSeen : Int
deriving DecidableEq

structure WriteCounter where
  entries : Map Text WriteEntry

/-- The loop over the timestamps from `i` on; `keep` is `keepFrom` so far. -/
def keepFrom (cutoff : Int) (keep i : Nat) : List Int → Nat
  | [] => keep
  | ts :: rest =>
      if ts > cutoff then i else keepFrom cutoff (i + 1) (i + 1) rest

/-- The timestamps of an entry without those outside the window. -/
def trimmed (timestamps : List Int) (cutoff : Int) : List Int :=
  let keep := keepFrom cutoff 0 0 timestamps
  if keep > 0 then timestamps.drop keep else timestamps

namespace WriteCounter

def newWriteCounter : WriteCounter :=
  ⟨∅⟩

/-- `e.timestamps`, of a new entry when there is none. -/
def timestamps (wc : WriteCounter) (key : Text) : List Int :=
  match wc.entries.lookup key with
  | none => []
  | some e => e.timestamps

def checkAndIncr (wc : WriteCounter) (key : Text) (now : Int) :
    WriteCounter × Bool :=
  let kept := trimmed (wc.timestamps key) (now - writeWindowSec)
  if kept.length ≥ writeMaxPerWin then
    (⟨wc.entries.insert key ⟨kept, now⟩⟩, false)
  else (⟨wc.entries.insert key ⟨kept ++ [now], now⟩⟩, true)

/-- The keys that `gc` deletes. -/
def stale (wc : WriteCounter) (now : Int) : List Text :=
  wc.entries.keys.filter fun key =>
    (wc.entries.lookup key).any fun e =>
      decide (now - e.lastSeen > writeEntryTTL)

def gc (wc : WriteCounter) (now : Int) : WriteCounter :=
  ⟨eraseAll wc.entries (wc.stale now)⟩

end WriteCounter

inductive WriteCall where
  | checkAndIncr (key : Text)
  | gc
deriving DecidableEq

/-- A call and the seconds since the call before it. -/
structure TimedWrite where
  delay : Nat
  call : WriteCall
deriving DecidableEq

/-- The counter together with the clock. -/
structure Writes where
  wc : WriteCounter
  now : Int

namespace Writes

def start (now : Int) : Writes :=
  ⟨.newWriteCounter, now⟩

def step (writes : Writes) (timed : TimedWrite) : Writes :=
  let now := writes.now + timed.delay
  match timed.call with
  | .checkAndIncr key => ⟨(writes.wc.checkAndIncr key now).1, now⟩
  | .gc => ⟨writes.wc.gc now, now⟩

def run (writes : Writes) (calls : List TimedWrite) : Writes :=
  calls.foldl step writes

/-- What `CheckAndIncr` returns after a delay. -/
def answer (writes : Writes) (delay : Nat) (key : Text) : Bool :=
  (writes.wc.checkAndIncr key (writes.now + delay)).2

/-- The times of the calls with a key that returned true. -/
def granted (writes : Writes) (key : Text) : List TimedWrite → List Int
  | [] => []
  | timed :: rest =>
      let now := writes.now + timed.delay
      (if timed.call = .checkAndIncr key ∧ writes.answer timed.delay key then
        [now] else []) ++ (writes.step timed).granted key rest

end Writes

theorem keepFrom_eq (cutoff : Int) (i : Nat) (timestamps : List Int) :
    keepFrom cutoff i i timestamps =
      i + (timestamps.takeWhile fun t => t ≤ cutoff).length := by
  induction timestamps generalizing i with
  | nil => rfl
  | cons ts rest induction =>
      rw [keepFrom]
      by_cases fresh : ts > cutoff
      · rw [if_pos fresh, List.takeWhile_cons_of_neg (by simpa using fresh)]
        rfl
      · have old : ts ≤ cutoff := by omega
        rw [if_neg fresh, induction,
          List.takeWhile_cons_of_pos (by simpa using old), List.length_cons]
        omega

theorem trimmed_eq (timestamps : List Int) (cutoff : Int) :
    trimmed timestamps cutoff = timestamps.dropWhile fun t => t ≤ cutoff := by
  have split := List.takeWhile_append_dropWhile
    (p := fun t : Int => decide (t ≤ cutoff)) (l := timestamps)
  have dropped : timestamps.drop
      (timestamps.takeWhile fun t => t ≤ cutoff).length =
        timestamps.dropWhile fun t => t ≤ cutoff := by
    have cut := congrArg
      (List.drop (timestamps.takeWhile fun t => t ≤ cutoff).length) split
    rw [List.drop_left] at cut
    exact cut.symm
  rw [trimmed, keepFrom_eq, Nat.zero_add]
  by_cases some : (timestamps.takeWhile fun t => t ≤ cutoff).length > 0
  · rw [if_pos some, dropped]
  · have none : (timestamps.takeWhile fun t => t ≤ cutoff).length = 0 := by
      omega
    rw [if_neg some, ← dropped, none, List.drop_zero]

/-- What is stored for a key is the log of its granted writes, without some that
are out of the window. -/
structure Logged (writes : Writes) (key : Text) (log : List Int) : Prop where
  sorted : log.Pairwise (· ≤ ·)
  past : ∀ t ∈ log, t ≤ writes.now
  keeps : Keeps (writes.now - writeWindowSec) log (writes.wc.timestamps key)
  few : (writes.wc.timestamps key).length ≤ writeMaxPerWin
  seen : ∀ e, writes.wc.entries.lookup key = some e →
    (∀ t ∈ e.timestamps, t ≤ e.lastSeen) ∧ e.lastSeen ≤ writes.now

theorem logged_start (now : Int) (key : Text) :
    Logged (.start now) key [] where
  sorted := .nil
  past := by simp
  keeps := .refl _ _
  few := Nat.zero_le _
  seen := by
    intro e found
    cases found

namespace Logged

variable {writes : Writes} {key : Text} {log : List Int}

/-- The timestamps that are left when a call comes. -/
theorem kept (logged : Logged writes key log) (delay : Nat) :
    trimmed (writes.wc.timestamps key) (writes.now + delay - writeWindowSec) =
      inside (writes.now + delay - writeWindowSec) log ∧
    Keeps (writes.now + delay - writeWindowSec) log
      (inside (writes.now + delay - writeWindowSec) log) := by
  rw [trimmed_eq]
  apply logged.keeps.trim logged.sorted
  omega

theorem answer_eq (logged : Logged writes key log) (delay : Nat) :
    writes.answer delay key = true ↔
      (inside (writes.now + delay - writeWindowSec) log).length < 60 := by
  rw [Writes.answer, WriteCounter.checkAndIncr, (logged.kept delay).1]
  by_cases full : (inside (writes.now + delay - writeWindowSec) log).length ≥
      writeMaxPerWin
  · rw [if_pos full]
    rw [writeMaxPerWin] at full
    exact iff_of_false (by simp) (by omega)
  · rw [if_neg full]
    rw [writeMaxPerWin] at full
    exact iff_of_true rfl (by omega)

theorem timestamps_insert (wc : WriteCounter) (key written : Text)
    (e : WriteEntry) :
    WriteCounter.timestamps ⟨wc.entries.insert written e⟩ key =
      if key = written then e.timestamps else wc.timestamps key := by
  rw [WriteCounter.timestamps, lookup_insert_eq]
  by_cases same : key = written
  · simp [same]
  · simp [same, WriteCounter.timestamps]

/-- A call with another key, or with this one when it is refused or granted. -/
theorem checkAndIncr (logged : Logged writes key log) (delay : Nat)
    (called : Text) :
    Logged (writes.step ⟨delay, .checkAndIncr called⟩) key
      (log ++ if called = key ∧ writes.answer delay key then
        [writes.now + delay] else []) := by
  obtain ⟨kept, keeps⟩ := logged.kept delay
  have answered := logged.answer_eq delay
  have later : ∀ t ∈ log, t ≤ writes.now + delay := by
    intro t member
    have past := logged.past t member
    omega
  by_cases same : called = key
  · subst same
    by_cases yes : writes.answer delay called = true
    · have room := answered.mp yes
      have free : ¬(inside (writes.now + delay - writeWindowSec) log).length ≥
          writeMaxPerWin := by
        rw [writeMaxPerWin]
        omega
      have stepped : writes.step ⟨delay, .checkAndIncr called⟩ =
          ⟨⟨writes.wc.entries.insert called
            ⟨inside (writes.now + delay - writeWindowSec) log ++
              [writes.now + delay], writes.now + delay⟩⟩,
            writes.now + delay⟩ := by
        simp only [Writes.step, WriteCounter.checkAndIncr, kept, if_neg free]
      rw [if_pos ⟨rfl, yes⟩, stepped]
      constructor
      case sorted =>
          apply List.pairwise_append.mpr
          refine ⟨logged.sorted, List.pairwise_singleton _ _, ?_⟩
          intro t member u new
          rw [List.mem_singleton.mp new]
          exact later t member
      case past =>
          intro t member
          rcases List.mem_append.mp member with old | new
          · exact later t old
          · rw [List.mem_singleton.mp new]
      case keeps =>
          rw [timestamps_insert, if_pos rfl]
          exact keeps.append _
      case few =>
          rw [timestamps_insert, if_pos rfl, List.length_append,
            List.length_singleton]
          omega
      case seen =>
          intro e found
          rw [lookup_insert_eq, if_pos rfl] at found
          cases found
          refine ⟨?_, le_rfl⟩
          intro t member
          rcases List.mem_append.mp member with old | new
          · exact later t (List.mem_of_mem_filter old)
          · rw [List.mem_singleton.mp new]
    · have full : (inside (writes.now + delay - writeWindowSec) log).length ≥
          writeMaxPerWin := by
        have many := mt answered.mpr yes
        rw [writeMaxPerWin]
        omega
      have stepped : writes.step ⟨delay, .checkAndIncr called⟩ =
          ⟨⟨writes.wc.entries.insert called
            ⟨inside (writes.now + delay - writeWindowSec) log,
              writes.now + delay⟩⟩, writes.now + delay⟩ := by
        simp only [Writes.step, WriteCounter.checkAndIncr, kept, if_pos full]
      rw [if_neg (fun both => yes both.2), List.append_nil, stepped]
      constructor
      case sorted => exact logged.sorted
      case past => exact later
      case keeps =>
          rw [timestamps_insert, if_pos rfl]
          exact keeps
      case few =>
          rw [timestamps_insert, if_pos rfl, ← kept, trimmed_eq]
          exact (List.dropWhile_suffix _).length_le.trans logged.few
      case seen =>
          intro e found
          rw [lookup_insert_eq, if_pos rfl] at found
          cases found
          exact ⟨fun t member => later t (List.mem_of_mem_filter member),
            le_rfl⟩
  · have other : ∀ e, WriteCounter.timestamps
        ⟨writes.wc.entries.insert called e⟩ key = writes.wc.timestamps key := by
      intro e
      rw [timestamps_insert, if_neg (Ne.symm same)]
    obtain ⟨e, stepped⟩ : ∃ e, writes.step ⟨delay, .checkAndIncr called⟩ =
        ⟨⟨writes.wc.entries.insert called e⟩, writes.now + delay⟩ := by
      simp only [Writes.step, WriteCounter.checkAndIncr]
      split
      · exact ⟨_, rfl⟩
      · exact ⟨_, rfl⟩
    rw [if_neg (fun both => same both.1), List.append_nil, stepped]
    constructor
    case sorted => exact logged.sorted
    case past => exact later
    case keeps =>
        rw [other]
        exact logged.keeps.later (by simp only; omega)
    case few =>
        rw [other]
        exact logged.few
    case seen =>
        intro e' found
        rw [lookup_insert_eq, if_neg (Ne.symm same)] at found
        obtain ⟨stamps, seen⟩ := logged.seen e' found
        exact ⟨stamps, by simp only; omega⟩

theorem gc (logged : Logged writes key log) (delay : Nat) :
    Logged (writes.step ⟨delay, .gc⟩) key log := by
  have later := logged.keeps.later
    (show writes.now - writeWindowSec ≤
      writes.now + delay - writeWindowSec by omega)
  have past : ∀ t ∈ log, t ≤ writes.now + delay := by
    intro t member
    have before := logged.past t member
    omega
  by_cases forgotten : key ∈ writes.wc.stale (writes.now + delay)
  · have found : (writes.wc.gc (writes.now + delay)).entries.lookup key =
        none := by
      rw [WriteCounter.gc, lookup_eraseAll, if_pos forgotten]
    have empty : (writes.wc.gc (writes.now + delay)).timestamps key = [] := by
      rw [WriteCounter.timestamps, found]
    obtain ⟨_, old⟩ := List.mem_filter.mp forgotten
    obtain ⟨e, here, ttl⟩ := (Option.any_eq_true _ _).mp old
    obtain ⟨stamps, _⟩ := logged.seen e here
    have idle : writes.now + delay - e.lastSeen > writeEntryTTL := by
      simpa using ttl
    have stored : writes.wc.timestamps key = e.timestamps := by
      rw [WriteCounter.timestamps, here]
    have expired : ∀ t ∈ log, t ≤ writes.now + delay - writeWindowSec := by
      obtain ⟨front, split, out⟩ := later
      intro t member
      rw [split, stored] at member
      rcases List.mem_append.mp member with before | kept
      · exact out t before
      · have seen := stamps t kept
        rw [writeEntryTTL] at idle
        rw [writeWindowSec]
        omega
    constructor
    case sorted => exact logged.sorted
    case past => exact past
    case keeps =>
        simp only [Writes.step, empty]
        exact SlidingWindow.keeps_nil expired
    case few =>
        simp only [Writes.step, empty]
        exact Nat.zero_le _
    case seen =>
        intro e' some
        simp only [Writes.step, found] at some
        cases some
  · have found : (writes.wc.gc (writes.now + delay)).entries.lookup key =
        writes.wc.entries.lookup key := by
      rw [WriteCounter.gc, lookup_eraseAll, if_neg forgotten]
    have same : (writes.wc.gc (writes.now + delay)).timestamps key =
        writes.wc.timestamps key := by
      rw [WriteCounter.timestamps, WriteCounter.timestamps, found]
    constructor
    case sorted => exact logged.sorted
    case past => exact past
    case keeps =>
        simp only [Writes.step, same]
        exact later
    case few =>
        simp only [Writes.step, same]
        exact logged.few
    case seen =>
        intro e some
        simp only [Writes.step, found] at some
        obtain ⟨stamps, seen⟩ := logged.seen e some
        exact ⟨stamps, by simp only [Writes.step]; omega⟩

theorem step (logged : Logged writes key log) (timed : TimedWrite) :
    Logged (writes.step timed) key
      (log ++ if timed.call = .checkAndIncr key ∧
          writes.answer timed.delay key then [writes.now + timed.delay]
        else []) := by
  obtain ⟨delay, call⟩ := timed
  cases call with
  | checkAndIncr called =>
      have stepped := logged.checkAndIncr delay called
      simpa only [WriteCall.checkAndIncr.injEq] using stepped
  | gc =>
      have stepped := logged.gc delay
      simpa using stepped

theorem run (logged : Logged writes key log) (calls : List TimedWrite) :
    Logged (writes.run calls) key (log ++ writes.granted key calls) := by
  induction calls generalizing writes log with
  | nil =>
      rw [Writes.granted, List.append_nil]
      exact logged
  | cons timed rest induction =>
      have later := induction (logged.step timed)
      rw [Writes.granted, ← List.append_assoc]
      exact later

end Logged

/-- After any run, `CheckAndIncr` returns true if and only if fewer than 60 of
the calls with its key that returned true lie within the last minute. -/
theorem counter_is_window (created : Int) (calls : List TimedWrite) :
    (∀ (key : Text) (delay : Nat),
      ((Writes.start created).run calls).answer delay key = true ↔
        (((Writes.start created).granted key calls).filter fun t =>
          ((Writes.start created).run calls).now + delay - 60 < t ∧
            t ≤ ((Writes.start created).run calls).now + delay).length < 60) ∧
    ∀ (key : Text) (e : WriteEntry),
      ((Writes.start created).run calls).wc.entries.lookup key = some e →
        e.timestamps.Pairwise (· ≤ ·) ∧ e.timestamps.length ≤ 60 := by
  have logged : ∀ key, Logged ((Writes.start created).run calls) key
      ((Writes.start created).granted key calls) := by
    intro key
    have run := (logged_start created key).run calls
    simpa using run
  constructor
  · intro key delay
    rw [(logged key).answer_eq]
    have same : inside (((Writes.start created).run calls).now + delay -
        writeWindowSec) ((Writes.start created).granted key calls) =
        ((Writes.start created).granted key calls).filter fun t =>
          ((Writes.start created).run calls).now + delay - 60 < t ∧
            t ≤ ((Writes.start created).run calls).now + delay := by
      apply List.filter_congr
      intro t member
      have past := (logged key).past t member
      have within : t ≤ ((Writes.start created).run calls).now + delay := by
        omega
      rw [writeWindowSec, decide_eq_decide]
      exact (and_iff_left within).symm
    rw [same]
  · intro key e found
    have stored : ((Writes.start created).run calls).wc.timestamps key =
        e.timestamps := by
      rw [WriteCounter.timestamps, found]
    have sorted := (logged key).keeps.sorted (logged key).sorted
    have few := (logged key).few
    rw [stored] at sorted few
    exact ⟨sorted, few⟩

end Httpd.WriteLimit
