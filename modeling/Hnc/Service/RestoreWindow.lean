import Hnc.Lib.Posix
import Hnc.Lib.Runs
import Mathlib.Algebra.Group.Nat.Defs
import Mathlib.Data.Int.Order.Basic
import Mathlib.Data.List.Basic
import Mathlib.Data.List.Pairwise

/-!
# The main loop of the watchdog

A round of `bin/watchdog.sh` sleeps, looks at the state file and the hotspot and
checks the health of the rules.  Failing checks lead to `full_restore`, at most
three times in a window; then the watchdog is passive until the next window
opens.  What a round meets outside these variables is part of the round.
-/

namespace Hnc.Watchdog.MainLoop

open Posix Runs

def intervalNormal : Nat := 60
def intervalRecovery : Nat := 30
def intervalDoze : Nat := 180
def probeIntervalPending : Nat := 10
def statsInterval : Int := 300
def restoreWindowMax : Nat := 3
def restoreWindowSec : Nat := 300
def restoreWindowSecMax : Nat := 3600

/-- The variables of the rate limit; `curWindowSec` is 0 as long as it is not
set. -/
structure Window where
  start : Int
  count : Nat
  consecWindows : Nat
  lastPassiveExitTs : Int
  passiveMode : Bool
  passiveLogged : Bool
  curWindowSec : Nat
deriving DecidableEq

def Window.fresh : Window :=
  ⟨0, 0, 0, 0, false, false, 0⟩

/-- `CUR_WINDOW_SEC`. -/
def Window.length (w : Window) : Nat :=
  if 0 < w.consecWindows then
    min (restoreWindowSec * 2 ^ w.consecWindows) restoreWindowSecMax
  else restoreWindowSec

/-- A new window opens when the old one is over. -/
def Window.advance (w : Window) (now : Int) : Window :=
  if w.length ≤ now - w.start then
    if w.passiveMode then
      { w with
        start := now
        count := 0
        consecWindows :=
          if now - w.lastPassiveExitTs < (restoreWindowSec : Int) * 2 then
            w.consecWindows + 1
          else 0
        passiveMode := false
        passiveLogged := false
        lastPassiveExitTs := now }
    else { w with start := now, count := 0 }
  else w

/-- The branch of a failing check, with whether `full_restore` is called. -/
def Window.fail (w : Window) (now : Int) : Window × Bool :=
  let w := { w with curWindowSec := w.length }.advance now
  if w.passiveMode then ({ w with passiveLogged := true }, false)
  else
    let count := w.count + 1
    ({ w with
        count := count
        passiveMode := decide (restoreWindowMax ≤ count) }, true)

structure Vars where
  firstRound : Bool
  interval : Nat
  recoveryRounds : Nat
  lastV6Sync : Int
  lastStatsSample : Int
  restoreCount : Nat
  window : Window
deriving DecidableEq

def Vars.fresh : Vars :=
  ⟨true, intervalNormal, 0, 0, 0, 0, .fresh⟩

/-- What a round meets: the state file, doze, the hotspot with its interface and
address, the health and the clock at its two readings. -/
structure Round where
  state : Text
  doze : Bool
  probe : Option (Text × Text)
  healthRc : Nat
  nowRl : Int
  now : Int

/-- What a round does outside its variables. -/
inductive Act where
  | sleep (seconds : Nat)
  | resetState
  | cleanupStaleRules
  | doFullInit (iface ip : Text)
  | doMigrate (active new ip : Text)
  | capabilityProbe (iface : Text)
  | checkHealth
  | fullRestore
  | v6Sync
  | statsSample
  | checkHttpdBindDrift
  | ensureHttpdRunning
  | ensureTcUplinkHealthy
  | checkServices
  | ensureDpidRunning
  | heartbeat
  | rotateLogs
deriving DecidableEq

def pendingState : Text := "PENDING".toList
def activePrefix : Text := "ACTIVE:".toList

/-- The sleep in front of a round, with the state after it. -/
def Vars.pause (v : Vars) (state : Text) : Text × List Act :=
  if v.firstRound then (state, [])
  else if state = pendingState then (state, [.sleep probeIntervalPending])
  else if activePrefix.isPrefixOf state then (state, [.sleep v.interval])
  else (pendingState, [.resetState, .sleep probeIntervalPending])

/-- The health check with what follows from it. -/
def Vars.health (v : Vars) (rc : Nat) (nowRl : Int) : Vars × List Act :=
  if rc = 2 then ({ v with interval := intervalNormal }, [])
  else if rc ≠ 0 then
    let failed := v.window.fail nowRl
    if failed.2 then
      ({ v with
          window := failed.1
          restoreCount := v.restoreCount + 1
          interval := intervalRecovery
          recoveryRounds := 3 }, [.fullRestore])
    else ({ v with window := failed.1, interval := intervalNormal }, [])
  else if 0 < v.recoveryRounds then
    ({ v with
        recoveryRounds := v.recoveryRounds - 1
        interval := if v.recoveryRounds = 1 then intervalNormal else v.interval },
      [])
  else ({ v with interval := intervalNormal }, [])

/-- The periodic work behind the health check. -/
def Vars.periodic (v : Vars) (now : Int) : Vars × List Act :=
  let sync := 60 ≤ now - v.lastV6Sync
  let sample := statsInterval ≤ now - v.lastStatsSample
  ({ v with
      lastV6Sync := if sync then now else v.lastV6Sync
      lastStatsSample := if sample then now else v.lastStatsSample },
    (if sync then [.v6Sync] else []) ++ (if sample then [.statsSample] else []) ++
      [.checkHttpdBindDrift, .ensureHttpdRunning, .ensureTcUplinkHealthy])

def housekeeping : List Act :=
  [.checkServices, .ensureDpidRunning, .heartbeat, .rotateLogs]

/-- The case `ACTIVE:*`. -/
def Vars.active (v : Vars) (activeIface : Text) (r : Round) : Vars × List Act :=
  match r.probe with
  | none => (v, [.checkServices, .heartbeat, .rotateLogs])
  | some (newIface, newIp) =>
      if newIface ≠ activeIface then
        (v, [.doMigrate activeIface newIface newIp, .ensureHttpdRunning])
      else
        let checked := v.health r.healthRc r.nowRl
        let worked := checked.1.periodic r.now
        (worked.1, .capabilityProbe newIface :: .checkHealth :: checked.2 ++
          worked.2 ++ housekeeping)

/-- One turn of the loop. -/
def Vars.round (v : Vars) (r : Round) : Vars × List Act :=
  let paused := v.pause r.state
  let state := paused.1
  let acts := paused.2 ++ [.cleanupStaleRules]
  let v := { v with firstRound := false }
  if r.doze then ({ v with interval := intervalDoze }, acts)
  else if state = pendingState then
    match r.probe with
    | none => (v, acts ++ housekeeping)
    | some (iface, ip) =>
        (v, acts ++ [.doFullInit iface ip, .ensureHttpdRunning] ++ housekeeping)
  else if activePrefix.isPrefixOf state then
    let active := v.active (state.drop activePrefix.length) r
    (active.1, acts ++ active.2)
  else (v, acts ++ housekeeping)

/-! ### Runs -/

/-- A call of `full_restore` and the window it is made in. -/
structure Restore where
  time : Int
  window : Int
deriving DecidableEq

/-- The variables, the clock, the calls so far and the values that
`RESTORE_WINDOW_START` has been set to. -/
structure History where
  vars : Vars
  clock : Int
  restores : List Restore
  changes : List Int

def History.start (clock : Nat) : History :=
  ⟨.fresh, clock, [], []⟩

def History.step (h : History) (r : Round) : History :=
  let done := h.vars.round r
  let opened := done.1.window.start
  { vars := done.1
    clock := r.now
    restores := h.restores ++
      if .fullRestore ∈ done.2 then [⟨r.nowRl, opened⟩] else []
    changes := h.changes ++ if opened ≠ h.vars.window.start then [opened] else [] }

/-- The clock does not go back. -/
def OnTime (h : History) (r : Round) : Prop :=
  h.clock ≤ r.nowRl ∧ r.nowRl ≤ r.now

instance (h : History) (r : Round) : Decidable (OnTime h r) :=
  inferInstanceAs (Decidable (_ ∧ _))

/-- The calls that are made in a window. -/
def History.callsIn (h : History) (window : Int) : Nat :=
  h.restores.countP fun restore => decide (restore.window = window)

/-- The calls between two times. -/
def History.callsWithin (h : History) (first last : Int) : Nat :=
  h.restores.countP fun restore =>
    decide (first ≤ restore.time ∧ restore.time ≤ last)

/-- Repairs are rate limited. -/
structure RateLimited (h : History) : Prop where
  perWindow : ∀ window, h.callsIn window ≤ 3
  apart : h.changes.Pairwise fun earlier later => earlier + 300 ≤ later
  perInterval : ∀ first last, last - first < 300 → h.callsWithin first last ≤ 6
  passive : h.vars.window.passiveMode = true ↔
    h.callsIn h.vars.window.start = 3

/-- A failing check opens a window and repairs, out of the passive mode or not,
stays passive, or repairs again. -/
theorem fail_cases (w : Window) (now : Int) :
    (w.length ≤ now - w.start ∧ w.passiveMode = true ∧
      w.fail now = ({ w with
        start := now
        count := 1
        consecWindows :=
          if now - w.lastPassiveExitTs < (restoreWindowSec : Int) * 2 then
            w.consecWindows + 1
          else 0
        lastPassiveExitTs := now
        passiveMode := false
        passiveLogged := false
        curWindowSec := w.length }, true)) ∨
    (w.length ≤ now - w.start ∧ w.passiveMode = false ∧
      w.fail now = ({ w with
        start := now
        count := 1
        curWindowSec := w.length }, true)) ∨
    (now - w.start < w.length ∧ w.passiveMode = true ∧
      w.fail now = ({ w with
        passiveLogged := true
        curWindowSec := w.length }, false)) ∨
    (now - w.start < w.length ∧ w.passiveMode = false ∧
      w.fail now = ({ w with
        count := w.count + 1
        passiveMode := decide (3 ≤ w.count + 1)
        curWindowSec := w.length }, true)) := by
  have same : ({ w with curWindowSec := w.length } : Window).length = w.length :=
    rfl
  unfold Window.fail Window.advance
  rw [same]
  by_cases expired : w.length ≤ now - w.start
  · rw [if_pos expired]
    cases mode : w.passiveMode with
    | true => exact .inl ⟨expired, rfl, rfl⟩
    | false => exact .inr (.inl ⟨expired, rfl, by simp [restoreWindowMax]⟩)
  · have inside := Int.not_le.mp expired
    rw [if_neg expired]
    cases mode : w.passiveMode with
    | true => exact .inr (.inr (.inl ⟨inside, rfl, by simp⟩))
    | false =>
        exact .inr (.inr (.inr ⟨inside, rfl, by simp [restoreWindowMax]⟩))

/-- What holds of the window at every round. -/
structure Window.Inv (w : Window) (clock : Int) : Prop where
  count_le : w.count ≤ 3
  passive_iff : w.passiveMode = true ↔ w.count = 3
  exit_le : w.lastPassiveExitTs ≤ w.start
  start_le : w.start ≤ clock
  consec_le : w.consecWindows ≤ 1
  cur_le : w.curWindowSec ≤ 600

variable {w : Window}

theorem length_of_consec (low : w.consecWindows ≤ 1) :
    w.length = if w.consecWindows = 0 then 300 else 600 := by
  rw [Window.length]
  rcases Nat.le_one_iff_eq_zero_or_eq_one.mp low with zero | one
  · rw [zero]
    rfl
  · rw [one]
    rfl

variable {clock : Int}

/-- A window that is left is too long for the back-off to grow again. -/
theorem Window.Inv.fail {now : Int} (inv : w.Inv clock) (later : clock ≤ now) :
    (w.fail now).1.Inv now := by
  obtain ⟨count_le, passive_iff, exit_le, start_le, consec_le, cur_le⟩ := inv
  have length := length_of_consec consec_le
  have short : w.length ≤ 600 := by
    rw [length]
    split <;> decide
  rcases fail_cases w now with ⟨expired, _, fails⟩ | ⟨expired, active, fails⟩ |
    ⟨inside, passive, fails⟩ | ⟨inside, active, fails⟩
  · rw [fails]
    refine ⟨show 1 ≤ 3 by decide, by simp, Int.le_refl now, Int.le_refl now, ?_,
      short⟩
    by_cases soon : now - w.lastPassiveExitTs < (restoreWindowSec : Int) * 2
    · rw [if_pos soon]
      change w.consecWindows + 1 ≤ 1
      rw [restoreWindowSec] at soon
      -- A back-off of one makes the window itself 600 seconds long.
      by_cases low : w.consecWindows = 0
      · omega
      · rw [if_neg low] at length
        omega
    · rw [if_neg soon]
      exact Nat.zero_le 1
  · rw [fails]
    refine ⟨show 1 ≤ 3 by decide, by simp [active], ?_, Int.le_refl now,
      consec_le, short⟩
    simp only
    omega
  · rw [fails]
    exact ⟨count_le, passive_iff, exit_le, start_le.trans later, consec_le, short⟩
  · rw [fails]
    have few : w.count ≠ 3 := by
      intro full
      rw [passive_iff.mpr full] at active
      cases active
    refine ⟨?_, ?_, exit_le, start_le.trans later, consec_le, short⟩
    · simp only
      omega
    · simp only [decide_eq_true_eq]
      omega

theorem pause_no_restore (v : Vars) (state : Text) :
    .fullRestore ∉ (v.pause state).2 := by
  unfold Vars.pause
  split
  · simp
  · split
    · simp
    · split <;> simp

theorem periodic_window (v : Vars) (now : Int) :
    (v.periodic now).1.window = v.window ∧
      .fullRestore ∉ (v.periodic now).2 := by
  refine ⟨rfl, ?_⟩
  unfold Vars.periodic
  simp only
  split <;> split <;> simp

theorem health_window (v : Vars) (rc : Nat) (nowRl : Int) :
    ((v.health rc nowRl).1.window = v.window ∧
      .fullRestore ∉ (v.health rc nowRl).2) ∨
    ((v.health rc nowRl).1.window = (v.window.fail nowRl).1 ∧
      (.fullRestore ∈ (v.health rc nowRl).2 ↔
        (v.window.fail nowRl).2 = true)) := by
  unfold Vars.health
  split
  · simp
  · split
    · right
      simp only
      split
      · rename_i failed
        simp [failed]
      · rename_i failed
        simp [failed]
    · left
      split <;> simp

theorem round_window (v : Vars) (r : Round) :
    ((v.round r).1.window = v.window ∧ .fullRestore ∉ (v.round r).2) ∨
    ((v.round r).1.window = (v.window.fail r.nowRl).1 ∧
      (.fullRestore ∈ (v.round r).2 ↔ (v.window.fail r.nowRl).2 = true)) := by
  have paused := pause_no_restore v r.state
  unfold Vars.round
  simp only
  split
  · exact .inl ⟨rfl, by simp [paused]⟩
  · split
    · left
      split <;> simp [paused, housekeeping]
    · split
      · unfold Vars.active
        split
        · exact .inl ⟨rfl, by simp [paused]⟩
        · rename_i newIface newIp probed
          split
          · exact .inl ⟨rfl, by simp [paused]⟩
          · have checked := health_window { v with firstRound := false } r.healthRc
              r.nowRl
            generalize Vars.health { v with firstRound := false } r.healthRc r.nowRl =
              done at checked ⊢
            obtain ⟨window, quiet⟩ := periodic_window done.1 r.now
            have acts : .fullRestore ∈ (v.pause r.state).2 ++ [.cleanupStaleRules] ++
                (.capabilityProbe newIface :: .checkHealth :: done.2 ++
                  (done.1.periodic r.now).2 ++ housekeeping) ↔
                .fullRestore ∈ done.2 := by
              simp [paused, quiet, housekeeping]
            rw [acts]
            exact checked
      · exact .inl ⟨rfl, by simp [paused, housekeeping]⟩

/-! ### Every run -/

/-- Two calls in two windows: the later window opens at least 300 seconds behind
the earlier one, and not before the earlier call. -/
def InOrder (earlier later : Restore) : Prop :=
  earlier.window = later.window ∨
    earlier.window + 300 ≤ later.window ∧ earlier.time ≤ later.window

structure History.Inv (h : History) : Prop where
  window : h.vars.window.Inv h.clock
  counted : h.callsIn h.vars.window.start = h.vars.window.count
  few : ∀ window, h.callsIn window ≤ 3
  apart : h.changes.Pairwise fun earlier later => earlier + 300 ≤ later
  changed : ∀ change ∈ h.changes, change ≤ h.vars.window.start
  ordered : h.restores.Pairwise InOrder
  past : ∀ restore ∈ h.restores, restore.window ≤ restore.time ∧
    restore.time ≤ h.clock ∧
    (restore.window = h.vars.window.start ∨
      restore.window + 300 ≤ h.vars.window.start ∧
        restore.time ≤ h.vars.window.start)

/-- Two calls are made in one window or in windows 300 seconds apart. -/
def Separate (call other : Restore) : Prop :=
  call.window = other.window ∨ call.window + 300 ≤ other.window ∨
    other.window + 300 ≤ call.window

instance : Std.Symm Separate where
  symm call other separate := by
    rcases separate with same | below | above
    · exact .inl same.symm
    · exact .inr (.inr below)
    · exact .inr (.inl above)

theorem InOrder.separate {earlier later : Restore}
    (order : InOrder earlier later) : Separate earlier later := by
  rcases order with same | ⟨below, _⟩
  · exact .inl same
  · exact .inr (.inl below)

theorem separate_of_inOrder {calls : List Restore}
    (ordered : calls.Pairwise InOrder) {call other : Restore}
    (callIn : call ∈ calls) (otherIn : other ∈ calls) : Separate call other :=
  (ordered.imp InOrder.separate).forall_of_forall (fun _ _ => .inl rfl) callIn
    otherIn

/-- Calls less than 300 seconds apart are made in two windows. -/
theorem two_windows {first last : Int} (short : last - first < 300)
    {calls : List Restore} (ordered : calls.Pairwise InOrder)
    (inside : ∀ call ∈ calls, call.window ≤ call.time ∧ first ≤ call.time ∧
      call.time ≤ last) :
    ∃ one two, ∀ call ∈ calls, call.window = one ∨ call.window = two := by
  cases calls with
  | nil => exact ⟨0, 0, fun call member => absurd member List.not_mem_nil⟩
  | cons head rest =>
      obtain ⟨behind, ordered⟩ := List.pairwise_cons.mp ordered
      have begun : first ≤ head.time := (inside head List.mem_cons_self).2.1
      -- A window that opens behind the first call is the last one to open.
      have other : ∀ call ∈ rest, call.window ≠ head.window →
          first ≤ call.window := by
        intro call member differs
        rcases behind call member with same | ⟨_, opened⟩
        · exact absurd same.symm differs
        · exact begun.trans opened
      by_cases all : ∀ call ∈ rest, call.window = head.window
      · refine ⟨head.window, head.window, ?_⟩
        intro call member
        left
        rcases List.mem_cons.mp member with here | later
        · rw [here]
        · exact all call later
      · push Not at all
        obtain ⟨second, secondIn, secondDiffers⟩ := all
        refine ⟨head.window, second.window, ?_⟩
        intro call member
        rcases List.mem_cons.mp member with here | later
        · exact .inl (congrArg Restore.window here)
        · by_cases same : call.window = head.window
          · exact .inl same
          · right
            have lower := other call later same
            have secondLower := other second secondIn secondDiffers
            obtain ⟨callOpened, _, callBefore⟩ := inside call member
            obtain ⟨secondOpened, _, secondBefore⟩ :=
              inside second (List.mem_cons_of_mem _ secondIn)
            rcases separate_of_inOrder ordered later secondIn with one | below | above
            · exact one
            · omega
            · omega

variable {h : History}

theorem History.Inv.perInterval (inv : h.Inv) {first last : Int}
    (short : last - first < 300) : h.callsWithin first last ≤ 6 := by
  let within : Restore → Bool := fun call =>
    decide (first ≤ call.time ∧ call.time ≤ last)
  have sub : (h.restores.filter within).Sublist h.restores :=
    List.filter_sublist
  have inside : ∀ call ∈ h.restores.filter within, call.window ≤ call.time ∧
      first ≤ call.time ∧ call.time ≤ last := by
    intro call member
    obtain ⟨made, kept⟩ := List.mem_filter.mp member
    exact ⟨(inv.past call made).1, of_decide_eq_true kept⟩
  obtain ⟨one, two, either⟩ := two_windows short (inv.ordered.sublist sub) inside
  have few : ∀ window, (h.restores.filter within).countP
      (fun call => decide (call.window = window)) ≤ 3 := by
    intro window
    exact (sub.countP_le).trans (inv.few window)
  calc h.callsWithin first last
      = (h.restores.filter within).length := List.countP_eq_length_filter
    _ = (h.restores.filter within).countP (fun call => decide (call.window = one)) +
        (h.restores.filter within).countP
          (fun call => decide (¬ decide (call.window = one) = true)) :=
      List.length_eq_countP_add_countP _
    _ ≤ 3 + (h.restores.filter within).countP
          (fun call => decide (call.window = two)) := by
      apply Nat.add_le_add (few one)
      apply List.countP_mono_left
      intro call member differs
      rcases either call member with same | same
      · simp [same] at differs
      · exact decide_eq_true same
    _ ≤ 3 + 3 := Nat.add_le_add_left (few two) 3

theorem History.Inv.rateLimited (inv : h.Inv) : RateLimited h where
  perWindow := inv.few
  apart := inv.apart
  perInterval _ _ short := inv.perInterval short
  passive := by
    rw [inv.counted]
    exact inv.window.passive_iff

theorem inv_fresh (positive : 0 ≤ clock) : Window.fresh.Inv clock :=
  ⟨by decide, by decide, by decide, positive, by decide, by decide⟩

theorem inv_start (clock : Nat) : (History.start clock).Inv where
  window := inv_fresh (Int.natCast_nonneg clock)
  counted := rfl
  few _ := Nat.zero_le 3
  apart := List.Pairwise.nil
  changed _ member := absurd member List.not_mem_nil
  ordered := List.Pairwise.nil
  past _ member := absurd member List.not_mem_nil

variable {r : Round} {vars : Vars}

/-- A round without a call in an unchanged window. -/
theorem History.Inv.quiet (inv : h.Inv) (onTime : OnTime h r)
    (window : vars.window.Inv r.now)
    (start : vars.window.start = h.vars.window.start)
    (count : vars.window.count = h.vars.window.count) :
    History.Inv ⟨vars, r.now, h.restores, h.changes⟩ where
  window := window
  counted := by
    rw [start, count]
    exact inv.counted
  few := inv.few
  apart := inv.apart
  changed change member := by
    rw [start]
    exact inv.changed change member
  ordered := inv.ordered
  past restore member := by
    obtain ⟨opened, made, other⟩ := inv.past restore member
    rw [start]
    exact ⟨opened, made.trans (onTime.1.trans onTime.2), other⟩

theorem callsIn_concat (h : History) (vars : Vars) (clock : Int)
    (changes : List Int) (restore : Restore) (window : Int) :
    History.callsIn ⟨vars, clock, h.restores ++ [restore], changes⟩ window =
      h.callsIn window + if restore.window = window then 1 else 0 := by
  rw [History.callsIn, History.callsIn, List.countP_append, List.countP_singleton]
  simp only [decide_eq_true_eq]

theorem History.Inv.opened (inv : h.Inv) (onTime : OnTime h r)
    (window : vars.window.Inv r.now) (start : vars.window.start = r.nowRl)
    (count : vars.window.count = 1)
    (expired : h.vars.window.start + 300 ≤ r.nowRl) :
    History.Inv ⟨vars, r.now, h.restores ++ [⟨r.nowRl, r.nowRl⟩],
      h.changes ++ [r.nowRl]⟩ := by
  have old : ∀ restore ∈ h.restores, restore.window + 300 ≤ r.nowRl := by
    intro restore member
    obtain ⟨_, _, same | before⟩ := inv.past restore member <;> omega
  have none : h.callsIn r.nowRl = 0 := by
    apply List.countP_eq_zero.mpr
    intro restore member
    have before := old restore member
    rw [decide_eq_true_eq]
    omega
  constructor
  · exact window
  · rw [callsIn_concat, start, none, count, if_pos rfl]
  · intro other
    rw [callsIn_concat]
    by_cases here : r.nowRl = other
    · rw [← here, none, if_pos rfl]
      decide
    · rw [if_neg here]
      exact inv.few other
  · apply List.pairwise_append.mpr
    refine ⟨inv.apart, List.pairwise_singleton _ _, ?_⟩
    intro change member later here
    have before := inv.changed change member
    rw [List.mem_singleton.mp here]
    omega
  · intro change member
    change change ≤ vars.window.start
    rw [start]
    rcases List.mem_append.mp member with earlier | here
    · have before := inv.changed change earlier
      omega
    · exact (List.mem_singleton.mp here).le
  · apply List.pairwise_append.mpr
    refine ⟨inv.ordered, List.pairwise_singleton _ _, ?_⟩
    intro restore member later here
    obtain ⟨_, made, _⟩ := inv.past restore member
    rw [List.mem_singleton.mp here]
    exact .inr ⟨old restore member, made.trans onTime.1⟩
  · intro restore member
    change restore.window ≤ restore.time ∧ restore.time ≤ r.now ∧
      (restore.window = vars.window.start ∨
        restore.window + 300 ≤ vars.window.start ∧
          restore.time ≤ vars.window.start)
    rw [start]
    rcases List.mem_append.mp member with earlier | here
    · obtain ⟨opened, made, _⟩ := inv.past restore earlier
      exact ⟨opened, made.trans (onTime.1.trans onTime.2),
        .inr ⟨old restore earlier, made.trans onTime.1⟩⟩
    · rw [List.mem_singleton.mp here]
      exact ⟨Int.le_refl _, onTime.2, .inl rfl⟩

theorem History.Inv.repaired (inv : h.Inv) (onTime : OnTime h r)
    (window : vars.window.Inv r.now)
    (start : vars.window.start = h.vars.window.start)
    (count : vars.window.count = h.vars.window.count + 1) :
    History.Inv ⟨vars, r.now,
      h.restores ++ [⟨r.nowRl, h.vars.window.start⟩], h.changes⟩ := by
  constructor
  · exact window
  · rw [callsIn_concat, start, inv.counted, count, if_pos rfl]
  · intro other
    rw [callsIn_concat]
    by_cases here : h.vars.window.start = other
    · rw [← here, inv.counted, if_pos rfl, ← count]
      exact window.count_le
    · rw [if_neg here]
      exact inv.few other
  · exact inv.apart
  · intro change member
    change change ≤ vars.window.start
    rw [start]
    exact inv.changed change member
  · apply List.pairwise_append.mpr
    refine ⟨inv.ordered, List.pairwise_singleton _ _, ?_⟩
    intro restore member later here
    obtain ⟨opened, made, same | before⟩ := inv.past restore member
    · rw [List.mem_singleton.mp here]
      exact .inl same
    · rw [List.mem_singleton.mp here]
      exact .inr before
  · intro restore member
    change restore.window ≤ restore.time ∧ restore.time ≤ r.now ∧
      (restore.window = vars.window.start ∨
        restore.window + 300 ≤ vars.window.start ∧
          restore.time ≤ vars.window.start)
    rw [start]
    rcases List.mem_append.mp member with earlier | here
    · obtain ⟨opened, made, other⟩ := inv.past restore earlier
      exact ⟨opened, made.trans (onTime.1.trans onTime.2), other⟩
    · rw [List.mem_singleton.mp here]
      exact ⟨inv.window.start_le.trans onTime.1, onTime.2, .inl rfl⟩

theorem Window.Inv.later {now : Int} (inv : w.Inv clock) (later : clock ≤ now) :
    w.Inv now :=
  ⟨inv.count_le, inv.passive_iff, inv.exit_le, inv.start_le.trans later,
    inv.consec_le, inv.cur_le⟩

theorem Window.Inv.length_ge (inv : w.Inv clock) : 300 ≤ w.length := by
  rw [length_of_consec inv.consec_le]
  split <;> decide

theorem History.Inv.step (inv : h.Inv) (onTime : OnTime h r) :
    (h.step r).Inv := by
  have long := inv.window.length_ge
  have failed := (inv.window.fail onTime.1).later onTime.2
  rw [History.step]
  rcases round_window h.vars r with ⟨same, none⟩ | ⟨fails, called⟩
  · rw [if_neg none, if_neg (by simp [same]), List.append_nil, List.append_nil]
    apply inv.quiet onTime
    · rw [same]
      exact inv.window.later (onTime.1.trans onTime.2)
    · rw [same]
    · rw [same]
  · rw [← fails] at failed
    rcases fail_cases h.vars.window r.nowRl with ⟨expired, _, does⟩ |
      ⟨expired, _, does⟩ | ⟨_, _, does⟩ | ⟨_, _, does⟩
    · rw [does] at called
      have start : (h.vars.round r).1.window.start = r.nowRl := by
        rw [fails, does]
      rw [if_pos (called.mpr rfl), start, if_pos (by omega)]
      apply inv.opened onTime failed start
      · rw [fails, does]
      · omega
    · rw [does] at called
      have start : (h.vars.round r).1.window.start = r.nowRl := by
        rw [fails, does]
      rw [if_pos (called.mpr rfl), start, if_pos (by omega)]
      apply inv.opened onTime failed start
      · rw [fails, does]
      · omega
    · rw [does] at called
      have start : (h.vars.round r).1.window.start = h.vars.window.start := by
        rw [fails, does]
      rw [if_neg (by simp [called]), start, if_neg (by simp), List.append_nil,
        List.append_nil]
      apply inv.quiet onTime failed start
      rw [fails, does]
    · rw [does] at called
      have start : (h.vars.round r).1.window.start = h.vars.window.start := by
        rw [fails, does]
      rw [if_pos (called.mpr rfl), start, if_neg (by simp), List.append_nil]
      apply inv.repaired onTime failed start
      rw [fails, does]

/-- Repairs are rate limited in every run on a clock that does not go back. -/
theorem restores_are_rate_limited (clock : Nat) (rounds : List Round)
    (onTime : Guarded History.step OnTime (.start clock) rounds) :
    ∀ history ∈ visited History.step (.start clock) rounds,
      RateLimited history := by
  intro history member
  apply History.Inv.rateLimited
  exact onTime.induction History.Inv (fun _ _ inv now => inv.step now)
    (inv_start clock) history member

/-- A round in which the hotspot is up and the check finds the rules lost. -/
def failingRound (now : Int) : Round where
  state := activePrefix ++ "wlan2".toList
  doze := false
  probe := some ("wlan2".toList, "192.168.43.1".toList)
  healthRc := 1
  nowRl := now
  now := now

/-- Six failing checks, the last of them in a second window. -/
def failingRounds : List Round :=
  ([1000, 1030, 1060, 1120, 1240, 1300] : List Int).map failingRound

theorem six_failing_checks_are_rate_limited :
    (failingRounds.foldl History.step (.start 900)).restores.length = 4 ∧
      ∀ history ∈ visited History.step (.start 900) failingRounds,
        RateLimited history :=
  ⟨by decide +kernel,
    restores_are_rate_limited 900 failingRounds (by decide +kernel)⟩

/-- The run of an endless sequence of rounds. -/
def trace (clock : Nat) (rounds : Nat → Round) : Nat → History
  | 0 => .start clock
  | n + 1 => (trace clock rounds n).step (rounds n)

/-- The round checks the health of the rules. -/
def Checks (r : Round) : Prop :=
  r.doze = false ∧ ∃ iface ip, r.state = activePrefix ++ iface ∧
    r.probe = some (iface, ip)

/-- A run in the state `ACTIVE` whose checks all fail, at most 60 seconds
apart. -/
structure Failing (clock : Nat) (rounds : Nat → Round) : Prop where
  onTime : ∀ n, OnTime (trace clock rounds n) (rounds n)
  active : ∀ n, ∃ iface, (rounds n).state = activePrefix ++ iface
  fails : ∀ n, Checks (rounds n) →
    (rounds n).healthRc ≠ 0 ∧ (rounds n).healthRc ≠ 2
  begins : ∃ n, Checks (rounds n)
  often : ∀ n, Checks (rounds n) → ∃ next, n < next ∧ Checks (rounds next) ∧
    (rounds next).nowRl ≤ (rounds n).nowRl + 60

/-- How often the watchdog has become passive. -/
def passivePeriods (run : Nat → History) : Nat → Nat
  | 0 => 0
  | n + 1 => passivePeriods run n +
      if (run n).vars.window.passiveMode = false ∧
        (run (n + 1)).vars.window.passiveMode = true then 1 else 0

/-- The window grows from the second passive period on, and reaches its
maximum. -/
structure BacksOff (run : Nat → History) : Prop where
  grows : ∀ earlier later, 2 ≤ passivePeriods run earlier → earlier ≤ later →
    (run earlier).vars.window.curWindowSec ≤ (run later).vars.window.curWindowSec
  reaches : ∃ first, ∀ n, first ≤ n →
    (run n).vars.window.curWindowSec = restoreWindowSecMax

theorem Failing.inv {clock : Nat} {rounds : Nat → Round}
    (failing : Failing clock rounds) (n : Nat) : (trace clock rounds n).Inv := by
  induction n with
  | zero => exact inv_start clock
  | succ n induction => exact induction.step (failing.onTime n)

/-- No window is longer than 600 seconds: its end is no longer within 600 seconds
of the last one. -/
theorem Failing.curWindowSec_le {clock : Nat} {rounds : Nat → Round}
    (failing : Failing clock rounds) (n : Nat) :
    (trace clock rounds n).vars.window.curWindowSec ≤ 600 :=
  (failing.inv n).window.cur_le

/-- The window never reaches its maximum, however long the failure lasts. -/
theorem failing_run_never_backs_off (clock : Nat) (rounds : Nat → Round)
    (failing : Failing clock rounds) : ¬ BacksOff (trace clock rounds) := by
  intro backsOff
  obtain ⟨first, maximal⟩ := backsOff.reaches
  have short := failing.curWindowSec_le first
  rw [maximal first (Nat.le_refl first)] at short
  exact absurd short (by decide)

/-- A check every minute, all of them failing. -/
def minuteRun (n : Nat) : Round :=
  failingRound (1000 + 60 * n)

theorem failing_minuteRun : Failing 900 minuteRun where
  onTime n := by
    constructor
    · cases n with
      | zero => decide
      | succ n =>
          change (1000 + 60 * (n : Int)) ≤ 1000 + 60 * ((n + 1 : Nat) : Int)
          omega
    · exact Int.le_refl _
  active n := ⟨"wlan2".toList, rfl⟩
  fails n _ := ⟨show 1 ≠ 0 by decide, show 1 ≠ 2 by decide⟩
  begins := ⟨0, rfl, "wlan2".toList, "192.168.43.1".toList, rfl, rfl⟩
  often n _ := by
    refine ⟨n + 1, Nat.lt_succ_self n, ⟨rfl, "wlan2".toList,
      "192.168.43.1".toList, rfl, rfl⟩, ?_⟩
    change 1000 + 60 * ((n + 1 : Nat) : Int) ≤ 1000 + 60 * (n : Int) + 60
    omega

theorem minute_run_never_backs_off : ¬ BacksOff (trace 900 minuteRun) :=
  failing_run_never_backs_off 900 minuteRun failing_minuteRun

theorem persistent_failure_does_not_back_off :
    ¬ ∀ clock rounds, Failing clock rounds → BacksOff (trace clock rounds) := by
  intro always
  obtain ⟨first, maximal⟩ := (always 900 minuteRun failing_minuteRun).reaches
  have short := failing_minuteRun.curWindowSec_le first
  rw [maximal first (Nat.le_refl first)] at short
  exact absurd short (by decide)

end Hnc.Watchdog.MainLoop
