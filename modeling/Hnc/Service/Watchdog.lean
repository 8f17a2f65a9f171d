import Hnc.Lib.Runs
import Hnc.Net.Tables

/-!
# The repair of the watchdog and its circuit breaker

`full_restore` of `bin/watchdog.sh` with the files it keeps between calls: the
failure count, the end of the pause and the marker of a deliberate cleanup.
What a call finds outside these files (the clock, the interface, the probed
capabilities and the exit codes of the children) is part of the call.
-/

namespace Hnc.Watchdog

open Posix

/-- A child script with its arguments. -/
structure Child where
  script : Text
  args : List Text
deriving DecidableEq, Repr

/-- The files and variables that outlive a call. -/
structure Watch where
  failCount : Option Nat
  openUntil : Option Nat
  marker : Option Nat
  healthTs : Nat
  healthRc : Nat
deriving DecidableEq, Repr

def Watch.fresh : Watch := ⟨none, none, none, 0, 0⟩

/-- What one call of `full_restore` meets. -/
structure Call where
  markerClock : Nat
  circuitClock : Nat
  recordClock : Nat
  iface : Text
  capabilities : Option Text
  tcInitRc : Nat
  tcRestoreRc : Nat

structure Outcome where
  watch : Watch
  ran : List Child
  rc : Nat

def tcRepairFuseThreshold : Nat := 3

def tcRepairFuseSec : Nat := 300

def markerSec : Nat := 600

/-- `"key"[[:space:]]*:[[:space:]]*word` somewhere on the line. -/
def lineSays (key word line : Text) : Bool :=
  (matchKey key (after? word) line).isSome

def watchdogCapBoolValue (key : Text) (capabilities : Option Text) :
    Option Bool :=
  match capabilities with
  | none => none
  | some text =>
      if (records text).any (lineSays key "true".toList) then some true
      else if (records text).any (lineSays key "false".toList) then some false
      else none

def watchdogTcCoreSupported (capabilities : Option Text) : Bool :=
  watchdogCapBoolValue "tc_htb".toList capabilities != some false

def tcRepairAllowed (watch : Watch) (now : Nat) : Bool :=
  !decide (now < watch.openUntil.getD 0)

def tcRepairRecord (ok : Bool) (now : Nat) (watch : Watch) : Watch :=
  if ok then { watch with failCount := none, openUntil := none }
  else
    let cnt := watch.failCount.getD 0 + 1
    if tcRepairFuseThreshold ≤ cnt then
      { watch with failCount := some 0, openUntil := some (now + tcRepairFuseSec) }
    else { watch with failCount := some cnt }

/-- `command >> file`: when the file cannot be opened the command is not run;
the empty name names no file. -/
def appendTo (file : Text) (command : Child) : List Child :=
  if file = [] then [] else [command]

/-- The status of `[ words ]` for the comparison `-eq`; a missing operand is an
error. -/
def bracketEq : List Text → Nat
  | [left, ['-', 'e', 'q'], right] =>
      if decimal left = decimal right then 0 else 1
  | _ => 2

section FullRestore

variable (dir : Text)

def script (name : Text) : Text := dir ++ "/bin/".toList ++ name

def iptablesInit : Child :=
  ⟨script dir "iptables_manager.sh".toList, ["init".toList]⟩

def tcInit (iface : Text) : Child :=
  ⟨script dir "tc_manager.sh".toList, ["init".toList, iface]⟩

def tcRestore : Child :=
  ⟨script dir "tc_manager.sh".toList, ["restore".toList]⟩

def logFile : Text := dir ++ "/logs/watchdog.log".toList

def markerActive (watch : Watch) (now : Nat) : Bool :=
  match watch.marker with
  | none => false
  | some written => decide (now < written + markerSec)

/-- The repair proper, after the checks. -/
def repair (watch : Watch) (call : Call) : Outcome :=
  let ran := appendTo (logFile dir) (iptablesInit dir) ++
    appendTo (logFile dir) (tcInit dir call.iface) ++
    appendTo [] ⟨"/bin/tc_manager.sh".toList, ["restore".toList]⟩
  if bracketEq ["-eq".toList, "0".toList] = 0 ∧
      bracketEq ["-eq".toList, "0".toList] = 0 then
    ⟨{ tcRepairRecord true call.recordClock watch with
        healthTs := 0, healthRc := 0 }, ran, 0⟩
  else
    ⟨{ tcRepairRecord false call.recordClock watch with
        healthTs := 0, healthRc := 1 }, ran, 0⟩

/-- `full_restore`.  `get_iface` runs in a subshell, so its cache is never
filled. -/
def fullRestore (watch : Watch) (call : Call) : Outcome :=
  if markerActive watch call.markerClock then ⟨watch, [], 0⟩
  else
    let watch := { watch with marker := none }
    if call.iface = [] then ⟨watch, [], 1⟩
    else if ¬tcRepairAllowed watch call.circuitClock then
      ⟨{ watch with healthTs := 0, healthRc := 0 }, [], 0⟩
    else if ¬watchdogTcCoreSupported call.capabilities then
      ⟨{ watch with healthTs := 0, healthRc := 0 },
        appendTo (logFile dir) (iptablesInit dir), 0⟩
    else repair dir watch call

/-- The call passes the marker, interface, circuit and capability checks. -/
def Passes (watch : Watch) (call : Call) : Prop :=
  markerActive watch call.markerClock = false ∧ call.iface ≠ [] ∧
    tcRepairAllowed watch call.circuitClock = true ∧
    watchdogTcCoreSupported call.capabilities = true

instance (watch : Watch) (call : Call) : Decidable (Passes watch call) := by
  unfold Passes
  infer_instance

/-- A cleanup by the user, or a call of `full_restore`. -/
inductive Event where
  | cleanupRules (now : Nat)
  | fullRestore (call : Call)

def Failed (call : Call) : Prop :=
  call.tcInitRc ≠ 0 ∨ call.tcRestoreRc ≠ 0

instance (call : Call) : Decidable (Failed call) := by
  unfold Failed
  infer_instance

/-- The number of failed repairs in a row since the last success or pause. -/
def streakAfter (streak : Nat) (watch : Watch) (call : Call) : Nat :=
  if Passes watch call then
    if Failed call then
      if streak + 1 = tcRepairFuseThreshold then 0 else streak + 1
    else 0
  else streak

def step (state : Watch × Nat) : Event → Watch × Nat
  | .cleanupRules now => ({ state.1 with marker := some now }, state.2)
  | .fullRestore call =>
      ((fullRestore dir state.1 call).watch, streakAfter state.2 state.1 call)

/-- A call of `full_restore` repairs what it is allowed to repair, a success
closes the circuit, and only a third failure in a row opens it. -/
structure Repairs (streak : Nat) (watch : Watch) (call : Call) : Prop where
  restores : Passes watch call →
    [iptablesInit dir, tcInit dir call.iface, tcRestore dir].Sublist
      (fullRestore dir watch call).ran
  closes : Passes watch call → ¬Failed call →
    (fullRestore dir watch call).watch.failCount.getD 0 = 0 ∧
      ∀ now, call.circuitClock ≤ now →
        tcRepairAllowed (fullRestore dir watch call).watch now = true
  opens : (fullRestore dir watch call).watch.openUntil ≠ watch.openUntil →
    (fullRestore dir watch call).watch.openUntil.isSome →
    Passes watch call ∧ Failed call ∧ streak + 1 = tcRepairFuseThreshold

def EventRepairs (state : Watch × Nat) : Event → Prop
  | .cleanupRules _ => True
  | .fullRestore call => Repairs dir state.2 state.1 call

def NeverPasses (state : Watch × Nat) : Event → Prop
  | .cleanupRules _ => True
  | .fullRestore call => ¬Passes state.1 call

variable {dir} {watch : Watch} {call : Call}

theorem fullRestore_of_passes (passes : Passes watch call) :
    fullRestore dir watch call =
      repair dir { watch with marker := none } call := by
  obtain ⟨quiet, named, allowed, supported⟩ := passes
  have stillAllowed : tcRepairAllowed { watch with marker := none }
      call.circuitClock = true := allowed
  simp [fullRestore, quiet, named, stillAllowed, supported]

theorem tcRestore_not_ran (passes : Passes watch call) :
    tcRestore dir ∉ (fullRestore dir watch call).ran := by
  rw [fullRestore_of_passes passes]
  have ran : (repair dir { watch with marker := none } call).ran =
      [iptablesInit dir, tcInit dir call.iface] := by
    simp [repair, appendTo, logFile, bracketEq]
  rw [ran]
  simp [tcRestore, iptablesInit, tcInit]

theorem openUntil_of_not_passes (blocked : ¬Passes watch call) :
    (fullRestore dir watch call).watch.openUntil = watch.openUntil := by
  unfold fullRestore
  by_cases active : markerActive watch call.markerClock = true
  · rw [if_pos active]
  · rw [if_neg active]
    by_cases unnamed : call.iface = []
    · simp [unnamed]
    · by_cases allowed : tcRepairAllowed { watch with marker := none }
          call.circuitClock = true
      · by_cases supported : watchdogTcCoreSupported call.capabilities = true
        · exact absurd ⟨by simpa using active, unnamed, allowed, supported⟩
            blocked
        · simp [unnamed, allowed, supported]
      · simp [unnamed, allowed]

theorem repairs_iff_not_passes (streak : Nat) :
    Repairs dir streak watch call ↔ ¬Passes watch call := by
  constructor
  · intro repairs passes
    apply @tcRestore_not_ran dir watch call passes
    exact (repairs.restores passes).subset (by simp)
  · intro blocked
    constructor
    · intro passes
      exact absurd passes blocked
    · intro passes
      exact absurd passes blocked
    · intro changed
      exact absurd (openUntil_of_not_passes blocked) changed

end FullRestore

/-- The calls of a run do what they are for exactly when none of them gets as
far as the repair. -/
theorem run_repairs_iff_never_passes (dir : Text) (events : List Event) :
    Runs.Guarded (step dir) (EventRepairs dir) (Watch.fresh, 0) events ↔
      Runs.Guarded (step dir) NeverPasses (Watch.fresh, 0) events := by
  apply Runs.guarded_congr
  intro state event
  cases event with
  | cleanupRules now => exact Iff.rfl
  | fullRestore call => exact repairs_iff_not_passes state.2

/-- The first repair on a device without obstacles does not restore. -/
theorem first_repair_does_not_restore :
    ¬ ∀ (dir : Text) (events : List Event),
      Runs.Guarded (step dir) (EventRepairs dir) (Watch.fresh, 0) events := by
  intro always
  have repairs := (always "/data/local/hnc".toList
    [.fullRestore ⟨1000, 1000, 1001, "wlan2".toList, none, 0, 0⟩]).1
  have blocked := (repairs_iff_not_passes 0).mp repairs
  apply blocked
  decide

end Hnc.Watchdog
