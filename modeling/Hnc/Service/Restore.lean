import Hnc.Json.Commands
import Hnc.Net.IptablesManager
import Hnc.Service.Lock

/-!
# `tc_manager.sh restore`

The command takes the TC lock and the gate and then runs `iptables_manager.sh`
as a child for every device and every blocked address.  The child takes the
lock of its address first, for which it waits until the gate is free.
-/

namespace Hnc.TcManager

open Posix IptablesManager Lock

structure World where
  locks : Locks
  tables : Tables

/-- What `restore_rules` finds outside the lock directories and the chains. -/
structure Env where
  rules : Text
  devices : Option Text
  curPrefix : Text
  limitSupported : Bool
  delaySupported : Bool
  setAll : List Text → Bool

/-- `case "$1"` of `iptables_manager.sh` for the commands with an address lock:
without the lock the child exits with 11. -/
def underMacLock (mac : Text) (command : Tables → Tables) (world : World) :
    World :=
  let locked := macLock mac world.locks
  if locked.2 = 0 then ⟨macUnlock mac locked.1, command world.tables⟩
  else ⟨locked.1, world.tables⟩

def iptablesMark (ip mac : Text) (markId : Nat) : World → World :=
  underMacLock mac (markDevice ip mac markId)

def iptablesBlacklistAdd (ip mac : Text) : World → World :=
  underMacLock mac (blacklistAdd ip mac)

/-- `awk 'BEGIN{exit !(v+0 > 0)}'` on a text of digits and points: the longest
numeral at its front has a digit other than zero. -/
def gt0 (v : Text) : Bool :=
  let whole := v.takeWhile isDigit
  let fraction :=
    match v.dropWhile isDigit with
    | '.' :: rest => rest.takeWhile isDigit
    | _ => []
  (whole ++ fraction).any (· != '0')

/-- `ip_prefix24`. -/
def ipPrefix24 (ip : Text) : Text :=
  match fields '.' ip with
  | [a, b, c, _] => a ++ '.' :: b ++ '.' :: c ++ ['.']
  | _ => []

/-- `cut -d'|' -fN` on the printed line of the second pass. -/
def cut (n : Nat) (read : FieldRecord) : Text :=
  (fields '|' (List.intercalate ['|'] [read.markId, read.ip, read.down, read.up,
    read.delay, read.jitter, read.loss])).getD (n - 1) []

/-- The address that `restore_rules` uses, or `none` when it skips the device
because its stored address belongs to another hotspot subnet. -/
def restoreIp (env : Env) (mac ip : Text) : Option Text :=
  let live := liveIp env.devices mac
  if live ≠ [] then some live
  else if ip ≠ [] ∧ env.curPrefix ≠ [] ∧ ipPrefix24 ip ≠ [] ∧
      ipPrefix24 ip ≠ env.curPrefix then none
  else some ip

/-- The rates and the disturbances that are supported and wanted, as the texts
`down`, `up`, `delay`, `jitter` and `loss`; `none` when nothing is left. -/
def wanted (env : Env) (read : FieldRecord) :
    Option (Text × Text × Text × Text × Text) :=
  let wantLimit := gt0 (cut 3 read) || gt0 (cut 4 read)
  let wantDelay := gt0 (cut 5 read) || gt0 (cut 6 read) || gt0 (cut 7 read)
  let limit := wantLimit && env.limitSupported
  let delay := wantDelay && env.delaySupported
  if !limit && !delay then none
  else
    let keepLimit := fun text => if wantLimit && !limit then ['0'] else text
    let keepDelay := fun text => if wantDelay && !delay then ['0'] else text
    some (keepLimit (cut 3 read), keepLimit (cut 4 read),
      keepDelay (cut 5 read), keepDelay (cut 6 read), keepDelay (cut 7 read))

/-- The loop over the devices, with the count of failures in a row. -/
def restoreDevices (env : Env) : Nat → List Text → World → World
  | _, [], world => world
  | streak, mac :: rest, world =>
      match fieldRecord env.rules mac with
      | none => restoreDevices env streak rest world
      | some read =>
          match restoreIp env mac (cut 2 read), wanted env read with
          | some ip, some (down, up, delay, jitter, loss) =>
              let marked := iptablesMark ip mac (decimal (cut 1 read)) world
              if env.setAll [cut 1 read, down, up, delay, jitter, loss, ip] then
                restoreDevices env 0 rest marked
              else if streak + 1 ≥ 2 then marked
              else restoreDevices env (streak + 1) rest marked
          | _, _ => restoreDevices env streak rest world

def restoreBlacklist : List Text → World → World
  | [], world => world
  | mac :: rest, world =>
      restoreBlacklist rest (iptablesBlacklistAdd [] mac world)

/-- `restore_rules`. -/
def restoreRules (env : Env) (world : World) : World :=
  restoreBlacklist (blacklistMacs env.rules)
    (restoreDevices env 0 (deviceMacs env.rules) world)

/-- The command `restore`. -/
def restore (env : Env) (world : World) : World :=
  let tcLocked := tcActionLock world.locks
  if tcLocked.2 = 0 then
    let gateLocked := gateLock tcLocked.1
    if gateLocked.2 = 0 then
      let restored := restoreRules env ⟨gateLocked.1, world.tables⟩
      ⟨tcActionUnlock (gateUnlock restored.locks), restored.tables⟩
    else ⟨tcActionUnlock gateLocked.1, world.tables⟩
  else ⟨tcLocked.1, world.tables⟩

variable {world : World}

theorem underMacLock_of_gate (mac : Text) (command : Tables → Tables)
    (held : world.locks.gate = true) :
    underMacLock mac command world = world := by
  obtain ⟨same, failed⟩ := macLock_of_gate mac held
  unfold underMacLock
  simp only [if_neg failed, same]

theorem restoreDevices_of_gate (env : Env) (streak : Nat) (macs : List Text)
    (held : world.locks.gate = true) :
    restoreDevices env streak macs world = world := by
  induction macs generalizing streak with
  | nil => rfl
  | cons mac rest induction =>
      unfold restoreDevices iptablesMark
      simp only [underMacLock_of_gate _ _ held, induction, ite_self]
      split
      · rfl
      · split <;> rfl

theorem restoreBlacklist_of_gate (macs : List Text)
    (held : world.locks.gate = true) : restoreBlacklist macs world = world := by
  induction macs with
  | nil => rfl
  | cons mac rest induction =>
      rw [restoreBlacklist, iptablesBlacklistAdd, underMacLock_of_gate _ _ held,
        induction]

/-- The children of `restore` never get their locks, so it leaves the chains as
they are. -/
theorem restore_tables (env : Env) (world : World) :
    (restore env world).tables = world.tables := by
  unfold restore
  by_cases tcTaken : (tcActionLock world.locks).2 = 0
  · by_cases gateTaken : (gateLock (tcActionLock world.locks).1).2 = 0
    · have held := gate_of_gateLock gateTaken
      simp only [tcTaken, gateTaken, if_true, restoreRules]
      rw [restoreDevices_of_gate env 0 _ held, restoreBlacklist_of_gate _ held]
    · simp [tcTaken, gateTaken]
  · simp [tcTaken]

/-- The value stored for a device, as the strict reader of `hnc_json` finds
it. -/
def stored (rules : Text) (mac : Mac) (key : String) : Option Text :=
  (HncJson.getDevice rules mac.text key.toList).toOption.map captured

/-- The strings of the stored blacklist. -/
def storedBlacklist (rules : Text) : List Text :=
  match HncJson.getTop rules "blacklist".toList with
  | .error _ => []
  | .ok printed => HncJson.arrayItems false false [] (captured printed)

/-- A positive rate, delay, jitter or loss is stored. -/
def Limited (rules : Text) (mac : Mac) : Prop :=
  ∃ key ∈ ["down_mbps", "up_mbps", "delay_ms", "jitter_ms", "loss_pct"],
    ∃ value ∈ stored rules mac key, gt0 value = true

/-- Blocked devices are cut off, and limited devices that are online are
marked. -/
structure Restored (env : Env) (tables : Tables) : Prop where
  blocked : ∀ mac ∈ storedBlacklist env.rules, ∀ packet : Packet,
    packet.srcMac = mac → dropped tables.hncCtrl packet = true
  marked : ∀ mac : Mac, ∀ markId ∈ stored env.rules mac "mark_id",
    Limited env.rules mac → liveIp env.devices mac.text ≠ [] →
    ∀ packet : Packet, packet.srcMac = mac.text →
      packet.src = liveIp env.devices mac.text →
      (∀ rule ∈ tables.hncMark, rule.dst ≠ some packet.dst) →
      markOf tables.hncMark packet = markBase + decimal markId

/-- After a restore everything stored is applied exactly when it was applied
before. -/
theorem restored_iff (env : Env) (tables : Tables) :
    Restored env (restore env ⟨Locks.free, tables⟩).tables ↔
      Restored env tables := by
  rw [restore_tables]

/-- On fresh chains that is the case when there is nothing to apply. -/
theorem restored_init_iff (env : Env) (ipv6Ok : Bool) :
    Restored env (restore env ⟨Locks.free, Tables.init ipv6Ok⟩).tables ↔
      storedBlacklist env.rules = [] ∧
        ∀ mac : Mac, Limited env.rules mac →
          liveIp env.devices mac.text ≠ [] →
          stored env.rules mac "mark_id" = none := by
  rw [restored_iff]
  constructor
  · intro restored
    constructor
    · apply List.eq_nil_iff_forall_not_mem.mpr
      intro mac member
      have cut := restored.blocked mac member ⟨mac, [], [], false, 0, 0⟩ rfl
      simp [dropped, Tables.init] at cut
    · intro mac limited live
      apply Option.eq_none_iff_forall_not_mem.mpr
      intro markId found
      have mark := restored.marked mac markId found limited live
        ⟨mac.text, liveIp env.devices mac.text, [], false, 0, 0⟩ rfl rfl
        (by simp [Tables.init])
      simp [markOf, Tables.init, markBase] at mark
      omega
  · intro nothing
    constructor
    · intro mac member
      rw [nothing.1] at member
      cases member
    · intro mac markId found limited live
      rw [nothing.2 mac limited live] at found
      cases found

/-- A file with one blocked address and no devices. -/
def blockedRules : Text :=
  ("\x7b\"version\":1,\"whitelist_mode\":false,\"devices\":\x7b\x7d," ++
    "\"blacklist\":[\"aa:bb:cc:dd:ee:01\"],\"whitelist\":[]\x7d\n").toList

theorem memberOf_empty (rest stop target : Text) :
    HncJson.memberOf ('{' :: '}' :: rest) stop target = none := by
  have closed : HncJson.skipWs ('}' :: rest) = '}' :: rest := by
    simp [HncJson.skipWs, isWs]
  simp only [HncJson.memberOf, HncJson.findKey, List.tail_cons, closed,
    List.length_cons, HncJson.findKeyLoop]
  split
  · simp [HncJson.parseString]
  · rfl

theorem getDeviceInner_blockedRules (mac key : Text) :
    HncJson.getDeviceInner mac key blockedRules = .error 3 := by
  have layout : (HncJson.findKey (HncJson.skipWs (slurp blockedRules))
        (HncJson.valueEnd (HncJson.skipWs (slurp blockedRules)))
        "devices".toList).map (fun devices => devices.fs.take 2) =
          some ['{', '}'] ∧
      (HncJson.skipWs (slurp blockedRules)).head? = some '{' := by
    unfold blockedRules
    repeat rw [String.toList_ofList]
    decide +kernel
  obtain ⟨found, object⟩ := layout
  obtain ⟨devices, named, opening⟩ := Option.map_eq_some_iff.mp found
  obtain ⟨fk, fs, fe⟩ := devices
  obtain ⟨rest, rfl⟩ : ∃ rest, fs = '{' :: '}' :: rest :=
    ⟨fs.drop 2, by rw [← List.take_append_drop 2 fs, opening]; rfl⟩
  simp only [HncJson.getDeviceInner, object, if_true, named, memberOf_empty]

theorem blockedRules_valid : Guard.jsonGuard blockedRules = true := by
  unfold blockedRules
  repeat rw [String.toList_ofList]
  decide +kernel

theorem blockedRules_stores_nothing (mac : Mac) (key : String) :
    stored blockedRules mac key = none := by
  by_cases unnamed : key.toList = []
  · simp [stored, HncJson.getDevice, unnamed, Except.toOption]
  · simp [stored, HncJson.getDevice, unnamed, mac.text_ne_nil, blockedRules_valid,
      getDeviceInner_blockedRules, Except.toOption]

/-- The restore of a file with a blocked address on fresh chains. -/
theorem blocked_address_not_restored :
    ∃ (env : Env) (tables : Tables),
      Guard.jsonGuard env.rules = true ∧
      (∀ left right : Mac, ∀ markId ∈ stored env.rules left "mark_id",
        markId ∈ stored env.rules right "mark_id" → left = right) ∧
      (∀ mac ∈ storedBlacklist env.rules, isLowerMac mac = true) ∧
      (∀ args, env.setAll args = true) ∧
      ¬Restored env (restore env ⟨Locks.free, tables⟩).tables := by
  refine ⟨⟨blockedRules, none, [], true, true, fun _ => true⟩,
    Tables.init true, ?_, ?_, ?_, ?_, ?_⟩
  · exact blockedRules_valid
  · intro left right markId found
    rw [blockedRules_stores_nothing] at found
    cases found
  · decide +kernel
  · intro args
    rfl
  · intro restored
    have nothing := (restored_init_iff _ true).mp restored
    have blacklist : storedBlacklist blockedRules ≠ [] := by
      decide +kernel
    exact blacklist nothing.1

end Hnc.TcManager
