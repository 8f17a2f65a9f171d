import Hnc.Json.Getters
import Hnc.Lib.Runs
import Hnc.Net.IptablesManager
import Hnc.Rules.ApplyDeviceRule

/-!
# `bin/cleanup_stale_rules.sh` next to `bin/apply_device_rule.sh`

The commands as they change `rules.json` and the packet filter together.  A
mark is given by `limit` and `alloc_mid`, its packet rules are taken out by
`clear`, and its entry is removed by the clean-up of devices that have not been
seen for long.  The hotspot interface is up and the tools succeed; the classes
of `tc` are not part of the state.
-/

namespace Hnc.StaleRules

open Posix IptablesManager ApplyDeviceRule JsonSet

/-- `devices.json`, in which every address is a dotted quad. -/
structure DevicesFile where
  text : Text
  addresses : ((records text).all fun line => line.tails.all fun tail =>
    (matchKey "ip".toList (fun value =>
      (quoted isNumberChar value).filter (· ≠ [])) tail).all
        isDottedQuad) = true

structure State where
  rules : Text
  devices : Option DevicesFile
  tables : Tables

/-- `get_ip`. -/
def State.getIp (state : State) (mac : Text) : Text :=
  TcManager.liveIp (state.devices.map DevicesFile.text) mac

/-- The address of a device that is found. -/
def State.address (state : State) (mac : Mac) : Option Ipv4 :=
  if shape : isDottedQuad (state.getIp mac.text) = true then some ⟨_, shape⟩
  else none

def limit (state : State) (mac : Mac) (down up : Rate) (now later : Nat) :
    State :=
  match state.address mac with
  | none => state
  | some ip =>
      match storeMark state.rules mac now with
      | none => state
      | some (mid, _) =>
          { state with
            rules := ApplyDeviceRule.limit state.rules mac ip down up now later
            tables := markDevice ip.text mac.text (decimal mid) state.tables }

def allocMid (state : State) (mac : Mac) (now : Nat) : State :=
  match state.address mac with
  | none => state
  | some ip =>
      match storeMark state.rules mac now with
      | none => state
      | some (mid, _) =>
          { state with
            rules := ApplyDeviceRule.allocMid state.rules mac now
            tables := markDevice ip.text mac.text (decimal mid) state.tables }

/-- `device_get` in a command substitution. -/
def deviceField (rules mac : Text) (key : String) : Text :=
  captured (deviceGet .literal rules mac key.toList)

/-- `num_gt0`: the sign and the digits of the number at the front of a value. -/
def numGt0 (value : Text) : Bool :=
  let number := (assign value).dropWhile isSpace
  let unsigned :=
    if number.head? = some '-' ∨ number.head? = some '+' then number.tail
    else number
  let fraction :=
    match unsigned.dropWhile isDigit with
    | '.' :: digits => digits.takeWhile isDigit
    | _ => []
  number.head? != some '-' &&
    (unsigned.takeWhile isDigit ++ fraction).any (· != '0')

/-- `HAS_DELAY`. -/
def hasDelay (rules mac : Text) : Bool :=
  deviceField rules mac "delay_enabled" == "true".toList ||
    numGt0 (deviceField rules mac "delay_ms") ||
    numGt0 (deviceField rules mac "jitter_ms") ||
    numGt0 (deviceField rules mac "loss_pct")

/-- `grep -qE '^[0-9]+$'` on the lines of a value. -/
def hasDigitLine (value : Text) : Bool :=
  (records (value ++ ['\n'])).any fun line => line != [] && line.all isDigit

/-- A number of the shell arithmetic: octal behind a zero. -/
def shellNumber (digits : Text) : Option Nat :=
  if digits.head? = some '0' then
    (digits.mapM octal?).map fun values =>
      values.foldl (fun number digit => 8 * number + digit) 0
  else some (decimal digits)

/-- The chains after `clear`: `unmark` is called for a device with a mark and an
address, and no delay. -/
def clearTables (state : State) (mac : Text) : Tables :=
  let mid := deviceField state.rules mac "mark_id"
  if hasDigitLine mid ∧ ¬hasDelay state.rules mac ∧ state.getIp mac ≠ [] then
    (shellNumber mid).elim state.tables fun markId =>
      unmarkDevice (state.getIp mac) mac markId state.tables
  else state.tables

def clear (state : State) (mac : Text) : State :=
  { state with
    rules := (JsonSetBatch.device state.rules mac
      (clearFields.map fun a => (a.field.key, a.value))).getD state.rules
    tables := clearTables state mac }

/-- The class `[0-9a-fA-F:]`. -/
def isMacChar (c : Char) : Bool :=
  TcManager.isHexDigit c || c == ':'

/-- `grep -oE '"[0-9a-fA-F:]{17}"[[:space:]]*:'` on a line, without the quotes
and the colon. -/
def macKeys : Nat → Text → List Text
  | 0, _ => []
  | _, [] => []
  | fuel + 1, c :: rest =>
      let mac := rest.take 17
      if mac.length = 17 ∧ mac.all isMacChar then
        match afterKey mac (c :: rest) with
        | some behind => mac :: macKeys fuel behind
        | none => macKeys fuel rest
      else macKeys fuel rest

/-- The values of the loop variable `mac`. -/
def ruleMacs (rules : Text) : List Text :=
  (((records rules).flatMap fun line => macKeys line.length line).map
    lower).foldr TcManager.insertSorted []

/-- `grep -qi "\"$mac\"" "$DEVICES"`. -/
def isOnline (state : State) (mac : Text) : Bool :=
  state.devices.any fun file => (records file.text).any fun line =>
    (tailFrom ('"' :: mac ++ ['"']) (lower line)).isSome

def lastSeen (rules mac : Text) : Text :=
  firstLine (deviceGet .literal rules mac "last_seen_persist".toList)

/-- The tests of the loop: not online, and last seen before the threshold. -/
def isStale (threshold : Int) (state : State) (mac : Text) : Bool :=
  let seen := lastSeen state.rules mac
  !isOnline state mac && seen != [] && seen != ['0'] && seen.all isDigit &&
    ((decimal seen : Int) < threshold)

/-- One round of the loop. -/
def cleanupRound (threshold : Int) (state : State) (mac : Text) : State :=
  if isStale threshold state mac then
    let cleared := clear state mac
    { cleared with
      rules := (deviceRemove cleared.rules mac).getD cleared.rules }
  else state

/-- `threshold`; `none` when the clean-up is skipped. -/
def staleBefore (rules : Text) (now : Nat) : Option Int :=
  let stored := firstLine (topGet .literal rules "stale_rule_ttl_days".toList)
  let ttlDays := if stored = [] then "30".toList else stored
  if ttlDays = ['0'] ∨ ¬ttlDays.all isDigit ∨ now = 0 then none
  else (shellNumber ttlDays).map fun days => (now : Int) - days * 86400

def cleanup (state : State) (now : Nat) : State :=
  match staleBefore state.rules now with
  | none => state
  | some threshold =>
      (ruleMacs state.rules).foldl (cleanupRound threshold) state

/-- The commands, and a new `devices.json`. -/
inductive Event where
  | limit (mac : Mac) (down up : Rate) (now later : Nat)
  | allocMid (mac : Mac) (now : Nat)
  | clear (mac : Mac)
  | cleanup (now : Nat)
  | devices (file : Option DevicesFile)

def step (state : State) : Event → State
  | .limit mac down up now later => limit state mac down up now later
  | .allocMid mac now => allocMid state mac now
  | .clear mac => clear state mac.text
  | .cleanup now => cleanup state now
  | .devices file => { state with devices := file }

/-- An installation before the first command. -/
def start (rules : Text) (ipv6Ok : Bool) : State :=
  ⟨rules, none, Tables.init ipv6Ok⟩

end Hnc.StaleRules
