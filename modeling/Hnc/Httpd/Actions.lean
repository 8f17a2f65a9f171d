import Hnc.Httpd.DelaySet
import Hnc.Httpd.RateToMbps

/-!
# The write actions

The actions of `action.go`, `action_v5.go`, `action_sqm_v53.go` and
`hotfix16_7_compile_compat.go` check their parameters and run scripts.  An action
keeps the scripts it has called so far; what a script answers depends on when it
is called.
-/

namespace Httpd

open Posix

/-- The error texts of `rateToMbpsStr`. -/
def MbpsError.message : MbpsError → Text
  | .atoi nStr =>
      "strconv.Atoi: parsing \"".toList ++ nStr ++ "\": ".toList ++
        (if nStr = [] then "invalid syntax" else "value out of range").toList
  | .unknownUnit unit => "unknown unit: ".toList ++ unit
  | .noUnit r => "no unit in \"".toList ++ r ++ ['"']

namespace Actions

open Hnc
open KeyMap
open DelaySet (ActionResp intRE floatRE atoiClamp lossTooLarge lossPositive ipv4RE
  jsonWrites)
open Hnc.ApplyDeviceRule (decimalText)

/-! ### Scripts -/

/-- A script, a helper or a detached script with its arguments. -/
structure Call where
  program : String
  args : List Text
deriving DecidableEq

inductive Outcome where
  | exited (rc : Int) (out : Text)
  | notStarted (out : Text)
  | timedOut

/-- What the scripts and files answer behind a number of calls.
`parseFloatPositive` tells whether `strconv.ParseFloat` reads a positive
number. -/
structure Tools where
  exec : Nat → String → Outcome
  spawn : Nat → String → Option Text
  capability : Nat → String → Option Bool
  devices : Nat → Option DeviceList.Value
  hncState : Option Text
  address : Text → Option Text
  parseFloatPositive : Text → Bool

/-- What `pair_gen.sh` does: it prints the number it drew with the session and
the time, or fails. -/
inductive PairGen where
  | printed (num : Nat) (sid : Text) (expiry : Int)
  | failed (rc : Int) (out : Text) (nonzero : rc ≠ 0)
  | notStarted (out : Text)
  | timedOut

/-- The parameters of a request. -/
abbrev Params := Map Text Text

abbrev Action := StateM (List Call)

/-- `p[key]`. -/
def param (p : Params) (key : String) : Text :=
  (p.lookup key.toList).getD []

def timeoutSec (script : String) : Nat :=
  if script = "cleanup.sh" then 60
  else if script = "hotspot_autostart.sh" ∨ script = "dpi_rebind.sh" then 30
  else 10

def Outcome.result (script : String) : Outcome → Int × Text
  | exited rc out => (rc, DelaySet.runBin out)
  | notStarted out => (-1, DelaySet.runBin out)
  | timedOut =>
      (124, "timeout after ".toList ++ decimalText (timeoutSec script) ++ ['s'])

variable (tools : Tools)

def runBin (script : String) (args : List Text) : Action (Int × Text) :=
  fun calls =>
    ((tools.exec calls.length script).result script, calls ++ [⟨script, args⟩])

/-- `runExe`; the actions only log what it returns. -/
def runExe (name : String) (args : List Text) : Action Unit :=
  fun calls => ((), calls ++ [⟨name, args⟩])

/-- `runBinDetached` with the text of its error. -/
def runBinDetached (script : String) (args : List Text) :
    Action (Option Text) :=
  fun calls => (tools.spawn calls.length script, calls ++ [⟨script, args⟩])

/-- `readCapabilityBool`; `none` is not known. -/
def readCapabilityBool (key : String) : Action (Option Bool) :=
  fun calls => (tools.capability calls.length key, calls)

def tcHTBSupported : Action (Option Bool) :=
  readCapabilityBool tools "tc_htb"

def tcNetemSupported : Action (Option Bool) :=
  readCapabilityBool tools "tc_netem"

def readUplinkCapability : Action (Option Bool) :=
  readCapabilityBool tools "uplink_supported"

/-- `lookupCurrentDeviceIP`. -/
def lookupCurrentDeviceIP (mac : Text) : Action Text :=
  fun calls =>
    (DelaySet.lookupCurrentDeviceIP (tools.devices calls.length) mac, calls)

def lookupRuleDeviceField (mac : Text) (field : String) : Action Text := do
  let (rc, out) ← runBin tools "json_set.sh"
    ["device_get".toList, mac, field.toList]
  return if rc ≠ 0 then [] else trimSpace out

def done (detail : String) : ActionResp :=
  ⟨true, [], detail.toList⟩

def failed (error : String) (detail : Text) : ActionResp :=
  ⟨false, error.toList, detail⟩

def badParams (detail : String) : ActionResp :=
  failed "bad params" detail.toList

/-- A script whose failure is passed on with its output. -/
def runOr (script : String) (args : List Text) (error : String)
    (detail : Text → Text) (next : Text → Action ActionResp) :
    Action ActionResp := do
  let (rc, out) ← runBin tools script args
  if rc ≠ 0 then return failed error (detail out) else next out

/-! ### Checks -/

/-- `unicode.ToLower`, as far as it yields an ASCII letter: the dotted I and
the sign for Kelvin have one, too. -/
def lowerRune (c : Char) : Char :=
  if c.toNat = 0x130 then 'i' else if c.toNat = 0x212A then 'k' else c.toLower

/-- `strings.ToLower`, in front of a comparison with ASCII names. -/
def toLower (s : Text) : Text :=
  s.map lowerRune

def protectedSpecialMACs : List Text :=
  ["ff:ff:ff:ff:ff:ff".toList, "00:00:00:00:00:00".toList]

def isIfaceChar (c : Char) : Bool :=
  ('a'.toNat ≤ c.toNat && c.toNat ≤ 'z'.toNat) || isDigit c

def readHotspotIfaceMAC : Text :=
  match tools.hncState with
  | none => []
  | some state =>
      let state := trimSpace state
      if ¬"ACTIVE:".toList.isPrefixOf state then []
      else
        let iface := state.drop "ACTIVE:".toList.length
        if ¬iface.all isIfaceChar then []
        else match tools.address iface with
          | none => []
          | some mac => toLower (trimSpace mac)

def isProtectedMAC (mac : Text) : Bool :=
  mac ∈ protectedSpecialMACs ||
    (readHotspotIfaceMAC tools != [] && readHotspotIfaceMAC tools == mac)

def numberStringPositive (s : Text) : Bool :=
  tools.parseFloatPositive (trimSpace s)

/-- `strings.TrimSuffix`. -/
def trimSuffix (s suffix : Text) : Text :=
  if suffix.isSuffixOf s then s.take (s.length - suffix.length) else s

/-- `strconv.Atoi` finds a positive number. -/
def atoiPositive (s : Text) : Bool :=
  (parseInt s).any fun n => decide (0 < n)

def rateStringPositive (r : Text) : Bool :=
  let r := trimSpace (toLower r)
  if r = [] ∨ r = "0".toList then false
  else if "kbit".toList.isSuffixOf r then
    atoiPositive (trimSuffix r "kbit".toList)
  else if "mbit".toList.isSuffixOf r then
    atoiPositive (trimSuffix r "mbit".toList)
  else numberStringPositive tools r

/-- `strings.Trim` of quotes. -/
def trimQuotes (s : Text) : Text :=
  ((s.dropWhile (· == '"')).reverse.dropWhile (· == '"')).reverse

def ruleNumberPositive (s : Text) : Bool :=
  let s := trimQuotes (trimSpace (toLower s))
  let s := ["mbit", "kbit", "m", "k"].foldl
    (fun s suffix => trimSuffix s suffix.toList) s
  s != [] && tools.parseFloatPositive s

def deviceHasPositiveLimit (mac : Text) : Action Bool := do
  let enabled ← lookupRuleDeviceField tools mac "limit_enabled"
  if enabled ≠ "true".toList then return false
  let down ← lookupRuleDeviceField tools mac "down_mbps"
  if ruleNumberPositive tools down then return true
  let up ← lookupRuleDeviceField tools mac "up_mbps"
  return ruleNumberPositive tools up

def notifyOffloadLimit (mac : Text) (enabled : Bool) : Action Unit :=
  runExe "hnc_ipc"
    ["OFFLOAD_NOTIFY_LIMIT".toList, mac, [if enabled then '1' else '0']]

/-- The check and the conversion of both rates, with the parameter that is
wrong: both are checked before one is converted. -/
def readRates (rateDown rateUp : Text) : Except Text (Text × Text) := do
  if rateDown ≠ [] then
    if let some error := validateRate rateDown then
      throw ("rate_down: ".toList ++ error.message)
  if rateUp ≠ [] then
    if let some error := validateRate rateUp then
      throw ("rate_up: ".toList ++ error.message)
  let dnMbps ← (rateToMbpsStr rateDown).mapError
    fun error => "rate_down: ".toList ++ error.message
  let upMbps ← (rateToMbpsStr rateUp).mapError
    fun error => "rate_up: ".toList ++ error.message
  return (dnMbps, upMbps)

/-- `actionRuleSet` from the conversion of the rates on. -/
def applyLimit (mac dnMbps upMbps rateUp : Text) : Action ActionResp := do
  let htb ← tcHTBSupported tools
  if htb = some false ∧ (numberStringPositive tools dnMbps ∨
      numberStringPositive tools upMbps) then
    return failed "unsupported" ("tc_htb=false; current kernel/TC does not ".toList ++
      "support HTB downlink shaping".toList)
  let uplink ← readUplinkCapability tools
  let skip := uplink = some false ∧ numberStringPositive tools upMbps
  let upMbps := if skip then "0".toList else upMbps
  if skip ∧ ¬numberStringPositive tools dnMbps then
    return done "uplink unsupported on this ROM; no downlink rate requested, skipped"
  runOr tools "apply_device_rule.sh" ["limit".toList, mac, dnMbps, upMbps]
    "apply failed" trimSpace fun out => do
      let detail := trimSpace out
      if "partial_tc_fail=uplink".toList <:+: detail ∨
          "limit_apply_mode=down_only".toList <:+: detail then
        return done ("download limit applied; uplink unsupported/disabled on " ++
          "this ROM, kept up=0")
      let uplink ← readUplinkCapability tools
      if uplink = some false ∧ rateStringPositive tools rateUp then
        return done
          "download limit applied; uplink unsupported on this ROM, kept up=0"
      return done "limit applied"

def actionRuleSet (p : Params) : Action ActionResp :=
  let mac := param p "mac"
  let rateDown := param p "rate_down"
  let rateUp := param p "rate_up"
  if ¬isLowerMac mac then return badParams "invalid mac"
  else if isProtectedMAC tools mac then
    return failed "protected mac"
      "cannot modify host/broadcast/null mac".toList
  else if rateDown = [] ∧ rateUp = [] then
    return badParams "at least one of rate_down/rate_up required"
  else match readRates rateDown rateUp with
    | .error detail => return failed "bad params" detail
    | .ok (dnMbps, upMbps) => applyLimit tools mac dnMbps upMbps rateUp

def actionRuleClear (p : Params) : Action ActionResp :=
  let mac := param p "mac"
  if ¬isLowerMac mac then return badParams "invalid mac"
  else runOr tools "apply_device_rule.sh" ["clear".toList, mac]
    "apply failed" trimSpace fun _ => return done "limit cleared"

def actionTemplateApply (p : Params) : Action ActionResp :=
  actionRuleSet tools p

def actionBLAdd (p : Params) : Action ActionResp :=
  let mac := param p "mac"
  if ¬isLowerMac mac then return badParams "invalid mac"
  else if isProtectedMAC tools mac then
    return failed "protected mac"
      "cannot blacklist host/broadcast/null mac".toList
  else runOr tools "apply_device_rule.sh" ["bl_add".toList, mac]
    "apply failed" trimSpace fun _ => return done "blacklisted"

def actionBLDel (p : Params) : Action ActionResp :=
  let mac := param p "mac"
  if ¬isLowerMac mac then return badParams "invalid mac"
  else runOr tools "apply_device_rule.sh" ["bl_del".toList, mac]
    "apply failed" trimSpace fun _ => return done "removed from blacklist"

/-- The loop over the fields of `rules.json`, with the failures. -/
def writeFields (mac : Text) : List (Text × Text) → Action (List Text)
  | [] => return []
  | (field, value) :: rest => do
      let (rc, out) ← runBin tools "json_set.sh"
        ["device".toList, mac, field, value]
      let failures ← writeFields mac rest
      return if rc ≠ 0 then (field ++ ':' :: trimSpace out) :: failures
        else failures

/-- The fields are written, and the failures are the answer. -/
def writeAll (mac : Text) (writes : List (Text × Text)) (detail : String) :
    Action ActionResp := do
  let failures ← writeFields tools mac writes
  if failures ≠ [] then
    return failed "partial json write failed" ("; ".toList.intercalate failures)
  return done detail

/-- `actionDelaySet` from the call of `set_delay` on. -/
def applyDelay (mac iface mid : Text) (newMid : Bool) (delay jitter : Nat)
    (loss : Text) : Action ActionResp := do
  let ip ← lookupCurrentDeviceIP tools mac
  let (rc, out) ← runBin tools "tc_manager.sh" ["set_delay".toList, iface, mid,
    decimalText delay, decimalText jitter, loss, ip]
  if rc ≠ 0 then
    if newMid then
      let rollbackIP ←
        if ip = [] then lookupRuleDeviceField tools mac "ip" else pure ip
      let _ ← runBin tools "iptables_manager.sh"
        ["unmark".toList, rollbackIP, mac, mid]
      let _ ← runBin tools "json_set.sh"
        ["device".toList, mac, "mark_id".toList, "0".toList]
    return failed "netem apply failed" out
  notifyOffloadLimit mac true
  writeAll tools mac (jsonWrites delay jitter loss) "delay injected"

/-- `actionDelaySet` from the look for the mark on. -/
def withMark (mac iface : Text) (delay jitter : Nat) (loss : Text) :
    Action ActionResp := do
  let (rcM, outM) ← runBin tools "json_set.sh"
    ["device_get".toList, mac, "mark_id".toList]
  if rcM ≠ 0 ∨ trimSpace outM = [] then
    runOr tools "apply_device_rule.sh" ["alloc_mid".toList, mac]
      "mid assign failed" id fun out =>
        let mid := trimSpace out
        if ¬intRE mid then
          return failed "mid assign failed"
            ("alloc_mid returned non-integer mid: ".toList ++ mid)
        else applyDelay tools mac iface mid true delay jitter loss
  else applyDelay tools mac iface (trimSpace outM) false delay jitter loss

/-- `actionDelaySet` from the checks of the parameters on. -/
def injectDelay (mac : Text) (delay jitter : Nat) (loss : Text) :
    Action ActionResp := do
  if 0 < delay ∨ 0 < jitter ∨ lossPositive loss then
    let htb ← tcHTBSupported tools
    if htb = some false then
      return failed "unsupported"
        "tc_htb=false; delay path requires HTB leaf classes".toList
    let netem ← tcNetemSupported tools
    if netem = some false then
      return failed "unsupported"
        "tc_netem=false; current kernel/TC does not support netem".toList
  runOr tools "device_detect.sh" ["iface".toList] "iface detect failed" id
    fun out =>
      let iface := trimSpace out
      if iface = [] then return failed "no hotspot iface" []
      else withMark tools mac iface delay jitter loss

def actionDelaySet (p : Params) : Action ActionResp :=
  let mac := param p "mac"
  let loss := param p "loss_pct"
  if ¬isLowerMac mac then return badParams "invalid mac"
  else match atoiClamp (param p "delay_ms") 0 5000,
      atoiClamp (param p "jitter_ms") 0 5000 with
    | some delay, some jitter =>
        if ¬floatRE loss then return badParams "loss_pct must be number"
        else if lossTooLarge loss then
          return badParams "loss_pct out of range (0-100)"
        else injectDelay tools mac delay jitter loss
    | _, _ => return badParams "delay_ms/jitter_ms out of range (0-5000)"

def clearFields : List (Text × Text) :=
  [("delay_enabled".toList, "false".toList), ("delay_ms".toList, "0".toList),
    ("jitter_ms".toList, "0".toList), ("loss_pct".toList, "0".toList)]

/-- `actionDelayClear` behind the check of the mark. -/
def clearDelay (mac iface mid : Text) : Action ActionResp := do
  let hasLimit ← deviceHasPositiveLimit tools mac
  let current ← lookupCurrentDeviceIP tools mac
  let ip ← if current = [] then lookupRuleDeviceField tools mac "ip"
    else pure current
  let zero := "0".toList
  if hasLimit then
    runOr tools "tc_manager.sh"
      ["set_delay".toList, iface, mid, zero, zero, zero, ip]
      "netem clear failed" id fun _ =>
        writeAll tools mac clearFields "delay cleared"
  else
    let _ ← runBin tools "tc_manager.sh" ["remove".toList, iface, mid]
    let _ ← runBin tools "iptables_manager.sh" ["unmark".toList, ip, mac, mid]
    notifyOffloadLimit mac false
    writeAll tools mac clearFields "delay cleared"

def actionDelayClear (p : Params) : Action ActionResp :=
  let mac := param p "mac"
  if ¬isLowerMac mac then return badParams "invalid mac"
  else runOr tools "device_detect.sh" ["iface".toList] "iface detect failed" id
    fun out => do
      let (_, outM) ← runBin tools "json_set.sh"
        ["device_get".toList, mac, "mark_id".toList]
      let mid := trimSpace outM
      if mid = [] then return done "already cleared (no mid)"
      else if ¬intRE mid then
        return failed "mid invalid"
          ("device_get returned non-integer mid: ".toList ++ mid)
      else clearDelay tools mac (trimSpace out) mid

/-! ### Hotspot -/

/-- `utf8.ValidString` and the loop over the runes: a text of a JSON request is
always valid UTF-8. -/
def noControl (s : Text) : Bool :=
  s.all fun r => decide (0x20 ≤ r.toNat)

def validSSID (s : Text) : Bool :=
  let bytes := (utf8 s).length
  decide (0 < bytes ∧ bytes ≤ 32) && noControl s

def validPass (s : Text) : Bool :=
  let bytes := (utf8 s).length
  decide (8 ≤ bytes ∧ bytes ≤ 63) && noControl s

def actionHotspotStart : Action ActionResp :=
  runOr tools "hotspot_autostart.sh" ["start".toList] "hotspot start failed" id
    fun _ => return done "hotspot started"

def actionHotspotStop : Action ActionResp :=
  runOr tools "hotspot_autostart.sh" ["stop".toList] "hotspot stop failed" id
    fun _ => return done "hotspot stopped"

/-- A field at the top of `rules.json` that is left out when the parameter is
empty. -/
def saveTop (given : Text) (field : String) (value : Text) (error : String)
    (next : Action ActionResp) : Action ActionResp :=
  if given = [] then next
  else runOr tools "json_set.sh" ["top".toList, field.toList, value] error id
    fun _ => next

def actionHotspotSave (p : Params) : Action ActionResp :=
  let ssid := param p "ssid"
  let pass := param p "password"
  let delayStr := param p "delay_sec"
  let autostart := param p "autostart"
  let delay := atoiClamp delayStr 0 3600
  if ssid ≠ [] ∧ ¬validSSID ssid then return badParams "invalid ssid"
  else if pass ≠ [] ∧ ¬validPass pass then
    return badParams
      "invalid password (8-63 UTF-8 chars, no control characters)"
  else if delayStr ≠ [] ∧ delay = none then
    return badParams "delay_sec out of range (0-3600)"
  else if autostart ≠ [] ∧ autostart ≠ "true".toList ∧
      autostart ≠ "false".toList then
    return badParams "autostart must be true/false"
  else
    saveTop tools ssid "hotspot_ssid" ssid "save ssid failed" <|
    saveTop tools pass "hotspot_pass" pass "save pass failed" <|
    saveTop tools delayStr "hotspot_delay" (decimalText (delay.getD 0))
      "save delay failed" <|
    saveTop tools autostart "hotspot_auto" autostart "save autostart failed" <|
    return done "config saved"

def isIfaceNameChar (c : Char) : Bool :=
  isSidChar c || c == '.'

def actionHotspotIfaceSet (p : Params) : Action ActionResp :=
  let given := trimSpace (param p "iface")
  let iface := if given = "auto".toList then [] else given
  if 15 < (utf8 iface).length then return badParams "iface too long"
  else if ¬iface.all isIfaceNameChar then return badParams "invalid iface name"
  else runOr tools "json_set.sh"
    ["top".toList, "hotspot_iface".toList, iface] "write failed" trimSpace
    fun _ =>
      if iface = [] then return done "hotspot iface set to auto"
      else return ⟨true, [], "preferred hotspot iface set to ".toList ++ iface⟩

/-- An action that writes the parameter `enabled` to the top of `rules.json`. -/
def setTop (field : String) (detail : Text → Text) (p : Params) :
    Action ActionResp :=
  let v := param p "enabled"
  if v ≠ "true".toList ∧ v ≠ "false".toList then
    return badParams "enabled must be true/false"
  else runOr tools "json_set.sh" ["top".toList, field.toList, v] "write failed"
    id fun _ => return ⟨true, [], detail v⟩

def actionWhitelistSet (p : Params) : Action ActionResp :=
  setTop tools "whitelist_mode" (fun _ => []) p

def actionAuthRequiredSet (p : Params) : Action ActionResp :=
  setTop tools "auth_required" (fun _ => []) p

def actionRemoteEnabledSet (p : Params) : Action ActionResp :=
  setTop tools "remote_enabled" (fun v =>
    if v = "false".toList then "remote access disabled · 约 1 分钟内 :8443 关闭".toList
    else "remote access enabled · 约 1 分钟内远程 URL 可访问".toList) p

/-- One of the parameters of `actionSQMSet`, with what is reported of it. -/
def sqmSet (name : String) (names : List String) (value : Text)
    (next : List Text → Action ActionResp) : Action ActionResp :=
  if value = [] then next []
  else if value ∉ names.map String.toList then
    return badParams ("invalid sqm " ++ name)
  else runOr tools "sqm_manager.sh" [("set-" ++ name).toList, value]
    ("sqm set-" ++ name ++ " failed") trimSpace fun _ =>
      next [name.toList ++ '=' :: value]

def sqmModes : List String :=
  ["off", "fq_codel", "fq-codel", "fqcodel", "cake", "auto", "game"]

def sqmProfiles : List String :=
  ["balanced", "game", "bulk", "custom"]

def sqmPresets : List String :=
  ["off", "balanced", "game", "weaknet", "weak-net", "weak", "poor", "bad",
    "extreme", "custom"]

/-- The switch over `apply`, behind the other details. -/
def sqmApply (apply : Text) (details : List Text) : Action ActionResp :=
  let report (details : List Text) : Action ActionResp :=
    return ⟨true, [], "; ".toList.intercalate details⟩
  if apply ∈ ["", "false", "0", "no"].map String.toList then report details
  else if apply ∈ ["true", "1", "yes"].map String.toList then
    runOr tools "sqm_manager.sh" ["apply".toList] "sqm apply failed" trimSpace
      fun _ => report (details ++ ["applied".toList])
  else return badParams "apply must be true/false"

def actionSQMSet (p : Params) : Action ActionResp :=
  let given := fun key => trimSpace (toLower (param p key))
  let mode := given "mode"
  let profile := given "profile"
  let preset := given "preset"
  let apply := given "apply"
  if mode = [] ∧ profile = [] ∧ preset = [] ∧ apply = [] then
    return badParams "one of mode/profile/preset/apply is required"
  else
    sqmSet tools "mode" sqmModes mode fun modes =>
    sqmSet tools "profile" sqmProfiles profile fun profiles =>
    sqmSet tools "preset" sqmPresets preset fun presets =>
    sqmApply tools apply (modes ++ profiles ++ presets)

/-! ### Pairing and service -/

def actionRefresh : Action ActionResp :=
  runOr tools "device_detect.sh" ["scan".toList] "scan failed" id
    fun out => return ⟨true, [], trimSpace out⟩

/-- The PIN that `pair_gen.sh` makes of the number it drew. -/
def pinOf (num : Nat) : Text :=
  sixDigits (num % 1000000)

/-- The line that `pair_gen.sh` prints. -/
def pairGenLine (pin sid : Text) (expiry : Int) : Text :=
  "\x7b\"ok\":true,\"pin\":\"".toList ++ pin ++
    "\",\"session_id\":\"".toList ++ sid ++ "\",\"expiry\":".toList ++
    (toString expiry).toList ++ ",\"valid_sec\":".toList ++
    (toString VALID_SEC).toList ++ "\x7d\n".toList

def PairGen.outcome : PairGen → Outcome
  | printed num sid expiry => .exited 0 (pairGenLine (pinOf num) sid expiry)
  | failed rc out _ => .exited rc out
  | notStarted out => .notStarted out
  | timedOut => .timedOut

def actionPairNew (pairGen : PairGen) : Action ActionResp := fun calls =>
  let (rc, out) := pairGen.outcome.result "pair_gen.sh"
  (if rc ≠ 0 then failed "pair_gen failed" out else ⟨true, [], trimSpace out⟩,
    calls ++ [⟨"pair_gen.sh", []⟩])

/-- What is wrong with a token. -/
def tokenError (token : Text) : Option String :=
  let bytes := (utf8 token).length
  if bytes < 8 ∨ 256 < bytes then some "token length out of range (8-256)"
  else if ¬token.all isSidChar then some "invalid token format"
  else none

def actionPairRevoke (p : Params) : Action ActionResp :=
  let token := param p "token"
  match tokenError token with
  | some detail => return badParams detail
  | none =>
      runOr tools "json_set.sh" ["token_revoke".toList, token] "revoke failed"
        id fun _ => return done ""

def actionCleanupRules : Action ActionResp :=
  runOr tools "cleanup.sh" ["rules".toList] "cleanup failed" id
    fun _ => return done ""

/-- A script that outlives the httpd. -/
def detach (mode detail : String) : Action ActionResp := do
  match ← runBinDetached tools "cleanup.sh" [mode.toList] with
  | some error => return failed "spawn failed" error
  | none => return done detail

def actionCleanupAll : Action ActionResp :=
  detach tools "safe_release"
    "safe release scheduled · service will be restarted automatically"

def actionRestartService : Action ActionResp :=
  detach tools "restart" "restart scheduled · 30s 内 watchdog 重启所有服务"

/-- `[A-Za-z0-9_.:-]{1,32}`. -/
def isRebindIface (iface : Text) : Bool :=
  decide (iface.length ≤ 32) && iface.all fun c => isIfaceNameChar c || c == ':'

def actionDPIRebind (p : Params) : Action ActionResp :=
  let iface := trimSpace (param p "iface")
  if iface ≠ [] ∧ ¬isRebindIface iface then return badParams "invalid iface"
  else runOr tools "dpi_rebind.sh" (if iface = [] then [] else [iface])
    "dpi rebind failed" trimSpace fun out => return ⟨true, [], trimSpace out⟩

inductive ActionName where
  | ruleSet | ruleClear | blAdd | blDel | delaySet | delayClear | templateApply
  | hotspotStart | hotspotStop | hotspotSave | whitelistSet | authRequiredSet
  | remoteEnabledSet | hotspotIfaceSet | sqmSet | refresh | pairNew | pairRevoke
  | cleanupRules | cleanupAll | restartService | dpiRebind
deriving DecidableEq

/-- The cases of `dispatchAction`. -/
def actionNames : List (String × ActionName) :=
  [("rule_set", .ruleSet), ("rule_clear", .ruleClear), ("bl_add", .blAdd),
    ("bl_del", .blDel), ("delay_set", .delaySet), ("delay_clear", .delayClear),
    ("template_apply", .templateApply), ("hotspot_start", .hotspotStart),
    ("hotspot_stop", .hotspotStop), ("hotspot_save", .hotspotSave),
    ("whitelist_set", .whitelistSet), ("auth_required_set", .authRequiredSet),
    ("remote_enabled_set", .remoteEnabledSet),
    ("hotspot_iface_set", .hotspotIfaceSet), ("sqm_set", .sqmSet),
    ("refresh", .refresh), ("pair_new", .pairNew), ("pair_revoke", .pairRevoke),
    ("cleanup_rules", .cleanupRules), ("cleanup_all", .cleanupAll),
    ("restart_service", .restartService), ("dpi_rebind", .dpiRebind)]

def actionName (action : Text) : Option ActionName :=
  (actionNames.find? fun entry => decide (entry.1.toList = action)).map (·.2)

/-- The actions for the page on the device only. -/
def loopbackOnly (name : ActionName) : Bool :=
  name ∈ [.pairRevoke, .authRequiredSet, .remoteEnabledSet]

def runAction (pairGen : PairGen) (p : Params) : ActionName → Action ActionResp
  | .ruleSet => actionRuleSet tools p
  | .ruleClear => actionRuleClear tools p
  | .blAdd => actionBLAdd tools p
  | .blDel => actionBLDel tools p
  | .delaySet => actionDelaySet tools p
  | .delayClear => actionDelayClear tools p
  | .templateApply => actionTemplateApply tools p
  | .hotspotStart => actionHotspotStart tools
  | .hotspotStop => actionHotspotStop tools
  | .hotspotSave => actionHotspotSave tools p
  | .whitelistSet => actionWhitelistSet tools p
  | .authRequiredSet => actionAuthRequiredSet tools p
  | .remoteEnabledSet => actionRemoteEnabledSet tools p
  | .hotspotIfaceSet => actionHotspotIfaceSet tools p
  | .sqmSet => actionSQMSet tools p
  | .refresh => actionRefresh tools
  | .pairNew => actionPairNew pairGen
  | .pairRevoke => actionPairRevoke tools p
  | .cleanupRules => actionCleanupRules tools
  | .cleanupAll => actionCleanupAll tools
  | .restartService => actionRestartService tools
  | .dpiRebind => actionDPIRebind tools p

def dispatchAction (pairGen : PairGen) (action : Text) (p : Params)
    (isLoopback : Bool) : Action ActionResp :=
  match actionName action with
  | none => return failed "unknown action" []
  | some name =>
      if loopbackOnly name ∧ ¬isLoopback then
        return failed "forbidden"
          "this action is loopback-only (use the on-device KSU WebUI)".toList
      else runAction tools pairGen p name

end Actions

end Httpd
