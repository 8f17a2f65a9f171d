import Hnc.Httpd.DeviceList
import Hnc.Json.DeviceFields
import Hnc.Rules.LimitRollback

/-!
# The delay of a device

`actionDelaySet` of `daemon/hnc_httpd/action_v5.go` gives a mark to a device
that has none, and takes it back when the delay cannot be set up.  It takes it
back by the mark 0, which `get_or_assign_mid` counts as none; the action itself
looks only for a mark that is not there at all.
-/

namespace Httpd.DelaySet

open Hnc Hnc.StaleRules Posix JsonText
open Httpd.DeviceList (Value asString)
open KeyMap

/-- The parameters; one that is missing is empty. -/
structure Params where
  mac : Text
  delayMs : Text
  jitterMs : Text
  lossPct : Text

structure ActionResp where
  ok : Bool
  error : Text
  detail : Text
deriving DecidableEq

/-- What the files and tools answer: `tc_htb` and `tc_netem` of
`capabilities.json` when they are known, `device_detect.sh iface` and the part
of `tc_manager.sh set_delay` behind the check of the mark, each with its exit
code, `devices.json` as it is decoded, and what `json_set.sh` prints when it
refuses a field. -/
structure Tools where
  tcHtb : Option Bool
  tcNetem : Option Bool
  iface : Int × Text
  setDelay : Int × Text
  devices : Option Value
  refusal : Text → Text
  now : Nat

/-- What a call leaves and answers: the mark that `set_delay` is called with,
whether it is a new one, and whether that was taken back. -/
structure Result where
  state : State
  resp : ActionResp
  setDelay : Option Text
  newMid : Bool
  undone : Bool

/-! ### The parts -/

/-- `intRE`. -/
def intRE (s : Text) : Bool :=
  s != [] && s.all isDigit

/-- `floatRE`. -/
def floatRE (s : Text) : Bool :=
  s.takeWhile isDigit != [] &&
    match s.dropWhile isDigit with
    | [] => true
    | '.' :: places => places != [] && places.all isDigit
    | _ => false

def atoiClamp (s : Text) (min max : Nat) : Option Nat :=
  if intRE s ∧ min ≤ decimal s ∧ decimal s ≤ max then some (decimal s) else none

/-- The number of a text that `floatRE` matches. -/
def lossValue (s : Text) : ℚ :=
  let places := (s.dropWhile isDigit).tail
  decimal (s.takeWhile isDigit ++ places) / 10 ^ places.length

/-- `loss > 100`, also when `ParseFloat` reports a range error: up to half a
unit in the last place above 100 a number is rounded to 100. -/
def lossTooLarge (s : Text) : Bool :=
  decide (100 + 1 / 2 ^ 47 < lossValue s)

/-- `loss > 0`: up to half of the least positive `float64` a number is rounded
to 0. -/
def lossPositive (s : Text) : Bool :=
  decide (1 / 2 ^ 1075 < lossValue s)

/-- The characters at the front that take at most `bytes` bytes. -/
def within : Nat → Text → Text
  | _, [] => []
  | bytes, c :: rest =>
      if c.utf8Size ≤ bytes then c :: within (bytes - c.utf8Size) rest else []

/-- The output that `runBin` returns: a long one is cut behind a character. -/
def runBin (out : Text) : Text :=
  if 1024 < (utf8 out).length then within 1024 out ++ "...".toList else out

/-- `ipv4RE`. -/
def ipv4RE (s : Text) : Bool :=
  let parts := fields '.' s
  parts.length == 4 && parts.all fun part =>
    part != [] && part.length ≤ 3 && part.all isDigit

def lookupCurrentDeviceIP (devices : Option Value) (mac : Text) : Text :=
  let dev := ((devices.bind Value.asMap).bind fun map => map.lookup mac).bind
    Value.asMap
  let ip := trimSpace (asString (dev.bind fun dev => dev.lookup "ip".toList))
  if ip ≠ [] ∧ ipv4RE ip then ip else []

/-- `json_set.sh device_get` as the actions read it. -/
def lookupRuleDeviceField (rules mac : Text) (field : String) : Text :=
  trimSpace (runBin (JsonSet.deviceGet .literal rules mac field.toList))

/-- `_validate_mark_id` of `tc_manager.sh`. -/
def validateMarkId (mid : Text) : Bool :=
  intRE mid && decide (1 ≤ decimal mid ∧ decimal mid ≤ 99)

/-- `set_delay` of `tc_manager.sh`. -/
def setDelay (tools : Tools) (mid : Text) : Int × Text :=
  if validateMarkId mid then tools.setDelay else (1, [])

/-- The four fields, in the order in which they are written. -/
def jsonWrites (delay jitter : Nat) (loss : Text) : List (Text × Text) :=
  [("delay_enabled".toList, "true".toList),
    ("delay_ms".toList, ApplyDeviceRule.decimalText delay),
    ("jitter_ms".toList, ApplyDeviceRule.decimalText jitter),
    ("loss_pct".toList, loss)]

/-- One write of the loop, on the file and the failures so far. -/
def writeField (tools : Tools) (mac : Text) (done : Text × List Text)
    (write : Text × Text) : Text × List Text :=
  match JsonSet.device done.1 mac write.1 write.2 with
  | some rules => (rules, done.2)
  | none =>
      (done.1, done.2 ++ [write.1 ++ ':' ::
        trimSpace (runBin (tools.refusal write.1))])

/-- An answer before `set_delay` is called. -/
def refuse (state : State) (error detail : Text) : Result :=
  ⟨state, ⟨false, error, detail⟩, none, false, false⟩

/-- The action from the call of `set_delay` on. -/
def applyDelay (state : State) (mac mid : Text) (newMid : Bool)
    (delay jitter : Nat) (loss : Text) (tools : Tools) : Result :=
  let ip := lookupCurrentDeviceIP tools.devices mac
  let (rc, out) := setDelay tools mid
  if rc ≠ 0 then
    let resp := ⟨false, "netem apply failed".toList, runBin out⟩
    if newMid then
      let rollbackIP :=
        if ip = [] then lookupRuleDeviceField state.rules mac "ip" else ip
      let zeroed := JsonSet.device state.rules mac "mark_id".toList "0".toList
      ⟨{ state with
          rules := zeroed.getD state.rules
          tables := IptablesManager.unmarkDevice rollbackIP mac (decimal mid)
            state.tables }, resp, some mid, true, zeroed.isSome⟩
    else ⟨state, resp, some mid, false, false⟩
  else
    let (rules, failed) :=
      (jsonWrites delay jitter loss).foldl (writeField tools mac)
        (state.rules, [])
    let resp :=
      if failed ≠ [] then
        ⟨false, "partial json write failed".toList,
          "; ".toList.intercalate failed⟩
      else ⟨true, [], "delay injected".toList⟩
    ⟨{ state with rules := rules }, resp, some mid, newMid, false⟩

/-- The action from the look for the mark on. -/
def withMark (state : State) (mac : Mac) (delay jitter : Nat) (loss : Text)
    (tools : Tools) : Result :=
  let mid := lookupRuleDeviceField state.rules mac.text "mark_id"
  if mid = [] then
    let alloc := allocMidRun state mac tools.now
    if alloc.code ≠ 0 then
      refuse alloc.state "mid assign failed".toList (runBin alloc.output)
    else
      let mid := trimSpace (runBin alloc.output)
      if intRE mid then
        applyDelay alloc.state mac.text mid true delay jitter loss tools
      else
        refuse alloc.state "mid assign failed".toList
          ("alloc_mid returned non-integer mid: ".toList ++ mid)
  else applyDelay state mac.text mid false delay jitter loss tools

/-- `actionDelaySet`. -/
def actionDelaySet (state : State) (p : Params) (tools : Tools) : Result :=
  let badParams := "bad params".toList
  if isMac : isLowerMac p.mac = true then
    match atoiClamp p.delayMs 0 5000, atoiClamp p.jitterMs 0 5000 with
    | some delay, some jitter =>
        if ¬floatRE p.lossPct then
          refuse state badParams "loss_pct must be number".toList
        else if lossTooLarge p.lossPct then
          refuse state badParams "loss_pct out of range (0-100)".toList
        else if (0 < delay ∨ 0 < jitter ∨ lossPositive p.lossPct) ∧
            tools.tcHtb = some false then
          refuse state "unsupported".toList
            "tc_htb=false; delay path requires HTB leaf classes".toList
        else if (0 < delay ∨ 0 < jitter ∨ lossPositive p.lossPct) ∧
            tools.tcNetem = some false then
          refuse state "unsupported".toList
            "tc_netem=false; current kernel/TC does not support netem".toList
        else if tools.iface.1 ≠ 0 then
          refuse state "iface detect failed".toList (runBin tools.iface.2)
        else if trimSpace (runBin tools.iface.2) = [] then
          refuse state "no hotspot iface".toList []
        else withMark state ⟨p.mac, isMac⟩ delay jitter p.lossPct tools
    | _, _ =>
        refuse state badParams "delay_ms/jitter_ms out of range (0-5000)".toList
  else refuse state badParams "invalid mac".toList

/-- A call is refused before the mark is looked for, or goes on with it. -/
theorem actionDelaySet_cases (state : State) (p : Params) (tools : Tools) :
    (∃ error detail, actionDelaySet state p tools = refuse state error detail) ∨
      ∃ (mac : Mac) (delay jitter : Nat), mac.text = p.mac ∧
        actionDelaySet state p tools =
          withMark state mac delay jitter p.lossPct tools := by
  unfold actionDelaySet
  split
  · rename_i isMac
    split
    · rename_i delay jitter _ _
      split
      · exact .inl ⟨_, _, rfl⟩
      · split
        · exact .inl ⟨_, _, rfl⟩
        · split
          · exact .inl ⟨_, _, rfl⟩
          · split
            · exact .inl ⟨_, _, rfl⟩
            · split
              · exact .inl ⟨_, _, rfl⟩
              · split
                · exact .inl ⟨_, _, rfl⟩
                · exact .inr ⟨⟨p.mac, isMac⟩, delay, jitter, rfl, rfl⟩
    · exact .inl ⟨_, _, rfl⟩
  · exact .inl ⟨_, _, rfl⟩

/-- A mark was allocated, `set_delay` failed and the mark was taken back. -/
structure RolledBack (result : Result) : Prop where
  newMid : result.newMid = true
  failed : result.resp.error = "netem apply failed".toList
  undone : result.undone = true

/-- `set_delay` is called with a mark from 1 to 99, and the action succeeds. -/
structure Applies (result : Result) : Prop where
  mark : ∃ mid ∈ result.setDelay, validateMarkId mid = true
  ok : result.resp.ok = true

/-- What is taken back is written into the file. -/
theorem applyDelay_undone {state : State} {mac mid loss : Text} {newMid : Bool}
    {delay jitter : Nat} {tools : Tools}
    (undone : (applyDelay state mac mid newMid delay jitter loss tools).undone =
      true) :
    newMid = true ∧
      JsonSet.device state.rules mac "mark_id".toList "0".toList =
        some (applyDelay state mac mid newMid delay jitter loss
          tools).state.rules := by
  unfold applyDelay at undone ⊢
  by_cases failed : (setDelay tools mid).1 ≠ 0
  · simp only [if_pos failed] at undone ⊢
    cases newMid with
    | false => cases undone
    | true =>
        refine ⟨rfl, ?_⟩
        obtain ⟨next, written⟩ := Option.isSome_iff_exists.mp undone
        simp only [if_true, written, Option.getD_some]
  · simp only [if_neg failed] at undone
    cases undone

theorem rolledBack_rules {state : State} {p : Params} {tools : Tools}
    (back : RolledBack (actionDelaySet state p tools)) :
    ∃ mac : Mac, mac.text = p.mac ∧
      (allocMidRun state mac tools.now).code = 0 ∧
      JsonSet.device (allocMidRun state mac tools.now).state.rules mac.text
        "mark_id".toList "0".toList =
          some (actionDelaySet state p tools).state.rules := by
  have undone := back.undone
  rcases actionDelaySet_cases state p tools with ⟨_, _, refused⟩ |
    ⟨mac, delay, jitter, isMac, goes⟩
  · rw [refused] at undone
    cases undone
  · rw [goes] at undone ⊢
    refine ⟨mac, isMac, ?_⟩
    unfold withMark at undone ⊢
    simp only at undone ⊢
    split at undone
    · rename_i unmarked
      rw [if_pos unmarked]
      split at undone
      · cases undone
      · rename_i allocated
        rw [if_neg allocated]
        split at undone
        · rename_i number
          rw [if_pos number]
          exact ⟨not_not.mp allocated, (applyDelay_undone undone).2⟩
        · cases undone
    · cases (applyDelay_undone undone).1

theorem allocMidRun_store {state : State} {f : Frame} {d : Obj}
    (store : RulesStore state.rules f d) (mac : Mac) (now : Nat) :
    ∃ d', RulesStore (allocMidRun state mac now).state.rules f d' := by
  unfold allocMidRun
  cases state.address mac with
  | none => exact ⟨d, store⟩
  | some ip =>
      cases assigned : ApplyDeviceRule.getOrAssignMid state.rules mac.text with
      | none => exact ⟨d, store⟩
      | some mid =>
          simp only
          cases written : JsonSet.device state.rules mac.text "mark_id".toList
            mid with
          | none => exact ⟨d, store⟩
          | some marked => exact store_marked store mac now assigned written

theorem mark_after_rollback {rules next : Text} {f : Frame} {d : Obj}
    (store : RulesStore rules f d) (mac : Mac)
    (written : JsonSet.device rules mac.text "mark_id".toList "0".toList =
      some next) :
    lookupRuleDeviceField next mac.text "mark_id" = "0".toList := by
  obtain ⟨device, holds⟩ := store.exists_deviceIn mac.text
  let a : Assignment := ⟨.markId, "0".toList, isUnsigned_zero⟩
  obtain ⟨d', after, held⟩ := store.device mac a holds written
  have found : HncJson.getDevice next mac.text "mark_id".toList =
      .ok "0\n".toList := by
    rw [show "mark_id".toList = Field.markId.key from rfl,
      after.getDevice_field mac .markId held, fieldOf, Option.bind_some,
      get_frontField]
    rfl
  have nonempty : ¬(mac.text = [] ∨ "mark_id".toList = []) := by
    rintro (empty | empty)
    · exact mac.text_ne_nil empty
    · cases empty
  have shown : trimSpace (runBin (JsonSet.printLiteral "0\n".toList)) =
      "0".toList := by
    decide +kernel
  rw [lookupRuleDeviceField, JsonSet.deviceGet, if_neg nonempty, found]
  exact shown

/-- With the mark 0 in the file, `set_delay` is called with it and refuses. -/
theorem withMark_zero {state : State} {mac : Mac} (delay jitter : Nat)
    (loss : Text) (tools : Tools)
    (zero : lookupRuleDeviceField state.rules mac.text "mark_id" = "0".toList) :
    withMark state mac delay jitter loss tools =
      ⟨state, ⟨false, "netem apply failed".toList, []⟩, some "0".toList, false,
        false⟩ := by
  have refused : setDelay tools "0".toList = (1, []) := by
    rw [setDelay, if_neg (by decide)]
  have some_mark : "0".toList ≠ [] := by decide
  unfold withMark
  simp only [zero]
  rfl

/-- The parameters are in range, and nothing is known to be unsupported. -/
structure Proceeds (p : Params) (tools : Tools) : Prop where
  mac : isLowerMac p.mac = true
  delay : (atoiClamp p.delayMs 0 5000).isSome = true
  jitter : (atoiClamp p.jitterMs 0 5000).isSome = true
  loss : floatRE p.lossPct = true ∧ lossTooLarge p.lossPct = false
  supported : tools.tcHtb ≠ some false ∧ tools.tcNetem ≠ some false
  iface : tools.iface.1 = 0 ∧ trimSpace (runBin tools.iface.2) ≠ []

theorem actionDelaySet_proceeds {state : State} {p : Params} {tools : Tools}
    (proceeds : Proceeds p tools) :
    ∃ (mac : Mac) (delay jitter : Nat), mac.text = p.mac ∧
      actionDelaySet state p tools =
        withMark state mac delay jitter p.lossPct tools := by
  obtain ⟨isMac, hasDelay, hasJitter, ⟨number, small⟩, ⟨htb, netem⟩, found,
    named⟩ := proceeds
  obtain ⟨delay, isDelay⟩ := Option.isSome_iff_exists.mp hasDelay
  obtain ⟨jitter, isJitter⟩ := Option.isSome_iff_exists.mp hasJitter
  refine ⟨⟨p.mac, isMac⟩, delay, jitter, rfl, ?_⟩
  simp only [actionDelaySet, dif_pos isMac, isDelay, isJitter, number, small,
    htb, netem, found, if_neg named, and_false, if_false, not_true_eq_false,
    ne_eq, Bool.false_eq_true]

section Retry

variable {state later : State} {p q : Params} {tools answers : Tools}
variable {entries devices : List (Text × Json)}
variable (denotes : Denotes state.rules (.object entries))
variable (tree : RulesTree entries devices)
variable (back : RolledBack (actionDelaySet state p tools))
variable (kept : later.rules = (actionDelaySet state p tools).state.rules)

include denotes tree back kept

/-- After a rollback the mark that a call finds is 0. -/
theorem withMark_after_rollback {mac : Mac} (isMac : mac.text = p.mac)
    (delay jitter : Nat) (loss : Text) :
    withMark later mac delay jitter loss answers =
      ⟨later, ⟨false, "netem apply failed".toList, []⟩, some "0".toList, false,
        false⟩ := by
  obtain ⟨f, d, store⟩ := exists_rulesStore denotes tree
  obtain ⟨same, isSame, _, written⟩ := rolledBack_rules back
  have equal : same = mac := by
    apply Mac.ext_text
    rw [isMac, isSame]
  rw [equal] at written
  obtain ⟨_, allocated⟩ := allocMidRun_store store mac tools.now
  have zero := mark_after_rollback allocated mac written
  rw [← kept] at zero
  exact withMark_zero delay jitter loss answers zero

theorem retry_passes_zero (same : q.mac = p.mac)
    (proceeds : Proceeds q answers) :
    actionDelaySet later q answers =
      ⟨later, ⟨false, "netem apply failed".toList, []⟩, some "0".toList, false,
        false⟩ := by
  obtain ⟨mac, delay, jitter, isMac, goes⟩ := actionDelaySet_proceeds proceeds
  rw [goes]
  exact withMark_after_rollback denotes tree back kept (isMac.trans same) delay
    jitter q.lossPct

/-- After a rollback every later call for the device fails, whatever its
parameters and however the tools answer. -/
theorem failed_delay_cannot_be_retried (same : q.mac = p.mac) :
    ¬Applies (actionDelaySet later q answers) := by
  intro applies
  have ok := applies.ok
  rcases actionDelaySet_cases later q answers with ⟨_, _, refused⟩ |
    ⟨mac, delay, jitter, isMac, goes⟩
  · rw [refused] at ok
    cases ok
  · rw [goes, withMark_after_rollback denotes tree back kept
      (isMac.trans same) delay jitter q.lossPct] at ok
    cases ok

end Retry

def hundredMs : Params :=
  ⟨owner.text, "100".toList, "0".toList, "0".toList⟩

/-- Tools that work. -/
def working : Tools where
  tcHtb := some true
  tcNetem := some true
  iface := (0, "wlan2\n".toList)
  setDelay := (0, "DELAY_APPLY_MODE=full\n".toList)
  devices := none
  refusal _ := []
  now := 1000

/-- The same, but the delay cannot be set up. -/
def noNetem : Tools :=
  { working with setDelay := (1, []) }

theorem newOwner_rolledBack :
    RolledBack (actionDelaySet newOwner hundredMs noNetem) := by
  have run : (actionDelaySet newOwner hundredMs noNetem).newMid = true ∧
      (actionDelaySet newOwner hundredMs noNetem).resp.error =
        "netem apply failed".toList ∧
      (actionDelaySet newOwner hundredMs noNetem).undone = true := by
    decide +kernel
  exact ⟨run.1, run.2.1, run.2.2⟩

theorem newOwner_cannot_retry :
    ¬Applies (actionDelaySet (actionDelaySet newOwner hundredMs noNetem).state
      hundredMs working) :=
  failed_delay_cannot_be_retried denotes_oneDevice rulesTree_oneDevice
    newOwner_rolledBack rfl rfl

theorem retry_of_new_owner_fails :
    ¬∀ (state later : State) (p q : Params) (tools answers : Tools)
      (entries devices : List (Text × Json)),
      Denotes state.rules (.object entries) → RulesTree entries devices →
      RolledBack (actionDelaySet state p tools) →
      later.rules = (actionDelaySet state p tools).state.rules →
      q.mac = p.mac → Proceeds q answers → answers.setDelay.1 = 0 →
      Applies (actionDelaySet later q answers) := by
  intro always
  have proceeds : Proceeds hundredMs working :=
    ⟨by decide, by decide, by decide, by decide +kernel, by decide,
      by decide +kernel⟩
  have applies := always newOwner _ hundredMs hundredMs noNetem working _ _
    denotes_oneDevice rulesTree_oneDevice newOwner_rolledBack rfl rfl proceeds
    rfl
  have ok := applies.ok
  rw [retry_passes_zero denotes_oneDevice rulesTree_oneDevice
    newOwner_rolledBack rfl rfl proceeds] at ok
  cases ok

end Httpd.DelaySet
