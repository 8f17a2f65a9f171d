import Hnc.Httpd.Actions
import Hnc.Httpd.Audit
import Hnc.Httpd.Middleware
import Hnc.Httpd.WriteLimit
import Mathlib.Data.Char

/-!
# Secrets in the audit log

`handleAction` writes the redacted parameters of a request into the audit log,
next to what the action answered.  The answer of `pair_new` is what
`pair_gen.sh` prints, and that has the PIN in it.
-/

namespace Httpd

open Posix
open KeyMap
open Actions
open DelaySet (ActionResp)
open WriteLimit (WriteCounter)

/-! ### The handler -/

structure ActionReq where
  action : Text
  params : Params

/-- A request with what `authMiddleware` put into its context and what the
decoder makes of its body. -/
structure ActionRequest where
  http : HttpRequest
  contentType : Text
  csrf : Text
  tokenID : Text
  body : Except Text ActionReq

/-- The status, the answer, the scripts that were called, and what the handler
leaves: the audit log and the write counter. -/
structure ActionReply where
  status : Nat
  resp : Option ActionResp
  calls : List Actions.Call
  log : Text
  writes : WriteCounter

/-- The state of the server and the time. -/
structure ActionServer where
  log : Text
  writes : WriteCounter
  now : Int
  stamp : LocalTime

def sensitiveKeys : List Text :=
  ["password".toList, "pass".toList, "secret".toList, "token".toList,
    "pin".toList]

/-- The body of the loop of `redactSensitive`. -/
def redacted (k v : Text) : Text :=
  if toLower k ∈ sensitiveKeys ∧ v ≠ [] then "<redacted>".toList else v

def redactSensitive (p : Params) : Params :=
  rebuild id redacted p

/-- The bytes of the parameters. -/
def encodeParams (p : Params) : Map Text Text :=
  rebuild encode (fun _ v => encode v) p

def requestTid (r : ActionRequest) : Option Text :=
  if r.tokenID ≠ [] then some r.tokenID
  else if isLoopbackRequest r.http ∧ r.http.origin = [] ∧ r.http.referer = [] then
    some "loopback".toList
  else none

def isBadParamErr (msg : Text) : Bool :=
  msg ∈ ["bad params", "invalid mac", "invalid rate"].map String.toList

def respStatus (resp : ActionResp) : Nat :=
  if resp.ok then 200
  else if resp.error ∈ ["unknown action", "bad params", "protected mac"].map
      String.toList ∨ isBadParamErr resp.error then 400
  else 500

namespace ActionServer

variable (s : ActionServer)

def audit (tid action : Text) (params : Params) (result : String)
    (detail : Text) : Text :=
  auditLog s.log s.stamp (encode tid) (encode action) (encodeParams params)
    result.toList (encode detail)

/-- An answer that no action gave. -/
def refuse (status : Nat) (error : String) : ActionReply :=
  ⟨status, some (failed error []), [], s.log, s.writes⟩

/-- `s.checkWriteRate` with the key of a token. -/
def checkWriteRate (tid : Text) : WriteCounter × Bool :=
  s.writes.checkAndIncr ("wr-".toList ++ tid) s.now

/-- The log with the record of an action. -/
def recorded (tid action : Text) (p : Params) (resp : ActionResp) : Text :=
  s.audit tid action (redactSensitive p) (if resp.ok then "ok" else "error")
    (resp.error ++ resp.detail)

/-- `handleAction` behind the write counter. -/
def answer (tools : Tools) (pairGen : PairGen) (tid : Text) (req : ActionReq) :
    ActionReply :=
  let run := dispatchAction tools pairGen req.action req.params
    (tid = "loopback".toList) []
  let resp := run.1
  ⟨respStatus resp, some resp, run.2,
    s.recorded tid req.action req.params resp, (s.checkWriteRate tid).1⟩

def handleAction (tools : Tools) (pairGen : PairGen) (r : ActionRequest) :
    ActionReply :=
  if r.http.method ≠ "POST".toList then ⟨405, none, [], s.log, s.writes⟩
  else if ¬"application/json".toList.isPrefixOf r.contentType then
    s.refuse 415 "content-type must be application/json"
  else if r.csrf ≠ "1".toList then s.refuse 400 "csrf header missing"
  else match requestTid r with
    | none => s.refuse 401 "auth required for write"
    | some tid =>
        match r.body with
        | .error err =>
            { s.refuse 400 "bad json" with
              log := s.audit tid "?".toList ∅ "error" ("bad json: ".toList ++ err) }
        | .ok req =>
            if ¬(s.checkWriteRate tid).2 then
              { s.refuse 429 "write rate limited (60/min)" with
                log := s.audit tid req.action ∅ "error"
                  "write rate limited".toList
                writes := (s.checkWriteRate tid).1 }
            else s.answer tools pairGen tid req

end ActionServer

/-- One of the names of secrets, in any letter case. -/
def NamesSecret (key : Text) : Prop :=
  key.map Char.toLower ∈ sensitiveKeys

/-- Both values pass the checks that the actions make of a parameter. -/
structure SameChecks (key v v' : Text) : Prop where
  password : key = "password".toList → validPass v = validPass v'
  token : key = "token".toList → tokenError v = tokenError v'

/-- The parameters are the same, apart from secrets that are given in both. -/
structure SecretsDiffer (p p' : Params) : Prop where
  others : ∀ key, ¬NamesSecret key → p.lookup key = p'.lookup key
  secrets : ∀ key, NamesSecret key → p.lookup key = p'.lookup key ∨
    ∃ v v', p.lookup key = some v ∧ p'.lookup key = some v' ∧
      v ≠ [] ∧ v' ≠ [] ∧ SameChecks key v v'

inductive BodiesDiffer : Except Text ActionReq → Except Text ActionReq → Prop
  | error (err : Text) : BodiesDiffer (.error err) (.error err)
  | ok (action : Text) {p p' : Params} (params : SecretsDiffer p p') :
      BodiesDiffer (.ok ⟨action, p⟩) (.ok ⟨action, p'⟩)

structure RequestsDiffer (r r' : ActionRequest) : Prop where
  http : r'.http = r.http
  contentType : r'.contentType = r.contentType
  csrf : r'.csrf = r.csrf
  tokenID : r'.tokenID = r.tokenID
  body : BodiesDiffer r.body r'.body

/-- `pair_gen.sh` ends alike, and what it prints differs in the PIN only. -/
inductive DrawsDiffer : PairGen → PairGen → Prop
  | same (pairGen : PairGen) : DrawsDiffer pairGen pairGen
  | drawn (num num' : Nat) (sid : Text) (expiry : Int) :
      DrawsDiffer (.printed num sid expiry) (.printed num' sid expiry)

/-- The PIN that is printed. -/
def Actions.PairGen.pin : PairGen → Option Text
  | printed num _ _ => some (pinOf num)
  | _ => none

/-- The request passes the checks and the write counter. -/
structure Dispatched (s : ActionServer) (r : ActionRequest) (tid : Text)
    (req : ActionReq) : Prop where
  method : r.http.method = "POST".toList
  contentType : "application/json".toList.isPrefixOf r.contentType = true
  csrf : r.csrf = "1".toList
  known : requestTid r = some tid
  body : r.body = .ok req
  allowed : (s.checkWriteRate tid).2 = true

/-- The request is a `pair_new` that gets to its script. -/
def AsksForPin (s : ActionServer) (r : ActionRequest) : Prop :=
  ∃ tid req, Dispatched s r tid req ∧ req.action = "pair_new".toList

theorem toLower_of_namesSecret {key : Text} (secret : NamesSecret key) :
    toLower key ∈ sensitiveKeys := by
  have ascii : ∀ name ∈ sensitiveKeys, ∀ c ∈ name, c.toNat < 128 := by
    simp [sensitiveKeys]
  have same : toLower key = key.map Char.toLower := by
    apply List.map_congr_left
    intro c member
    have low := ascii _ secret _ (List.mem_map_of_mem member)
    have dotted : c.toNat ≠ 0x130 := by
      intro code
      have char : c = Char.ofNat 0x130 := by rw [← code, Char.ofNat_toNat]
      subst char
      exact absurd low (by decide)
    have kelvin : c.toNat ≠ 0x212A := by
      intro code
      have char : c = Char.ofNat 0x212A := by rw [← code, Char.ofNat_toNat]
      subst char
      exact absurd low (by decide)
    rw [lowerRune, if_neg dotted, if_neg kelvin]
  rw [same]
  exact secret

/-- A redacted secret is the same whatever it was. -/
theorem redacted_secret {key v : Text} (secret : NamesSecret key)
    (given : v ≠ []) : redacted key v = "<redacted>".toList :=
  if_pos ⟨toLower_of_namesSecret secret, given⟩

theorem SecretsDiffer.redacted {p p' : Params} (differ : SecretsDiffer p p')
    (key : Text) :
    (p.lookup key).map (redacted key) = (p'.lookup key).map (redacted key) := by
  by_cases secret : NamesSecret key
  · rcases differ.secrets key secret with same | ⟨v, v', found, found', given, given', _⟩
    · rw [same]
    · rw [found, found', Option.map_some, Option.map_some,
        redacted_secret secret given, redacted_secret secret given']
  · rw [differ.others key secret]

/-- The names are sorted, so only the values that a loop finds count. -/
theorem paramStr_congr {params params' : Map Text Text}
    (same : ∀ k, params.lookup k = params'.lookup k) :
    paramStr params = paramStr params' := by
  have perm : params.keys.Perm params'.keys := by
    apply (List.perm_ext_iff_of_nodup params.keys_nodup params'.keys_nodup).mpr
    intro k
    rw [← AList.mem_keys, ← AList.mem_keys, ← AList.lookup_isSome,
      ← AList.lookup_isSome, same]
  have sorted : ∀ keys : List Text,
      (keys.mergeSort fun a b => !decide (b < a)).Pairwise (· ≤ ·) := by
    intro keys
    have pairs := @List.pairwise_mergeSort _
      (fun a b : Text => !decide (b < a)) ?_ ?_ keys
    · exact pairs.imp fun before => by simpa using before
    · intro a b c ab bc
      simp only [Bool.not_eq_true', decide_eq_false_iff_not, not_lt] at ab bc ⊢
      exact le_trans ab bc
    · intro a b
      rcases le_total a b with below | below <;> simp [below]
  have keys : sortedKeys params = sortedKeys params' := by
    apply List.Perm.eq_of_pairwise' (sorted _) (sorted _)
    exact (List.mergeSort_perm _ _).trans
      (perm.trans (List.mergeSort_perm _ _).symm)
  rw [paramStr]
  congr 1
  funext k
  rw [same]

theorem SecretsDiffer.paramStr {p p' : Params} (differ : SecretsDiffer p p') :
    paramStr (encodeParams (redactSensitive p)) =
      paramStr (encodeParams (redactSensitive p')) := by
  apply paramStr_congr
  apply lookup_rebuild_congr encode _ encode_injective
  intro k
  have stored : ∀ q : Params,
      (redactSensitive q).lookup k = (q.lookup k).map (Httpd.redacted k) :=
    fun q => lookup_rebuild id Httpd.redacted Function.injective_id q k
  rw [stored, stored, differ.redacted]

instance (key : Text) : Decidable (NamesSecret key) :=
  inferInstanceAs (Decidable (_ ∈ _))

theorem SecretsDiffer.param {p p' : Params} (differ : SecretsDiffer p p')
    (key : String) (plain : ¬NamesSecret key.toList) :
    param p key = param p' key := by
  rw [Actions.param, Actions.param, differ.others _ plain]

/-- A secret that an action reads passes the checks in both requests, or is
missing in both. -/
theorem SecretsDiffer.secret {p p' : Params} (differ : SecretsDiffer p p')
    (key : String) (secret : NamesSecret key.toList) :
    (Actions.param p key = [] ↔ Actions.param p' key = []) ∧
      SameChecks key.toList (Actions.param p key) (Actions.param p' key) := by
  rcases differ.secrets _ secret with same |
    ⟨v, v', found, found', given, given', checks⟩
  · rw [Actions.param, same]
    exact ⟨Iff.rfl, fun _ => rfl, fun _ => rfl⟩
  · rw [Actions.param, Actions.param, found, found']
    exact ⟨iff_of_false given given', checks⟩

/-- The same answer behind as many calls, with whatever arguments. -/
def SameAnswers {Answer : Type} (left right : Action Answer) : Prop :=
  ∀ calls calls', calls.length = calls'.length →
    (left calls).1 = (right calls').1 ∧
      (left calls).2.length = (right calls').2.length

theorem SameAnswers.pure {Answer : Type} (answer : Answer) :
    SameAnswers (pure answer) (pure answer) := by
  intro calls calls' long
  exact ⟨rfl, long⟩

section

variable {tools : Tools}

theorem SameAnswers.runOr {script : String} {args args' : List Text}
    {error : String} {detail : Text → Text}
    {next next' : Text → Action ActionResp}
    (same : ∀ out, SameAnswers (next out) (next' out)) :
    SameAnswers (Actions.runOr tools script args error detail next)
      (Actions.runOr tools script args' error detail next') := by
  intro calls calls' long
  have later : (calls ++ [⟨script, args⟩] : List Actions.Call).length =
      (calls' ++ [⟨script, args'⟩] : List Actions.Call).length := by
    rw [List.length_append, List.length_append, long]
    rfl
  have first : ∀ next : Text → Action ActionResp, ∀ args calls,
      Actions.runOr tools script args error detail next calls =
        if ((tools.exec calls.length script).result script).1 ≠ 0 then
          (failed error (detail ((tools.exec calls.length script).result script).2),
            calls ++ [⟨script, args⟩])
        else next ((tools.exec calls.length script).result script).2
          (calls ++ [⟨script, args⟩]) := by
    intro next args calls
    unfold Actions.runOr
    split <;> rename_i failure <;>
      simp [bind, StateT.bind, Actions.runBin, failure]
    rfl
  rw [first, first, long]
  split
  · exact ⟨rfl, later⟩
  · exact same _ _ _ later

theorem SameAnswers.saveTop {given given' : Text} {field : String}
    {value value' : Text} {error : String} {next next' : Action ActionResp}
    (alike : given = [] ↔ given' = []) (same : SameAnswers next next') :
    SameAnswers (Actions.saveTop tools given field value error next)
      (Actions.saveTop tools given' field value' error next') := by
  unfold Actions.saveTop
  by_cases empty : given = []
  · rw [if_pos empty, if_pos (alike.mp empty)]
    exact same
  · rw [if_neg empty, if_neg (mt alike.mpr empty)]
    exact .runOr fun _ => same

theorem SameAnswers.ite {c c' : Prop} [Decidable c] [Decidable c']
    {left left' right right' : Action ActionResp} (alike : c ↔ c')
    (yes : SameAnswers left left') (no : SameAnswers right right') :
    SameAnswers (if c then left else right) (if c' then left' else right') := by
  by_cases holds : c
  · rw [if_pos holds, if_pos (alike.mp holds)]
    exact yes
  · rw [if_neg holds, if_neg (mt alike.mpr holds)]
    exact no

variable {p p' : Params}

theorem sameAnswers_hotspotSave (differ : SecretsDiffer p p') :
    SameAnswers (actionHotspotSave tools p) (actionHotspotSave tools p') := by
  obtain ⟨given, checks⟩ := differ.secret "password" (by decide)
  have valid := checks.password rfl
  unfold actionHotspotSave
  rw [differ.param "ssid" (by decide), differ.param "delay_sec" (by decide),
    differ.param "autostart" (by decide)]
  apply SameAnswers.ite Iff.rfl (.pure _)
  apply SameAnswers.ite ?_ (.pure _)
  · apply SameAnswers.ite Iff.rfl (.pure _)
    apply SameAnswers.ite Iff.rfl (.pure _)
    exact .saveTop Iff.rfl <| .saveTop given <| .saveTop Iff.rfl <|
      .saveTop Iff.rfl (.pure _)
  · rw [ne_eq, given, valid]

theorem sameAnswers_pairRevoke (differ : SecretsDiffer p p') :
    SameAnswers (actionPairRevoke tools p) (actionPairRevoke tools p') := by
  have checks := (differ.secret "token" (by decide)).2.token rfl
  unfold actionPairRevoke
  simp only [checks]
  split
  · exact .pure _
  · exact .runOr fun _ => .pure _

/-- Only `pair_new` answers with what `pair_gen.sh` prints. -/
theorem runAction_answer (differ : SecretsDiffer p p')
    (pairGen pairGen' : PairGen) {name : ActionName} (other : name ≠ .pairNew) :
    (runAction tools pairGen p name []).1 =
      (runAction tools pairGen' p' name []).1 := by
  cases name with
  | pairNew => exact absurd rfl other
  | hotspotSave => exact (sameAnswers_hotspotSave differ [] [] rfl).1
  | pairRevoke => exact (sameAnswers_pairRevoke differ [] [] rfl).1
  | _ =>
      simp (disch := decide) only [runAction, actionRuleSet, actionRuleClear,
        actionTemplateApply, actionBLAdd, actionBLDel, actionDelaySet,
        actionDelayClear, actionWhitelistSet, actionAuthRequiredSet,
        actionRemoteEnabledSet, setTop, actionHotspotIfaceSet, actionSQMSet,
        actionDPIRebind, differ.param]

end

theorem actionName_pairNew {action : Text} :
    actionName action = some .pairNew ↔ action = "pair_new".toList := by
  constructor
  · intro named
    obtain ⟨entry, found, name⟩ := Option.map_eq_some_iff.mp named
    have texts : ∀ entry ∈ actionNames, entry.2 = .pairNew →
        entry.1 = "pair_new" := by
      decide
    have text := texts entry (List.mem_of_find?_eq_some found) name
    have matched := List.find?_some found
    rw [← of_decide_eq_true matched, text]
  · rintro rfl
    decide

theorem dispatchAction_answer {tools : Tools} {p p' : Params}
    (differ : SecretsDiffer p p') (pairGen pairGen' : PairGen) {action : Text}
    (other : action ≠ "pair_new".toList) (isLoopback : Bool) :
    (dispatchAction tools pairGen action p isLoopback []).1 =
      (dispatchAction tools pairGen' action p' isLoopback []).1 := by
  unfold dispatchAction
  cases named : actionName action with
  | none => rfl
  | some name =>
      have notPair : name ≠ .pairNew := by
        rintro rfl
        exact other (actionName_pairNew.mp named)
      simp only
      split
      · rfl
      · exact runAction_answer differ pairGen pairGen' notPair

theorem dispatchAction_pairNew (tools : Tools) (pairGen : PairGen) (p : Params)
    (isLoopback : Bool) :
    dispatchAction tools pairGen "pair_new".toList p isLoopback [] =
      actionPairNew pairGen [] := by
  have named := actionName_pairNew.mpr rfl
  unfold dispatchAction
  rfl

/-- What `pair_gen.sh` prints in front of the session. -/
def pinFront (num : Nat) : Text :=
  "\x7b\"ok\":true,\"pin\":\"".toList ++ pinOf num

theorem pinOf_eq (num : Nat) :
    pinOf num = (Nat.toDigits 10 (num % 1000000)).leftpad 6 '0' := by
  rw [pinOf, sixDigits, Nat.toList_repr]
  rfl

theorem length_pinFront (num : Nat) : (pinFront num).length = 24 := by
  have small : num % 1000000 < 10 ^ 6 := by omega
  have label : "\x7b\"ok\":true,\"pin\":\"".toList.length = 18 := by decide
  have padded : (pinOf num).length = 6 :=
    (congrArg List.length (pinOf_eq num)).trans
      (length_leftpad_toDigits (by decide) small)
  calc
    (pinFront num).length = _ + _ := List.length_append
    _ = 18 + 6 := congrArg₂ (· + ·) label padded

theorem pinFront_injective {num num' : Nat}
    (same : pinFront num = pinFront num') : pinOf num = pinOf num' :=
  List.append_cancel_left same

/-- A character that takes one byte, is no space and stays in a record. -/
structure IsPlain (c : Char) : Prop where
  solid : isGoSpace c = false
  ascii : c.toNat < 128
  flat : c ≠ '\n' ∧ c ≠ '\r' ∧ c ≠ '\t'

instance (c : Char) : Decidable (IsPlain c) :=
  decidable_of_iff
    (isGoSpace c = false ∧ c.toNat < 128 ∧ c ≠ '\n' ∧ c ≠ '\r' ∧ c ≠ '\t')
    ⟨fun ⟨solid, ascii, flat⟩ => ⟨solid, ascii, flat⟩,
      fun plain => ⟨plain.solid, plain.ascii, plain.flat⟩⟩

theorem isPlain_of_isDigit {c : Char} (digit : isDigit c = true) :
    IsPlain c := by
  have all : ∀ n < 58, 48 ≤ n → IsPlain (Char.ofNat n) := by
    decide
  rw [isDigit, Bool.and_eq_true, decide_eq_true_eq, decide_eq_true_eq] at digit
  rw [← Char.ofNat_toNat c]
  exact all c.toNat (Nat.lt_succ_of_le digit.2) digit.1

theorem pinFront_plain (num : Nat) : ∀ c ∈ pinFront num, IsPlain c := by
  have digits := List.all_eq_true.mp (all_leftpad_toDigits 6 (num % 1000000))
  have label : ("\x7b\"ok\":true,\"pin\":\"".toList.all fun c =>
      decide (IsPlain c)) = true := by
    decide
  intro c member
  rcases List.mem_append.mp member with front | digit
  · exact of_decide_eq_true (List.all_eq_true.mp label c front)
  · rw [pinOf_eq] at digit
    exact isPlain_of_isDigit (digits c digit)

theorem prefix_runBin {front text : Text} (leads : front <+: text)
    (short : (utf8 front).length ≤ 1024) : front <+: DelaySet.runBin text := by
  obtain ⟨rest, rfl⟩ := leads
  have within : ∀ (front : Text) (bytes : Nat), (utf8 front).length ≤ bytes →
      front <+: DelaySet.within bytes (front ++ rest) := by
    intro front
    induction front with
    | nil => exact fun _ _ => List.nil_prefix
    | cons c front induction =>
        intro bytes fits
        rw [utf8_cons, List.length_append, String.length_utf8EncodeChar] at fits
        rw [List.cons_append, DelaySet.within, if_pos (by omega)]
        exact List.prefix_cons_inj c |>.mpr (induction _ (by omega))
  rw [DelaySet.runBin]
  split
  · exact (within front 1024 short).trans (List.prefix_append _ _)
  · exact List.prefix_append _ _

variable {front text : Text}

theorem prefix_trimSpace (leads : front <+: text)
    (plain : ∀ c ∈ front, IsPlain c) : front <+: trimSpace text := by
  obtain ⟨rest, rfl⟩ := leads
  have kept : ∀ (some : Text) (behind : Text), some ≠ [] →
      (∀ c ∈ some, IsPlain c) →
      (some ++ behind).dropWhile isGoSpace = some ++ behind := by
    intro some behind nonempty plain
    cases some with
    | nil => exact absurd rfl nonempty
    | cons c some =>
        apply List.dropWhile_cons_of_neg
        rw [(plain c List.mem_cons_self).solid]
        decide
  by_cases empty : front = []
  · rw [empty]
    exact List.nil_prefix
  · have back := kept front.reverse [] (by simpa using empty)
      fun c member => plain c (List.mem_reverse.mp member)
    rw [List.append_nil] at back
    rw [trimSpace, kept front rest empty plain, List.reverse_append,
      List.dropWhile_append]
    split
    · rw [back, List.reverse_reverse]
    · rw [List.reverse_append, List.reverse_reverse]
      exact List.prefix_append _ _

theorem prefix_encode (leads : front <+: text)
    (plain : ∀ c ∈ front, IsPlain c) : front <+: encode text := by
  obtain ⟨rest, rfl⟩ := leads
  rw [encode_append, encode_ascii fun c member => (plain c member).ascii]
  exact List.prefix_append _ _

theorem prefix_replaceAll {new : Text} {old : Char} (leads : front <+: text)
    (free : old ∉ front) : front <+: replaceAll old new text := by
  obtain ⟨rest, rfl⟩ := leads
  have kept : replaceAll old new front = front := by
    induction front with
    | nil => rfl
    | cons c front induction =>
        rw [List.mem_cons, not_or] at free
        have tail := induction free.2
        rw [replaceAll] at tail ⊢
        rw [List.flatMap_cons, tail, if_neg (Ne.symm free.1)]
        rfl
  have parts : replaceAll old new (front ++ rest) =
      replaceAll old new front ++ replaceAll old new rest :=
    List.flatMap_append
  rw [parts, kept]
  exact List.prefix_append _ _

/-- The cut stays behind the first bytes of characters. -/
theorem le_cutLeft {s : Text} {k cut : Nat} (behind : k ≤ cut)
    (starts : runeStart (s.getD k '\x00') = true) : k ≤ cutLeft s cut := by
  induction cut with
  | zero => exact behind
  | succ cut induction =>
      rw [cutLeft]
      split
      · exact behind
      · rename_i inside
        apply induction
        rcases Nat.lt_or_eq_of_le behind with before | here
        · exact Nat.le_of_lt_succ before
        · rw [here] at starts
          exact absurd starts inside

/-- What stands in front of a plain character within 256 bytes is not cut. -/
theorem prefix_sanitizeField {c : Char} (leads : front ++ [c] <+: text)
    (plain : ∀ d ∈ front ++ [c], IsPlain d) (short : front.length ≤ 256) :
    front <+: sanitizeField text := by
  have unbroken : front ++ [c] <+: unbroken text := by
    apply prefix_replaceAll _ fun member => (plain _ member).flat.2.2 rfl
    apply prefix_replaceAll _ fun member => (plain _ member).flat.2.1 rfl
    exact prefix_replaceAll leads fun member => (plain _ member).flat.1 rfl
  have front_unbroken := (List.prefix_append front [c]).trans unbroken
  rw [sanitizeField]
  split
  · have ascii : ∀ n < 128, (n &&& 0xC0 != 0x80) = true := by
      decide
    have starts : runeStart ((Httpd.unbroken text).getD front.length '\x00') =
        true := by
      obtain ⟨rest, split⟩ := unbroken
      rw [← split, List.append_assoc, List.getD_append_right _ _ _ _ (Nat.le_refl _),
        Nat.sub_self]
      exact ascii c.toNat (plain c (by simp)).ascii
    have kept := le_cutLeft short starts
    apply List.IsPrefix.trans _ (List.prefix_append _ _)
    rw [List.prefix_take_iff]
    exact ⟨front_unbroken, kept⟩
  · exact front_unbroken

/-! ### The records of two runs -/

theorem pairGenLine_leads (num : Nat) (sid : Text) (expiry : Int) :
    pinFront num ++ ['"'] <+: pairGenLine (pinOf num) sid expiry := by
  have quote : ['"'] <+: "\",\"session_id\":\"".toList := by
    decide
  have label : pinFront num ++ ['"'] <+:
      pinFront num ++ "\",\"session_id\":\"".toList :=
    (List.prefix_append_right_inj _).mpr quote
  iterate 6 apply List.prefix_append_of_prefix
  exact label

theorem pin_in_record (num : Nat) (sid : Text) (expiry : Int) :
    pinFront num <+: sanitizeField
      (encode (trimSpace (DelaySet.runBin (pairGenLine (pinOf num) sid expiry)))) := by
  have plain : ∀ c ∈ pinFront num ++ ['"'], IsPlain c := by
    intro c member
    rcases List.mem_append.mp member with front | quote
    · exact pinFront_plain num c front
    · rw [List.mem_singleton.mp quote]
      decide
  have long : (pinFront num ++ ['"']).length = 25 := by
    rw [List.length_append, length_pinFront]
    rfl
  have bytes : (utf8 (pinFront num ++ ['"'])).length ≤ 1024 := by
    rw [utf8_of_ascii fun c member => (plain c member).ascii, List.length_map, long]
    decide
  apply prefix_sanitizeField _ plain (by rw [length_pinFront]; decide)
  apply prefix_encode _ plain
  apply prefix_trimSpace _ plain
  exact prefix_runBin (pairGenLine_leads num sid expiry) bytes

theorem auditLog_eq_iff {log tid action result detail detail' : Text}
    {now : LocalTime} {params params' : Map Text Text}
    (same : paramStr params = paramStr params') :
    auditLog log now tid action params result detail =
        auditLog log now tid action params' result detail' ↔
      detailStr detail = detailStr detail' := by
  rw [auditLog, auditLog, auditLine, auditLine, same, List.append_cancel_left_eq,
    List.append_cancel_right_eq, List.append_cancel_left_eq]

/-- The records of two numbers are the same only if they make one PIN. -/
theorem detailStr_pairGenLine_iff (num num' : Nat) (sid : Text) (expiry : Int) :
    detailStr (encode (trimSpace (DelaySet.runBin
        (pairGenLine (pinOf num) sid expiry)))) =
      detailStr (encode (trimSpace (DelaySet.runBin
        (pairGenLine (pinOf num') sid expiry)))) ↔ pinOf num = pinOf num' := by
  constructor
  · intro same
    have shown := pin_in_record num sid expiry
    have shown' := pin_in_record num' sid expiry
    have record : ∀ num : Nat, encode (trimSpace (DelaySet.runBin
        (pairGenLine (pinOf num) sid expiry))) ≠ [] := by
      intro num empty
      have short := (pin_in_record num sid expiry).length_le
      rw [empty, length_pinFront] at short
      exact absurd short (by decide)
    rw [detailStr, detailStr, if_neg (record num), if_neg (record num')] at same
    rw [List.append_cancel_left same] at shown
    have lengths := (length_pinFront num).trans (length_pinFront num').symm
    have whole := List.prefix_of_prefix_length_le shown shown' lengths.le
    exact pinFront_injective (whole.eq_of_length lengths)
  · intro same
    rw [same]

namespace Dispatched

variable {s : ActionServer} {r : ActionRequest} {tid : Text} {req : ActionReq}

theorem answer (dispatched : Dispatched s r tid req) (tools : Tools)
    (pairGen : PairGen) :
    s.handleAction tools pairGen r = s.answer tools pairGen tid req := by
  unfold ActionServer.handleAction
  split
  · rename_i method
    exact absurd dispatched.method method
  · split
    · rename_i contentType
      exact absurd dispatched.contentType contentType
    · split
      · rename_i csrf
        exact absurd dispatched.csrf csrf
      · simp only [dispatched.known, dispatched.body]
        split
        · rename_i refused
          exact absurd dispatched.allowed refused
        · rfl

theorem differ (dispatched : Dispatched s r tid req) {r' : ActionRequest}
    (differ : RequestsDiffer r r') :
    ∃ p', Dispatched s r' tid ⟨req.action, p'⟩ ∧
      SecretsDiffer req.params p' := by
  have bodies := differ.body
  generalize body : r'.body = body' at bodies
  rw [dispatched.body] at bodies
  cases bodies with
  | ok _ params =>
      refine ⟨_, ?_, params⟩
      constructor
      · rw [differ.http, dispatched.method]
      · rw [differ.contentType, dispatched.contentType]
      · rw [differ.csrf, dispatched.csrf]
      · rw [requestTid, differ.http, differ.tokenID]
        exact dispatched.known
      · exact body
      · exact dispatched.allowed

end Dispatched

/-- What is refused leaves the same record, whatever the secrets are. -/
theorem log_of_not_dispatched {s : ActionServer} {r r' : ActionRequest}
    (refused : ∀ tid req, ¬Dispatched s r tid req)
    (differ : RequestsDiffer r r') (tools : Tools) (pairGen pairGen' : PairGen) :
    (s.handleAction tools pairGen r).log =
      (s.handleAction tools pairGen' r').log := by
  have tids : requestTid r' = requestTid r := by
    rw [requestTid, requestTid, differ.http, differ.tokenID]
  have bodies := differ.body
  unfold ActionServer.handleAction
  rw [differ.http, differ.contentType, differ.csrf, tids]
  split
  · rfl
  · rename_i method
    split
    · rfl
    · rename_i contentType
      split
      · rfl
      · rename_i csrf
        split
        · rfl
        · rename_i tid known
          generalize body : r.body = content at bodies
          generalize r'.body = content' at bodies
          cases bodies with
          | error err => rfl
          | ok action params =>
              simp only
              split
              · rfl
              · rename_i allowed
                exact absurd ⟨not_not.mp method, not_not.mp contentType,
                  not_not.mp csrf, known, body, not_not.mp allowed⟩
                  (refused tid _)

section

variable (s : ActionServer) (tid action : Text) {p p' : Params}

theorem recorded_congr (differ : SecretsDiffer p p') (resp : ActionResp) :
    s.recorded tid action p resp = s.recorded tid action p' resp := by
  apply (auditLog_eq_iff differ.paramStr).mpr
  rfl

/-- What `pair_new` answers when a PIN was drawn. -/
def paired (num : Nat) (sid : Text) (expiry : Int) : ActionResp :=
  ⟨true, [], trimSpace (DelaySet.runBin (pairGenLine (pinOf num) sid expiry))⟩

theorem recorded_paired_iff (differ : SecretsDiffer p p') (num num' : Nat)
    (sid : Text) (expiry : Int) :
    s.recorded tid action p (paired num sid expiry) =
        s.recorded tid action p' (paired num' sid expiry) ↔
      pinOf num = pinOf num' := by
  have detail : ∀ num, (paired num sid expiry).error ++
      (paired num sid expiry).detail =
        trimSpace (DelaySet.runBin (pairGenLine (pinOf num) sid expiry)) := by
    intro num
    simp only [paired, List.nil_append]
  unfold ActionServer.recorded ActionServer.audit
  rw [detail, detail]
  apply (auditLog_eq_iff differ.paramStr).trans
  exact detailStr_pairGenLine_iff num num' sid expiry

end

theorem actionPairNew_printed (num : Nat) (sid : Text) (expiry : Int) :
    (actionPairNew (.printed num sid expiry) []).1 = paired num sid expiry :=
  rfl

/-- The records of two runs are the same exactly if they do not show two
PINs. -/
theorem handleAction_log_iff (s : ActionServer) (tools : Tools)
    {r r' : ActionRequest} {pairGen pairGen' : PairGen}
    (differ : RequestsDiffer r r') (draws : DrawsDiffer pairGen pairGen') :
    (s.handleAction tools pairGen r).log =
        (s.handleAction tools pairGen' r').log ↔
      (AsksForPin s r → pairGen.pin = pairGen'.pin) := by
  by_cases reached : ∃ tid req, Dispatched s r tid req
  · obtain ⟨tid, req, dispatched⟩ := reached
    obtain ⟨p', dispatched', params⟩ := dispatched.differ differ
    rw [dispatched.answer, dispatched'.answer]
    unfold ActionServer.answer
    simp only
    by_cases isPair : req.action = "pair_new".toList
    · have asks : AsksForPin s r := ⟨tid, req, dispatched, isPair⟩
      rw [isPair, dispatchAction_pairNew, dispatchAction_pairNew]
      cases draws with
      | same => exact iff_of_true (recorded_congr s tid _ params _) fun _ => rfl
      | drawn num num' sid expiry =>
          rw [actionPairNew_printed, actionPairNew_printed,
            recorded_paired_iff s tid _ params]
          simp only [PairGen.pin, Option.some.injEq]
          exact ⟨fun same _ => same, fun same => same asks⟩
    · have asks : ¬AsksForPin s r := by
        rintro ⟨tid', req', other, isPair'⟩
        have same := other.body.symm.trans dispatched.body
        rw [Except.ok.inj same] at isPair'
        exact isPair isPair'
      rw [dispatchAction_answer params pairGen pairGen' isPair]
      exact iff_of_true (recorded_congr s tid _ params _)
        fun asked => absurd asked asks
  · refine iff_of_true ?_ fun ⟨tid, req, dispatched, _⟩ =>
      absurd ⟨tid, req, dispatched⟩ reached
    exact log_of_not_dispatched (fun tid req dispatched =>
      reached ⟨tid, req, dispatched⟩) differ tools pairGen pairGen'

/-- Scripts that succeed and print nothing. -/
def quietTools : Tools where
  exec _ _ := .exited 0 []
  spawn _ _ := none
  capability _ _ := none
  devices _ := none
  hncState := none
  address _ := none
  parseFloatPositive _ := false

/-- A server that has written nothing yet. -/
def freshServer : ActionServer :=
  ⟨[], .newWriteCounter, 0, aprilNoon⟩

/-- The page on the device itself asks for an action. -/
def localAction (action : String) (p : Params) : ActionRequest where
  http := { localRequest with
    method := "POST".toList
    path := "/api/action".toList }
  contentType := "application/json".toList
  csrf := "1".toList
  tokenID := []
  body := .ok ⟨action.toList, p⟩

theorem localAction_dispatched (action : String) (p : Params) :
    Dispatched freshServer (localAction action p) "loopback".toList
      ⟨action.toList, p⟩ where
  method := rfl
  contentType := List.isPrefixOf_iff_prefix.mpr (List.prefix_refl _)
  csrf := rfl
  known := by
    have loopback : isLoopbackRequest (localAction action p).http = true := by
      have same : isLoopbackRequest (localAction action p).http =
          isLoopbackRequest localRequest := rfl
      rw [same]
      decide +kernel
    have anonymous : (localAction action p).tokenID = [] := rfl
    unfold requestTid
    rw [if_neg (not_not.mpr anonymous)]
    exact if_pos ⟨loopback, rfl, rfl⟩
  body := rfl
  allowed := by decide

/-- The same hotspot with another password. -/
def savedPassword (pass : String) : Params :=
  (∅ : Params).insert "password".toList pass.toList

theorem savedPassword_differ :
    SecretsDiffer (savedPassword "hunter22") (savedPassword "letmein99") := by
  constructor
  · intro key plain
    have other : key ≠ "password".toList := by
      rintro rfl
      exact plain (by decide)
    rw [savedPassword, savedPassword, AList.lookup_insert_ne other,
      AList.lookup_insert_ne other]
  · intro key _
    by_cases isPass : key = "password".toList
    · subst isPass
      refine .inr ⟨_, _, AList.lookup_insert _, AList.lookup_insert _,
        by decide, by decide, ?_, ?_⟩
      · intro _
        decide
      · intro token
        exact absurd token (by decide)
    · rw [savedPassword, savedPassword, AList.lookup_insert_ne isPass,
        AList.lookup_insert_ne isPass]
      exact .inl rfl

theorem saved_passwords_leave_one_record :
    (freshServer.handleAction quietTools .timedOut
      (localAction "hotspot_save" (savedPassword "hunter22"))).log =
    (freshServer.handleAction quietTools .timedOut
      (localAction "hotspot_save" (savedPassword "letmein99"))).log := by
  apply (handleAction_log_iff freshServer quietTools _ (.same .timedOut)).mpr
  · exact fun _ => rfl
  · exact ⟨rfl, rfl, rfl, rfl, .ok _ savedPassword_differ⟩

theorem secretsDiffer_refl (p : Params) : SecretsDiffer p p :=
  ⟨fun _ _ => rfl, fun _ _ => .inl rfl⟩

/-- Two PINs that `pair_gen.sh` may draw leave two records. -/
theorem pins_reach_the_record :
    ¬∀ (s : ActionServer) (tools : Tools) (r r' : ActionRequest)
      (pairGen pairGen' : PairGen), RequestsDiffer r r' →
      DrawsDiffer pairGen pairGen' →
      (s.handleAction tools pairGen r).log =
        (s.handleAction tools pairGen' r').log := by
  intro always
  have same := always freshServer quietTools (localAction "pair_new" ∅) _ _ _
    ⟨rfl, rfl, rfl, rfl, .ok _ (secretsDiffer_refl ∅)⟩
    (.drawn 123456 654321 "Zm9vYmFyYmF6".toList 1713456789)
  have dispatched := localAction_dispatched "pair_new" ∅
  rw [dispatched.answer, dispatched.answer] at same
  have pins := (recorded_paired_iff freshServer "loopback".toList
    "pair_new".toList (secretsDiffer_refl ∅) 123456 654321 _ _).mp same
  exact absurd pins (by decide)

end Httpd
