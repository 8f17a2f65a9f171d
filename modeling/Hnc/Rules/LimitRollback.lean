import Hnc.Json.DeviceFields
import Hnc.Rules.MarkOwners

/-!
# `limit` of `bin/apply_device_rule.sh` when a tool fails

`limit` and `alloc_mid` with what they print.  When `tc_manager.sh set_limit`
fails, the mark that was just installed is removed again, and with it the mark
of a limit or delay that the device had before.
-/

namespace Hnc.StaleRules

open Posix JsonText IptablesManager ApplyDeviceRule JsonSet Runs
open MarkChain hiding step Command

/-- What a command leaves and prints. -/
structure Outcome where
  state : State
  code : Nat
  output : Text

def errorLine (message : Text) : Text :=
  "error: ".toList ++ message ++ ['\n']

/-- `emit_err`. -/
def emitErr (state : State) (message : Text) : Outcome :=
  ⟨state, 1, errorLine message⟩

/-- The message of the rollback. -/
def tcFailed : Text := "tc set_limit failed".toList

/-- The names of fields, joined by commas, as `JSON_FAILED` lists them. -/
def joined (names : List Text) : Text :=
  [','].intercalate names

theorem isUnsigned_zero : isUnsigned "0".toList = true := by
  decide

/-- The rate of an uplink that could not be shaped. -/
def noRate : Rate :=
  ⟨"0".toList, isUnsigned_zero⟩

/-- `limit` from the exit code of `set_limit` on, in a state with the mark
stored and installed. -/
def afterTc (state : State) (mac : Mac) (ip : Ipv4) (mid : Text)
    (down up : Rate) (tcRc later : Nat) : Outcome :=
  if tcRc ≠ 0 ∧ tcRc ≠ 8 then
    emitErr { state with
      tables := unmarkDevice ip.text mac.text (decimal mid) state.tables } tcFailed
  else
    let applied := if tcRc = 8 then noRate else up
    let fields := (limitFields ip down applied later).map fun a =>
      (a.field.key, a.value)
    match JsonSetBatch.device state.rules mac.text fields with
    | none =>
        ⟨state, 8, errorLine ("partial_json_fail=".toList ++
          joined (fields.map Prod.fst))⟩
    | some rules =>
        ⟨{ state with rules := rules }, 0,
          if tcRc = 8 then "ok partial_tc_fail=uplink\n".toList
          else "ok\n".toList⟩

/-- `limit`, with the answer of `device_detect.sh iface` and the exit code of
`tc_manager.sh set_limit`; the gate lock is free and `iptables_manager.sh mark`
succeeds. -/
def limitRun (state : State) (iface : Text) (mac : Mac) (down up : Rate)
    (tcRc now later : Nat) : Outcome :=
  match state.address mac with
  | none =>
      emitErr state ("device not found in devices.json (mac=".toList ++ mac.text ++
        ", 设备可能离线或还没被探到)".toList)
  | some ip =>
      if iface = [] ∨ iface = "wlan0".toList then
        emitErr state ("no active hotspot iface (got '".toList ++ iface ++
          "')".toList)
      else
        match getOrAssignMid state.rules mac.text with
        | none =>
            emitErr state
              "mark_id exhausted; too many devices with persistent rules".toList
        | some mid =>
            match JsonSet.device state.rules mac.text "mark_id".toList mid with
            | none =>
                emitErr state ("failed to write mark_id=".toList ++ mid ++
                  " to rules.json (mid alloc race risk)".toList)
            | some marked =>
                afterTc { state with
                    rules := (DeviceWrite.jsonSet mac (seen now)).run marked
                    tables :=
                      markDevice ip.text mac.text (decimal mid) state.tables }
                  mac ip mid down up tcRc later

/-- `alloc_mid`, with the gate lock free. -/
def allocMidRun (state : State) (mac : Mac) (now : Nat) : Outcome :=
  match state.address mac with
  | none =>
      emitErr state ("device not found in devices.json (mac=".toList ++ mac.text ++
        ")".toList)
  | some ip =>
      match getOrAssignMid state.rules mac.text with
      | none =>
          emitErr state
            "mark_id exhausted; too many devices with persistent rules".toList
      | some mid =>
          match JsonSet.device state.rules mac.text "mark_id".toList mid with
          | none =>
              emitErr state ("failed to write mark_id=".toList ++ mid ++
                " to rules.json (mid alloc race risk)".toList)
          | some marked =>
              ⟨{ state with
                rules := (DeviceWrite.jsonSet mac (seen now)).run marked
                tables := markDevice ip.text mac.text (decimal mid) state.tables },
                0, mid ++ ['\n']⟩

/-- The rules of the device are those of before, and so are its fields; a mark
from 1 to 99 stays. -/
structure KeepsRule (before after : State) (mac : Mac) : Prop where
  hncMark : after.tables.hncMark = before.tables.hncMark
  hncMark6 : after.tables.hncMark6 = before.tables.hncMark6
  fields : ∀ field ∈ [Field.downMbps, .upMbps, .limitEnabled, .ip],
    storedField after.rules mac.text field.key =
      storedField before.rules mac.text field.key
  mark : ∀ n, 1 ≤ n → n ≤ 99 →
    ApplyDeviceRule.markOf before.rules mac.text = some n →
      ApplyDeviceRule.markOf after.rules mac.text = some n

/-- A rule for a device and its mark. -/
def DeviceRule (mac : Text) (mark : Nat) (rule : MarkRule) : Prop :=
  rule = macRule mac mark ∨
    ∃ ip, ip ≠ [] ∧ (rule = srcRule ip mac mark ∨ rule = dstRule ip mark)

/-- No chain has a rule for the device with the mark. -/
def NotMarked (tables : Tables) (mac : Text) (mark : Nat) : Prop :=
  (∀ rule ∈ tables.hncMark, ¬DeviceRule mac mark rule) ∧
    (tables.ipv6Ok = true → macRule mac mark ∉ tables.hncMark6)

/-- The mark that stands for a device in the file: the first one behind its
address when it is in range, else the first of the probing order that the file
does not hold. -/
def StandsFor (rules mac : Text) (n : Nat) : Prop :=
  (∃ mark ∈ (marksBehind rules mac).head?,
    (1 ≤ decimal mark ∧ decimal mark ≤ 99) ∧ decimal mark = n) ∨
  ((∀ mark ∈ (marksBehind rules mac).head?,
      ¬(1 ≤ decimal mark ∧ decimal mark ≤ 99)) ∧
    ∃ mark ∈ (candidates (firstMark mac)).find? fun cand =>
      cand ∉ usedMarks rules, decimal mark = n)

/-- The mark that stands for a device is the one it gets. -/
theorem standsFor_iff {rules mac mid : Text}
    (assigned : getOrAssignMid rules mac = some mid) (n : Nat) :
    StandsFor rules mac n ↔ decimal mid = n := by
  have first : existingMark rules mac = (marksBehind rules mac).head? := by
    rw [existingMark, marksBehind, List.head?_filterMap]
  have probe : assignMid rules mac = some mid →
      ((∃ mark ∈ (candidates (firstMark mac)).find? fun cand =>
        cand ∉ usedMarks rules, decimal mark = n) ↔ decimal mid = n) := by
    intro probed
    rw [assignMid] at probed
    rw [probed]
    simp
  rw [getOrAssignMid, first] at assigned
  unfold StandsFor
  cases behind : (marksBehind rules mac).head? with
  | none =>
      rw [behind] at assigned
      rw [probe assigned]
      simp
  | some mark =>
      rw [behind] at assigned
      simp only at assigned
      split at assigned
      · rename_i range
        cases assigned
        simp [range]
      · rename_i outside
        rw [probe assigned]
        simp only [Option.mem_def, Option.some.injEq, exists_eq_left', outside,
          false_and, forall_eq', not_false_eq_true, true_and, false_or]

theorem printedIps_dst (mac : Text) (mark : Nat) {ip : Text} (nonempty : ip ≠ []) :
    ip ∈ printedIps mac (hexText mark) (listing (dstRule ip mark)) := by
  have scanned : scanLine mac (hexText mark) ⟨false, false, [], []⟩
      (listing (dstRule ip mark)) = ⟨false, true, [], ip⟩ := by
    simp only [listing, dstRule, List.cons_append, List.nil_append,
      Bool.false_eq_true, if_false, scanLine]
    rw [scanWord_address, scanWord_plain _ _ _ _ _ (mark_head_ne_dash mark)]
    simp [scanWord, stripCidr_append]
  simp [printedIps, scanned, nonempty]

theorem mem_deleted_iff (mac : Mac) (mark : Nat) {ip : Text} (nonempty : ip ≠ [])
    {chain : List MarkRule} {rule : MarkRule} (member : rule ∈ chain) :
    rule ∈ macRule mac.text mark :: addressRules mac.text mark
        (ip :: staleIps mac.text (hexText mark) ip chain) ↔
      DeviceRule mac.text mark rule := by
  have listed : ∀ old ∈ printedIps mac.text (hexText mark) (listing rule),
      old ≠ [] → old ∈ ip :: staleIps mac.text (hexText mark) ip chain := by
    intro old printed some_address
    by_cases same : old = ip
    · simp [same]
    · refine List.mem_cons_of_mem _ (List.mem_filter.mpr ⟨?_, ?_⟩)
      · exact List.mem_dedup.mpr (List.mem_flatMap.mpr ⟨rule, member, printed⟩)
      · simp [some_address, same]
  constructor
  · intro deleted
    rcases List.mem_cons.mp deleted with same | inside
    · exact .inl same
    · obtain ⟨old, listedOld, form⟩ := List.mem_flatMap.mp inside
      have some_address : old ≠ [] := by
        rcases List.mem_cons.mp listedOld with rfl | stale
        · exact nonempty
        · have kept := (List.mem_filter.mp stale).2
          simp only [decide_eq_true_eq] at kept
          exact kept.1
      refine .inr ⟨old, some_address, ?_⟩
      simpa using form
  · rintro (rfl | ⟨old, some_address, rfl | rfl⟩)
    · simp
    · refine List.mem_cons_of_mem _ (List.mem_flatMap.mpr ⟨old, ?_, by simp⟩)
      exact listed old (printedIps_src mac mark _ some_address) some_address
    · refine List.mem_cons_of_mem _ (List.mem_flatMap.mpr ⟨old, ?_, by simp⟩)
      exact listed old (printedIps_dst mac.text mark some_address) some_address

theorem rollback_hncMark (ip : Ipv4) (mac : Mac) (markId : Nat)
    (tables : Tables) :
    (unmarkDevice ip.text mac.text markId
        (markDevice ip.text mac.text markId tables)).hncMark = tables.hncMark ↔
      ∀ rule ∈ tables.hncMark,
        ¬DeviceRule mac.text (markBase + markId) rule := by
  rw [unmarkDevice_hncMark, markDevice_hncMark,
    delMarkRules_gc_hncMark, List.filter_append, List.filter_filter]
  have fresh : [srcRule ip.text mac.text (markBase + markId),
      macRule mac.text (markBase + markId),
      dstRule ip.text (markBase + markId)].filter (fun rule =>
        rule ∉ macRule mac.text (markBase + markId) ::
          addressRules mac.text (markBase + markId) [ip.text]) = [] := by
    simp [addressRules]
  rw [fresh, List.append_nil, List.filter_eq_self]
  refine forall₂_congr fun rule member => ?_
  rw [← mem_deleted_iff mac (markBase + markId) ip.text_ne_nil member]
  simp only [Bool.and_eq_true, decide_eq_true_eq]
  refine and_iff_right_of_imp fun outside inside => outside ?_
  rcases List.mem_cons.mp inside with same | form
  · exact List.mem_cons.mpr (.inl same)
  · obtain ⟨old, listed, form⟩ := List.mem_flatMap.mp form
    rw [List.mem_singleton.mp listed] at form
    exact List.mem_cons_of_mem _ (List.mem_flatMap.mpr ⟨_, by simp, form⟩)

theorem rollback_hncMark6 (ip : Ipv4) (mac : Text) (markId : Nat)
    (tables : Tables) :
    (unmarkDevice ip.text mac markId
        (markDevice ip.text mac markId tables)).hncMark6 = tables.hncMark6 ↔
      (tables.ipv6Ok = true →
        macRule mac (markBase + markId) ∉ tables.hncMark6) := by
  simp only [unmarkDevice, markDevice, ip.text_ne_nil, if_false, delStatRules,
    delMarkRules, addStatRules, addMarkRules, gcStaleIpsForMac,
    foldl_gcAddress_hncMark6, foldl_gcAddress_ipv6Ok]
  cases available : tables.ipv6Ok with
  | false => simp
  | true =>
      simp only [if_true, delMark, Chain.deleteAll_eq_without,
        forall_const, Chain.without, id]
      have fresh : [macRule mac (markBase + markId)].filter (fun rule =>
          rule ≠ macRule mac (markBase + markId)) = [] := by simp
      rw [List.filter_append, List.filter_filter, fresh, List.append_nil,
        List.filter_eq_self]
      simp only [Bool.and_self, decide_eq_true_eq]
      constructor
      · intro all inside
        exact all _ inside rfl
      · rintro absent rule member rfl
        exact absent member

theorem parse_of_matchKey {Value : Type} {key : Text}
    {parse : Text → Option Value} {text : Text} {value : Value}
    (found : matchKey key parse text = some value) :
    ∃ tail, parse tail = some value := by
  induction text with
  | nil => cases found
  | cons c rest induction =>
      simp only [matchKey] at found
      split at found
      · rename_i here
        obtain ⟨tail, _, parsed⟩ := Option.bind_eq_some_iff.mp here
        cases found
        exact ⟨tail, parsed⟩
      · exact induction found

theorem getOrAssignMid_digits {rules mac mid : Text}
    (assigned : getOrAssignMid rules mac = some mid) :
    mid ≠ [] ∧ mid.all isDigit = true := by
  have probed : assignMid rules mac = some mid →
      mid ≠ [] ∧ mid.all isDigit = true := by
    intro found
    obtain ⟨n, _, high, rfl⟩ := (assignMid_some found).1
    obtain ⟨_, nonempty, digits, _⟩ := decimalText_facts n high
    exact ⟨nonempty, digits⟩
  unfold getOrAssignMid at assigned
  split at assigned
  · rename_i existing found
    split at assigned
    · cases assigned
      obtain ⟨line, _, matched⟩ := List.exists_of_findSome?_eq_some found
      obtain ⟨tail, _, key⟩ := Option.bind_eq_some_iff.mp matched
      obtain ⟨value, number⟩ := parse_of_matchKey key
      rw [run] at number
      split at number
      · cases number
      · rename_i nonempty
        cases number
        exact ⟨nonempty, List.all_takeWhile⟩
    · exact probed assigned
  · exact probed assigned

section Marked

variable {rules marked mid : Text} {f : Frame} {d : Obj}
variable (store : RulesStore rules f d) (mac : Mac) (now : Nat)
variable (assigned : getOrAssignMid rules mac.text = some mid)
variable (written : JsonSet.device rules mac.text "mark_id".toList mid =
  some marked)

include store assigned written

/-- The part under the gate lock leaves a valid file. -/
theorem store_marked :
    ∃ d', RulesStore ((DeviceWrite.jsonSet mac (seen now)).run marked) f d' := by
  obtain ⟨nonempty, digits⟩ := getOrAssignMid_digits assigned
  obtain ⟨⟨d', middle⟩, _⟩ := store.storedField_device mac
    ⟨.markId, mid, isUnsigned_of_digits nonempty digits⟩ written
  rw [DeviceWrite.run]
  cases timed : JsonSet.device marked mac.text (seen now).field.key
    (seen now).value with
  | none => exact ⟨d', middle⟩
  | some next => exact (middle.storedField_device mac (seen now) timed).1

theorem storedFields_marked :
    ApplyDeviceRule.markOf ((DeviceWrite.jsonSet mac (seen now)).run marked)
        mac.text = some (decimal mid) ∧
      ∀ field : Field, field ≠ .markId → field ≠ .lastSeenPersist →
        storedField ((DeviceWrite.jsonSet mac (seen now)).run marked) mac.text
          field.key = storedField rules mac.text field.key := by
  obtain ⟨nonempty, digits⟩ := getOrAssignMid_digits assigned
  obtain ⟨⟨d', middle⟩, mark, others⟩ := store.storedField_device mac
    ⟨.markId, mid, isUnsigned_of_digits nonempty digits⟩ written
  have literal : storedField marked mac.text Field.markId.key = some mid := by
    rw [mark]
    exact congrArg some (captured_line (Assignment.val_literal _))
  have kept : ∀ field : Field, field ≠ .lastSeenPersist →
      storedField ((DeviceWrite.jsonSet mac (seen now)).run marked) mac.text
        field.key = storedField marked mac.text field.key := by
    intro field other
    rw [DeviceWrite.run]
    cases timed : JsonSet.device marked mac.text (seen now).field.key
      (seen now).value with
    | none => rfl
    | some next =>
        exact (middle.storedField_device mac (seen now) timed).2.2 field other
  constructor
  · rw [ApplyDeviceRule.markOf, show "mark_id".toList = Field.markId.key from rfl,
      kept .markId (by simp), literal, Option.bind_some, if_pos ⟨nonempty, digits⟩]
  · intro field notMark notSeen
    rw [kept field notSeen, others field notMark]

end Marked

theorem tcFailed_head : tcFailed.head? = some 't' := by
  rfl

theorem errorLine_injective {left right : Text}
    (same : errorLine left = errorLine right) : left = right := by
  unfold errorLine at same
  rw [List.append_assoc] at same
  exact List.append_cancel_right (List.append_cancel_left same)

theorem errorLine_other {c : Char} {message : Text} (other : c ≠ 't') :
    errorLine (c :: message) ≠ errorLine tcFailed := by
  intro same
  have first := congrArg List.head? (errorLine_injective same)
  exact other (Option.some.inj first)

theorem limitRun_failed {state : State} {iface : Text} {mac : Mac}
    {down up : Rate} {tcRc now later : Nat}
    (failed : (limitRun state iface mac down up tcRc now later).output =
      errorLine tcFailed) :
    ∃ (ip : Ipv4) (mid marked : Text),
      getOrAssignMid state.rules mac.text = some mid ∧
      JsonSet.device state.rules mac.text "mark_id".toList mid = some marked ∧
      (limitRun state iface mac down up tcRc now later).state =
        { state with
          rules := (DeviceWrite.jsonSet mac (seen now)).run marked
          tables := unmarkDevice ip.text mac.text (decimal mid)
            (markDevice ip.text mac.text (decimal mid) state.tables) } := by
  unfold limitRun at failed ⊢
  cases found : state.address mac with
  | none =>
      rw [found] at failed
      exact absurd failed (errorLine_other (by decide))
  | some ip =>
      simp only [found] at failed ⊢
      split
      · rename_i inactive
        rw [if_pos inactive] at failed
        exact absurd failed (errorLine_other (by decide))
      · rename_i active
        rw [if_neg active] at failed
        cases assigned : getOrAssignMid state.rules mac.text with
        | none =>
            rw [assigned] at failed
            exact absurd failed (errorLine_other (by decide))
        | some mid =>
            simp only [assigned] at failed ⊢
            cases written : JsonSet.device state.rules mac.text
              "mark_id".toList mid with
            | none =>
                rw [written] at failed
                exact absurd failed (errorLine_other (by decide))
            | some marked =>
                refine ⟨ip, mid, marked, rfl, written, ?_⟩
                simp only [written, afterTc] at failed ⊢
                split
                · rfl
                · rename_i done
                  rw [if_neg done] at failed
                  split at failed
                  · exact absurd failed (errorLine_other (by decide))
                  · simp only at failed
                    split at failed
                    · exact absurd failed (by decide)
                    · exact absurd failed (by decide)

/-- A failed limit leaves the earlier rule as it was exactly when no chain has a
rule for the device and its mark, and a stored mark is the one that stands for
the device in the file. -/
theorem failed_limit_keeps_rule_iff {state : State} {iface : Text} {mac : Mac}
    {down up : Rate} {tcRc now later : Nat} {entries devices : List (Text × Json)}
    (denotes : Denotes state.rules (.object entries))
    (tree : RulesTree entries devices)
    (failed : (limitRun state iface mac down up tcRc now later).output =
      errorLine tcFailed) :
    KeepsRule state (limitRun state iface mac down up tcRc now later).state mac ↔
      (∀ n, StandsFor state.rules mac.text n →
        NotMarked state.tables mac.text (markBase + n)) ∧
      ∀ n, 1 ≤ n → n ≤ 99 →
        ApplyDeviceRule.markOf state.rules mac.text = some n →
          StandsFor state.rules mac.text n := by
  obtain ⟨f, d, store⟩ := exists_rulesStore denotes tree
  obtain ⟨ip, mid, marked, assigned, written, after⟩ := limitRun_failed failed
  obtain ⟨mark, fields⟩ := storedFields_marked store mac now assigned written
  have stands : ∀ n, StandsFor state.rules mac.text n ↔ decimal mid = n :=
    standsFor_iff assigned
  simp only [stands, forall_eq', after]
  constructor
  · intro keeps
    refine ⟨⟨?_, ?_⟩, ?_⟩
    · exact (rollback_hncMark ip mac (decimal mid) state.tables).mp keeps.hncMark
    · exact (rollback_hncMark6 ip mac.text (decimal mid) state.tables).mp
        keeps.hncMark6
    · intro n low high stored
      have same := keeps.mark n low high stored
      rw [mark] at same
      exact Option.some.inj same
  · rintro ⟨⟨free, free6⟩, same⟩
    constructor
    case hncMark =>
      exact (rollback_hncMark ip mac (decimal mid) state.tables).mpr free
    case hncMark6 =>
      exact (rollback_hncMark6 ip mac.text (decimal mid) state.tables).mpr free6
    case fields =>
      intro field member
      refine fields field ?_ ?_
      · rintro rfl
        simp at member
      · rintro rfl
        simp at member
    case mark =>
      intro n low high stored
      rw [mark, same n low high stored]

/-- A rules file that does not know the owner. -/
def newOwner : State :=
  ⟨oneDevice, some bothOnline, Tables.init true⟩

theorem newOwner_failed :
    (limitRun newOwner "wlan2".toList owner tenMbps tenMbps 1 1000 1000).output =
      errorLine tcFailed := by
  decide +kernel

theorem failed_limit_of_new_owner :
    (limitRun newOwner "wlan2".toList owner tenMbps tenMbps 1 1000 1000).output =
      errorLine tcFailed ∧
    KeepsRule newOwner (limitRun newOwner "wlan2".toList owner tenMbps tenMbps 1
      1000 1000).state owner := by
  refine ⟨newOwner_failed, (failed_limit_keeps_rule_iff denotes_oneDevice
    rulesTree_oneDevice newOwner_failed).mpr ⟨?_, ?_⟩⟩
  · intro n _
    exact ⟨by simp [newOwner, Tables.init], by simp [newOwner, Tables.init]⟩
  · intro n _ _ stored
    have unknown : ApplyDeviceRule.markOf newOwner.rules owner.text = none := by
      decide +kernel
    rw [unknown] at stored
    cases stored

/-- The owner has a limit. -/
def limitedRun : List Event :=
  [.devices (some bothOnline), .limit owner tenMbps tenMbps 1000 1000]

/-- A second limit fails, and the rules of the first are gone. -/
theorem failed_limit_unmarks_device :
    ¬∀ rules, IsDefault rules → ∀ (ipv6Ok : Bool) (events : List Event),
      ∀ state ∈ visited step (start rules ipv6Ok) events,
      ∀ (iface : Text) (mac : Mac) (down up : Rate) (tcRc now later : Nat),
        (limitRun state iface mac down up tcRc now later).output =
          errorLine tcFailed →
        KeepsRule state (limitRun state iface mac down up tcRc now later).state
          mac := by
  intro always
  have run := always (defaultRules []) (.inr (.inr rfl)) true limitedRun _
    (mem_visited_final _ _) "wlan2".toList owner tenMbps tenMbps 1 2000 2000
    (by decide +kernel)
  have marked : (limitedRun.foldl step
      (start (defaultRules []) true)).tables.hncMark.length = 3 := by
    decide +kernel
  have unmarked : (limitRun (limitedRun.foldl step
      (start (defaultRules []) true)) "wlan2".toList owner tenMbps tenMbps 1 2000
        2000).state.tables.hncMark.length = 0 := by
    decide +kernel
  rw [run.hncMark, marked] at unmarked
  cases unmarked

end Hnc.StaleRules
