import Hnc.Stats.DailyLines
import Hnc.Stats.TrueHistory
import Mathlib.Data.Char
import Mathlib.Data.List.Lex

/-!
# `bin/stats_shadow_rollup.sh`

The shadow rollup of a date reads the lines of `stats_shadow_raw.jsonl`.  A
device is credited with the growth of its counters between its samples of the
date, from its last sample of an earlier date on; a counter that falls was reset,
and what it has reached since is credited.
-/

namespace Hnc.Stats

open Posix JsonText

/-- A day in the form that `date +%Y-%m-%d` prints. -/
structure Date where
  text : Text
  shape : isDate text = true
deriving DecidableEq

/-- The class `[0-9.,]`. -/
def isAddressList (c : Char) : Bool :=
  isNumberChar c || c == ','

/-- A line of `stats_shadow_raw.jsonl`. -/
structure ShadowRow where
  ts : Nat
  date : Date
  mac : Mac
  rx : Nat
  tx : Nat
  ips : Text
  ipsShape : ips.all isAddressList = true
  ipCount : Nat
deriving DecidableEq

/-- `device_id = "mac:" mac`. -/
def deviceId (mac : Mac) : Text :=
  "mac:".toList ++ mac.text

/-- The line that `stats_shadow_sample.sh` prints. -/
def ShadowRow.line (row : ShadowRow) : Text :=
  '\x7b' :: labelled "schema" (printed 1) ++
    ',' :: labelled "ts" (printed row.ts) ++
    ',' :: labelled "date" (quote row.date.text) ++
    ',' :: labelled "device_id" (quote (deviceId row.mac)) ++
    ',' :: labelled "mac" (quote row.mac.text) ++
    ',' :: labelled "rx" (printed row.rx) ++
    ',' :: labelled "tx" (printed row.tx) ++
    ',' :: labelled "ips" (quote row.ips) ++
    ',' :: labelled "ip_count" (printed row.ipCount) ++
    ',' :: labelled "source" (quote "iptables".toList) ++ ['\x7d']

/-- `str_field`. -/
def strField (key : String) (line : Text) : Text :=
  (hits (named key.toList (tightColon (quoted (· != '"')))) line []).head?.getD []

/-- `num_field`, without the answer -1. -/
def numField (key : String) (line : Text) : Option Nat :=
  (hits (named key.toList (tightColon (run isDigit))) line []).head?.map
    fun digits => Double.round (decimal digits)

/-- The variables of a line. -/
structure ShadowFields where
  date : Text
  id : Text
  mac : Text
  rx : Nat
  tx : Nat
  ts : Nat
deriving DecidableEq

/-- A line without a date or one of the other fields is left out. -/
def readShadow (line : Text) : Option ShadowFields :=
  let date := strField "date" line
  let id := strField "device_id" line
  let mac := strField "mac" line
  if date = [] then none
  else
    match numField "rx" line, numField "tx" line, numField "ts" line with
    | some rx, some tx, some ts =>
        if id = [] ∨ mac = [] then none else some ⟨date, id, mac, rx, tx, ts⟩
    | _, _, _ => none

/-- The arrays at one device. -/
structure ShadowDevice where
  base : Option (Nat × Nat × Nat)
  prev : Option (Nat × Nat)
  totalRx : Nat
  totalTx : Nat
  samples : Nat
  lastMac : Text
  baselineType : Text
  baselineFlag : Text
deriving DecidableEq

def ShadowDevice.fresh : ShadowDevice :=
  ⟨none, none, 0, 0, 0, [], [], []⟩

/-- `set_base`. -/
def ShadowDevice.setBase (d : ShadowDevice) (f : ShadowFields) : ShadowDevice :=
  match d.base with
  | none => { d with base := some (f.ts, f.rx, f.tx) }
  | some (seen, _) =>
      if seen ≤ f.ts then { d with base := some (f.ts, f.rx, f.tx) } else d

/-- `add_flag`. -/
def addFlag (flags flag : Text) : Text :=
  if flags = [] then flag
  else if (tailFrom ('+' :: flag ++ ['+']) ('+' :: flags ++ ['+'])).isSome then flags
  else flags ++ '+' :: flag

/-- One direction of `add_delta`, with the flags. -/
def addDelta (prev cur : Nat) (state : Nat × Text) : Nat × Text :=
  if prev ≤ cur then (Double.round (state.1 + Double.round (cur - prev)), state.2)
  else
    let flags := addFlag state.2 "counter_reset".toList
    if 0 < cur then (Double.round (state.1 + cur), flags)
    else (state.1, addFlag flags "zero_reset_preserved".toList)

/-- `add_delta`, with the new values of `prev_rx` and `prev_tx`. -/
def ShadowDevice.advance (d : ShadowDevice) (prev : Nat × Nat) (f : ShadowFields) :
    ShadowDevice :=
  let rx := addDelta prev.1 f.rx (d.totalRx, d.baselineFlag)
  let tx := addDelta prev.2 f.tx (d.totalTx, rx.2)
  { d with
    prev := some (f.rx, f.tx)
    totalRx := rx.1
    totalTx := tx.1
    baselineFlag := tx.2 }

/-- A line of the target date: `begin_target` at the first one of the device,
then `add_delta`. -/
def ShadowDevice.sample (d : ShadowDevice) (f : ShadowFields) : ShadowDevice :=
  let d := { d with samples := d.samples + 1, lastMac := f.mac }
  match d.prev with
  | some prev => d.advance prev f
  | none =>
      match d.base with
      | some (_, rx, tx) =>
          { d with baselineType := "previous_day".toList }.advance (rx, tx) f
      | none =>
          { d with
            prev := some (f.rx, f.tx)
            baselineType := "first_sample".toList }

/-- What a line does to its device. -/
def ShadowDevice.add (target : Text) (d : ShadowDevice) (f : ShadowFields) :
    ShadowDevice :=
  if f.date < target then d.setBase f
  else if f.date ≠ target then d
  else d.sample f

/-- The arrays, and the keys of `samples` in the order of their first use. -/
structure Shadow where
  devices : Text → ShadowDevice
  ids : List Text

def Shadow.fresh : Shadow :=
  ⟨fun _ => .fresh, []⟩

/-- The body of the program. -/
def Shadow.add (target : Text) (s : Shadow) (f : ShadowFields) : Shadow where
  devices := Function.update s.devices f.id ((s.devices f.id).add target f)
  ids := if f.date = target then s.ids ++ [f.id] else s.ids

/-- A line of `stats_shadow_daily.jsonl`, without its constant fields and the
time. -/
structure ShadowDaily where
  date : Text
  id : Text
  mac : Text
  rx : Nat
  tx : Nat
  samples : Nat
  baseline : Text
deriving DecidableEq

/-- `btype` of the `END` block. -/
def ShadowDevice.baseline (d : ShadowDevice) : Text :=
  let type := if d.baselineType = [] then "first_sample".toList else d.baselineType
  if d.baselineFlag = [] then type else type ++ '+' :: d.baselineFlag

/-- The `END` block. -/
def Shadow.rows (target : Text) (s : Shadow) : List ShadowDaily :=
  s.ids.dedup.map fun id =>
    let d := s.devices id
    ⟨target, id, d.lastMac, d.totalRx, d.totalTx, d.samples, d.baseline⟩

/-- What `stats_shadow_rollup.sh` puts into the daily file for a date. -/
def shadowRollup (target : Text) (raw : List Text) : List ShadowDaily :=
  if isDate target then
    ((raw.filterMap readShadow).foldl (Shadow.add target) .fresh).rows target
  else []

/-! ### What a sample writes is what the rollup reads -/

/-- The members of a line. -/
def ShadowRow.members (row : ShadowRow) : List (Text × Text) :=
  [("schema".toList, printed 1), ("ts".toList, printed row.ts),
    ("date".toList, quote row.date.text),
    ("device_id".toList, quote (deviceId row.mac)),
    ("mac".toList, quote row.mac.text), ("rx".toList, printed row.rx),
    ("tx".toList, printed row.tx), ("ips".toList, quote row.ips),
    ("ip_count".toList, printed row.ipCount),
    ("source".toList, quote "iptables".toList)]

def ShadowRow.obj (row : ShadowRow) : Obj :=
  ⟨row.members.map Member.tight, []⟩

theorem ShadowRow.render_obj (row : ShadowRow) : row.obj.render = row.line := by
  simp only [ShadowRow.obj, ShadowRow.members, ShadowRow.line, labelled,
    Obj.render, Obj.inner, more, Member.tight, Member.render, Member.fromKey,
    Member.fromValue, List.map_cons, List.map_nil, List.flatMap_cons,
    List.flatMap_nil, List.append_assoc, List.nil_append, List.cons_append, quote]

theorem plainKey_of_chars {text : Text} {p : Char → Bool} (all : ∀ c ∈ text, p c = true)
    (quoteFree : p '"' = false) (slashFree : p '\\' = false) :
    plainKey text = true := by
  apply List.all_eq_true.mpr
  intro c member
  have char := all c member
  simp only [Bool.and_eq_true, bne_iff_ne]
  constructor
  · intro same
    rw [same, quoteFree] at char
    cases char
  · intro same
    rw [same, slashFree] at char
    cases char

theorem plainKey_date (date : Date) : plainKey date.text = true := by
  apply @plainKey_of_chars _ fun c => isDigit c || c == '-'
  · intro c member
    simpa using isDate_chars date.shape c member
  · decide
  · decide

theorem plainKey_mac (mac : Mac) : plainKey mac.text = true := by
  apply @plainKey_of_chars _ fun c => isLowerHex c || c == ':'
  · intro c member
    simpa using mac.chars c member
  · decide
  · decide

theorem plainKey_deviceId (mac : Mac) : plainKey (deviceId mac) = true := by
  rw [plainKey, deviceId, List.all_append, Bool.and_eq_true]
  exact ⟨by decide, plainKey_mac mac⟩

theorem plainKey_ips (row : ShadowRow) : plainKey row.ips = true :=
  plainKey_of_chars (List.all_eq_true.mp row.ipsShape) (by decide) (by decide)

theorem scalar_printed (n : Nat) : Scalar (printed n) :=
  .inl (not_mem_printed n (by decide))

theorem ShadowRow.scalars (row : ShadowRow) : ∀ m ∈ row.members, Scalar m.2 := by
  have iptables : plainKey "iptables".toList = true := by decide
  intro m member
  simp only [ShadowRow.members, List.mem_cons, List.not_mem_nil, or_false] at member
  rcases member with rfl | rfl | rfl | rfl | rfl | rfl | rfl | rfl | rfl | rfl
  · exact scalar_printed 1
  · exact scalar_printed _
  · exact scalar_quote (plainKey_date row.date)
  · exact scalar_quote (plainKey_deviceId row.mac)
  · exact scalar_quote (plainKey_mac row.mac)
  · exact scalar_printed _
  · exact scalar_printed _
  · exact scalar_quote (plainKey_ips row)
  · exact scalar_printed _
  · exact scalar_quote iptables

theorem ShadowRow.obj_wf (row : ShadowRow) : row.obj.Wf := by
  have word : ∀ {body : Text}, plainKey body = true → Val (quote body) :=
    fun plain => .str (body_of_plainKey plain)
  have iptables : plainKey "iptables".toList = true := by decide
  constructor
  case hollow => rfl
  case members =>
      intro m member
      obtain ⟨pair, listed, same⟩ := List.mem_map.mp member
      rw [← same]
      simp only [ShadowRow.members, List.mem_cons, List.not_mem_nil, or_false] at listed
      rcases listed with rfl | rfl | rfl | rfl | rfl | rfl | rfl | rfl | rfl | rfl
      · exact ⟨rfl, rfl, rfl, rfl, val_printed 1, rfl⟩
      · exact ⟨rfl, rfl, rfl, rfl, val_printed _, rfl⟩
      · exact ⟨rfl, rfl, rfl, rfl, word (plainKey_date row.date), rfl⟩
      · exact ⟨rfl, rfl, rfl, rfl, word (plainKey_deviceId row.mac), rfl⟩
      · exact ⟨rfl, rfl, rfl, rfl, word (plainKey_mac row.mac), rfl⟩
      · exact ⟨rfl, rfl, rfl, rfl, val_printed _, rfl⟩
      · exact ⟨rfl, rfl, rfl, rfl, val_printed _, rfl⟩
      · exact ⟨rfl, rfl, rfl, rfl, word (plainKey_ips row), rfl⟩
      · exact ⟨rfl, rfl, rfl, rfl, val_printed _, rfl⟩
      · exact ⟨rfl, rfl, rfl, rfl, word iptables, rfl⟩

theorem ShadowRow.keys_nodup (row : ShadowRow) :
    (row.members.map Prod.fst).Nodup := by
  change ["schema".toList, "ts".toList, "date".toList, "device_id".toList,
    "mac".toList, "rx".toList, "tx".toList, "ips".toList, "ip_count".toList,
    "source".toList].Nodup
  decide

variable {row : ShadowRow}

/-- A field pattern matches once, at the member with its key. -/
theorem ShadowRow.hits_line {Value : Type} {key val : Text} (name : KeyName key)
    (parse : Text → Option Value) (member : (key, val) ∈ row.members) :
    ∃ after, hits (named key (tightColon parse)) row.line [] =
      (parse (lineOf (val ++ closing after []))).toList := by
  obtain ⟨before, after, split⟩ := List.append_of_mem member
  have scalars := row.scalars
  have nodup := row.keys_nodup
  rw [split] at scalars nodup
  have others : ∀ m ∈ before ++ after, m.1 ≠ key := by
    rw [List.map_append] at nodup
    have apart := (List.nodup_middle.mp nodup)
    rw [List.nodup_cons, ← List.map_append] at apart
    intro m listed same
    exact apart.1 (List.mem_map.mpr ⟨m, listed, same⟩)
  refine ⟨after.map Member.tight, ?_⟩
  rw [← row.render_obj, hits_obj name _ row.obj_wf, ShadowRow.obj, split]
  exact hitsIn_tight name parse scalars others []

theorem strField_line {key : String} {body : Text} (name : KeyName key.toList)
    (plain : plainKey body = true) (oneLine : '\n' ∉ body)
    (member : (key.toList, quote body) ∈ row.members) :
    strField key row.line = body := by
  have free : '\n' ∉ quote body := by
    simp [quote, oneLine]
  obtain ⟨after, found⟩ := row.hits_line name (quoted (· != '"')) member
  rw [strField, found, lineOf_of_not_mem free, quoted_quote_append plain]
  rfl

theorem numField_line {key : String} {n : Nat} (name : KeyName key.toList)
    (member : (key.toList, printed n) ∈ row.members) :
    numField key row.line = some (Double.round n) := by
  obtain ⟨after, found⟩ := row.hits_line name (run isDigit) member
  obtain ⟨c, tail, text, stop, line⟩ := closing_head after
  have digits : run isDigit (lineOf (printed n ++ c :: tail)) = some (printed n) := by
    rw [lineOf_of_not_mem (not_mem_printed n (show isDigit '\n' = false by decide))]
    exact run_printed n stop line tail
  rw [numField, found, text, digits]
  exact congrArg (fun value => some (Double.round value)) (decimal_printed n)

theorem shadowKeys : ∀ key ∈ ["ts", "date", "device_id", "mac", "rx", "tx"],
    KeyName key.toList := by
  intro key member
  simp only [List.mem_cons, List.not_mem_nil, or_false] at member
  rcases member with rfl | rfl | rfl | rfl | rfl | rfl <;>
    exact ⟨by decide, by decide, _, _, rfl, by decide⟩

/-- The variables of the line of a row. -/
def ShadowRow.fields (row : ShadowRow) : ShadowFields :=
  ⟨row.date.text, deviceId row.mac, row.mac.text, Double.round row.rx,
    Double.round row.tx, Double.round row.ts⟩

theorem Date.text_ne_nil (date : Date) : date.text ≠ [] := by
  intro empty
  have shape := date.shape
  rw [empty] at shape
  cases shape

theorem deviceId_ne_nil (mac : Mac) : deviceId mac ≠ [] :=
  List.cons_ne_nil _ _

theorem not_mem_deviceId (mac : Mac) : '\n' ∉ deviceId mac := by
  rw [deviceId, List.mem_append, not_or]
  exact ⟨by decide, mac.not_mem (by decide) (by decide)⟩

/-- Every line of a row comes back as that row, its numbers in doubles. -/
theorem readShadow_line (row : ShadowRow) : readShadow row.line = some row.fields := by
  have date : strField "date" row.line = row.date.text :=
    strField_line (shadowKeys _ (by simp)) (plainKey_date row.date)
      (not_mem_date row.date.shape (by decide) (by decide))
      (.tail _ (.tail _ (.head _)))
  have id : strField "device_id" row.line = deviceId row.mac :=
    strField_line (shadowKeys _ (by simp)) (plainKey_deviceId row.mac)
      (not_mem_deviceId row.mac) (.tail _ (.tail _ (.tail _ (.head _))))
  have mac : strField "mac" row.line = row.mac.text :=
    strField_line (shadowKeys _ (by simp)) (plainKey_mac row.mac)
      (row.mac.not_mem (by decide) (by decide))
      (.tail _ (.tail _ (.tail _ (.tail _ (.head _)))))
  have rx : numField "rx" row.line = some (Double.round row.rx) :=
    numField_line (shadowKeys _ (by simp))
      (.tail _ (.tail _ (.tail _ (.tail _ (.tail _ (.head _))))))
  have tx : numField "tx" row.line = some (Double.round row.tx) :=
    numField_line (shadowKeys _ (by simp))
      (.tail _ (.tail _ (.tail _ (.tail _ (.tail _ (.tail _ (.head _)))))))
  have ts : numField "ts" row.line = some (Double.round row.ts) :=
    numField_line (shadowKeys _ (by simp)) (.tail _ (.head _))
  simp only [readShadow, date, id, mac, rx, tx, ts]
  rw [if_neg row.date.text_ne_nil, if_neg]
  · rfl
  · rintro (empty | empty)
    · exact deviceId_ne_nil row.mac empty
    · exact row.mac.text_ne_nil empty

theorem filterMap_readShadow (rows : List ShadowRow) :
    (rows.map ShadowRow.line).filterMap readShadow = rows.map ShadowRow.fields := by
  induction rows with
  | nil => rfl
  | cons row rest induction =>
      rw [List.map_cons, List.filterMap_cons, readShadow_line, induction]
      rfl

end Hnc.Stats
