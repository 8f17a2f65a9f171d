import Hnc.Lib.JsonGrammar
import Hnc.Lib.JsonSearch
import Hnc.Net.IptablesManager
import Mathlib.Logic.Function.Basic

/-!
# `bin/stats_sample.sh`

A sample reads the byte counters of the addresses, adds them up by the device
that holds each address in `devices.json`, and appends one line for each device
to `stats_raw.jsonl`.
-/

namespace Hnc.Stats

open Posix

/-- A line of `stats_raw.jsonl`. -/
structure RawSample where
  ts : Nat
  mac : Text
  rx : Nat
  tx : Nat
deriving DecidableEq, Repr

/-- `printf` with `%d`. -/
def printed (n : Nat) : Text :=
  Nat.toDigits 10 n

/-- A key and its value as the line has them. -/
def labelled (key : String) (value : Text) : Text :=
  '"' :: key.toList ++ '"' :: ':' :: value

/-- The line that `printf` writes for a sample. -/
def RawSample.line (sample : RawSample) : Text :=
  '\x7b' :: labelled "ts" (printed sample.ts) ++
    ',' :: labelled "mac" ('"' :: sample.mac ++ ['"']) ++
    ',' :: labelled "rx" (printed sample.rx) ++
    ',' :: labelled "tx" (printed sample.tx) ++ ['\x7d']

/-- The blocks of `devices.json` that have an address, in the order of the
file. -/
abbrev Leases := List (Mac × Ipv4)

/-- The array `ip2mac`: a later line replaces an earlier one. -/
def ip2mac (leases : Leases) (ip : Text) : Option Mac :=
  (leases.reverse.find? fun lease => lease.2.text = ip).map Prod.fst

/-- A line of `stats_all`: an address with its `rx` and its `tx`. -/
abbrev StatsRow := Text × Nat × Nat

/-- The lines whose address belongs to a device. -/
def rowsOf (leases : Leases) (stats : List StatsRow) (mac : Mac) :
    List StatsRow :=
  stats.filter fun row => ip2mac leases row.1 = some mac

/-- The awk program that adds up the counters of a device. -/
def aggregated (ts : Nat) (leases : Leases) (stats : List StatsRow) :
    List RawSample :=
  (stats.filterMap fun row => ip2mac leases row.1).dedup.map fun mac =>
    ⟨ts, mac.text, ((rowsOf leases stats mac).map fun row => row.2.1).sum,
      ((rowsOf leases stats mac).map fun row => row.2.2).sum⟩

/-- `stats_sample.sh`.  Its early exits are the cases in which nothing is
added up. -/
def statsSample (ts : Nat) (leases : Leases) (chain : List Counted)
    (raw : List Text) : List Text :=
  raw ++ (aggregated ts leases (IptablesManager.statsAll chain)).map
    RawSample.line

end Hnc.Stats

/-!
## `bin/stats_rollup.sh`

The daily aggregation reads the lines of `stats_raw.jsonl` with three regular
expressions each and credits a device with the growth between its consecutive
samples of the day.
-/

namespace Hnc.Stats

open Posix JsonText

/-- A number behind a key. -/
def readNumber (key : String) (line : Text) : Option Nat :=
  (matchKey key.toList (run isDigit) line).map decimal

/-- The greedy `sub(/.*:[[:space:]]*"/, "", s)` runs into the closing quote of
a value that ends in a colon. -/
def endsInColon (value : Text) : Bool :=
  (value.reverse.dropWhile isSpace).head? == some ':'

def readMac (line : Text) : Option Text :=
  (matchKey "mac".toList (quoted (· != '"')) line).map fun value =>
    if endsInColon value then [] else value

/-- The sample on a line, when its time is within the day. -/
def readSample (ds de : Nat) (line : Text) : Option RawSample := do
  let ts ← readNumber "ts" line
  if ts < ds ∨ ts > de then none
  else
    let mac ← readMac line
    let rx ← readNumber "rx" line
    let tx ← readNumber "tx" line
    some ⟨ts, mac, rx, tx⟩

/-- The arrays of the awk program. -/
structure Rollup where
  lastRx : Text → Option Nat
  lastTx : Text → Option Nat
  sumRx : Text → Nat
  sumTx : Text → Nat
  seen : List Text

def Rollup.init : Rollup :=
  ⟨fun _ => none, fun _ => none, fun _ => 0, fun _ => 0, []⟩

/-- `d = cur - last; if (d < 0) d = 0; sum += d`, for a device with an earlier
sample. -/
def credited (last : Option Nat) (sum cur : Nat) : Nat :=
  match last with
  | none => sum
  | some last => sum + (cur - last)

def Rollup.add (state : Rollup) (sample : RawSample) : Rollup where
  lastRx := Function.update state.lastRx sample.mac (some sample.rx)
  lastTx := Function.update state.lastTx sample.mac (some sample.tx)
  sumRx := Function.update state.sumRx sample.mac
    (credited (state.lastRx sample.mac) (state.sumRx sample.mac) sample.rx)
  sumTx := Function.update state.sumTx sample.mac
    (credited (state.lastTx sample.mac) (state.sumTx sample.mac) sample.tx)
  seen := state.seen ++ [sample.mac]

/-- The arrays after the lines of the raw file. -/
def rollupState (ds de : Nat) (raw : List Text) : Rollup :=
  (raw.filterMap (readSample ds de)).foldl Rollup.add .init

/-- A line of `stats_daily.jsonl`, without its date and its display name. -/
structure DailyRow where
  mac : Text
  rx : Nat
  tx : Nat
deriving DecidableEq, Repr

/-- `stats_rollup.sh` for the day between `ds` and `de`. -/
def statsRollup (ds de : Nat) (raw : List Text) : List DailyRow :=
  let state := rollupState ds de raw
  state.seen.dedup.map fun mac => ⟨mac, state.sumRx mac, state.sumTx mac⟩

/-! ### What a sample writes is what the rollup reads -/

theorem printed_digits (n : Nat) : ∀ c ∈ printed n, isDigit c = true :=
  fun _ => isDigit_of_mem_toDigits

theorem decimal_printed (n : Nat) : decimal (printed n) = n := by
  have read := @Nat.ofDigitChars_ten_toDigits n
  rwa [Nat.ofDigitChars_eq_foldl] at read

theorem printed_ne_nil (n : Nat) : printed n ≠ [] :=
  Nat.toDigits_ne_nil

theorem val_printed (n : Nat) : Val (printed n) := by
  apply Val.atom (printed_ne_nil n)
  apply List.all_eq_true.mpr
  intro c member
  exact isAtomChar_of_class (printed_digits n c member) (by decide)

theorem not_mem_printed (n : Nat) {c : Char} (other : isDigit c = false) :
    c ∉ printed n := by
  intro member
  have digit := printed_digits n c member
  rw [other] at digit
  cases digit

/-- The line of a sample as a JSON object. -/
def RawSample.obj (sample : RawSample) : Obj where
  members :=
    [⟨[], "ts".toList, [], [], printed sample.ts, []⟩,
      ⟨[], "mac".toList, [], [], quote sample.mac, []⟩,
      ⟨[], "rx".toList, [], [], printed sample.rx, []⟩,
      ⟨[], "tx".toList, [], [], printed sample.tx, []⟩]
  hollow := []

theorem RawSample.render_obj (sample : RawSample) :
    sample.obj.render = sample.line := by
  simp only [RawSample.obj, RawSample.line, labelled, Obj.render, Obj.inner, more,
    Member.render, Member.fromKey, Member.fromValue, quote, List.flatMap_cons,
    List.flatMap_nil, List.append_assoc, List.nil_append, List.cons_append]

section RoundTrip

variable {sample : RawSample}

theorem obj_wf (plain : plainKey sample.mac = true) : sample.obj.Wf := by
  constructor
  case hollow => rfl
  case members =>
      intro m member
      simp only [RawSample.obj, List.mem_cons, List.not_mem_nil,
        or_false] at member
      rcases member with rfl | rfl | rfl | rfl
      · exact ⟨rfl, rfl, rfl, rfl, val_printed _, rfl⟩
      · exact ⟨rfl, rfl, rfl, rfl, .str (body_of_plainKey plain), rfl⟩
      · exact ⟨rfl, rfl, rfl, rfl, val_printed _, rfl⟩
      · exact ⟨rfl, rfl, rfl, rfl, val_printed _, rfl⟩

theorem line_oneLine (oneLine : '\n' ∉ sample.mac) : '\n' ∉ sample.line := by
  have free : ∀ n, '\n' ∉ printed n := fun n => not_mem_printed n (by decide)
  have key : ∀ key ∈ ["ts", "mac", "rx", "tx"], '\n' ∉ key.toList := by decide
  simp only [RawSample.line, labelled, List.mem_cons, List.mem_append, free,
    oneLine]
  decide

variable {Value : Type} {key : Text}

/-- Only the keys of a raw line can match. -/
theorem matchKey_line (name : KeyName key) (parse : Text → Option Value)
    (plain : plainKey sample.mac = true) (oneLine : '\n' ∉ sample.mac) :
    matchKey key parse sample.line =
      (hitsIn key (colon parse) sample.obj.members []).head? := by
  rw [matchKey_eq_hits key parse (line_oneLine oneLine), keyed_eq_named,
    ← sample.render_obj, hits_obj name _ (obj_wf plain)]

theorem hits_printed (key : Text) (behind : Text → Option Value) (n : Nat)
    (rest : Text) : hits (named key behind) (printed n) rest = [] :=
  hits_of_not_mem behind (not_mem_printed n (by decide)) rest

theorem colon_comma (parse : Text → Option Value) (tail : Text) :
    colon parse (lineOf (',' :: tail)) = none := by
  simp [colon, lineOf, isSpace, isWs]

theorem hits_mac (name : KeyName key) (parse : Text → Option Value)
    (plain : plainKey sample.mac = true) (tail : Text) :
    hits (named key (colon parse)) (quote sample.mac) (',' :: tail) = [] := by
  apply hits_quote_silent name
  · intro c rest same
    cases same
    decide
  · exact colon_comma parse tail
  · exact body_of_plainKey plain

/-- What a pattern finds behind the key of one member. -/
def foundAt {Value : Type} (key : Text) (parse : Text → Option Value)
    (own value rest : Text) : List Value :=
  if own = key then (colon parse (lineOf (':' :: (value ++ rest)))).toList
  else []

theorem hitsIn_line (name : KeyName key) (parse : Text → Option Value)
    (plain : plainKey sample.mac = true) :
    hitsIn key (colon parse) sample.obj.members [] =
      foundAt key parse "ts".toList (printed sample.ts)
        (closing (sample.obj.members.drop 1) []) ++
      (foundAt key parse "mac".toList (quote sample.mac)
        (closing (sample.obj.members.drop 2) []) ++
      (foundAt key parse "rx".toList (printed sample.rx)
        (closing (sample.obj.members.drop 3) []) ++
      foundAt key parse "tx".toList (printed sample.tx) (closing [] []))) := by
  have inMac : hits (named key (colon parse)) (quote sample.mac)
      (closing (sample.obj.members.drop 2) []) = [] :=
    hits_mac name parse plain _
  simp only [RawSample.obj, List.drop_succ_cons, List.drop_zero] at inMac ⊢
  simp only [hitsIn, hitsAt, List.nil_append, List.append_nil, hits_printed,
    inMac, Member.fromValue, foundAt]

theorem foundAt_other {own : Text} (other : own ≠ key)
    (parse : Text → Option Value) (value rest : Text) :
    foundAt key parse own value rest = [] := by
  simp [foundAt, other]

theorem closing_head (after : List Member) :
    ∃ c tail, closing after [] = c :: tail ∧ isDigit c = false ∧ c ≠ '\n' := by
  cases after with
  | nil => exact ⟨'\x7d', [], rfl, by decide, by decide⟩
  | cons m after => exact ⟨',', _, rfl, by decide, by decide⟩

/-- The digits of a number end at what closes its member. -/
theorem run_printed (n : Nat) {c : Char} (stop : isDigit c = false)
    (line : c ≠ '\n') (tail : Text) :
    run isDigit (printed n ++ lineOf (c :: tail)) = some (printed n) := by
  apply run_append (List.all_eq_true.mpr (printed_digits n)) (printed_ne_nil n)
  intro d first
  simp only [lineOf, List.takeWhile_cons, bne_iff_ne, ne_eq, line,
    not_false_eq_true, if_true, List.head?_cons, Option.some.injEq] at first
  rw [← first]
  exact stop

theorem foundAt_number (own : Text) (n : Nat) (after : List Member) :
    foundAt own (run isDigit) own (printed n) (closing after []) =
      [printed n] := by
  obtain ⟨c, tail, text, stop, line⟩ := closing_head after
  rw [text]
  have free : '\n' ∉ ':' :: printed n := by
    simp [not_mem_printed n (show isDigit '\n' = false by decide)]
  have whole : lineOf (':' :: (printed n ++ c :: tail)) =
      ':' :: (printed n ++ lineOf (c :: tail)) := by
    simpa using lineOf_of_not_mem free (c :: tail)
  have start : (printed n ++ lineOf (c :: tail)).dropWhile isSpace =
      printed n ++ lineOf (c :: tail) := by
    cases digits : printed n with
    | nil => exact absurd digits (printed_ne_nil n)
    | cons d rest =>
        have digit := printed_digits n d (by simp [digits])
        have solid : isSpace d = false :=
          isSpace_of_class digit (by decide)
        simp [solid]
  have digits := run_printed n stop line tail
  have found : colon (run isDigit) (':' :: (printed n ++ lineOf (c :: tail))) =
      some (printed n) := by
    simp [colon, isSpace, isWs, start, digits]
  simp [foundAt, whole, found]

/-- The samples that come back from their line. -/
structure Legible (sample : RawSample) : Prop where
  plain : plainKey sample.mac = true
  oneLine : '\n' ∉ sample.mac
  colon : endsInColon sample.mac = false

theorem foundAt_mac (legible : Legible sample) (own rest : Text) :
    foundAt own (quoted (· != '"')) own (quote sample.mac) rest =
      [sample.mac] := by
  have free : '\n' ∉ ':' :: quote sample.mac := by
    simp [quote, legible.oneLine]
  have whole : lineOf (':' :: (quote sample.mac ++ rest)) =
      ':' :: (quote sample.mac ++ lineOf rest) := by
    simpa using lineOf_of_not_mem free rest
  have start : (quote sample.mac ++ lineOf rest).dropWhile isSpace =
      quote sample.mac ++ lineOf rest := by
    simp [quote, isSpace, isWs]
  have found : colon (quoted (· != '"'))
      (':' :: (quote sample.mac ++ lineOf rest)) = some sample.mac := by
    simp [colon, isSpace, isWs, start, quoted_quote_append legible.plain]
  simp [foundAt, whole, found]

theorem keyNames : ∀ key ∈ ["ts", "mac", "rx", "tx"], KeyName key.toList := by
  intro key member
  simp only [List.mem_cons, List.not_mem_nil, or_false] at member
  rcases member with rfl | rfl | rfl | rfl <;>
    exact ⟨by decide, by decide, _, _, rfl, by decide⟩

/-- The fields of a line are read in the order in which they stand. -/
theorem Legible.reads (legible : Legible sample) :
    readNumber "ts" sample.line = some sample.ts ∧
      readMac sample.line = some sample.mac ∧
      readNumber "rx" sample.line = some sample.rx ∧
      readNumber "tx" sample.line = some sample.tx := by
  have found : ∀ {Value : Type} (key : String) (parse : Text → Option Value),
      key ∈ ["ts", "mac", "rx", "tx"] →
      matchKey key.toList parse sample.line =
        (foundAt key.toList parse "ts".toList (printed sample.ts)
          (closing (sample.obj.members.drop 1) []) ++
        (foundAt key.toList parse "mac".toList (quote sample.mac)
          (closing (sample.obj.members.drop 2) []) ++
        (foundAt key.toList parse "rx".toList (printed sample.rx)
          (closing (sample.obj.members.drop 3) []) ++
        foundAt key.toList parse "tx".toList (printed sample.tx)
          (closing [] [])))).head? := by
    intro Value key parse listed
    rw [matchKey_line (keyNames key listed) parse legible.plain
      legible.oneLine, hitsIn_line (keyNames key listed) parse legible.plain]
  refine ⟨?_, ?_, ?_, ?_⟩
  · rw [readNumber, found "ts" _ (by simp), foundAt_number]
    simp [decimal_printed]
  · rw [readMac, found "mac" _ (by simp), foundAt_other (by decide),
      foundAt_mac legible]
    simp [legible.colon]
  · rw [readNumber, found "rx" _ (by simp), foundAt_other (by decide),
      foundAt_other (by decide), foundAt_number]
    simp [decimal_printed]
  · rw [readNumber, found "tx" _ (by simp), foundAt_other (by decide),
      foundAt_other (by decide), foundAt_other (by decide), foundAt_number]
    simp [decimal_printed]

/-- Every line that a sample writes during the day comes back as that sample. -/
theorem readSample_line (legible : Legible sample) {ds de : Nat}
    (fromStart : ds ≤ sample.ts) (toEnd : sample.ts ≤ de) :
    readSample ds de sample.line = some sample := by
  obtain ⟨ts, mac, rx, tx⟩ := legible.reads
  have inDay : ¬(sample.ts < ds ∨ sample.ts > de) := by
    omega
  simp [readSample, ts, mac, rx, tx, inDay]

end RoundTrip

end Hnc.Stats
