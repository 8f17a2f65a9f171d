import Hnc.Lib.Double
import Hnc.Lib.JsonGrammar
import Hnc.Stats.Credit
import Mathlib.Data.BitVec
import Mathlib.Data.List.Induction
import Mathlib.Data.List.Sort

/-!
# The chart of today

`aggregateToday` of the httpd puts the growth between the samples of a device
into 24 buckets, one for each hour.  The rows are those that `json.Unmarshal`
makes of the lines of `stats_raw.jsonl`; the numbers of a row are doubles, and
the buckets are 64-bit integers.
-/

namespace Hnc.Stats

open Posix JsonText

/-- A line of the raw file as a map; a later member replaces an earlier one of
its name. -/
abbrev Row := List (Text × Json)

def Row.get (row : Row) (k : String) : Option Json :=
  row.reverse.lookup k.toList

/-- `getFloat`, for the integers that the raw file holds. -/
def getFloat (row : Row) (k : String) : Nat :=
  match row.get k with
  | some (.number text) => Double.round (decimal text)
  | _ => 0

/-- `int64(getFloat(r, "ts"))`; a time is small enough to be a double. -/
def Row.ts (row : Row) : Nat :=
  match row.get "ts" with
  | some (.number text) => decimal text
  | _ => 0

/-- `r["mac"].(string)`. -/
def Row.mac (row : Row) : Text :=
  match row.get "mac" with
  | some (.string body) => body
  | _ => []

structure Bucket where
  label : Text
  rx : BitVec 64
  tx : BitVec 64
deriving DecidableEq, Repr

def twoDigit (n : Nat) : Text :=
  if n < 10 then '0' :: printed n else printed n

/-- The hour of a time in the zone of the day; `offset` is the offset of the
zone from UTC, in seconds. -/
def hourOf (offset : Int → Int) (ts : Int) : Nat :=
  ((ts + offset ts) % 86400 / 3600).toNat

/-- `cur - prev`, or 0 when the counter has been reset. -/
def grown (row prev : Row) (k : String) : Int :=
  let d : Int := getFloat row k - getFloat prev k
  if d < 0 then 0 else d

/-- The body of the loop over the rows of a device. -/
def creditHour (offset : Int → Int) (buckets : List Bucket)
    (pair : Row × Row) : List Bucket :=
  buckets.modify (hourOf offset pair.2.ts) fun b =>
    { b with
      rx := b.rx + BitVec.ofInt 64 (grown pair.2 pair.1 "rx")
      tx := b.tx + BitVec.ofInt 64 (grown pair.2 pair.1 "tx") }

/-- `sort.Slice` by the time. -/
def sortRows (rows : List Row) : List Row :=
  rows.insertionSort fun a b => a.ts ≤ b.ts

def emptyBuckets : List Bucket :=
  (List.range 24).map fun i => ⟨twoDigit i ++ ":00".toList, 0, 0⟩

/-- The rows of the day. -/
def rowsOfDay (raw : List Row) (t0 : Nat) : List Row :=
  raw.filter fun r => decide (t0 ≤ r.ts) && decide (r.ts < t0 + 86400)

/-- `aggregateToday`; `t0` is the start of the day. -/
def aggregateToday (offset : Int → Int) (raw : List Row) (t0 : Nat) :
    List Bucket :=
  let today := rowsOfDay raw t0
  (today.map Row.mac).dedup.foldl (fun buckets mac =>
    let arr := sortRows (today.filter fun r => r.mac = mac)
    (arr.zip arr.tail).foldl (creditHour offset) buckets) emptyBuckets

def Side.key : Side → String
  | .rx => "rx"
  | .tx => "tx"

def Side.ofBucket : Side → Bucket → BitVec 64
  | .rx => Bucket.rx
  | .tx => Bucket.tx

/-- The sum of a direction over the buckets, in 64-bit integers. -/
def chartSum (side : Side) (buckets : List Bucket) : BitVec 64 :=
  (buckets.map side.ofBucket).sum

/-- The map that a line of the sampler stands for. -/
def RawSample.row (sample : RawSample) : Row :=
  [("ts".toList, .number (printed sample.ts)),
    ("mac".toList, .string sample.mac),
    ("rx".toList, .number (printed sample.rx)),
    ("tx".toList, .number (printed sample.tx))]

/-- What a counter grows by over some samples, without the resets. -/
def growth : List Nat → Nat
  | [] => 0
  | [_] => 0
  | prev :: cur :: rest => (cur - prev) + growth (cur :: rest)

theorem derives_printed (n : Nat) :
    Derives .value (printed n) (.number (printed n)) := by
  apply Derives.number
  have number := Number.parts (.inl rfl) (integer_toDigits n) .absent .absent
  simpa [printed] using number

/-- The line of a sample is an object with the members of its row. -/
theorem denotes_line (sample : RawSample)
    (plain : escapeFree sample.mac = true) :
    Denotes sample.line (.object sample.row) := by
  have means : ∀ (key : String) (value : Text) (meaning : Json),
      escapeFree key.toList = true → Derives .value value meaning →
      Member.Means ⟨[], key.toList, [], [], value, []⟩
        (key.toList, meaning) :=
    fun key value meaning free derives =>
      ⟨⟨rfl, rfl, rfl, rfl⟩, chars_of_escapeFree free, rfl, derives⟩
  have object : Derives .value sample.obj.render (.object sample.row) := by
    apply derives_object
    · rfl
    · exact .cons (means "ts" _ _ (by decide) (derives_printed _))
        (.cons (means "mac" _ _ (by decide)
            (.string (chars_of_escapeFree plain)))
          (.cons (means "rx" _ _ (by decide) (derives_printed _))
            (.cons (means "tx" _ _ (by decide) (derives_printed _)) .nil)))
  rw [RawSample.render_obj] at object
  exact ⟨[], sample.line, [], by simp, rfl, object, rfl⟩

/-! ### What the chart adds up to -/

namespace RawSample

variable (sample : RawSample)

theorem row_ts : sample.row.ts = sample.ts := by
  exact decimal_printed sample.ts

theorem row_mac : sample.row.mac = sample.mac :=
  rfl

theorem row_count (side : Side) :
    getFloat sample.row side.key = Double.round (side.ofSample sample) := by
  cases side with
  | rx =>
      exact congrArg Double.round (decimal_printed sample.rx)
  | tx =>
      exact congrArg Double.round (decimal_printed sample.tx)

end RawSample

theorem hourOf_lt (offset : Int → Int) (ts : Int) : hourOf offset ts < 24 := by
  rw [hourOf]
  omega

variable {buckets : List Bucket}

theorem sum_modify {i : Nat} {side : Side} {change : Bucket → Bucket}
    {amount : BitVec 64} (inside : i < buckets.length)
    (adds : ∀ b, side.ofBucket (change b) = side.ofBucket b + amount) :
    chartSum side (buckets.modify i change) = chartSum side buckets + amount := by
  induction buckets generalizing i with
  | nil => cases inside
  | cons b rest induction =>
      cases i with
      | zero =>
          simp only [chartSum, List.modify_zero_cons, List.map_cons,
            List.sum_cons, adds]
          rw [BitVec.add_assoc, BitVec.add_comm amount, BitVec.add_assoc]
      | succ i =>
          have later := induction (i := i) (by simpa using inside)
          simp only [chartSum] at later
          simp only [chartSum, List.modify_succ_cons, List.map_cons,
            List.sum_cons, later, BitVec.add_assoc]

theorem grown_eq (row prev : Row) (k : String) :
    grown row prev k = ((getFloat row k - getFloat prev k : Nat) : Int) := by
  simp only [grown]
  split <;> omega

theorem chartSum_creditHour (side : Side) (offset : Int → Int)
    (length : buckets.length = 24) (pair : Row × Row) :
    chartSum side (creditHour offset buckets pair) = chartSum side buckets +
      BitVec.ofNat 64 (getFloat pair.2 side.key - getFloat pair.1 side.key) := by
  apply sum_modify
  · rw [length]
    exact hourOf_lt offset _
  · intro b
    rw [← BitVec.ofInt_natCast, ← grown_eq]
    cases side with
    | rx => rfl
    | tx => rfl

theorem chartSum_device (side : Side) (offset : Int → Int) (arr : List Row)
    (length : buckets.length = 24) :
    ((arr.zip arr.tail).foldl (creditHour offset) buckets).length = 24 ∧
      chartSum side ((arr.zip arr.tail).foldl (creditHour offset) buckets) =
        chartSum side buckets +
          BitVec.ofNat 64 (growth (arr.map fun r => getFloat r side.key)) := by
  induction arr generalizing buckets with
  | nil => exact ⟨length, by simp [growth]⟩
  | cons prev rest induction =>
      cases rest with
      | nil => exact ⟨length, by simp [growth]⟩
      | cons cur rest =>
          have kept : (creditHour offset buckets (prev, cur)).length = 24 :=
            (List.length_modify _ _ _).trans length
          obtain ⟨length', sum⟩ := induction kept
          refine ⟨length', ?_⟩
          have step := chartSum_creditHour side offset length (prev, cur)
          simp only [List.tail_cons, List.zip_cons_cons, List.foldl_cons,
            List.map_cons, growth] at sum ⊢
          rw [sum, step, BitVec.ofNat_add, BitVec.add_assoc]

theorem chartSum_devices (side : Side) (offset : Int → Int)
    (arrays : Text → List Row) (macs : List Text) (length : buckets.length = 24) :
    chartSum side (macs.foldl (fun buckets mac =>
        ((arrays mac).zip (arrays mac).tail).foldl (creditHour offset) buckets)
      buckets) = chartSum side buckets + BitVec.ofNat 64
        (macs.map fun mac =>
          growth ((arrays mac).map fun r => getFloat r side.key)).sum := by
  induction macs generalizing buckets with
  | nil => simp
  | cons mac rest induction =>
      obtain ⟨length', sum⟩ :=
        chartSum_device side offset (arrays mac) length
      rw [List.foldl_cons, induction length', sum, List.map_cons,
        List.sum_cons, BitVec.ofNat_add, BitVec.add_assoc]

theorem chartSum_empty (side : Side) : chartSum side emptyBuckets = 0#64 := by
  cases side with
  | rx => rfl
  | tx => rfl

end Hnc.Stats

/-!
## The chart of today and the nightly rollup

Both credit a device with the growth between its consecutive samples of the day.
The awk program adds in doubles and the httpd in 64-bit integers, so that they
agree as long as neither runs out of bits: a double is exact up to `2 ^ 53`.
-/

namespace Hnc.Stats

open Posix JsonText

/-- `sum += d` with the doubles of awk. -/
def creditedDouble (last : Option Nat) (sum cur : Nat) : Nat :=
  match last with
  | none => sum
  | some last => Double.round (sum + Double.round (cur - last))

/-- The body of the awk program, in doubles. -/
def Rollup.addDouble (state : Rollup) (sample : RawSample) : Rollup :=
  let rxCur := Double.round sample.rx
  let txCur := Double.round sample.tx
  { lastRx := Function.update state.lastRx sample.mac (some rxCur)
    lastTx := Function.update state.lastTx sample.mac (some txCur)
    sumRx := Function.update state.sumRx sample.mac
      (creditedDouble (state.lastRx sample.mac) (state.sumRx sample.mac) rxCur)
    sumTx := Function.update state.sumTx sample.mac
      (creditedDouble (state.lastTx sample.mac) (state.sumTx sample.mac) txCur)
    seen := state.seen ++ [sample.mac] }

/-- The `END` block. -/
def Rollup.rows (state : Rollup) : List DailyRow :=
  state.seen.dedup.map fun mac => ⟨mac, state.sumRx mac, state.sumTx mac⟩

/-- The awk program of `stats_rollup.sh` for the day between `ds` and `de`. -/
def rollupDouble (ds de : Nat) (raw : List Text) : List DailyRow :=
  ((raw.filterMap (readSample ds de)).foldl Rollup.addDouble .init).rows

def Side.ofDaily : Side → DailyRow → Nat
  | .rx => DailyRow.rx
  | .tx => DailyRow.tx

/-- The sum of a direction over the rows of a date. -/
def rollupSum (side : Side) (rows : List DailyRow) : Nat :=
  (rows.map side.ofDaily).sum

/-- The samples of the day that starts at `t0`. -/
def dayOf (samples : List RawSample) (t0 : Nat) : List RawSample :=
  samples.filter fun s => decide (t0 ≤ s.ts) && decide (s.ts < t0 + 86400)

/-- The counters of a device in the order of the file. -/
def counts (side : Side) (samples : List RawSample) (mac : Text) : List Nat :=
  (samples.filter fun s => s.mac = mac).map side.ofSample

/-- What all devices have transferred. -/
def dayTotal (side : Side) (samples : List RawSample) : Nat :=
  ((samples.map RawSample.mac).dedup.map fun mac =>
    growth (counts side samples mac)).sum

/-- The rows of the sampler: its addresses, later samples of a device further
down, and counters that a double holds. -/
structure SamplerRows (samples : List RawSample) : Prop where
  macs : ∀ s ∈ samples, ∃ mac : Mac, s.mac = mac.text
  ordered : samples.Pairwise fun a b => a.mac = b.mac → a.ts < b.ts
  small : ∀ s ∈ samples, ∀ side : Side, side.ofSample s < 2 ^ 53

variable {samples : List RawSample}

theorem SamplerRows.legible (rows : SamplerRows samples) {s : RawSample}
    (member : s ∈ samples) : Legible s :=
  legible_of_mac (rows.macs s member)

/-- The awk program reads the samples between two times. -/
theorem readSamples_between (legible : ∀ s ∈ samples, Legible s) (ds de : Nat) :
    (samples.map RawSample.line).filterMap (readSample ds de) =
      samples.filter fun s => decide (ds ≤ s.ts) && decide (s.ts ≤ de) := by
  induction samples with
  | nil => rfl
  | cons s rest induction =>
      have own := legible s (by simp)
      have later := induction fun s member => legible s (by simp [member])
      rw [List.map_cons, List.filterMap_cons, later, List.filter_cons]
      by_cases inside : ds ≤ s.ts ∧ s.ts ≤ de
      · rw [readSample_line own inside.1 inside.2]
        simp [inside]
      · have outside : readSample ds de s.line = none := by
          have off : s.ts < ds ∨ s.ts > de := by omega
          simp [readSample, own.reads.1, off]
        rw [outside]
        have refused : ¬ ((decide (ds ≤ s.ts) && decide (s.ts ≤ de)) = true) := by
          simpa using inside
        rw [if_neg refused]

theorem readSamples_lines (legible : ∀ s ∈ samples, Legible s) (t0 : Nat) :
    (samples.map RawSample.line).filterMap (readSample t0 (t0 + 86399)) =
      dayOf samples t0 := by
  rw [readSamples_between legible]
  apply List.filter_congr
  intro s _
  congr 1
  apply decide_eq_decide.mpr
  omega

theorem growth_concat (xs : List Nat) (x : Nat) :
    growth (xs ++ [x]) =
      growth xs + (xs.getLast?.map fun last => x - last).getD 0 := by
  induction xs with
  | nil => rfl
  | cons prev rest induction =>
      cases rest with
      | nil => simp [growth]
      | cons cur rest =>
          simp only [List.cons_append, growth] at induction ⊢
          rw [induction, List.getLast?_cons_cons, Nat.add_assoc]

theorem counts_concat (side : Side) (samples : List RawSample)
    (s : RawSample) (mac : Text) :
    counts side (samples ++ [s]) mac =
      if s.mac = mac then counts side samples mac ++ [side.ofSample s]
      else counts side samples mac := by
  by_cases same : s.mac = mac
  · simp [counts, same]
  · simp [counts, same]

theorem addDouble_side (side : Side) (state : Rollup) (s : RawSample) :
    side.last (state.addDouble s) = Function.update (side.last state) s.mac
        (some (Double.round (side.ofSample s))) ∧
      side.sum (state.addDouble s) = Function.update (side.sum state) s.mac
        (creditedDouble (side.last state s.mac) (side.sum state s.mac)
          (Double.round (side.ofSample s))) := by
  cases side with
  | rx => exact ⟨rfl, rfl⟩
  | tx => exact ⟨rfl, rfl⟩

/-- With few enough bytes of a device the awk program has its growth. -/
theorem rollupDouble_mac (side : Side) (mac : Text) (samples : List RawSample)
    (small : ∀ s ∈ samples, s.mac = mac → side.ofSample s ≤ 2 ^ 53)
    (fits : growth (counts side samples mac) ≤ 2 ^ 53) :
    side.last (samples.foldl Rollup.addDouble .init) mac =
        (counts side samples mac).getLast? ∧
      side.sum (samples.foldl Rollup.addDouble .init) mac =
        growth (counts side samples mac) := by
  induction samples using List.reverseRecOn with
  | nil =>
      cases side with
      | rx => exact ⟨rfl, rfl⟩
      | tx => exact ⟨rfl, rfl⟩
  | append_singleton samples s induction =>
      have grows : growth (counts side samples mac) ≤
          growth (counts side (samples ++ [s]) mac) := by
        rw [counts_concat]
        split
        · rw [growth_concat]
          exact Nat.le_add_right _ _
        · exact le_refl _
      obtain ⟨lastBefore, sumBefore⟩ := induction
        (fun s member => small s (List.mem_append_left _ member))
        (grows.trans fits)
      obtain ⟨last, sum⟩ := addDouble_side side
        (samples.foldl Rollup.addDouble .init) s
      rw [List.foldl_append, List.foldl_cons, List.foldl_nil, last, sum,
        counts_concat]
      by_cases same : s.mac = mac
      · subst same
        have counter := Double.round_of_le (small s (by simp) rfl)
        rw [counts_concat, if_pos rfl, growth_concat] at fits
        rw [if_pos rfl, Function.update_self, Function.update_self, counter,
          lastBefore, sumBefore, growth_concat]
        refine ⟨by simp, ?_⟩
        cases found : (counts side samples s.mac).getLast? with
        | none => simp [creditedDouble]
        | some prev =>
            rw [found] at fits
            simp only [Option.map_some, Option.getD_some] at fits ⊢
            have step : Double.round (side.ofSample s - prev) =
                side.ofSample s - prev := Double.round_of_le (by omega)
            rw [creditedDouble, step, Double.round_of_le fits]
      · rw [if_neg same, Function.update_of_ne (Ne.symm same),
          Function.update_of_ne (Ne.symm same)]
        exact ⟨lastBefore, sumBefore⟩

theorem seen_addDouble (samples : List RawSample) (state : Rollup) :
    (samples.foldl Rollup.addDouble state).seen =
      state.seen ++ samples.map RawSample.mac := by
  induction samples generalizing state with
  | nil => simp
  | cons s rest induction =>
      rw [List.foldl_cons, induction]
      simp [Rollup.addDouble]

theorem rollupSum_eq (side : Side) (rows : SamplerRows samples) (t0 : Nat)
    (fits : ∀ mac, growth (counts side (dayOf samples t0) mac) ≤ 2 ^ 53) :
    rollupSum side (rollupDouble t0 (t0 + 86399)
      (samples.map RawSample.line)) = dayTotal side (dayOf samples t0) := by
  have state := fun mac => rollupDouble_mac side mac (dayOf samples t0)
    (fun s member _ =>
      Nat.le_of_lt (rows.small s (List.mem_of_mem_filter member) side))
    (fits mac)
  rw [rollupSum, rollupDouble,
    readSamples_lines (fun s member => rows.legible member), Rollup.rows,
    seen_addDouble, List.map_map]
  congr 1
  apply List.map_congr_left
  intro mac _
  rw [← (state mac).2]
  cases side with
  | rx => rfl
  | tx => rfl

theorem rowsOfDay_rows (samples : List RawSample) (t0 : Nat) :
    rowsOfDay (samples.map RawSample.row) t0 =
      (dayOf samples t0).map RawSample.row := by
  rw [rowsOfDay, List.filter_map]
  congr 1
  apply List.filter_congr
  intro s _
  simp only [Function.comp_apply, RawSample.row_ts]

theorem sortRows_rows {mac : Text}
    (ordered : samples.Pairwise fun a b => a.mac = b.mac → a.ts < b.ts) :
    sortRows ((samples.map RawSample.row).filter fun r => r.mac = mac) =
      (samples.filter fun s => s.mac = mac).map RawSample.row := by
  have same : ((samples.map RawSample.row).filter fun r => r.mac = mac) =
      (samples.filter fun s => s.mac = mac).map RawSample.row := by
    rw [List.filter_map]
    rfl
  rw [same]
  apply List.Pairwise.insertionSort_eq
  rw [List.pairwise_map]
  have own := ordered.filter (fun s => decide (s.mac = mac))
  apply List.Pairwise.imp_of_mem _ own
  intro a b first second later
  have ofFirst : a.mac = mac := by simpa using (List.mem_filter.mp first).2
  have ofSecond : b.mac = mac := by simpa using (List.mem_filter.mp second).2
  rw [RawSample.row_ts, RawSample.row_ts]
  exact Nat.le_of_lt (later (ofFirst.trans ofSecond.symm))

theorem chartSum_eq (side : Side) (offset : Int → Int) {t0 : Nat}
    (ordered : (dayOf samples t0).Pairwise fun a b => a.mac = b.mac → a.ts < b.ts)
    (small : ∀ s ∈ dayOf samples t0, side.ofSample s ≤ 2 ^ 53) :
    chartSum side (aggregateToday offset (samples.map RawSample.row) t0) =
      BitVec.ofNat 64 (dayTotal side (dayOf samples t0)) := by
  rw [aggregateToday, rowsOfDay_rows]
  rw [chartSum_devices side offset (fun mac => sortRows (((dayOf samples t0).map RawSample.row).filter fun r => r.mac = mac)) _ (by rfl),
    chartSum_empty, BitVec.zero_add, List.map_map]
  congr 2
  apply List.map_congr_left
  intro mac _
  rw [sortRows_rows ordered, List.map_map]
  congr 1
  apply List.map_congr_left
  intro s member
  exact (s.row_count side).trans
    (Double.round_of_le (small s (List.mem_of_mem_filter member)))

/-- The chart of today and the rollup agree on every day on which no device
transfers more than `2 ^ 53` bytes and all together less than `2 ^ 63`. -/
theorem chart_agrees_with_rollup (offset : Int → Int)
    (samples : List RawSample) (t0 : Nat) (rows : SamplerRows samples)
    (fits : ∀ side mac,
      growth (counts side (dayOf samples t0) mac) ≤ 2 ^ 53)
    (total : ∀ side, dayTotal side (dayOf samples t0) < 2 ^ 63) :
    ∀ side, (chartSum side
        (aggregateToday offset (samples.map RawSample.row) t0)).toInt =
      (rollupSum side (rollupDouble t0 (t0 + 86399)
        (samples.map RawSample.line)) : Int) := by
  intro side
  have bound := total side
  have small : ∀ s ∈ dayOf samples t0, side.ofSample s ≤ 2 ^ 53 :=
    fun s member => Nat.le_of_lt (rows.small s (List.mem_of_mem_filter member) side)
  rw [chartSum_eq side offset (rows.ordered.filter _) small, rollupSum_eq side rows t0 (fits side),
    BitVec.toInt_eq_toNat_of_lt, BitVec.toNat_ofNat,
    Nat.mod_eq_of_lt (by omega)]
  rw [BitVec.toNat_ofNat, Nat.mod_eq_of_lt (by omega)]
  omega

def laptopMac : Mac :=
  ⟨"3a:bb:cc:dd:ee:02".toList, by decide⟩

/-- The samples of one device, one second after another. -/
def samplesOf (rx : List Nat) : List RawSample :=
  rx.zipIdx.map fun pair => ⟨pair.2, laptopMac.text, pair.1, 0⟩

/-- The rows have the format of the sampler, checked on the counters. -/
theorem samplerRows_samplesOf {rx : List Nat}
    (small : (rx.all fun count => count < 2 ^ 53) = true) :
    SamplerRows (samplesOf rx) where
  macs := by
    intro s member
    obtain ⟨_, _, rfl⟩ := List.mem_map.mp member
    exact ⟨laptopMac, rfl⟩
  ordered := by
    rw [samplesOf, List.pairwise_map]
    have indexed : (rx.zipIdx.map Prod.snd).Pairwise (· < ·) := by
      rw [List.zipIdx_map_snd]
      exact List.pairwise_lt_range'
    rw [List.pairwise_map] at indexed
    apply indexed.imp
    intro a b before _
    exact before
  small := by
    intro s member side
    obtain ⟨⟨count, ts⟩, pair, rfl⟩ := List.mem_map.mp member
    have listed : count ∈ rx := by
      have mapped := List.mem_map_of_mem (f := Prod.fst) pair
      rwa [List.zipIdx_map_fst] at mapped
    have bound := of_decide_eq_true (List.all_eq_true.mp small count listed)
    cases side with
    | rx => exact bound
    | tx => exact Nat.two_pow_pos 53

/-- A device that downloads a little, with a reset in between. -/
theorem quiet_day_agrees : (chartSum .rx (aggregateToday (fun _ => 0)
      ((samplesOf [100, 250, 40, 90]).map RawSample.row) 0)).toInt =
    (rollupSum .rx (rollupDouble 0 (0 + 86399)
      ((samplesOf [100, 250, 40, 90]).map RawSample.line)) : Int) := by
  apply chart_agrees_with_rollup (fun _ => 0) (samplesOf [100, 250, 40, 90]) 0
    (samplerRows_samplesOf (by decide))
  · intro side mac
    by_cases own : mac = laptopMac.text
    · subst own
      cases side with
      | rx => decide +kernel
      | tx => decide +kernel
    · have none : counts side (dayOf (samplesOf [100, 250, 40, 90]) 0) mac =
          [] := by
        rw [counts, List.filter_eq_nil_iff.mpr]
        · rfl
        · intro s member
          obtain ⟨_, _, rfl⟩ :=
            List.mem_map.mp (List.mem_of_mem_filter member)
          simpa using Ne.symm own
      rw [none]
      exact Nat.zero_le _
  · intro side
    cases side with
    | rx => decide +kernel
    | tx => decide +kernel

/-- Three times nearly `2 ^ 53` bytes, with resets in between, are an odd number
of bytes that no double holds. -/
theorem rollup_rounds_large_day :
    ¬ ∀ (offset : Int → Int) (samples : List RawSample) (t0 : Nat),
      SamplerRows samples → ∀ side, (chartSum side
          (aggregateToday offset (samples.map RawSample.row) t0)).toInt =
        (rollupSum side (rollupDouble t0 (t0 + 86399)
          (samples.map RawSample.line)) : Int) := by
  intro agree
  have rows := @samplerRows_samplesOf
    [0, 2 ^ 53 - 1, 0, 2 ^ 53 - 1, 0, 2 ^ 53 - 1] (by decide +kernel)
  have same := agree (fun _ => 0) _ 0 rows .rx
  rw [rollupSum, rollupDouble,
    readSamples_lines (fun s member => rows.legible member)] at same
  revert same
  decide +kernel

end Hnc.Stats
