import Hnc.Stats.TodayChart

/-!
# Credited and transferred

A counter of a device grows with its traffic and is set back to 0 at any moment;
a sample reads it.  What the rollup and the chart credit for the samples of a
day is at most what the device has transferred between the first and the last of
them, and all of it when no reset falls between them.
-/

namespace Hnc.Stats

open Posix JsonText

/-- What happens to the counters of a device. -/
inductive Moment where
  | transfer (side : Side) (bytes : Nat)
  | reset (side : Side)
  | sample (ts : Nat)

/-- A sample, with what has been transferred until then and the number of
resets, which it does not see. -/
structure Reading where
  ts : Nat
  counter : Side → Nat
  moved : Side → Nat
  resets : Side → Nat

structure Meter where
  counter : Side → Nat
  moved : Side → Nat
  resets : Side → Nat
  readings : List Reading

namespace Meter

/-- The reading that a sample would take now. -/
def now (meter : Meter) (ts : Nat) : Reading :=
  ⟨ts, meter.counter, meter.moved, meter.resets⟩

def step (meter : Meter) : Moment → Meter
  | .transfer side bytes =>
      { meter with
        counter := Function.update meter.counter side
          (meter.counter side + bytes)
        moved := Function.update meter.moved side (meter.moved side + bytes) }
  | .reset side =>
      { meter with
        counter := Function.update meter.counter side 0
        resets := Function.update meter.resets side (meter.resets side + 1) }
  | .sample ts => { meter with readings := meter.readings ++ [meter.now ts] }

/-- The meter after a history. -/
def run (meter : Meter) (history : List Moment) : Meter :=
  history.foldl step meter

end Meter

/-- What lies between two readings: the counter has grown by the traffic, unless
it was reset. -/
structure Follows (side : Side) (before after : Reading) : Prop where
  moved : before.moved side ≤ after.moved side
  resets : before.resets side ≤ after.resets side
  counter : after.counter side + before.moved side ≤
    before.counter side + after.moved side
  whole : before.resets side = after.resets side →
    after.counter side + before.moved side =
      before.counter side + after.moved side

namespace Follows

variable {side : Side} {first second third : Reading}

theorem same (reading : Reading) (ts : Nat) :
    Follows side reading { reading with ts := ts } :=
  ⟨le_refl _, le_refl _, le_refl _, fun _ => rfl⟩

theorem trans (left : Follows side first second)
    (right : Follows side second third) : Follows side first third := by
  constructor
  case moved => exact left.moved.trans right.moved
  case resets => exact left.resets.trans right.resets
  case counter =>
      have growsFirst := left.counter
      have growsSecond := right.counter
      omega
  case whole =>
      intro noReset
      have between := left.resets
      have behind := right.resets
      have growsFirst := left.whole (by omega)
      have growsSecond := right.whole (by omega)
      omega

end Follows

/-- One moment. -/
theorem Meter.follows_step (side : Side) (meter : Meter) (moment : Moment)
    (ts later : Nat) : Follows side (meter.now ts) ((meter.step moment).now later) := by
  cases moment with
  | transfer other bytes =>
      by_cases same : side = other
      · subst same
        constructor <;> simp [Meter.now, Meter.step] <;> omega
      · constructor <;> simp [Meter.now, Meter.step, same]
  | reset other =>
      by_cases same : side = other
      · subst same
        constructor <;> simp [Meter.now, Meter.step]
      · constructor <;> simp [Meter.now, Meter.step, same]
  | sample _ => exact Follows.same _ _

/-- A relation between readings that every moment keeps. -/
structure Lasting (related : Reading → Reading → Prop) : Prop where
  same : ∀ reading ts, related reading { reading with ts := ts }
  trans : ∀ first second third, related first second → related second third →
    related first third
  step : ∀ (meter : Meter) moment ts later,
    related (meter.now ts) ((meter.step moment).now later)

theorem Follows.lasting (side : Side) : Lasting (Follows side) where
  same := Follows.same
  trans _ _ _ := Follows.trans
  step := Meter.follows_step side

/-- The readings of a meter are related, and the present to them. -/
structure Chained (related : Reading → Reading → Prop) (meter : Meter) : Prop where
  readings : meter.readings.Pairwise related
  now : ∀ reading ∈ meter.readings, ∀ ts, related reading (meter.now ts)

variable {meter : Meter}

section Histories

variable {related : Reading → Reading → Prop} (lasting : Lasting related)

include lasting

theorem Chained.step (chained : Chained related meter) (moment : Moment) :
    Chained related (meter.step moment) := by
  have onward : ∀ reading ∈ meter.readings, ∀ ts,
      related reading ((meter.step moment).now ts) := by
    intro reading member ts
    exact lasting.trans _ _ _ (chained.now reading member ts)
      (lasting.step meter moment ts ts)
  cases moment with
  | transfer other bytes => exact ⟨chained.readings, onward⟩
  | reset other => exact ⟨chained.readings, onward⟩
  | sample time =>
      constructor
      case readings =>
          rw [Meter.step, List.pairwise_append]
          refine ⟨chained.readings, List.pairwise_singleton _ _, ?_⟩
          intro reading member last isLast
          rw [List.mem_singleton.mp isLast]
          exact chained.now reading member time
      case now =>
          intro reading member ts
          rcases List.mem_append.mp member with old | new
          · exact onward reading old ts
          · rw [List.mem_singleton.mp new]
            exact lasting.same _ _

theorem Chained.run (chained : Chained related meter) (history : List Moment) :
    Chained related (meter.run history) := by
  induction history generalizing meter with
  | nil => exact chained
  | cons moment rest induction => exact induction (chained.step lasting moment)

/-- The readings of a history are related. -/
theorem run_pairwise (fresh : meter.readings = []) (history : List Moment) :
    (meter.run history).readings.Pairwise related := by
  have start : Chained related meter := ⟨by simp [fresh], by simp [fresh]⟩
  exact (start.run lasting history).readings

end Histories

/-- The readings of a meter follow one another, and the present follows them. -/
structure Recorded (side : Side) (meter : Meter) : Prop where
  readings : meter.readings.Pairwise (Follows side)
  now : ∀ reading ∈ meter.readings, ∀ ts, Follows side reading (meter.now ts)

theorem run_recorded (side : Side) (recorded : Recorded side meter)
    (history : List Moment) : Recorded side (meter.run history) := by
  have chained : Chained (Follows side) meter := ⟨recorded.readings, recorded.now⟩
  have after := chained.run (Follows.lasting side) history
  exact ⟨after.readings, after.now⟩

/-- What a device has transferred between its first and its last sample. -/
def movedBetween (side : Side) (readings : List Reading) : Nat :=
  match readings.head?, readings.getLast? with
  | some first, some last => last.moved side - first.moved side
  | _, _ => 0

/-- No reset falls between the first and the last sample. -/
def Unbroken (side : Side) (readings : List Reading) : Prop :=
  ∀ first ∈ readings.head?, ∀ last ∈ readings.getLast?,
    first.resets side = last.resets side

/-- The growth that is seen is part of what was transferred. -/
theorem growth_readings (side : Side) (first : Reading) (rest : List Reading)
    (follows : (first :: rest).Pairwise (Follows side)) :
    ∃ last, (first :: rest).getLast? = some last ∧ Follows side first last ∧
      growth ((first :: rest).map fun r => r.counter side) + first.moved side ≤
        last.moved side ∧
      (first.resets side = last.resets side →
        growth ((first :: rest).map fun r => r.counter side) +
          first.moved side = last.moved side) := by
  induction rest generalizing first with
  | nil => exact ⟨first, rfl, Follows.same _ _, by simp [growth], by simp [growth]⟩
  | cons second rest induction =>
      rw [List.pairwise_cons] at follows
      obtain ⟨last, isLast, behind, bound, whole⟩ := induction second follows.2
      have here := follows.1 second (by simp)
      refine ⟨last, ?_, here.trans behind, ?_, ?_⟩
      · rw [List.getLast?_cons_cons, isLast]
      · have moved := here.moved
        have counter := here.counter
        simp only [List.map_cons, growth] at bound ⊢
        omega
      · intro noReset
        have resets := here.resets
        have later := behind.resets
        have counter := here.whole (by omega)
        have moved := here.moved
        have tail := whole (by omega)
        simp only [List.map_cons, growth] at tail ⊢
        omega

theorem growth_le_moved (side : Side) {readings : List Reading}
    (follows : readings.Pairwise (Follows side)) :
    growth (readings.map fun r => r.counter side) ≤ movedBetween side readings ∧
      (Unbroken side readings →
        growth (readings.map fun r => r.counter side) =
          movedBetween side readings) := by
  cases readings with
  | nil => exact ⟨le_refl _, fun _ => rfl⟩
  | cons first rest =>
      obtain ⟨last, isLast, _, bound, whole⟩ :=
        growth_readings side first rest follows
      simp only [movedBetween, List.head?_cons, isLast]
      refine ⟨by omega, ?_⟩
      intro unbroken
      have same := whole (unbroken first rfl last isLast)
      omega

/-! ### What a device is credited with -/

/-- The rows that the rollup writes for a device. -/
def rollupCredit (side : Side) (mac : Text) (rows : List DailyRow) : Nat :=
  ((rows.filter fun row => row.mac = mac).map side.ofDaily).sum

theorem rollupCredit_rows (side : Side) (mac : Text) (state : Rollup) :
    rollupCredit side mac state.rows =
      if mac ∈ state.seen then side.sum state mac else 0 := by
  have own : state.seen.dedup.filter (fun text => text = mac) =
      List.replicate (state.seen.dedup.count mac) mac :=
    List.filter_eq mac
  have daily : side.ofDaily ⟨mac, state.sumRx mac, state.sumTx mac⟩ =
      side.sum state mac := by
    cases side with
    | rx => rfl
    | tx => rfl
  rw [rollupCredit, Rollup.rows, List.filter_map]
  simp only [Function.comp_def, own]
  split
  · rename_i seen
    rw [List.count_eq_one_of_mem (List.nodup_dedup _) (List.mem_dedup.mpr seen)]
    simp [daily]
  · rename_i unseen
    rw [List.count_eq_zero.mpr (by simpa using unseen)]
    rfl

/-- What the rows of a device add to the chart. -/
def chartCredit (side : Side) (offset : Int → Int) (raw : List Row) (t0 : Nat)
    (mac : Text) : BitVec 64 :=
  chartSum side (aggregateToday offset (raw.filter fun r => r.mac = mac) t0)

theorem chartSum_rows (side : Side) (offset : Int → Int) (raw : List Row)
    (t0 : Nat) :
    chartSum side (aggregateToday offset raw t0) =
      BitVec.ofNat 64 ((((rowsOfDay raw t0).map Row.mac).dedup.map fun mac =>
        growth ((sortRows ((rowsOfDay raw t0).filter fun r => r.mac = mac)).map
          fun r => getFloat r side.key)).sum) := by
  rw [aggregateToday]
  rw [chartSum_devices side offset (fun mac => sortRows
    ((rowsOfDay raw t0).filter fun r => r.mac = mac)) _ (by rfl),
    chartSum_empty, BitVec.zero_add]

theorem dedup_of_single {items : List Text} {mac : Text}
    (all : ∀ item ∈ items, item = mac) (nonempty : items ≠ []) :
    items.dedup = [mac] := by
  have same := List.eq_replicate_of_mem all
  have length : items.length ≠ 0 := by simpa using nonempty
  rw [same, List.replicate_dedup length]

theorem chartCredit_eq (side : Side) (offset : Int → Int) (raw : List Row)
    (t0 : Nat) (mac : Text) :
    chartCredit side offset raw t0 mac = BitVec.ofNat 64
      (growth ((sortRows ((rowsOfDay raw t0).filter fun r => r.mac = mac)).map
        fun r => getFloat r side.key)) := by
  have swap : rowsOfDay (raw.filter fun r => r.mac = mac) t0 =
      (rowsOfDay raw t0).filter fun r => r.mac = mac := by
    rw [rowsOfDay, rowsOfDay, List.filter_filter, List.filter_filter]
    congr 1
    funext r
    rw [Bool.and_comm]
  rw [chartCredit, chartSum_rows, swap]
  cases own : (rowsOfDay raw t0).filter fun r => r.mac = mac with
  | nil => simp [sortRows, growth]
  | cons first rest =>
      have all : ∀ r ∈ first :: rest, r.mac = mac := by
        intro r member
        rw [← own] at member
        simpa using (List.mem_filter.mp member).2
      have single : ((first :: rest).map Row.mac).dedup = [mac] :=
        dedup_of_single (by simpa using all) (by simp)
      rw [single]
      have kept : (first :: rest).filter (fun r => r.mac = mac) =
          first :: rest := by
        simpa using all
      rw [List.map_singleton, List.sum_singleton, kept]

/-- The line of a reading. -/
def Reading.sample (mac : Mac) (reading : Reading) : RawSample :=
  ⟨reading.ts, mac.text, reading.counter .rx, reading.counter .tx⟩

/-- A raw file of the sampler that has, for one device and the day from `t0` on,
the samples of a history, later ones further down. -/
structure DaySamples (samples : List RawSample) (t0 : Nat) (mac : Mac)
    (readings : List Reading) : Prop where
  macs : ∀ s ∈ samples, ∃ device : Mac, s.mac = device.text
  own : (dayOf samples t0).filter (fun s => s.mac = mac.text) =
    readings.map (Reading.sample mac)
  increasing : readings.Pairwise fun a b => a.ts < b.ts

section Credits

variable {samples : List RawSample} {t0 : Nat} {mac : Mac}
variable {readings : List Reading}
variable (day : DaySamples samples t0 mac readings)

include day

theorem DaySamples.legible {s : RawSample} (member : s ∈ samples) :
    Legible s :=
  legible_of_mac (day.macs s member)

theorem DaySamples.counts_eq (side : Side) :
    counts side (dayOf samples t0) mac.text =
      readings.map fun r => r.counter side := by
  rw [counts, day.own, List.map_map]
  cases side with
  | rx => rfl
  | tx => rfl

variable {side : Side}

theorem DaySamples.small_own (small : ∀ r ∈ readings, r.counter side ≤ 2 ^ 53) :
    ∀ s ∈ dayOf samples t0, s.mac = mac.text → side.ofSample s ≤ 2 ^ 53 := by
  intro s member own
  have listed : side.ofSample s ∈ counts side (dayOf samples t0) mac.text :=
    List.mem_map_of_mem (List.mem_filter.mpr ⟨member, by simp [own]⟩)
  rw [day.counts_eq] at listed
  obtain ⟨r, inside, same⟩ := List.mem_map.mp listed
  rw [← same]
  exact small r inside

/-- The rollup credits a device with the growth of its counter. -/
theorem rollupCredit_eq (small : ∀ r ∈ readings, r.counter side ≤ 2 ^ 53)
    (fits : growth (readings.map fun r => r.counter side) ≤ 2 ^ 53) :
    rollupCredit side mac.text (rollupDouble t0 (t0 + 86399)
        (samples.map RawSample.line)) =
      growth (readings.map fun r => r.counter side) := by
  have legible : ∀ s ∈ samples, Legible s := fun s => day.legible
  have state := (rollupDouble_mac side mac.text (dayOf samples t0)
    (day.small_own small) (by rwa [day.counts_eq])).2
  rw [day.counts_eq] at state
  rw [rollupDouble, readSamples_lines legible, rollupCredit_rows, seen_addDouble,
    state]
  split
  · rfl
  · rename_i unseen
    have none : readings = [] := by
      by_contra some_reading
      obtain ⟨r, member⟩ := List.exists_mem_of_ne_nil _ some_reading
      have inDay : Reading.sample mac r ∈ dayOf samples t0 := by
        have listed := List.mem_map_of_mem (f := Reading.sample mac) member
        rw [← day.own] at listed
        exact List.mem_of_mem_filter listed
      exact unseen (by simpa [Rollup.init] using ⟨_, inDay, rfl⟩)
    rw [none]
    rfl

theorem chartCredit_toInt (offset : Int → Int)
    (small : ∀ r ∈ readings, r.counter side ≤ 2 ^ 53)
    (fits : growth (readings.map fun r => r.counter side) ≤ 2 ^ 53) :
    (chartCredit side offset (samples.map RawSample.row) t0 mac.text).toInt =
      growth (readings.map fun r => r.counter side) := by
  have own : (rowsOfDay (samples.map RawSample.row) t0).filter
      (fun r => r.mac = mac.text) =
        (readings.map (Reading.sample mac)).map RawSample.row := by
    rw [rowsOfDay_rows, List.filter_map, ← day.own]
    rfl
  have sorted : sortRows ((readings.map (Reading.sample mac)).map
      RawSample.row) =
        (readings.map (Reading.sample mac)).map RawSample.row := by
    apply List.Pairwise.insertionSort_eq
    rw [List.pairwise_map, List.pairwise_map]
    apply day.increasing.imp
    intro a b later
    rw [RawSample.row_ts, RawSample.row_ts]
    exact Nat.le_of_lt later
  have read : ((readings.map (Reading.sample mac)).map RawSample.row).map
      (fun r => getFloat r side.key) = readings.map fun r => r.counter side := by
    rw [List.map_map, List.map_map]
    apply List.map_congr_left
    intro r member
    have count := (Reading.sample mac r).row_count side
    have same : side.ofSample (Reading.sample mac r) = r.counter side := by
      cases side with
      | rx => rfl
      | tx => rfl
    rw [same, Double.round_of_le (small r member)] at count
    exact count
  rw [chartCredit_eq, own, sorted, read, BitVec.toInt_eq_toNat_of_lt,
    BitVec.toNat_ofNat, Nat.mod_eq_of_lt (by omega)]
  rw [BitVec.toNat_ofNat]
  omega

end Credits

/-- What the rollup and the chart credit for the samples of a day is at most
what the device has transferred between the first and the last of them, and all
of it when no reset falls between them; as long as its counters and what it
transfers stay within `2 ^ 53`. -/
theorem credits_at_most_transferred (offset : Int → Int) {meter : Meter}
    (fresh : meter.readings = []) (history : List Moment)
    {samples : List RawSample} {t0 : Nat} {mac : Mac}
    (day : DaySamples samples t0 mac (meter.run history).readings) {side : Side}
    (small : ∀ r ∈ (meter.run history).readings, r.counter side ≤ 2 ^ 53)
    (fits : movedBetween side (meter.run history).readings ≤ 2 ^ 53) :
    rollupCredit side mac.text (rollupDouble t0 (t0 + 86399)
        (samples.map RawSample.line)) ≤
      movedBetween side (meter.run history).readings ∧
    (chartCredit side offset (samples.map RawSample.row) t0 mac.text).toInt ≤
      movedBetween side (meter.run history).readings ∧
    (Unbroken side (meter.run history).readings →
      rollupCredit side mac.text (rollupDouble t0 (t0 + 86399)
          (samples.map RawSample.line)) =
        movedBetween side (meter.run history).readings ∧
      (chartCredit side offset (samples.map RawSample.row) t0 mac.text).toInt =
        movedBetween side (meter.run history).readings) := by
  have start : Recorded side meter := ⟨by simp [fresh], by simp [fresh]⟩
  have recorded := run_recorded side start history
  obtain ⟨bound, whole⟩ := growth_le_moved side recorded.readings
  rw [rollupCredit_eq day small (bound.trans fits),
    chartCredit_toInt day offset small (bound.trans fits)]
  refine ⟨bound, Int.ofNat_le.mpr bound, ?_⟩
  intro unbroken
  exact ⟨whole unbroken, congrArg Int.ofNat (whole unbroken)⟩

theorem daySamples_readings {readings : List Reading} {t0 : Nat} (mac : Mac)
    (inDay : ∀ r ∈ readings, t0 ≤ r.ts ∧ r.ts < t0 + 86400)
    (increasing : readings.Pairwise fun a b => a.ts < b.ts) :
    DaySamples (readings.map (Reading.sample mac)) t0 mac readings where
  macs := by
    intro s member
    obtain ⟨r, _, rfl⟩ := List.mem_map.mp member
    exact ⟨mac, rfl⟩
  own := by
    rw [dayOf, List.filter_filter, List.filter_eq_self]
    intro s member
    obtain ⟨r, inside, rfl⟩ := List.mem_map.mp member
    obtain ⟨fromStart, toEnd⟩ := inDay r inside
    simp [Reading.sample, fromStart, toEnd]
  increasing := increasing

/-- Counters before the first sample. -/
def meterAt (rx : Nat) : Meter :=
  ⟨fun side => if side = .rx then rx else 0, fun _ => 0, fun _ => 0, []⟩

def resetHistory : List Moment :=
  [.sample 100, .transfer .rx 250, .sample 200, .reset .rx, .transfer .rx 40,
    .sample 300]

theorem reset_is_not_credited :
    rollupCredit .rx laptopMac.text (rollupDouble 0 (0 + 86399)
        ((((meterAt 7).run resetHistory).readings.map
          (Reading.sample laptopMac)).map RawSample.line)) ≤ 290 := by
  have moved : movedBetween .rx ((meterAt 7).run resetHistory).readings =
      290 := by
    decide
  have day : DaySamples _ 0 laptopMac ((meterAt 7).run resetHistory).readings :=
    daySamples_readings laptopMac (by decide) (by decide)
  have small : ∀ r ∈ ((meterAt 7).run resetHistory).readings,
      r.counter .rx ≤ 2 ^ 53 := by
    decide
  have credits := credits_at_most_transferred (fun _ => 0) rfl resetHistory day
    small (by rw [moved]; decide)
  rw [moved] at credits
  exact credits.1

/-- Three bytes beyond `2 ^ 53` count as four. -/
theorem large_counter_is_rounded :
    ¬∀ (meter : Meter) (history : List Moment) (samples : List RawSample)
      (t0 : Nat) (mac : Mac) (side : Side), meter.readings = [] →
      DaySamples samples t0 mac (meter.run history).readings →
      rollupCredit side mac.text (rollupDouble t0 (t0 + 86399)
          (samples.map RawSample.line)) ≤
        movedBetween side (meter.run history).readings := by
  intro always
  have day : DaySamples _ 0 laptopMac ((meterAt (2 ^ 53)).run
      [.sample 1, .transfer .rx 3, .sample 2]).readings :=
    daySamples_readings laptopMac (by decide) (by decide)
  have bound := always (meterAt (2 ^ 53)) _ _ 0 laptopMac .rx rfl day
  rw [rollupDouble, readSamples_lines (fun s => day.legible)] at bound
  revert bound
  decide +kernel

end Hnc.Stats
