import Hnc.Httpd.DeviceRows
import Hnc.Lib.Runs
import Mathlib.Data.Rat.Cast.Order

/-!
# The rates over the polls

Every client that polls the device list moves the samples of all devices on.
A poll that comes too early for a device leaves its sample alone, so that the
rates that the others are shown do not depend on it; and the rates never promise
more bytes than the counter grew by.
-/

namespace Httpd.DeviceList

open Posix
open KeyMap

abbrev Samples := Map Text RateSample

/-- A call of `buildDevicesPayload`: the files as they are then, the order of the
blacklist and the time. -/
structure Poll where
  files : Files
  visit : Visit
  now : Int
  /-- The poll is an additional one. -/
  extra : Bool

/-- The two counters of a device. -/
inductive Direction where
  | rx
  | tx
deriving DecidableEq

namespace Direction

def bytesKey : Direction → Text
  | rx => "rx_bytes".toList
  | tx => "tx_bytes".toList

def bpsKey : Direction → Text
  | rx => "rx_bps".toList
  | tx => "tx_bps".toList

end Direction

def RateSample.bytes (sample : RateSample) : Direction → Int
  | .rx => sample.rxBytes
  | .tx => sample.txBytes

def RateSample.lastBps (sample : RateSample) : Direction → Int
  | .rx => sample.lastRxBps
  | .tx => sample.lastTxBps

/-- The entry of `devices.json`, when it is an object. -/
def Files.device (files : Files) (mac : Text) : Option Object :=
  (files.devicesMap.lookup mac).bind Value.asMap

namespace Poll

/-- The samples behind a poll. -/
def advance (samples : Samples) (poll : Poll) : Samples :=
  (buildDevicesPayload poll.files poll.visit samples poll.now).2

def payload (samples : Samples) (poll : Poll) : Payload :=
  (buildDevicesPayload poll.files poll.visit samples poll.now).1

/-- The row of a device in the payload. -/
def row (mac : Text) (samples : Samples) (poll : Poll) : Option Object :=
  (poll.files.device mac).map fun dev =>
    (poll.files.deviceRow samples poll.now mac dev).1

/-- The counter of a device as it is read from `devices.json`. -/
def counter (mac : Text) (dir : Direction) (poll : Poll) : Int :=
  toInt64 ((poll.files.device mac).bind fun dev => dev.lookup dir.bytesKey)

/-- The rate that a poll shows for a device. -/
def shownBps (mac : Text) (dir : Direction) (samples : Samples)
    (poll : Poll) : ℚ :=
  match (poll.row mac samples).bind fun row => row.lookup dir.bpsKey with
  | some (.number n) => n
  | _ => 0

/-- The rate times the length of the window, for a poll that computes one. -/
def window (mac : Text) (dir : Direction) (samples : Samples) (poll : Poll) :
    ℚ :=
  match samples.lookup mac with
  | some prev =>
      if 2 ≤ poll.now - prev.ts ∧ poll.now - prev.ts ≤ 120 then
        poll.shownBps mac dir samples * ((poll.now - prev.ts : Int) : ℚ)
      else 0
  | none => 0

/-- What the stored counter of a device grows by at a poll. -/
def increase (mac : Text) (dir : Direction) (samples : Samples)
    (poll : Poll) : ℚ :=
  match samples.lookup mac, (poll.advance samples).lookup mac with
  | some prev, some next => ((max 0 (next.bytes dir - prev.bytes dir) : Int) : ℚ)
  | _, _ => 0

/-- The poll comes less than two seconds after the stored sample. -/
def Early (mac : Text) (samples : Samples) (poll : Poll) : Prop :=
  ∃ prev, samples.lookup mac = some prev ∧ poll.now - prev.ts < 2

end Poll

/-- The polls with the row of a device that each returns. -/
def answers (mac : Text) : Samples → List Poll → List (Poll × Option Object)
  | _, [] => []
  | samples, poll :: rest =>
      (poll, poll.row mac samples) :: answers mac (poll.advance samples) rest

/-- The sum of an amount over the polls. -/
def total (amount : Samples → Poll → ℚ) : Samples → List Poll → ℚ
  | _, [] => 0
  | samples, poll :: rest =>
      amount samples poll + total amount (poll.advance samples) rest

section Rates

variable (prev : RateSample) (now rx tx : Int)

/-- The rates that are returned are those that the sample keeps. -/
theorem rates_snd (prev : Option RateSample) :
    (rates prev now rx tx).2 =
      ((rates prev now rx tx).1.lastRxBps,
        (rates prev now rx tx).1.lastTxBps) := by
  cases prev with
  | none => rfl
  | some prev =>
      simp only [rates]
      split
      · rfl
      · split
        · rfl
        · rfl

theorem rates_early (early : now - prev.ts < 2) :
    (rates (some prev) now rx tx).1 = prev := by
  have short : ¬(2 ≤ now - prev.ts ∧ now - prev.ts ≤ 120) := by omega
  simp only [rates, if_neg short, if_pos early]

theorem rates_window
    (inside : 2 ≤ now - prev.ts ∧ now - prev.ts ≤ 120) :
    (rates (some prev) now rx tx).1 =
      ⟨rx, tx, now, grown rx prev.rxBytes / (now - prev.ts),
        grown tx prev.txBytes / (now - prev.ts)⟩ := by
  simp only [rates, if_pos inside]

theorem grown_nonneg (now before : Int) : 0 ≤ grown now before :=
  Int.le_max_left _ _

/-- Without an overflow the growth is the positive part of the difference. -/
theorem grown_eq {now before : Int} (small : 0 ≤ now ∧ now < 2 ^ 63)
    (smallBefore : 0 ≤ before ∧ before < 2 ^ 63) :
    grown now before = max 0 (now - before) := by
  rw [grown, Int.bmod_eq_of_le (by omega) (by omega)]

/-- The rates of a sample are not negative. -/
def RateSample.Fair (sample : RateSample) : Prop :=
  ∀ dir, 0 ≤ sample.lastBps dir

theorem rates_fair {prev : Option RateSample}
    (fair : ∀ sample, prev = some sample → sample.Fair) :
    (rates prev now rx tx).1.Fair := by
  have fresh : RateSample.Fair ⟨rx, tx, now, 0, 0⟩ := by
    intro dir
    cases dir <;> exact Int.le_refl 0
  cases prev with
  | none => exact fresh
  | some prev =>
      by_cases inside : 2 ≤ now - prev.ts ∧ now - prev.ts ≤ 120
      · rw [rates_window prev now rx tx inside]
        have positive : 0 ≤ now - prev.ts := by omega
        intro dir
        cases dir with
        | rx => exact Int.ediv_nonneg (grown_nonneg _ _) positive
        | tx => exact Int.ediv_nonneg (grown_nonneg _ _) positive
      · by_cases early : now - prev.ts < 2
        · rw [rates_early prev now rx tx early]
          exact fair prev rfl
        · simp only [rates, if_neg inside, if_neg early]
          exact fresh

end Rates

namespace Files

variable (files : Files) (samples : Samples) (now : Int) (mac : Text)
  (dev : Object)

theorem lookup_bps_deviceRow (dir : Direction) :
    (files.deviceRow samples now mac dev).1.lookup dir.bpsKey =
      some (.number ((files.deviceRow samples now mac dev).2.lastBps dir)) := by
  have kept := rates_snd now
    (toInt64 ((files.mergedRow now mac dev).lookup "rx_bytes".toList))
    (toInt64 ((files.mergedRow now mac dev).lookup "tx_bytes".toList))
    (samples.lookup mac)
  simp only [deviceRow]
  cases dir with
  | rx =>
      have here : Direction.rx.bpsKey = "rx_bps".toList := rfl
      exact congrArg (fun shown => some (Value.number (shown.1 : Int))) kept
  | tx =>
      have here : Direction.tx.bpsKey = "tx_bps".toList := rfl
      exact congrArg (fun shown => some (Value.number (shown.2 : Int))) kept

/-- The counters of a row are those of the device. -/
theorem lookup_bytes_mergedRow (dir : Direction) :
    (files.mergedRow now mac dev).lookup dir.bytesKey =
      dev.lookup dir.bytesKey := by
  have notRule : dir.bytesKey ∉ ruleKeys := by cases dir <;> decide
  have other : dir.bytesKey ≠ "mac".toList ∧ dir.bytesKey ≠ "hostname".toList ∧
      dir.bytesKey ≠ "hostname_src".toList ∧ dir.bytesKey ≠ "status".toList ∧
      dir.bytesKey ≠ "online".toList := by
    cases dir <;> decide
  have base : (dev.foldl (fun row k v => row.insert k v)
      ((∅ : Object).insert "mac".toList (.string mac))).lookup dir.bytesKey =
        dev.lookup dir.bytesKey := by
    rw [lookup_fields, lookup_insert_eq, if_neg other.1]
    exact Option.or_none
  simp only [mergedRow]
  rw [lookup_insert_eq, if_neg other.2.2.2.2, lookup_insert_eq,
    if_neg other.2.2.2.1, lookup_named other.2.1 other.2.2.1, laidRow]
  cases (lookupOr files.deviceRules mac (toLower mac)).bind Value.asMap with
  | none => exact base
  | some rule =>
      rw [lookup_overlay, if_neg notRule]
      exact base

theorem sample_deviceRow :
    (files.deviceRow samples now mac dev).2 =
      (rates (samples.lookup mac) now
        (toInt64 (dev.lookup Direction.rx.bytesKey))
        (toInt64 (dev.lookup Direction.tx.bytesKey))).1 := by
  rw [← lookup_bytes_mergedRow files now mac dev .rx,
    ← lookup_bytes_mergedRow files now mac dev .tx]
  rfl

theorem lookup_bps_ruleOnlyRow (mac : Text) (rule : Option Object)
    (dir : Direction) :
    (files.ruleOnlyRow mac rule).lookup dir.bpsKey = some (.number 0) := by
  have notRule : dir.bpsKey ∉ "ip".toList :: ruleKeys := by cases dir <;> decide
  have other : dir.bpsKey ≠ "hostname".toList ∧
      dir.bpsKey ≠ "hostname_src".toList ∧ dir.bpsKey ≠ "status".toList := by
    cases dir <;> decide
  unfold ruleOnlyRow
  rw [lookup_insert_eq, lookup_named other.1 other.2.1]
  cases rule with
  | none => cases dir <;> rfl
  | some rule =>
      rw [lookup_overlay]
      cases dir <;> rfl

theorem mem_devices {mac : Text} {dev : Object} :
    (mac, dev) ∈ files.devices ↔ files.device mac = some dev := by
  rw [devices, device, List.mem_filterMap]
  constructor
  · rintro ⟨entry, member, isObject⟩
    obtain ⟨fields, asMap, same⟩ := Option.map_eq_some_iff.mp isObject
    cases same
    rw [AList.mem_lookup_iff.mpr member]
    exact asMap
  · intro found
    obtain ⟨value, here, asMap⟩ := Option.bind_eq_some_iff.mp found
    refine ⟨⟨mac, value⟩, AList.mem_lookup_iff.mp here, ?_⟩
    exact Option.map_eq_some_iff.mpr ⟨dev, asMap, rfl⟩

theorem nodup_devices : (files.devices.map Prod.fst).Nodup := by
  have keys : files.devicesMap.entries.Pairwise fun e e' => e.1 ≠ e'.1 :=
    List.pairwise_map.mp files.devicesMap.nodupKeys
  rw [List.Nodup, List.pairwise_map, devices, List.pairwise_filterMap]
  apply keys.imp
  intro e e' different device isObject device' isObject'
  obtain ⟨_, _, rfl⟩ := Option.map_eq_some_iff.mp isObject
  obtain ⟨_, _, rfl⟩ := Option.map_eq_some_iff.mp isObject'
  exact different

theorem mem_rows {visit : Visit} {row : Object}
    (member : row ∈ files.rows visit samples now) :
    (∃ mac dev, files.device mac = some dev ∧
      row = (files.deviceRow samples now mac dev).1) ∨
    ∃ mac rule, row = files.ruleOnlyRow mac rule := by
  have appended (items : List (Text × Option Object)) (listed : Listed)
      (out : row ∈ (items.foldl files.appendRuleOnly listed).out) :
      row ∈ listed.out ∨ ∃ mac rule, row = files.ruleOnlyRow mac rule := by
    induction items generalizing listed with
    | nil => exact .inl out
    | cons item items induction =>
        rcases induction (files.appendRuleOnly listed item) out with here | later
        · rw [appendRuleOnly] at here
          split at here
          · exact .inl here
          · rcases List.mem_append.mp here with before | last
            · exact .inl before
            · exact .inr ⟨_, _, List.mem_singleton.mp last⟩
        · exact .inr later
  rcases appended _ _ member with device | rule
  · obtain ⟨⟨mac, dev⟩, known, rfl⟩ := List.mem_map.mp device
    exact .inl ⟨mac, dev, files.mem_devices.mp known, rfl⟩
  · exact .inr rule

theorem deviceRow_mem_rows (visit : Visit) {mac : Text} {dev : Object}
    (found : files.device mac = some dev) :
    (files.deviceRow samples now mac dev).1 ∈ files.rows visit samples now := by
  have kept (items : List (Text × Option Object)) (listed : Listed)
      {row : Object} (out : row ∈ listed.out) :
      row ∈ (items.foldl files.appendRuleOnly listed).out := by
    induction items generalizing listed with
    | nil => exact out
    | cons item items induction =>
        apply induction
        rw [appendRuleOnly]
        split
        · exact out
        · exact List.mem_append_left _ out
  apply kept
  exact List.mem_map.mpr ⟨(mac, dev), files.mem_devices.mpr found, rfl⟩

end Files

/-! ### One poll -/

namespace Poll

variable {mac : Text} {samples : Samples} {poll : Poll}

theorem lookup_advance (mac : Text) (samples : Samples) (poll : Poll) :
    (poll.advance samples).lookup mac =
      (poll.files.device mac).map fun dev =>
        (poll.files.deviceRow samples poll.now mac dev).2 := by
  rw [advance, buildDevicesPayload]
  cases found : poll.files.device mac with
  | none =>
      apply lookup_foldl_insert_of_not_mem Prod.fst fun device =>
        (poll.files.deviceRow samples poll.now device.1 device.2).2
      intro member
      obtain ⟨⟨key, dev⟩, known, rfl⟩ := List.mem_map.mp member
      rw [poll.files.mem_devices.mp known] at found
      cases found
  | some dev =>
      exact lookup_foldl_insert Prod.fst
        (fun device =>
          (poll.files.deviceRow samples poll.now device.1 device.2).2)
        poll.files.nodup_devices (poll.files.mem_devices.mpr found) ∅

/-- The next sample of a device that is present. -/
def sample (mac : Text) (samples : Samples) (poll : Poll) : RateSample :=
  (rates (samples.lookup mac) poll.now (poll.counter mac .rx)
    (poll.counter mac .tx)).1

theorem sample_eq {dev : Object} (found : poll.files.device mac = some dev) :
    (poll.files.deviceRow samples poll.now mac dev).2 =
      poll.sample mac samples := by
  rw [Files.sample_deviceRow, sample, counter, counter, found]
  rfl

theorem lookup_advance_present (samples : Samples)
    (present : (poll.files.device mac).isSome) :
    (poll.advance samples).lookup mac = some (poll.sample mac samples) := by
  obtain ⟨dev, found⟩ := Option.isSome_iff_exists.mp present
  rw [lookup_advance, found, Option.map_some, sample_eq found]

theorem shownBps_eq (present : (poll.files.device mac).isSome)
    (dir : Direction) :
    poll.shownBps mac dir samples = (poll.sample mac samples).lastBps dir := by
  obtain ⟨dev, found⟩ := Option.isSome_iff_exists.mp present
  rw [shownBps, row, found, Option.map_some, Option.bind_some,
    Files.lookup_bps_deviceRow, sample_eq found]

/-- A row depends on the samples only through that of the device. -/
theorem row_congr {samples samples' : Samples}
    (same : samples.lookup mac = samples'.lookup mac) (poll : Poll) :
    poll.row mac samples = poll.row mac samples' := by
  rw [row]
  congr 1
  funext dev
  rw [Files.deviceRow, Files.deviceRow, same]

theorem sample_congr {samples samples' : Samples}
    (same : samples.lookup mac = samples'.lookup mac) (poll : Poll) :
    poll.sample mac samples = poll.sample mac samples' := by
  rw [sample, sample, same]

theorem lookup_advance_early (early : poll.Early mac samples)
    (present : (poll.files.device mac).isSome) :
    (poll.advance samples).lookup mac = samples.lookup mac := by
  obtain ⟨prev, found, short⟩ := early
  rw [lookup_advance_present samples present, sample, found,
    rates_early prev _ _ _ short]

/-- The rates of all samples are not negative. -/
def Fair (samples : Samples) : Prop :=
  ∀ mac sample, samples.lookup mac = some sample → sample.Fair

theorem fair_deviceRow (fair : Fair samples) (poll : Poll) (mac : Text)
    (dev : Object) :
    (poll.files.deviceRow samples poll.now mac dev).2.Fair := by
  exact rates_fair _ _ _ (fair mac)

theorem fair_advance (fair : Fair samples) (poll : Poll) :
    Fair (poll.advance samples) := by
  intro mac sample found
  rw [lookup_advance] at found
  obtain ⟨dev, _, rfl⟩ := Option.map_eq_some_iff.mp found
  exact fair_deviceRow fair poll mac dev

theorem bps_nonneg (fair : Fair samples) (poll : Poll) {row : Object}
    (shown : row ∈ (poll.payload samples).devices) (dir : Direction) :
    ∃ bps : ℚ, 0 ≤ bps ∧ row.lookup dir.bpsKey = some (.number bps) := by
  have member : row ∈ poll.files.rows poll.visit samples poll.now :=
    (List.mergeSort_perm _ _).mem_iff.mp shown
  rcases poll.files.mem_rows samples poll.now member with
    ⟨mac, dev, _, rfl⟩ | ⟨mac, rule, rfl⟩
  · refine ⟨_, ?_, Files.lookup_bps_deviceRow _ _ _ _ _ dir⟩
    exact_mod_cast fair_deviceRow fair poll mac dev dir
  · exact ⟨0, le_refl 0, Files.lookup_bps_ruleOnlyRow _ _ _ dir⟩

theorem row_mem_payload {row : Object} (here : poll.row mac samples = some row) :
    row ∈ (poll.payload samples).devices := by
  obtain ⟨dev, found, rfl⟩ := Option.map_eq_some_iff.mp here
  apply (List.mergeSort_perm _ _).mem_iff.mpr
  exact poll.files.deviceRow_mem_rows samples poll.now poll.visit found

/-- The stored counter is an `int64` that is not negative. -/
def Counts (mac : Text) (dir : Direction) (samples : Samples) : Prop :=
  ∀ sample, samples.lookup mac = some sample →
    0 ≤ sample.bytes dir ∧ sample.bytes dir < 2 ^ 63

theorem parsedInt_lt (text : Text) : parsedInt text < 2 ^ 63 := by
  simp only [parsedInt]
  split_ifs
  · decide
  · omega
  · omega
  · decide
  · omega
  · omega

theorem counter_lt (mac : Text) (dir : Direction) (poll : Poll) :
    poll.counter mac dir < 2 ^ 63 := by
  unfold counter toInt64
  split
  · omega
  · exact parsedInt_lt _
  · decide

/-- The counter of a new sample is stored, or the sample is kept. -/
theorem bytes_sample (mac : Text) (dir : Direction) (samples : Samples)
    (poll : Poll) :
    (poll.sample mac samples).bytes dir = poll.counter mac dir ∨
      samples.lookup mac = some (poll.sample mac samples) := by
  rw [sample]
  cases samples.lookup mac with
  | none => exact .inl (by cases dir <;> rfl)
  | some prev =>
      by_cases inside : 2 ≤ poll.now - prev.ts ∧ poll.now - prev.ts ≤ 120
      · rw [rates_window _ _ _ _ inside]
        exact .inl (by cases dir <;> rfl)
      · by_cases early : poll.now - prev.ts < 2
        · rw [rates_early _ _ _ _ early]
          exact .inr rfl
        · simp only [rates, if_neg inside, if_neg early]
          exact .inl (by cases dir <;> rfl)

section

variable {dir : Direction} (counts : Counts mac dir samples)
  (present : (poll.files.device mac).isSome) (counter : 0 ≤ poll.counter mac dir)
include counts present counter

theorem counts_advance :
    Counts mac dir (poll.advance samples) := by
  intro sample found
  rw [lookup_advance_present samples present] at found
  cases found
  rcases bytes_sample mac dir samples poll with new | kept
  · rw [new]
    exact ⟨counter, counter_lt mac dir poll⟩
  · exact counts _ kept

/-- A window gives no more bytes than the counter grew by. -/
theorem window_le_increase :
    poll.window mac dir samples ≤ poll.increase mac dir samples := by
  rw [window, increase, lookup_advance_present samples present,
    shownBps_eq present]
  cases found : samples.lookup mac with
  | none => exact le_refl 0
  | some prev =>
      dsimp only
      split
      · rename_i inside
        have grew := grown_eq ⟨counter, counter_lt mac dir poll⟩
          (counts prev found)
        have rounded : grown (poll.counter mac dir) (prev.bytes dir) /
            (poll.now - prev.ts) * (poll.now - prev.ts) ≤
              max 0 (poll.counter mac dir - prev.bytes dir) := by
          rw [← grew]
          exact Int.ediv_mul_le _ (by omega)
        rw [sample, found, rates_window _ _ _ _ inside]
        cases dir <;> exact_mod_cast rounded
      · exact_mod_cast Int.le_max_left _ _

end

end Poll

/-- The additional polls change nothing for the others. -/
theorem answers_filter {mac : Text} {samples alone : Samples}
    {polls : List Poll} (same : samples.lookup mac = alone.lookup mac)
    (present : ∀ poll ∈ polls, (poll.files.device mac).isSome)
    (early : Runs.Guarded Poll.advance
      (fun samples poll => poll.extra = true → poll.Early mac samples)
      samples polls) :
    (answers mac samples polls).filter (fun answer => !answer.1.extra) =
      answers mac alone (polls.filter fun poll => !poll.extra) := by
  induction polls generalizing samples alone with
  | nil => rfl
  | cons poll rest induction =>
      have here := present poll List.mem_cons_self
      have later := fun other member =>
        present other (List.mem_cons_of_mem poll member)
      rw [answers]
      cases extra : poll.extra with
      | true =>
          have kept := Poll.lookup_advance_early (early.1 extra) here
          rw [List.filter_cons_of_neg (by simp [extra]),
            List.filter_cons_of_neg (by simp [extra])]
          exact induction (kept.trans same) later early.2
      | false =>
          rw [List.filter_cons_of_pos (by simp [extra]),
            List.filter_cons_of_pos (by simp [extra]), Poll.row_congr same]
          congr 1
          apply induction _ later early.2
          rw [Poll.lookup_advance_present _ here,
            Poll.lookup_advance_present _ here, Poll.sample_congr same]

theorem total_window_le {mac : Text} {dir : Direction} {samples : Samples}
    {polls : List Poll} (counts : Poll.Counts mac dir samples)
    (present : ∀ poll ∈ polls, (poll.files.device mac).isSome)
    (counters : ∀ poll ∈ polls, 0 ≤ poll.counter mac dir) :
    total (Poll.window mac dir) samples polls ≤
      total (Poll.increase mac dir) samples polls := by
  induction polls generalizing samples with
  | nil => exact le_refl 0
  | cons poll rest induction =>
      have here := present poll List.mem_cons_self
      have counter := counters poll List.mem_cons_self
      apply add_le_add (Poll.window_le_increase counts here counter)
      exact induction (Poll.counts_advance counts here counter)
        (fun other member => present other (List.mem_cons_of_mem poll member))
        (fun other member => counters other (List.mem_cons_of_mem poll member))

/-- Over every schedule of polls that all find the device in `devices.json`: polls
that come less than two seconds after its stored sample leave the row that the
others return as it is; all rates of all rows are not negative; and the rates
times the lengths of their windows give no more bytes than the stored counters
grew by. -/
theorem extra_polls_keep_rates (mac : Text) (polls : List Poll)
    (present : ∀ poll ∈ polls, (poll.files.device mac).isSome)
    (early : Runs.Guarded Poll.advance
      (fun samples poll => poll.extra = true → poll.Early mac samples)
      ∅ polls) :
    (answers mac ∅ polls).filter (fun answer => !answer.1.extra) =
      answers mac ∅ (polls.filter fun poll => !poll.extra) ∧
    (∀ samples ∈ Runs.visited Poll.advance ∅ polls, ∀ poll : Poll,
      (∀ row, poll.row mac samples = some row →
        row ∈ (poll.payload samples).devices) ∧
      ∀ row ∈ (poll.payload samples).devices, ∀ dir : Direction,
        ∃ bps : ℚ, 0 ≤ bps ∧ row.lookup dir.bpsKey = some (.number bps)) ∧
    ∀ dir, (∀ poll ∈ polls, 0 ≤ poll.counter mac dir) →
      total (Poll.window mac dir) ∅ polls ≤
        total (Poll.increase mac dir) ∅ polls := by
  have none_ : Poll.Fair ∅ := by
    intro mac sample found
    cases found
  have fair := Runs.visited_induction Poll.Fair
    (fun samples poll fair => Poll.fair_advance fair poll) none_ polls
  refine ⟨answers_filter rfl present early, ?_, ?_⟩
  · intro samples member poll
    refine ⟨fun row => Poll.row_mem_payload, ?_⟩
    intro row shown dir
    exact Poll.bps_nonneg (fair samples member) poll shown dir
  · intro dir counters
    apply total_window_le _ present counters
    intro sample found
    cases found

/-- A poll of a device with a counter. -/
def pollAt (now : Int) (rx : ℚ) (extra : Bool) : Poll where
  files :=
    { devicesRaw := some (.object [("a".toList, .object
        [("rx_bytes".toList, .number rx)])])
      rulesRaw := none
      namesRaw := none }
  visit := ⟨id, fun _ => .refl _⟩
  now := now
  extra := extra

/-- With a poll in between the device is shown the same rate, which gives the
bytes of its window. -/
theorem extra_poll_sample :
    (answers "a".toList ∅
        [pollAt 0 0 false, pollAt 1 60 true, pollAt 2 100 false]).filter
      (fun answer => !answer.1.extra) =
      answers "a".toList ∅ [pollAt 0 0 false, pollAt 2 100 false] ∧
    total (Poll.window "a".toList .rx) ∅
        [pollAt 0 0 false, pollAt 1 60 true, pollAt 2 100 false] ≤
      total (Poll.increase "a".toList .rx) ∅
        [pollAt 0 0 false, pollAt 1 60 true, pollAt 2 100 false] := by
  have main := extra_polls_keep_rates "a".toList
    [pollAt 0 0 false, pollAt 1 60 true, pollAt 2 100 false] (by
      intro poll member
      simp only [List.mem_cons, List.not_mem_nil, or_false] at member
      rcases member with rfl | rfl | rfl <;> rfl)
    ⟨fun extra => absurd extra (by decide),
      fun _ => ⟨⟨0, 0, 0, 0, 0⟩, rfl, by decide⟩,
      fun extra => absurd extra (by decide), trivial⟩
  refine ⟨main.1, main.2.2 .rx ?_⟩
  intro poll member
  simp only [List.mem_cons, List.not_mem_nil, or_false] at member
  rcases member with rfl | rfl | rfl <;> decide

end Httpd.DeviceList
