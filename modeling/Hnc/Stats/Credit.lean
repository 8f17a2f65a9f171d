import Hnc.Lib.Runs
import Hnc.Stats.StatsRollup
import Mathlib.Algebra.Order.BigOperators.Group.List
import Mathlib.Algebra.Order.Group.Nat

/-!
# Whose traffic the rollup credits

Counters belong to addresses, samples to devices, and an address passes from
one device to another.  The account of a device compares what the rollup has
credited so far with what the device has itself received or sent; `due` is the
count of its last sample of the day with its own traffic since then.  A sample
stays within the account as long as no device takes an address whose counter
is ahead of what is due.
-/

namespace Hnc.Stats

open Posix JsonText IptablesManager

/-- The two directions that are counted. -/
inductive Side where
  | rx
  | tx
deriving DecidableEq, Repr

namespace Side

def bytes (side : Side) (chain : List Counted) (ip : Text) : Nat :=
  match side with
  | .rx => rxBytes chain ip
  | .tx => txBytes chain ip

/-- The address under which a packet counts. -/
def address (side : Side) (packet : Packet) : Text :=
  match side with
  | .rx => packet.dst
  | .tx => packet.src

def ofSample (side : Side) (sample : RawSample) : Nat :=
  match side with
  | .rx => sample.rx
  | .tx => sample.tx

def last (side : Side) (state : Rollup) : Text → Option Nat :=
  match side with
  | .rx => state.lastRx
  | .tx => state.lastTx

def sum (side : Side) (state : Rollup) : Text → Nat :=
  match side with
  | .rx => state.sumRx
  | .tx => state.sumTx

end Side

/-- The counters, the leases, the raw file, and for each device what it has
itself transferred today and what is due. -/
structure State where
  tables : Tables
  leases : Leases
  raw : List Text
  own : Side → Mac → Nat
  due : Side → Mac → Option Nat

inductive Event where
  | lease (mac : Mac) (ip : Ipv4)
  | leave (mac : Mac)
  | forward (packet : Packet)
  | ensureStats (ip : Ipv4)
  | sample (ts : Nat)

/-- The traffic of a device in a packet. -/
def share (leases : Leases) (side : Side) (packet : Packet) (mac : Mac) : Nat :=
  if leases.any fun lease =>
      lease.1 = mac && lease.2.text == side.address packet
  then packet.bytes else 0

/-- The sample of a device, when it gets one. -/
def sampleOf (state : State) (ts : Nat) (mac : Mac) : Option RawSample :=
  (aggregated ts state.leases (statsAll state.tables.hncStats)).find?
    fun sample => sample.mac = mac.text

def step (state : State) : Event → State
  | .lease mac ip =>
      { state with
        leases := state.leases.filter (fun lease => lease.1 ≠ mac) ++
          [(mac, ip)] }
  | .leave mac =>
      { state with leases := state.leases.filter fun lease => lease.1 ≠ mac }
  | .forward packet =>
      { state with
        tables :=
          { state.tables with
            hncStats := countPacket packet state.tables.hncStats }
        own := fun side mac =>
          state.own side mac + share state.leases side packet mac
        due := fun side mac =>
          (state.due side mac).map (· + share state.leases side packet mac) }
  | .ensureStats ip =>
      { state with
        tables := IptablesManager.ensureStats ip.text state.tables }
  | .sample ts =>
      { state with
        raw := statsSample ts state.leases state.tables.hncStats state.raw
        due := fun side mac =>
          match sampleOf state ts mac with
          | some sample => some (side.ofSample sample)
          | none => state.due side mac }

/-- An address belongs to one device at a time, and samples are of the day. -/
def Regular (ds de : Nat) (state : State) : Event → Prop
  | .lease mac ip => ∀ lease ∈ state.leases, lease.2 = ip → lease.1 = mac
  | .sample ts => ds ≤ ts ∧ ts ≤ de
  | _ => True

/-- A device that has been sampled today takes no address whose counters are
ahead of its last sample and its own traffic since. -/
def NoJump (state : State) : Event → Prop
  | .lease mac ip =>
      ∀ side, ∀ due ∈ state.due side mac,
        side.bytes state.tables.hncStats ip.text ≤ due
  | _ => True

instance (ds de : Nat) (state : State) (event : Event) :
    Decidable (Regular ds de state event) := by
  cases event <;> unfold Regular <;> infer_instance

/-- The morning: nothing of this day in the raw file, nothing transferred. -/
structure Morning (ds de : Nat) (state : State) : Prop where
  devices : (state.leases.map Prod.fst).Nodup
  addresses : (state.leases.map Prod.snd).Nodup
  raw : ∀ line ∈ state.raw, readSample ds de line = none
  own : ∀ side mac, state.own side mac = 0
  due : ∀ side mac, state.due side mac = none

/-- Whatever lines of other days follow, the rollup credits a device with no
more than it has transferred. -/
def CreditsOwn (ds de : Nat) (state : State) : Prop :=
  ∀ later : List Text, (∀ line ∈ later, readSample ds de line = none) →
    ∀ mac : Mac, ∀ row ∈ statsRollup ds de (state.raw ++ later),
      row.mac = mac.text →
        row.rx ≤ state.own .rx mac ∧ row.tx ≤ state.own .tx mac

/-- What the rollup remembers and has credited, against what is due and the
device's own traffic. -/
inductive Covered : Option Nat → Option Nat → Nat → Nat → Prop where
  | fresh (own : Nat) : Covered none none 0 own
  | counted {last due sum own : Nat} (low : last ≤ due)
      (within : sum + due ≤ own + last) :
      Covered (some last) (some due) sum own

namespace Covered

variable {last due : Option Nat} {sum own : Nat}

theorem sum_le (covered : Covered last due sum own) : sum ≤ own := by
  cases covered with
  | fresh => exact Nat.zero_le own
  | counted low within => omega

theorem grow (covered : Covered last due sum own) (bytes : Nat) :
    Covered last (due.map (· + bytes)) sum (own + bytes) := by
  cases covered with
  | fresh => exact .fresh _
  | counted low within =>
      rw [Option.map_some]
      exact .counted (by omega) (by omega)

/-- A sample within what is due stays within the own traffic. -/
theorem sample (covered : Covered last due sum own) {cur : Nat}
    (within : ∀ limit ∈ due, cur ≤ limit) :
    Covered (some cur) (some cur) (credited last sum cur) own := by
  cases covered with
  | fresh => exact .counted (Nat.le_refl _) (by simp [credited])
  | counted low account =>
      have limit := within _ rfl
      exact .counted (Nat.le_refl _) (by simp only [credited]; omega)

end Covered

theorem Side.last_add (side : Side) (state : Rollup) (sample : RawSample)
    (mac : Text) :
    side.last (state.add sample) mac =
      if mac = sample.mac then some (side.ofSample sample)
      else side.last state mac := by
  cases side <;>
    simp [Side.last, Side.ofSample, Rollup.add, Function.update_apply]

theorem Side.sum_add (side : Side) (state : Rollup) (sample : RawSample)
    (mac : Text) :
    side.sum (state.add sample) mac =
      if mac = sample.mac then
        credited (side.last state mac) (side.sum state mac)
          (side.ofSample sample)
      else side.sum state mac := by
  by_cases same : mac = sample.mac
  · cases side <;> simp [Side.sum, Side.last, Side.ofSample, Rollup.add, same]
  · cases side <;> simp [Side.sum, Rollup.add, same]

theorem foldl_add_absent {samples : List RawSample} {mac : Text}
    (absent : ∀ sample ∈ samples, sample.mac ≠ mac) (side : Side)
    (state : Rollup) :
    side.last (samples.foldl Rollup.add state) mac = side.last state mac ∧
      side.sum (samples.foldl Rollup.add state) mac = side.sum state mac := by
  induction samples generalizing state with
  | nil => exact ⟨rfl, rfl⟩
  | cons sample rest induction =>
      have other : mac ≠ sample.mac := (absent sample (by simp)).symm
      obtain ⟨last, sum⟩ := induction
        (fun next member => absent next (by simp [member])) (state.add sample)
      rw [List.foldl_cons, last, sum, side.last_add, side.sum_add, if_neg other,
        if_neg other]
      exact ⟨rfl, rfl⟩

/-- Each device has at most one line in a sample. -/
theorem foldl_add_single {samples : List RawSample} {sample : RawSample}
    (distinct : (samples.map RawSample.mac).Nodup) (member : sample ∈ samples)
    (side : Side) (state : Rollup) :
    side.last (samples.foldl Rollup.add state) sample.mac =
        some (side.ofSample sample) ∧
      side.sum (samples.foldl Rollup.add state) sample.mac =
        credited (side.last state sample.mac) (side.sum state sample.mac)
          (side.ofSample sample) := by
  induction samples generalizing state with
  | nil => cases member
  | cons first rest induction =>
      simp only [List.map_cons, List.nodup_cons] at distinct
      rw [List.foldl_cons]
      rcases List.mem_cons.mp member with rfl | later
      · have absent : ∀ next ∈ rest, next.mac ≠ sample.mac := by
          intro next inRest same
          exact distinct.1 (same ▸ List.mem_map_of_mem inRest)
        obtain ⟨last, sum⟩ := foldl_add_absent absent side (state.add sample)
        rw [last, sum, side.last_add, side.sum_add, if_pos rfl, if_pos rfl]
        exact ⟨rfl, rfl⟩
      · have other : sample.mac ≠ first.mac := by
          intro same
          exact distinct.1 (same ▸ List.mem_map_of_mem later)
        obtain ⟨last, sum⟩ := induction distinct.2 later (state.add first)
        rw [last, sum, side.last_add, side.sum_add, if_neg other, if_neg other]
        exact ⟨rfl, rfl⟩

/-! ### Addresses and devices -/

structure Leased (leases : Leases) : Prop where
  devices : (leases.map Prod.fst).Nodup
  addresses : (leases.map Prod.snd).Nodup

variable {mac : Mac} {ip : Ipv4}

namespace Leased

variable {leases : Leases}

theorem device_unique (leased : Leased leases) {left right : Ipv4}
    (first : (mac, left) ∈ leases) (second : (mac, right) ∈ leases) :
    left = right := by
  have same := List.inj_on_of_nodup_map leased.devices first second rfl
  exact (Prod.ext_iff.mp same).2

theorem address_unique (leased : Leased leases) {left right : Mac}
    (first : (left, ip) ∈ leases) (second : (right, ip) ∈ leases) :
    left = right := by
  have same := List.inj_on_of_nodup_map leased.addresses first second rfl
  exact (Prod.ext_iff.mp same).1

theorem leave (leased : Leased leases) (mac : Mac) :
    Leased (leases.filter fun lease => lease.1 ≠ mac) := by
  have sub := List.filter_sublist (p := fun lease : Mac × Ipv4 => lease.1 ≠ mac)
    (l := leases)
  exact ⟨leased.devices.sublist (sub.map _), leased.addresses.sublist (sub.map _)⟩

theorem lease (leased : Leased leases)
    (free : ∀ other ∈ leases, other.2 = ip → other.1 = mac) :
    Leased (leases.filter (fun other => other.1 ≠ mac) ++ [(mac, ip)]) := by
  obtain ⟨devices, addresses⟩ := leased.leave mac
  constructor
  · rw [List.map_append, List.nodup_append]
    refine ⟨devices, by simp, ?_⟩
    simp
  · rw [List.map_append, List.nodup_append]
    refine ⟨addresses, by simp, ?_⟩
    intro left inLeft right inRight same
    simp only [List.map_cons, List.map_nil, List.mem_singleton] at inRight
    simp only [List.mem_map, List.mem_filter] at inLeft
    obtain ⟨other, ⟨held, kept⟩, rfl⟩ := inLeft
    have owner := free other held (same.trans inRight)
    simp [owner] at kept

end Leased

theorem ip2mac_eq_some (leases : Leases) (ip : Text)
    (found : ip2mac leases ip = some mac) :
    ∃ held : Ipv4, (mac, held) ∈ leases ∧ held.text = ip := by
  simp only [ip2mac, Option.map_eq_some_iff] at found
  obtain ⟨⟨device, held⟩, hit, rfl⟩ := found
  have member := List.mem_of_find?_eq_some hit
  have text := List.find?_some hit
  exact ⟨held, by simpa using member, by simpa using text⟩

theorem ip2mac_of_mem {leases : Leases} (leased : Leased leases)
    (member : (mac, ip) ∈ leases) : ip2mac leases ip.text = some mac := by
  cases found : ip2mac leases ip.text with
  | none =>
      simp only [ip2mac, Option.map_eq_none_iff, List.find?_eq_none] at found
      have miss := found (mac, ip) (by simpa using member)
      simp at miss
  | some other =>
      obtain ⟨held, inLeases, text⟩ := ip2mac_eq_some leases ip.text found
      rw [Ipv4.ext_text text] at inLeases
      rw [leased.address_unique inLeases member]

theorem statsAll_eq_map (chain : List Counted) :
    ∃ ips : List Text, ips.Nodup ∧
      statsAll chain = ips.map fun ip => (ip, rxBytes chain ip, txBytes chain ip) :=
  ⟨_, List.nodup_dedup _, rfl⟩

theorem rowsOf_statsAll {leases : Leases} (leased : Leased leases)
    (chain : List Counted) (member : (mac, ip) ∈ leases)
    (listed : ∃ row ∈ statsAll chain, ip2mac leases row.1 = some mac) :
    rowsOf leases (statsAll chain) mac =
      [(ip.text, rxBytes chain ip.text, txBytes chain ip.text)] := by
  obtain ⟨ips, distinct, rows⟩ := statsAll_eq_map chain
  have owner : ∀ text, ip2mac leases text = some mac ↔ text = ip.text := by
    intro text
    constructor
    · intro found
      obtain ⟨held, inLeases, rfl⟩ := ip2mac_eq_some leases text found
      rw [leased.device_unique inLeases member]
    · rintro rfl
      exact ip2mac_of_mem leased member
  have present : ip.text ∈ ips := by
    obtain ⟨row, inStats, found⟩ := listed
    rw [rows, List.mem_map] at inStats
    obtain ⟨text, inIps, rfl⟩ := inStats
    exact (owner text).mp found ▸ inIps
  rw [rowsOf, rows, List.filter_map]
  have single : ips.filter ((fun row : StatsRow =>
      decide (ip2mac leases row.1 = some mac)) ∘
        fun text => (text, rxBytes chain text, txBytes chain text)) =
      [ip.text] := by
    have same : ips.filter ((fun row : StatsRow =>
        decide (ip2mac leases row.1 = some mac)) ∘
          fun text => (text, rxBytes chain text, txBytes chain text)) =
        ips.filter (· = ip.text) := by
      apply List.filter_congr
      intro text _
      simp [owner]
    rw [same, List.filter_eq, List.count_eq_one_of_mem distinct present]
    rfl
  rw [single]
  rfl

variable {ts : Nat}

theorem aggregated_counts {leases : Leases} (leased : Leased leases)
    (chain : List Counted) {sample : RawSample}
    (member : sample ∈ aggregated ts leases (statsAll chain)) :
    ∃ mac ip, (mac, ip) ∈ leases ∧ sample.ts = ts ∧ sample.mac = mac.text ∧
      ∀ side : Side, side.ofSample sample = side.bytes chain ip.text := by
  simp only [aggregated, List.mem_map, List.mem_dedup, List.mem_filterMap]
    at member
  obtain ⟨mac, ⟨row, inStats, found⟩, rfl⟩ := member
  obtain ⟨ip, inLeases, _⟩ := ip2mac_eq_some leases row.1 found
  have rows := rowsOf_statsAll leased chain inLeases ⟨row, inStats, found⟩
  refine ⟨mac, ip, inLeases, rfl, rfl, ?_⟩
  intro side
  cases side <;> simp [Side.ofSample, Side.bytes, rows]

theorem aggregated_distinct (ts : Nat) (leases : Leases)
    (stats : List StatsRow) :
    ((aggregated ts leases stats).map RawSample.mac).Nodup := by
  rw [aggregated, List.map_map]
  apply List.Nodup.map _ (List.nodup_dedup _)
  intro left right same
  exact Mac.ext_text same

theorem Mac.legible (ts : Nat) (mac : Mac) (rx tx : Nat) :
    Legible ⟨ts, mac.text, rx, tx⟩ := by
  constructor
  case plain =>
      apply List.all_eq_true.mpr
      intro c member
      have quoteFree := mac.not_mem (c := '"') (by decide) (by decide)
      have slashFree := mac.not_mem (c := '\\') (by decide) (by decide)
      simp only [Bool.and_eq_true, bne_iff_ne]
      exact ⟨fun same => quoteFree (same ▸ member),
        fun same => slashFree (same ▸ member)⟩
  case oneLine => exact mac.not_mem (by decide) (by decide)
  case colon =>
      obtain ⟨front, c, text, hex⟩ := mac.last_hex
      have solid : isSpace c = false := isSpace_of_class hex (by decide)
      have other : c ≠ ':' := by
        rintro rfl
        exact absurd hex (by decide)
      simp [endsInColon, text, solid, other]

theorem legible_of_mac {s : RawSample} (text : ∃ mac : Mac, s.mac = mac.text) :
    Legible s := by
  obtain ⟨mac, same⟩ := text
  have legible := Mac.legible s.ts mac s.rx s.tx
  rwa [← same] at legible

/-- The counters of the rules that a reader keeps. -/
def bytesWhere (keep : StatRule → Bool) (chain : List Counted) : Nat :=
  ((chain.filter fun entry => keep entry.rule).map Counted.bytes).sum

theorem bytesWhere_countPacket {keep : StatRule → Bool} {limit : Nat}
    {packet : Packet}
    (bound : ∀ rule, keep rule = true → rule.accepts packet = true →
      packet.bytes ≤ limit) (chain : List Counted) :
    bytesWhere keep (countPacket packet chain) ≤
      bytesWhere keep chain + limit := by
  simp only [bytesWhere]
  induction chain with
  | nil => simp [countPacket]
  | cons entry rest induction =>
      rw [countPacket]
      by_cases accepted : entry.rule.accepts packet = true
      · rw [if_pos accepted]
        by_cases kept : keep entry.rule = true
        · have small := bound entry.rule kept accepted
          simp only [List.filter_cons, kept, if_true, List.map_cons,
            List.sum_cons]
          omega
        · simp [kept]
      · rw [if_neg accepted]
        by_cases kept : keep entry.rule = true
        · simp only [List.filter_cons, kept, if_true, List.map_cons,
            List.sum_cons]
          omega
        · simpa [List.filter_cons, kept] using induction

theorem bytesWhere_addStatRules (keep : StatRule → Bool) (ip : Text)
    (tables : Tables) :
    bytesWhere keep (addStatRules ip tables).hncStats =
      bytesWhere keep tables.hncStats := by
  have none : ∀ entry ∈ ([⟨statSrc ip, 0⟩, ⟨statDst ip, 0⟩] : List Counted),
      entry.bytes = 0 := by
    simp
  have empty : bytesWhere keep [⟨statSrc ip, 0⟩, ⟨statDst ip, 0⟩] = 0 := by
    apply List.sum_eq_zero
    intro bytes member
    obtain ⟨entry, inside, rfl⟩ := List.mem_map.mp member
    exact none entry (List.mem_of_mem_filter inside)
  rw [addStatRules, bytesWhere, List.filter_append, List.map_append,
    List.sum_append]
  exact congrArg _ empty

theorem bytesWhere_delStat (keep : StatRule → Bool) (rule : StatRule)
    (chain : List Counted) :
    bytesWhere keep (delStat rule chain) ≤ bytesWhere keep chain := by
  rw [delStat, Chain.deleteAll_eq_without]
  apply List.Sublist.sum_le_sum
  · exact (List.filter_sublist.filter _).map _
  · simp

theorem bytesWhere_ensureStats (keep : StatRule → Bool) (ip : Text)
    (tables : Tables) :
    bytesWhere keep (IptablesManager.ensureStats ip tables).hncStats ≤
      bytesWhere keep tables.hncStats := by
  rw [IptablesManager.ensureStats]
  split
  · exact Nat.le_refl _
  · rw [bytesWhere_addStatRules]
    exact (bytesWhere_delStat keep _ _).trans (bytesWhere_delStat keep _ _)

/-- The rules that count under an address. -/
def Side.counts (side : Side) (ip : Text) (rule : StatRule) : Bool :=
  match side with
  | .rx => (statColumns rule).1 = "0.0.0.0/0".toList ∧
      (statColumns rule).2 ≠ "0.0.0.0/0".toList ∧ (statColumns rule).2 = ip
  | .tx => (statColumns rule).1 ≠ "0.0.0.0/0".toList ∧
      (statColumns rule).2 = "0.0.0.0/0".toList ∧ (statColumns rule).1 = ip

theorem Side.bytes_eq (side : Side) (chain : List Counted) (ip : Text) :
    side.bytes chain ip = bytesWhere (side.counts ip) chain := by
  cases side <;> rfl

theorem column_matches {wanted : Option Text} {anywhere ip actual : Text}
    (column : wanted.getD anywhere = ip) (here : wanted.getD anywhere ≠ anywhere)
    (matched : addressMatches wanted actual = true) : actual = ip := by
  cases wanted with
  | none => exact absurd rfl here
  | some address =>
      have same : address = actual := by
        simpa [addressMatches] using matched
      exact same ▸ column

theorem Side.address_of_counts {side : Side} {ip : Text} {rule : StatRule}
    {packet : Packet} (counted : side.counts ip rule = true)
    (accepted : rule.accepts packet = true) : side.address packet = ip := by
  simp only [StatRule.accepts, Bool.and_eq_true] at accepted
  cases side with
  | rx =>
      simp only [Side.counts, decide_eq_true_eq] at counted
      exact column_matches counted.2.2 counted.2.1 accepted.2
  | tx =>
      simp only [Side.counts, decide_eq_true_eq] at counted
      exact column_matches counted.2.2 counted.1 accepted.1

/-- A packet adds to the counter of a device's address at most the share of
that device. -/
theorem Side.bytes_countPacket (side : Side) {leases : Leases}
    (member : (mac, ip) ∈ leases) (packet : Packet) (chain : List Counted) :
    side.bytes (countPacket packet chain) ip.text ≤
      side.bytes chain ip.text + share leases side packet mac := by
  rw [side.bytes_eq, side.bytes_eq]
  apply bytesWhere_countPacket
  intro rule counted accepted
  have address := Side.address_of_counts counted accepted
  have holds : (leases.any fun lease =>
      lease.1 = mac && lease.2.text == side.address packet) = true := by
    apply List.any_eq_true.mpr
    exact ⟨(mac, ip), member, by simp [address]⟩
  rw [share, if_pos holds]

/-- The leases are in order, no address of a device is ahead of what is due,
and the rollup so far is covered. -/
structure Balanced (ds de : Nat) (state : State) : Prop where
  leased : Leased state.leases
  level : ∀ side mac ip, (mac, ip) ∈ state.leases →
    ∀ due ∈ state.due side mac,
      side.bytes state.tables.hncStats ip.text ≤ due
  covered : ∀ side (mac : Mac),
    Covered (side.last (rollupState ds de state.raw) mac.text)
      (state.due side mac) (side.sum (rollupState ds de state.raw) mac.text)
      (state.own side mac)

namespace Balanced

variable {ds de : Nat} {state : State}

theorem lease (balanced : Balanced ds de state)
    (regular : Regular ds de state (.lease mac ip))
    (noJump : NoJump state (.lease mac ip)) :
    Balanced ds de (step state (.lease mac ip)) := by
  constructor
  case leased => exact balanced.leased.lease regular
  case covered => exact balanced.covered
  case level =>
      intro side device address member due isDue
      simp only [step, List.mem_append, List.mem_filter, List.mem_singleton]
        at member
      rcases member with ⟨held, _⟩ | taken
      · exact balanced.level side device address held due isDue
      · obtain ⟨rfl, rfl⟩ := Prod.mk.inj taken
        exact noJump side due isDue

theorem leave (balanced : Balanced ds de state) (mac : Mac) :
    Balanced ds de (step state (.leave mac)) := by
  constructor
  case leased => exact balanced.leased.leave mac
  case covered => exact balanced.covered
  case level =>
      intro side device address member
      exact balanced.level side device address (List.mem_of_mem_filter member)

theorem forward (balanced : Balanced ds de state) (packet : Packet) :
    Balanced ds de (step state (.forward packet)) := by
  constructor
  case leased => exact balanced.leased
  case covered =>
      intro side mac
      exact (balanced.covered side mac).grow _
  case level =>
      intro side mac ip member due isDue
      simp only [step, Option.mem_def, Option.map_eq_some_iff] at isDue
      obtain ⟨before, wasDue, rfl⟩ := isDue
      have level := balanced.level side mac ip member before wasDue
      have counted : side.bytes (countPacket packet state.tables.hncStats)
          ip.text ≤ side.bytes state.tables.hncStats ip.text +
            share state.leases side packet mac :=
        side.bytes_countPacket member packet state.tables.hncStats
      simp only [step]
      omega

theorem ensureStats (balanced : Balanced ds de state) (ip : Ipv4) :
    Balanced ds de (step state (.ensureStats ip)) := by
  constructor
  case leased => exact balanced.leased
  case covered => exact balanced.covered
  case level =>
      intro side mac address member due isDue
      have level := balanced.level side mac address member due isDue
      have less := bytesWhere_ensureStats (side.counts address.text) ip.text
        state.tables
      rw [← side.bytes_eq, ← side.bytes_eq] at less
      exact less.trans level

end Balanced

/-- The lines of a sample come back as they were aggregated. -/
theorem rollupState_statsSample {ds de : Nat} (fromStart : ds ≤ ts)
    (toEnd : ts ≤ de) {leases : Leases} (leased : Leased leases)
    (chain : List Counted) (raw : List Text) :
    rollupState ds de (statsSample ts leases chain raw) =
      (aggregated ts leases (statsAll chain)).foldl Rollup.add
        (rollupState ds de raw) := by
  have read : ((aggregated ts leases (statsAll chain)).map
      RawSample.line).filterMap (readSample ds de) =
        aggregated ts leases (statsAll chain) := by
    rw [List.filterMap_map]
    have each : ∀ sample ∈ aggregated ts leases (statsAll chain),
        (readSample ds de ∘ RawSample.line) sample = some sample := by
      intro sample member
      obtain ⟨mac, ip, _, time, device, _⟩ :=
        aggregated_counts leased chain member
      have legible : Legible sample := by
        have text := Mac.legible ts mac sample.rx sample.tx
        rwa [← device, ← time] at text
      exact readSample_line legible (time ▸ fromStart) (time ▸ toEnd)
    rw [List.filterMap_congr each, List.filterMap_some]
  rw [rollupState, statsSample, List.filterMap_append, read, List.foldl_append]
  rfl

theorem Balanced.sample {ds de : Nat} {state : State}
    (balanced : Balanced ds de state) (fromStart : ds ≤ ts) (toEnd : ts ≤ de) :
    Balanced ds de (step state (.sample ts)) := by
  have distinct := aggregated_distinct ts state.leases
    (statsAll state.tables.hncStats)
  -- The sample of a device and the counters it holds.
  have counts : ∀ mac sample, sampleOf state ts mac = some sample →
      sample ∈ aggregated ts state.leases (statsAll state.tables.hncStats) ∧
      sample.mac = mac.text ∧ ∃ ip, (mac, ip) ∈ state.leases ∧
        ∀ side : Side, side.ofSample sample =
          side.bytes state.tables.hncStats ip.text := by
    intro mac sample found
    have member := List.mem_of_find?_eq_some found
    have device : sample.mac = mac.text := by
      simpa using List.find?_some found
    obtain ⟨owner, ip, held, _, text, bytes⟩ :=
      aggregated_counts balanced.leased state.tables.hncStats member
    have same : owner = mac := Mac.ext_text (text.symm.trans device)
    exact ⟨member, device, ip, same ▸ held, bytes⟩
  constructor
  case leased => exact balanced.leased
  case level =>
      intro side mac ip member due isDue
      simp only [step] at isDue member ⊢
      cases found : sampleOf state ts mac with
      | none =>
          simp only [found] at isDue
          exact balanced.level side mac ip member due isDue
      | some sample =>
          simp only [found, Option.mem_def, Option.some.injEq] at isDue
          obtain ⟨_, _, held, inLeases, bytes⟩ := counts mac sample found
          rw [← isDue, bytes side, balanced.leased.device_unique member inLeases]
  case covered =>
      intro side mac
      have covered := balanced.covered side mac
      simp only [step]
      rw [rollupState_statsSample fromStart toEnd balanced.leased]
      cases found : sampleOf state ts mac with
      | none =>
          have absent : ∀ sample ∈ aggregated ts state.leases
              (statsAll state.tables.hncStats), sample.mac ≠ mac.text := by
            simpa [sampleOf] using found
          obtain ⟨last, sum⟩ := foldl_add_absent absent side
            (rollupState ds de state.raw)
          rwa [last, sum]
      | some sample =>
          obtain ⟨member, device, ip, held, bytes⟩ := counts mac sample found
          obtain ⟨last, sum⟩ := foldl_add_single distinct member side
            (rollupState ds de state.raw)
          rw [device] at last sum
          rw [last, sum]
          apply covered.sample
          intro limit isDue
          rw [bytes side]
          exact balanced.level side mac ip held limit isDue

theorem step_balanced {ds de : Nat} {state : State} {event : Event}
    (balanced : Balanced ds de state)
    (ok : Regular ds de state event ∧ NoJump state event) :
    Balanced ds de (step state event) := by
  cases event with
  | lease mac ip => exact balanced.lease ok.1 ok.2
  | leave mac => exact balanced.leave mac
  | forward packet => exact balanced.forward packet
  | ensureStats ip => exact balanced.ensureStats ip
  | sample ts => exact balanced.sample ok.1.1 ok.1.2

theorem Morning.balanced {ds de : Nat} {state : State}
    (morning : Morning ds de state) : Balanced ds de state := by
  have empty : rollupState ds de state.raw = .init := by
    have none : state.raw.filterMap (readSample ds de) = [] := by
      simpa [List.filterMap_eq_nil_iff] using morning.raw
    rw [rollupState, none]
    rfl
  constructor
  case leased => exact ⟨morning.devices, morning.addresses⟩
  case level =>
      intro side mac ip _ due isDue
      simp [morning.due] at isDue
  case covered =>
      intro side mac
      rw [empty, morning.due, morning.own]
      cases side <;> exact .fresh 0

theorem Balanced.creditsOwn {ds de : Nat} {state : State}
    (balanced : Balanced ds de state) : CreditsOwn ds de state := by
  intro later others mac row member device
  have same : rollupState ds de (state.raw ++ later) =
      rollupState ds de state.raw := by
    have none : later.filterMap (readSample ds de) = [] := by
      simpa [List.filterMap_eq_nil_iff] using others
    rw [rollupState, List.filterMap_append, none, List.append_nil]
    rfl
  simp only [statsRollup, same, List.mem_map] at member
  obtain ⟨seen, _, rfl⟩ := member
  obtain rfl : seen = mac.text := device
  exact ⟨(balanced.covered .rx mac).sum_le, (balanced.covered .tx mac).sum_le⟩

/-- A packet of a server on the network. -/
def download (ip : Ipv4) (bytes : Nat) : Packet :=
  ⟨[], "142.250.72.14".toList, ip.text, true, 0, bytes⟩

def twoDevices : State where
  tables := .init false
  leases := [(phone, phoneIp), (tablet, spareIp)]
  raw := []
  own := fun _ _ => 0
  due := fun _ _ => none

theorem twoDevices_morning : Morning 0 86399 twoDevices := by
  constructor
  case raw => simp [twoDevices]
  case own => simp [twoDevices]
  case due => simp [twoDevices]
  case devices => decide
  case addresses => decide

end Hnc.Stats
