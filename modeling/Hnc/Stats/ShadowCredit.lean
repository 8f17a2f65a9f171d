import Hnc.Stats.ShadowRollup
import Mathlib.Algebra.BigOperators.Group.Finset.Piecewise
import Mathlib.Algebra.Order.BigOperators.Group.Finset

/-!
# What the shadow rollup credits

What a device is credited with for a date depends on its last sample of an
earlier date and its samples of the date.  Over all dates nothing is lost, no date
counts more than was transferred, and none counts less than the rollup of
`stats_rollup.sh` does.
-/

namespace Hnc.Stats

open Posix JsonText

namespace Side

def ofFields : Side → ShadowFields → Nat
  | .rx => ShadowFields.rx
  | .tx => ShadowFields.tx

def ofShadow : Side → ShadowRow → Nat
  | .rx => ShadowRow.rx
  | .tx => ShadowRow.tx

def ofPair : Side → Nat × Nat → Nat
  | .rx => Prod.fst
  | .tx => Prod.snd

def total : Side → ShadowDevice → Nat
  | .rx => ShadowDevice.totalRx
  | .tx => ShadowDevice.totalTx

def ofShadowDaily : Side → ShadowDaily → Nat
  | .rx => ShadowDaily.rx
  | .tx => ShadowDaily.tx

end Side

/-- What the rows of a date say of a device. -/
def shadowCredit (side : Side) (mac : Mac) (rows : List ShadowDaily) : Nat :=
  ((rows.filter fun row => row.id = deviceId mac).map side.ofShadowDaily).sum

/-- The samples of a device. -/
def ownRows (rows : List ShadowRow) (mac : Mac) : List ShadowRow :=
  rows.filter fun row => row.mac = mac

def earlier (target : Date) (own : List ShadowRow) : List ShadowRow :=
  own.filter fun row => row.date.text < target.text

def onDate (target : Date) (own : List ShadowRow) : List ShadowRow :=
  own.filter fun row => row.date = target

/-- The baseline sample of an earlier date and the samples of the date. -/
def window (target : Date) (own : List ShadowRow) : List ShadowRow :=
  (earlier target own).getLast?.toList ++ onDate target own

theorem Date.ext_text {date other : Date} (same : date.text = other.text) :
    date = other := by
  cases date
  cases other
  simpa using same

variable {mac : Mac}

theorem deviceId_injective {other : Mac} (same : deviceId mac = deviceId other) :
    mac = other :=
  Mac.ext_text (List.append_cancel_left same)

theorem devices_foldl (target : Text) (fields : List ShadowFields) (s : Shadow)
    (id : Text) :
    (fields.foldl (Shadow.add target) s).devices id =
      (fields.filter fun f => f.id = id).foldl (ShadowDevice.add target)
        (s.devices id) := by
  induction fields generalizing s with
  | nil => rfl
  | cons f rest induction =>
      rw [List.foldl_cons, induction, Shadow.add]
      by_cases own : f.id = id
      · simp [own]
      · simp [own, Function.update_of_ne (Ne.symm own)]

theorem ids_foldl (target : Text) (fields : List ShadowFields) (s : Shadow) :
    (fields.foldl (Shadow.add target) s).ids =
      s.ids ++ (fields.filter fun f => f.date = target).map ShadowFields.id := by
  induction fields generalizing s with
  | nil => exact (List.append_nil _).symm
  | cons f rest induction =>
      rw [List.foldl_cons, induction, Shadow.add]
      by_cases today : f.date = target
      · simp [today]
      · simp [today]

theorem fields_filter (rows : List ShadowRow) (mac : Mac) :
    ((rows.map ShadowRow.fields).filter fun f => f.id = deviceId mac) =
      (ownRows rows mac).map ShadowRow.fields := by
  rw [List.filter_map]
  congr 1
  apply List.filter_congr
  intro row _
  apply decide_eq_decide.mpr
  constructor
  · exact deviceId_injective
  · exact congrArg deviceId

/-- The arrays at a device behind its rows. -/
def deviceAfter (target : Date) (own : List ShadowRow) : ShadowDevice :=
  (own.map ShadowRow.fields).foldl (ShadowDevice.add target.text) .fresh

/-- The line of a device, when it has a sample of the date. -/
theorem shadowCredit_rows (side : Side) (target : Date) (rows : List ShadowRow)
    (mac : Mac) :
    shadowCredit side mac (shadowRollup target.text (rows.map ShadowRow.line)) =
      if onDate target (ownRows rows mac) = [] then 0
      else side.total (deviceAfter target (ownRows rows mac)) := by
  rw [shadowRollup, if_pos target.shape, filterMap_readShadow, Shadow.rows]
  simp only [devices_foldl, ids_foldl]
  have daily : ∀ id : Text, ∀ d : ShadowDevice, side.ofShadowDaily
      ⟨target.text, id, d.lastMac, d.totalRx, d.totalTx, d.samples, d.baseline⟩ =
        side.total d := by
    intro id d
    cases side with
    | rx => rfl
    | tx => rfl
  have listed : deviceId mac ∈ Shadow.fresh.ids ++
      ((rows.map ShadowRow.fields).filter fun f => f.date = target.text).map
        ShadowFields.id ↔ onDate target (ownRows rows mac) ≠ [] := by
    have none : Shadow.fresh.ids = [] := rfl
    rw [none, List.nil_append, List.mem_map]
    constructor
    · rintro ⟨f, member, same⟩ empty
      obtain ⟨inside, today⟩ := List.mem_filter.mp member
      obtain ⟨row, isRow, fields⟩ := List.mem_map.mp inside
      have own : row ∈ onDate target (ownRows rows mac) := by
        apply List.mem_filter.mpr
        constructor
        · apply List.mem_filter.mpr
          constructor
          · exact isRow
          · rw [← fields] at same
            exact decide_eq_true (deviceId_injective same)
        · rw [← fields] at today
          exact decide_eq_true (Date.ext_text (of_decide_eq_true today))
      rw [empty] at own
      exact List.not_mem_nil own
    · intro nonempty
      obtain ⟨row, member⟩ := List.exists_mem_of_ne_nil _ nonempty
      obtain ⟨own, today⟩ := List.mem_filter.mp member
      obtain ⟨inside, isMac⟩ := List.mem_filter.mp own
      refine ⟨row.fields, ?_, congrArg deviceId (of_decide_eq_true isMac)⟩
      apply List.mem_filter.mpr
      constructor
      · exact List.mem_map_of_mem inside
      · exact decide_eq_true (congrArg Date.text (of_decide_eq_true today))
  rw [shadowCredit, List.filter_map, List.map_map]
  simp only [Function.comp_def, daily, List.filter_eq]
  split
  · rename_i absent
    rw [List.count_eq_zero.mpr]
    · rfl
    · rw [List.mem_dedup, listed]
      exact not_not.mpr absent
  · rename_i present
    rw [List.count_eq_one_of_mem (List.nodup_dedup _) (List.mem_dedup.mpr (listed.mpr present)),
      List.replicate_one, List.map_singleton, fields_filter]
    rfl

/-! ### The window of a date -/

/-- The samples of a device in the order of the file: later ones are not of an
earlier time or date. -/
structure InOrder (own : List ShadowRow) : Prop where
  ts : own.Pairwise fun first second => first.ts ≤ second.ts
  dates : own.Pairwise fun first second => first.date.text ≤ second.date.text

theorem InOrder.front {own : List ShadowRow} {row : ShadowRow}
    (inOrder : InOrder (own ++ [row])) :
    InOrder own ∧ (∀ other ∈ own, other.ts ≤ row.ts) ∧
      ∀ other ∈ own, other.date.text ≤ row.date.text := by
  obtain ⟨ts, _, tsLast⟩ := List.pairwise_append.mp inOrder.ts
  obtain ⟨dates, _, datesLast⟩ := List.pairwise_append.mp inOrder.dates
  exact ⟨⟨ts, dates⟩, fun other member => tsLast other member row List.mem_cons_self,
    fun other member => datesLast other member row List.mem_cons_self⟩

theorem ne_of_before {target : Date} {row : ShadowRow}
    (before : row.date.text < target.text) : row.date ≠ target := by
  intro same
  rw [same] at before
  exact lt_irrefl _ before

theorem onDate_concat_of_ne {target : Date} {own : List ShadowRow}
    {row : ShadowRow} (other : row.date ≠ target) :
    onDate target (own ++ [row]) = onDate target own := by
  simp [onDate, other]

/-- In front of a row of an earlier date there is no row of the date. -/
theorem onDate_eq_nil {target : Date} {own : List ShadowRow} {row : ShadowRow}
    (dates : ∀ other ∈ own, other.date.text ≤ row.date.text)
    (before : row.date.text < target.text) : onDate target own = [] := by
  apply List.filter_eq_nil_iff.mpr
  intro other member same
  have le := dates other member
  rw [of_decide_eq_true same] at le
  exact absurd before (not_lt.mpr le)

/-- One direction of a sample: what was counted last, and the total. -/
def accumulate (state : Option Nat × Nat) (cur : Nat) : Option Nat × Nat :=
  (some cur,
    match state.1 with
    | none => state.2
    | some prev => (addDelta prev cur (state.2, [])).1)

/-- What a device is credited with for the counters of a window, in doubles. -/
def creditDouble (counters : List Nat) : Nat :=
  ((counters.map Double.round).foldl accumulate (none, 0)).2

theorem addDelta_fst (prev cur total : Nat) (flags : Text) :
    (addDelta prev cur (total, flags)).1 = (addDelta prev cur (total, [])).1 := by
  rw [addDelta, addDelta]
  split
  · rfl
  · split <;> rfl

/-- The counters that the next sample of the date is compared with. -/
def ShadowDevice.last (d : ShadowDevice) : Option (Nat × Nat) :=
  match d.prev with
  | some prev => some prev
  | none => d.base.map Prod.snd

theorem sample_side (side : Side) (d : ShadowDevice) (f : ShadowFields) :
    ((d.sample f).last.map side.ofPair, side.total (d.sample f)) =
      accumulate (d.last.map side.ofPair, side.total d) (side.ofFields f) := by
  cases prev : d.prev with
  | some pair =>
      cases side <;>
        simp [ShadowDevice.sample, ShadowDevice.advance, ShadowDevice.last, prev,
          accumulate, Side.ofPair, Side.total, Side.ofFields, addDelta_fst]
  | none =>
      cases base : d.base with
      | none =>
          cases side <;>
            simp [ShadowDevice.sample, ShadowDevice.last, prev, base, accumulate,
              Side.ofPair, Side.total, Side.ofFields]
      | some found =>
          cases side <;>
            simp [ShadowDevice.sample, ShadowDevice.advance, ShadowDevice.last, prev,
              base, accumulate, Side.ofPair, Side.total, Side.ofFields, addDelta_fst]

/-- The counters of some samples, in doubles. -/
def doubles (side : Side) (rows : List ShadowRow) : List Nat :=
  (rows.map side.ofShadow).map Double.round

theorem ofFields_fields (side : Side) (row : ShadowRow) :
    side.ofFields row.fields = Double.round (side.ofShadow row) := by
  cases side with
  | rx => rfl
  | tx => rfl

/-- The arrays at a device hold what its rows so far say. -/
structure Tracks (target : Date) (own : List ShadowRow) (d : ShadowDevice) :
    Prop where
  base : d.base = (earlier target own).getLast?.map fun row =>
    (row.fields.ts, row.fields.rx, row.fields.tx)
  prev : onDate target own = [] → d.prev = none
  state : ∀ side : Side, (d.last.map side.ofPair, side.total d) =
    (doubles side (window target own)).foldl accumulate (none, 0)

section

variable {target : Date} {own : List ShadowRow} {row : ShadowRow}
  {d : ShadowDevice} (tracks : Tracks target own d)
include tracks

/-- A row of an earlier date is the new baseline. -/
theorem Tracks.earlier (inOrder : InOrder (own ++ [row]))
    (before : row.date.text < target.text) :
    Tracks target (own ++ [row]) (d.add target.text row.fields) := by
  obtain ⟨_, times, dates⟩ := inOrder.front
  have none := onDate_eq_nil dates before
  have listed : Stats.earlier target (own ++ [row]) =
      Stats.earlier target own ++ [row] := by
    simp [Stats.earlier, before]
  have still : onDate target (own ++ [row]) = [] := by
    rw [onDate_concat_of_ne (ne_of_before before), none]
  have added : d.add target.text row.fields =
      { d with base := some (row.fields.ts, row.fields.rx, row.fields.tx) } := by
    rw [ShadowDevice.add, if_pos (show row.fields.date < target.text from before),
      ShadowDevice.setBase, tracks.base]
    cases found : (Stats.earlier target own).getLast? with
    | none => rfl
    | some last =>
        have inside : last ∈ own :=
          List.mem_of_mem_filter (List.mem_of_getLast? found)
        exact if_pos (Double.round_mono (times last inside))
  have idle := tracks.prev none
  have state := tracks.state
  rw [window, none] at state
  rw [added]
  constructor
  · rw [listed, List.getLast?_concat]
    rfl
  · intro _
    exact idle
  · intro side
    have zero : side.total d = 0 := by
      have total := congrArg Prod.snd (state side)
      cases found : (Stats.earlier target own).getLast? <;> rw [found] at total <;>
        exact total
    rw [window, still, listed, List.getLast?_concat]
    cases side with
    | rx =>
        simp only [idle]
        exact Prod.ext rfl zero
    | tx =>
        simp only [idle]
        exact Prod.ext rfl zero

theorem Tracks.today (today : row.date = target) :
    Tracks target (own ++ [row]) (d.add target.text row.fields) := by
  have notBefore : ¬ row.fields.date < target.text := by
    change ¬ row.date.text < target.text
    rw [today]
    exact lt_irrefl _
  have same : row.fields.date = target.text := congrArg Date.text today
  have earlierSame : Stats.earlier target (own ++ [row]) = Stats.earlier target own := by
    simp [Stats.earlier, today]
  have listed : onDate target (own ++ [row]) = onDate target own ++ [row] := by
    simp [onDate, today]
  have windows : window target (own ++ [row]) = window target own ++ [row] := by
    rw [window, window, earlierSame, listed, List.append_assoc]
  rw [ShadowDevice.add, if_neg notBefore, if_neg (not_not.mpr same)]
  constructor
  · rw [earlierSame, ← tracks.base]
    cases prev : d.prev with
    | some pair => simp [ShadowDevice.sample, ShadowDevice.advance, prev]
    | none =>
        cases base : d.base with
        | none => simp [ShadowDevice.sample, prev, base]
        | some found => simp [ShadowDevice.sample, ShadowDevice.advance, prev, base]
  · rw [listed]
    intro empty
    exact absurd empty (List.append_ne_nil_of_right_ne_nil _ (List.cons_ne_nil _ _))
  · intro side
    rw [sample_side, tracks.state, windows, ofFields_fields]
    simp only [doubles, List.map_append, List.foldl_append, List.map_cons, List.map_nil,
      List.foldl_cons, List.foldl_nil]

theorem Tracks.later (behind : target.text < row.date.text) :
    Tracks target (own ++ [row]) (d.add target.text row.fields) := by
  have notBefore : ¬ row.fields.date < target.text := not_lt.mpr behind.le
  have other : row.fields.date ≠ target.text := ne_of_gt behind
  have otherDate : row.date ≠ target := fun same => other (congrArg Date.text same)
  have earlierSame : Stats.earlier target (own ++ [row]) = Stats.earlier target own := by
    have notEarlier : ¬ row.date.text < target.text := notBefore
    simp [Stats.earlier, notEarlier]
  have listed : onDate target (own ++ [row]) = onDate target own := by
    simp [onDate, otherDate]
  rw [ShadowDevice.add, if_neg notBefore, if_pos other]
  constructor
  · rw [earlierSame]
    exact tracks.base
  · rw [listed]
    exact tracks.prev
  · intro side
    rw [window, earlierSame, listed]
    exact tracks.state side

end

theorem deviceAfter_tracks (target : Date) {own : List ShadowRow}
    (inOrder : InOrder own) : Tracks target own (deviceAfter target own) := by
  induction own using List.reverseRecOn with
  | nil =>
      refine ⟨rfl, fun _ => rfl, ?_⟩
      intro side
      cases side with
      | rx => rfl
      | tx => rfl
  | append_singleton own row induction =>
      have tracks := induction inOrder.front.1
      rw [deviceAfter, List.map_append, List.foldl_append, List.map_cons,
        List.map_nil, List.foldl_cons]
      rcases lt_trichotomy row.date.text target.text with before | same | behind
      · exact tracks.earlier inOrder before
      · exact tracks.today (Date.ext_text same)
      · exact tracks.later behind

theorem shadowCredit_eq (side : Side) (target : Date) (rows : List ShadowRow)
    (inOrder : InOrder (ownRows rows mac)) :
    shadowCredit side mac (shadowRollup target.text (rows.map ShadowRow.line)) =
      creditDouble ((window target (ownRows rows mac)).map side.ofShadow) := by
  have tracks := deviceAfter_tracks target inOrder
  have total := congrArg Prod.snd (tracks.state side)
  rw [shadowCredit_rows]
  split
  · rename_i absent
    rw [window, absent]
    cases (earlier target (ownRows rows mac)).getLast? <;> rfl
  · exact total

/-- What the next sample adds. -/
def credit (prev cur : Nat) : Nat :=
  if prev ≤ cur then cur - prev else cur

/-- What a device is credited with for the counters of a window. -/
def gain : List Nat → Nat
  | [] => 0
  | [_] => 0
  | prev :: cur :: rest => credit prev cur + gain (cur :: rest)

theorem gain_concat (counters : List Nat) (cur : Nat) :
    gain (counters ++ [cur]) =
      gain counters + (counters.getLast?.map fun prev => credit prev cur).getD 0 := by
  induction counters with
  | nil => rfl
  | cons prev rest induction =>
      cases rest with
      | nil => simp [gain]
      | cons next rest =>
          simp only [List.cons_append, gain] at induction ⊢
          rw [induction, List.getLast?_cons_cons, Nat.add_assoc]

theorem addDelta_small {prev cur total : Nat}
    (fits : total + credit prev cur ≤ 2 ^ 53) :
    (addDelta prev cur (total, [])).1 = total + credit prev cur := by
  rw [credit] at fits ⊢
  rw [addDelta]
  split
  · rename_i grows
    rw [if_pos grows] at fits
    rw [Double.round_of_le (show cur - prev ≤ 2 ^ 53 by omega),
      Double.round_of_le fits]
  · rename_i reset
    rw [if_neg reset] at fits
    simp only
    split
    · exact Double.round_of_le fits
    · omega

/-- With few enough bytes nothing is rounded. -/
theorem creditDouble_eq {counters : List Nat} (small : ∀ n ∈ counters, n ≤ 2 ^ 53)
    (fits : gain counters ≤ 2 ^ 53) : creditDouble counters = gain counters := by
  have exactly : counters.map Double.round = counters := by
    have same : counters.map Double.round = counters.map id :=
      List.map_congr_left fun n member => Double.round_of_le (small n member)
    rw [same, List.map_id]
  suffices state : counters.foldl accumulate (none, 0) =
      (counters.getLast?, gain counters) by
    rw [creditDouble, exactly, state]
  clear exactly
  induction counters using List.reverseRecOn with
  | nil => rfl
  | append_singleton counters cur induction =>
      rw [gain_concat] at fits ⊢
      rw [List.foldl_append, List.foldl_cons,
        induction (fun n member => small n (List.mem_append_left _ member)) ((Nat.le_add_right _ _).trans fits),
        List.getLast?_concat]
      cases found : counters.getLast? with
      | none => rfl
      | some prev =>
          rw [found] at fits
          exact Prod.ext rfl (addDelta_small fits)

/-- The counters of the window of a date. -/
def windowCounters (side : Side) (target : Date) (own : List ShadowRow) : List Nat :=
  (window target own).map side.ofShadow

/-- One more sample adds to the date it is of, and to no other. -/
theorem gain_window_concat (side : Side) (target : Date) {own : List ShadowRow}
    {row : ShadowRow} (inOrder : InOrder (own ++ [row])) :
    gain (windowCounters side target (own ++ [row])) =
      gain (windowCounters side target own) +
        if target = row.date then
          (own.getLast?.map fun last =>
            credit (side.ofShadow last) (side.ofShadow row)).getD 0
        else 0 := by
  obtain ⟨_, _, dates⟩ := inOrder.front
  have short : ∀ last : Option ShadowRow,
      gain ((last.toList ++ []).map side.ofShadow) = 0 := by
    intro last
    cases last <;> rfl
  rcases lt_trichotomy target.text row.date.text with behind | same | before
  · have notBefore : ¬ row.date.text < target.text := not_lt.mpr behind.le
    have other : row.date ≠ target := by
      intro same
      rw [same] at behind
      exact lt_irrefl _ behind
    have windows : window target (own ++ [row]) = window target own := by
      simp [window, earlier, onDate, notBefore, other]
    rw [windowCounters, windows, if_neg (Ne.symm other)]
    rfl
  · have today : row.date = target := (Date.ext_text same).symm
    have windows : window target (own ++ [row]) = window target own ++ [row] := by
      simp [window, earlier, onDate, today]
    have last : (window target own).getLast? = own.getLast? := by
      rw [window]
      cases found : own.getLast? with
      | none =>
          rw [List.getLast?_eq_none_iff] at found
          rw [found]
          rfl
      | some last =>
          obtain ⟨front, split⟩ := List.getLast?_eq_some_iff.mp found
          have le := dates last (List.mem_of_getLast? found)
          rw [today] at le
          rcases lt_or_eq_of_le le with less | equal
          · have none : onDate target own = [] := by
              have ordered := inOrder.front.1
              rw [split] at ordered
              apply List.filter_eq_nil_iff.mpr
              intro row' member same
              have isToday := congrArg Date.text (of_decide_eq_true same)
              rw [split] at member
              rcases List.mem_append.mp member with inFront | isLast
              · have earlierThan := ordered.front.2.2 row' inFront
                rw [isToday] at earlierThan
                exact absurd less (not_lt.mpr earlierThan)
              · rw [List.mem_singleton.mp isLast] at isToday
                exact absurd isToday (ne_of_lt less)
            have listed : earlier target own = earlier target front ++ [last] := by
              simp [earlier, split, less]
            rw [none, listed, List.getLast?_concat]
            rfl
          · have isToday : last.date = target := Date.ext_text equal
            have listed : onDate target own = onDate target front ++ [last] := by
              simp [onDate, split, isToday]
            rw [listed, ← List.append_assoc, List.getLast?_concat]
    rw [windowCounters, windows, List.map_append, List.map_cons, List.map_nil,
      gain_concat, if_pos today.symm, List.getLast?_map, last, Option.map_map]
    rfl
  · have other := ne_of_before before
    have none := onDate_eq_nil dates before
    have still : onDate target (own ++ [row]) = [] := by
      rw [onDate_concat_of_ne other, none]
    rw [if_neg (Ne.symm other), windowCounters, windowCounters, window, window, none,
      still, short, short]

/-- The credits of all dates together are what the counters gain in all. -/
theorem sum_gain_windows (side : Side) {own : List ShadowRow}
    (inOrder : InOrder own) {dates : Finset Date}
    (sampled : ∀ row ∈ own, row.date ∈ dates) :
    (∑ target ∈ dates, gain (windowCounters side target own)) =
      gain (own.map side.ofShadow) := by
  induction own using List.reverseRecOn with
  | nil => exact Finset.sum_eq_zero fun _ _ => rfl
  | append_singleton own row induction =>
      have before := induction inOrder.front.1
        fun other member => sampled other (List.mem_append_left _ member)
      have here : row.date ∈ dates :=
        sampled row (List.mem_append_right _ List.mem_cons_self)
      rw [Finset.sum_congr rfl fun target _ => gain_window_concat side target inOrder,
        Finset.sum_add_distrib, before, Finset.sum_ite_eq', if_pos here,
        List.map_append, List.map_cons, List.map_nil, gain_concat, List.getLast?_map,
        Option.map_map]
      rfl

/-- A counter that never falls gains the difference of its ends. -/
theorem gain_of_nondecreasing {counters : List Nat}
    (nondecreasing : counters.Pairwise (· ≤ ·)) :
    gain counters + counters.headD 0 = counters.getLastD 0 := by
  induction counters with
  | nil => rfl
  | cons prev rest induction =>
      obtain ⟨least, ordered⟩ := List.pairwise_cons.mp nondecreasing
      cases rest with
      | nil => exact Nat.zero_add prev
      | cons cur rest =>
          have grows := least cur List.mem_cons_self
          have tail := induction ordered
          simp only [gain, credit, if_pos grows, List.headD_cons,
            List.getLastD_cons] at tail ⊢
          omega

/-- What lies between two readings covers what the later one is credited with. -/
def Covers (side : Side) (before after : Reading) : Prop :=
  credit (before.counter side) (after.counter side) + before.moved side ≤
    after.moved side

theorem credit_triangle (first second third : Nat) :
    credit first third ≤ credit first second + credit second third := by
  simp only [credit]
  split <;> split <;> split <;> omega

theorem covers_lasting (side : Side) : Lasting (Covers side) where
  same reading ts := by
    simp [Covers, credit]
  trans first second third left right := by
    have triangle := credit_triangle (first.counter side) (second.counter side)
      (third.counter side)
    rw [Covers] at left right ⊢
    omega
  step meter moment ts later := by
    cases moment with
    | transfer other bytes =>
        by_cases same : side = other
        · subst same
          simp [Covers, credit, Meter.now, Meter.step, Nat.add_comm]
        · simp [Covers, credit, Meter.now, Meter.step, same]
    | reset other =>
        by_cases same : side = other
        · subst same
          simp [Covers, credit, Meter.now, Meter.step]
        · simp [Covers, credit, Meter.now, Meter.step, same]
    | sample _ => simp [Covers, credit, Meter.now, Meter.step]

theorem gain_le_moved (side : Side) {readings : List Reading}
    (covers : readings.Pairwise (Covers side)) :
    gain (readings.map fun r => r.counter side) ≤ movedBetween side readings := by
  suffices reached : ∀ first ∈ readings.head?, ∀ last ∈ readings.getLast?,
      gain (readings.map fun r => r.counter side) + first.moved side ≤
        last.moved side by
    rw [movedBetween]
    cases readings with
    | nil => exact Nat.le_refl 0
    | cons first rest =>
        cases found : (first :: rest).getLast? with
        | none => exact absurd found (by simp)
        | some last =>
            have bound := reached first rfl last found
            simp only [List.head?_cons]
            omega
  induction readings with
  | nil => exact fun _ none => absurd none (by simp)
  | cons first rest induction =>
      obtain ⟨next, covers⟩ := List.pairwise_cons.mp covers
      intro head isHead last isLast
      obtain rfl : first = head := Option.some.inj isHead
      cases rest with
      | nil =>
          obtain rfl : first = last := Option.some.inj isLast
          simp [gain]
      | cons second rest =>
          have tail := induction covers second rfl last isLast
          have here := next second List.mem_cons_self
          rw [Covers] at here
          simp only [List.map_cons, gain] at tail ⊢
          omega

/-- The same window, of anything that has a date. -/
def windowOf {Item : Type} (dateOf : Item → Date) (target : Date)
    (items : List Item) : List Item :=
  (items.filter fun item => (dateOf item).text < target.text).getLast?.toList ++
    items.filter fun item => dateOf item = target

theorem window_map {Item : Type} (rowOf : Item → ShadowRow) (target : Date)
    (items : List Item) :
    window target (items.map rowOf) =
      (windowOf (fun item => (rowOf item).date) target items).map rowOf := by
  rw [window, earlier, onDate, windowOf, List.filter_map, List.filter_map,
    List.getLast?_map, List.map_append]
  exact congrArg (· ++ _) Option.toList_map

section

variable {Item : Type} {related : Item → Item → Prop} {dateOf : Item → Date}
  {items : List Item} (ordered : items.Pairwise related)
  (dates : items.Pairwise fun first second => (dateOf first).text ≤ (dateOf second).text)
include ordered dates

/-- Of two items of a list, the one of the earlier date stands in front. -/
theorem related_of_earlier {first second : Item} (firstIn : first ∈ items)
    (secondIn : second ∈ items)
    (less : (dateOf first).text < (dateOf second).text) :
    related first second := by
  let apart : Item → Item → Prop := fun left right =>
    ((dateOf left).text < (dateOf right).text → related left right) ∧
      ((dateOf right).text < (dateOf left).text → related right left)
  have symmetric : Std.Symm apart := ⟨fun _ _ both => both.symm⟩
  have pairs : items.Pairwise apart := by
    apply (ordered.and dates).imp
    rintro left right ⟨inOrder, le⟩
    exact ⟨fun _ => inOrder, fun less => absurd less (not_lt.mpr le)⟩
  have all := pairs.forall_of_forall (fun item _ =>
    ⟨fun less => absurd less (lt_irrefl _), fun less => absurd less (lt_irrefl _)⟩)
  exact (all firstIn secondIn).1 less

/-- The baseline stands in front of the samples of the date. -/
theorem pairwise_windowOf (target : Date) :
    (windowOf dateOf target items).Pairwise related := by
  apply List.pairwise_append.mpr
  refine ⟨?_, ordered.filter _, ?_⟩
  · cases (items.filter fun item => (dateOf item).text < target.text).getLast? with
    | none => exact List.Pairwise.nil
    | some last => exact List.pairwise_singleton _ _
  · intro last isLast sample isSample
    have inBefore := List.mem_of_getLast? (Option.mem_toList.mp isLast)
    obtain ⟨inItems, before⟩ := List.mem_filter.mp inBefore
    obtain ⟨sampleIn, today⟩ := List.mem_filter.mp isSample
    have less : (dateOf last).text < (dateOf sample).text := by
      rw [of_decide_eq_true today]
      exact of_decide_eq_true before
    exact related_of_earlier ordered dates inItems sampleIn less

end

/-- The rows of a device are what its samples read. -/
def Observed (own : List ShadowRow) (readings : List Reading) : Prop :=
  List.Forall₂ (fun row reading => row.ts = reading.ts ∧
    row.rx = reading.counter .rx ∧ row.tx = reading.counter .tx) own readings

/-- The reading of the baseline and those of the date. -/
def windowReadings (target : Date) (own : List ShadowRow) (readings : List Reading) :
    List Reading :=
  (windowOf (fun pair : ShadowRow × Reading => pair.1.date) target
    (own.zip readings)).map Prod.snd

/-- A date gains at most what was transferred since its baseline. -/
theorem gain_window_le_moved (side : Side) (target : Date) {own : List ShadowRow}
    (inOrder : InOrder own) {readings : List Reading} (observed : Observed own readings)
    (covers : readings.Pairwise (Covers side)) :
    gain (windowCounters side target own) ≤
      movedBetween side (windowReadings target own readings) := by
  have length := observed.length_eq
  have fsts : (own.zip readings).map Prod.fst = own := List.map_fst_zip length.le
  have snds : (own.zip readings).map Prod.snd = readings := List.map_snd_zip length.ge
  have counters : windowCounters side target own =
      (windowReadings target own readings).map fun r => r.counter side := by
    have windows := window_map Prod.fst target (own.zip readings)
    rw [fsts] at windows
    rw [windowCounters, windows, windowReadings, List.map_map, List.map_map]
    apply List.map_congr_left
    intro pair member
    have inside : pair ∈ own.zip readings := by
      rcases List.mem_append.mp member with base | sample
      · exact List.mem_of_mem_filter
          (List.mem_of_getLast? (Option.mem_toList.mp base))
      · exact List.mem_of_mem_filter sample
    obtain ⟨_, rx, tx⟩ := (List.forall₂_iff_zip.mp observed).2 inside
    cases side with
    | rx => exact rx
    | tx => exact tx
  rw [counters]
  apply gain_le_moved
  have pairs : (own.zip readings).Pairwise fun first second =>
      Covers side first.2 second.2 := by
    rw [← snds] at covers
    exact List.pairwise_map.mp covers
  have dates : (own.zip readings).Pairwise fun first second =>
      first.1.date.text ≤ second.1.date.text := by
    have ordered := inOrder.dates
    rw [← fsts, List.pairwise_map] at ordered
    exact ordered
  rw [windowReadings, List.pairwise_map]
  exact pairwise_windowOf pairs dates target

/-! ### At least what the other rollup credits -/

/-- The line of `stats_raw.jsonl` for the same sample. -/
def ShadowRow.raw (row : ShadowRow) : RawSample :=
  ⟨row.ts, row.mac.text, row.rx, row.tx⟩

/-- One sample in the awk program of `stats_rollup.sh`. -/
def legacyStep (state : Option Nat × Nat) (cur : Nat) : Option Nat × Nat :=
  (some cur, creditedDouble state.1 state.2 cur)

theorem legacy_mac (side : Side) (mac : Text) (samples : List RawSample) :
    (side.last (samples.foldl Rollup.addDouble .init) mac,
      side.sum (samples.foldl Rollup.addDouble .init) mac) =
        ((counts side samples mac).map Double.round).foldl legacyStep (none, 0) := by
  induction samples using List.reverseRecOn with
  | nil =>
      cases side with
      | rx => rfl
      | tx => rfl
  | append_singleton samples s induction =>
      obtain ⟨last, sum⟩ := addDouble_side side (samples.foldl Rollup.addDouble .init) s
      rw [List.foldl_append, List.foldl_cons, List.foldl_nil, last, sum, counts_concat]
      by_cases same : s.mac = mac
      · rw [if_pos same, same, Function.update_self, Function.update_self,
          List.map_append, List.foldl_append, ← induction]
        rfl
      · rw [if_neg same, Function.update_of_ne (Ne.symm same),
          Function.update_of_ne (Ne.symm same)]
        exact induction

theorem addDelta_ge {prev cur total : Nat} (double : Double.round total = total) :
    total ≤ (addDelta prev cur (total, [])).1 ∧
      Double.round (addDelta prev cur (total, [])).1 =
        (addDelta prev cur (total, [])).1 := by
  have up : ∀ more, total ≤ Double.round (total + more) := by
    intro more
    rw [← double]
    exact Double.round_mono (by rw [double]; exact Nat.le_add_right _ _)
  rw [addDelta]
  split
  · exact ⟨up _, Double.round_round _⟩
  · split
    · exact ⟨up _, Double.round_round _⟩
    · exact ⟨Nat.le_refl _, double⟩

/-- The shadow rollup stays ahead, whatever is rounded. -/
theorem legacy_le_accumulate (counters : List Nat) {last prev : Option Nat}
    {sum total : Nat} (ahead : sum ≤ total) (double : Double.round total = total)
    (same : last = none ∨ last = prev) :
    (counters.foldl legacyStep (last, sum)).2 ≤
      (counters.foldl accumulate (prev, total)).2 := by
  induction counters generalizing last prev sum total with
  | nil => exact ahead
  | cons cur rest induction =>
      have next : (legacyStep (last, sum) cur).2 ≤ (accumulate (prev, total) cur).2 ∧
          Double.round (accumulate (prev, total) cur).2 =
            (accumulate (prev, total) cur).2 := by
        cases prev with
        | none =>
            have none : last = none := by
              rcases same with none | none <;> exact none
            rw [none]
            exact ⟨ahead, double⟩
        | some before =>
            obtain ⟨grows, doubleAfter⟩ := @addDelta_ge before cur total double
            refine ⟨?_, doubleAfter⟩
            rcases same with none | known
            · rw [none]
              exact ahead.trans grows
            · rw [known]
              change Double.round (sum + Double.round (cur - before)) ≤
                (addDelta before cur (total, [])).1
              by_cases higher : before ≤ cur
              · rw [addDelta, if_pos higher]
                exact Double.round_mono (Nat.add_le_add_right ahead _)
              · have zero : cur - before = 0 := by omega
                rw [zero]
                calc Double.round (sum + 0) ≤ Double.round total :=
                    Double.round_mono ahead
                  _ = total := double
                  _ ≤ (addDelta before cur (total, [])).1 := grows
      exact induction next.1 next.2 (.inr rfl)

/-- The samples of the device between two times are those of the date. -/
def SameDay (own : List ShadowRow) (target : Date) (ds de : Nat) : Prop :=
  ∀ row ∈ own, row.date = target ↔ ds ≤ row.ts ∧ row.ts ≤ de

theorem legacy_le_shadow (side : Side) {rows : List ShadowRow}
    (inOrder : InOrder (ownRows rows mac)) {target : Date} {ds de : Nat}
    (sameDay : SameDay (ownRows rows mac) target ds de) :
    rollupCredit side mac.text
        (rollupDouble ds de ((rows.map ShadowRow.raw).map RawSample.line)) ≤
      shadowCredit side mac (shadowRollup target.text (rows.map ShadowRow.line)) := by
  have legible : ∀ s ∈ rows.map ShadowRow.raw, Legible s := by
    intro s member
    obtain ⟨row, _, same⟩ := List.mem_map.mp member
    rw [← same]
    exact legible_of_mac ⟨row.mac, rfl⟩
  have samples : counts side ((rows.map ShadowRow.raw).filter fun s =>
      decide (ds ≤ s.ts) && decide (s.ts ≤ de)) mac.text =
        (onDate target (ownRows rows mac)).map side.ofShadow := by
    have today : ((rows.filter ((fun s : RawSample =>
        decide (ds ≤ s.ts) && decide (s.ts ≤ de)) ∘ ShadowRow.raw)).filter
          ((fun s : RawSample => decide (s.mac = mac.text)) ∘ ShadowRow.raw)) =
        onDate target (ownRows rows mac) := by
      have ownFilter : rows.filter ((fun s : RawSample =>
          decide (s.mac = mac.text)) ∘ ShadowRow.raw) = ownRows rows mac := by
        apply List.filter_congr
        intro row _
        exact decide_eq_decide.mpr ⟨Mac.ext_text, congrArg Mac.text⟩
      rw [List.filter_comm, ownFilter]
      apply List.filter_congr
      intro row member
      rw [Bool.eq_iff_iff, decide_eq_true_eq, sameDay row member]
      change (decide (ds ≤ row.ts) && decide (row.ts ≤ de)) = true ↔ _
      rw [Bool.and_eq_true, decide_eq_true_eq, decide_eq_true_eq]
    rw [counts, List.filter_map, List.filter_map, today, List.map_map]
    apply List.map_congr_left
    intro row _
    cases side with
    | rx => rfl
    | tx => rfl
  have legacy := congrArg Prod.snd (legacy_mac side mac.text
    ((rows.map ShadowRow.raw).filter fun s => decide (ds ≤ s.ts) && decide (s.ts ≤ de)))
  rw [samples] at legacy
  rw [shadowCredit_eq side target rows inOrder, rollupDouble,
    readSamples_between legible, rollupCredit_rows]
  have ahead : side.sum (((rows.map ShadowRow.raw).filter fun s =>
      decide (ds ≤ s.ts) && decide (s.ts ≤ de)).foldl Rollup.addDouble .init) mac.text ≤
        creditDouble ((window target (ownRows rows mac)).map side.ofShadow) := by
    simp only at legacy
    rw [legacy, creditDouble, window, List.map_append, List.map_append]
    have zero : Double.round 0 = 0 := Double.round_of_le (Nat.zero_le _)
    cases (earlier target (ownRows rows mac)).getLast? with
    | none => exact legacy_le_accumulate _ (Nat.le_refl 0) zero (.inl rfl)
    | some base => exact legacy_le_accumulate _ (Nat.le_refl 0) zero (.inl rfl)
  split
  · exact ahead
  · exact Nat.zero_le _

/-- The sum over all sampled dates of what a device is credited with. -/
def creditOfAllDates (side : Side) (mac : Mac) (rows : List ShadowRow) : Nat :=
  ∑ target ∈ (rows.map ShadowRow.date).toFinset,
    shadowCredit side mac (shadowRollup target.text (rows.map ShadowRow.line))

/-- The shadow rollup accounts for the traffic of a device, as long as the numbers
it meets are `exact`. -/
structure Accounts (exact : Nat → Prop) (rows : List ShadowRow) (mac : Mac)
    (side : Side) : Prop where
  nothingLost : (∀ row ∈ ownRows rows mac, exact (side.ofShadow row)) →
    ((ownRows rows mac).map side.ofShadow).Pairwise (· ≤ ·) →
    creditOfAllDates side mac rows +
        ((ownRows rows mac).map side.ofShadow).headD 0 =
      ((ownRows rows mac).map side.ofShadow).getLastD 0
  neverOver : (∀ row ∈ ownRows rows mac, exact (side.ofShadow row)) →
    ∀ (meter : Meter) (history : List Moment), meter.readings = [] →
    Observed (ownRows rows mac) (meter.run history).readings → ∀ target : Date,
    exact (movedBetween side
      (windowReadings target (ownRows rows mac) (meter.run history).readings)) →
    shadowCredit side mac (shadowRollup target.text (rows.map ShadowRow.line)) ≤
      movedBetween side
        (windowReadings target (ownRows rows mac) (meter.run history).readings)
  atLeastLegacy : ∀ (target : Date) (ds de : Nat),
    SameDay (ownRows rows mac) target ds de →
    rollupCredit side mac.text
        (rollupDouble ds de ((rows.map ShadowRow.raw).map RawSample.line)) ≤
      shadowCredit side mac (shadowRollup target.text (rows.map ShadowRow.line))

theorem mem_window {target : Date} {own : List ShadowRow} {row : ShadowRow}
    (member : row ∈ window target own) : row ∈ own := by
  rcases List.mem_append.mp member with base | sample
  · exact List.mem_of_mem_filter (List.mem_of_getLast? (Option.mem_toList.mp base))
  · exact List.mem_of_mem_filter sample

theorem shadowCredit_exact (side : Side) (target : Date) {rows : List ShadowRow}
    (inOrder : InOrder (ownRows rows mac))
    (small : ∀ row ∈ ownRows rows mac, side.ofShadow row ≤ 2 ^ 53)
    (fits : gain (windowCounters side target (ownRows rows mac)) ≤ 2 ^ 53) :
    shadowCredit side mac (shadowRollup target.text (rows.map ShadowRow.line)) =
      gain (windowCounters side target (ownRows rows mac)) := by
  rw [shadowCredit_eq side target rows inOrder]
  apply creditDouble_eq _ fits
  intro n member
  obtain ⟨row, inside, same⟩ := List.mem_map.mp member
  rw [← same]
  exact small row (mem_window inside)

/-- The shadow rollup loses nothing across days, never counts too much, and never
less than the other rollup, as long as the counters and the traffic of a day stay
within `2 ^ 53`. -/
theorem shadow_rollup_accounts (rows : List ShadowRow) (mac : Mac) (side : Side)
    (inOrder : InOrder (ownRows rows mac)) :
    Accounts (fun n => n ≤ 2 ^ 53) rows mac side where
  nothingLost small nondecreasing := by
    have total := gain_of_nondecreasing nondecreasing
    have sampled : ∀ row ∈ ownRows rows mac,
        row.date ∈ (rows.map ShadowRow.date).toFinset := by
      intro row member
      exact List.mem_toFinset.mpr (List.mem_map_of_mem (List.mem_of_mem_filter member))
    have sum := sum_gain_windows side inOrder sampled
    have bounded : gain ((ownRows rows mac).map side.ofShadow) ≤ 2 ^ 53 := by
      have last : ((ownRows rows mac).map side.ofShadow).getLastD 0 ≤ 2 ^ 53 := by
        rw [List.getLastD_eq_getLast?, List.getLast?_map]
        cases found : (ownRows rows mac).getLast? with
        | none => exact Nat.zero_le _
        | some last => exact small last (List.mem_of_getLast? found)
      omega
    have credits : creditOfAllDates side mac rows =
        gain ((ownRows rows mac).map side.ofShadow) := by
      rw [← sum, creditOfAllDates]
      apply Finset.sum_congr rfl
      intro target member
      apply shadowCredit_exact side target inOrder small
      apply le_trans _ bounded
      rw [← sum]
      exact Finset.single_le_sum
        (f := fun target => gain (windowCounters side target (ownRows rows mac)))
        (fun _ _ => Nat.zero_le _) member
    rw [credits]
    exact total
  neverOver small meter history fresh observed target fits := by
    have bound := gain_window_le_moved side target inOrder observed
      (run_pairwise (covers_lasting side) fresh history)
    rw [shadowCredit_exact side target inOrder small (bound.trans fits)]
    exact bound
  atLeastLegacy target ds de sameDay := legacy_le_shadow side inOrder sameDay

def firstDay : Date :=
  ⟨"2024-05-01".toList, by decide⟩

def secondDay : Date :=
  ⟨"2024-05-02".toList, by decide⟩

/-- A sample of the laptop. -/
def laptopRow (ts : Nat) (date : Date) (rx : Nat) : ShadowRow :=
  ⟨ts, date, laptopMac, rx, 0, "192.168.43.5".toList, by decide, 1⟩

def twoDays : List ShadowRow :=
  [laptopRow 100 firstDay 7, laptopRow 200 firstDay 257, laptopRow 300 secondDay 40]

theorem two_days_accounts : Accounts (fun n => n ≤ 2 ^ 53) twoDays laptopMac .rx :=
  shadow_rollup_accounts twoDays laptopMac .rx
    ⟨by decide +kernel, by decide +kernel⟩

def largeRows : List ShadowRow :=
  [laptopRow 100 firstDay (2 ^ 53), laptopRow 200 firstDay (2 ^ 53 + 3)]

/-- Three bytes beyond `2 ^ 53` count as four. -/
theorem shadow_rollup_rounds :
    ¬ ∀ (rows : List ShadowRow) (mac : Mac) (side : Side),
      InOrder (ownRows rows mac) → Accounts (fun _ => True) rows mac side := by
  intro always
  have inOrder : InOrder (ownRows largeRows laptopMac) :=
    ⟨by decide +kernel, by decide +kernel⟩
  have sum := (always largeRows laptopMac .rx inOrder).nothingLost
    (fun _ _ => trivial) (by decide +kernel)
  rw [creditOfAllDates, Finset.sum_congr rfl fun target _ =>
    shadowCredit_eq .rx target largeRows inOrder] at sum
  revert sum
  decide +kernel

end Hnc.Stats
