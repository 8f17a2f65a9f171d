import Hnc.Lib.Posix
import Hnc.Lib.SlotSet
import Mathlib.Data.Set.Card

/-!
# The offload scheduler of `hotspotd`

`daemon/hotspotd/scheduler.c` keeps the hardware addresses of the devices with
a rate limit, and turns the offload of the upstream interface off when the
first one appears and on again when the last one goes.

The slots from `limited_count` on are never read, so that the array and its
count are the list of the slots before it.  A `Char` stands for a byte.
-/

namespace Hnc.Scheduler

open Posix

/-- `isxdigit` of the C locale. -/
def isXDigit (c : Char) : Bool :=
  Posix.isDigit c || ('a' ≤ c && c ≤ 'f') || ('A' ≤ c && c ≤ 'F')

/-- `tolower` of the C locale. -/
def toLower (c : Char) : Char :=
  if 'A' ≤ c ∧ c ≤ 'Z' then Char.ofNat (c.toNat + 32) else c

/-- The byte `in[i]` of a C string. -/
def byteAt (input : Text) (i : Nat) : Char :=
  input.getD i '\x00'

/-- What the loop of `normalize_mac` has written before round `i`. -/
def normalizeLoop (input : Text) : Nat → Option Text
  | 0 => some []
  | i + 1 => do
      let out ← normalizeLoop input i
      let c := byteAt input i
      if c = '\x00' then none
      else if i % 3 = 2 then
        if c ≠ ':' then none else some (out ++ [':'])
      else if isXDigit c then some (out ++ [toLower c])
      else none

/-- `normalize_mac`, with `NULL` for no string. -/
def normalizeMac (input : Option Text) : Option Text := do
  let input ← input
  let out ← normalizeLoop input 17
  let c := byteAt input 17
  if c ≠ '\x00' ∧ c ≠ '\n' ∧ c ≠ ' ' then none else some out

/-- `HNC_SCHED_MAX_LIMITED_DEVICES`. -/
def maxLimitedDevices : Nat := 256

/-- The two adapters that are built in. -/
inductive Adapter where
  | null
  | bpf
deriving DecidableEq, Repr

inductive Granularity where
  | none
  | perUpstream
deriving DecidableEq, Repr

def Adapter.granularity : Adapter → Granularity
  | .null => .none
  | .bpf => .perUpstream

/-- The part of `sched` under `sched.lock`, and what `hnc_scheduler_init`
fixes. -/
structure Sched where
  initialized : Bool
  adapter : Adapter
  limitedMacs : List Text
  primaryUpstreamIfindex : Int
  primaryUpstreamIfname : Text
deriving DecidableEq, Repr

/-- What `upstream_detect_primary` found. -/
abbrev Detected := Option (Int × Text)

def limitedSetAdd (sched : Sched) (mac : Text) : Sched :=
  { sched with
    limitedMacs :=
      (SlotSet.add maxLimitedDevices sched.limitedMacs mac).getD
        sched.limitedMacs }

def limitedSetRemove (sched : Sched) (mac : Text) : Sched :=
  { sched with
    limitedMacs :=
      (SlotSet.remove sched.limitedMacs mac).getD sched.limitedMacs }

/-- `refresh_primary_upstream_locked`: what was found before stays when
nothing is found. -/
def refreshPrimaryUpstream (sched : Sched) : Detected → Sched
  | some (idx, name) =>
      { sched with
        primaryUpstreamIfindex := idx
        primaryUpstreamIfname := name }
  | none =>
      if sched.primaryUpstreamIfindex = 0 then
        { sched with primaryUpstreamIfname := [] }
      else sched

/-- The two helpers `trigger_adapter_disable_locked` and
`trigger_adapter_restore_locked` that a call may run before it unlocks. -/
inductive Trigger where
  | disable
  | restore
deriving DecidableEq, Repr

/-- `hnc_scheduler_notify_device_limit_changed` up to its triggers. -/
def notifyDeviceLimitChanged (sched : Sched) (mac : Option Text)
    (isLimited : Int) (detected : Detected) : Sched × Option Trigger :=
  if sched.initialized then
    match normalizeMac mac with
    | none => (sched, none)
    | some norm =>
        let updated :=
          if isLimited ≠ 0 then limitedSetAdd sched norm
          else limitedSetRemove sched norm
        let oldCount := sched.limitedMacs.length
        let newCount := updated.limitedMacs.length
        if oldCount = 0 ∧ newCount > 0 then
          (refreshPrimaryUpstream updated detected, some .disable)
        else if oldCount > 0 ∧ newCount = 0 then (updated, some .restore)
        else (updated, none)
  else (sched, none)

/-- The part of `hnc_scheduler_force_restore_global` under `sched.lock`.  Both
adapters have a `restore_global`. -/
def forceRestoreClear (sched : Sched) : Sched :=
  if sched.initialized then { sched with limitedMacs := [] } else sched

/-! ## The limited set and the notifications -/

/-- A call of the control socket, with what the detection would find in it. -/
inductive Call where
  | notify (mac : Option Text) (isLimited : Int) (detected : Detected)
  | forceRestore
deriving DecidableEq, Repr

def Call.isNotify : Call → Bool
  | .notify .. => true
  | .forceRestore => false

/-- The normalized address a call is about. -/
def Call.mac? : Call → Option Text
  | .notify mac _ _ => normalizeMac mac
  | .forceRestore => none

def Call.flag : Call → Bool
  | .notify _ isLimited _ => isLimited ≠ 0
  | .forceRestore => false

/-- A call, with the trigger it ran. -/
def perform (sched : Sched) : Call → Sched × Option Trigger
  | .notify mac isLimited detected =>
      notifyDeviceLimitChanged sched mac isLimited detected
  | .forceRestore => (forceRestoreClear sched, none)

def call (sched : Sched) (next : Call) : Sched :=
  (perform sched next).1

/-- The flag of the last notification about `mac` since the last forced
restore. -/
def lastFlag (mac : Text) (history : List Call) : Option Bool :=
  let since := history.reverse.takeWhile Call.isNotify
  (since.find? fun next => next.mac? = some mac).map Call.flag

/-- The addresses that were last notified as limited. -/
def limitedSince (history : List Call) : Set Text :=
  fun mac => lastFlag mac history = some true

theorem mem_limitedSince {mac : Text} {history : List Call} :
    mac ∈ limitedSince history ↔ lastFlag mac history = some true :=
  Iff.rfl

theorem lastFlag_nil (mac : Text) : lastFlag mac [] = none := rfl

theorem lastFlag_forceRestore (mac : Text) (history : List Call) :
    lastFlag mac (history ++ [.forceRestore]) = none := by
  simp [lastFlag, Call.isNotify]

theorem lastFlag_notify (mac : Text) (history : List Call)
    (input : Option Text) (isLimited : Int) (detected : Detected) :
    lastFlag mac (history ++ [.notify input isLimited detected]) =
      if normalizeMac input = some mac then some (decide (isLimited ≠ 0))
      else lastFlag mac history := by
  simp only [lastFlag, List.reverse_append, List.reverse_singleton,
    List.singleton_append, List.takeWhile_cons, Call.isNotify, Call.mac?]
  by_cases about : normalizeMac input = some mac
  · simp [about, Call.flag]
  · simp [about]

variable {input : Option Text} {norm : Text}

theorem mem_limitedSince_notify {history : List Call}
    (valid : normalizeMac input = some norm) (isLimited : Int)
    (detected : Detected) (mac : Text) :
    mac ∈ limitedSince (history ++ [.notify input isLimited detected]) ↔
      if mac = norm then isLimited ≠ 0 else mac ∈ limitedSince history := by
  rw [mem_limitedSince, lastFlag_notify, valid]
  by_cases same : mac = norm
  · simp [same]
  · have other : ¬ (some norm = some mac) := by
      intro equal
      exact same (Option.some.inj equal).symm
    rw [if_neg other, if_neg same, mem_limitedSince]

/-- What the slots hold after the calls of `history`. -/
structure Tracks (sched : Sched) (history : List Call) : Prop where
  initialized : sched.initialized = true
  nodup : sched.limitedMacs.Nodup
  mem : ∀ mac, mac ∈ sched.limitedMacs ↔ mac ∈ limitedSince history

@[simp] theorem refreshPrimaryUpstream_limitedMacs (sched : Sched)
    (detected : Detected) :
    (refreshPrimaryUpstream sched detected).limitedMacs =
      sched.limitedMacs := by
  cases detected with
  | some found => rfl
  | none =>
      simp only [refreshPrimaryUpstream]
      split <;> rfl

@[simp] theorem refreshPrimaryUpstream_initialized (sched : Sched)
    (detected : Detected) :
    (refreshPrimaryUpstream sched detected).initialized =
      sched.initialized := by
  cases detected with
  | some found => rfl
  | none =>
      simp only [refreshPrimaryUpstream]
      split <;> rfl

/-- The set operation of a notification. -/
def changeLimited (sched : Sched) (norm : Text) (isLimited : Int) : Sched :=
  if isLimited ≠ 0 then limitedSetAdd sched norm
  else limitedSetRemove sched norm

@[simp] theorem changeLimited_initialized (sched : Sched) (norm : Text)
    (isLimited : Int) :
    (changeLimited sched norm isLimited).initialized = sched.initialized := by
  rw [changeLimited]
  split <;> rfl

/-- Everything a notification about a valid address can do. -/
theorem notify_cases {sched : Sched} (ready : sched.initialized = true)
    (valid : normalizeMac input = some norm) (isLimited : Int)
    (detected : Detected) :
    let updated := changeLimited sched norm isLimited
    let result := notifyDeviceLimitChanged sched input isLimited detected
    (sched.limitedMacs = [] ∧ updated.limitedMacs ≠ [] ∧
      result = (refreshPrimaryUpstream updated detected, some .disable)) ∨
    (sched.limitedMacs ≠ [] ∧ updated.limitedMacs = [] ∧
      result = (updated, some .restore)) ∨
    ((sched.limitedMacs = [] ↔ updated.limitedMacs = []) ∧
      result = (updated, none)) := by
  intro updated result
  have unfolded : result =
      if sched.limitedMacs.length = 0 ∧ updated.limitedMacs.length > 0 then
        (refreshPrimaryUpstream updated detected, some .disable)
      else if sched.limitedMacs.length > 0 ∧
          updated.limitedMacs.length = 0 then (updated, some .restore)
      else (updated, none) := by
    simp only [result, notifyDeviceLimitChanged, ready, valid]
    rfl
  by_cases before : sched.limitedMacs = []
  · by_cases later : updated.limitedMacs = []
    · simp [unfolded, before, later]
    · simp [unfolded, before, later]
  · by_cases later : updated.limitedMacs = []
    · simp [unfolded, before, later]
    · simp [unfolded, before, later]

theorem limitedSince_nil : limitedSince [] = ∅ := by
  apply Set.eq_empty_of_forall_notMem
  intro mac member
  cases member

theorem limitedSince_forceRestore (history : List Call) :
    limitedSince (history ++ [.forceRestore]) = ∅ := by
  apply Set.eq_empty_of_forall_notMem
  intro mac member
  rw [mem_limitedSince, lastFlag_forceRestore] at member
  cases member

theorem limitedSince_invalid (history : List Call)
    (invalid : normalizeMac input = none) (isLimited : Int) (detected : Detected) :
    limitedSince (history ++ [.notify input isLimited detected]) =
      limitedSince history := by
  apply Set.ext
  intro mac
  rw [mem_limitedSince, lastFlag_notify, invalid, if_neg nofun,
    mem_limitedSince]

section

variable {sched : Sched} {history : List Call} (tracks : Tracks sched history)
include tracks

theorem Tracks.eq_empty :
    sched.limitedMacs = [] ↔ limitedSince history = ∅ := by
  rw [List.eq_nil_iff_forall_not_mem, Set.eq_empty_iff_forall_notMem]
  exact forall_congr' fun mac => not_congr (tracks.mem mac)

/-- As long as no more than 256 devices are limited, a new one finds a slot. -/
theorem Tracks.room (fresh : norm ∉ sched.limitedMacs) {later : Set Text}
    (grown : ∀ mac, mac ∈ later ↔ mac = norm ∨ mac ∈ limitedSince history)
    (bounded : later.encard ≤ maxLimitedDevices) :
    sched.limitedMacs.length < maxLimitedDevices := by
  have slots : later = ((norm :: sched.limitedMacs).toFinset : Set Text) := by
    apply Set.ext
    intro mac
    rw [grown, ← tracks.mem]
    simp
  rw [slots, Set.encard_coe_eq_coe_finsetCard,
    List.toFinset_card_of_nodup (tracks.nodup.cons fresh)] at bounded
  have size : (norm :: sched.limitedMacs).length ≤ maxLimitedDevices := by
    exact_mod_cast bounded
  rw [List.length_cons] at size
  omega

/-- What the set operation of a notification leaves. -/
theorem mem_changeLimited (valid : normalizeMac input = some norm)
    (isLimited : Int) (detected : Detected)
    (bounded : (limitedSince (history ++ [.notify input isLimited detected])).encard ≤ maxLimitedDevices)
    (mac : Text) :
    mac ∈ (changeLimited sched norm isLimited).limitedMacs ↔
      mac ∈ limitedSince (history ++ [.notify input isLimited detected]) := by
  rw [mem_limitedSince_notify valid, ← tracks.mem]
  by_cases limited : isLimited = 0
  · have removed : changeLimited sched norm isLimited =
        limitedSetRemove sched norm := by
      simp [changeLimited, limited]
    rw [removed, limitedSetRemove, SlotSet.mem_remove tracks.nodup]
    by_cases same : mac = norm <;> simp [same, limited]
  · have added : changeLimited sched norm isLimited =
        limitedSetAdd sched norm := by
      simp [changeLimited, limited]
    have grown : ∀ other, other ∈ limitedSince
        (history ++ [.notify input isLimited detected]) ↔
          other = norm ∨ other ∈ limitedSince history := by
      intro other
      rw [mem_limitedSince_notify valid]
      by_cases same : other = norm <;> simp [same, limited]
    have room : norm ∉ sched.limitedMacs →
        sched.limitedMacs.length < maxLimitedDevices := by
      intro fresh
      exact tracks.room fresh grown bounded
    rw [added, limitedSetAdd, SlotSet.mem_add room]
    by_cases same : mac = norm <;> simp [same, limited]

end

theorem nodup_changeLimited {sched : Sched} (nodup : sched.limitedMacs.Nodup)
    (norm : Text) (isLimited : Int) :
    (changeLimited sched norm isLimited).limitedMacs.Nodup := by
  rw [changeLimited]
  split
  · exact SlotSet.nodup_add nodup
  · exact SlotSet.nodup_remove nodup

/-- The trigger that belongs to a call: the first limited device turns the
offload off, the last one that a notification takes away turns it on. -/
def Edge (history : List Call) (next : Call) : Option Trigger → Prop
  | some .disable =>
      limitedSince history = ∅ ∧ limitedSince (history ++ [next]) ≠ ∅
  | some .restore =>
      next.isNotify = true ∧ limitedSince history ≠ ∅ ∧
        limitedSince (history ++ [next]) = ∅
  | none =>
      next.isNotify = false ∨
        (limitedSince history = ∅ ↔ limitedSince (history ++ [next]) = ∅)

theorem perform_notify {sched : Sched} {history : List Call}
    (tracks : Tracks sched history) (input : Option Text) (isLimited : Int)
    (detected : Detected)
    (bounded : (limitedSince
      (history ++ [.notify input isLimited detected])).encard ≤
        maxLimitedDevices) :
    Tracks (notifyDeviceLimitChanged sched input isLimited detected).1
        (history ++ [.notify input isLimited detected]) ∧
      Edge history (.notify input isLimited detected)
        (notifyDeviceLimitChanged sched input isLimited detected).2 := by
  cases valid : normalizeMac input with
  | none =>
      have ignored : notifyDeviceLimitChanged sched input isLimited detected =
          (sched, none) := by
        simp [notifyDeviceLimitChanged, valid]
      have same := limitedSince_invalid history valid isLimited detected
      rw [ignored]
      refine ⟨⟨tracks.initialized, tracks.nodup, ?_⟩, ?_⟩
      · intro mac
        rw [same]
        exact tracks.mem mac
      · right
        rw [same]
  | some norm =>
      have changed : Tracks (changeLimited sched norm isLimited)
          (history ++ [.notify input isLimited detected]) := by
        refine ⟨?_, nodup_changeLimited tracks.nodup norm isLimited,
          mem_changeLimited tracks valid isLimited detected bounded⟩
        rw [changeLimited_initialized]
        exact tracks.initialized
      have before := tracks.eq_empty
      have later := changed.eq_empty
      obtain ⟨none, some, result⟩ | ⟨some, none, result⟩ | ⟨same, result⟩ :=
        notify_cases tracks.initialized valid isLimited detected
      · rw [result]
        refine ⟨⟨?_, ?_, ?_⟩, before.mp none, ?_⟩
        · rw [refreshPrimaryUpstream_initialized]
          exact changed.initialized
        · rw [refreshPrimaryUpstream_limitedMacs]
          exact changed.nodup
        · rw [refreshPrimaryUpstream_limitedMacs]
          exact changed.mem
        · intro empty
          exact some (later.mpr empty)
      · rw [result]
        refine ⟨changed, rfl, ?_, later.mp none⟩
        intro empty
        exact some (before.mpr empty)
      · rw [result]
        refine ⟨changed, Or.inr ?_⟩
        rw [← before, ← later]
        exact same

/-- One call keeps the slots what the notifications say, and runs the trigger
of the edge that it is. -/
theorem perform_tracks {sched : Sched} {history : List Call}
    (tracks : Tracks sched history) (next : Call)
    (bounded : (limitedSince (history ++ [next])).encard ≤ maxLimitedDevices) :
    Tracks (call sched next) (history ++ [next]) ∧
      Edge history next (perform sched next).2 := by
  cases next with
  | notify mac isLimited detected =>
      exact perform_notify tracks mac isLimited detected bounded
  | forceRestore =>
      refine ⟨⟨?_, ?_, ?_⟩, Or.inl rfl⟩
      · simp [call, perform, forceRestoreClear, tracks.initialized]
      · simp [call, perform, forceRestoreClear, tracks.initialized]
      · intro mac
        rw [limitedSince_forceRestore]
        simp [call, perform, forceRestoreClear, tracks.initialized]

theorem run_tracks {start : Sched} (ready : start.initialized = true)
    (empty : start.limitedMacs = []) (calls : List Call)
    (bounded : ∀ before, before <+: calls →
      (limitedSince before).encard ≤ maxLimitedDevices) :
    Tracks (calls.foldl call start) calls := by
  induction calls using List.reverseRecOn with
  | nil =>
      refine ⟨ready, ?_, ?_⟩
      · simp [empty]
      · intro mac
        simp [empty, limitedSince_nil]
  | append_singleton calls next induction =>
      have tracks := induction fun before initial =>
        bounded before (initial.trans (List.prefix_append calls [next]))
      rw [List.foldl_append]
      exact (perform_tracks tracks next (bounded _ List.prefix_rfl)).1

/-- Whatever the calls were, as long as at most 256 addresses are limited, the
slots hold the addresses last notified as limited, each once; the next call
disables the offload exactly when it limits the first one and restores it
exactly when a notification takes the last one away. -/
theorem limited_set_is_last_notified (start : Sched)
    (ready : start.initialized = true) (empty : start.limitedMacs = [])
    (calls : List Call)
    (bounded : ∀ before, before <+: calls →
      (limitedSince before).encard ≤ maxLimitedDevices) :
    (calls.foldl call start).limitedMacs.Nodup ∧
    (∀ mac, mac ∈ (calls.foldl call start).limitedMacs ↔
      lastFlag mac calls = some true) ∧
    ∀ before next after, calls = before ++ next :: after →
      let trigger := (perform (before.foldl call start) next).2
      (trigger = some .disable ↔
        limitedSince before = ∅ ∧ limitedSince (before ++ [next]) ≠ ∅) ∧
      (trigger = some .restore ↔
        next.isNotify = true ∧ limitedSince before ≠ ∅ ∧
          limitedSince (before ++ [next]) = ∅) := by
  have tracks := run_tracks ready empty calls bounded
  refine ⟨tracks.nodup, tracks.mem, ?_⟩
  intro before next after split trigger
  have initial : before <+: calls := ⟨next :: after, split.symm⟩
  have extended : before ++ [next] <+: calls := ⟨after, by simp [split]⟩
  have tracked := run_tracks ready empty before fun earlier shorter =>
    bounded earlier (shorter.trans initial)
  have edge := (perform_tracks tracked next (bounded _ extended)).2
  have forced : next.isNotify = false →
      limitedSince (before ++ [next]) = ∅ := by
    intro silent
    cases next with
    | notify => cases silent
    | forceRestore => exact limitedSince_forceRestore before
  change Edge before next trigger at edge
  clear_value trigger
  cases trigger with
  | none =>
      simp only [Edge] at edge
      simp only [reduceCtorEq, false_iff]
      rcases edge with silent | same
      · simp [silent, forced silent]
      · by_cases none : limitedSince before = ∅ <;> simp_all
  | some kind =>
      cases kind with
      | disable =>
          simp only [Edge] at edge
          simp [edge.1, edge.2]
      | restore =>
          simp only [Edge] at edge
          simp [edge.1, edge.2.1, edge.2.2]

theorem encard_limitedSince_le (history : List Call) :
    (limitedSince history).encard ≤ history.length := by
  have named : limitedSince history ⊆
      ((history.filterMap Call.mac?).toFinset : Set Text) := by
    intro mac member
    obtain ⟨next, found, _⟩ := Option.map_eq_some_iff.mp member
    have inside := List.mem_of_find?_eq_some found
    have about := List.find?_some found
    rw [List.coe_toFinset, Set.mem_ofPred_eq, List.mem_filterMap]
    refine ⟨next, ?_, of_decide_eq_true about⟩
    exact List.mem_reverse.mp ((List.takeWhile_subset _) inside)
  calc (limitedSince history).encard
      ≤ (history.filterMap Call.mac?).toFinset.card := by
        rw [← Set.encard_coe_eq_coe_finsetCard]
        exact Set.encard_le_encard named
    _ ≤ (history.filterMap Call.mac?).length := by
        exact_mod_cast List.toFinset_card_le _
    _ ≤ history.length := by
        exact_mod_cast List.length_filterMap_le _ _

def readySched : Sched :=
  ⟨true, .bpf, [], 0, []⟩

/-- Two devices, the first in two spellings; the second goes last. -/
def sampleCalls : List Call :=
  [.notify (some "aa:bb:cc:dd:ee:01".toList) 1 none,
    .notify (some "AA:BB:CC:DD:EE:02\n".toList) 1 none,
    .notify (some "AA:bb:cc:dd:ee:01".toList) 0 none,
    .notify (some "not-a-mac".toList) 1 none,
    .notify (some "aa:bb:cc:dd:ee:02".toList) 0 none]

theorem sampleCalls_limited_set :
    (sampleCalls.foldl call readySched).limitedMacs.Nodup ∧
    (∀ mac, mac ∈ (sampleCalls.foldl call readySched).limitedMacs ↔
      lastFlag mac sampleCalls = some true) ∧
    ∀ before next after, sampleCalls = before ++ next :: after →
      let trigger := (perform (before.foldl call readySched) next).2
      (trigger = some .disable ↔
        limitedSince before = ∅ ∧ limitedSince (before ++ [next]) ≠ ∅) ∧
      (trigger = some .restore ↔
        next.isNotify = true ∧ limitedSince before ≠ ∅ ∧
          limitedSince (before ++ [next]) = ∅) := by
  apply limited_set_is_last_notified readySched rfl rfl
  intro before initial
  have short : (before.length : ENat) ≤ maxLimitedDevices := by
    have length : before.length ≤ sampleCalls.length := initial.length_le
    exact_mod_cast length.trans (show 5 ≤ 256 by omega)
  exact (encard_limitedSince_le before).trans short

end Hnc.Scheduler
