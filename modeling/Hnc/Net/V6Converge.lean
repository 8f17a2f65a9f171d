import Hnc.Lib.Runs
import Hnc.Net.MarkChain
import Hnc.Net.V6Sync

/-!
# When the IPv6 filters converge

The snapshot of a marked device is meant to say which addresses have a filter.
While that is true, a synchronisation without failing additions brings the
filters to the current addresses: either the snapshot already has them, or the
filters are rebuilt.  The events that make a snapshot false are excluded by
`KeepsPace`, and every other one keeps it true.
-/

namespace Hnc.V6Sync

open Posix IptablesManager
open MarkChain (addressRules markDevice_hncMark delMarkRules_gc_hncMark
  mem_markDevice setMark_of_mem_deleted unmarkDevice_hncMark)

theorem addressesAt_append (left right : List Filter) (prio : Nat) :
    addressesAt (left ++ right) prio =
      addressesAt left prio ++ addressesAt right prio := by
  simp [addressesAt]

theorem addressesAt_delFilters_self (prio : Nat) (filters : List Filter) :
    addressesAt (delFilters prio filters) prio = [] := by
  simp [addressesAt, delFilters]

variable {other : Nat}

theorem addressesAt_delFilters {prio : Nat} (different : other ≠ prio)
    (filters : List Filter) :
    addressesAt (delFilters prio filters) other = addressesAt filters other := by
  rw [addressesAt, delFilters, List.filter_filter]
  congr 1
  apply List.filter_congr
  intro filter _
  by_cases same : filter.prio = other
  · simp [same, different]
  · simp [same]

theorem addressesAt_added_self (device : Device) (prio markId : Nat)
    (addrs : List Text) :
    addressesAt (added [] device prio markId addrs) prio = addrs := by
  induction addrs with
  | nil => rfl
  | cons addr addrs induction =>
      simp only [addressesAt, added] at induction ⊢
      simpa using induction

theorem addressesAt_added_other {prio : Nat} (different : prio ≠ other)
    (device : Device) (markId : Nat) (addrs : List Text) :
    addressesAt (added [] device prio markId addrs) other = [] := by
  simp [addressesAt, added, different]

/-- Every rule for a link-layer address sets a mark of its device alone. -/
structure WellMarked (chain : List MarkRule) : Prop where
  rules : ∀ rule ∈ chain, ∀ text ∈ rule.macSource, ∃ mac markId,
    text = Mac.text mac ∧ rule.setMark = markBase + markId ∧ 1 ≤ markId ∧
      markId ≤ 99
  oneMark : ∀ mac left right, HasMark chain mac left →
    HasMark chain mac right → left = right
  oneMac : ∀ markId left right, HasMark chain left markId →
    HasMark chain right markId → left = right

theorem mem_listMarkedDevices {chain : List MarkRule} {device : Marked} :
    device ∈ listMarkedDevices chain ↔ ∃ rule ∈ chain,
      rule.macSource = some device.mac ∧ rule.setMark = device.mark := by
  obtain ⟨mac, mark⟩ := device
  simp only [listMarkedDevices, List.mem_insertionSort, List.mem_dedup,
    List.mem_filterMap, Option.map_eq_some_iff, Marked.mk.injEq]
  constructor
  · rintro ⟨rule, member, text, source, rfl, rfl⟩
    exact ⟨rule, member, source, rfl⟩
  · rintro ⟨rule, member, source, rfl⟩
    exact ⟨rule, member, mac, source, rfl, rfl⟩

namespace WellMarked

variable {chain : List MarkRule} {mac : Mac} {markId : Nat}

theorem range (well : WellMarked chain) (marked : HasMark chain mac markId) :
    1 ≤ markId ∧ markId ≤ 99 := by
  obtain ⟨rule, member, source, mark⟩ := marked
  obtain ⟨_, known, _, same, low, high⟩ := well.rules rule member _ source
  have equal : known = markId := by omega
  exact ⟨equal ▸ low, equal ▸ high⟩

theorem hasMark_of_listed (well : WellMarked chain) {device : Marked}
    (listed : device ∈ listMarkedDevices chain) :
    ∃ mac markId, device.mac = Mac.text mac ∧ device.mark = markBase + markId ∧
      HasMark chain mac markId := by
  obtain ⟨rule, member, source, mark⟩ := mem_listMarkedDevices.mp listed
  obtain ⟨mac, markId, text, same, _⟩ := well.rules rule member _ source
  exact ⟨mac, markId, text, mark ▸ same, rule, member, text ▸ source, same⟩

theorem markOfMac_eq_some (well : WellMarked chain)
    (marked : HasMark chain mac markId) :
    markOfMac chain mac.text = some (markBase + markId) := by
  obtain ⟨rule, member, source, mark⟩ := marked
  have listed : (⟨mac.text, markBase + markId⟩ : Marked) ∈
      listMarkedDevices chain :=
    mem_listMarkedDevices.mpr ⟨rule, member, source, mark⟩
  rw [markOfMac]
  cases found : (listMarkedDevices chain).find?
      fun device => device.mac = mac.text with
  | none =>
      rw [List.find?_eq_none] at found
      have miss := found _ listed
      simp at miss
  | some device =>
      have inList := List.mem_of_find?_eq_some found
      have named : device.mac = mac.text := by
        simpa using List.find?_some found
      obtain ⟨other, own, text, same, has⟩ := well.hasMark_of_listed inList
      obtain rfl : other = mac := Mac.ext_text (text.symm.trans named)
      have equal : own = markId :=
        well.oneMark other own markId has ⟨rule, member, source, mark⟩
      rw [Option.map_some, same, equal]

theorem markOfMac_eq_none (well : WellMarked chain)
    (unmarked : ∀ markId, ¬HasMark chain mac markId) :
    markOfMac chain mac.text = none := by
  rw [markOfMac, Option.map_eq_none_iff, List.find?_eq_none]
  intro device listed named
  obtain ⟨other, markId, text, _, has⟩ := well.hasMark_of_listed listed
  have same : other = mac := Mac.ext_text (text.symm.trans (by simpa using named))
  exact unmarked markId (same ▸ has)

end WellMarked

theorem mem_sortUnique {line : Text} {lines : List Text} :
    line ∈ sortUnique lines ↔ line ∈ lines := by
  simp [sortUnique]

theorem nodup_sortUnique (lines : List Text) : (sortUnique lines).Nodup := by
  rw [sortUnique, (List.perm_insertionSort _ _).nodup_iff]
  exact List.nodup_dedup lines

theorem length_of_infix {mac : Mac} {word : Text}
    (inside : mac.text <:+: word.map Char.toLower) : 17 ≤ word.length := by
  have longer := inside.length_le
  rwa [mac.text_length, List.length_map] at longer

/-- A line mentions a device by its link-layer address, or inside the network
address. -/
theorem mentions_iff (mac : Mac) (entry : Neighbour) :
    mentions mac.text entry = true ↔
      entry.lladdr = some mac ∨
        mac.text <:+: entry.address.map Char.toLower := by
  have short : ∀ word : Text, word.length < 17 →
      ¬mac.text <:+: word.map Char.toLower := by
    intro word few inside
    have long := length_of_infix inside
    omega
  have routerShort := short "router".toList (by decide)
  have lladdrShort := short "lladdr".toList (by decide)
  have stateShort : ¬mac.text <:+: entry.state.text.toList.map Char.toLower := by
    apply short
    cases entry.state <;> decide
  have inMac : ∀ other : Mac,
      mac.text <:+: other.text.map Char.toLower ↔ other = mac := by
    intro other
    rw [toLower_mac]
    constructor
    · intro inside
      apply Mac.ext_text
      exact (inside.eq_of_length (by
        rw [mac.text_length, other.text_length])).symm
    · rintro rfl
      exact List.infix_refl _
  simp only [mentions, toLower_mac, Neighbour.words, List.any_append,
    List.any_cons, Bool.or_eq_true, decide_eq_true_eq, stateShort]
  have router : (if entry.router then ["router".toList] else []).any
      (fun word => decide (mac.text <:+: word.map Char.toLower)) = false := by
    cases entry.router
    · rfl
    · simp only [if_true, List.any_cons, List.any_nil, routerShort,
        decide_false, Bool.or_false]
  rw [router]
  cases entry.lladdr with
  | none => simp only [List.any_nil, Bool.false_eq_true, or_false,
      reduceCtorEq, false_or]
  | some other =>
      simp only [List.any_cons, List.any_nil, lladdrShort, decide_false,
        Bool.false_or, Bool.or_false, inMac, decide_eq_true_eq,
        Bool.false_eq_true, or_false, Option.some.injEq]
      exact or_comm

theorem isActive_iff (state : Nud) :
    isActive state = true ↔ state ≠ .failed ∧ state ≠ .incomplete := by
  cases state <;> decide

theorem mem_neighLines {table : List Neighbour} {entry : Neighbour}
    (v6 : isV6 entry.address = true) :
    entry ∈ neighLines table ↔ entry ∈ table := by
  rw [neighLines]
  split
  · exact Iff.rfl
  · simp [v6]

/-- What is found for a device are its current addresses, when no other address
contains the text of its link-layer address. -/
theorem getV6Addrs_onePer {table : List Neighbour} {mac : Mac}
    (apart : ∀ entry ∈ table, mac.text <:+: entry.address.map Char.toLower →
      entry.lladdr = some mac) :
    OnePer (IsCurrent table mac) (getV6Addrs table mac.text) := by
  refine ⟨nodup_sortUnique _, ?_⟩
  intro address
  simp only [getV6Addrs, mem_sortUnique, List.mem_map, List.mem_filter,
    Bool.and_eq_true, Bool.not_eq_true', mentions_iff, isActive_iff]
  constructor
  · rintro ⟨entry, ⟨member, ⟨⟨mention, v6⟩, routable⟩, active⟩, rfl⟩
    rw [mem_neighLines v6] at member
    have own : entry.lladdr = some mac := by
      rcases mention with own | inside
      · exact own
      · exact apart entry member inside
    exact ⟨entry, member, rfl, own, v6, routable, active⟩
  · rintro ⟨entry, member, rfl, own, v6, routable, active⟩
    exact ⟨entry, ⟨(mem_neighLines v6).mpr member,
      ⟨⟨.inl own, v6⟩, routable⟩, active⟩, rfl⟩

structure Truthful (state : State) : Prop where
  well : WellMarked state.tables.hncMark
  hotspot : ∀ mac markId, HasMark state.tables.hncMark mac markId →
    addressesAt (state.filters .hotspot) (prioBase + markId) =
      snapshotOf state mac
  ifb0 : ∀ mac markId, HasMark state.tables.hncMark mac markId →
    markId ∈ state.classes →
    addressesAt (state.filters .ifb0) (prioBase + markId) =
      snapshotOf state mac
  unmarked : ∀ mac, (∀ markId, ¬HasMark state.tables.hncMark mac markId) →
    snapshotOf state mac = []
  owned : ∀ device, ∀ filter ∈ state.filters device, ∃ mac markId,
    HasMark state.tables.hncMark mac markId ∧ filter.prio = prioBase + markId

theorem macSource_of_deleted {mac : Text} {mark : Nat} {olds : List Text}
    {rule : MarkRule}
    (member : rule ∈ macRule mac mark :: addressRules mac mark olds) :
    rule.macSource = some mac ∨ rule.macSource = none := by
  rcases List.mem_cons.mp member with rfl | listed
  · exact .inl rfl
  · simp only [addressRules, List.mem_flatMap, List.mem_cons,
      List.not_mem_nil, or_false] at listed
    obtain ⟨old, _, rfl | rfl⟩ := listed
    · exact .inl rfl
    · exact .inr rfl

variable {ip : Ipv4} {tables : Tables}

theorem hasMark_markDevice {mac : Mac} {markId : Nat} (other : Mac) (m : Nat) :
    HasMark (markDevice ip.text mac.text markId tables).hncMark other m ↔
      HasMark tables.hncMark other m ∨ (other = mac ∧ m = markId) := by
  constructor
  · rintro ⟨rule, member, source, mark⟩
    rcases mem_markDevice source member with old | ⟨text, same⟩
    · exact .inl ⟨rule, old, source, mark⟩
    · exact .inr ⟨Mac.ext_text text, by omega⟩
  · have own : HasMark (markDevice ip.text mac.text markId tables).hncMark mac
        markId := by
      refine ⟨macRule mac.text (markBase + markId), ?_, rfl, rfl⟩
      rw [markDevice_hncMark]
      simp
    rintro (⟨rule, member, source, mark⟩ | ⟨rfl, rfl⟩)
    · by_cases same : other = mac ∧ m = markId
      · rw [same.1, same.2]
        exact own
      · refine ⟨rule, ?_, source, mark⟩
        rw [markDevice_hncMark, List.mem_append, delMarkRules_gc_hncMark]
        refine .inl (List.mem_filter.mpr ⟨member, ?_⟩)
        simp only [decide_eq_true_eq]
        intro deleted
        have sameMark := setMark_of_mem_deleted deleted
        rcases macSource_of_deleted deleted with sameMac | none
        · have text : other.text = mac.text := by
            simpa [source] using sameMac
          exact same ⟨Mac.ext_text text, by omega⟩
        · simp [source] at none
    · exact own

theorem hasMark_of_unmarkDevice {ip mac : Text} {markId : Nat} {other : Mac}
    {m : Nat}
    (marked : HasMark (unmarkDevice ip mac markId tables).hncMark other m) :
    HasMark tables.hncMark other m := by
  obtain ⟨rule, member, rest⟩ := marked
  rw [unmarkDevice_hncMark] at member
  exact ⟨rule, List.mem_of_mem_filter member, rest⟩

theorem hasMark_unmarkDevice_other {ip : Text} {mac other : Mac} {markId m : Nat}
    (different : other ≠ mac) (marked : HasMark tables.hncMark other m) :
    HasMark (unmarkDevice ip mac.text markId tables).hncMark other m := by
  obtain ⟨rule, member, source, mark⟩ := marked
  refine ⟨rule, ?_, source, mark⟩
  rw [unmarkDevice_hncMark]
  refine List.mem_filter.mpr ⟨member, ?_⟩
  simp only [decide_eq_true_eq]
  intro deleted
  rcases macSource_of_deleted deleted with sameMac | none
  · have text : other.text = mac.text := by
      simpa [source] using sameMac
    exact different (Mac.ext_text text)
  · simp [source] at none

namespace WellMarked

theorem mono {chain smaller : List MarkRule} (well : WellMarked chain)
    (kept : ∀ rule ∈ smaller, rule ∈ chain) : WellMarked smaller := by
  have before : ∀ {mac markId}, HasMark smaller mac markId →
      HasMark chain mac markId := by
    rintro mac markId ⟨rule, member, rest⟩
    exact ⟨rule, kept rule member, rest⟩
  constructor
  · intro rule member
    exact well.rules rule (kept rule member)
  · intro mac left right first second
    exact well.oneMark mac left right (before first) (before second)
  · intro markId left right first second
    exact well.oneMac markId left right (before first) (before second)

theorem markDevice (well : WellMarked tables.hncMark) {mac : Mac} {markId : Nat}
    (low : 1 ≤ markId) (high : markId ≤ 99)
    (oneMark : ∀ other, HasMark tables.hncMark mac other → other = markId)
    (oneMac : ∀ other, HasMark tables.hncMark other markId → other = mac) :
    WellMarked
      (IptablesManager.markDevice ip.text mac.text markId tables).hncMark := by
  constructor
  · intro rule member text source
    rcases mem_markDevice source member with old | ⟨rfl, mark⟩
    · exact well.rules rule old text source
    · exact ⟨mac, markId, rfl, mark, low, high⟩
  · intro device left right first second
    rw [hasMark_markDevice] at first second
    rcases first with oldLeft | ⟨rfl, rfl⟩ <;>
      rcases second with oldRight | ⟨same, rfl⟩
    · exact well.oneMark device left right oldLeft oldRight
    · exact oneMark left (same ▸ oldLeft)
    · exact (oneMark right oldRight).symm
    · rfl
  · intro m left right first second
    rw [hasMark_markDevice] at first second
    rcases first with oldLeft | ⟨rfl, rfl⟩ <;>
      rcases second with oldRight | ⟨rfl, same⟩
    · exact well.oneMac m left right oldLeft oldRight
    · exact oneMac left (same ▸ oldLeft)
    · exact (oneMac right oldRight).symm
    · rfl

end WellMarked

/-! ### What keeps the snapshots true -/

namespace Truthful

variable {state : State}

variable {markId : Nat}

theorem addressesAt_eq_nil (truthful : Truthful state) (device : Device)
    (nobody : ∀ mac, ¬HasMark state.tables.hncMark mac markId) :
    addressesAt (state.filters device) (prioBase + markId) = [] := by
  rw [addressesAt, List.map_eq_nil_iff, List.filter_eq_nil_iff]
  intro filter member same
  obtain ⟨mac, own, has, prio⟩ := truthful.owned device filter member
  have equal : own = markId := by
    simp only [decide_eq_true_eq] at same
    omega
  exact nobody mac (equal ▸ has)

theorem mark (truthful : Truthful state) {mac : Mac}
    (own : OwnMark state (.mark ip mac markId)) :
    Truthful (step state (.mark ip mac markId)) := by
  obtain ⟨low, high, oneMark, oneMac⟩ := own
  -- A device that was not marked starts without a snapshot and without filters.
  have fresh : ∀ device, ¬HasMark state.tables.hncMark mac markId →
      addressesAt (state.filters device) (prioBase + markId) =
        snapshotOf state mac := by
    intro device newly
    have noMark : ∀ other, ¬HasMark state.tables.hncMark mac other := by
      intro other has
      exact newly (oneMark other has ▸ has)
    have nobody : ∀ other, ¬HasMark state.tables.hncMark other markId := by
      intro other has
      exact newly (oneMac other has ▸ has)
    rw [truthful.addressesAt_eq_nil device nobody, truthful.unmarked mac noMark]
  constructor
  case well => exact truthful.well.markDevice low high oneMark oneMac
  case hotspot =>
      intro device m marked
      rcases (hasMark_markDevice device m).mp marked with old | ⟨rfl, rfl⟩
      · exact truthful.hotspot device m old
      · by_cases old : HasMark state.tables.hncMark device m
        · exact truthful.hotspot device m old
        · exact fresh .hotspot old
  case ifb0 =>
      intro device m marked inClasses
      rcases (hasMark_markDevice device m).mp marked with old | ⟨rfl, rfl⟩
      · exact truthful.ifb0 device m old inClasses
      · by_cases old : HasMark state.tables.hncMark device m
        · exact truthful.ifb0 device m old inClasses
        · exact fresh .ifb0 old
  case unmarked =>
      intro device noMark
      apply truthful.unmarked device
      intro m has
      exact noMark m ((hasMark_markDevice device m).mpr (.inl has))
  case owned =>
      intro device filter member
      obtain ⟨owner, m, has, prio⟩ := truthful.owned device filter member
      exact ⟨owner, m, (hasMark_markDevice owner m).mpr (.inl has), prio⟩

theorem clearOne_filters (truthful : Truthful state) (mac : Mac)
    (device : Device) :
    (∀ markId, HasMark state.tables.hncMark mac markId →
      (clearOne mac.text state).filters device =
        delFilters (prioBase + markId) (state.filters device)) ∧
    ((∀ markId, ¬HasMark state.tables.hncMark mac markId) →
      (clearOne mac.text state).filters device = state.filters device) := by
  constructor
  · intro markId marked
    have prio : prioBase + (markBase + markId) - markBase = prioBase + markId := by
      omega
    simp only [clearOne, truthful.well.markOfMac_eq_some marked, prio]
  · intro noMark
    simp only [clearOne, truthful.well.markOfMac_eq_none noMark]

theorem snapshotOf_clearOne (mac other : Mac) :
    snapshotOf (clearOne mac.text state) other =
      if other = mac then [] else snapshotOf state other := by
  simp only [snapshotOf, clearOne, KeyMap.lookup_erase_eq]
  by_cases same : other = mac
  · simp [same]
  · have different : other.text ≠ mac.text := fun text => same (Mac.ext_text text)
    simp [same, different]

theorem addressesAt_clearOne (truthful : Truthful state) (mac : Mac)
    (device : Device) {other : Mac}
    (marked : HasMark state.tables.hncMark other markId) :
    addressesAt ((clearOne mac.text state).filters device)
        (prioBase + markId) =
      if other = mac then []
      else addressesAt (state.filters device) (prioBase + markId) := by
  obtain ⟨cleared, kept⟩ := truthful.clearOne_filters mac device
  by_cases same : other = mac
  · subst same
    rw [cleared markId marked, addressesAt_delFilters_self, if_pos rfl]
  · rw [if_neg same]
    by_cases has : ∃ m, HasMark state.tables.hncMark mac m
    · obtain ⟨m, hasMark⟩ := has
      have different : prioBase + markId ≠ prioBase + m := by
        intro equal
        have ids : markId = m := by omega
        exact same (truthful.well.oneMac m other mac (ids ▸ marked) hasMark)
      rw [cleared m hasMark, addressesAt_delFilters different]
    · rw [kept (by simpa using has)]

theorem unmark (truthful : Truthful state) (ip : Ipv4) (mac : Mac)
    (markId : Nat) : Truthful (step state (.unmark ip mac markId)) := by
  have before : ∀ {other m},
      HasMark (step state (.unmark ip mac markId)).tables.hncMark other m →
        HasMark state.tables.hncMark other m :=
    hasMark_of_unmarkDevice
  have after : ∀ {other m}, other ≠ mac → HasMark state.tables.hncMark other m →
      HasMark (step state (.unmark ip mac markId)).tables.hncMark other m :=
    hasMark_unmarkDevice_other
  constructor
  case well =>
      apply truthful.well.mono
      intro rule member
      simp only [step, unmarkDevice_hncMark] at member
      exact List.mem_of_mem_filter member
  case hotspot =>
      intro other m marked
      have old := before marked
      refine (truthful.addressesAt_clearOne mac .hotspot old).trans ?_
      refine Eq.trans ?_ (snapshotOf_clearOne mac other).symm
      rw [truthful.hotspot other m old]
  case ifb0 =>
      intro other m marked inClasses
      have old := before marked
      refine (truthful.addressesAt_clearOne mac .ifb0 old).trans ?_
      refine Eq.trans ?_ (snapshotOf_clearOne mac other).symm
      rw [truthful.ifb0 other m old inClasses]
  case unmarked =>
      intro other noMark
      refine (snapshotOf_clearOne mac other).trans ?_
      split
      · rfl
      · next different =>
          apply truthful.unmarked
          intro m has
          exact noMark m (after different has)
  case owned =>
      intro device filter member
      obtain ⟨cleared, kept⟩ := truthful.clearOne_filters mac device
      have old : filter ∈ state.filters device ∧
          ∀ m, HasMark state.tables.hncMark mac m →
            filter.prio ≠ prioBase + m := by
        have inCleared : filter ∈ (clearOne mac.text state).filters device :=
          member
        by_cases has : ∃ m, HasMark state.tables.hncMark mac m
        · obtain ⟨m, hasMark⟩ := has
          rw [cleared m hasMark] at inCleared
          obtain ⟨inOld, other⟩ := List.mem_filter.mp inCleared
          refine ⟨inOld, ?_⟩
          intro own ownMark
          rw [truthful.well.oneMark mac own m ownMark hasMark]
          simpa using other
        · have noMark : ∀ m, ¬HasMark state.tables.hncMark mac m := by
            simpa using has
          rw [kept noMark] at inCleared
          exact ⟨inCleared, fun m has => absurd has (noMark m)⟩
      obtain ⟨owner, m, has, prio⟩ := truthful.owned device filter old.1
      have different : owner ≠ mac := by
        rintro rfl
        exact old.2 m has prio
      exact ⟨owner, m, after different has, prio⟩

/-- Without marks and without filters, whatever the classes. -/
theorem of_empty {ended : State} (noRules : ended.tables.hncMark = [])
    (noFilters : ∀ device, ended.filters device = [])
    (noSnapshots : ∀ mac, snapshotOf ended mac = []) : Truthful ended := by
  have none : ∀ mac markId, ¬HasMark ended.tables.hncMark mac markId := by
    simp [HasMark, noRules]
  constructor
  case well =>
      constructor
      · simp [noRules]
      · exact fun mac left _ has => absurd has (none mac left)
      · exact fun markId left _ has => absurd has (none left markId)
  case hotspot => exact fun mac markId has => absurd has (none mac markId)
  case ifb0 => exact fun mac markId has => absurd has (none mac markId)
  case unmarked => exact fun mac _ => noSnapshots mac
  case owned => simp [noFilters]

theorem flushMarks (truthful : Truthful state)
    (pace : KeepsPace state .flushMarks) : Truthful (step state .flushMarks) := by
  apply of_empty
  · rfl
  · exact pace
  · intro mac
    by_cases has : ∃ markId, HasMark state.tables.hncMark mac markId
    · obtain ⟨markId, hasMark⟩ := has
      have same := truthful.hotspot mac markId hasMark
      rw [pace .hotspot] at same
      exact same.symm
    · exact truthful.unmarked mac (by simpa using has)

theorem addClass (truthful : Truthful state) {classId : Nat}
    (pace : KeepsPace state (.addClass classId)) :
    Truthful (step state (.addClass classId)) := by
  refine ⟨truthful.well, truthful.hotspot, ?_, truthful.unmarked, truthful.owned⟩
  intro mac markId marked inClasses
  rcases List.mem_cons.mp inClasses with rfl | old
  · exact pace mac marked
  · exact truthful.ifb0 mac markId marked old

theorem delClass (truthful : Truthful state) (classId : Nat) :
    Truthful (step state (.delClass classId)) := by
  refine ⟨truthful.well, truthful.hotspot, ?_, truthful.unmarked, truthful.owned⟩
  intro mac markId marked inClasses
  exact truthful.ifb0 mac markId marked (List.mem_of_mem_filter inClasses)

theorem initHotspot (truthful : Truthful state)
    (pace : KeepsPace state .initHotspot) :
    Truthful (step state .initHotspot) := by
  have same : step state .initHotspot = state := by
    have kept : Function.update state.filters .hotspot [] = state.filters := by
      rw [← show state.filters .hotspot = [] from pace,
        Function.update_eq_self]
    simp only [step, State.setFilters, kept]
  rw [same]
  exact truthful

theorem initIfb (truthful : Truthful state) (pace : KeepsPace state .initIfb) :
    Truthful (step state .initIfb) := by
  constructor
  case well => exact truthful.well
  case unmarked => exact truthful.unmarked
  case hotspot =>
      intro mac markId marked
      exact truthful.hotspot mac markId marked
  case ifb0 =>
      intro mac markId marked inClasses
      have range := truthful.well.range marked
      have root : markId = 1 := by
        simp only [step, List.mem_cons, List.not_mem_nil, or_false] at inClasses
        omega
      have empty : snapshotOf state mac = [] := pace mac (root ▸ marked)
      exact empty.symm
  case owned =>
      intro device filter member
      cases device with
      | hotspot => exact truthful.owned .hotspot filter member
      | ifb0 => cases member

end Truthful

section OneDevice

variable {state : State} {mac : Mac} {markId : Nat}

theorem syncOne_marked (truthful : Truthful state)
    (marked : HasMark state.tables.hncMark mac markId) :
    syncOne [] state mac.text =
      if getV6Addrs state.neigh mac.text = snapshotOf state mac then state
      else rebuild [] mac.text markId (getV6Addrs state.neigh mac.text) state := by
  have range := truthful.well.range marked
  have inside : ¬(markBase + markId < markBase + 1 ∨
      markBase + markId > markBase + 99) := by
    omega
  have id : markBase + markId - markBase = markId := by
    omega
  simp only [syncOne, truthful.well.markOfMac_eq_some marked, inside, id]
  rfl

theorem snapshotOf_rebuild (cur : List Text) (other : Mac) :
    snapshotOf (rebuild [] mac.text markId cur state) other =
      if other = mac then cur else snapshotOf state other := by
  simp only [snapshotOf, rebuild, KeyMap.lookup_insert_eq]
  by_cases same : other = mac
  · simp [same]
  · have different : other.text ≠ mac.text := fun text => same (Mac.ext_text text)
    simp [same, different]

theorem addressesAt_rebuild_other (different : other ≠ markId) (cur : List Text)
    (device : Device) :
    addressesAt ((rebuild [] mac.text markId cur state).filters device)
        (prioBase + other) =
      addressesAt (state.filters device) (prioBase + other) := by
  have prios : prioBase + other ≠ prioBase + markId := by
    omega
  simp only [rebuild, addressesAt_append, addressesAt_delFilters prios]
  split
  · rw [addressesAt_added_other prios.symm, List.append_nil]
  · simp [addressesAt]

theorem addressesAt_rebuild_self (cur : List Text) {device : Device}
    (rebuilt : device = .hotspot ∨ hasIngress state.classes markId = true) :
    addressesAt ((rebuild [] mac.text markId cur state).filters device)
      (prioBase + markId) = cur := by
  simp only [rebuild, addressesAt_append, addressesAt_delFilters_self,
    if_pos rebuilt, addressesAt_added_self, List.nil_append]

theorem rebuild_truthful (truthful : Truthful state)
    (marked : HasMark state.tables.hncMark mac markId) (cur : List Text) :
    Truthful (rebuild [] mac.text markId cur state) := by
  have ids : ∀ {other m}, HasMark state.tables.hncMark other m → other ≠ mac →
      m ≠ markId := by
    rintro other m has different rfl
    exact different (truthful.well.oneMac m other mac has marked)
  constructor
  case well => exact truthful.well
  case hotspot =>
      intro other m has
      rw [snapshotOf_rebuild]
      by_cases same : other = mac
      · subst same
        rw [truthful.well.oneMark other m markId has marked, if_pos rfl,
          addressesAt_rebuild_self cur (.inl rfl)]
      · rw [addressesAt_rebuild_other (ids has same), if_neg same]
        exact truthful.hotspot other m has
  case ifb0 =>
      intro other m has inClasses
      rw [snapshotOf_rebuild]
      by_cases same : other = mac
      · subst same
        obtain rfl := truthful.well.oneMark other m markId has marked
        have inState : m ∈ state.classes := inClasses
        have ingress : hasIngress state.classes m = true := by
          simpa [hasIngress] using inState
        rw [if_pos rfl, addressesAt_rebuild_self cur (.inr ingress)]
      · rw [addressesAt_rebuild_other (ids has same), if_neg same]
        exact truthful.ifb0 other m has inClasses
  case unmarked =>
      intro other noMark
      have different : other ≠ mac := by
        rintro rfl
        exact noMark markId marked
      rw [snapshotOf_rebuild, if_neg different]
      exact truthful.unmarked other noMark
  case owned =>
      intro device filter member
      simp only [rebuild, List.mem_append] at member
      rcases member with kept | fresh
      · exact truthful.owned device filter (List.mem_of_mem_filter kept)
      · split at fresh
        · simp only [added, List.mem_map] at fresh
          obtain ⟨addr, _, rfl⟩ := fresh
          exact ⟨mac, markId, marked, rfl⟩
        · cases fresh

end OneDevice

/-- The loop over the marked devices has come this far. -/
structure SyncedTo (devices : List Text) (start state : State) : Prop where
  truthful : Truthful state
  tables : state.tables = start.tables
  neigh : state.neigh = start.neigh
  done : ∀ mac : Mac, mac.text ∈ devices →
    snapshotOf state mac = getV6Addrs start.neigh mac.text
  rest : ∀ mac : Mac, mac.text ∉ devices →
    snapshotOf state mac = snapshotOf start mac

theorem syncOne_synced {state : State} {mac : Mac} {markId : Nat}
    (truthful : Truthful state)
    (marked : HasMark state.tables.hncMark mac markId) :
    SyncedTo [mac.text] state (syncOne [] state mac.text) := by
  rw [syncOne_marked truthful marked]
  split
  · next same =>
      refine ⟨truthful, rfl, rfl, ?_, fun _ _ => rfl⟩
      intro other member
      obtain rfl : other = mac := Mac.ext_text (List.mem_singleton.mp member)
      exact same.symm
  · refine ⟨rebuild_truthful truthful marked _, rfl, rfl, ?_, ?_⟩
    · intro other member
      obtain rfl : other = mac := Mac.ext_text (List.mem_singleton.mp member)
      rw [snapshotOf_rebuild, if_pos rfl]
    · intro other absent
      have different : other ≠ mac := by
        rintro rfl
        simp at absent
      rw [snapshotOf_rebuild, if_neg different]

theorem foldl_syncOne {devices : List Text} {state : State}
    (truthful : Truthful state)
    (all : ∀ text ∈ devices, ∃ mac markId, text = Mac.text mac ∧
      HasMark state.tables.hncMark mac markId) :
    SyncedTo devices state (devices.foldl (syncOne []) state) := by
  induction devices generalizing state with
  | nil => exact ⟨truthful, rfl, rfl, by simp, fun _ _ => rfl⟩
  | cons text devices induction =>
      obtain ⟨mac, markId, rfl, marked⟩ := all text (by simp)
      have first := syncOne_synced truthful marked
      have later := induction first.truthful (by
        intro text member
        obtain ⟨other, m, same, has⟩ := all text (by simp [member])
        exact ⟨other, m, same, first.tables ▸ has⟩)
      rw [List.foldl_cons]
      refine ⟨later.truthful, later.tables.trans first.tables,
        later.neigh.trans first.neigh, ?_, ?_⟩
      · intro other member
        by_cases again : other.text ∈ devices
        · rw [later.done other again, first.neigh]
        · have here : other.text ∈ [mac.text] := by
            simpa [again] using member
          rw [later.rest other again, first.done other here]
      · intro other absent
        simp only [List.mem_cons, not_or] at absent
        rw [later.rest other absent.2, first.rest other (by simpa using absent.1)]

/-- The orphans are not marked, so only their snapshots go. -/
theorem clearOrphans_eq (state : State) :
    clearOrphans state =
      { state with
        snapshots := KeyMap.eraseAll state.snapshots
          (state.snapshots.keys.filter fun mac =>
            (markOfMac state.tables.hncMark mac).isNone) } := by
  have general : ∀ (orphans : List Text) (state : State),
      (∀ mac ∈ orphans, markOfMac state.tables.hncMark mac = none) →
      orphans.foldl (fun state mac => clearOne mac state) state =
        { state with snapshots := KeyMap.eraseAll state.snapshots orphans } := by
    intro orphans
    induction orphans with
    | nil => exact fun state _ => rfl
    | cons mac orphans induction =>
        intro state none
        have here := none mac (by simp)
        have cleared : clearOne mac state =
            { state with snapshots := state.snapshots.erase mac } := by
          simp only [clearOne, here]
        rw [List.foldl_cons, cleared, induction]
        · rfl
        · intro other member
          exact none other (by simp [member])
  apply general
  intro mac member
  simpa using (List.mem_filter.mp member).2

theorem clearOrphans_truthful {state : State} (truthful : Truthful state) :
    Truthful (clearOrphans state) ∧
      ∀ mac markId, HasMark state.tables.hncMark mac markId →
        snapshotOf (clearOrphans state) mac = snapshotOf state mac := by
  rw [clearOrphans_eq]
  have kept : ∀ mac markId, HasMark state.tables.hncMark mac markId →
      snapshotOf { state with
        snapshots := KeyMap.eraseAll state.snapshots
          (state.snapshots.keys.filter fun mac =>
            (markOfMac state.tables.hncMark mac).isNone) } mac =
        snapshotOf state mac := by
    intro mac markId marked
    have found := truthful.well.markOfMac_eq_some marked
    simp [snapshotOf, found]
  refine ⟨?_, kept⟩
  constructor
  case well => exact truthful.well
  case owned => exact truthful.owned
  case hotspot =>
      intro mac markId marked
      rw [kept mac markId marked]
      exact truthful.hotspot mac markId marked
  case ifb0 =>
      intro mac markId marked inClasses
      rw [kept mac markId marked]
      exact truthful.ifb0 mac markId marked inClasses
  case unmarked =>
      intro mac noMark
      have before := truthful.unmarked mac noMark
      simp only [snapshotOf, KeyMap.lookup_eraseAll] at before ⊢
      split
      · rfl
      · exact before

theorem syncAll_synced {state : State} (truthful : Truthful state) :
    Truthful (syncAll [] state) ∧
      (syncAll [] state).tables = state.tables ∧
      (syncAll [] state).neigh = state.neigh ∧
      ∀ mac markId, HasMark state.tables.hncMark mac markId →
        snapshotOf (syncAll [] state) mac = getV6Addrs state.neigh mac.text := by
  have synced : SyncedTo ((listMarkedDevices state.tables.hncMark).map
      Marked.mac) state (((listMarkedDevices state.tables.hncMark).map
        Marked.mac).foldl (syncOne []) state) := by
    apply foldl_syncOne truthful
    intro text member
    obtain ⟨device, listed, rfl⟩ := List.mem_map.mp member
    obtain ⟨mac, markId, same, _, has⟩ := truthful.well.hasMark_of_listed listed
    exact ⟨mac, markId, same, has⟩
  obtain ⟨cleared, kept⟩ := clearOrphans_truthful synced.truthful
  have frame := clearOrphans_eq (((listMarkedDevices state.tables.hncMark).map
    Marked.mac).foldl (syncOne []) state)
  refine ⟨cleared, ?_, ?_, ?_⟩
  · rw [syncAll, frame]
    exact synced.tables
  · rw [syncAll, frame]
    exact synced.neigh
  · intro mac markId marked
    have listed : mac.text ∈
        (listMarkedDevices state.tables.hncMark).map Marked.mac := by
      obtain ⟨rule, member, source, mark⟩ := marked
      exact List.mem_map.mpr ⟨⟨mac.text, markBase + markId⟩,
        mem_listMarkedDevices.mpr ⟨rule, member, source, mark⟩, rfl⟩
    have still : HasMark (((listMarkedDevices state.tables.hncMark).map
        Marked.mac).foldl (syncOne []) state).tables.hncMark mac markId := by
      rw [synced.tables]
      exact marked
    rw [syncAll, kept mac markId still, synced.done mac listed]

theorem step_truthful {state : State} {event : Event}
    (truthful : Truthful state)
    (ok : OwnMark state event ∧ KeepsPace state event) :
    Truthful (step state event) := by
  obtain ⟨own, pace⟩ := ok
  cases event with
  | mark ip mac markId => exact truthful.mark own
  | unmark ip mac markId => exact truthful.unmark ip mac markId
  | flushMarks => exact truthful.flushMarks pace
  | neighbours table =>
      exact ⟨truthful.well, truthful.hotspot, truthful.ifb0, truthful.unmarked,
        truthful.owned⟩
  | addClass classId => exact truthful.addClass pace
  | delClass classId => exact truthful.delClass classId
  | initHotspot => exact truthful.initHotspot pace
  | initIfb => exact truthful.initIfb pace
  | cleanup =>
      apply Truthful.of_empty
      · rfl
      · exact fun _ => rfl
      · exact fun _ => rfl
  | sync failing =>
      obtain ⟨rfl, _⟩ := pace
      exact (syncAll_synced truthful).1

theorem sync_converges {state : State} (truthful : Truthful state)
    (pace : KeepsPace state (.sync [])) : Converged (syncAll [] state) := by
  obtain ⟨after, tables, neigh, synced⟩ := syncAll_synced truthful
  have found : ∀ mac markId,
      HasMark (syncAll [] state).tables.hncMark mac markId →
      OnePer (IsCurrent (syncAll [] state).neigh mac)
        (snapshotOf (syncAll [] state) mac) := by
    intro mac markId marked
    have before : HasMark state.tables.hncMark mac markId := tables ▸ marked
    rw [neigh, synced mac markId before]
    exact getV6Addrs_onePer (pace.2 mac markId before)
  constructor
  case hotspot =>
      intro mac markId marked
      rw [after.hotspot mac markId marked]
      exact found mac markId marked
  case ifb0 =>
      intro mac markId marked inClasses
      rw [after.ifb0 mac markId marked inClasses]
      exact found mac markId marked
  case marked =>
      intro device filter member _ _
      obtain ⟨mac, markId, has, prio⟩ := after.owned device filter member
      have same : filter.prio - prioBase = markId := by
        omega
      exact ⟨mac, same ▸ has⟩

/-- In a run that keeps pace, every synchronisation converges. -/
theorem run_sync_converges (ipv6Ok : Bool) (history : List Event)
    (guarded : Runs.Guarded step
      (fun state event => OwnMark state event ∧ KeepsPace state event)
      (.init ipv6Ok) (history ++ [.sync []])) :
    Converged ((history ++ [Event.sync []]).foldl step (.init ipv6Ok)) := by
  obtain ⟨before, last, _⟩ := Runs.guarded_append.mp guarded
  have initial : Truthful (.init ipv6Ok) :=
    Truthful.of_empty rfl (fun _ => rfl) (fun _ => rfl)
  have truthful : Truthful (history.foldl step (.init ipv6Ok)) :=
    before.final_induction Truthful
      (fun _ _ holds ok => step_truthful holds ok) initial
  rw [List.foldl_append]
  exact sync_converges truthful last.2

/-- `sync_one` has nothing to do for the device. -/
def Settled (state : State) (mac : Text) : Prop :=
  match markOfMac state.tables.hncMark mac with
  | none => state.snapshots.lookup mac = none
  | some mark => markBase + 1 ≤ mark → mark ≤ markBase + 99 →
      (state.snapshots.lookup mac).getD [] = getV6Addrs state.neigh mac

section Settling

variable {state : State} {mac : Text} (failing : List (Device × Text))

theorem clearOne_of_settled
    (unmarked : markOfMac state.tables.hncMark mac = none)
    (gone : state.snapshots.lookup mac = none) : clearOne mac state = state := by
  have same : state.snapshots.erase mac = state.snapshots := by
    apply AList.ext
    exact List.kerase_of_notMem_keys (AList.lookup_eq_none.mp gone)
  simp only [clearOne, unmarked, same]

theorem syncOne_of_settled (settled : Settled state mac) :
    syncOne failing state mac = state := by
  rw [Settled] at settled
  rw [syncOne]
  split at settled
  · next unmarked => simpa [unmarked] using clearOne_of_settled unmarked settled
  · next mark marked =>
      simp only [marked]
      split
      · rfl
      · next inside =>
          apply if_pos
          exact (settled (by omega) (by omega)).symm

theorem syncOne_frame (state : State) (mac : Text) :
    (syncOne failing state mac).tables = state.tables ∧
      (syncOne failing state mac).neigh = state.neigh ∧
      ∀ other, other ≠ mac →
        (syncOne failing state mac).snapshots.lookup other =
          state.snapshots.lookup other := by
  have erased : ∀ other, other ≠ mac →
      (state.snapshots.erase mac).lookup other = state.snapshots.lookup other := by
    intro other different
    rw [KeyMap.lookup_erase_eq, if_neg different]
  have written : ∀ other cur, other ≠ mac →
      (state.snapshots.insert mac cur).lookup other =
        state.snapshots.lookup other := by
    intro other cur different
    rw [KeyMap.lookup_insert_eq, if_neg different]
  rw [syncOne]
  split
  · exact ⟨rfl, rfl, erased⟩
  · split
    · exact ⟨rfl, rfl, fun _ _ => rfl⟩
    · dsimp only
      split
      · exact ⟨rfl, rfl, fun _ _ => rfl⟩
      · exact ⟨rfl, rfl, fun other => written other _⟩

theorem settled_syncOne (state : State) (mac : Text) :
    Settled (syncOne failing state mac) mac := by
  obtain ⟨tables, neigh, _⟩ := syncOne_frame failing state mac
  rw [Settled, tables, neigh]
  cases marked : markOfMac state.tables.hncMark mac with
  | none => simp [syncOne, marked, clearOne]
  | some mark =>
      intro low high
      have inside : ¬(mark < markBase + 1 ∨ mark > markBase + 99) := by
        omega
      simp only [syncOne, marked, if_neg inside]
      split
      · next same => exact same.symm
      · simp [rebuild]

theorem Settled.syncOne {other : Text} (settled : Settled state other) :
    Settled (V6Sync.syncOne failing state mac) other := by
  by_cases same : other = mac
  · rw [same]
    exact settled_syncOne failing state mac
  · obtain ⟨tables, neigh, kept⟩ := syncOne_frame failing state mac
    rw [Settled, tables, neigh, kept other same]
    exact settled

/-- The snapshots of the marked devices are no orphans. -/
theorem Settled.clearOrphans (settled : Settled state mac) :
    Settled (V6Sync.clearOrphans state) mac := by
  rw [clearOrphans_eq, Settled]
  rw [Settled] at settled
  simp only [KeyMap.lookup_eraseAll, List.mem_filter]
  split
  · next unmarked =>
      simp only [unmarked] at settled
      simp [settled]
  · next marked =>
      simpa [marked] using settled

theorem clearOrphans_clearOrphans (state : State) :
    clearOrphans (clearOrphans state) = clearOrphans state := by
  have none : ((clearOrphans state).snapshots.keys.filter fun mac =>
      (markOfMac (clearOrphans state).tables.hncMark mac).isNone) = [] := by
    rw [List.filter_eq_nil_iff, clearOrphans_eq]
    intro mac member orphan
    have kept : (KeyMap.eraseAll state.snapshots _).lookup mac ≠ Option.none :=
      fun gone => AList.lookup_eq_none.mp gone member
    rw [KeyMap.lookup_eraseAll] at kept
    split at kept
    · exact kept rfl
    · next absent =>
        apply absent
        have inKeys : mac ∈ state.snapshots := by
          by_contra missing
          exact kept (AList.lookup_eq_none.mpr missing)
        exact List.mem_filter.mpr ⟨inKeys, orphan⟩
  rw [clearOrphans, none, List.foldl_nil]

end Settling

/-- A second synchronisation with the same tables and neighbours changes
nothing: an addition that failed in the first is not made up for. -/
theorem second_sync_changes_nothing (failing again : List (Device × Text))
    (state : State) :
    syncAll again (syncAll failing state) = syncAll failing state := by
  have tables : (syncAll failing state).tables = state.tables := by
    rw [syncAll, clearOrphans_eq]
    apply Runs.foldl_induction
      fun later : State => later.tables = state.tables
    · intro before mac same
      exact (syncOne_frame failing before mac).1.trans same
    · rfl
  have settled : ∀ mac ∈ (listMarkedDevices state.tables.hncMark).map Marked.mac,
      Settled (syncAll failing state) mac := by
    intro mac member
    rw [syncAll]
    apply Settled.clearOrphans
    exact Runs.settled_foldl (settled_syncOne failing)
      (fun _ _ _ => Settled.syncOne failing) state _ mac member
  have unchanged := Runs.foldl_of_settled
    (fun later mac (done : Settled later mac) => syncOne_of_settled again done)
    settled
  rw [syncAll, tables, unchanged, syncAll, clearOrphans_clearOrphans]

def phoneNeighbour : Neighbour :=
  ⟨"2001:db8::5".toList, some phone, false, .reachable⟩

/-- Both limits are set before the first synchronisation. -/
def bothLimits : List Event :=
  [.mark phoneIp phone 5, .addClass 5, .neighbours [phoneNeighbour]]

/-- The phone is limited downwards and synchronised before an upload limit adds
its class to `ifb0`. -/
def lateUpload : List Event :=
  [.mark phoneIp phone 5, .neighbours [phoneNeighbour], .sync [], .addClass 5]

theorem run_sync_converges_phone :
    Converged ((bothLimits ++ [Event.sync []]).foldl step (.init true)) := by
  have nobody : ∀ mac markId, ¬HasMark [] mac markId := by
    simp [HasMark]
  apply run_sync_converges
  refine ⟨⟨⟨by decide, by decide, ?_, ?_⟩, trivial⟩, ⟨trivial, ?_⟩,
    ⟨trivial, trivial⟩, ⟨trivial, rfl, ?_⟩, trivial⟩
  · exact fun other has => absurd has (nobody phone other)
  · exact fun other has => absurd has (nobody other 5)
  · exact fun _ _ => rfl
  · intro mac markId marked entry member _
    rcases (hasMark_markDevice mac markId).mp marked with old | ⟨rfl, _⟩
    · exact absurd old (nobody mac markId)
    · rw [List.mem_singleton.mp member]
      rfl

/-- The next synchronisation finds the addresses unchanged and adds no filter
to `ifb0`. -/
theorem late_class_gets_no_filter :
    ¬Converged ((lateUpload ++ [Event.sync []]).foldl step (.init true)) := by
  intro converged
  have marked : HasMark ((lateUpload ++ [Event.sync []]).foldl step
      (.init true)).tables.hncMark phone 5 := by
    refine ⟨macRule phone.text (markBase + 5), ?_, rfl, rfl⟩
    decide +kernel
  have onePer := converged.ifb0 phone 5 marked (by decide +kernel)
  have wanted := (onePer.2 phoneNeighbour.address).mpr
    ⟨phoneNeighbour, by decide +kernel, rfl, rfl, by decide, by decide, by decide,
      by decide⟩
  revert wanted
  decide +kernel

end Hnc.V6Sync
