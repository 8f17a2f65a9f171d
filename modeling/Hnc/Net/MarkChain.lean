import Hnc.Lib.Runs
import Hnc.Net.IptablesManager
import Mathlib.Data.Set.Function

/-!
# The mark chain represents the marked devices

Seen from outside, `mark` and `unmark` keep a table of devices with the
address each one was last marked at.  The chain is the rendering of that
table: three rules for every device, in the order in which the devices were
last marked.  What a packet leaves the chain with is then read off the table.
-/

namespace Hnc.MarkChain

open Posix IptablesManager

/-- The commands of a run; every device has a mark id of its own. -/
inductive Command where
  | mark (ip : Ipv4) (mac : Mac)
  | unmark (ip : Ipv4) (mac : Mac)
deriving DecidableEq

def Command.mac : Command → Mac
  | .mark _ mac => mac
  | .unmark _ mac => mac

/-- The abstract table: the marked devices, oldest mark first, and the address
every device was last marked at, marked or not. -/
structure Book where
  marked : List (Mac × Ipv4)
  last : List (Mac × Ipv4)

namespace Book

def empty : Book := ⟨[], []⟩

def dropMac (mac : Mac) (entries : List (Mac × Ipv4)) : List (Mac × Ipv4) :=
  entries.filter fun entry => entry.1 ≠ mac

def lastIp (book : Book) (mac : Mac) : Option Ipv4 :=
  (book.last.find? fun entry => entry.1 = mac).map Prod.snd

def apply (book : Book) : Command → Book
  | .mark ip mac =>
      ⟨dropMac mac book.marked ++ [(mac, ip)], (mac, ip) :: book.last⟩
  | .unmark _ mac => ⟨dropMac mac book.marked, book.last⟩

end Book

section Machine

variable (ids : Mac → Nat)

def markFor (mac : Mac) : Nat :=
  markBase + ids mac

/-- The three rules of one device. -/
def block (entry : Mac × Ipv4) : List MarkRule :=
  [srcRule entry.2.text entry.1.text (markFor ids entry.1),
    macRule entry.1.text (markFor ids entry.1),
    dstRule entry.2.text (markFor ids entry.1)]

/-- One command of the script next to its effect on the table. -/
def step (state : Tables × Book) (command : Command) : Tables × Book :=
  match command with
  | .mark ip mac =>
      (markDevice ip.text mac.text (ids mac) state.1, state.2.apply command)
  | .unmark ip mac =>
      (unmarkDevice ip.text mac.text (ids mac) state.1, state.2.apply command)

/-- An `unmark` names the address its device was last marked at. -/
def NamesLastIp (state : Tables × Book) (command : Command) : Prop :=
  match command with
  | .mark _ _ => True
  | .unmark ip mac => ∀ last ∈ state.2.lastIp mac, last = ip

instance (state : Tables × Book) (command : Command) :
    Decidable (NamesLastIp state command) := by
  cases command <;> unfold NamesLastIp <;> infer_instance

/-- The chain is the rendering of the table, whose devices are among `macs`. -/
structure Represents (macs : Set Mac) (state : Tables × Book) : Prop where
  known : ∀ entry ∈ state.2.marked, entry.1 ∈ macs
  chain : state.1.hncMark = state.2.marked.flatMap (block ids)
  distinct : (state.2.marked.map Prod.fst).Nodup
  current : ∀ entry ∈ state.2.marked,
    state.2.lastIp entry.1 = some entry.2

end Machine

theorem ne_dash {word : Text} (plain : word.head? ≠ some '-') (rest : Text) :
    word ≠ '-' :: rest := by
  intro same
  simp [same] at plain

theorem scanWord_plain (mac mark : Text) (scan : LineScan) (word next : Text)
    (plain : word.head? ≠ some '-') :
    scanWord mac mark scan word next = scan := by
  have notOption : ∀ rest, (word == '-' :: rest) = false := by
    intro rest
    exact beq_eq_false_iff_ne.mpr (ne_dash plain rest)
  simp [scanWord, notOption, ne_dash plain]

theorem stripCidr_append (ip : Text) : stripCidr (ip ++ ['/', '3', '2']) = ip := by
  have suffix : "/32".toList.isSuffixOf (ip ++ ['/', '3', '2']) = true := by
    rw [List.isSuffixOf_iff_suffix]
    exact List.suffix_append ip _
  unfold stripCidr
  simp

theorem head?_ne_dash {text : Text} (nonempty : text ≠ [])
    (chars : ∀ c ∈ text, c ≠ '-') (more : Text) :
    (text ++ more).head? ≠ some '-' := by
  cases text with
  | nil => exact absurd rfl nonempty
  | cons c rest => simpa using chars c (by simp)

theorem mac_head_ne_dash (mac : Mac) : mac.text.head? ≠ some '-' := by
  have general := head?_ne_dash mac.text_ne_nil (by
    intro c member same
    rcases mac.chars c member with hex | colon
    · rw [same] at hex
      exact absurd hex (by decide)
    · rw [same] at colon
      exact absurd colon (by decide)) []
  simpa using general

theorem scanWord_address (mac mark : Text) (scan : LineScan) (ip next : Text) :
    scanWord mac mark scan (ip ++ "/32".toList) next = scan := by
  have other : ∀ word : Text, word.getLast? ≠ some '2' →
      ip ++ "/32".toList ≠ word := by
    rintro word last rfl
    exact last (by simp)
  have source := other "-s".toList (by decide)
  have destination := other "-d".toList (by decide)
  have macSource := other "--mac-source".toList (by decide)
  have xmark := other "--set-xmark".toList (by decide)
  have setMark := other "--set-mark".toList (by decide)
  simp only [scanWord, beq_eq_false_iff_ne.mpr macSource,
    beq_eq_false_iff_ne.mpr xmark, beq_eq_false_iff_ne.mpr setMark,
    if_neg source, if_neg destination, Bool.false_and, Bool.or_false]

theorem mark_head_ne_dash (mark : Nat) :
    (hexText mark ++ "/0xffffffff".toList).head? ≠ some '-' := by
  simp [hexText]

/-- The address rule of a device is listed with its hardware address, so the
clean-up for that device finds the address. -/
theorem printedIps_src (mac : Mac) (mark : Nat) (word : Text) {ip : Text}
    (nonempty : ip ≠ []) :
    ip ∈ printedIps mac.text word (listing (srcRule ip mac.text mark)) := by
  have scanned : ∃ hasMark, scanLine mac.text word ⟨false, false, [], []⟩
      (listing (srcRule ip mac.text mark)) = ⟨true, hasMark, ip, []⟩ := by
    refine ⟨word.isPrefixOf (hexText mark ++ "/0xffffffff".toList), ?_⟩
    simp only [listing, srcRule, List.cons_append, List.nil_append,
      Bool.false_eq_true, if_false, scanLine]
    rw [scanWord_address, scanWord_plain _ _ _ _ _ (mac_head_ne_dash mac),
      scanWord_plain _ _ _ _ _ (mark_head_ne_dash mark)]
    simp [scanWord, stripCidr_append]
  obtain ⟨hasMark, result⟩ := scanned
  simp [printedIps, result, nonempty]

/-! ### The deletions -/

/-- The rules that a command on `mac` and `mark` deletes for the addresses
`olds`. -/
def addressRules (mac : Text) (mark : Nat) (olds : List Text) : List MarkRule :=
  olds.flatMap fun old => [srcRule old mac mark, dstRule old mark]

theorem addressRules_cons (mac : Text) (mark : Nat) (old : Text)
    (olds : List Text) :
    addressRules mac mark (old :: olds) =
      srcRule old mac mark :: dstRule old mark :: addressRules mac mark olds :=
  rfl

section

variable (mac : Text) (mark : Nat) (olds : List Text) (tables : Tables)
include mac mark olds tables

theorem foldl_gcAddress_hncMark :
    (olds.foldl (gcAddress mac mark) tables).hncMark =
      tables.hncMark.filter fun rule => rule ∉ addressRules mac mark olds := by
  induction olds generalizing tables with
  | nil => simp [addressRules]
  | cons old olds induction =>
      simp only [List.foldl_cons, induction, gcAddress, delMark,
        Chain.deleteAll_eq_without, Chain.without, List.filter_filter]
      apply List.filter_congr
      intro rule _
      rw [Bool.eq_iff_iff]
      simp only [addressRules_cons, List.mem_cons, Bool.and_eq_true,
        decide_eq_true_eq]
      tauto

theorem foldl_gcAddress_hncMark6 :
    (olds.foldl (gcAddress mac mark) tables).hncMark6 = tables.hncMark6 := by
  induction olds generalizing tables with
  | nil => rfl
  | cons old olds induction => exact induction (gcAddress mac mark tables old)

theorem foldl_gcAddress_ipv6Ok :
    (olds.foldl (gcAddress mac mark) tables).ipv6Ok = tables.ipv6Ok := by
  induction olds generalizing tables with
  | nil => rfl
  | cons old olds induction => exact induction (gcAddress mac mark tables old)

theorem foldl_gcAddress_ctrl :
    (olds.foldl (gcAddress mac mark) tables).hncCtrl = tables.hncCtrl ∧
      (olds.foldl (gcAddress mac mark) tables).hncCtrl6 = tables.hncCtrl6 := by
  induction olds generalizing tables with
  | nil => exact ⟨rfl, rfl⟩
  | cons old olds induction => exact induction (gcAddress mac mark tables old)

end

/-- The rules that stay in the chain while `mark_device` makes room for the new
ones. -/
theorem delMarkRules_gc_hncMark (ip mac : Text) (mark : Nat) (tables : Tables) :
    (delMarkRules ip mac mark (gcStaleIpsForMac mac mark ip tables)).hncMark =
      tables.hncMark.filter fun rule =>
        rule ∉ macRule mac mark ::
          addressRules mac mark
            (ip :: staleIps mac (hexText mark) ip tables.hncMark) := by
  simp only [delMarkRules, gcStaleIpsForMac, foldl_gcAddress_hncMark, delMark,
    Chain.deleteAll_eq_without, Chain.without, List.filter_filter]
  apply List.filter_congr
  intro rule _
  rw [Bool.eq_iff_iff]
  simp only [addressRules_cons, List.mem_cons, Bool.and_eq_true,
    decide_eq_true_eq]
  tauto

theorem delMarkRules_hncMark (ip mac : Text) (mark : Nat) (tables : Tables) :
    (delMarkRules ip mac mark tables).hncMark =
      tables.hncMark.filter fun rule =>
        rule ∉ macRule mac mark :: addressRules mac mark [ip] := by
  simp only [delMarkRules, delMark, Chain.deleteAll_eq_without, Chain.without,
    List.filter_filter]
  apply List.filter_congr
  intro rule _
  rw [Bool.eq_iff_iff]
  simp only [addressRules, List.flatMap_cons, List.flatMap_nil, List.append_nil,
    List.mem_cons, Bool.and_eq_true, decide_eq_true_eq]
  tauto

variable {rule : MarkRule}

theorem setMark_of_mem_deleted {mac : Text} {mark : Nat} {olds : List Text}
    (member : rule ∈ macRule mac mark :: addressRules mac mark olds) :
    rule.setMark = mark := by
  rcases List.mem_cons.mp member with here | listed
  · rw [here]
    rfl
  · obtain ⟨old, _, inside⟩ := List.mem_flatMap.mp listed
    rcases List.mem_cons.mp inside with src | dst
    · rw [src]
      rfl
    · rw [List.mem_singleton.mp dst]
      rfl

theorem markDevice_hncMark (ip : Ipv4) (mac : Text) (markId : Nat)
    (tables : Tables) :
    (markDevice ip.text mac markId tables).hncMark =
      (delMarkRules ip.text mac (markBase + markId)
        (gcStaleIpsForMac mac (markBase + markId) ip.text tables)).hncMark ++
        [srcRule ip.text mac (markBase + markId),
          macRule mac (markBase + markId),
          dstRule ip.text (markBase + markId)] := by
  simp [markDevice, ip.text_ne_nil, addStatRules, delStatRules, addMarkRules]

theorem mem_markDevice {ip : Ipv4} {mac : Mac} {markId : Nat} {tables : Tables}
    {source : Text} (for_mac : rule.macSource = some source) :
    rule ∈ (markDevice ip.text mac.text markId tables).hncMark →
      rule ∈ tables.hncMark ∨
        (source = mac.text ∧ rule.setMark = markBase + markId) := by
  rw [markDevice_hncMark, List.mem_append, delMarkRules_gc_hncMark]
  rintro (kept | fresh)
  · exact .inl (List.mem_of_mem_filter kept)
  · simp only [List.mem_cons, List.not_mem_nil, or_false] at fresh
    rcases fresh with rfl | rfl | rfl
    · exact .inr ⟨(Option.some.inj for_mac).symm, rfl⟩
    · exact .inr ⟨(Option.some.inj for_mac).symm, rfl⟩
    · cases for_mac

theorem unmarkDevice_hncMark (ip mac : Text) (markId : Nat) (tables : Tables) :
    (unmarkDevice ip mac markId tables).hncMark =
      tables.hncMark.filter fun rule =>
        rule ∉ macRule mac (markBase + markId) ::
          addressRules mac (markBase + markId) [ip] :=
  delMarkRules_hncMark ip mac (markBase + markId) tables

section Steps

variable {ids : Mac → Nat} {macs : Set Mac}

variable {entry : Mac × Ipv4}

theorem setMark_of_mem_block (member : rule ∈ block ids entry) :
    rule.setMark = markFor ids entry.1 := by
  simp only [block, List.mem_cons, List.not_mem_nil, or_false] at member
  rcases member with rfl | rfl | rfl <;> rfl

/-- Deleting rules of one device takes away the whole block of that device, if
its address is among the deleted ones, and no rule of another device. -/
theorem filter_flatMap_block
    (marked : List (Mac × Ipv4)) (mac : Mac) (olds : List Text)
    (own : ∀ entry ∈ marked, ids entry.1 = ids mac → entry.1 = mac)
    (complete : ∀ ip, (mac, ip) ∈ marked → ip.text ∈ olds) :
    ((marked.flatMap (block ids)).filter fun rule =>
      rule ∉ macRule mac.text (markFor ids mac) ::
        addressRules mac.text (markFor ids mac) olds) =
      (Book.dropMac mac marked).flatMap (block ids) := by
  induction marked with
  | nil => rfl
  | cons entry marked induction =>
      have tail := induction
        (fun other member => own other (by simp [member]))
        (fun ip member => complete ip (by simp [member]))
      obtain ⟨owner, address⟩ := entry
      rw [List.flatMap_cons, List.filter_append, tail]
      by_cases same : owner = mac
      · subst same
        have known : address.text ∈ olds := complete address (by simp)
        have gone : ((block ids (owner, address)).filter fun rule =>
            rule ∉ macRule owner.text (markFor ids owner) ::
              addressRules owner.text (markFor ids owner) olds) = [] := by
          rw [List.filter_eq_nil_iff]
          intro rule member
          have deleted : rule ∈ macRule owner.text (markFor ids owner) ::
              addressRules owner.text (markFor ids owner) olds := by
            simp only [block, List.mem_cons, List.not_mem_nil, or_false] at member
            simp only [addressRules, List.mem_cons, List.mem_flatMap,
              List.not_mem_nil, or_false]
            rcases member with rfl | rfl | rfl
            · exact .inr ⟨address.text, known, .inl rfl⟩
            · exact .inl rfl
            · exact .inr ⟨address.text, known, .inr rfl⟩
          simp only [decide_eq_true_eq, not_not]
          exact deleted
        rw [gone]
        simp [Book.dropMac]
      · have kept : ((block ids (owner, address)).filter fun rule =>
            rule ∉ macRule mac.text (markFor ids mac) ::
              addressRules mac.text (markFor ids mac) olds) =
              block ids (owner, address) := by
          rw [List.filter_eq_self]
          intro rule member
          have other : rule.setMark ≠ markFor ids mac := by
            rw [setMark_of_mem_block member]
            intro equal
            exact same (own (owner, address) (by simp) (Nat.add_left_cancel equal))
          simpa using fun deleted => other (setMark_of_mem_deleted deleted)
        rw [kept]
        simp [Book.dropMac, same]

/-- The clean-up finds the address of every source rule of the device. -/
theorem mem_staleIps_of_srcRule {chain : List MarkRule} {mac : Mac}
    {old cur : Ipv4} {mark : Nat}
    (member : srcRule old.text mac.text mark ∈ chain) (word : Text) :
    old.text ∈ cur.text :: staleIps mac.text word cur.text chain := by
  by_cases same : old = cur
  · simp [same]
  · refine List.mem_cons_of_mem _ ?_
    have printed : old.text ∈ chain.flatMap fun rule =>
        printedIps mac.text word (listing rule) :=
      List.mem_flatMap.mpr ⟨_, member, printedIps_src mac _ word old.text_ne_nil⟩
    have different : old.text ≠ cur.text := by
      intro equal
      exact same (Ipv4.ext_text equal)
    refine List.mem_filter.mpr ⟨List.mem_dedup.mpr printed, ?_⟩
    simp [old.text_ne_nil, different]

theorem mem_staleIps_of_marked {marked : List (Mac × Ipv4)} {mac : Mac}
    {old cur : Ipv4} (member : (mac, old) ∈ marked) (word : Text) :
    old.text ∈ cur.text ::
      staleIps mac.text word cur.text (marked.flatMap (block ids)) := by
  have rule : srcRule old.text mac.text (markFor ids mac) ∈
      marked.flatMap (block ids) :=
    List.mem_flatMap.mpr ⟨(mac, old), member, by simp [block]⟩
  exact mem_staleIps_of_srcRule rule word

theorem lastIp_cons (marked last : List (Mac × Ipv4)) (mac owner : Mac)
    (ip : Ipv4) :
    Book.lastIp ⟨marked, (mac, ip) :: last⟩ owner =
      if mac = owner then some ip
      else Book.lastIp ⟨marked, last⟩ owner := by
  by_cases same : mac = owner
  · simp [Book.lastIp, same]
  · simp [Book.lastIp, same]

theorem dropMac_fst_nodup {marked : List (Mac × Ipv4)} (mac : Mac)
    (distinct : (marked.map Prod.fst).Nodup) :
    ((Book.dropMac mac marked).map Prod.fst).Nodup := by
  have kept : (Book.dropMac mac marked).Sublist marked := List.filter_sublist
  exact distinct.sublist (kept.map Prod.fst)

theorem mem_dropMac {marked : List (Mac × Ipv4)} {mac : Mac} :
    entry ∈ Book.dropMac mac marked ↔ entry ∈ marked ∧ entry.1 ≠ mac := by
  simp [Book.dropMac]

section

variable (own : Set.InjOn ids macs) {state : Tables × Book}
  (represents : Represents ids macs state) (ip : Ipv4) (mac : Mac)
  (member : mac ∈ macs)
include own represents ip mac member

theorem mark_represents :
    Represents ids macs (step ids state (.mark ip mac)) := by
  obtain ⟨owners, chain, distinct, current⟩ := represents
  refine ⟨?_, ?_, ?_, ?_⟩
  · intro entry listed
    simp only [step, Book.apply, List.mem_append, List.mem_singleton] at listed
    rcases listed with old | rfl
    · exact owners entry (mem_dropMac.mp old).1
    · exact member
  · have known : ∀ old, (mac, old) ∈ state.2.marked →
        old.text ∈ ip.text ::
          staleIps mac.text (hexText (markBase + ids mac)) ip.text
            state.1.hncMark := by
      intro old member
      rw [chain]
      exact mem_staleIps_of_marked member _
    have cleaned := filter_flatMap_block state.2.marked mac _
      (fun entry listed => own (owners entry listed) member) known
    rw [← chain] at cleaned
    simp only [step, Book.apply, List.flatMap_append]
    rw [markDevice_hncMark, delMarkRules_gc_hncMark]
    exact congrArg (· ++ block ids (mac, ip)) cleaned
  · simp only [step, Book.apply, List.map_append]
    refine List.nodup_append.mpr ⟨dropMac_fst_nodup mac distinct, by simp, ?_⟩
    intro owner listed other single
    obtain ⟨entry, member, rfl⟩ := List.mem_map.mp listed
    rw [List.mem_singleton.mp single]
    exact (mem_dropMac.mp member).2
  · intro entry member
    simp only [step, Book.apply, List.mem_append, List.mem_singleton] at member
    simp only [step, Book.apply, lastIp_cons]
    rcases member with old | rfl
    · obtain ⟨listed, other⟩ := mem_dropMac.mp old
      rw [if_neg (Ne.symm other)]
      exact current entry listed
    · simp

theorem unmark_represents (names : NamesLastIp state (.unmark ip mac)) :
    Represents ids macs (step ids state (.unmark ip mac)) := by
  obtain ⟨owners, chain, distinct, current⟩ := represents
  refine ⟨?_, ?_, dropMac_fst_nodup mac distinct, ?_⟩
  · intro entry listed
    exact owners entry (mem_dropMac.mp listed).1
  · have known : ∀ old, (mac, old) ∈ state.2.marked →
        old.text ∈ [ip.text] := by
      intro old member
      simp [names old (current (mac, old) member)]
    have cleaned := filter_flatMap_block state.2.marked mac _
      (fun entry listed => own (owners entry listed) member) known
    rw [← chain] at cleaned
    simp only [step, unmarkDevice, delStatRules]
    rw [delMarkRules_hncMark]
    exact cleaned
  · intro entry member
    exact current entry (mem_dropMac.mp member).1

end

theorem step_represents (own : Set.InjOn ids macs)
    (state : Tables × Book) (command : Command)
    (represents : Represents ids macs state)
    (names : NamesLastIp state command ∧ command.mac ∈ macs) :
    Represents ids macs (step ids state command) := by
  cases command with
  | mark ip mac => exact mark_represents own represents ip mac names.2
  | unmark ip mac =>
      exact unmark_represents own represents ip mac names.2 names.1

theorem run_represents (own : Set.InjOn ids macs) (ipv6Ok : Bool)
    {commands : List Command}
    (members : ∀ command ∈ commands, command.mac ∈ macs)
    (names : Runs.Guarded (step ids) NamesLastIp
      (Tables.init ipv6Ok, Book.empty) commands) :
    ∀ state ∈ Runs.visited (step ids) (Tables.init ipv6Ok, Book.empty) commands,
      Represents ids macs state := by
  have initial : Represents ids macs (Tables.init ipv6Ok, Book.empty) :=
    ⟨by simp [Book.empty], rfl, List.nodup_nil, by simp [Book.empty]⟩
  exact (names.and_forall members).induction (Represents ids macs)
    (step_represents own) initial

/-- Some rule of the device's block may match the packet. -/
def Touches (packet : Packet) (entry : Mac × Ipv4) : Prop :=
  packet.srcMac = entry.1.text ∨ packet.dst = entry.2.text

theorem foldl_block (packet : Packet) (entry : Mac × Ipv4) (mark : Nat) :
    (block ids entry).foldl (MarkRule.apply packet) mark =
      if packet.dst = entry.2.text ∨
          (packet.srcMac = entry.1.text ∧
            (packet.src = entry.2.text ∨ mark = 0)) then
        markFor ids entry.1
      else mark := by
  simp only [block, List.foldl_cons, MarkRule.apply, MarkRule.accepts, srcRule,
    macRule, dstRule, addressMatches, beq_iff_eq, Bool.and_eq_true,
    @eq_comm _ entry.1.text, @eq_comm _ entry.2.text]
  by_cases destination : packet.dst = entry.2.text
  · simp [destination]
  · by_cases source : packet.srcMac = entry.1.text
    · by_cases address : packet.src = entry.2.text
      · simp [source, address]
      · simp [destination, address]
    · simp [source]

theorem foldl_block_untouched {packet : Packet}
    (untouched : ¬Touches packet entry) (mark : Nat) :
    (block ids entry).foldl (MarkRule.apply packet) mark = mark := by
  rw [foldl_block]
  refine if_neg ?_
  rintro (destination | ⟨source, _⟩)
  · exact untouched (.inr destination)
  · exact untouched (.inl source)

theorem foldl_blocks_untouched {packet : Packet} {marked : List (Mac × Ipv4)}
    (untouched : ∀ entry ∈ marked, ¬Touches packet entry) (mark : Nat) :
    (marked.flatMap (block ids)).foldl (MarkRule.apply packet) mark = mark := by
  induction marked with
  | nil => rfl
  | cons entry marked induction =>
      rw [List.flatMap_cons, List.foldl_append,
        foldl_block_untouched (untouched entry (by simp))]
      exact induction fun other member => untouched other (by simp [member])

/-- A packet that only one device's block may match leaves the chain with what
that block makes of its initial mark. -/
theorem markOf_sole {packet : Packet} {marked : List (Mac × Ipv4)}
    (distinct : marked.Nodup) (member : entry ∈ marked)
    (sole : ∀ other ∈ marked, other ≠ entry → ¬Touches packet other) :
    markOf (marked.flatMap (block ids)) packet =
      (block ids entry).foldl (MarkRule.apply packet) packet.mark := by
  obtain ⟨before, after, split⟩ := List.append_of_mem member
  subst split
  have apart := List.nodup_append.mp distinct
  have beforeUntouched : ∀ other ∈ before, ¬Touches packet other := by
    intro other listed
    exact sole other (by simp [listed]) (apart.2.2 other listed entry (by simp))
  have afterUntouched : ∀ other ∈ after, ¬Touches packet other := by
    intro other listed
    refine sole other (by simp [listed]) ?_
    intro same
    exact (List.nodup_cons.mp apart.2.1).1 (same ▸ listed)
  rw [markOf, List.flatMap_append, List.flatMap_cons, List.foldl_append,
    List.foldl_append, foldl_blocks_untouched beforeUntouched,
    foldl_blocks_untouched afterUntouched]

section Packets

variable {marked : List (Mac × Ipv4)} {packet : Packet} {mac : Mac} {ip : Ipv4}

section

variable (distinct : (marked.map Prod.fst).Nodup) (member : (mac, ip) ∈ marked)
include distinct member

theorem sole_source (source : packet.srcMac = mac.text)
    (elsewhere : ∀ entry ∈ marked, packet.dst ≠ entry.2.text) :
    ∀ other ∈ marked, other ≠ (mac, ip) → ¬Touches packet other := by
  intro other listed different touches
  rcases touches with sameSource | destination
  · have sameMac : other.1 = (mac, ip).1 :=
      Mac.ext_text (sameSource.symm.trans source)
    exact different (List.inj_on_of_nodup_map distinct listed member sameMac)
  · exact elsewhere other listed destination

theorem markOf_from_last_ip (source : packet.srcMac = mac.text)
    (address : packet.src = ip.text ∨ packet.mark = 0)
    (elsewhere : ∀ entry ∈ marked, packet.dst ≠ entry.2.text) :
    markOf (marked.flatMap (block ids)) packet = markFor ids mac := by
  rw [markOf_sole (List.Nodup.of_map Prod.fst distinct) member
    (sole_source distinct member source elsewhere), foldl_block]
  exact if_pos (.inr ⟨source, address⟩)

theorem markOf_to_last_ip (destination : packet.dst = ip.text)
    (unmarkedSource : ∀ entry ∈ marked, packet.srcMac ≠ entry.1.text)
    (sole : ∀ owner, (owner, ip) ∈ marked → owner = mac) :
    markOf (marked.flatMap (block ids)) packet = markFor ids mac := by
  have alone : ∀ other ∈ marked, other ≠ (mac, ip) →
      ¬Touches packet other := by
    intro other listed different touches
    rcases touches with source | otherDestination
    · exact unmarkedSource other listed source
    · have sameIp : other.2 = ip :=
        Ipv4.ext_text (otherDestination.symm.trans destination)
      have sameMac : other.1 = mac := sole other.1 (by rw [← sameIp]; exact listed)
      exact different (Prod.ext sameMac sameIp)
  rw [markOf_sole (List.Nodup.of_map Prod.fst distinct) member alone,
    foldl_block]
  exact if_pos (.inl destination)

end

theorem markOf_untouched
    (unmarkedSource : ∀ entry ∈ marked, packet.srcMac ≠ entry.1.text)
    (elsewhere : ∀ entry ∈ marked, packet.dst ≠ entry.2.text) :
    markOf (marked.flatMap (block ids)) packet = packet.mark := by
  refine foldl_blocks_untouched ?_ packet.mark
  rintro entry member (source | destination)
  · exact unmarkedSource entry member source
  · exact elsewhere entry member destination

end Packets

end Steps

/-- The chain holds three rules for every marked device and no others, and a
packet gets the mark of its device. -/
structure MarksPackets (ids : Mac → Nat) (state : Tables × Book) : Prop where
  chain : state.1.hncMark = state.2.marked.flatMap (block ids)
  distinct : (state.2.marked.map Prod.fst).Nodup
  current : ∀ entry ∈ state.2.marked,
    state.2.lastIp entry.1 = some entry.2
  fromLastIp : ∀ mac ip, (mac, ip) ∈ state.2.marked → ∀ packet : Packet,
    packet.srcMac = mac.text → packet.src = ip.text →
    (∀ entry ∈ state.2.marked, packet.dst ≠ entry.2.text) →
    markOf state.1.hncMark packet = markFor ids mac
  fromOtherIp : ∀ mac ip, (mac, ip) ∈ state.2.marked → ∀ packet : Packet,
    packet.srcMac = mac.text → packet.src ≠ ip.text → packet.mark = 0 →
    (∀ entry ∈ state.2.marked, packet.dst ≠ entry.2.text) →
    markOf state.1.hncMark packet = markFor ids mac
  toLastIp : ∀ mac ip, (mac, ip) ∈ state.2.marked → ∀ packet : Packet,
    (∀ entry ∈ state.2.marked, packet.srcMac ≠ entry.1.text) →
    packet.dst = ip.text →
    (∀ owner, (owner, ip) ∈ state.2.marked → owner = mac) →
    markOf state.1.hncMark packet = markFor ids mac
  untouched : ∀ packet : Packet,
    (∀ entry ∈ state.2.marked, packet.srcMac ≠ entry.1.text) →
    (∀ entry ∈ state.2.marked, packet.dst ≠ entry.2.text) →
    markOf state.1.hncMark packet = packet.mark

/-- In every run in which each device has a mark id of its own and each
`unmark` names the address its device was last marked at, packets get the mark
of their device. -/
theorem run_marks_packets (ids : Mac → Nat) (ipv6Ok : Bool)
    (commands : List Command)
    (own : ∀ left ∈ commands, ∀ right ∈ commands,
      ids left.mac = ids right.mac → left.mac = right.mac)
    (names : Runs.Guarded (step ids) NamesLastIp
      (Tables.init ipv6Ok, Book.empty) commands) :
    ∀ state ∈ Runs.visited (step ids) (Tables.init ipv6Ok, Book.empty) commands,
      MarksPackets ids state := by
  intro state visited
  have injective : Set.InjOn ids {mac | ∃ command ∈ commands,
      Command.mac command = mac} := by
    rintro _ ⟨left, leftMember, rfl⟩ _ ⟨right, rightMember, rfl⟩ same
    exact own left leftMember right rightMember same
  obtain ⟨_, chain, distinct, current⟩ := run_represents injective ipv6Ok
    (fun command member => ⟨command, member, rfl⟩) names state visited
  refine ⟨chain, distinct, current, ?_, ?_, ?_, ?_⟩
  · intro mac ip member packet source address elsewhere
    rw [chain]
    exact markOf_from_last_ip distinct member source (.inl address) elsewhere
  · intro mac ip member packet source _ unmarked elsewhere
    rw [chain]
    exact markOf_from_last_ip distinct member source (.inr unmarked) elsewhere
  · intro mac ip member packet unmarkedSource destination sole
    rw [chain]
    exact markOf_to_last_ip distinct member destination unmarkedSource sole
  · intro packet unmarkedSource elsewhere
    rw [chain]
    exact markOf_untouched unmarkedSource elsewhere

/-- Two devices, one of them twice at another address. -/
def sampleRun : List Command :=
  [.mark phoneIp phone, .mark tabletIp tablet, .mark spareIp phone,
    .unmark tabletIp tablet, .mark tabletIp tablet]

def sampleIds (mac : Mac) : Nat :=
  if mac = phone then 1 else 2

theorem sampleRun_marks_packets :
    (∀ left ∈ sampleRun, ∀ right ∈ sampleRun,
      sampleIds left.mac = sampleIds right.mac → left.mac = right.mac) ∧
    Runs.Guarded (step sampleIds) NamesLastIp (Tables.init true, Book.empty)
      sampleRun ∧
    ∀ state ∈ Runs.visited (step sampleIds) (Tables.init true, Book.empty)
        sampleRun,
      MarksPackets sampleIds state := by
  have own : ∀ left ∈ sampleRun, ∀ right ∈ sampleRun,
      sampleIds left.mac = sampleIds right.mac → left.mac = right.mac := by
    decide
  have names : Runs.Guarded (step sampleIds) NamesLastIp
      (Tables.init true, Book.empty) sampleRun := by
    decide +kernel
  exact ⟨own, names, run_marks_packets sampleIds true sampleRun own names⟩

/-- A packet of one device to the address of another one leaves the chain with
the mark of the other device, although it entered it unmarked. -/
theorem unmarked_packet_to_marked_ip :
    ¬ ∀ (ids : Mac → Nat) (ipv6Ok : Bool) (commands : List Command),
      (∀ left ∈ commands, ∀ right ∈ commands,
        ids left.mac = ids right.mac → left.mac = right.mac) →
      Runs.Guarded (step ids) NamesLastIp (Tables.init ipv6Ok, Book.empty)
        commands →
      ∀ state ∈ Runs.visited (step ids) (Tables.init ipv6Ok, Book.empty)
          commands,
        ∀ mac ip, (mac, ip) ∈ state.2.marked → ∀ packet : Packet,
          packet.srcMac = mac.text → packet.src ≠ ip.text →
          packet.mark = 0 →
          markOf state.1.hncMark packet = markFor ids mac := by
  intro always
  have wrong := always sampleIds true
    [.mark phoneIp phone, .mark tabletIp tablet]
    (by decide) ⟨trivial, trivial, trivial⟩
    (step sampleIds (step sampleIds (Tables.init true, Book.empty)
      (.mark phoneIp phone)) (.mark tabletIp tablet))
    (by simp [Runs.visited])
    phone phoneIp (by decide +kernel)
    ⟨phone.text, spareIp.text, tabletIp.text, false, 0, 60⟩
    rfl (by decide) rfl
  revert wrong
  decide +kernel

end Hnc.MarkChain
