import Hnc.Net.MarkChain
import Mathlib.Data.List.Induction

/-!
# What is left after `unmark` and `blacklist_remove`

Rules are installed for a hardware address and for the network address of the
moment.  `mark` collects the rules of earlier addresses first; `unmark`,
`blacklist_add` and `blacklist_remove` know only the address they are given.
-/

namespace Hnc.UndoRules

open Posix IptablesManager
open MarkChain hiding step Command

/-- The commands that change the two chains of a device.  The address may be
empty. -/
inductive Command where
  | mark (address : Option Ipv4) (mac : Mac)
  | unmark (address : Option Ipv4) (mac : Mac)
  | blacklistAdd (address : Option Ipv4) (mac : Mac)
  | blacklistRemove (address : Option Ipv4) (mac : Mac)
deriving DecidableEq

def Command.mac : Command → Mac
  | .mark _ mac | .unmark _ mac | .blacklistAdd _ mac | .blacklistRemove _ mac =>
      mac

def Command.address : Command → Option Ipv4
  | .mark address _ | .unmark address _ | .blacklistAdd address _
  | .blacklistRemove address _ => address

/-- The command is `mark` or `blacklist_add`. -/
def Command.Installs : Command → Prop
  | .mark _ _ | .blacklistAdd _ _ => True
  | .unmark _ _ | .blacklistRemove _ _ => False

instance (command : Command) : Decidable command.Installs := by
  cases command <;> unfold Command.Installs <;> infer_instance

/-- An argument `ip`. -/
def addressText : Option Ipv4 → Text
  | none => []
  | some ip => ip.text

section Machine

variable (ids : Mac → Nat)

def step (tables : Tables) : Command → Tables
  | .mark address mac =>
      markDevice (addressText address) mac.text (ids mac) tables
  | .unmark address mac =>
      unmarkDevice (addressText address) mac.text (ids mac) tables
  | .blacklistAdd address mac =>
      blacklistAdd (addressText address) mac.text tables
  | .blacklistRemove address mac =>
      blacklistRemove (addressText address) mac.text tables

/-- The chains after the commands of a run. -/
def after (ipv6Ok : Bool) (commands : List Command) : Tables :=
  commands.foldl (step ids) (Tables.init ipv6Ok)

/-- No rule of `HNC_MARK` matches the hardware address or sets its mark. -/
def Unmarked (mac : Mac) (tables : Tables) : Prop :=
  ∀ rule ∈ tables.hncMark ++ tables.hncMark6,
    rule.macSource ≠ some mac.text ∧ rule.setMark ≠ markFor ids mac

instance (mac : Mac) (tables : Tables) : Decidable (Unmarked ids mac tables) :=
  inferInstanceAs (Decidable (∀ _ ∈ _, _))

end Machine

/-- The rules that `blacklist_add` installs. -/
def blacklistRules (address : Option Ipv4) (mac : Mac) : List CtrlRule :=
  [ctrlMac mac.text, ctrlReset mac.text, ctrlTcp mac.text] ++
    match address with
    | none => []
    | some ip => [ctrlSrc ip.text, ctrlDst ip.text]

/-- No rule of `HNC_CTRL` that a `blacklist_add` for the device installs. -/
def Unlisted (mac : Mac) (commands : List Command) (tables : Tables) : Prop :=
  ∀ rule ∈ tables.hncCtrl ++ tables.hncCtrl6, ∀ address,
    .blacklistAdd address mac ∈ commands → rule ∉ blacklistRules address mac

/-- The addresses that the device is marked at, in order. -/
def markedAt (mac : Mac) (commands : List Command) : List Ipv4 :=
  commands.filterMap fun command =>
    match command with
    | .mark address owner => if owner = mac then address else none
    | _ => none

/-- The address that the device is marked at last. -/
def lastMarkedAt (mac : Mac) (commands : List Command) : Option Ipv4 :=
  (markedAt mac commands).getLast?

/-- The device is only marked and blacklisted, while the other devices, with
marks and addresses of their own, do what they like. -/
structure Installing (ids : Mac → Nat) (mac : Mac) (commands : List Command) :
    Prop where
  installs : ∀ command ∈ commands, command.mac = mac → command.Installs
  ids : ∀ command ∈ commands, command.mac ≠ mac → ids command.mac ≠ ids mac
  addresses : ∀ own ∈ commands, own.mac = mac → ∀ command ∈ commands,
    command.mac ≠ mac → ∀ ip ∈ own.address, ip ∉ command.address

/-! ### The rules of one device in `HNC_MARK` -/

/-- The rule matches the hardware address or sets its mark. -/
def Owned (mac : Text) (mark : Nat) (rule : MarkRule) : Bool :=
  rule.macSource = some mac ∨ rule.setMark = mark

theorem filter_owned_eq_nil (mac : Text) (mark : Nat) (chain : List MarkRule) :
    chain.filter (Owned mac mark) = [] ↔
      ∀ rule ∈ chain, rule.macSource ≠ some mac ∧ rule.setMark ≠ mark := by
  rw [List.filter_eq_nil_iff]
  refine forall₂_congr fun rule _ => ?_
  rw [Owned, decide_eq_true_eq, not_or]

theorem unmarked_iff (ids : Mac → Nat) (mac : Mac) (tables : Tables) :
    Unmarked ids mac tables ↔
      tables.hncMark.filter (Owned mac.text (markFor ids mac)) = [] ∧
      tables.hncMark6.filter (Owned mac.text (markFor ids mac)) = [] := by
  rw [filter_owned_eq_nil, filter_owned_eq_nil, Unmarked, List.forall_mem_append]

theorem filter_owned_block (ids : Mac → Nat) (mac : Mac) (ip : Ipv4) :
    (block ids (mac, ip)).filter (Owned mac.text (markFor ids mac)) =
      block ids (mac, ip) := by
  apply List.filter_eq_self.mpr
  intro rule member
  exact decide_eq_true (.inr (setMark_of_mem_block member))

/-- A command for another device deletes no rule of this one. -/
theorem not_owned_of_deleted {mac other : Mac} {mark otherMark : Nat}
    {olds : List Text} {rule : MarkRule} (device : other ≠ mac)
    (marks : otherMark ≠ mark)
    (deleted : rule ∈ macRule other.text otherMark ::
      addressRules other.text otherMark olds) :
    Owned mac.text mark rule = false := by
  have texts : other.text ≠ mac.text := fun same => device (Mac.ext_text same)
  apply decide_eq_false
  rintro (source | same)
  · rcases List.mem_cons.mp deleted with here | listed
    · rw [here] at source
      exact texts (Option.some.inj source)
    · obtain ⟨old, _, inside⟩ := List.mem_flatMap.mp listed
      rcases List.mem_cons.mp inside with src | dst
      · rw [src] at source
        exact texts (Option.some.inj source)
      · rw [List.mem_singleton.mp dst] at source
        cases source
  · exact marks ((setMark_of_mem_deleted deleted).symm.trans same)

theorem filter_owned_kept {mac other : Mac} {mark otherMark : Nat}
    (olds : List Text) (device : other ≠ mac) (marks : otherMark ≠ mark)
    (chain : List MarkRule) :
    (chain.filter fun rule => rule ∉ macRule other.text otherMark ::
        addressRules other.text otherMark olds).filter (Owned mac.text mark) =
      chain.filter (Owned mac.text mark) := by
  rw [List.filter_filter]
  apply List.filter_congr
  intro rule _
  by_cases deleted : rule ∈ macRule other.text otherMark ::
      addressRules other.text otherMark olds
  · rw [not_owned_of_deleted device marks deleted, Bool.false_and]
  · rw [decide_eq_true deleted, Bool.and_true]

theorem filter_owned_fresh (ids : Mac → Nat) {mac other : Mac} (ip : Ipv4)
    (device : other ≠ mac) (marks : markFor ids other ≠ markFor ids mac) :
    (block ids (other, ip)).filter (Owned mac.text (markFor ids mac)) = [] := by
  apply List.filter_eq_nil_iff.mpr
  intro rule member
  have inside : rule ∈ macRule other.text (markFor ids other) ::
      addressRules other.text (markFor ids other) [ip.text] := by
    simp only [block, List.mem_cons, List.not_mem_nil, or_false] at member
    rcases member with source | source | destination
    · rw [source]
      exact .tail _ (.head _)
    · rw [source]
      exact .head _
    · rw [destination]
      exact .tail _ (.tail _ (.head _))
  rw [not_owned_of_deleted device marks inside]
  exact Bool.false_ne_true

theorem markDevice_hncMark6 (ip : Ipv4) (mac : Text) (markId : Nat)
    (tables : Tables) :
    (markDevice ip.text mac markId tables).hncMark6 =
      if tables.ipv6Ok then
        (tables.hncMark6.filter fun rule =>
          rule ≠ macRule mac (markBase + markId)) ++
            [macRule mac (markBase + markId)]
      else tables.hncMark6 := by
  simp only [markDevice, ip.text_ne_nil, if_false, addMarkRules, delMarkRules,
    gcStaleIpsForMac, foldl_gcAddress_hncMark6, foldl_gcAddress_ipv6Ok, delMark,
    Chain.deleteAll_eq_without]
  split <;> rfl

theorem unmarkDevice_hncMark6 (ip mac : Text) (markId : Nat) (tables : Tables) :
    (unmarkDevice ip mac markId tables).hncMark6 =
      if tables.ipv6Ok then
        tables.hncMark6.filter fun rule => rule ≠ macRule mac (markBase + markId)
      else tables.hncMark6 := by
  simp only [unmarkDevice, delStatRules, delMarkRules, delMark,
    Chain.deleteAll_eq_without, Chain.without, id]

theorem markDevice_ipv6Ok (ip mac : Text) (markId : Nat) (tables : Tables) :
    (markDevice ip mac markId tables).ipv6Ok = tables.ipv6Ok := by
  rw [markDevice]
  split
  · rfl
  · simp only [addStatRules, delStatRules, addMarkRules, delMarkRules,
      gcStaleIpsForMac]
    rw [foldl_gcAddress_ipv6Ok]

theorem step_ipv6Ok (ids : Mac → Nat) (tables : Tables) (command : Command) :
    (step ids tables command).ipv6Ok = tables.ipv6Ok := by
  cases command with
  | mark address mac => exact markDevice_ipv6Ok _ _ _ tables
  | unmark address mac => rfl
  | blacklistAdd address mac => rfl
  | blacklistRemove address mac => rfl

/-- The rules of the device are those of the address it was marked at last. -/
structure MarksOf (ids : Mac → Nat) (mac : Mac) (last : Option Ipv4)
    (tables : Tables) : Prop where
  chain : tables.hncMark.filter (Owned mac.text (markFor ids mac)) =
    last.toList.flatMap fun ip => block ids (mac, ip)
  chain6 : tables.hncMark6.filter (Owned mac.text (markFor ids mac)) =
    if tables.ipv6Ok then
      last.toList.map fun _ => macRule mac.text (markFor ids mac)
    else []

theorem owned_macRule (mac : Text) (mark : Nat) :
    Owned mac mark (macRule mac mark) = true :=
  decide_eq_true (.inl rfl)

section

variable {ids : Mac → Nat} {mac : Mac} {last : Option Ipv4} {tables : Tables}
  (marks : MarksOf ids mac last tables)
include marks

/-- All rules of the device for its last address and the listed ones go. -/
theorem filter_owned_deleted {olds : List Text}
    (known : ∀ ip ∈ last, ip.text ∈ olds) :
    (tables.hncMark.filter fun rule =>
      rule ∉ macRule mac.text (markFor ids mac) ::
        addressRules mac.text (markFor ids mac) olds).filter
          (Owned mac.text (markFor ids mac)) = [] := by
  rw [List.filter_comm, marks.chain]
  have blocks : (last.toList.flatMap fun ip => block ids (mac, ip)) =
      (last.toList.map fun ip => (mac, ip)).flatMap (block ids) := by
    rw [List.flatMap_map]
  rw [blocks, filter_flatMap_block]
  · cases last <;> simp [Book.dropMac]
  · intro entry member _
    obtain ⟨ip, _, same⟩ := List.mem_map.mp member
    rw [← same]
  · intro ip member
    obtain ⟨other, inside, same⟩ := List.mem_map.mp member
    rw [← (Prod.mk.inj same).2]
    exact known other (Option.mem_toList.mp inside)

theorem MarksOf.mark (ip : Ipv4) :
    MarksOf ids mac (some ip) (step ids tables (.mark (some ip) mac)) := by
  have known : ∀ old ∈ last, old.text ∈ ip.text ::
      staleIps mac.text (hexText (markBase + ids mac)) ip.text tables.hncMark := by
    intro old same
    have inside : srcRule old.text mac.text (markFor ids mac) ∈
        tables.hncMark.filter (Owned mac.text (markFor ids mac)) := by
      rw [marks.chain]
      exact List.mem_flatMap.mpr ⟨old, Option.mem_toList.mpr same, .head _⟩
    exact mem_staleIps_of_srcRule (List.mem_of_mem_filter inside) _
  constructor
  · change (markDevice ip.text mac.text (ids mac) tables).hncMark.filter _ = _
    rw [markDevice_hncMark, delMarkRules_gc_hncMark, List.filter_append]
    have gone := filter_owned_deleted marks known
    rw [markFor] at gone ⊢
    rw [gone]
    exact filter_owned_block ids mac ip
  · rw [step_ipv6Ok]
    change (markDevice ip.text mac.text (ids mac) tables).hncMark6.filter _ = _
    rw [markDevice_hncMark6]
    cases available : tables.ipv6Ok with
    | false =>
        have kept := marks.chain6
        rw [available] at kept
        exact kept
    | true =>
        rw [if_pos rfl, List.filter_append, List.filter_comm, marks.chain6,
          available, if_pos rfl]
        have gone : (last.toList.map fun _ =>
            macRule mac.text (markFor ids mac)).filter (fun rule =>
              rule ≠ macRule mac.text (markBase + ids mac)) = [] := by
          apply List.filter_eq_nil_iff.mpr
          intro rule member
          obtain ⟨_, _, same⟩ := List.mem_map.mp member
          rw [← same]
          simp [markFor]
        rw [gone]
        exact List.filter_cons_of_pos (owned_macRule _ _)

/-- A command for another device leaves the rules of this one alone. -/
theorem MarksOf.other {command : Command} (device : command.mac ≠ mac)
    (other : ids command.mac ≠ ids mac) :
    MarksOf ids mac last (step ids tables command) := by
  have marksDiffer : markFor ids command.mac ≠ markFor ids mac :=
    fun same => other (Nat.add_left_cancel same)
  have kept6 : ∀ chain : List MarkRule, (chain.filter fun rule =>
      rule ≠ macRule command.mac.text (markFor ids command.mac)).filter
        (Owned mac.text (markFor ids mac)) =
      chain.filter (Owned mac.text (markFor ids mac)) := by
    intro chain
    have kept := filter_owned_kept [] device marksDiffer chain
    simpa [addressRules] using kept
  have fresh6 : [macRule command.mac.text (markFor ids command.mac)].filter
      (Owned mac.text (markFor ids mac)) = [] := by
    have deleted : macRule command.mac.text (markFor ids command.mac) ∈
        macRule command.mac.text (markFor ids command.mac) ::
          addressRules command.mac.text (markFor ids command.mac) [] := .head _
    rw [List.filter_singleton, not_owned_of_deleted device marksDiffer deleted]
    rfl
  cases command with
  | mark address owner =>
      cases address with
      | none => exact marks
      | some ip =>
          constructor
          · change (markDevice ip.text owner.text (ids owner) tables).hncMark.filter
              _ = _
            rw [markDevice_hncMark, delMarkRules_gc_hncMark, List.filter_append]
            have kept := filter_owned_kept (ip.text ::
              staleIps owner.text (hexText (markBase + ids owner)) ip.text
                tables.hncMark) device marksDiffer tables.hncMark
            have fresh := filter_owned_fresh ids ip device marksDiffer
            exact (congrArg₂ (· ++ ·) kept fresh).trans
              ((List.append_nil _).trans marks.chain)
          · rw [step_ipv6Ok, ← marks.chain6]
            change (markDevice ip.text owner.text (ids owner) tables).hncMark6.filter
              _ = _
            rw [markDevice_hncMark6]
            split
            · rw [List.filter_append]
              exact (congrArg₂ (· ++ ·) (kept6 tables.hncMark6) fresh6).trans
                (List.append_nil _)
            · rfl
  | unmark address owner =>
      constructor
      · change (unmarkDevice (addressText address) owner.text (ids owner)
          tables).hncMark.filter _ = _
        rw [unmarkDevice_hncMark]
        exact (filter_owned_kept _ device marksDiffer tables.hncMark).trans
          marks.chain
      · rw [step_ipv6Ok, ← marks.chain6]
        change (unmarkDevice (addressText address) owner.text (ids owner)
          tables).hncMark6.filter _ = _
        rw [unmarkDevice_hncMark6]
        split
        · exact kept6 tables.hncMark6
        · rfl
  | blacklistAdd address owner => exact ⟨marks.chain, marks.chain6⟩
  | blacklistRemove address owner => exact ⟨marks.chain, marks.chain6⟩

/-- After `unmark` nothing is left exactly when it was given the last address. -/
theorem MarksOf.unmarked_iff (address : Option Ipv4) :
    Unmarked ids mac (step ids tables (.unmark address mac)) ↔
      ∀ ip ∈ last, address = some ip := by
  rw [UndoRules.unmarked_iff]
  change (unmarkDevice (addressText address) mac.text (ids mac) tables).hncMark.filter
    _ = [] ∧ (unmarkDevice (addressText address) mac.text (ids mac)
      tables).hncMark6.filter _ = [] ↔ _
  rw [unmarkDevice_hncMark, unmarkDevice_hncMark6]
  constructor
  · rintro ⟨gone, _⟩ ip same
    by_contra different
    have inside : srcRule ip.text mac.text (markFor ids mac) ∈
        tables.hncMark.filter (Owned mac.text (markFor ids mac)) := by
      rw [marks.chain]
      exact List.mem_flatMap.mpr ⟨ip, Option.mem_toList.mpr same, .head _⟩
    have texts : ip.text ≠ addressText address := by
      intro equal
      cases address with
      | none => exact ip.text_ne_nil equal
      | some other => exact different (congrArg some (Ipv4.ext_text equal).symm)
    have stays : srcRule ip.text mac.text (markFor ids mac) ∈
        (tables.hncMark.filter fun rule =>
          rule ∉ macRule mac.text (markBase + ids mac) ::
            addressRules mac.text (markBase + ids mac) [addressText address]).filter
              (Owned mac.text (markFor ids mac)) := by
      rw [List.filter_comm]
      apply List.mem_filter.mpr
      constructor
      · exact inside
      · simp [addressRules, srcRule, macRule, dstRule, texts]
    rw [gone] at stays
    exact List.not_mem_nil stays
  · intro named
    constructor
    · apply filter_owned_deleted marks
      intro ip same
      rw [named ip same]
      exact List.mem_singleton.mpr rfl
    · have own := marks.chain6
      split
      · rename_i available
        rw [if_pos available] at own
        rw [List.filter_comm, own]
        apply List.filter_eq_nil_iff.mpr
        intro rule member
        obtain ⟨_, _, same⟩ := List.mem_map.mp member
        rw [← same]
        simp [markFor]
      · rename_i missing
        rw [if_neg missing] at own
        exact own

end

variable {rule : CtrlRule}

theorem mem_delCtrlMac {mac : Text} {chain : List CtrlRule} :
    rule ∈ delCtrlMac mac chain ↔
      rule ∈ chain ∧ rule ∉ [ctrlMac mac, ctrlReset mac, ctrlTcp mac] := by
  simp only [delCtrlMac, delCtrl, Chain.deleteAll_eq_without, Chain.mem_without,
    id, List.mem_cons, List.not_mem_nil, or_false, not_or, and_assoc]

theorem mem_delCtrl_pair {ip : Text} {chain : List CtrlRule} :
    rule ∈ delCtrl (ctrlDst ip) (delCtrl (ctrlSrc ip) chain) ↔
      rule ∈ chain ∧ rule ∉ [ctrlSrc ip, ctrlDst ip] := by
  simp only [delCtrl, Chain.deleteAll_eq_without, Chain.mem_without, id,
    List.mem_cons, List.not_mem_nil, or_false, not_or, and_assoc]

/-- The two rules of an address. -/
def ipRules (ip : Ipv4) : List CtrlRule :=
  [ctrlSrc ip.text, ctrlDst ip.text]

variable {ip : Ipv4}

theorem ipRules_macSource (own : rule ∈ ipRules ip) : rule.macSource = none := by
  rcases List.mem_cons.mp own with source | destination
  · rw [source]
    rfl
  · rw [List.mem_singleton.mp destination]
    rfl

theorem ipRules_not_mac {mac : Text} (own : rule ∈ ipRules ip) :
    rule ∉ [ctrlMac mac, ctrlReset mac, ctrlTcp mac] := by
  have source := ipRules_macSource own
  intro inside
  simp only [List.mem_cons, List.not_mem_nil, or_false] at inside
  rcases inside with same | same | same <;> rw [same] at source <;> cases source

theorem eq_of_mem_ipRules {other : Ipv4} (own : rule ∈ ipRules ip)
    (inside : rule ∈ ipRules other) : ip = other := by
  simp only [ipRules, List.mem_cons, List.not_mem_nil, or_false] at own inside
  apply Ipv4.ext_text
  rcases own with same | same <;> rw [same] at inside <;>
    simpa [ctrlSrc, ctrlDst] using inside

theorem markDevice_ctrl (ip mac : Text) (markId : Nat) (tables : Tables) :
    (markDevice ip mac markId tables).hncCtrl = tables.hncCtrl ∧
      (markDevice ip mac markId tables).hncCtrl6 = tables.hncCtrl6 := by
  rw [markDevice]
  split
  · exact ⟨rfl, rfl⟩
  · exact foldl_gcAddress_ctrl mac _ _ tables

variable {command : Command}

/-- An address that is listed stays listed, unless `blacklist_remove` is given
it. -/
theorem ipRules_step (ids : Mac → Nat) {tables : Tables}
    (kept : ∀ mac, command ≠ .blacklistRemove (some ip) mac)
    (own : rule ∈ ipRules ip) (listed : rule ∈ tables.hncCtrl) :
    rule ∈ (step ids tables command).hncCtrl := by
  have stays : ∀ mac, rule ∈ delCtrlMac mac tables.hncCtrl :=
    fun mac => mem_delCtrlMac.mpr ⟨listed, ipRules_not_mac own⟩
  cases command with
  | mark address owner =>
      change rule ∈ (markDevice (addressText address) owner.text (ids owner)
        tables).hncCtrl
      rw [(markDevice_ctrl _ _ _ tables).1]
      exact listed
  | unmark address owner => exact listed
  | blacklistAdd address owner =>
      change rule ∈ (blacklistAdd (addressText address) owner.text tables).hncCtrl
      apply List.mem_cons_of_mem
      have front : rule ∈ delCtrlMac owner.text tables.hncCtrl ++
          [ctrlMac owner.text] := List.mem_append_left _ (stays owner.text)
      cases address with
      | none => exact front
      | some other =>
          rw [addressText, if_neg other.text_ne_nil]
          by_cases again : rule ∈ ipRules other
          · exact List.mem_append_right _ again
          · exact List.mem_append_left _ (mem_delCtrl_pair.mpr ⟨front, again⟩)
  | blacklistRemove address owner =>
      change rule ∈ (blacklistRemove (addressText address) owner.text tables).hncCtrl
      rw [blacklistRemove]
      cases address with
      | none => exact stays owner.text
      | some other =>
          rw [addressText, if_neg other.text_ne_nil]
          refine mem_delCtrl_pair.mpr ⟨stays owner.text, fun again => ?_⟩
          apply kept owner
          rw [eq_of_mem_ipRules own again]

theorem ipRules_blacklistAdd (ids : Mac → Nat) (tables : Tables) (ip : Ipv4)
    (mac : Mac) (own : rule ∈ ipRules ip) :
    rule ∈ (step ids tables (.blacklistAdd (some ip) mac)).hncCtrl := by
  change rule ∈ (blacklistAdd ip.text mac.text tables).hncCtrl
  rw [blacklistAdd, if_neg ip.text_ne_nil]
  exact List.mem_cons_of_mem _ (List.mem_append_right _ own)

theorem noAddress6_step (ids : Mac → Nat) {tables : Tables}
    (plain : ∀ rule ∈ tables.hncCtrl6, tables.ipv6Ok = true ∧ rule.macSource ≠ none)
    (command : Command) :
    ∀ rule ∈ (step ids tables command).hncCtrl6,
      (step ids tables command).ipv6Ok = true ∧ rule.macSource ≠ none := by
  rw [step_ipv6Ok]
  cases command with
  | mark address owner =>
      change ∀ rule ∈ (markDevice (addressText address) owner.text (ids owner)
        tables).hncCtrl6, _
      rw [(markDevice_ctrl _ _ _ tables).2]
      exact plain
  | unmark address owner => exact plain
  | blacklistAdd address owner =>
      change ∀ rule ∈ (blacklistAdd (addressText address) owner.text
        tables).hncCtrl6, _
      rw [blacklistAdd]
      simp only
      split
      · rename_i available
        intro rule member
        refine ⟨available, ?_⟩
        rcases List.mem_cons.mp member with reset | behind
        · rw [reset]
          exact Option.some_ne_none _
        · rcases List.mem_append.mp behind with old | new
          · exact (plain rule (mem_delCtrlMac.mp old).1).2
          · rw [List.mem_singleton.mp new]
            exact Option.some_ne_none _
      · exact plain
  | blacklistRemove address owner =>
      change ∀ rule ∈ (blacklistRemove (addressText address) owner.text
        tables).hncCtrl6, _
      rw [blacklistRemove]
      simp only
      split
      · intro rule member
        exact plain rule (mem_delCtrlMac.mp member).1
      · exact plain

/-- What holds after the commands of a run. -/
structure Kept (ids : Mac → Nat) (mac : Mac) (commands : List Command)
    (tables : Tables) : Prop where
  marks : MarksOf ids mac (lastMarkedAt mac commands) tables
  listed : ∀ ip, .blacklistAdd (some ip) mac ∈ commands →
    ∀ rule ∈ ipRules ip, rule ∈ tables.hncCtrl
  plain6 : ∀ rule ∈ tables.hncCtrl6,
    tables.ipv6Ok = true ∧ rule.macSource ≠ none

theorem lastMarkedAt_mark (mac : Mac) (commands : List Command) (ip : Ipv4) :
    lastMarkedAt mac (commands ++ [.mark (some ip) mac]) = some ip := by
  simp [lastMarkedAt, markedAt]

theorem lastMarkedAt_other (mac : Mac) (commands : List Command)
    (other : ∀ ip, command ≠ .mark (some ip) mac) :
    lastMarkedAt mac (commands ++ [command]) = lastMarkedAt mac commands := by
  have none : (match command with
      | .mark address owner => if owner = mac then address else none
      | _ => none) = none := by
    cases command with
    | mark address owner =>
        cases address with
        | none => exact ite_self none
        | some ip =>
            by_cases same : owner = mac
            · exact absurd (by rw [same]) (other ip)
            · exact if_neg same
    | unmark address owner => rfl
    | blacklistAdd address owner => rfl
    | blacklistRemove address owner => rfl
  simp [lastMarkedAt, markedAt, List.filterMap_append, none]

variable {commands : List Command}

theorem Installing.front {ids : Mac → Nat} {mac : Mac}
    (installing : Installing ids mac (commands ++ [command])) :
    Installing ids mac commands where
  installs other member := installing.installs other (List.mem_append_left _ member)
  ids other member := installing.ids other (List.mem_append_left _ member)
  addresses own member isOwn other listed :=
    installing.addresses own (List.mem_append_left _ member) isOwn other
      (List.mem_append_left _ listed)

/-- After a run that installs rules for a device, those for its last mark and
for all its blacklisted addresses are there. -/
theorem kept_run {ids : Mac → Nat} {mac : Mac} (ipv6Ok : Bool)
    (installing : Installing ids mac commands) :
    Kept ids mac commands (after ids ipv6Ok commands) := by
  induction commands using List.reverseRecOn with
  | nil =>
      refine ⟨⟨rfl, ?_⟩, fun _ member => absurd member List.not_mem_nil,
        fun _ member => absurd member List.not_mem_nil⟩
      exact (ite_self []).symm
  | append_singleton commands command induction =>
      obtain ⟨marks, listed, plain6⟩ := induction installing.front
      rw [after, List.foldl_append, List.foldl_cons]
      have last : command ∈ commands ++ [command] :=
        List.mem_append_right _ List.mem_cons_self
      have others : command.mac ≠ mac → ids command.mac ≠ ids mac :=
        installing.ids command last
      constructor
      · by_cases device : command.mac = mac
        · cases command with
          | mark address owner =>
              rw [← show owner = mac from device] at marks ⊢
              cases address with
              | none =>
                  rw [lastMarkedAt_other owner commands (by simp)]
                  exact marks
              | some ip =>
                  rw [lastMarkedAt_mark]
                  exact marks.mark ip
          | unmark address owner =>
              exact absurd (installing.installs _ last device) id
          | blacklistAdd address owner =>
              rw [lastMarkedAt_other mac commands (by simp)]
              exact ⟨marks.chain, marks.chain6⟩
          | blacklistRemove address owner =>
              exact absurd (installing.installs _ last device) id
        · rw [lastMarkedAt_other mac commands]
          · exact marks.other device (others device)
          · intro ip same
            rw [same] at device
            exact device rfl
      · intro ip member rule own
        rcases List.mem_append.mp member with earlier | here
        · apply ipRules_step ids _ own (listed ip earlier rule own)
          intro owner same
          by_cases device : command.mac = mac
          · have installs := installing.installs command last device
            rw [same] at installs
            exact installs
          · have apart := installing.addresses _ (List.mem_append_left _ earlier) rfl
              command last device ip rfl
            rw [same] at apart
            exact apart rfl
        · rw [← List.mem_singleton.mp here]
          exact ipRules_blacklistAdd ids _ ip mac own
      · exact noAddress6_step ids plain6 command

/-- After `blacklist_remove` nothing is left exactly when every address of the
device is the one it was given. -/
theorem Kept.unlisted_iff {ids : Mac → Nat} {mac : Mac} {tables : Tables}
    (kept : Kept ids mac commands tables) (address : Option Ipv4) :
    Unlisted mac commands (step ids tables (.blacklistRemove address mac)) ↔
      ∀ ip, .blacklistAdd (some ip) mac ∈ commands → address = some ip := by
  change Unlisted mac commands (blacklistRemove (addressText address) mac.text tables)
    ↔ _
  constructor
  · intro unlisted ip member
    by_contra different
    have own : ctrlSrc ip.text ∈ ipRules ip := .head _
    have stays : ctrlSrc ip.text ∈
        (step ids tables (.blacklistRemove address mac)).hncCtrl := by
      apply ipRules_step ids _ own (kept.listed ip member _ own)
      intro owner same
      exact different (Command.blacklistRemove.inj same).1
    exact unlisted _ (List.mem_append_left _ stays) (some ip) member
      (List.mem_append_right _ own)
  · intro named rule member other installed inside
    rw [blacklistRemove] at member
    have clean : rule ∉ [ctrlMac mac.text, ctrlReset mac.text, ctrlTcp mac.text] := by
      rcases List.mem_append.mp member with v4 | v6
      · split at v4
        · exact (mem_delCtrlMac.mp v4).2
        · exact (mem_delCtrlMac.mp (mem_delCtrl_pair.mp v4).1).2
      · simp only at v6
        split at v6
        · exact (mem_delCtrlMac.mp v6).2
        · rename_i missing
          exact absurd (kept.plain6 rule v6).1 missing
    rcases List.mem_append.mp inside with general | addressed
    · exact clean general
    · cases other with
      | none => exact List.not_mem_nil addressed
      | some ip =>
          have same := named ip installed
          rcases List.mem_append.mp member with v4 | v6
          · rw [same, addressText] at v4
            simp only [if_neg ip.text_ne_nil] at v4
            exact (mem_delCtrl_pair.mp v4).2 addressed
          · have source := ipRules_macSource addressed
            simp only at v6
            split at v6
            · exact (kept.plain6 rule (mem_delCtrlMac.mp v6).1).2 source
            · exact (kept.plain6 rule v6).2 source

/-- The rules of a device are undone exactly when `unmark` is given the address
of its last mark, and `blacklist_remove` the only address it was listed with. -/
theorem undo_removes_all_iff (ids : Mac → Nat) (ipv6Ok : Bool) (mac : Mac)
    (commands : List Command) (installing : Installing ids mac commands)
    (address : Option Ipv4) :
    (Unmarked ids mac (step ids (after ids ipv6Ok commands)
        (.unmark address mac)) ↔
      ∀ ip ∈ lastMarkedAt mac commands, address = some ip) ∧
    (Unlisted mac commands (step ids (after ids ipv6Ok commands)
        (.blacklistRemove address mac)) ↔
      ∀ ip, .blacklistAdd (some ip) mac ∈ commands → address = some ip) := by
  have kept := kept_run ipv6Ok installing
  constructor
  · exact kept.marks.unmarked_iff address
  · exact kept.unlisted_iff address

/-- A device at two addresses next to another device. -/
def movingRun : List Command :=
  [.mark (some phoneIp) phone, .mark (some tabletIp) tablet,
    .blacklistAdd none phone, .mark (some spareIp) phone,
    .blacklistAdd (some spareIp) phone, .unmark (some tabletIp) tablet]

theorem installing_movingRun : Installing sampleIds phone movingRun where
  installs := by decide
  ids := by decide
  addresses := by decide +kernel

theorem moving_device_is_undone :
    (Unmarked sampleIds phone (step sampleIds (after sampleIds true movingRun)
        (.unmark (some spareIp) phone)) ↔
      ∀ ip ∈ lastMarkedAt phone movingRun, some spareIp = some ip) ∧
    (Unlisted phone movingRun (step sampleIds (after sampleIds true movingRun)
        (.blacklistRemove (some spareIp) phone)) ↔
      ∀ ip, .blacklistAdd (some ip) phone ∈ movingRun → some spareIp = some ip) :=
  undo_removes_all_iff sampleIds true phone movingRun installing_movingRun
    (some spareIp)

/-- A device that was marked at one address and is unmarked at another. -/
theorem old_address_keeps_its_mark :
    ¬ ∀ (ids : Mac → Nat) (ipv6Ok : Bool) (mac : Mac) (commands : List Command),
      Installing ids mac commands → ∀ address : Option Ipv4,
      Unmarked ids mac (step ids (after ids ipv6Ok commands)
          (.unmark address mac)) ∧
        Unlisted mac commands (step ids (after ids ipv6Ok commands)
          (.blacklistRemove address mac)) := by
  intro always
  have installing : Installing sampleIds phone [.mark (some phoneIp) phone] :=
    ⟨by decide, by decide, by decide +kernel⟩
  have clean := (always sampleIds true phone _ installing (some spareIp)).1
  revert clean
  decide +kernel

end Hnc.UndoRules
