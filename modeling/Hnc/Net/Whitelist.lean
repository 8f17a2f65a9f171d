import Hnc.Lib.Chain
import Hnc.Net.Tables
import Mathlib.Data.List.Count
import Mathlib.Data.List.Induction
import Mathlib.Data.Set.Function

/-!
# The whitelist mode

`HNC_WHITELIST` holds one `ACCEPT` rule for the hardware address of a member,
one for its network address as a source, and in whitelist mode a `DROP` rule
behind them.  Every command is described by what it does to the `ACCEPT` rules;
the verdict on a packet then depends only on the mode and on which of these
rules are there.
-/

namespace Hnc.Whitelist

open Posix

inductive Target where
  | accept
  | drop
deriving DecidableEq, Repr

/-- A rule of `HNC_WHITELIST`: `-s`, `-m mac --mac-source` and `-j`. -/
structure Rule where
  src : Option Text
  macSource : Option Text
  target : Target
deriving DecidableEq, Repr

/-- The chain of both protocols. -/
structure Chains where
  ipv6Ok : Bool
  hncWhitelist : List Rule
  hncWhitelist6 : List Rule
deriving DecidableEq, Repr

/-- The chains after `iptables_manager.sh init`. -/
def Chains.init (ipv6Ok : Bool) : Chains :=
  ⟨ipv6Ok, [], []⟩

/-- `-j DROP`. -/
def dropAll : Rule := ⟨none, none, .drop⟩

/-- `-m mac --mac-source mac -j ACCEPT`. -/
def acceptMac (mac : Text) : Rule := ⟨none, some mac, .accept⟩

/-- `-s ip -j ACCEPT`. -/
def acceptSrc (ip : Text) : Rule := ⟨some ip, none, .accept⟩

/-- `-D`, with its failure ignored. -/
def del (rule : Rule) (chain : List Rule) : List Rule :=
  (Chain.delete id rule chain).getD chain

/-- `ipt_dual` and `ipt_dual_q`: the same call for both protocols. -/
def dual (call : List Rule → List Rule) (chains : Chains) : Chains :=
  { chains with
    hncWhitelist := call chains.hncWhitelist
    hncWhitelist6 :=
      if chains.ipv6Ok then call chains.hncWhitelist6
      else chains.hncWhitelist6 }

/-- A call for IPv4 alone, skipped when no address is given. -/
def withIp (ip : Text) (call : List Rule → List Rule) (chains : Chains) :
    Chains :=
  if ip = [] then chains
  else { chains with hncWhitelist := call chains.hncWhitelist }

/-- `whitelist_mode_on`. -/
def whitelistModeOn (chains : Chains) : Chains :=
  dual (· ++ [dropAll]) (dual (del dropAll) chains)

/-- `whitelist_mode_off`. -/
def whitelistModeOff (chains : Chains) : Chains :=
  dual (fun _ => []) chains

/-- `whitelist_add`. -/
def whitelistAdd (ip mac : Text) (chains : Chains) : Chains :=
  withIp ip (acceptSrc ip :: ·)
    (dual (acceptMac mac :: ·) (dual (del (acceptMac mac)) chains))

/-- `whitelist_remove`. -/
def whitelistRemove (ip mac : Text) (chains : Chains) : Chains :=
  withIp ip (del (acceptSrc ip)) (dual (del (acceptMac mac)) chains)

def Rule.accepts (rule : Rule) (packet : Packet) : Bool :=
  addressMatches rule.src packet.src &&
    addressMatches rule.macSource packet.srcMac

/-- The first matching rule decides; a packet that reaches the end of the chain
returns to `FORWARD`. -/
def passes (packet : Packet) : List Rule → Bool
  | [] => true
  | rule :: rest =>
      if rule.accepts packet then rule.target == .accept
      else passes packet rest

inductive Command where
  | on
  | off
  | add (ip : Ipv4) (mac : Mac)
  | remove (ip : Ipv4) (mac : Mac)
deriving DecidableEq

def applyCommand (chains : Chains) : Command → Chains
  | .on => whitelistModeOn chains
  | .off => whitelistModeOff chains
  | .add ip mac => whitelistAdd ip.text mac.text chains
  | .remove ip mac => whitelistRemove ip.text mac.text chains

def after (ipv6Ok : Bool) (commands : List Command) : Chains :=
  commands.foldl applyCommand (.init ipv6Ok)

/-- Whether the last mode command was `whitelist_on`. -/
def modeOn (commands : List Command) : Bool :=
  commands.foldl
    (fun mode command =>
      match command with
      | .on => true
      | .off => false
      | _ => mode)
    false

/-- Whether the last `add` or `remove` for a device was an `add`. -/
def listed (mac : Mac) (commands : List Command) : Bool :=
  commands.foldl
    (fun member command =>
      match command with
      | .add _ named => if named = mac then true else member
      | .remove _ named => if named = mac then false else member
      | _ => member)
    false

/-- The same since the last `whitelist_off`. -/
def current (mac : Mac) (commands : List Command) : Bool :=
  commands.foldl
    (fun member command =>
      match command with
      | .add _ named => if named = mac then true else member
      | .remove _ named => if named = mac then false else member
      | .off => false
      | .on => member)
    false

/-- How often a device was added and not removed again since the last
`whitelist_off`. -/
def surplus (mac : Mac) (commands : List Command) : Nat :=
  commands.foldl
    (fun count command =>
      match command with
      | .add _ named => if named = mac then count + 1 else count
      | .remove _ named => if named = mac then count - 1 else count
      | .off => 0
      | .on => count)
    0

/-- The devices of the hotspot, each with an address of its own. -/
structure Devices where
  members : Set Mac
  ipOf : Mac → Ipv4
  own : Set.InjOn ipOf members

/-- The command names a device by its own address. -/
def Devices.Names (devices : Devices) : Command → Prop
  | .add ip mac => mac ∈ devices.members ∧ ip = devices.ipOf mac
  | .remove ip mac => mac ∈ devices.members ∧ ip = devices.ipOf mac
  | _ => True

/-- The packet is sent by the device from its own address, or is addressed to
it. -/
def Devices.Concerns (devices : Devices) (mac : Mac) (packet : Packet) : Prop :=
  packet.srcMac = mac.text ∧ packet.src = (devices.ipOf mac).text ∨
    packet.dst = (devices.ipOf mac).text

/-- In whitelist mode the chain lets through what concerns a listed device and
nothing that concerns another one; outside of it the chain drops nothing. -/
def AdmitsListed (devices : Devices) (commands : List Command)
    (chain : List Rule) : Prop :=
  (modeOn commands = true →
    ∀ mac ∈ devices.members, ∀ packet, devices.Concerns mac packet →
      (passes packet chain = true ↔ listed mac commands = true)) ∧
  (modeOn commands = false → ∀ packet, passes packet chain = true)

theorem del_eq_erase (rule : Rule) (chain : List Rule) :
    del rule chain = chain.erase rule :=
  Chain.delete_getD_eq_erase rule chain

/-- What a command does to the `ACCEPT` rules. -/
def changeAccepts (accepts : List Rule) : Command → List Rule
  | .on => accepts
  | .off => []
  | .add ip mac =>
      acceptSrc ip.text :: acceptMac mac.text ::
        accepts.erase (acceptMac mac.text)
  | .remove ip mac =>
      (accepts.erase (acceptMac mac.text)).erase (acceptSrc ip.text)

def acceptsOf (commands : List Command) : List Rule :=
  commands.foldl changeAccepts []

/-- The rule that whitelist mode puts behind the others. -/
def modeRules (mode : Bool) : List Rule :=
  if mode then [dropAll] else []

def IsAccept (rule : Rule) : Prop :=
  rule.target = .accept

theorem IsAccept.ne_dropAll {rule : Rule} (accept : IsAccept rule) :
    rule ≠ dropAll := by
  rintro rfl
  cases accept

theorem acceptMac_notMem_modeRules (mac : Text) (mode : Bool) :
    acceptMac mac ∉ modeRules mode := by
  cases mode <;> simp [modeRules, acceptMac, dropAll]

theorem acceptSrc_notMem_modeRules (ip : Text) (mode : Bool) :
    acceptSrc ip ∉ modeRules mode := by
  cases mode <;> simp [modeRules, acceptSrc, dropAll]

theorem erase_append_modeRules {rule : Rule} (mode : Bool)
    (other : rule ∉ modeRules mode) (accepts : List Rule) :
    (accepts ++ modeRules mode).erase rule =
      accepts.erase rule ++ modeRules mode := by
  rw [List.erase_append]
  split
  · rfl
  · next absent =>
      rw [List.erase_of_not_mem other, List.erase_of_not_mem absent]

theorem changeAccepts_accepts {accepts : List Rule}
    (all : ∀ rule ∈ accepts, IsAccept rule) (command : Command) :
    ∀ rule ∈ changeAccepts accepts command, IsAccept rule := by
  intro rule member
  cases command with
  | on => exact all rule member
  | off => cases member
  | add ip mac =>
      simp only [changeAccepts, List.mem_cons] at member
      rcases member with rfl | rfl | older
      · rfl
      · rfl
      · exact all rule (List.mem_of_mem_erase older)
  | remove ip mac =>
      exact all rule (List.mem_of_mem_erase (List.mem_of_mem_erase member))

theorem acceptsOf_snoc (commands : List Command) (command : Command) :
    acceptsOf (commands ++ [command]) =
      changeAccepts (acceptsOf commands) command := by
  simp [acceptsOf]

theorem acceptsOf_accepts (commands : List Command) :
    ∀ rule ∈ acceptsOf commands, IsAccept rule := by
  induction commands using List.reverseRecOn with
  | nil => simp [acceptsOf]
  | append_singleton commands command induction =>
      rw [acceptsOf_snoc]
      exact changeAccepts_accepts induction command

/-- The IPv4 chain is the `ACCEPT` rules followed by the rule of the mode. -/
theorem after_hncWhitelist (ipv6Ok : Bool) (commands : List Command) :
    (after ipv6Ok commands).hncWhitelist =
      acceptsOf commands ++ modeRules (modeOn commands) := by
  induction commands using List.reverseRecOn with
  | nil => rfl
  | append_singleton commands command induction =>
      have unfolded : after ipv6Ok (commands ++ [command]) =
          applyCommand (after ipv6Ok commands) command := by
        simp [after]
      rw [unfolded, acceptsOf_snoc]
      cases command with
      | on =>
          have absent : dropAll ∉ acceptsOf commands := by
            intro member
            exact (acceptsOf_accepts commands _ member).ne_dropAll rfl
          have kept : (acceptsOf commands ++
              modeRules (modeOn commands)).erase dropAll =
                acceptsOf commands := by
            rw [List.erase_append_right _ absent]
            cases modeOn commands <;> simp [modeRules]
          simp only [applyCommand, whitelistModeOn, dual, del_eq_erase,
            induction, kept]
          simp [changeAccepts, modeOn, modeRules]
      | off => simp [applyCommand, whitelistModeOff, dual, changeAccepts,
          modeOn, modeRules]
      | add ip mac =>
          have sameMode : modeOn (commands ++ [.add ip mac]) =
              modeOn commands := by
            simp [modeOn]
          simp only [applyCommand, whitelistAdd, dual, withIp, ip.text_ne_nil,
            del_eq_erase, induction, sameMode]
          rw [erase_append_modeRules _ (acceptMac_notMem_modeRules _ _)]
          rfl
      | remove ip mac =>
          have sameMode : modeOn (commands ++ [.remove ip mac]) =
              modeOn commands := by
            simp [modeOn]
          simp only [applyCommand, whitelistRemove, dual, withIp, ip.text_ne_nil,
            del_eq_erase, induction, sameMode]
          rw [erase_append_modeRules _ (acceptMac_notMem_modeRules _ _),
            erase_append_modeRules _ (acceptSrc_notMem_modeRules _ _)]
          rfl

theorem passes_accepts_append {accepts rest : List Rule}
    (all : ∀ rule ∈ accepts, IsAccept rule) (packet : Packet) :
    passes packet (accepts ++ rest) = true ↔
      (∃ rule ∈ accepts, rule.accepts packet = true) ∨
        passes packet rest = true := by
  induction accepts with
  | nil => simp
  | cons rule accepts induction =>
      have tail := induction fun rule member => all rule (by simp [member])
      have accept : rule.target = .accept := all rule (by simp)
      by_cases matched : rule.accepts packet = true
      · simp [passes, matched, accept]
      · simp [passes, matched, tail]

/-- In whitelist mode a packet passes exactly when an `ACCEPT` rule matches. -/
theorem passes_after (ipv6Ok : Bool) (commands : List Command)
    (packet : Packet) :
    passes packet (after ipv6Ok commands).hncWhitelist = true ↔
      modeOn commands = false ∨
        ∃ rule ∈ acceptsOf commands, rule.accepts packet = true := by
  rw [after_hncWhitelist, passes_accepts_append (acceptsOf_accepts commands),
    or_comm]
  refine or_congr ?_ Iff.rfl
  cases modeOn commands <;>
    simp [modeRules, passes, dropAll, Rule.accepts, addressMatches]

section Members

variable {devices : Devices} {commands : List Command}

variable {mac : Mac}

theorem acceptMac_injective {other : Mac}
    (same : acceptMac mac.text = acceptMac other.text) : mac = other := by
  apply Mac.ext_text
  simpa [acceptMac] using same

theorem acceptMac_ne_acceptSrc (mac ip : Text) : acceptMac mac ≠ acceptSrc ip := by
  simp [acceptMac, acceptSrc]

theorem Devices.acceptSrc_injective {other : Mac} (member : mac ∈ devices.members)
    (otherMember : other ∈ devices.members)
    (same : acceptSrc (devices.ipOf mac).text = acceptSrc (devices.ipOf other).text) :
    mac = other := by
  apply devices.own member otherMember
  apply Ipv4.ext_text
  simpa [acceptSrc] using same

theorem names_snoc {command : Command}
    (names : ∀ next ∈ commands ++ [command], devices.Names next) :
    (∀ next ∈ commands, devices.Names next) ∧ devices.Names command :=
  ⟨fun next member => names next (by simp [member]), names command (by simp)⟩

/-- One copy of the rule for the hardware address, while the device is a member
since the last `whitelist_off`. -/
theorem count_acceptMac (mac : Mac) (commands : List Command) :
    (acceptsOf commands).count (acceptMac mac.text) =
      (current mac commands).toNat := by
  induction commands using List.reverseRecOn with
  | nil => rfl
  | append_singleton commands command induction =>
      rw [acceptsOf_snoc]
      cases command with
      | on => simpa [changeAccepts, current] using induction
      | off => simp [changeAccepts, current]
      | add ip named =>
          have other : acceptSrc ip.text ≠ acceptMac mac.text :=
            (acceptMac_ne_acceptSrc _ _).symm
          simp only [changeAccepts, List.count_cons_of_ne other]
          by_cases same : named = mac
          · rw [same, List.count_cons_self, List.count_erase_self, induction]
            cases before : current mac commands <;> simp [current]
          · have different : acceptMac named.text ≠ acceptMac mac.text :=
              fun equal => same (acceptMac_injective equal)
            rw [List.count_cons_of_ne different,
              List.count_erase_of_ne different.symm, induction]
            simp [current, same]
      | remove ip named =>
          have other : acceptMac mac.text ≠ acceptSrc ip.text :=
            acceptMac_ne_acceptSrc _ _
          simp only [changeAccepts, List.count_erase_of_ne other]
          by_cases same : named = mac
          · rw [same, List.count_erase_self, induction]
            cases before : current mac commands <;> simp [current]
          · have different : acceptMac named.text ≠ acceptMac mac.text :=
              fun equal => same (acceptMac_injective equal)
            rw [List.count_erase_of_ne different.symm, induction]
            simp [current, same]

/-- The rule for the source address is never cleared before it is inserted, so
its copies add up. -/
theorem count_acceptSrc (names : ∀ next ∈ commands, devices.Names next)
    (member : mac ∈ devices.members) :
    (acceptsOf commands).count (acceptSrc (devices.ipOf mac).text) =
      surplus mac commands := by
  induction commands using List.reverseRecOn with
  | nil => rfl
  | append_singleton commands command induction =>
      obtain ⟨before, last⟩ := names_snoc names
      have counted := induction before
      rw [acceptsOf_snoc]
      cases command with
      | on => simpa [changeAccepts, surplus] using counted
      | off => simp [changeAccepts, surplus]
      | add ip named =>
          obtain ⟨namedMember, rfl⟩ := last
          have other := acceptMac_ne_acceptSrc named.text
            (devices.ipOf mac).text
          by_cases same : named = mac
          · rw [changeAccepts, same, List.count_cons_self,
              List.count_cons_of_ne (same ▸ other),
              List.count_erase_of_ne (same ▸ other).symm, counted]
            simp [surplus]
          · have different : acceptSrc (devices.ipOf named).text ≠
                acceptSrc (devices.ipOf mac).text := fun equal =>
              same (devices.acceptSrc_injective namedMember member equal)
            rw [changeAccepts, List.count_cons_of_ne different,
              List.count_cons_of_ne other, List.count_erase_of_ne other.symm,
              counted]
            simp [surplus, same]
      | remove ip named =>
          obtain ⟨namedMember, rfl⟩ := last
          have other := acceptMac_ne_acceptSrc named.text
            (devices.ipOf mac).text
          by_cases same : named = mac
          · rw [changeAccepts, same, List.count_erase_self,
              List.count_erase_of_ne (same ▸ other).symm, counted]
            simp [surplus]
          · have different : acceptSrc (devices.ipOf named).text ≠
                acceptSrc (devices.ipOf mac).text := fun equal =>
              same (devices.acceptSrc_injective namedMember member equal)
            rw [changeAccepts, List.count_erase_of_ne different.symm,
              List.count_erase_of_ne other.symm, counted]
            simp [surplus, same]

theorem listed_of_current (member : current mac commands = true) :
    listed mac commands = true := by
  induction commands using List.reverseRecOn with
  | nil => cases member
  | append_singleton commands command induction =>
      cases command with
      | on => simpa [current, listed] using induction (by simpa [current] using member)
      | off => simp [current] at member
      | add ip named =>
          by_cases same : named = mac
          · simp [listed, same]
          · simpa [listed, same] using
              induction (by simpa [current, same] using member)
      | remove ip named =>
          by_cases same : named = mac
          · simp [current, same] at member
          · simpa [listed, same] using
              induction (by simpa [current, same] using member)

theorem acceptsOf_members (names : ∀ next ∈ commands, devices.Names next) :
    ∀ rule ∈ acceptsOf commands, ∃ mac ∈ devices.members,
      rule = acceptMac mac.text ∨ rule = acceptSrc (devices.ipOf mac).text := by
  induction commands using List.reverseRecOn with
  | nil => simp [acceptsOf]
  | append_singleton commands command induction =>
      obtain ⟨before, last⟩ := names_snoc names
      have older := induction before
      intro rule
      rw [acceptsOf_snoc]
      cases command with
      | on => exact older rule
      | off => simp [changeAccepts]
      | add ip named =>
          obtain ⟨namedMember, rfl⟩ := last
          intro member
          simp only [changeAccepts, List.mem_cons] at member
          rcases member with rfl | rfl | rest
          · exact ⟨named, namedMember, .inr rfl⟩
          · exact ⟨named, namedMember, .inl rfl⟩
          · exact older rule (List.mem_of_mem_erase rest)
      | remove ip named =>
          intro member
          exact older rule
            (List.mem_of_mem_erase (List.mem_of_mem_erase member))

/-- What a device sends from its own address passes when one of its two rules
is there. -/
theorem passes_sent_iff (names : ∀ next ∈ commands, devices.Names next)
    (ipv6Ok : Bool) (member : mac ∈ devices.members) {packet : Packet}
    (sender : packet.srcMac = mac.text)
    (source : packet.src = (devices.ipOf mac).text) :
    passes packet (after ipv6Ok commands).hncWhitelist = true ↔
      modeOn commands = false ∨ current mac commands = true ∨
        0 < surplus mac commands := by
  have macRule : acceptMac mac.text ∈ acceptsOf commands ↔
      current mac commands = true := by
    rw [← List.count_pos_iff, count_acceptMac]
    cases current mac commands <;> simp
  have srcRule : acceptSrc (devices.ipOf mac).text ∈ acceptsOf commands ↔
      0 < surplus mac commands := by
    rw [← List.count_pos_iff, count_acceptSrc names member]
  rw [passes_after, ← macRule, ← srcRule]
  refine or_congr Iff.rfl ⟨?_, ?_⟩
  · rintro ⟨rule, there, matched⟩
    obtain ⟨other, otherMember, rfl | rfl⟩ := acceptsOf_members names rule there
    · have same : other = mac := by
        apply Mac.ext_text
        simpa [Rule.accepts, acceptMac, addressMatches, sender] using matched
      exact .inl (same ▸ there)
    · have same : devices.ipOf other = devices.ipOf mac := by
        apply Ipv4.ext_text
        simpa [Rule.accepts, acceptSrc, addressMatches, source] using matched
      exact .inr (same ▸ there)
  · rintro (there | there)
    · exact ⟨_, there, by
        simp [Rule.accepts, acceptMac, addressMatches, sender]⟩
    · exact ⟨_, there, by
        simp [Rule.accepts, acceptSrc, addressMatches, source]⟩

theorem not_passes_outside (names : ∀ next ∈ commands, devices.Names next)
    (ipv6Ok : Bool) (mode : modeOn commands = true) {packet : Packet}
    (sender : ∀ mac ∈ devices.members, packet.srcMac ≠ mac.text)
    (source : ∀ mac ∈ devices.members, packet.src ≠ (devices.ipOf mac).text) :
    passes packet (after ipv6Ok commands).hncWhitelist = false := by
  rw [← Bool.not_eq_true, passes_after]
  rintro (off | ⟨rule, there, matched⟩)
  · simp [mode] at off
  · obtain ⟨mac, member, rfl | rfl⟩ := acceptsOf_members names rule there
    · have same : mac.text = packet.srcMac := by
        simpa [Rule.accepts, acceptMac, addressMatches] using matched
      exact sender mac member same.symm
    · have same : (devices.ipOf mac).text = packet.src := by
        simpa [Rule.accepts, acceptSrc, addressMatches] using matched
      exact source mac member same.symm

theorem acceptsOf_eq_nil (names : ∀ next ∈ commands, devices.Names next)
    (nobody : ∀ mac ∈ devices.members,
      listed mac commands = false ∧ surplus mac commands = 0) :
    acceptsOf commands = [] := by
  apply List.eq_nil_iff_forall_not_mem.mpr
  intro rule there
  obtain ⟨mac, member, rfl | rfl⟩ := acceptsOf_members names rule there
  · have counted := count_acceptMac mac commands
    have present := List.count_pos_iff.mpr there
    cases inside : current mac commands with
    | false => simp [inside] at counted; omega
    | true =>
        have isListed := listed_of_current inside
        simp [(nobody mac member).1] at isListed
  · have present := List.count_pos_iff.mpr there
    rw [count_acceptSrc names member] at present
    have none := (nobody mac member).2
    omega

/-- The whitelist does what it is for exactly while it is off or empty. -/
theorem admitsListed_iff (devices : Devices) (commands : List Command)
    (names : ∀ next ∈ commands, devices.Names next) (ipv6Ok : Bool) :
    AdmitsListed devices commands (after ipv6Ok commands).hncWhitelist ↔
      (modeOn commands = true → ∀ mac ∈ devices.members,
        listed mac commands = false ∧ surplus mac commands = 0) := by
  constructor
  · intro ⟨admits, _⟩ mode mac member
    have unlisted : listed mac commands = false := by
      by_contra isListed
      -- The answer to a listed device is the packet that the chain refuses.
      let answer : Packet := ⟨[], [], (devices.ipOf mac).text, true, 0, 0⟩
      have wanted : passes answer (after ipv6Ok commands).hncWhitelist = true :=
        (admits mode mac member answer (.inr rfl)).mpr (by simpa using isListed)
      have refused : passes answer (after ipv6Ok commands).hncWhitelist = false :=
        not_passes_outside names ipv6Ok mode
          (fun other _ => other.text_ne_nil.symm)
          (fun other _ => (devices.ipOf other).text_ne_nil.symm)
      simp [refused] at wanted
    refine ⟨unlisted, ?_⟩
    by_contra positive
    let request : Packet :=
      ⟨mac.text, (devices.ipOf mac).text, [], true, 0, 0⟩
    have sent : passes request (after ipv6Ok commands).hncWhitelist = true := by
      apply (passes_sent_iff names ipv6Ok member rfl rfl).mpr
      exact .inr (.inr (Nat.pos_of_ne_zero positive))
    have isListed := (admits mode mac member request (.inl ⟨rfl, rfl⟩)).mp sent
    simp [unlisted] at isListed
  · intro nobody
    constructor
    · intro mode mac member packet _
      have empty := acceptsOf_eq_nil names (nobody mode)
      rw [passes_after, empty]
      simp [mode, (nobody mode mac member).1]
    · intro mode packet
      rw [passes_after]
      exact .inl mode

end Members

def onlyPhone : Devices :=
  ⟨{phone}, fun _ => phoneIp, by simp⟩

/-- Added twice and removed twice, the phone leaves nothing behind. -/
theorem admitsListed_emptied :
    AdmitsListed onlyPhone
      [.on, .add phoneIp phone, .add phoneIp phone, .remove phoneIp phone,
        .remove phoneIp phone]
      (after true
        [.on, .add phoneIp phone, .add phoneIp phone, .remove phoneIp phone,
          .remove phoneIp phone]).hncWhitelist := by
  apply (admitsListed_iff onlyPhone _ _ true).mpr
  · intro _ mac member
    obtain rfl : mac = phone := member
    decide
  · simp [Devices.Names, onlyPhone]

/-- In whitelist mode with the phone on the list, a packet that a server on the
network sends to the phone is dropped; and an `add` repeated before one `remove`
leaves the phone able to send. -/
theorem listed_phone_gets_no_answer :
    (∀ next ∈ [Command.on, .add phoneIp phone], onlyPhone.Names next) ∧
    ¬AdmitsListed onlyPhone [.on, .add phoneIp phone]
      (after true [.on, .add phoneIp phone]).hncWhitelist ∧
    ¬AdmitsListed onlyPhone
      [.on, .add phoneIp phone, .add phoneIp phone, .remove phoneIp phone]
      (after true [.on, .add phoneIp phone, .add phoneIp phone,
        .remove phoneIp phone]).hncWhitelist := by
  refine ⟨by simp [Devices.Names, onlyPhone], ?_, ?_⟩
  · intro ⟨admits, _⟩
    have answered := (admits rfl phone rfl
      ⟨"".toList, "142.250.72.14".toList, phoneIp.text, true, 0, 1500⟩
      (.inr rfl)).mpr (by decide)
    revert answered
    decide
  · intro ⟨admits, _⟩
    have unlisted := (admits rfl phone rfl
      ⟨phone.text, phoneIp.text, "142.250.72.14".toList, true, 0, 1500⟩
      (.inl ⟨rfl, rfl⟩)).mp (by decide)
    revert unlisted
    decide

end Hnc.Whitelist
