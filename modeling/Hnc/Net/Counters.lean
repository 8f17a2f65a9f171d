import Hnc.Lib.Runs
import Hnc.Net.IptablesManager

/-!
# What the byte counters count

`stats_all` is read as a cumulative count.  The ledger of an address holds what
that count should be: the bytes forwarded to the address since it was first
counted, until an `unmark` names it.  The counting rule agrees with the ledger
as long as no command deletes it, and a repeated `ensure_stats` or `mark`
deletes it.
-/

namespace Hnc.Counters

open Posix IptablesManager

/-- A forwarded packet or a command of `iptables_manager.sh`. -/
inductive Event where
  | forward (packet : Packet)
  | ensureStats (ip : Ipv4)
  | mark (ip : Ipv4) (mac : Mac) (markId : Nat)
  | unmark (ip : Ipv4) (mac : Mac) (markId : Nat)

def applyEvent (tables : Tables) : Event → Tables
  | .forward packet =>
      { tables with hncStats := countPacket packet tables.hncStats }
  | .ensureStats ip => IptablesManager.ensureStats ip.text tables
  | .mark ip mac markId => markDevice ip.text mac.text markId tables
  | .unmark ip mac markId => unmarkDevice ip.text mac.text markId tables

/-- The bytes forwarded to `target` since it was first counted, while it is. -/
def ledger (target : Ipv4) (count : Option Nat) : Event → Option Nat
  | .forward packet =>
      if packet.dst = target.text then count.map (· + packet.bytes) else count
  | .ensureStats ip => if ip = target then some (count.getD 0) else count
  | .mark ip _ _ => if ip = target then some (count.getD 0) else count
  | .unmark ip _ _ => if ip = target then none else count

def step (target : Ipv4) (state : Tables × Option Nat) (event : Event) :
    Tables × Option Nat :=
  (applyEvent state.1 event, ledger target state.2 event)

/-- A packet to the counted address matches no other counting rule. -/
def SoleRule (target : Ipv4) (state : Tables × Option Nat) : Event → Prop
  | .forward packet =>
      state.2.isSome → packet.dst = target.text →
        ∀ entry ∈ state.1.hncStats, entry.rule.accepts packet →
          entry.rule = statDst target.text
  | _ => True

/-- A command that deletes the counting rule of `target` comes only before the
first counted byte, and the clean-up of `mark` does not find `target` among the
earlier addresses of its device. -/
def KeepsRule (target : Ipv4) (state : Tables × Option Nat) : Event → Prop
  | .ensureStats ip => ip = target → state.2.getD 0 = 0
  | .mark ip mac markId =>
      (ip = target → state.2.getD 0 = 0) ∧
        (state.2.isSome → target.text ∉
          staleIps mac.text (hexText (markBase + markId)) ip.text
            state.1.hncMark)
  | _ => True

instance (target : Ipv4) (state : Tables × Option Nat) (event : Event) :
    Decidable (SoleRule target state event) := by
  cases event <;> unfold SoleRule <;> infer_instance

instance (target : Ipv4) (state : Tables × Option Nat) (event : Event) :
    Decidable (KeepsRule target state event) := by
  cases event <;> unfold KeepsRule <;> infer_instance

/-- The rules that count what is forwarded to `target`. -/
def own (target : Ipv4) (chain : List Counted) : List Counted :=
  chain.filter fun entry => entry.rule = statDst target.text

/-- Every rule counts one address, as a source or as a destination. -/
def OneSided (chain : List Counted) : Prop :=
  ∀ entry ∈ chain, ∃ ip : Ipv4,
    entry.rule = statSrc ip.text ∨ entry.rule = statDst ip.text

structure Agrees (target : Ipv4) (state : Tables × Option Nat) : Prop where
  oneSided : OneSided state.1.hncStats
  rule : own target state.1.hncStats =
    state.2.toList.map fun count => ⟨statDst target.text, count⟩

section Chains

variable {target ip : Ipv4} {chain : List Counted}

theorem anywhere_not_dotted (ip : Ipv4) : ip.text ≠ "0.0.0.0/0".toList := by
  intro same
  have member : '/' ∈ ip.text := by
    rw [same]
    decide
  rcases ip.chars '/' member with digit | dot
  · exact absurd digit (by decide)
  · exact absurd dot (by decide)

theorem statDst_ne_statSrc (left right : Text) :
    statDst left ≠ statSrc right := by
  simp [statDst, statSrc]

theorem statDst_inj {left right : Ipv4}
    (same : statDst left.text = statDst right.text) : left = right := by
  simp only [statDst, StatRule.mk.injEq, Option.some.injEq, true_and] at same
  exact Ipv4.ext_text same

/-- `stats_all` adds up the counters of the rules of the address. -/
theorem rxBytes_eq_sum_own (oneSided : OneSided chain) :
    rxBytes chain target.text = ((own target chain).map Counted.bytes).sum := by
  have sameRules : chain.filter (fun entry =>
      (statColumns entry.rule).1 = "0.0.0.0/0".toList ∧
        (statColumns entry.rule).2 ≠ "0.0.0.0/0".toList ∧
        (statColumns entry.rule).2 = target.text) = own target chain := by
    apply List.filter_congr
    intro entry member
    obtain ⟨ip, source | destination⟩ := oneSided entry member
    · simp [source, statColumns, statSrc, statDst]
    · have dotted := anywhere_not_dotted ip
      simp [destination, statColumns, statDst] at dotted ⊢
      intro _
      exact dotted
  rw [rxBytes, sameRules]

theorem oneSided_delStat (rule : StatRule) (oneSided : OneSided chain) :
    OneSided (delStat rule chain) := by
  intro entry member
  rw [delStat, Chain.deleteAll_eq_without] at member
  exact oneSided entry (Chain.mem_without.mp member).1

theorem own_delStat_statSrc (address : Text) :
    own target (delStat (statSrc address) chain) = own target chain := by
  rw [delStat, Chain.deleteAll_eq_without, own, Chain.without, List.filter_filter]
  apply List.filter_congr
  intro entry _
  by_cases counts : entry.rule = statDst target.text
  · simp [counts, statDst_ne_statSrc]
  · simp [counts]

theorem own_delStat_statDst (address : Text) :
    own target (delStat (statDst address) chain) =
      if address = target.text then [] else own target chain := by
  rw [delStat, Chain.deleteAll_eq_without, own, Chain.without, List.filter_filter]
  by_cases same : address = target.text
  · rw [if_pos same]
    apply List.filter_eq_nil_iff.mpr
    intro entry _
    simp [same]
  · rw [if_neg same]
    apply List.filter_congr
    intro entry _
    by_cases counts : entry.rule = statDst target.text
    · have other : statDst target.text ≠ statDst address := by
        intro equal
        apply same
        simpa [statDst] using equal.symm
      simp [counts, other]
    · simp [counts]

theorem foldl_gcAddress_own (mac : Text) (mark : Nat) (olds : List Text)
    (tables : Tables) :
    own target (olds.foldl (gcAddress mac mark) tables).hncStats =
      if target.text ∈ olds then [] else own target tables.hncStats := by
  induction olds generalizing tables with
  | nil => simp
  | cons old olds induction =>
      rw [List.foldl_cons, induction, gcAddress]
      simp only [own_delStat_statDst, own_delStat_statSrc]
      by_cases here : target.text = old
      · simp [here]
      · simp [here, Ne.symm here]

theorem foldl_gcAddress_oneSided (mac : Text) (mark : Nat) (olds : List Text)
    (tables : Tables) (oneSided : OneSided tables.hncStats) :
    OneSided (olds.foldl (gcAddress mac mark) tables).hncStats := by
  induction olds generalizing tables with
  | nil => exact oneSided
  | cons old olds induction =>
      apply induction
      exact oneSided_delStat _ (oneSided_delStat _ oneSided)

/-- Deleting and appending the pair of rules of one address leaves one rule for
it, with an empty counter, and the rules of the other addresses. -/
theorem own_renewed (tables : Tables) :
    own target (addStatRules ip.text (delStatRules ip.text tables)).hncStats =
      if ip = target then [⟨statDst target.text, 0⟩]
      else own target tables.hncStats := by
  have appended : own target (addStatRules ip.text
      (delStatRules ip.text tables)).hncStats =
        own target (delStatRules ip.text tables).hncStats ++
          own target [⟨statSrc ip.text, 0⟩, ⟨statDst ip.text, 0⟩] := by
    simp [addStatRules, own]
  have deleted : own target (delStatRules ip.text tables).hncStats =
      if ip.text = target.text then [] else own target tables.hncStats := by
    simp only [delStatRules, own_delStat_statDst, own_delStat_statSrc]
  rw [appended, deleted]
  by_cases same : ip = target
  · simp [same, own, statSrc, statDst]
  · have different : ip.text ≠ target.text := by
      intro equal
      exact same (Ipv4.ext_text equal)
    have otherRule : statDst ip.text ≠ statDst target.text := by
      intro equal
      exact same (statDst_inj equal)
    have sourceRule : statSrc ip.text ≠ statDst target.text := by
      simp [statDst, statSrc]
    simp [same, different, own, otherRule, sourceRule]

theorem oneSided_renewed (tables : Tables)
    (oneSided : OneSided tables.hncStats) :
    OneSided (addStatRules ip.text (delStatRules ip.text tables)).hncStats := by
  intro entry member
  simp only [addStatRules, List.mem_append, List.mem_cons, List.not_mem_nil,
    or_false] at member
  rcases member with old | rfl | rfl
  · exact oneSided_delStat _ (oneSided_delStat _ oneSided) entry old
  · exact ⟨ip, .inl rfl⟩
  · exact ⟨ip, .inr rfl⟩

theorem oneSided_countPacket (packet : Packet) (oneSided : OneSided chain) :
    OneSided (countPacket packet chain) := by
  induction chain with
  | nil => exact oneSided
  | cons entry rest induction =>
      have tail : OneSided rest := fun other member =>
        oneSided other (by simp [member])
      intro other member
      rw [countPacket] at member
      split at member
      · rcases List.mem_cons.mp member with rfl | later
        · exact oneSided entry (by simp)
        · exact tail other later
      · rcases List.mem_cons.mp member with rfl | later
        · exact oneSided other (by simp)
        · exact induction tail other later

theorem statDst_accepts (address : Text) (packet : Packet) :
    (statDst address).accepts packet = true ↔ packet.dst = address := by
  simp only [StatRule.accepts, statDst, addressMatches, Bool.true_and,
    beq_iff_eq]
  exact eq_comm

variable {packet : Packet}

theorem own_countPacket_elsewhere (elsewhere : packet.dst ≠ target.text) :
    own target (countPacket packet chain) = own target chain := by
  induction chain with
  | nil => rfl
  | cons entry rest induction =>
      rw [countPacket]
      by_cases accepted : entry.rule.accepts packet
      · have other : entry.rule ≠ statDst target.text := by
          intro same
          rw [same, statDst_accepts] at accepted
          exact elsewhere accepted
        simp [accepted, own, other]
      · simp only [accepted]
        by_cases counts : entry.rule = statDst target.text
        · simpa [own, counts] using induction
        · simpa [own, counts] using induction

theorem own_countPacket_nil (absent : own target chain = []) :
    own target (countPacket packet chain) = [] := by
  induction chain with
  | nil => rfl
  | cons entry rest induction =>
      have other : entry.rule ≠ statDst target.text := by
        intro same
        simp [own, same] at absent
      have tail : own target rest = [] := by
        simpa [own, other] using absent
      rw [countPacket]
      by_cases accepted : entry.rule.accepts packet
      · simpa [accepted, own, other] using tail
      · simpa [accepted, own, other] using induction tail

theorem countPacket_of_sole {count : Nat} (toTarget : packet.dst = target.text)
    (sole : ∀ entry ∈ chain, entry.rule.accepts packet → entry.rule = statDst target.text)
    (rule : own target chain = [⟨statDst target.text, count⟩]) :
    own target (countPacket packet chain) =
      [⟨statDst target.text, count + packet.bytes⟩] := by
  induction chain with
  | nil => simp [own] at rule
  | cons entry rest induction =>
      rw [countPacket]
      by_cases counts : entry.rule = statDst target.text
      · have accepted : entry.rule.accepts packet = true := by
          rw [counts]
          exact (statDst_accepts target.text packet).mpr toTarget
        simp only [own, List.filter_cons, counts, decide_true, if_true,
          List.cons.injEq] at rule
        obtain ⟨head, tail⟩ := rule
        rw [if_pos accepted, head]
        simp [own, tail]
      · have refused : entry.rule.accepts packet = false := by
          cases accepted : entry.rule.accepts packet with
          | false => rfl
          | true => exact absurd (sole entry (by simp) accepted) counts
        have tailRule : own target rest =
            [⟨statDst target.text, count⟩] := by
          simpa [own, counts] using rule
        have tail := induction
          (fun other member => sole other (by simp [member])) tailRule
        simpa [refused, own, counts] using tail

end Chains

section Runs

variable {target : Ipv4} {state : Tables × Option Nat}

theorem forward_agrees (agrees : Agrees target state) (packet : Packet)
    (alone : SoleRule target state (.forward packet)) :
    Agrees target (step target state (.forward packet)) := by
  refine ⟨oneSided_countPacket packet agrees.oneSided, ?_⟩
  simp only [step, applyEvent, ledger]
  by_cases toTarget : packet.dst = target.text
  · rw [if_pos toTarget]
    cases counted : state.2 with
    | none =>
        have absent : own target state.1.hncStats = [] := by
          rw [agrees.rule, counted]
          rfl
        simpa using own_countPacket_nil absent
    | some count =>
        have rule : own target state.1.hncStats =
            [⟨statDst target.text, count⟩] := by
          rw [agrees.rule, counted]
          rfl
        have sole := alone (by simp [counted]) toTarget
        simpa using countPacket_of_sole toTarget sole rule
  · rw [if_neg toTarget, own_countPacket_elsewhere toTarget]
    exact agrees.rule

/-- A renewed counting rule agrees with the ledger if nothing was counted so
far. -/
theorem renewed_agrees (tables : Tables) (ip : Ipv4)
    (oneSided : OneSided tables.hncStats)
    (rule : own target tables.hncStats =
      state.2.toList.map fun count => ⟨statDst target.text, count⟩)
    (fresh : ip = target → state.2.getD 0 = 0) :
    Agrees target (addStatRules ip.text (delStatRules ip.text tables),
      if ip = target then some (state.2.getD 0) else state.2) := by
  refine ⟨oneSided_renewed tables oneSided, ?_⟩
  rw [own_renewed]
  by_cases same : ip = target
  · simp [same, fresh same]
  · simpa [same] using rule

theorem ensureStats_agrees (agrees : Agrees target state) (ip : Ipv4)
    (keeps : KeepsRule target state (.ensureStats ip)) :
    Agrees target (step target state (.ensureStats ip)) := by
  have renewed := renewed_agrees state.1 ip agrees.oneSided agrees.rule keeps
  simpa [step, applyEvent, ledger, IptablesManager.ensureStats,
    ip.text_ne_nil] using renewed

theorem mark_agrees (agrees : Agrees target state) (ip : Ipv4) (mac : Mac)
    (markId : Nat) (keeps : KeepsRule target state (.mark ip mac markId)) :
    Agrees target (step target state (.mark ip mac markId)) := by
  obtain ⟨fresh, found⟩ := keeps
  have oneSided : OneSided
      (gcStaleIpsForMac mac.text (markBase + markId) ip.text
        state.1).hncStats :=
    foldl_gcAddress_oneSided _ _ _ state.1 agrees.oneSided
  have rule : own target (gcStaleIpsForMac mac.text (markBase + markId) ip.text
      state.1).hncStats =
        state.2.toList.map fun count => ⟨statDst target.text, count⟩ := by
    rw [gcStaleIpsForMac, foldl_gcAddress_own]
    cases counted : state.2 with
    | none =>
        have absent : own target state.1.hncStats = [] := by
          rw [agrees.rule, counted]
          rfl
        simp [absent]
    | some count =>
        rw [if_neg (found (by simp [counted])), agrees.rule, counted]
  have renewed := renewed_agrees
    (addMarkRules ip.text mac.text (markBase + markId)
      (delMarkRules ip.text mac.text (markBase + markId)
        (gcStaleIpsForMac mac.text (markBase + markId) ip.text state.1)))
    ip oneSided rule fresh
  simpa [step, applyEvent, ledger, markDevice, ip.text_ne_nil] using renewed

theorem unmark_agrees (agrees : Agrees target state) (ip : Ipv4) (mac : Mac)
    (markId : Nat) :
    Agrees target (step target state (.unmark ip mac markId)) := by
  refine ⟨oneSided_delStat _ (oneSided_delStat _ agrees.oneSided), ?_⟩
  simp only [step, applyEvent, ledger, unmarkDevice, delStatRules,
    own_delStat_statDst, own_delStat_statSrc]
  by_cases same : ip = target
  · simp [same]
  · have different : ip.text ≠ target.text := by
      intro equal
      exact same (Ipv4.ext_text equal)
    rw [if_neg same, if_neg different]
    exact agrees.rule

theorem step_agrees (state : Tables × Option Nat) (event : Event)
    (agrees : Agrees target state)
    (keeps : SoleRule target state event ∧ KeepsRule target state event) :
    Agrees target (step target state event) := by
  cases event with
  | forward packet => exact forward_agrees agrees packet keeps.1
  | ensureStats ip => exact ensureStats_agrees agrees ip keeps.2
  | mark ip mac markId => exact mark_agrees agrees ip mac markId keeps.2
  | unmark ip mac markId => exact unmark_agrees agrees ip mac markId

/-- What `stats_all` prints for the address is what its ledger says. -/
def CountsBytes (target : Ipv4) (state : Tables × Option Nat) : Prop :=
  ∀ count, state.2 = some count →
    rxBytes state.1.hncStats target.text = count

theorem agrees_countsBytes (agrees : Agrees target state) :
    CountsBytes target state := by
  intro count counted
  rw [rxBytes_eq_sum_own agrees.oneSided, agrees.rule, counted]
  simp

end Runs

def download (bytes : Nat) : Packet :=
  ⟨"02:00:00:00:00:01".toList, "8.8.8.8".toList, phoneIp.text, true, 0, bytes⟩

def sampleEvents : List Event :=
  [.ensureStats phoneIp, .forward (download 1400),
    .mark tabletIp tablet 2, .mark spareIp tablet 2,
    .forward (download 600)]

end Hnc.Counters
