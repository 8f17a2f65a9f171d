import Hnc.Net.MarkChain
import Hnc.Rules.MarkLedger
import Hnc.Rules.StaleRules

/-!
# Packet marks belong to the device that owns the mark

As long as the clean-up removes no entry of a device that still has rules in
`HNC_MARK`, every rule for the hardware address of a device sets the mark that
`rules.json` holds for it.
-/

namespace Hnc.StaleRules

open Posix IptablesManager ApplyDeviceRule JsonSet Runs

/-- The rules of `HNC_MARK`, of both protocols. -/
def markRules (tables : Tables) : List MarkRule :=
  tables.hncMark ++ tables.hncMark6

/-- No rule that matches by destination alone accepts the packet. -/
def Upstream (chain : List MarkRule) (packet : Packet) : Prop :=
  ∀ rule ∈ chain, rule.macSource = none → ∀ mark,
    rule.accepts packet mark = false

/-- Every rule for a source address sets the mark of its owner; so rules for
different addresses set different marks, and unmarked packets of different
devices do not leave the chain with one mark. -/
structure OwnsMarks (state : State) : Prop where
  rules : ∀ rule ∈ markRules state.tables, ∀ source ∈ rule.macSource,
    ∃ n, ApplyDeviceRule.markOf state.rules source = some n ∧
      rule.setMark = markBase + n
  apart : ∀ left ∈ markRules state.tables, ∀ right ∈ markRules state.tables,
    ∀ first ∈ left.macSource, ∀ second ∈ right.macSource,
    left.setMark = right.setMark → first = second
  packets : ∀ first second : Packet, first.mark = 0 → second.mark = 0 →
    Upstream state.tables.hncMark first → Upstream state.tables.hncMark second →
    first.srcMac ≠ second.srcMac → Hnc.markOf state.tables.hncMark first ≠ 0 →
    Hnc.markOf state.tables.hncMark first ≠ Hnc.markOf state.tables.hncMark second

/-- No rule is for the hardware address. -/
def Unruled (tables : Tables) (mac : Text) : Prop :=
  ∀ rule ∈ markRules tables, rule.macSource ≠ some mac

instance (tables : Tables) (mac : Text) : Decidable (Unruled tables mac) :=
  inferInstanceAs (Decidable (∀ rule ∈ markRules tables,
    rule.macSource ≠ some mac))

/-- A device whose entry a round removes has no rules any more. -/
def RemovesUnruled (threshold : Int) (state : State) (mac : Text) : Prop :=
  isStale threshold state mac = true → Unruled state.tables mac

instance (threshold : Int) (state : State) (mac : Text) :
    Decidable (RemovesUnruled threshold state mac) :=
  inferInstanceAs (Decidable (_ → _))

/-- The condition on an event. -/
def KeepsOwners (state : State) : Event → Prop
  | .cleanup now => ∀ threshold ∈ staleBefore state.rules now,
      Guarded (cleanupRound threshold) (RemovesUnruled threshold) state
        (ruleMacs state.rules)
  | _ => True

instance keepsOwnersDecidable (state : State) :
    ∀ event, Decidable (KeepsOwners state event)
  | .cleanup now => inferInstanceAs (Decidable (∀ threshold ∈
      staleBefore state.rules now, Guarded (cleanupRound threshold)
        (RemovesUnruled threshold) state (ruleMacs state.rules)))
  | .limit _ _ _ _ _ => inferInstanceAs (Decidable True)
  | .allocMid _ _ => inferInstanceAs (Decidable True)
  | .clear _ => inferInstanceAs (Decidable True)
  | .devices _ => inferInstanceAs (Decidable True)

/-- A packet that no destination rule accepts gets the mark of a rule for its
source, or none. -/
theorem foldl_upstream {chain : List MarkRule} {packet : Packet}
    (upstream : Upstream chain packet) (mark : Nat) :
    chain.foldl (MarkRule.apply packet) mark = mark ∨
      ∃ rule ∈ chain, rule.macSource = some packet.srcMac ∧
        chain.foldl (MarkRule.apply packet) mark = rule.setMark := by
  induction chain generalizing mark with
  | nil => exact .inl rfl
  | cons rule rest induction =>
      have tail := induction (fun other member => upstream other (by simp [member]))
        (MarkRule.apply packet mark rule)
      rw [List.foldl_cons]
      rcases tail with same | ⟨later, member, source, same⟩
      · by_cases accepted : rule.accepts packet mark = true
        · right
          have source : rule.macSource = some packet.srcMac := by
            cases address : rule.macSource with
            | none =>
                rw [upstream rule (by simp) address] at accepted
                cases accepted
            | some text =>
                simp only [MarkRule.accepts, Bool.and_eq_true, address,
                  addressMatches, beq_iff_eq] at accepted
                rw [accepted.1.2]
          refine ⟨rule, by simp, source, ?_⟩
          rw [same, MarkRule.apply, if_pos accepted]
        · left
          rw [same, MarkRule.apply, if_neg accepted]
      · exact .inr ⟨later, by simp [member], source, same⟩

theorem mem_delMark6 {ip mac : Text} {mark : Nat} {tables : Tables}
    {rule : MarkRule}
    (member : rule ∈ (delMarkRules ip mac mark tables).hncMark6) :
    rule ∈ tables.hncMark6 := by
  simp only [delMarkRules] at member
  split at member
  · rw [delMark, Chain.deleteAll_eq_without] at member
    exact (Chain.mem_without.mp member).1
  · exact member

theorem mem_markRules_mark {ip : Ipv4} {mac : Mac} {markId : Nat}
    {tables : Tables} {rule : MarkRule} {source : Text}
    (member : rule ∈ markRules (markDevice ip.text mac.text markId tables))
    (for_mac : rule.macSource = some source) :
    rule ∈ markRules tables ∨
      (source = mac.text ∧ rule.setMark = markBase + markId) := by
  rcases List.mem_append.mp member with v4 | v6
  · rcases MarkChain.mem_markDevice for_mac v4 with old | new
    · exact .inl (List.mem_append_left _ old)
    · exact .inr new
  · simp only [markDevice, ip.text_ne_nil, if_false, addMarkRules] at v6
    have kept : ∀ rule ∈ (delMarkRules ip.text mac.text (markBase + markId)
        (gcStaleIpsForMac mac.text (markBase + markId) ip.text
          tables)).hncMark6, rule ∈ markRules tables := by
      intro other inside
      have old := mem_delMark6 inside
      rw [gcStaleIpsForMac, MarkChain.foldl_gcAddress_hncMark6] at old
      exact List.mem_append_right _ old
    split at v6
    · rcases List.mem_append.mp v6 with old | new
      · exact .inl (kept rule old)
      · rw [List.mem_singleton.mp new] at for_mac ⊢
        exact .inr ⟨(Option.some.inj for_mac).symm, rfl⟩
    · exact .inl (kept rule v6)

variable {mac : Text} {state : State}

theorem mem_markRules_clear {rule : MarkRule}
    (member : rule ∈ markRules (clearTables state mac)) :
    rule ∈ markRules state.tables := by
  simp only [clearTables] at member
  split at member
  · cases number : shellNumber (deviceField state.rules mac "mark_id") with
    | none =>
        rw [number] at member
        exact member
    | some markId =>
        rw [number] at member
        rcases List.mem_append.mp member with v4 | v6
        · rw [Option.elim_some, MarkChain.unmarkDevice_hncMark] at v4
          exact List.mem_append_left _ (List.mem_of_mem_filter v4)
        · exact List.mem_append_right _ (@mem_delMark6 (state.getIp mac) _ _ _ _ v6)
  · exact member

/-- Every rule for a source address sets a mark that is stored for it. -/
def Backed (d : Devices) (tables : Tables) : Prop :=
  ∀ rule ∈ markRules tables, ∀ source ∈ rule.macSource, ∃ (mac : Mac) (n : Nat),
    source = mac.text ∧ n ≤ 99 ∧
      d.get mac.text "mark_id".toList = some (decimalText n) ∧
      rule.setMark = markBase + n

def Owned (state : State) : Prop :=
  ∃ f d, Ledger state.rules f d ∧ Backed d state.tables

theorem Backed.keep {before after : Devices} {tables smaller : Tables}
    (backed : Backed before tables)
    (rules : ∀ rule ∈ markRules smaller, rule ∈ markRules tables)
    (marks : ∀ rule ∈ markRules smaller, ∀ source ∈ rule.macSource,
      after.get source "mark_id".toList = before.get source "mark_id".toList) :
    Backed after smaller := by
  intro rule member source for_mac
  obtain ⟨mac, n, rfl, high, stored, mark⟩ :=
    backed rule (rules rule member) source for_mac
  refine ⟨mac, n, rfl, high, ?_, mark⟩
  rw [marks rule member mac.text for_mac]
  exact stored

theorem Owned.ownsMarks (owned : Owned state) : OwnsMarks state := by
  obtain ⟨f, d, ledger, backed⟩ := owned
  have valid := ledger.valid
  rw [ledger.text] at valid
  have apart : ∀ left ∈ markRules state.tables,
      ∀ right ∈ markRules state.tables, ∀ first ∈ left.macSource,
      ∀ second ∈ right.macSource, left.setMark = right.setMark →
        first = second := by
    intro left leftIn right rightIn first isFirst second isSecond same
    obtain ⟨a, n, rfl, _, held, mark⟩ := backed left leftIn first isFirst
    obtain ⟨b, m, rfl, _, heldToo, markToo⟩ :=
      backed right rightIn second isSecond
    have equal : n = m := by omega
    rw [equal] at held
    exact ledger.marks.distinct _ _ _ held heldToo
  constructor
  case rules =>
    intro rule member source for_mac
    obtain ⟨mac, n, rfl, high, stored, mark⟩ := backed rule member source for_mac
    refine ⟨n, ?_, mark⟩
    rw [ledger.text, markOf_file ledger.marks valid mac n high]
    exact stored
  case apart => exact apart
  case packets =>
    intro first second unmarked unmarkedToo upstream upstreamToo different
      marked same
    have toRules : ∀ rule ∈ state.tables.hncMark,
        rule ∈ markRules state.tables := fun rule => List.mem_append_left _
    rcases foldl_upstream upstream first.mark with zero |
      ⟨left, leftIn, leftSource, leftMark⟩
    · exact marked (zero.trans unmarked)
    · rcases foldl_upstream upstreamToo second.mark with zero |
        ⟨right, rightIn, rightSource, rightMark⟩
      · exact marked (same.trans (zero.trans unmarkedToo))
      · apply different
        exact apart left (toRules left leftIn) right (toRules right rightIn) _
          leftSource _ rightSource
          (leftMark.symm.trans (same.trans rightMark))

theorem mark_owned {d after : Devices} (backed : Backed d state.tables)
    {ip : Ipv4} {mac : Mac} {mid : Text} (isMark : IsMark mid)
    (kept : ∀ old, d.get mac.text "mark_id".toList = some old → mid = old)
    (marks : ∀ other, after.get other "mark_id".toList = if other = mac.text then some mid else d.get other "mark_id".toList) :
    Backed after (markDevice ip.text mac.text (decimal mid) state.tables) := by
  intro rule member source for_mac
  rcases mem_markRules_mark member for_mac with old | ⟨rfl, new⟩
  · obtain ⟨owner, n, rfl, high, stored, mark⟩ := backed rule old source for_mac
    refine ⟨owner, n, rfl, high, ?_, mark⟩
    rw [marks]
    split
    · rename_i same
      rw [same] at stored
      rw [kept _ stored]
    · exact stored
  · obtain ⟨n, _, high, rfl⟩ := isMark
    rw [(decimalText_facts n high).1] at new
    exact ⟨mac, n, rfl, high, by rw [marks, if_pos rfl], new⟩

theorem limit_owned (owned : Owned state) (mac : Mac) (down up : Rate)
    (now later : Nat) : Owned (limit state mac down up now later) := by
  unfold limit
  split
  · exact owned
  · rename_i ip _
    split
    · exact owned
    · rename_i mid marked stored
      obtain ⟨f, d, ledger, backed⟩ := owned
      obtain ⟨isMark, kept, between, middle, present, marks⟩ :=
        storeMark_ledger ledger stored
      have others : ∀ a ∈ limitFields ip down up later, a.field ≠ .markId := by
        intro a member
        simp only [limitFields, seen, List.mem_cons, List.not_mem_nil,
          or_false] at member
        rcases member with rfl | rfl | rfl | rfl | rfl <;> simp
      obtain ⟨after, last, same⟩ := batch_ledger middle mac others
        (lined_putAll middle.lined mac present others)
      refine ⟨f, after, ?_, ?_⟩
      · rw [ApplyDeviceRule.limit, stored]
        exact last
      · apply mark_owned backed isMark kept
        intro other
        rw [same, marks]

theorem allocMid_owned (owned : Owned state) (mac : Mac) (now : Nat) :
    Owned (allocMid state mac now) := by
  unfold allocMid
  split
  · exact owned
  · split
    · exact owned
    · rename_i mid marked stored
      obtain ⟨f, d, ledger, backed⟩ := owned
      obtain ⟨isMark, kept, after, last, _, marks⟩ :=
        storeMark_ledger ledger stored
      refine ⟨f, after, ?_, mark_owned backed isMark kept marks⟩
      rw [ApplyDeviceRule.allocMid, stored]
      exact last

/-- A text of the characters of lower-case addresses. -/
def LowerChars (mac : Text) : Prop :=
  ∀ c ∈ mac, isLowerHex c = true ∨ c = ':'

theorem LowerChars.not_mem (chars : LowerChars mac) {c : Char}
    (hex : isLowerHex c = false) (other : c ≠ ':') : c ∉ mac := by
  intro member
  rcases chars c member with digit | same
  · rw [hex] at digit
    cases digit
  · exact other same

/-- The batch writer refuses what is not an address. -/
theorem isLowerMac_of_isMac (chars : LowerChars mac)
    (accepted : JsonSetBatch.isMac mac = true) : isLowerMac mac = true := by
  have oneLine : '\n' ∉ mac := chars.not_mem (by decide) (by decide)
  have line : JsonSetBatch.isMacLine mac = true := by
    rw [JsonSetBatch.isMac, records_append_newline oneLine] at accepted
    simpa [records] using accepted
  unfold JsonSetBatch.isMacLine at line
  split at line
  · rename_i a b s c d t e f u g h v i j w k l
    simp only [List.all_cons, List.all_nil, Bool.and_true, Bool.and_eq_true,
      beq_iff_eq] at line
    obtain ⟨digits, rfl, rfl, rfl, rfl, rfl⟩ := line
    have lower : ∀ x ∈ [a, b, ':', c, d, ':', e, f, ':', g, h, ':', i, j, ':',
        k, l], JsonSetBatch.isHexDigit x = true → isLowerHex x = true := by
      intro x member hex
      rcases chars x member with digit | rfl
      · exact digit
      · exact absurd hex (by decide)
    obtain ⟨h1, h2, h3, h4, h5, h6, h7, h8, h9, h10, h11, h12⟩ := digits
    simp [isLowerMac, lower a (by simp) h1, lower b (by simp) h2,
      lower c (by simp) h3, lower d (by simp) h4, lower e (by simp) h5,
      lower f (by simp) h6, lower g (by simp) h7, lower h (by simp) h8,
      lower i (by simp) h9, lower j (by simp) h10, lower k (by simp) h11,
      lower l (by simp) h12]
  · cases line

theorem clear_ledger {f : Frame} {d : Devices} (ledger : Ledger state.rules f d)
    (chars : LowerChars mac) :
    ∃ after, Ledger (clear state mac).rules f after ∧
      ∀ other, after.get other "mark_id".toList =
        d.get other "mark_id".toList := by
  by_cases shape : isLowerMac mac = true
  · have others : ∀ a ∈ clearFields, a.field ≠ .markId := by
      intro a member
      simp only [clearFields, List.mem_cons, List.not_mem_nil, or_false] at member
      rcases member with rfl | rfl | rfl <;> simp
    exact batch_ledger ledger ⟨mac, shape⟩ others
      (lined_clear ledger.lined ⟨mac, shape⟩)
  · have refused : JsonSetBatch.device state.rules mac
        (clearFields.map fun a => (a.field.key, a.value)) = none := by
      rw [JsonSetBatch.device, if_neg]
      rintro ⟨accepted, _⟩
      exact shape (isLowerMac_of_isMac chars accepted)
    refine ⟨d, ?_, fun _ => rfl⟩
    simp only [clear, refused]
    exact ledger

theorem clear_owned (owned : Owned state) (chars : LowerChars mac) :
    Owned (clear state mac) := by
  obtain ⟨f, d, ledger, backed⟩ := owned
  obtain ⟨after, last, marks⟩ := clear_ledger ledger chars
  refine ⟨f, after, last, backed.keep ?_ ?_⟩
  · intro rule member
    exact mem_markRules_clear member
  · intro _ _ source _
    exact marks source

theorem mem_macKeys {fuel : Nat} {line : Text} (member : mac ∈ macKeys fuel line) :
    mac.all isMacChar = true := by
  induction fuel generalizing line with
  | zero => simp [macKeys] at member
  | succ fuel induction =>
      cases line with
      | nil => simp [macKeys] at member
      | cons c rest =>
          simp only [macKeys] at member
          split at member
          · rename_i shape
            split at member
            · rcases List.mem_cons.mp member with rfl | later
              · exact shape.2
              · exact induction later
            · exact induction member
          · exact induction member

theorem lower_isMacChar {c : Char} (char : isMacChar c = true) :
    isLowerHex (TcManager.toLower c) = true ∨ TcManager.toLower c = ':' := by
  simp only [isMacChar, TcManager.isHexDigit, Bool.or_eq_true, Bool.and_eq_true,
    decide_eq_true_eq, beq_iff_eq] at char
  rcases char with ((digit | small) | capital) | colon
  · left
    have hex : isLowerHex c = true := by simp [isLowerHex, digit]
    rw [TcManager.toLower_of_isLowerHex hex]
    exact hex
  · left
    have hex : isLowerHex c = true := by
      simp only [isLowerHex, Bool.or_eq_true, Bool.and_eq_true, decide_eq_true_eq]
      exact .inr small
    rw [TcManager.toLower_of_isLowerHex hex]
    exact hex
  · left
    have bounds : 'A'.toNat = 65 ∧ 'F'.toNat = 70 ∧ 'Z'.toNat = 90 := by decide
    have inside : 'A'.toNat ≤ c.toNat ∧ c.toNat ≤ 'Z'.toNat := by omega
    have all : ∀ n ≤ 70, 65 ≤ n → isLowerHex (Char.ofNat (n + 32)) = true := by
      decide
    rw [TcManager.toLower, if_pos inside]
    exact all c.toNat (by omega) (by omega)
  · right
    rw [colon]
    decide

theorem lowerChars_of_mem_ruleMacs {rules : Text} (member : mac ∈ ruleMacs rules) :
    LowerChars mac := by
  rw [ruleMacs, TcManager.mem_foldr_insertSorted] at member
  obtain ⟨key, listed, rfl⟩ := List.mem_map.mp member
  obtain ⟨line, _, found⟩ := List.mem_flatMap.mp listed
  have chars := List.all_eq_true.mp (mem_macKeys found)
  intro c inside
  obtain ⟨old, first, rfl⟩ := List.mem_map.mp inside
  exact lower_isMacChar (chars old first)

theorem cleanupRound_owned {threshold : Int} (owned : Owned state)
    (chars : LowerChars mac) (removes : RemovesUnruled threshold state mac) :
    Owned (cleanupRound threshold state mac) := by
  unfold cleanupRound
  split
  · rename_i stale
    obtain ⟨f, d, ledger, backed⟩ := clear_owned owned chars
    obtain ⟨after, last, marks⟩ := deviceRemove_ledger ledger
      (chars.not_mem (by decide) (by decide))
    refine ⟨f, after, last, backed.keep (fun _ member => member) ?_⟩
    intro rule member source for_mac
    apply marks
    rintro rfl
    exact removes stale rule (mem_markRules_clear member) for_mac
  · exact owned

theorem cleanup_owned (owned : Owned state) {now : Nat}
    (keeps : KeepsOwners state (.cleanup now)) : Owned (cleanup state now) := by
  unfold cleanup
  split
  · exact owned
  · rename_i threshold found
    have guarded := (keeps threshold found).and_forall
      fun mac member => lowerChars_of_mem_ruleMacs member
    exact guarded.final_induction Owned
      (fun _ _ holds conditions =>
        cleanupRound_owned holds conditions.2 conditions.1) owned

theorem step_owned (owned : Owned state) {event : Event}
    (keeps : KeepsOwners state event) : Owned (step state event) := by
  cases event with
  | limit mac down up now later => exact limit_owned owned mac down up now later
  | allocMid mac now => exact allocMid_owned owned mac now
  | clear mac => exact clear_owned owned mac.chars
  | cleanup now => exact cleanup_owned owned keeps
  | devices file => exact owned

theorem start_owned {rules : Text} (default : IsDefault rules) (ipv6Ok : Bool) :
    Owned (start rules ipv6Ok) := by
  obtain ⟨f, d, ledger⟩ := ledger_default default
  refine ⟨f, d, ledger, ?_⟩
  intro rule member
  simp [markRules, start, Tables.init] at member

/-- In a run in which the clean-up removes only devices without rules, every
rule for a source address sets the mark stored for it, in every state. -/
theorem marks_belong_to_owners (rules : Text) (default : IsDefault rules)
    (ipv6Ok : Bool) (events : List Event)
    (keeps : Guarded step KeepsOwners (start rules ipv6Ok) events) :
    ∀ state ∈ visited step (start rules ipv6Ok) events, OwnsMarks state := by
  intro state member
  have owned := keeps.induction Owned
    (fun state event holds condition => step_owned holds condition)
    (start_owned default ipv6Ok) state member
  exact owned.ownsMarks

theorem isLowerMac_owner :
    isLowerMac "02:00:00:00:00:01".toList = true := by
  decide

def owner : Mac :=
  ⟨"02:00:00:00:00:01".toList, isLowerMac_owner⟩

/-- Its last byte is that of `owner`, so the probing starts at the same mark. -/
def lodger : Mac :=
  ⟨"02:00:00:00:01:01".toList, by decide⟩

def bothOnline : DevicesFile where
  text := "\x7b\"02:00:00:00:00:01\":\x7b\"ip\":\"192.168.43.7\"\x7d,".toList ++
    "\"02:00:00:00:01:01\":\x7b\"ip\":\"192.168.43.8\"\x7d\x7d\n".toList
  addresses := by decide +kernel

def lodgerOnline : DevicesFile where
  text := "\x7b\"02:00:00:00:01:01\":\x7b\"ip\":\"192.168.43.8\"\x7d\x7d\n".toList
  addresses := by decide +kernel

theorem isUnsigned_ten : isUnsigned "10".toList = true := by
  decide

def tenMbps : Rate :=
  ⟨"10".toList, isUnsigned_ten⟩

/-- The limit of the owner is cleared before it leaves for a month. -/
def clearedRun : List Event :=
  [.devices (some bothOnline), .limit owner tenMbps tenMbps 1000 1000,
    .clear owner, .devices (some lodgerOnline), .cleanup 3000000,
    .limit lodger tenMbps tenMbps 3000001 3000001]

/-- The owner leaves with its limit. -/
def abandonedRun : List Event :=
  [.devices (some bothOnline), .limit owner tenMbps tenMbps 1000 1000,
    .devices (some lodgerOnline), .cleanup 3000000,
    .limit lodger tenMbps tenMbps 3000001 3000001]

theorem clearedRun_marks_belong_to_owners :
    Guarded step KeepsOwners (start (defaultRules []) true) clearedRun ∧
      ∀ state ∈ visited step (start (defaultRules []) true) clearedRun,
        OwnsMarks state := by
  have keeps : Guarded step KeepsOwners (start (defaultRules []) true)
      clearedRun := by
    decide +kernel
  exact ⟨keeps, marks_belong_to_owners (defaultRules []) (.inr (.inr rfl)) true
    clearedRun keeps⟩

/-- The clean-up releases the mark of the owner, whose rules stay; then the
lodger gets it. -/
theorem abandoned_mark_is_shared :
    ¬∀ rules, IsDefault rules → ∀ (ipv6Ok : Bool) (events : List Event),
      ∀ state ∈ visited step (start rules ipv6Ok) events, OwnsMarks state := by
  have shared : ∀ state : State,
      macRule owner.text (markBase + 2) ∈ markRules state.tables ∧
        macRule lodger.text (markBase + 2) ∈ markRules state.tables →
      ¬OwnsMarks state := by
    rintro state ⟨left, right⟩ owns
    have same := owns.apart (macRule owner.text (markBase + 2)) left
      (macRule lodger.text (markBase + 2)) right owner.text rfl lodger.text rfl
      (show markBase + 2 = markBase + 2 from rfl)
    exact absurd same (by decide)
  intro always
  refine shared (abandonedRun.foldl step (start (defaultRules []) true)) ?_ ?_
  · decide +kernel
  · exact always (defaultRules []) (.inr (.inr rfl)) true abandonedRun _
      (mem_visited_final _ _)

end Hnc.StaleRules
