import Hnc.Daemon.MdnsResolve

/-!
# Hostile packets

Whatever the bytes of a packet are, `decode_dns_name` and `parse_response` stay
inside the packet and the buffers they write to, and they end.
-/

namespace MdnsResolve

open BigEndian Buffers Loops

/-- The byte at `cur` is the first one of a compression pointer. -/
def atPointer (pkt : List UInt8) (cur : Nat) : Bool :=
  match pkt[cur]? with
  | some b => b.toNat &&& 0xC0 = 0xC0
  | none => false

/-- How many of these turns follow a pointer. -/
def pointersFollowed (pkt : List UInt8) (turns : List Decoding) : Nat :=
  turns.countP fun s => atPointer pkt s.cur

/-- `out` with a text and a NUL at its start, which fit into `buf`. -/
def Terminated (buf out : List UInt8) : Prop :=
  ∃ text, text.length < buf.length ∧ out = overlay (text ++ [0]) buf

section

variable {pkt buf text : List UInt8} {s : Decoding}

theorem followPointer_cases (len : Nat) :
    followPointer pkt s len = .error .failed ∨
      ∃ target, s.jumps < maxNameJumps ∧
        followPointer pkt s len = .ok (.again (s.jump target)) := by
  unfold followPointer
  by_cases inside : pkt.length ≤ s.cur + 1
  · rw [if_pos inside]
    exact .inl rfl
  · obtain ⟨lo, _, loaded⟩ := load_inside (Nat.lt_of_not_le inside)
    rw [if_neg inside, loaded]
    simp only [bind, Except.bind]
    split
    · exact .inl rfl
    · rename_i budget
      split
      · exact .inl rfl
      · exact .inr ⟨_, Nat.le_of_not_lt budget, rfl⟩

theorem copyLabel_cases (len : Nat) (holds : s.Holds text buf)
    (room : text.length < buf.length) :
    copyLabel pkt s len = .error .failed ∨
      ∃ label, text.length + label.length + 1 < buf.length ∧
        copyLabel pkt s len = .ok (.again (s.afterLabel text label buf)) := by
  have size : s.out.length = buf.length := by
    rw [holds.out, overlay_length (by omega)]
  by_cases fits : len ≤ 63 ∧ s.cur + 1 + len ≤ pkt.length ∧
      text.length + len + 1 < buf.length
  · have length : (window pkt (s.cur + 1) len).length = len := by
      rw [window, List.length_take, List.length_drop]
      omega
    refine .inr ⟨window pkt (s.cur + 1) len, by omega, ?_⟩
    have same : window pkt (s.cur + 1) (window pkt (s.cur + 1) len).length =
        window pkt (s.cur + 1) len := by
      rw [length]
    have copied := copyLabel_eq holds (by omega) (by omega) same (by omega)
    rw [length] at copied
    exact copied
  · unfold copyLabel
    rw [holds.outPos]
    split
    · exact .inl rfl
    · split
      · exact .inl rfl
      · rw [if_pos (by omega)]
        exact .inl rfl

/-- All that one turn can do. -/
theorem decodeTurn_cases (pkt : List UInt8) (holds : s.Holds text buf)
    (room : text.length < buf.length) :
    decodeTurn pkt s = .error .failed ∨
      decodeTurn pkt s = .ok (.done { s with cur := s.cur + 1 }) ∨
      (∃ target, atPointer pkt s.cur = true ∧ s.jumps < maxNameJumps ∧
        decodeTurn pkt s = .ok (.again (s.jump target))) ∨
      ∃ label, atPointer pkt s.cur = false ∧
        text.length + label.length + 1 < buf.length ∧
        decodeTurn pkt s = .ok (.again (s.afterLabel text label buf)) := by
  by_cases inside : s.cur < pkt.length
  · obtain ⟨b, there, loaded⟩ := load_inside inside
    have whole : decodeTurn pkt s =
        if b.toNat = 0 then .ok (.done { s with cur := s.cur + 1 })
        else if b.toNat &&& 0xC0 = 0xC0 then followPointer pkt s b.toNat
        else copyLabel pkt s b.toNat := by
      rw [decodeTurn, if_neg (Nat.not_le_of_lt inside), loaded]
      rfl
    rw [whole, atPointer, there]
    split
    · exact .inr (.inl rfl)
    · split
      · rename_i marked
        rcases followPointer_cases b.toNat with failed | ⟨target, left, again⟩
        · exact .inl failed
        · exact .inr (.inr (.inl
            ⟨target, decide_eq_true marked, left, again⟩))
      · rename_i unmarked
        rcases copyLabel_cases b.toNat holds room with
          failed | ⟨label, fits, again⟩
        · exact .inl failed
        · exact .inr (.inr (.inr
            ⟨label, decide_eq_false unmarked, fits, again⟩))
  · rw [decodeTurn, if_pos (Nat.le_of_not_lt inside)]
    exact .inl rfl

/-- What every state of the loop has. -/
structure Decoding.Inside (s : Decoding) (buf : List UInt8) : Prop where
  text : ∃ text, s.Holds text buf ∧ text.length < buf.length
  jumps : s.jumps ≤ maxNameJumps

theorem Decoding.Inside.again {s' : Decoding} (inside : s.Inside buf)
    (goesOn : decodeTurn pkt s = .ok (.again s')) :
    s'.Inside buf ∧
      s'.jumps = s.jumps + if atPointer pkt s.cur then 1 else 0 := by
  obtain ⟨text, holds, room⟩ := inside.text
  rcases decodeTurn_cases pkt holds room with
    failed | done | ⟨target, marked, left, again⟩ | ⟨label, plain, fits, again⟩
  · rw [failed] at goesOn
    cases goesOn
  · rw [done] at goesOn
    cases goesOn
  · rw [again] at goesOn
    cases goesOn
    rw [marked]
    exact ⟨⟨⟨text, ⟨holds.out, holds.outPos⟩, room⟩, left⟩, rfl⟩
  · rw [again] at goesOn
    cases goesOn
    have grows := extend_length_le text label
    rw [plain]
    exact ⟨⟨⟨extend text label, ⟨rfl, rfl⟩, by omega⟩, inside.jumps⟩, rfl⟩

theorem decodeLoop_cases (pkt : List UInt8) (inside : s.Inside buf) :
    (decodeLoop pkt).exec s = .error .failed ∨
      ∃ last text, (decodeLoop pkt).exec s = .ok last ∧
        last.Holds text buf ∧ text.length < buf.length := by
  obtain ⟨last, lastInside, ended⟩ :=
    @Loop.exec_induction _ _ (decodeLoop pkt) (fun s => s.Inside buf) _ inside
      fun s s' inside goesOn => (inside.again (Turn.ofExcept_again goesOn)).1
  obtain ⟨text, holds, room⟩ := lastInside.text
  change Turn.ofExcept (decodeTurn pkt last) = _ at ended
  rcases decodeTurn_cases pkt holds room with
    failed | done | ⟨target, _, _, again⟩ | ⟨label, _, _, again⟩
  · rw [failed] at ended
    exact .inl (Turn.done.inj ended).symm
  · rw [done] at ended
    exact .inr ⟨_, text, (Turn.done.inj ended).symm,
      ⟨holds.out, holds.outPos⟩, room⟩
  · rw [again] at ended
    cases ended
  · rw [again] at ended
    cases ended

theorem decodeDnsName_cases (pkt : List UInt8) (off : Nat)
    (some_ : 1 ≤ buf.length) :
    decodeDnsName pkt off buf = .error .failed ∨
      ∃ next out, decodeDnsName pkt off buf = .ok (next, out) ∧
        Terminated buf out := by
  have start : Decoding.Inside { cur := off, out := buf } buf :=
    ⟨⟨[], ⟨rfl, rfl⟩, some_⟩, Nat.zero_le _⟩
  rw [decodeDnsName]
  rcases decodeLoop_cases pkt start with
    failed | ⟨last, text, ends, holds, room⟩
  · rw [failed]
    exact .inl rfl
  · rw [ends]
    simp only [bind, Except.bind, holds.out, holds.outPos]
    rw [store_overlay 0 rfl room]
    exact .inr ⟨_, _, rfl, text, room, rfl⟩

/-- The pointers on a path are what its last state has counted. -/
theorem path_jumps {turns : List Decoding} {last : Decoding}
    (path : (decodeLoop pkt).Path s turns last) (inside : s.Inside buf) :
    last.Inside buf ∧ last.jumps = s.jumps + pointersFollowed pkt turns := by
  induction path with
  | here s => exact ⟨inside, rfl⟩
  | turn body rest induction =>
      obtain ⟨next, one⟩ := inside.again (Turn.ofExcept_again body)
      obtain ⟨lastInside, others⟩ := induction next
      refine ⟨lastInside, ?_⟩
      rw [others, pointersFollowed, pointersFollowed, List.countP_cons]
      omega

/-! ## The walk over the records -/

theorem rnameMismatch_ok (expectedRname : Option (List UInt8))
    {rname : List UInt8} (terminated : Terminated freshName rname) :
    ∃ mismatch, rnameMismatch expectedRname rname = .ok mismatch := by
  obtain ⟨name, _, rfl⟩ := terminated
  cases expectedRname with
  | none => exact ⟨false, rfl⟩
  | some expected =>
      rw [rnameMismatch, cString_overlay]
      exact ⟨_, rfl⟩

theorem freshName_pos : 1 ≤ freshName.length := by
  rw [freshName_length]
  decide

theorem skipQuestions_cases (pkt : List UInt8) (left off : Nat) :
    skipQuestions pkt left off = .error .failed ∨
      ∃ next, skipQuestions pkt left off = .ok next := by
  induction left generalizing off with
  | zero => exact .inr ⟨off, rfl⟩
  | succ left induction =>
      rw [skipQuestions]
      rcases decodeDnsName_cases pkt off freshName_pos with
        failed | ⟨next, name, decoded, _⟩
      · rw [failed]
        exact .inl rfl
      · rw [decoded]
        simp only [bind, Except.bind]
        split
        · exact .inl rfl
        · exact induction (next + 4)

theorem scanAnswers_cases (pkt : List UInt8)
    (expectedRname : Option (List UInt8)) (some_ : 1 ≤ buf.length)
    (left off : Nat) :
    scanAnswers pkt buf expectedRname left off = .error .failed ∨
      ∃ out, scanAnswers pkt buf expectedRname left off = .ok out ∧
        Terminated buf out := by
  induction left generalizing off with
  | zero => exact .inl rfl
  | succ left induction =>
      rw [scanAnswers]
      rcases decodeDnsName_cases pkt off freshName_pos with
        failed | ⟨next, rname, decoded, terminated⟩
      · rw [failed]
        exact .inl rfl
      · rw [decoded]
        simp only [bind, Except.bind]
        split
        · exact .inl rfl
        · rw [load16_eq (by omega), load16_eq (by omega)]
          obtain ⟨mismatch, compared⟩ :=
            rnameMismatch_ok expectedRname terminated
          simp only [compared]
          split
          · exact .inl rfl
          · split
            · exact induction _
            · split
              · rcases decodeDnsName_cases pkt (next + 10) some_ with
                  failed | ⟨_, out, decoded, terminated⟩
                · rw [failed]
                  exact .inl rfl
                · rw [decoded]
                  exact .inr ⟨out, rfl, terminated⟩
              · exact induction _

theorem parseResponse_cases (pkt : List UInt8)
    (expectedRname : Option (List UInt8)) (some_ : 1 ≤ buf.length) :
    parseResponse pkt buf expectedRname = .error .failed ∨
      ∃ out, parseResponse pkt buf expectedRname = .ok out ∧
        Terminated buf out := by
  unfold parseResponse
  split
  · exact .inl rfl
  · rw [load16_eq (by omega), load16_eq (by omega), load16_eq (by omega)]
    simp only [bind, Except.bind]
    split
    · exact .inl rfl
    · split
      · exact .inl rfl
      · rcases skipQuestions_cases pkt (uint16 pkt 4) 12 with
          failed | ⟨off, skipped⟩
        · rw [failed]
          exact .inl rfl
        · rw [skipped]
          exact scanAnswers_cases pkt expectedRname some_ _ off

end

/-- No packet leads the two functions out of the packet or of `out`: they end,
with `-1` or with a text and its NUL in `out`. -/
theorem hostile_packets_safe (pkt out : List UInt8) (some_ : 1 ≤ out.length) :
    (∀ off, decodeDnsName pkt off out = .error .failed ∨
      ∃ next out', decodeDnsName pkt off out = .ok (next, out') ∧
        Terminated out out') ∧
    (∀ off, (decodeLoop pkt).turns
      ((maxNameJumps + 1) * (pkt.length + 1)) { cur := off, out } ≠ none) ∧
    (∀ off turns last, (decodeLoop pkt).Path { cur := off, out } turns last →
      pointersFollowed pkt turns ≤ maxNameJumps) ∧
    ∀ expectedRname, parseResponse pkt out expectedRname = .error .failed ∨
      ∃ out', parseResponse pkt out expectedRname = .ok out' ∧
        Terminated out out' := by
  refine ⟨fun off => decodeDnsName_cases pkt off some_, fun off => ?_,
    fun off turns last path => ?_,
    fun expectedRname => parseResponse_cases pkt expectedRname some_⟩
  · have enough : (decodeLoop pkt).variant { cur := off, out } <
        (maxNameJumps + 1) * (pkt.length + 1) := by
      change (maxNameJumps - 0) * (pkt.length + 1) + (pkt.length - off) < _
      rw [Nat.sub_zero, Nat.succ_mul]
      omega
    rw [Loop.turns_eq_exec enough]
    exact Option.some_ne_none _
  · have start : Decoding.Inside { cur := off, out } out :=
      ⟨⟨[], ⟨rfl, rfl⟩, some_⟩, Nat.zero_le _⟩
    obtain ⟨lastInside, counted⟩ := path_jumps path start
    have bound := lastInside.jumps
    change last.jumps = 0 + _ at counted
    omega

/-- A pointer to itself. -/
theorem self_pointer_safe :
    decodeDnsName [0xC0, 0] 0 [7] = .error .failed ∨
      ∃ next out', decodeDnsName [0xC0, 0] 0 [7] = .ok (next, out') ∧
        Terminated [7] out' :=
  (hostile_packets_safe [0xC0, 0] [7] (by decide)).1 0

/-- Without room for the NUL the write would be outside. -/
example : decodeDnsName [0] 0 [] = .error .outside := by decide +kernel

end MdnsResolve
