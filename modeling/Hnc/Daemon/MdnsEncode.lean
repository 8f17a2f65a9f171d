import Hnc.Daemon.MdnsResolve

/-!
# Encoding and decoding names

`encode_dns_name` writes the labels of a text without compression.  What a
packet holds of it, whole or with a pointer in place of its tail, is read back
as the same text.
-/

namespace MdnsResolve

open BigEndian Buffers Loops

theorem labelBytes_cons (label : List UInt8) (name : Name) :
    labelBytes (label :: name) =
      (UInt8.ofNat label.length :: label) ++ labelBytes name :=
  List.flatMap_cons

variable {name : Name}

theorem dotted_cons (label : List UInt8) (nonempty : name ≠ []) :
    dotted (label :: name) = label ++ dot :: dotted name := by
  cases name with
  | nil => exact absurd rfl nonempty
  | cons next rest => rw [dotted, List.flatMap_cons, dotted, List.cons_append]

theorem dotted_length_pos (nonempty : name ≠ [])
    (long : ∀ label ∈ name, 0 < label.length) : 0 < (dotted name).length := by
  cases name with
  | nil => exact absurd rfl nonempty
  | cons label rest =>
      have first := long label List.mem_cons_self
      rw [dotted, List.length_append]
      omega

theorem labelBytes_length (nonempty : name ≠ []) :
    (labelBytes name).length = (dotted name).length + 1 := by
  induction name with
  | nil => exact absurd rfl nonempty
  | cons label rest induction =>
      by_cases last : rest = []
      · subst last
        simp only [labelBytes, dotted, List.flatMap_cons, List.flatMap_nil,
          List.append_nil, List.length_cons]
      · have others := induction last
        rw [labelBytes_cons, dotted_cons label last, List.length_append,
          List.length_append, List.length_cons, List.length_cons]
        omega

variable {label : List UInt8}

theorem takeWhile_label (noDot : dot ∉ label) (name : Name) :
    (dotted (label :: name)).takeWhile (· ≠ dot) = label := by
  have all : ∀ c ∈ label, decide (c ≠ dot) = true := by
    intro c one
    exact decide_eq_true fun same => noDot (same ▸ one)
  rw [dotted, List.takeWhile_append_of_pos all]
  cases name with
  | nil => exact List.append_nil label
  | cons next rest => exact List.append_nil label

section

variable {text buf : List UInt8}

/-- The state of the encoder in front of `rest`, with `code` behind it. -/
structure Encoding.Holds (s : Encoding) (text code buf : List UInt8)
    (rest : Name) : Prop where
  left : text.drop s.i = dotted rest
  inside : s.i < text.length
  out : s.out = overlay code buf
  pos : s.pos = code.length

variable {s : Encoding} {code : List UInt8} {rest : Name}

theorem Encoding.Holds.length (holds : s.Holds text code buf rest) :
    text.length = s.i + (dotted rest).length := by
  have inside := holds.inside
  rw [← holds.left, List.length_drop]
  omega

theorem Encoding.Holds.nextDot (holds : s.Holds text code buf (label :: rest))
    (noDot : dot ∉ label) : nextDot text s.i = s.i + label.length := by
  rw [MdnsResolve.nextDot, holds.left, takeWhile_label noDot]

theorem Encoding.Holds.window (holds : s.Holds text code buf (label :: rest)) :
    window text s.i label.length = label := by
  rw [BigEndian.window, holds.left, dotted, List.take_left]

/-- The state behind a label. -/
def Encoding.afterLabel (s : Encoding) (code label buf : List UInt8) :
    Encoding where
  i := s.i + label.length + 1
  pos := s.pos + 1 + label.length
  out := overlay (code ++ (UInt8.ofNat label.length :: label)) buf

/-- One turn writes one label. -/
theorem encodeTurn_eq (holds : s.Holds text code buf (label :: rest))
    (valid : IsLabel label)
    (room : code.length + (dotted (label :: rest)).length + 2 ≤ buf.length) :
    encodeTurn text s =
      .ok (if rest = [] then .done (s.afterLabel code label buf)
        else .again (s.afterLabel code label buf)) := by
  have length := holds.length
  rw [dotted, List.length_append] at length room
  have long := valid.nonempty
  have short := valid.short
  have size : s.out.length = buf.length := by
    rw [holds.out, overlay_length (by omega)]
  have ended : s.i + label.length = text.length ↔ rest = [] := by
    cases rest with
    | nil => simp only [List.flatMap_nil, List.length_nil] at length; simp; omega
    | cons next rest =>
        simp only [List.flatMap_cons, List.length_append, List.length_cons]
          at length
        simp only [reduceCtorEq, iff_false]
        omega
  simp only [encodeTurn, holds.nextDot valid.noDot, Nat.add_sub_cancel_left]
  rw [if_neg (by omega), if_neg (by omega), holds.pos, if_neg (by omega),
    holds.out, store_overlay _ rfl (by omega)]
  simp only [bind, Except.bind]
  rw [copy_overlay (by simp) (by omega) (by omega), holds.window]
  simp only [pure, Except.pure, ended, Encoding.afterLabel, holds.pos,
    List.append_assoc, List.singleton_append]

theorem encodeLoop_exec (nonempty : rest ≠ [])
    (holds : s.Holds text code buf rest) (valid : ∀ label ∈ rest, IsLabel label)
    (room : code.length + (dotted rest).length + 2 ≤ buf.length) :
    ∃ last, (encodeLoop text).exec s = .ok last ∧
      last.out = overlay (code ++ labelBytes rest) buf ∧
      last.pos = (code ++ labelBytes rest).length := by
  induction rest generalizing s code with
  | nil => exact absurd rfl nonempty
  | cons label rest induction =>
      have turn := encodeTurn_eq holds (valid label List.mem_cons_self) room
      have pos : s.pos + 1 + label.length =
          (code ++ (UInt8.ofNat label.length :: label)).length := by
        rw [holds.pos, List.length_append, List.length_cons]
        omega
      have whole : code ++ labelBytes (label :: rest) =
          code ++ (UInt8.ofNat label.length :: label) ++ labelBytes rest := by
        rw [labelBytes_cons, List.append_assoc]
      rw [whole]
      by_cases ended : rest = []
      · subst ended
        refine ⟨s.afterLabel code label buf, ?_, ?_, ?_⟩
        · apply Loop.exec_done
          change Turn.ofExcept (encodeTurn text s) = _
          rw [turn]
          rfl
        · rw [labelBytes, List.flatMap_nil, List.append_nil]
          rfl
        · rw [labelBytes, List.flatMap_nil, List.append_nil]
          exact pos
      · have length := holds.length
        have left := holds.left
        rw [dotted_cons label ended] at room left length
        rw [List.length_append, List.length_cons] at room length
        have behind : text.drop (s.i + label.length + 1) = dotted rest := by
          rw [Nat.add_assoc, ← List.drop_drop, left, List.drop_append,
            List.drop_of_length_le (by omega), Nat.add_sub_cancel_left]
          rfl
        have more : 0 < (dotted rest).length :=
          dotted_length_pos ended fun other one =>
            (valid other (List.mem_cons_of_mem _ one)).nonempty
        have next : (s.afterLabel code label buf).Holds text
            (code ++ (UInt8.ofNat label.length :: label)) buf rest :=
          ⟨behind, by simp only [Encoding.afterLabel]; omega, rfl, pos⟩
        obtain ⟨last, ends, out, lastPos⟩ :=
          induction ended next
            (fun other one => valid other (List.mem_cons_of_mem _ one))
            (by rw [List.length_append, List.length_cons]; omega)
        refine ⟨last, ?_, out, lastPos⟩
        rw [← ends]
        apply Loop.exec_again
        change Turn.ofExcept (encodeTurn text s) = _
        rw [turn, if_neg ended]
        rfl

end

theorem encodeDnsName_eq (nonempty : name ≠ [])
    (valid : ∀ label ∈ name, IsLabel label) (buf : List UInt8) :
    encodeDnsName (dotted name) buf =
      if buf.length < (dotted name).length + 2 then .error .failed
      else .ok ((wire name).length, overlay (wire name) buf) := by
  rw [encodeDnsName]
  split
  · rfl
  · have size := labelBytes_length nonempty
    have begun := dotted_length_pos nonempty fun label one =>
      (valid label one).nonempty
    have start : Encoding.Holds ⟨0, 0, buf⟩ (dotted name) [] buf name :=
      ⟨rfl, begun, rfl, rfl⟩
    obtain ⟨last, ends, out, pos⟩ :=
      encodeLoop_exec nonempty start valid
        (by simp only [List.length_nil]; omega)
    rw [ends]
    simp only [bind, Except.bind, out, pos, List.nil_append]
    rw [store_overlay 0 rfl (by omega)]
    simp only [pure, Except.pure, wire, List.length_append,
      List.length_singleton]

/-- `0xC000 + target`. -/
def pointerBytes (target : Nat) : List UInt8 :=
  [UInt8.ofNat (0xC0 + target / 256), UInt8.ofNat (target % 256)]

/-- The labels of `front` lead to the rest of the name. -/
theorem nameAt_append {pkt : List UInt8} {off jumps next : Nat}
    {front back : Name}
    (valid : ∀ label ∈ front, 0 < label.length ∧ label.length ≤ 63)
    (bytes : window pkt off (labelBytes front).length = labelBytes front)
    (rest : NameAt pkt (off + (labelBytes front).length) back jumps next) :
    NameAt pkt off (front ++ back) jumps next := by
  induction front generalizing off with
  | nil => exact rest
  | cons label front induction =>
      rw [labelBytes_cons] at bytes rest
      obtain ⟨here, behind⟩ := window_append bytes
      have first := @window_append _ [UInt8.ofNat label.length] label _ here
      obtain ⟨nonempty, short⟩ := valid label List.mem_cons_self
      have next : off + (UInt8.ofNat label.length :: label).length =
          off + (1 + label.length) := by
        rw [List.length_cons, Nat.add_comm 1]
      refine .label (window_singleton first.1) ?_ nonempty short first.2 ?_
      · exact UInt8.toNat_ofNat_of_lt' (by change _ < 256; omega)
      · rw [List.length_append, ← Nat.add_assoc, next] at rest
        rw [next] at behind
        exact induction (fun other one => valid other (List.mem_cons_of_mem _ one))
          behind rest

theorem pointerBytes_toNat {target : Nat} (reach : target < 0x4000) :
    (UInt8.ofNat (0xC0 + target / 256)).toNat * 256 +
      (UInt8.ofNat (target % 256)).toNat = 0xC000 + target := by
  have high : 0xC0 + target / 256 < 256 := by omega
  have low : target % 256 < 256 := Nat.mod_lt _ (by omega)
  rw [UInt8.toNat_ofNat_of_lt' high, UInt8.toNat_ofNat_of_lt' low]
  omega

/-- A packet that has the encoding of a name at `o`, or its first labels and a
pointer to the others, gives the name back. -/
theorem decode_encode {name : Name} (nonempty : name ≠ [])
    (valid : ∀ label ∈ name, IsLabel label) {buf code : List UInt8}
    {written : Nat}
    (encoded : encodeDnsName (dotted name) buf = .ok (written, code))
    {out : List UInt8} (room : (dotted name).length + 2 ≤ out.length)
    (pkt : List UInt8) (o : Nat) :
    (window pkt o written = code.take written →
      decodeDnsName pkt o out =
        .ok (o + written, overlay (dotted name ++ [0]) out)) ∧
    ∀ (front back : Name) (target jumps next : Nat),
      name = front ++ back → target < 0x4000 →
      window pkt o ((labelBytes front).length + 2) =
        labelBytes front ++ pointerBytes target →
      NameAt pkt target back jumps next → jumps + 1 ≤ maxNameJumps →
      decodeDnsName pkt o out =
        .ok (o + ((labelBytes front).length + 2),
          overlay (dotted name ++ [0]) out) := by
  have bounds : ∀ label ∈ name, 0 < label.length ∧ label.length ≤ 63 :=
    fun label one => ⟨(valid label one).nonempty, (valid label one).short⟩
  refine ⟨fun placed => ?_, ?_⟩
  · rw [encodeDnsName_eq nonempty valid] at encoded
    split at encoded
    · cases encoded
    · cases encoded
      rw [overlay, List.take_left] at placed
      obtain ⟨labels, nul⟩ := window_append placed
      have held : NameAt pkt o (name ++ []) 0
          (o + (labelBytes name).length + 1) :=
        nameAt_append bounds labels (.root (window_singleton nul))
      rw [List.append_nil] at held
      rw [held.decodeDnsName_eq (Nat.zero_le _) room, wire, List.length_append,
        List.length_singleton, Nat.add_assoc]
  · intro front back target jumps next split reach placed tail budget
    subst split
    have whole : window pkt o (labelBytes front ++ pointerBytes target).length =
        labelBytes front ++ pointerBytes target := by
      rw [List.length_append]
      exact placed
    obtain ⟨labels, pointer⟩ := window_append whole
    obtain ⟨hi, lo⟩ := @window_append _ [UInt8.ofNat (0xC0 + target / 256)]
      [UInt8.ofNat (target % 256)] _ pointer
    have held := nameAt_append
      (fun label one => bounds label (List.mem_append_left _ one)) labels
      (.pointer (window_singleton hi) (window_singleton lo)
        (pointerBytes_toNat reach) tail)
    rw [held.decodeDnsName_eq budget room, Nat.add_assoc]

/-- `tv.local`. -/
def tvName : Name :=
  [[116, 118], [108, 111, 99, 97, 108]]

/-- The encoding of `local` and, behind it, `tv` with a pointer. -/
def tvPacket : List UInt8 :=
  [5, 108, 111, 99, 97, 108, 0, 2, 116, 118, 0xC0, 0]

theorem tvName_decodes :
    decodeDnsName tvPacket 7 (List.replicate 10 1) =
      .ok (12, [116, 118, 46, 108, 111, 99, 97, 108, 0, 1]) := by
  have tail : NameAt tvPacket 0 [[108, 111, 99, 97, 108]] 0 7 :=
    .label rfl rfl (by decide) (by decide) rfl (.root rfl)
  have labels : ∀ label ∈ tvName, IsLabel label := by
    intro label one
    rcases List.mem_cons.mp one with rfl | last
    · exact ⟨by decide, by decide, by decide⟩
    · rw [List.mem_singleton.mp last]
      exact ⟨by decide, by decide, by decide⟩
  have encoded : encodeDnsName (dotted tvName) (List.replicate 10 1) =
      .ok (10, [2, 116, 118, 5, 108, 111, 99, 97, 108, 0]) := by
    decide +kernel
  exact (decode_encode (by decide) labels encoded (by decide) tvPacket 7).2
    [[116, 118]] [[108, 111, 99, 97, 108]] 0 0 7 rfl (by decide) rfl tail
    (by decide)

end MdnsResolve
