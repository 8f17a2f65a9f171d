import Hnc.Lib.Buffers
import Hnc.Lib.Loops

/-!
# The packets of `mdns_resolve`

`daemon/hotspotd/mdns_resolve.c` writes and reads DNS messages by hand.  A C
string argument is the list of its bytes.  A call that returns `-1` stops with
`failed`.
-/

namespace MdnsResolve

open BigEndian Buffers Loops

/-- `MAX_NAME_JUMPS`. -/
def maxNameJumps : Nat := 16

/-- `MAX_NAME_LEN`. -/
def maxNameLen : Nat := 256

def dot : UInt8 := 46

/-! ## `encode_dns_name` -/

/-- The variables of the loop of `encode_dns_name`. -/
structure Encoding where
  i : Nat
  pos : Nat
  out : List UInt8
deriving DecidableEq, Repr

/-- The inner loop: the next dot of `name` from `i` on, or its end. -/
def nextDot (name : List UInt8) (i : Nat) : Nat :=
  i + ((name.drop i).takeWhile (· ≠ dot)).length

/-- What is left to do when a turn reaches the end of the name. -/
def encodeTurn (name : List UInt8) (s : Encoding) :
    Except Stop (Turn Encoding Encoding) :=
  if name.length ≤ s.i then pure (.done s)
  else
    let j := nextDot name s.i
    let labelLen := j - s.i
    if labelLen = 0 ∨ 63 < labelLen then throw .failed
    else if s.out.length < s.pos + 1 + labelLen + 1 then throw .failed
    else do
      let out ← store s.out s.pos (UInt8.ofNat labelLen)
      let out ← copy out (s.pos + 1) name s.i labelLen
      let s' := { i := j + 1, pos := s.pos + 1 + labelLen, out }
      pure (if j = name.length then .done s' else .again s')

theorem encodeTurn_again {name : List UInt8} {s s' : Encoding}
    (goesOn : encodeTurn name s = .ok (.again s')) :
    s.i < name.length ∧ s.i < s'.i := by
  unfold encodeTurn at goesOn
  split at goesOn
  · cases goesOn
  · rename_i inside
    simp only [bind, Except.bind] at goesOn
    split at goesOn
    · cases goesOn
    · split at goesOn
      · cases goesOn
      · split at goesOn
        · cases goesOn
        · split at goesOn
          · cases goesOn
          · split at goesOn
            · cases goesOn
            · cases goesOn
              refine ⟨Nat.lt_of_not_le inside, ?_⟩
              simp only [nextDot]
              omega

def encodeLoop (name : List UInt8) :
    Loop Encoding (Except Stop Encoding) where
  turn s := Turn.ofExcept (encodeTurn name s)
  variant s := name.length - s.i
  decreases goesOn := by
    have step := encodeTurn_again (Turn.ofExcept_again goesOn)
    omega

/-- `encode_dns_name` into the buffer `out`: how many bytes it wrote, and the
buffer. -/
def encodeDnsName (name out : List UInt8) :
    Except Stop (Nat × List UInt8) :=
  if out.length < name.length + 2 then throw .failed
  else do
    let s ← (encodeLoop name).exec ⟨0, 0, out⟩
    let out ← store s.out s.pos 0
    pure (s.pos + 1, out)

/-! ## `decode_dns_name` -/

/-- The variables of the loop of `decode_dns_name`. -/
structure Decoding where
  outPos : Nat := 0
  cur : Nat
  jumps : Nat := 0
  jumped : Bool := false
  afterFirstLabel : Nat := 0
  out : List UInt8
deriving DecidableEq, Repr

/-- A compression pointer at `cur` is followed. -/
def Decoding.jump (s : Decoding) (ptr : Nat) : Decoding :=
  { s with
    cur := ptr
    jumps := s.jumps + 1
    jumped := true
    afterFirstLabel := if s.jumped then s.afterFirstLabel else s.cur + 2 }

/-- `jumped ? after_first_label : cur`. -/
def Decoding.resume (s : Decoding) : Nat :=
  if s.jumped then s.afterFirstLabel else s.cur

/-- `if (out_pos > 0) out[out_pos++] = '.'`. -/
def Decoding.separate (s : Decoding) : Except Stop (Nat × List UInt8) :=
  if 0 < s.outPos then do
    let out ← store s.out s.outPos dot
    pure (s.outPos + 1, out)
  else pure (s.outPos, s.out)

/-- The branch of a compression pointer, whose first byte is `len`. -/
def followPointer (pkt : List UInt8) (s : Decoding) (len : Nat) :
    Except Stop (Turn Decoding Decoding) :=
  if pkt.length ≤ s.cur + 1 then throw .failed
  else do
    let ptr := (len &&& 0x3F) <<< 8 ||| (← load pkt (s.cur + 1)).toNat
    if maxNameJumps < s.jumps + 1 then throw .failed
    else if pkt.length ≤ ptr then throw .failed
    else pure (.again (s.jump ptr))

/-- The branch of a label of `len` bytes. -/
def copyLabel (pkt : List UInt8) (s : Decoding) (len : Nat) :
    Except Stop (Turn Decoding Decoding) :=
  if 63 < len then throw .failed
  else if pkt.length < s.cur + 1 + len then throw .failed
  else if s.out.length ≤ s.outPos + len + 1 then throw .failed
  else do
    let (outPos, out) ← s.separate
    let out ← copy out outPos pkt (s.cur + 1) len
    pure (.again
      { s with outPos := outPos + len, cur := s.cur + (1 + len), out })

def decodeTurn (pkt : List UInt8) (s : Decoding) :
    Except Stop (Turn Decoding Decoding) :=
  if pkt.length ≤ s.cur then throw .failed
  else do
    let len := (← load pkt s.cur).toNat
    if len = 0 then pure (.done { s with cur := s.cur + 1 })
    else if len &&& 0xC0 = 0xC0 then followPointer pkt s len
    else copyLabel pkt s len

variable {s s' : Decoding} {pkt : List UInt8}

theorem followPointer_again {len : Nat}
    (goesOn : followPointer pkt s len = .ok (.again s')) :
    s.jumps < maxNameJumps ∧ s'.jumps = s.jumps + 1 := by
  unfold followPointer at goesOn
  split at goesOn
  · cases goesOn
  · rename_i inside
    obtain ⟨lo, _, loaded⟩ := load_inside (Nat.lt_of_not_le inside)
    simp only [loaded, bind, Except.bind] at goesOn
    split at goesOn
    · cases goesOn
    · rename_i budget
      split at goesOn
      · cases goesOn
      · cases goesOn
        exact ⟨Nat.le_of_not_lt budget, rfl⟩

theorem copyLabel_again {len : Nat}
    (goesOn : copyLabel pkt s len = .ok (.again s')) :
    s'.jumps = s.jumps ∧ s.cur < s'.cur := by
  unfold copyLabel at goesOn
  iterate 3 (split at goesOn; · cases goesOn)
  simp only [bind, Except.bind] at goesOn
  split at goesOn
  · cases goesOn
  · split at goesOn
    · cases goesOn
    · cases goesOn
      exact ⟨rfl, by simp only; omega⟩

/-- A turn that goes on either takes one of the jumps or moves forward. -/
theorem decodeTurn_again (goesOn : decodeTurn pkt s = .ok (.again s')) :
    s.cur < pkt.length ∧
      ((s.jumps < maxNameJumps ∧ s'.jumps = s.jumps + 1) ∨
        (s'.jumps = s.jumps ∧ s.cur < s'.cur)) := by
  unfold decodeTurn at goesOn
  split at goesOn
  · cases goesOn
  · rename_i inside
    have inside : s.cur < pkt.length := Nat.lt_of_not_le inside
    obtain ⟨b, _, loaded⟩ := load_inside inside
    simp only [loaded, bind, Except.bind] at goesOn
    split at goesOn
    · cases goesOn
    · split at goesOn
      · exact ⟨inside, .inl (followPointer_again goesOn)⟩
      · exact ⟨inside, .inr (copyLabel_again goesOn)⟩

/-- A jump costs as much as the whole packet. -/
def Decoding.variant (pktlen : Nat) (s : Decoding) : Nat :=
  (maxNameJumps - s.jumps) * (pktlen + 1) + (pktlen - s.cur)

theorem Decoding.variant_lt (goesOn : decodeTurn pkt s = .ok (.again s')) :
    s'.variant pkt.length < s.variant pkt.length := by
  obtain ⟨inside, ⟨left, jumps⟩ | ⟨jumps, forward⟩⟩ := decodeTurn_again goesOn
  · have one : maxNameJumps - s.jumps = (maxNameJumps - s'.jumps) + 1 := by
      omega
    rw [variant, variant, one, Nat.succ_mul]
    omega
  · rw [variant, variant, jumps]
    omega

def decodeLoop (pkt : List UInt8) : Loop Decoding (Except Stop Decoding) where
  turn s := Turn.ofExcept (decodeTurn pkt s)
  variant := Decoding.variant pkt.length
  decreases goesOn := Decoding.variant_lt (Turn.ofExcept_again goesOn)

/-- `decode_dns_name` from `off` into the buffer `out`: the new `*off`, and the
buffer. -/
def decodeDnsName (pkt : List UInt8) (off : Nat) (out : List UInt8) :
    Except Stop (Nat × List UInt8) := do
  let s ← (decodeLoop pkt).exec { cur := off, out }
  let out ← store s.out s.outPos 0
  pure (s.resume, out)

/-! ## `parse_response` -/

/-- The type of a PTR record. -/
def typePtr : Nat := 0x000C

/-- A local array of `MAX_NAME_LEN` bytes, not initialised. -/
def freshName : List UInt8 := List.replicate maxNameLen 0xAA

theorem freshName_length : freshName.length = maxNameLen :=
  List.length_replicate

/-- The question section, from `off` on. -/
def skipQuestions (pkt : List UInt8) : (left off : Nat) → Except Stop Nat
  | 0, off => pure off
  | left + 1, off => do
      let (off, _) ← decodeDnsName pkt off freshName
      if pkt.length < off + 4 then throw .failed
      else skipQuestions pkt left (off + 4)

def tolower (c : UInt8) : UInt8 :=
  if 65 ≤ c ∧ c ≤ 90 then c + 32 else c

/-- `expected_rname != NULL && strcasecmp(rname, expected_rname) != 0`. -/
def rnameMismatch (expectedRname : Option (List UInt8))
    (rname : List UInt8) : Except Stop Bool :=
  match expectedRname with
  | none => pure false
  | some expected => do
      let name ← cString rname
      pure (name.map tolower ≠ expected.map tolower)

/-- The answer section, from `off` on. -/
def scanAnswers (pkt out : List UInt8) (expectedRname : Option (List UInt8)) :
    (left off : Nat) → Except Stop (List UInt8)
  | 0, _ => throw .failed
  | left + 1, off => do
      let (off, rname) ← decodeDnsName pkt off freshName
      if pkt.length < off + 10 then throw .failed
      else
        let rtype ← load16 pkt off
        let rdlen ← load16 pkt (off + 8)
        let off := off + 10
        if pkt.length < off + rdlen then throw .failed
        else if ← rnameMismatch expectedRname rname then
          scanAnswers pkt out expectedRname left (off + rdlen)
        else if rtype = typePtr then do
          let (_, out) ← decodeDnsName pkt off out
          pure out
        else scanAnswers pkt out expectedRname left (off + rdlen)

/-- `parse_response`: the buffer `out` with the name. -/
def parseResponse (pkt out : List UInt8)
    (expectedRname : Option (List UInt8)) : Except Stop (List UInt8) :=
  if pkt.length < 12 then throw .failed
  else do
    let flags ← load16 pkt 2
    if flags &&& 0x8000 = 0 then throw .failed
    else
      let qdcount ← load16 pkt 4
      let ancount ← load16 pkt 6
      if ancount = 0 then throw .failed
      else
        let off ← skipQuestions pkt qdcount 12
        scanAnswers pkt out expectedRname ancount off

end MdnsResolve

/-!
## Names in DNS messages

What a name is, apart from the code: a list of labels, its text with dots, its
bytes, and what it means that a packet holds it at an offset, with or without
compression.  `decode_dns_name` reads back every name that a packet holds.
-/

namespace MdnsResolve

open BigEndian Buffers Loops

abbrev Name := List (List UInt8)

/-- The labels with dots between them. -/
def dotted : Name → List UInt8
  | [] => []
  | label :: rest => label ++ rest.flatMap (dot :: ·)

/-- A label of a text. -/
structure IsLabel (label : List UInt8) : Prop where
  nonempty : 0 < label.length
  short : label.length ≤ 63
  noDot : dot ∉ label

/-- Every label behind its length. -/
def labelBytes (name : Name) : List UInt8 :=
  name.flatMap fun label => UInt8.ofNat label.length :: label

/-- The encoding without compression. -/
def wire (name : Name) : List UInt8 :=
  labelBytes name ++ [0]

/-- The packet holds `name` at `off`; so many pointers lead through it, and
`next` is behind its part at `off`. -/
inductive NameAt (pkt : List UInt8) : (off : Nat) → Name → (jumps next : Nat) →
    Prop where
  | root {off : Nat} (nul : pkt[off]? = some 0) : NameAt pkt off [] 0 (off + 1)
  | label {off jumps next : Nat} {label : List UInt8} {name : Name} {b : UInt8}
      (first : pkt[off]? = some b) (length : b.toNat = label.length)
      (nonempty : 0 < label.length) (short : label.length ≤ 63)
      (bytes : window pkt (off + 1) label.length = label)
      (rest : NameAt pkt (off + (1 + label.length)) name jumps next) :
      NameAt pkt off (label :: name) jumps next
  | pointer {off target jumps next : Nat} {name : Name} {hi lo : UInt8}
      (first : pkt[off]? = some hi) (second : pkt[off + 1]? = some lo)
      (mark : hi.toNat * 256 + lo.toNat = 0xC000 + target)
      (rest : NameAt pkt target name jumps next) :
      NameAt pkt off name (jumps + 1) (off + 2)

theorem NameAt.inside {pkt : List UInt8} {off jumps next : Nat} {name : Name}
    (held : NameAt pkt off name jumps next) :
    off < pkt.length ∧ next ≤ pkt.length := by
  induction held with
  | root nul =>
      have inside := (List.getElem?_eq_some_iff.mp nul).1
      exact ⟨inside, inside⟩
  | label first _ _ _ _ _ induction =>
      exact ⟨(List.getElem?_eq_some_iff.mp first).1, induction.2⟩
  | pointer first second _ _ _ =>
      exact ⟨(List.getElem?_eq_some_iff.mp first).1,
        (List.getElem?_eq_some_iff.mp second).1⟩

/-! ## The turns of the decoder -/

/-- The text so far and one more label. -/
def extend (text label : List UInt8) : List UInt8 :=
  if 0 < text.length then text ++ dot :: label else label

theorem extend_length_le (text label : List UInt8) :
    (extend text label).length ≤ text.length + label.length + 1 := by
  rw [extend]
  split
  · rw [List.length_append, List.length_cons]
    omega
  · omega

theorem le_extend_length (text label : List UInt8) :
    text.length + label.length ≤ (extend text label).length := by
  rw [extend]
  split
  · rw [List.length_append, List.length_cons]
    omega
  · omega

theorem le_foldl_extend (name : Name) (text : List UInt8) :
    text.length ≤ (name.foldl extend text).length := by
  induction name generalizing text with
  | nil => exact Nat.le_refl _
  | cons label name induction =>
      have one := le_extend_length text label
      have others := induction (extend text label)
      rw [List.foldl_cons]
      omega

theorem foldl_extend (name : Name) {text : List UInt8}
    (begun : 0 < text.length) :
    name.foldl extend text = text ++ name.flatMap (dot :: ·) := by
  induction name generalizing text with
  | nil => exact (List.append_nil text).symm
  | cons label name induction =>
      rw [List.foldl_cons, extend, if_pos begun, induction, List.flatMap_cons,
        List.append_assoc]
      rw [List.length_append]
      omega

/-- The labels of a name that a packet holds. -/
theorem NameAt.labels {pkt : List UInt8} {off jumps next : Nat} {name : Name}
    (held : NameAt pkt off name jumps next) :
    ∀ label ∈ name, 0 < label.length ∧ label.length ≤ 63 := by
  induction held with
  | root nul => exact fun label none => absurd none List.not_mem_nil
  | label first length nonempty short _ _ induction =>
      intro label one
      rcases List.mem_cons.mp one with rfl | other
      · exact ⟨nonempty, short⟩
      · exact induction label other
  | pointer _ _ _ _ induction => exact induction

theorem dotted_eq_foldl {name : Name}
    (nonempty : ∀ label ∈ name, 0 < label.length) :
    dotted name = name.foldl extend [] := by
  cases name with
  | nil => rfl
  | cons label name =>
      have begun := nonempty label List.mem_cons_self
      rw [List.foldl_cons, extend, if_neg (by simp), foldl_extend name begun]
      rfl

/-- The first bytes of `buf` are those of `text`. -/
structure Decoding.Holds (s : Decoding) (text buf : List UInt8) : Prop where
  out : s.out = overlay text buf
  outPos : s.outPos = text.length

theorem pointer_mark_iff {n : Nat} (byte : n < 256) :
    n &&& 0xC0 = 0xC0 ↔ 192 ≤ n := by
  revert n
  decide +kernel

theorem pointer_target (hi lo : UInt8) :
    (hi.toNat &&& 0x3F) <<< 8 ||| lo.toNat =
      hi.toNat % 64 * 256 + lo.toNat := by
  rw [← Nat.shiftLeft_add_eq_or_of_lt (i := 8) lo.toNat_lt, Nat.shiftLeft_eq]
  congr 2
  exact Nat.and_two_pow_sub_one_eq_mod hi.toNat 6

theorem pointer_split {hi lo target : Nat} (high : hi < 256) (low : lo < 256)
    (mark : hi * 256 + lo = 0xC000 + target) :
    192 ≤ hi ∧ hi % 64 * 256 + lo = target := by
  omega

section

variable {pkt buf text : List UInt8} {s : Decoding}

theorem decodeTurn_root (nul : pkt[s.cur]? = some 0) :
    decodeTurn pkt s = .ok (.done { s with cur := s.cur + 1 }) := by
  have inside := (List.getElem?_eq_some_iff.mp nul).1
  rw [decodeTurn, if_neg (Nat.not_le_of_lt inside), load_eq nul]
  rfl

theorem decodeTurn_pointer {hi lo : UInt8} {target : Nat}
    (first : pkt[s.cur]? = some hi) (second : pkt[s.cur + 1]? = some lo)
    (mark : hi.toNat * 256 + lo.toNat = 0xC000 + target)
    (left : s.jumps < maxNameJumps) (inside : target < pkt.length) :
    decodeTurn pkt s = .ok (.again (s.jump target)) := by
  obtain ⟨large, split⟩ := pointer_split hi.toNat_lt lo.toNat_lt mark
  have insideSecond := (List.getElem?_eq_some_iff.mp second).1
  have marked : hi.toNat &&& 0xC0 = 0xC0 :=
    (pointer_mark_iff hi.toNat_lt).mpr large
  have same : (hi.toNat &&& 0x3F) <<< 8 ||| lo.toNat = target :=
    (pointer_target hi lo).trans split
  have followed : followPointer pkt s hi.toNat =
      .ok (.again (s.jump target)) := by
    rw [followPointer, if_neg (by omega), load_eq second]
    simp only [bind, Except.bind, same]
    rw [if_neg (by omega), if_neg (by omega)]
    rfl
  rw [decodeTurn, if_neg (by omega), load_eq first]
  simp only [bind, Except.bind]
  rw [if_neg (by omega), if_pos marked, followed]

/-- The state behind a label. -/
def Decoding.afterLabel (s : Decoding) (text label buf : List UInt8) :
    Decoding :=
  { s with
    outPos := (extend text label).length
    cur := s.cur + (1 + label.length)
    out := overlay (extend text label) buf }

theorem Decoding.Holds.separate (holds : s.Holds text buf)
    (room : text.length < buf.length) :
    s.separate =
      .ok (if 0 < text.length then
          (text.length + 1, overlay (text ++ [dot]) buf)
        else (text.length, overlay text buf)) := by
  rw [Decoding.separate, holds.outPos, holds.out]
  split
  · rw [store_overlay dot rfl room]
    rfl
  · rfl

variable {label : List UInt8}

theorem copyLabel_eq (holds : s.Holds text buf) (short : label.length ≤ 63)
    (inside : s.cur + 1 + label.length ≤ pkt.length)
    (bytes : window pkt (s.cur + 1) label.length = label)
    (room : text.length + label.length + 1 < buf.length) :
    copyLabel pkt s label.length =
      .ok (.again (s.afterLabel text label buf)) := by
  have size : s.out.length = buf.length := by
    rw [holds.out, overlay_length (by omega)]
  rw [copyLabel, if_neg (by omega), if_neg (by omega), holds.outPos,
    if_neg (by omega), holds.separate (by omega)]
  simp only [bind, Except.bind, Decoding.afterLabel, extend]
  by_cases begun : 0 < text.length
  · rw [if_pos begun, if_pos begun,
      copy_overlay (by simp) (by omega) inside, bytes, List.append_assoc,
      List.singleton_append, List.length_append, List.length_cons]
    simp only [pure, Except.pure, Nat.add_assoc, Nat.add_comm 1]
  · have empty : text = [] := List.eq_nil_of_length_eq_zero (by omega)
    subst empty
    rw [if_neg begun, if_neg begun, copy_overlay rfl (by simp; omega) inside,
      bytes]
    simp only [pure, Except.pure, List.length_nil, Nat.zero_add,
      List.nil_append]

theorem decodeTurn_label {b : UInt8} (first : pkt[s.cur]? = some b)
    (length : b.toNat = label.length) (nonempty : 0 < label.length)
    (short : label.length ≤ 63) (inside : s.cur + 1 + label.length ≤ pkt.length)
    (bytes : window pkt (s.cur + 1) label.length = label)
    (holds : s.Holds text buf)
    (room : text.length + label.length + 1 < buf.length) :
    decodeTurn pkt s = .ok (.again (s.afterLabel text label buf)) := by
  have unmarked : ¬ b.toNat &&& 0xC0 = 0xC0 := by
    rw [pointer_mark_iff b.toNat_lt]
    omega
  rw [decodeTurn, if_neg (by omega), load_eq first]
  simp only [bind, Except.bind]
  rw [if_neg (by omega), if_neg unmarked, length,
    copyLabel_eq holds short inside bytes room]

theorem window_inside {off : Nat} (nonempty : 0 < label.length)
    (bytes : window pkt off label.length = label) :
    off + label.length ≤ pkt.length := by
  have length := congrArg List.length bytes
  rw [window, List.length_take, List.length_drop] at length
  omega

section

variable {off jumps next : Nat} {name : Name}
  (held : NameAt pkt off name jumps next)
include held

/-- From any state of the loop on, the rest of a name is written behind what is
there. -/
theorem NameAt.exec (here : s.cur = off) (holds : s.Holds text buf)
    (budget : s.jumps + jumps ≤ maxNameJumps)
    (room : (name.foldl extend text).length + 2 ≤ buf.length) :
    ∃ last, (decodeLoop pkt).exec s = .ok last ∧
      last.Holds (name.foldl extend text) buf ∧
      last.resume = if s.jumped then s.afterFirstLabel else next := by
  induction held generalizing s text with
  | root nul =>
      subst here
      refine ⟨{ s with cur := s.cur + 1 }, ?_, ⟨holds.out, holds.outPos⟩, rfl⟩
      apply Loop.exec_done
      change Turn.ofExcept (decodeTurn pkt s) = _
      rw [decodeTurn_root nul]
      rfl
  | @label off jumps next label name b first length nonempty short bytes rest
      induction =>
      subst here
      have grown := le_foldl_extend name (extend text label)
      have grows := le_extend_length text label
      rw [List.foldl_cons] at room ⊢
      have fits : text.length + label.length + 1 < buf.length := by omega
      have inside := window_inside nonempty bytes
      obtain ⟨last, ends, lastHolds, resume⟩ :=
        induction (s := s.afterLabel text label buf) rfl ⟨rfl, rfl⟩ budget room
      refine ⟨last, ?_, lastHolds, resume⟩
      rw [← ends]
      apply Loop.exec_again
      change Turn.ofExcept (decodeTurn pkt s) = _
      rw [decodeTurn_label first length nonempty short inside bytes holds fits]
      rfl
  | @pointer off target jumps next name hi lo first second mark rest
      induction =>
      subst here
      have jumped : (s.jump target).jumps = s.jumps + 1 := rfl
      obtain ⟨last, ends, lastHolds, resume⟩ :=
        induction (s := s.jump target) rfl ⟨holds.out, holds.outPos⟩ (by omega)
          room
      refine ⟨last, ?_, lastHolds, resume⟩
      rw [← ends]
      apply Loop.exec_again
      change Turn.ofExcept (decodeTurn pkt s) = _
      rw [decodeTurn_pointer first second mark (by omega) rest.inside.1]
      rfl

theorem NameAt.dotted_eq :
    dotted name = name.foldl extend [] :=
  dotted_eq_foldl fun label one => (held.labels label one).1

theorem NameAt.decodeDnsName_eq (budget : jumps ≤ maxNameJumps)
    (room : (dotted name).length + 2 ≤ buf.length) :
    decodeDnsName pkt off buf =
      .ok (next, overlay (dotted name ++ [0]) buf) := by
  rw [held.dotted_eq] at room ⊢
  have start : Decoding.Holds { cur := off, out := buf } [] buf := ⟨rfl, rfl⟩
  obtain ⟨last, ends, holds, resume⟩ :=
    held.exec rfl start (by rw [Nat.zero_add]; exact budget) room
  rw [decodeDnsName, ends]
  simp only [bind, Except.bind, holds.out, holds.outPos]
  rw [store_overlay 0 rfl (by omega)]
  simp only [pure, Except.pure, resume, Bool.false_eq_true, if_false]

end

end

end MdnsResolve
