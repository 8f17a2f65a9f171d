import Hnc.Lib.Buffers
import Hnc.Lib.Netlink

/-!
# The requests of `hnc_tc_ingress`

`addattr_l`, `addattr_nest` and `addattr_nest_end` put attributes behind a
message in a buffer.  The length of a nest is written when the nest is closed,
from the length that the message has by then.  Until then the nest reads as an
empty attribute with its contents behind it.
-/

namespace Hnc.TcIngress

open Buffers Netlink

/-- The arguments `data` and `alen`; a null pointer may come with any length. -/
inductive Data where
  | null (alen : UInt64)
  | bytes (content : List UInt8) (small : content.length < 2 ^ 64)

def Data.alen : Data → UInt64
  | .null alen => alen
  | .bytes content _ => UInt64.ofNat content.length

/-- The data of the attribute, which are zeros where nothing is copied. -/
def Data.content : Data → List UInt8
  | .null alen => List.replicate alen.toNat 0
  | .bytes content _ => content

/-- `NLMSG_ALIGN` of an `uint32_t`. -/
def nlmsgAlign (len : UInt32) : UInt32 :=
  (len + 4 - 1) &&& ~~~(4 - 1)

/-- `RTA_ALIGN` of a `size_t`.  `RTA_ALIGNTO` is `4U`, so that the mask has 32
bits. -/
def rtaAlign (len : UInt64) : UInt64 :=
  (len + 4 - 1) &&& (~~~(4 - 1) : UInt32).toUInt64

/-- `RTA_LENGTH`. -/
def rtaLength (len : UInt64) : UInt64 :=
  rtaAlign 4 + len

/-- `n->nlmsg_len`. -/
def nlmsgLen (n : List UInt8) : UInt32 :=
  UInt32.ofNat (value (n.take 4))

/-- `NLMSG_TAIL`, as an offset. -/
def nlmsgTail (n : List UInt8) : Nat :=
  (nlmsgAlign (nlmsgLen n)).toNat

/-- Assign to a field of a structure in the buffer. -/
def putField (n : List UInt8) (off : Nat) (field : List UInt8) :
    Except Stop (List UInt8) :=
  copy n off field 0 field.length

/-- `(unsigned short)type`. -/
def low (type : Int32) : UInt16 :=
  type.toUInt32.toUInt16

def putData (n : List UInt8) (off : Nat) : Data → Except Stop (List UInt8)
  | .null _ => .ok n
  | .bytes content _ =>
      if 0 < content.length then copy n off content 0 content.length else .ok n

/-- The assignments to `rta`, and the copy of the data behind it. -/
def putAttr (n : List UInt8) (rta : Nat) (type : Int32) (len : UInt64)
    (data : Data) : Except Stop (List UInt8) := do
  let n ← putField n (rta + 2) (lowFirst 2 (low type).toNat)
  let n ← putField n rta (lowFirst 2 len.toUInt16.toNat)
  putData n (rta + 4) data

/-- `addattr_l`, with what it returns. -/
def addattrL (n : List UInt8) (maxlen : UInt64) (type : Int32) (data : Data) :
    Except Stop (List UInt8 × Int32) :=
  let len := rtaLength data.alen
  if maxlen < (nlmsgAlign (nlmsgLen n)).toUInt64 + rtaAlign len then
    .ok (n, -1)
  else do
    let n ← putAttr n (nlmsgTail n) type len data
    let next := (nlmsgAlign (nlmsgLen n)).toUInt64 + rtaAlign len
    let n ← putField n 0 (lowFirst 4 next.toUInt32.toNat)
    pure (n, 0)

/-- `addattr_nest`, with the pointer that it returns as an offset. -/
def addattrNest (n : List UInt8) (maxlen : UInt64) (type : Int32) :
    Except Stop (List UInt8 × Option Nat) := do
  let nest := nlmsgTail n
  let (n, rc) ← addattrL n maxlen type (.null 0)
  pure (n, if rc < 0 then none else some nest)

/-- `addattr_nest_end`. -/
def addattrNestEnd (n : List UInt8) (nest : Nat) : Except Stop (List UInt8) :=
  putField n nest
    (lowFirst 2 (UInt16.ofInt ((nlmsgTail n : Int) - nest)).toNat)

inductive Call where
  | add (type : Int32) (data : Data)
  | nest (type : Int32)
  | nestEnd

/-- A nest whose end is still to come: what `addattr_nest` returned, and the
attributes in front of it. -/
structure Frame where
  pointer : Option Nat
  type : Int32
  before : Attrs Int32

/-- The message, and the attributes of the successful calls in the innermost
nest. -/
structure State where
  message : List UInt8
  attrs : Attrs Int32
  opened : List Frame

/-- A caller makes a call.  A nest that could not be opened is not closed. -/
def step (maxlen : UInt64) (s : State) : Call → Except Stop State
  | .add type data => do
      let (message, rc) ← addattrL s.message maxlen type data
      let attrs :=
        if rc < 0 then s.attrs else s.attrs ++ .leaf type data.content .nil
      pure { s with message, attrs }
  | .nest type => do
      let (message, pointer) ← addattrNest s.message maxlen type
      pure ⟨message, .nil, ⟨pointer, type, s.attrs⟩ :: s.opened⟩
  | .nestEnd =>
      match s.opened with
      | [] => pure s
      | ⟨none, _, before⟩ :: opened =>
          pure ⟨s.message, before ++ s.attrs, opened⟩
      | ⟨some nest, type, before⟩ :: opened => do
          let message ← addattrNestEnd s.message nest
          pure ⟨message, before ++ .nest type s.attrs .nil, opened⟩

def run (maxlen : UInt64) (message : List UInt8) (calls : List Call) :
    Except Stop State :=
  calls.foldlM (step maxlen) ⟨message, .nil, []⟩

/-- So many nests are closed, and all that are opened in between. -/
def Brackets : Nat → List Call → Prop
  | depth, [] => depth = 0
  | depth, .add _ _ :: calls => Brackets depth calls
  | depth, .nest _ :: calls => Brackets (depth + 1) calls
  | 0, .nestEnd :: _ => False
  | depth + 1, .nestEnd :: calls => Brackets depth calls

def WellBracketed (calls : List Call) : Prop :=
  Brackets 0 calls

/-- The bytes between the first attribute and the end of the message. -/
def attributesFrom (first : Nat) (n : List UInt8) : List UInt8 :=
  (n.take (nlmsgLen n).toNat).drop first

/-- A zeroed buffer with the header of a message. -/
structure Blank (maxlen : UInt64) (message : List UInt8) : Prop where
  size : message.length = maxlen.toNat
  header : 16 ≤ (nlmsgLen message).toNat
  aligned : 4 ∣ (nlmsgLen message).toNat
  inside : (nlmsgLen message).toNat ≤ maxlen.toNat
  zeroed : ∀ b ∈ message.drop (nlmsgLen message).toNat, b = 0

/-- The mask of `RTA_ALIGN` and `NLMSG_ALIGN`. -/
theorem and_mask (n : Nat) : n &&& 4294967292 = n % 2 ^ 32 / 4 * 4 := by
  have mask : 4294967292 = (2 ^ 30 - 1) <<< 2 := by decide
  have four : ∀ m : Nat, m / 4 * 4 = (m >>> 2) <<< 2 := by
    intro m
    rw [Nat.shiftLeft_eq, Nat.shiftRight_eq_div_pow]
  rw [mask, four]
  apply Nat.eq_of_testBit_eq
  intro i
  simp only [Nat.testBit_and, Nat.testBit_shiftLeft, Nat.testBit_two_pow_sub_one,
    Nat.testBit_shiftRight, Nat.testBit_mod_two_pow]
  by_cases high : 2 ≤ i
  · have place : 2 + (i - 2) = i := by omega
    have bound : (i - 2 < 30) ↔ i < 32 := by omega
    simp [high, bound, Bool.and_comm]
  · simp [high]

theorem toNat_rtaAlign (len : UInt64) :
    (rtaAlign len).toNat = (len.toNat + 3) % 2 ^ 32 / 4 * 4 := by
  have up : (len + 4 - 1).toNat = (len.toNat + 3) % 2 ^ 64 := by
    rw [UInt64.toNat_sub]
    simp
    omega
  have mask : ((~~~(4 - 1) : UInt32).toUInt64).toNat = 4294967292 := by decide
  rw [rtaAlign, UInt64.toNat_and, up, mask, and_mask,
    Nat.mod_mod_of_dvd _ (by decide)]

theorem toNat_rtaAlign_of_small {len : UInt64} (small : len.toNat + 3 < 2 ^ 32) :
    (rtaAlign len).toNat = align len.toNat := by
  rw [toNat_rtaAlign, Nat.mod_eq_of_lt small, align]

theorem toNat_nlmsgAlign {len : UInt32} (aligned : 4 ∣ len.toNat)
    (small : len.toNat + 3 < 2 ^ 32) : (nlmsgAlign len).toNat = len.toNat := by
  have up : (len + 4 - 1).toNat = len.toNat + 3 := by
    rw [UInt32.toNat_sub]
    simp
    omega
  have mask : (~~~(4 - 1) : UInt32).toNat = 4294967292 := by decide
  rw [nlmsgAlign, UInt32.toNat_and, up, mask, and_mask]
  omega

theorem toNat_rtaLength {len : UInt64} (small : len.toNat + 4 < 2 ^ 64) :
    (rtaLength len).toNat = 4 + len.toNat := by
  have four : (rtaAlign 4).toNat = 4 := by decide
  rw [rtaLength, UInt64.toNat_add]
  omega

theorem Data.length_content (data : Data) :
    data.content.length = data.alen.toNat := by
  cases data with
  | null alen => exact List.length_replicate
  | bytes content small =>
      rw [Data.content, Data.alen, UInt64.toNat_ofNat', Nat.mod_eq_of_lt small]

/-- The message with these attributes and so much room behind them.  `front` is
what stands between `nlmsg_len` and the first attribute. -/
def image (front : List UInt8) (attrs : Attrs UInt16) (room : Nat) :
    List UInt8 :=
  lowFirst 4 (4 + front.length + attrs.bytes.length) ++
    (front ++ (attrs.bytes ++ List.replicate room 0))

/-- The buffer has room for the message, and the header of the message is in
front of the attributes. -/
structure Holds (maxlen : UInt64) (front : List UInt8) (attrs : Attrs UInt16)
    (room : Nat) : Prop where
  size : 4 + front.length + attrs.bytes.length + room = maxlen.toNat
  bounded : maxlen.toNat ≤ 65535
  header : 12 ≤ front.length
  aligned : 4 ∣ front.length

theorem toNat_nlmsgLen {len : Nat} (small : len < 2 ^ 32) (rest : List UInt8) :
    (nlmsgLen (lowFirst 4 len ++ rest)).toNat = len := by
  rw [nlmsgLen, List.take_left' (length_lowFirst 4 len), value_lowFirst small,
    UInt32.toNat_ofNat', Nat.mod_eq_of_lt small]

/-- The data are copied, and a null pointer leaves the zeros. -/
theorem putData_split {front behind : List UInt8} {off : Nat}
    (here : front.length = off) (data : Data) :
    putData (front ++ (List.replicate data.alen.toNat 0 ++ behind)) off data =
      .ok (front ++ (data.content ++ behind)) := by
  have length := data.length_content
  cases data with
  | null alen => rfl
  | bytes content small =>
      rw [Data.content] at length
      rw [putData]
      by_cases some : 0 < content.length
      · rw [if_pos some]
        exact copy_split here (by rw [List.length_replicate, length])
      · have none : content = [] := by
          rw [← List.length_eq_zero_iff]
          omega
        subst none
        rfl

theorem putAttr_split {message behind : List UInt8} {off : Nat}
    (here : message.length = off) (type : Int32) {data : Data}
    (small : 4 + data.alen.toNat < 65536) :
    putAttr (message ++ (List.replicate (4 + align data.alen.toNat) 0 ++ behind))
        off type (rtaLength data.alen) data =
      .ok (message ++ (attr (low type) data.content ++ behind)) := by
  have longer := le_align data.alen.toNat
  have zeros : List.replicate (4 + align data.alen.toNat) (0 : UInt8) =
      List.replicate 2 0 ++ (List.replicate 2 0 ++
        (List.replicate data.alen.toNat 0 ++ padding data.alen.toNat)) := by
    simp only [padding, List.replicate_append_replicate]
    congr 1
    omega
  have len : (rtaLength data.alen).toUInt16.toNat = 4 + data.alen.toNat := by
    rw [UInt64.toNat_toUInt16, toNat_rtaLength (by omega)]
    omega
  have putType : putField (message ++ (List.replicate 2 0 ++
      (List.replicate 2 0 ++ (List.replicate data.alen.toNat 0 ++
        (padding data.alen.toNat ++ behind))))) (off + 2)
      (lowFirst 2 (low type).toNat) =
        .ok (message ++ (List.replicate 2 0 ++ (lowFirst 2 (low type).toNat ++
          (List.replicate data.alen.toNat 0 ++
            (padding data.alen.toNat ++ behind))))) := by
    rw [putField, ← List.append_assoc, copy_split (by simp [here]) (by simp),
      List.append_assoc]
  have putLen : putField (message ++ (List.replicate 2 0 ++
      (lowFirst 2 (low type).toNat ++ (List.replicate data.alen.toNat 0 ++
        (padding data.alen.toNat ++ behind))))) off
      (lowFirst 2 (rtaLength data.alen).toUInt16.toNat) =
        .ok (message ++ (lowFirst 2 (4 + data.alen.toNat) ++
          (lowFirst 2 (low type).toNat ++ (List.replicate data.alen.toNat 0 ++
            (padding data.alen.toNat ++ behind))))) := by
    rw [len]
    exact copy_split here (by simp)
  have head : (message ++ (lowFirst 2 (4 + data.alen.toNat) ++
      lowFirst 2 (low type).toNat)).length = off + 4 := by
    simp [here]
  have putContent := @putData_split _ (padding data.alen.toNat ++ behind) _ head
    data
  simp only [List.append_assoc] at putContent
  rw [putAttr, zeros]
  simp only [List.append_assoc]
  rw [putType]
  dsimp only [bind, Except.bind]
  rw [putLen]
  dsimp only
  rw [putContent]
  simp only [attr, header, data.length_content, List.append_assoc]

variable {n : List UInt8} {data : Data}

section Image

variable {maxlen : UInt64} {front : List UInt8} {attrs : Attrs UInt16}
  {room : Nat}

section

variable (holds : Holds maxlen front attrs room)
include holds

theorem Holds.len :
    (nlmsgLen (image front attrs room)).toNat =
      4 + front.length + attrs.bytes.length := by
  have size := holds.size
  have bounded := holds.bounded
  exact toNat_nlmsgLen (by omega) _

theorem Holds.dvd :
    4 ∣ (nlmsgLen (image front attrs room)).toNat := by
  have bytes := attrs.dvd_length_bytes
  have aligned := holds.aligned
  rw [holds.len]
  omega

theorem Holds.tail :
    nlmsgTail (image front attrs room) =
      4 + front.length + attrs.bytes.length := by
  have size := holds.size
  have bounded := holds.bounded
  have len := holds.len
  rw [nlmsgTail, toNat_nlmsgAlign holds.dvd (by omega), len]

/-- The length of the message behind one more attribute, as it is computed. -/
theorem Holds.next (same : nlmsgLen n = nlmsgLen (image front attrs room))
    (short : data.alen.toNat + 7 < 2 ^ 32) :
    ((nlmsgAlign (nlmsgLen n)).toUInt64 +
        rtaAlign (rtaLength data.alen)).toNat =
      4 + front.length + attrs.bytes.length + (4 + align data.alen.toNat) := by
  have size := holds.size
  have bounded := holds.bounded
  have len := holds.len
  have length : (rtaLength data.alen).toNat = 4 + data.alen.toNat :=
    toNat_rtaLength (by omega)
  have aligned : (rtaAlign (rtaLength data.alen)).toNat =
      4 + align data.alen.toNat := by
    rw [toNat_rtaAlign_of_small (by omega), length, align_four_add]
  have small : align data.alen.toNat < 2 ^ 32 := by
    rw [align]
    omega
  rw [same, UInt64.toNat_add, UInt32.toNat_toUInt64,
    toNat_nlmsgAlign holds.dvd (by omega)]
  omega

theorem addattrL_full (type : Int32) {data : Data}
    (short : data.alen.toNat + 7 < 2 ^ 32)
    (full : room < 4 + align data.alen.toNat) :
    addattrL (image front attrs room) maxlen type data =
      .ok (image front attrs room, -1) := by
  have size := holds.size
  have next := holds.next rfl short
  apply if_pos
  rw [UInt64.lt_iff_toNat_lt]
  omega

theorem Holds.concat (type : UInt16) {data : List UInt8}
    (fits : 4 + align data.length ≤ room) :
    Holds maxlen front (attrs ++ .leaf type data .nil)
      (room - (4 + align data.length)) := by
  have size := holds.size
  refine ⟨?_, holds.bounded, holds.header, holds.aligned⟩
  rw [Attrs.bytes_append, Attrs.bytes, List.length_append, List.length_append,
    length_attr, Attrs.bytes, List.length_nil]
  omega

theorem addattrL_room (type : Int32) {data : Data}
    (short : data.alen.toNat + 7 < 2 ^ 32)
    (fits : 4 + align data.alen.toNat ≤ room) :
    addattrL (image front attrs room) maxlen type data =
      .ok (image front (attrs ++ .leaf (low type) data.content .nil)
        (room - (4 + align data.alen.toNat)), 0) := by
  have size := holds.size
  have bounded := holds.bounded
  have longer := le_align data.alen.toNat
  have next := holds.next rfl short
  let behind := List.replicate (room - (4 + align data.alen.toNat)) (0 : UInt8)
  let message := lowFirst 4 (4 + front.length + attrs.bytes.length) ++
    (front ++ attrs.bytes)
  have zeros : image front attrs room =
      message ++ (List.replicate (4 + align data.alen.toNat) 0 ++ behind) := by
    simp only [image, message, behind, List.append_assoc,
      List.replicate_append_replicate, Nat.add_sub_cancel' fits]
  have here : message.length = nlmsgTail (image front attrs room) := by
    rw [holds.tail]
    simp only [message, List.length_append, length_lowFirst, Nat.add_assoc]
  have put := @putAttr_split message behind _ here type data (by omega)
  rw [← zeros] at put
  have same : nlmsgLen (message ++
      (attr (low type) data.content ++ behind)) =
        nlmsgLen (image front attrs room) := by
    simp only [nlmsgLen, image, message, List.append_assoc,
      List.take_left' (length_lowFirst 4 _)]
  have written := holds.next same short
  have bytes : (attrs ++ .leaf (low type) data.content .nil).bytes =
      attrs.bytes ++ attr (low type) data.content := by
    rw [Attrs.bytes_append, Attrs.bytes, Attrs.bytes, List.append_nil]
  have total : 4 + front.length +
      (attrs.bytes ++ attr (low type) data.content).length =
        4 + front.length + attrs.bytes.length + (4 + align data.alen.toNat) := by
    rw [List.length_append, length_attr, data.length_content]
    omega
  have putNext := @copy_split [] (lowFirst 4 (4 + front.length + attrs.bytes.length))
    (front ++ (attrs.bytes ++ (attr (low type) data.content ++ behind)))
    (lowFirst 4 (4 + front.length + attrs.bytes.length +
      (4 + align data.alen.toNat))) 0 rfl (by simp)
  have small : 4 + front.length + attrs.bytes.length +
      (4 + align data.alen.toNat) < 2 ^ 32 := by
    omega
  rw [addattrL]
  rw [if_neg, put]
  · dsimp only [bind, Except.bind]
    rw [UInt64.toNat_toUInt32, written, Nat.mod_eq_of_lt small, putField, image,
      bytes, total]
    simp only [message, List.append_assoc] at putNext ⊢
    rfl
  · rw [UInt64.lt_iff_toNat_lt]
    omega

theorem addattrNest_room (type : Int32) (fits : 4 ≤ room) :
    addattrNest (image front attrs room) maxlen type =
      .ok (image front (attrs ++ .leaf (low type) [] .nil) (room - 4),
        some (4 + front.length + attrs.bytes.length)) := by
  have added := @addattrL_room _ _ _ _ holds type (.null 0) (by decide) fits
  rw [addattrNest, added, holds.tail]
  rfl

theorem addattrNest_full (type : Int32) (full : room < 4) :
    addattrNest (image front attrs room) maxlen type =
      .ok (image front attrs room, none) := by
  have refused := @addattrL_full _ _ _ _ holds type (.null 0) (by decide) full
  rw [addattrNest, refused]
  rfl

end

/-- The length of a nest is written over the one of an empty attribute. -/
theorem addattrNestEnd_image {before inner : Attrs UInt16} {type : UInt16}
    (holds : Holds maxlen front (before ++ .leaf type [] inner) room) :
    addattrNestEnd (image front (before ++ .leaf type [] inner) room)
        (4 + front.length + before.bytes.length) =
      .ok (image front (before ++ .nest type inner .nil) room) := by
  have size := holds.size
  have bounded := holds.bounded
  have tail := holds.tail
  have nestBytes := Attrs.bytes_nest type inner
  have total : (before ++ .leaf type [] inner).bytes.length =
      before.bytes.length + (4 + inner.bytes.length) := by
    simp only [Attrs.bytes_append, Attrs.bytes_leaf_nil, List.length_append,
      length_header]
  have same : (before ++ .nest type inner .nil).bytes.length =
      before.bytes.length + (4 + inner.bytes.length) := by
    simp only [Attrs.bytes_append, nestBytes, List.length_append, length_header]
  have length : (UInt16.ofInt
      ((nlmsgTail (image front (before ++ .leaf type [] inner) room) : Int) -
        (4 + front.length + before.bytes.length : Nat))).toNat =
          4 + inner.bytes.length := by
    have distance :
        (nlmsgTail (image front (before ++ .leaf type [] inner) room) : Int) -
          (4 + front.length + before.bytes.length : Nat) =
            (4 + inner.bytes.length : Nat) := by
      omega
    rw [UInt16.ofInt, UInt16.toNat_ofNat']
    omega
  have put := @copy_split
    (lowFirst 4 (4 + front.length + (before.bytes.length +
      (4 + inner.bytes.length))) ++ (front ++ before.bytes))
    (lowFirst 2 4)
    (lowFirst 2 type.toNat ++ (inner.bytes ++ List.replicate room 0))
    (lowFirst 2 (4 + inner.bytes.length)) (4 + front.length + before.bytes.length)
    (by simp [Nat.add_assoc]) (by simp)
  rw [addattrNestEnd, length, putField, image, image, total, same,
    Attrs.bytes_append, Attrs.bytes_append, nestBytes, Attrs.bytes_leaf_nil]
  simpa only [header, List.append_assoc] using put

end Image

/-! ### Runs -/

/-- While a nest is open it reads as an empty attribute, with the attributes of
the nest behind it. -/
def Frame.around (frame : Frame) (inner : Attrs Int32) : Attrs Int32 :=
  match frame.pointer with
  | none => frame.before ++ inner
  | some _ => frame.before ++ .leaf frame.type [] inner

def shownIn (opened : List Frame) (inner : Attrs Int32) : Attrs Int32 :=
  opened.foldl (fun inner frame => frame.around inner) inner

/-- The attributes of the message, in which only closed nests are nests. -/
def State.shown (s : State) : Attrs Int32 :=
  shownIn s.opened s.attrs

theorem shownIn_append (opened : List Frame) (attrs behind : Attrs Int32) :
    shownIn opened (attrs ++ behind) = shownIn opened attrs ++ behind := by
  induction opened generalizing attrs with
  | nil => rfl
  | cons frame opened induction =>
      have around : frame.around (attrs ++ behind) =
          frame.around attrs ++ behind := by
        unfold Frame.around
        split
        · rw [Attrs.append_assoc]
        · rw [Attrs.append_assoc, Attrs.leaf_append]
      change shownIn opened (frame.around (attrs ++ behind)) = _
      rw [around, induction]
      rfl

theorem map_shownIn_append (opened : List Frame) (attrs behind : Attrs Int32) :
    (shownIn opened (attrs ++ behind)).map low =
      (shownIn opened attrs).map low ++ behind.map low := by
  rw [shownIn_append, Attrs.map_append]

theorem Holds.close {maxlen : UInt64} {front : List UInt8}
    {before inner : Attrs UInt16} {type : UInt16} {room : Nat}
    (holds : Holds maxlen front (before ++ .leaf type [] inner) room) :
    Holds maxlen front (before ++ .nest type inner .nil) room := by
  have size := holds.size
  refine ⟨?_, holds.bounded, holds.header, holds.aligned⟩
  rw [Attrs.bytes_append, Attrs.bytes_leaf_nil] at size
  rw [Attrs.bytes_append, Attrs.bytes_nest]
  simp only [List.length_append] at size ⊢
  exact size

/-- The pointers to the open nests. -/
def Placed (front : List UInt8) : List Frame → Prop
  | [] => True
  | frame :: opened =>
      (∀ nest ∈ frame.pointer, nest = 4 + front.length +
        ((shownIn opened frame.before).map low).bytes.length) ∧
      Placed front opened

/-- What holds of the message at every call. -/
structure Inv (maxlen : UInt64) (front : List UInt8) (s : State) : Prop where
  message : ∃ room, Holds maxlen front (s.shown.map low) room ∧
    s.message = image front (s.shown.map low) room
  placed : Placed front s.opened

/-- The data are so short that `RTA_ALIGN` computes the aligned length. -/
def Call.Short : Call → Prop
  | .add _ data => data.alen.toNat + 7 < 2 ^ 32
  | .nest _ => True
  | .nestEnd => True

section Runs

variable {maxlen : UInt64} {front : List UInt8} {s : State}

theorem inv_of_image {attrs : Attrs Int32} {opened : List Frame}
    {shown : Attrs UInt16} {room : Nat}
    (same : (shownIn opened attrs).map low = shown)
    (holds : Holds maxlen front shown room) (placed : Placed front opened) :
    Inv maxlen front ⟨image front shown room, attrs, opened⟩ := by
  subst same
  exact ⟨⟨room, holds, rfl⟩, placed⟩

theorem inv_add (inv : Inv maxlen front s) (type : Int32)
    (short : data.alen.toNat + 7 < 2 ^ 32) :
    ∃ next, step maxlen s (.add type data) = .ok next ∧
      Inv maxlen front next := by
  obtain ⟨room, holds, message⟩ := inv.message
  rw [step, message]
  by_cases fits : 4 + align data.alen.toNat ≤ room
  · rw [addattrL_room holds type short fits]
    have shown := map_shownIn_append s.opened s.attrs
      (.leaf type data.content .nil)
    rw [← data.length_content] at fits ⊢
    exact ⟨_, rfl, inv_of_image shown (holds.concat _ fits) inv.placed⟩
  · rw [addattrL_full holds type short (Nat.lt_of_not_le fits)]
    exact ⟨_, rfl, inv_of_image rfl holds inv.placed⟩

theorem inv_nest (inv : Inv maxlen front s) (type : Int32) :
    ∃ next, step maxlen s (.nest type) = .ok next ∧ Inv maxlen front next := by
  obtain ⟨room, holds, message⟩ := inv.message
  rw [step, message]
  by_cases fits : 4 ≤ room
  · rw [addattrNest_room holds type fits]
    have shown := map_shownIn_append s.opened s.attrs (.leaf type [] .nil)
    refine ⟨_, rfl, inv_of_image shown (holds.concat _ fits) ⟨?_, inv.placed⟩⟩
    rintro nest ⟨⟩
    rfl
  · rw [addattrNest_full holds type (Nat.lt_of_not_le fits)]
    have shown : (shownIn s.opened (s.attrs ++ .nil)).map low =
        s.shown.map low := by
      rw [Attrs.append_nil, State.shown]
    refine ⟨_, rfl, inv_of_image shown holds ⟨?_, inv.placed⟩⟩
    rintro nest ⟨⟩

/-- A nest that is closed takes in the attributes behind its header. -/
theorem inv_nestEnd (inv : Inv maxlen front s) :
    ∃ next, step maxlen s .nestEnd = .ok next ∧ Inv maxlen front next := by
  obtain ⟨room, holds, message⟩ := inv.message
  have placed := inv.placed
  obtain ⟨n, attrs, opened⟩ := s
  cases opened with
  | nil => exact ⟨_, rfl, inv⟩
  | cons frame opened =>
      obtain ⟨pointer, type, before⟩ := frame
      cases pointer with
      | none => exact ⟨_, rfl, ⟨room, holds, message⟩, placed.2⟩
      | some nest =>
          have here : nest = 4 + front.length +
              ((shownIn opened before).map low).bytes.length :=
            placed.1 nest rfl
          have whileOpen : (shownIn opened
              (before ++ .leaf type [] attrs)).map low =
                (shownIn opened before).map low ++
                  .leaf (low type) [] (attrs.map low) :=
            map_shownIn_append opened before _
          have closed : (shownIn opened
              (before ++ .nest type attrs .nil)).map low =
                (shownIn opened before).map low ++
                  .nest (low type) (attrs.map low) .nil :=
            map_shownIn_append opened before _
          change Holds maxlen front
            ((shownIn opened (before ++ .leaf type [] attrs)).map low) room at holds
          change n = image front
            ((shownIn opened (before ++ .leaf type [] attrs)).map low) room
              at message
          rw [whileOpen] at holds message
          have ends := addattrNestEnd_image holds
          rw [step]
          dsimp only
          rw [message, here, ends]
          exact ⟨_, rfl, inv_of_image closed holds.close placed.2⟩

theorem inv_step (inv : Inv maxlen front s) {call : Call} (short : call.Short) :
    ∃ next, step maxlen s call = .ok next ∧ Inv maxlen front next := by
  cases call with
  | add type data => exact inv_add inv type short
  | nest type => exact inv_nest inv type
  | nestEnd => exact inv_nestEnd inv

theorem inv_run (inv : Inv maxlen front s) {calls : List Call}
    (short : ∀ call ∈ calls, call.Short) :
    ∃ last, calls.foldlM (step maxlen) s = .ok last ∧ Inv maxlen front last := by
  induction calls generalizing s with
  | nil => exact ⟨s, rfl, inv⟩
  | cons call calls induction =>
      obtain ⟨next, stepped, nextInv⟩ := inv_step inv (short call (by simp))
      obtain ⟨last, reached, lastInv⟩ := induction nextInv fun other member =>
        short other (by simp [member])
      refine ⟨last, ?_, lastInv⟩
      rw [List.foldlM_cons, stepped]
      exact reached

end Runs

section Depth

variable {maxlen : UInt64} {s last next : State} {calls : List Call}

/-- Every call keeps count of the nests that are open. -/
theorem brackets_step {call : Call}
    (brackets : Brackets s.opened.length (call :: calls))
    (stepped : step maxlen s call = .ok next) :
    Brackets next.opened.length calls := by
  cases call with
  | add type data =>
      rw [step] at stepped
      cases added : addattrL s.message maxlen type data with
      | error stop =>
          rw [added] at stepped
          cases stepped
      | ok result =>
          rw [added] at stepped
          cases stepped
          exact brackets
  | nest type =>
      rw [step] at stepped
      cases nested : addattrNest s.message maxlen type with
      | error stop =>
          rw [nested] at stepped
          cases stepped
      | ok result =>
          rw [nested] at stepped
          cases stepped
          exact brackets
  | nestEnd =>
      obtain ⟨message, attrs, opened⟩ := s
      cases opened with
      | nil => exact False.elim brackets
      | cons frame opened =>
          obtain ⟨pointer, type, before⟩ := frame
          cases pointer with
          | none =>
              cases stepped
              exact brackets
          | some nest =>
              rw [step] at stepped
              dsimp only at stepped
              cases ended : addattrNestEnd message nest with
              | error stop =>
                  rw [ended] at stepped
                  cases stepped
              | ok written =>
                  rw [ended] at stepped
                  cases stepped
                  exact brackets

theorem opened_run (brackets : Brackets s.opened.length calls)
    (reached : calls.foldlM (step maxlen) s = .ok last) : last.opened = [] := by
  induction calls generalizing s with
  | nil =>
      cases reached
      exact List.length_eq_zero_iff.mp brackets
  | cons call calls induction =>
      rw [List.foldlM_cons] at reached
      cases stepped : step maxlen s call with
      | error stop =>
          rw [stepped] at reached
          cases reached
      | ok next =>
          rw [stepped] at reached
          exact induction (brackets_step brackets stepped) reached

end Depth

section Reading

variable {maxlen : UInt64} {front message : List UInt8} {room : Nat}

theorem Blank.image (blank : Blank maxlen message)
    (bounded : maxlen.toNat ≤ 65535) :
    ∃ front room, message = image front .nil room ∧
      Holds maxlen front .nil room ∧
      4 + front.length = (nlmsgLen message).toNat := by
  have size := blank.size
  have aligned := blank.aligned
  have inside := blank.inside
  have header := blank.header
  generalize here : (nlmsgLen message).toNat = first at *
  have four : (message.take 4).length = 4 := by
    rw [List.length_take]
    omega
  have len : value (message.take 4) = first := by
    have small : value (message.take 4) < 2 ^ 32 := by
      have bound := value_lt (message.take 4)
      rw [four] at bound
      exact bound
    rw [← here, nlmsgLen, UInt32.toNat_ofNat', Nat.mod_eq_of_lt small]
  have between : ((message.take first).drop 4).length = first - 4 := by
    rw [List.length_drop, List.length_take]
    omega
  have behind : message.drop first = List.replicate (maxlen.toNat - first) 0 := by
    rw [List.eq_replicate_iff]
    have zeroed := blank.zeroed
    rw [here] at zeroed
    refine ⟨?_, zeroed⟩
    rw [List.length_drop, size]
  refine ⟨(message.take first).drop 4, maxlen.toNat - first, ?_, ?_, ?_⟩
  · have start : lowFirst 4 first = message.take 4 := by
      have restored := lowFirst_value (message.take 4)
      rw [four, len] at restored
      exact restored
    have total : 4 + (first - 4) + (Attrs.nil : Attrs UInt16).bytes.length =
        first := by
      rw [Attrs.bytes, List.length_nil]
      omega
    have split : message.take first =
        message.take 4 ++ (message.take first).drop 4 := by
      have short : min 4 first = 4 := by omega
      have cut := List.take_append_drop 4 (message.take first)
      rw [List.take_take, short] at cut
      exact cut.symm
    have whole := List.take_append_drop first message
    rw [split, List.append_assoc] at whole
    rw [TcIngress.image, between, total, start, ← behind]
    exact whole.symm
  · refine ⟨?_, bounded, ?_, ?_⟩
    · rw [Attrs.bytes, List.length_nil]
      omega
    · omega
    · omega
  · omega

theorem attributesFrom_image {attrs : Attrs UInt16}
    (holds : Holds maxlen front attrs room) :
    attributesFrom (4 + front.length) (image front attrs room) = attrs.bytes := by
  have len := holds.len
  have split : image front attrs room =
      (lowFirst 4 (4 + front.length + attrs.bytes.length) ++ front ++
        attrs.bytes) ++ List.replicate room 0 := by
    simp only [image, List.append_assoc]
  have first : (lowFirst 4 (4 + front.length + attrs.bytes.length) ++
      front).length = 4 + front.length := by
    rw [List.length_append, length_lowFirst]
  rw [attributesFrom, len, split, List.take_left', List.drop_left' first]
  rw [List.length_append, first]

theorem Holds.readAs {attrs : Attrs Int32}
    (holds : Holds maxlen front (attrs.map low) room) :
    readAs attrs.shape
      (walk (attributesFrom (4 + front.length)
        (image front (attrs.map low) room))) = some (attrs.map low) := by
  have size := holds.size
  have bounded := holds.bounded
  rw [attributesFrom_image holds, ← attrs.shape_map low]
  exact Attrs.readAs_bytes (by omega)

end Reading

theorem Inv.reads {maxlen : UInt64} {front : List UInt8} {s : State}
    (inv : Inv maxlen front s) :
    4 ∣ (nlmsgLen s.message).toNat ∧
    (nlmsgLen s.message).toNat ≤ maxlen.toNat ∧
    readAs s.shown.shape (walk (attributesFrom (4 + front.length) s.message)) =
      some (s.shown.map low) := by
  obtain ⟨room, holds, message⟩ := inv.message
  have size := holds.size
  have len := holds.len
  rw [message]
  refine ⟨holds.dvd, ?_, holds.readAs⟩
  omega

/-- Nothing is written before the room is known to be enough. -/
theorem addattrL_negative {written : List UInt8} {maxlen : UInt64} {type : Int32}
    {rc : Int32} (called : addattrL n maxlen type data = .ok (written, rc))
    (failed : rc < 0) : written = n := by
  rw [addattrL] at called
  split at called
  · cases called
    rfl
  · cases put : putAttr n (nlmsgTail n) type (rtaLength data.alen) data with
    | error stop =>
        rw [put] at called
        cases called
    | ok behind =>
        rw [put] at called
        dsimp only [bind, Except.bind] at called
        split at called
        · cases called
        · cases called
          exact absurd failed (by decide)

theorem addattrNest_null {written : List UInt8} {maxlen : UInt64} {type : Int32}
    (called : addattrNest n maxlen type = .ok (written, none)) : written = n := by
  rw [addattrNest] at called
  cases added : addattrL n maxlen type (.null 0) with
  | error stop =>
      rw [added] at called
      cases called
  | ok result =>
      obtain ⟨behind, rc⟩ := result
      rw [added] at called
      by_cases failed : rc < 0
      · have same := addattrL_negative added failed
        injection called with pair
        injection pair with left
        rw [← left, same]
      · injection called with pair
        injection pair with _ pointer
        rw [if_neg failed] at pointer
        cases pointer

/-- The attributes of the successful calls are read back as a tree, with the low
16 bits of their types, and a call that fails leaves the message as it was. -/
theorem attributes_are_nested_trees {maxlen : UInt64}
    (bounded : maxlen.toNat ≤ 65535) {message : List UInt8}
    (blank : Blank maxlen message) {calls : List Call}
    (brackets : WellBracketed calls) (short : ∀ call ∈ calls, call.Short) :
    (∃ last, run maxlen message calls = .ok last ∧ last.opened = [] ∧
      readAs last.attrs.shape
          (walk (attributesFrom (nlmsgLen message).toNat last.message)) =
        some (last.attrs.map low)) ∧
    ∀ done, done <+: calls → ∃ s, run maxlen message done = .ok s ∧
      4 ∣ (nlmsgLen s.message).toNat ∧
      (nlmsgLen s.message).toNat ≤ maxlen.toNat ∧
      readAs s.shown.shape
          (walk (attributesFrom (nlmsgLen message).toNat s.message)) =
        some (s.shown.map low) ∧
      (∀ type data n rc, addattrL s.message maxlen type data = .ok (n, rc) →
        rc < 0 → n = s.message) ∧
      ∀ type n, addattrNest s.message maxlen type = .ok (n, none) →
        n = s.message := by
  obtain ⟨front, room, start, holds, first⟩ := blank.image bounded
  have inv : Inv maxlen front ⟨message, .nil, []⟩ :=
    ⟨⟨room, holds, start⟩, trivial⟩
  rw [← first]
  constructor
  · obtain ⟨last, reached, lastInv⟩ := inv_run inv short
    have closed := opened_run (s := ⟨message, .nil, []⟩) brackets reached
    have reads := lastInv.reads.2.2
    rw [State.shown, closed] at reads
    exact ⟨last, reached, closed, reads⟩
  · intro done early
    obtain ⟨s, reached, sInv⟩ := inv_run inv fun call member =>
      short call (early.subset member)
    obtain ⟨aligned, inside, reads⟩ := sInv.reads
    refine ⟨s, reached, aligned, inside, reads, ?_, ?_⟩
    · intro type data n rc called failed
      exact addattrL_negative called failed
    · intro type n called
      exact addattrNest_null called

theorem nest_in_forty_bytes :
    ∃ last, run 40 (lowFirst 4 16 ++ List.replicate 36 0)
        [.nest 2, .add 1 (.bytes [104, 110, 99] (by decide)), .nest 1, .nestEnd,
          .nestEnd, .add 3 (.null 9)] = .ok last ∧
      last.attrs = .nest 2 (.leaf 1 [104, 110, 99] (.nest 1 .nil .nil)) .nil ∧
      readAs last.attrs.shape (walk (attributesFrom 16 last.message)) =
        some (last.attrs.map low) := by
  have blank : Blank 40 (lowFirst 4 16 ++ List.replicate 36 0) :=
    ⟨by decide, by decide, by decide, by decide,
      fun _ => List.eq_of_mem_replicate⟩
  obtain ⟨⟨last, reached, _, reads⟩, _⟩ := attributes_are_nested_trees
    (by decide) blank
    (show WellBracketed [.nest 2, .add 1 (.bytes [104, 110, 99] (by decide)),
      .nest 1, .nestEnd, .nestEnd, .add 3 (.null 9)] from rfl)
    (by simp [Call.Short, Data.alen])
  refine ⟨last, reached, ?_, reads⟩
  cases reached
  rfl

/-- Of a type only the low 16 bits are written. -/
theorem high_type_is_cut :
    Blank 20 (lowFirst 4 16 ++ List.replicate 16 0) ∧
    ∃ last, run 20 (lowFirst 4 16 ++ List.replicate 16 0)
        [.add 65537 (.bytes [] (by decide))] = .ok last ∧
      last.attrs = .leaf 65537 [] .nil ∧
      (readAs last.attrs.shape (walk (attributesFrom 16 last.message))).map
          (Attrs.map fun type => type.toUInt32.toInt32) ≠
        some last.attrs := by
  refine ⟨⟨by decide, by decide, by decide, by decide,
    fun _ => List.eq_of_mem_replicate⟩, _, rfl, rfl, ?_⟩
  decide

/-! ### The request of `install_matchall_filter` -/

/-- `-EMSGSIZE`. -/
def emsgsize : Int32 :=
  -90

/-- The string `"mirred"`, with its NUL. -/
def mirredKind : Data :=
  .bytes [109, 105, 114, 114, 101, 100, 0] (by decide)

/-- The string `"matchall"`, with its NUL. -/
def matchallKind : Data :=
  .bytes [109, 97, 116, 99, 104, 97, 108, 108, 0] (by decide)

/-- `struct tc_mirred`: `index`, `capab`, `action`, `refcnt`, `bindcnt`,
`eaction`, `ifindex`. -/
def tcMirred (ifbIfindex : Int32) : List UInt8 :=
  [0, 0, 4, 0, 0, 1, ifbIfindex.toUInt32.toNat].flatMap (lowFirst 4)

theorem length_tcMirred (ifbIfindex : Int32) : (tcMirred ifbIfindex).length = 28 :=
  rfl

def mirredParms (ifbIfindex : Int32) : Data :=
  .bytes (tcMirred ifbIfindex) (by rw [length_tcMirred]; decide)

def appendMirredAction (n : List UInt8) (maxlen : UInt64) (ifbIfindex : Int32) :
    Except Stop (List UInt8 × Int32) := do
  let (n, rc) ← addattrL n maxlen 1 mirredKind
  if rc < 0 then
    pure (n, emsgsize)
  else
    -- `TCA_ACT_OPTIONS | NLA_F_NESTED`
    match ← addattrNest n maxlen (2 ||| 0x8000) with
    | (n, none) => pure (n, emsgsize)
    | (n, some actOpts) => do
        let (n, rc) ← addattrL n maxlen 2 (mirredParms ifbIfindex)
        if rc < 0 then
          pure (n, emsgsize)
        else
          let n ← addattrNestEnd n actOpts
          pure (n, 0)

/-- `install_matchall_filter` up to `rtnl_send_ack`. -/
def matchallAttrs (n : List UInt8) (maxlen : UInt64) (ifbIfindex : Int32) :
    Except Stop (List UInt8 × Int32) := do
  let (n, rc) ← addattrL n maxlen 1 matchallKind
  if rc < 0 then
    pure (n, emsgsize)
  else
    match ← addattrNest n maxlen 2 with
    | (n, none) => pure (n, emsgsize)
    | (n, some options) =>
      match ← addattrNest n maxlen 2 with
      | (n, none) => pure (n, emsgsize)
      | (n, some maAct) =>
        match ← addattrNest n maxlen 1 with
        | (n, none) => pure (n, emsgsize)
        | (n, some act1) => do
          let (n, rc) ← appendMirredAction n maxlen ifbIfindex
          if rc < 0 then
            pure (n, rc)
          else
            let n ← addattrNestEnd n act1
            let n ← addattrNestEnd n maAct
            let n ← addattrNestEnd n options
            pure (n, 0)

/-- The attributes of the action. -/
def mirredTree (ifbIfindex : Int32) : Attrs UInt16 :=
  .leaf 1 mirredKind.content
    (.nest 0x8002 (.leaf 2 (tcMirred ifbIfindex) .nil) .nil)

/-- The attributes of the request. -/
def matchallTree (ifbIfindex : Int32) : Attrs UInt16 :=
  .leaf 1 matchallKind.content
    (.nest 2 (.nest 2 (.nest 1 (mirredTree ifbIfindex) .nil) .nil) .nil)

section Request

variable {maxlen : UInt64} {front : List UInt8} {attrs : Attrs UInt16}

theorem Holds.add {size left : Nat}
    (holds : Holds maxlen front attrs (size + left)) (type : Int32) {data : Data}
    (short : data.alen.toNat + 7 < 2 ^ 32)
    (takes : 4 + align data.alen.toNat = size) :
    addattrL (image front attrs (size + left)) maxlen type data =
        .ok (image front (attrs ++ .leaf (low type) data.content .nil) left, 0) ∧
      Holds maxlen front (attrs ++ .leaf (low type) data.content .nil) left := by
  have added := addattrL_room holds type short (by omega)
  have rest : 4 + align data.content.length = size := by
    rw [data.length_content, takes]
  have more := holds.concat (low type) (Nat.le_trans (Nat.le_of_eq rest)
    (Nat.le_add_right size left))
  rw [takes, Nat.add_sub_cancel_left] at added
  rw [rest, Nat.add_sub_cancel_left] at more
  exact ⟨added, more⟩

theorem Holds.nest {left : Nat} (holds : Holds maxlen front attrs (4 + left))
    (type : Int32) :
    addattrNest (image front attrs (4 + left)) maxlen type =
        .ok (image front (attrs ++ .leaf (low type) [] .nil) left,
          some (4 + front.length + attrs.bytes.length)) ∧
      Holds maxlen front (attrs ++ .leaf (low type) [] .nil) left := by
  have nested := addattrNest_room holds type (Nat.le_add_right 4 left)
  have more := holds.concat (low type)
    (show 4 + align ([] : List UInt8).length ≤ 4 + left from
      Nat.le_add_right 4 left)
  rw [Nat.add_sub_cancel_left] at nested
  exact ⟨nested, by simpa [align] using more⟩

theorem Holds.nestEnd {type : UInt16} {inner : Attrs UInt16} {room : Nat}
    (holds : Holds maxlen front (attrs ++ .leaf type [] .nil ++ inner) room) :
    addattrNestEnd (image front (attrs ++ .leaf type [] .nil ++ inner) room)
        (4 + front.length + attrs.bytes.length) =
        .ok (image front (attrs ++ .nest type inner .nil) room) ∧
      Holds maxlen front (attrs ++ .nest type inner .nil) room := by
  rw [Attrs.append_assoc] at holds ⊢
  exact ⟨addattrNestEnd_image holds, holds.close⟩

theorem appendMirredAction_image {left : Nat}
    (holds : Holds maxlen front attrs (48 + left)) (ifbIfindex : Int32) :
    appendMirredAction (image front attrs (48 + left)) maxlen ifbIfindex =
        .ok (image front (attrs ++ mirredTree ifbIfindex) left, 0) ∧
      Holds maxlen front (attrs ++ mirredTree ifbIfindex) left := by
  have split : 48 + left = 12 + (4 + (32 + left)) := by omega
  rw [split] at holds ⊢
  obtain ⟨kind, holds⟩ := @Holds.add _ _ _ _ _ holds 1 mirredKind (by decide)
    (by decide)
  obtain ⟨actOpts, holds⟩ := holds.nest (2 ||| 0x8000)
  have alen : (mirredParms ifbIfindex).alen.toNat = 28 := rfl
  obtain ⟨parms, holds⟩ := @Holds.add _ _ _ _ _ holds 2 (mirredParms ifbIfindex)
    (by omega) (by rw [alen]; rfl)
  obtain ⟨ended, holds⟩ := holds.nestEnd
  have tree : attrs ++ .leaf (low 1) mirredKind.content .nil ++
      .nest (low (2 ||| 0x8000))
        (.leaf (low 2) (mirredParms ifbIfindex).content .nil) .nil =
      attrs ++ mirredTree ifbIfindex := by
    rw [Attrs.append_assoc]
    rfl
  rw [tree] at ended holds
  refine ⟨?_, holds⟩
  rw [appendMirredAction, kind]
  dsimp only [bind, Except.bind]
  rw [if_neg (by decide), actOpts]
  dsimp only
  rw [parms]
  dsimp only
  rw [if_neg (by decide), ended]
  rfl

theorem matchallAttrs_image {left : Nat}
    (holds : Holds maxlen front attrs (76 + left)) (ifbIfindex : Int32) :
    matchallAttrs (image front attrs (76 + left)) maxlen ifbIfindex =
        .ok (image front (attrs ++ matchallTree ifbIfindex) left, 0) ∧
      Holds maxlen front (attrs ++ matchallTree ifbIfindex) left := by
  have split : 76 + left = 16 + (4 + (4 + (4 + (48 + left)))) := by omega
  rw [split] at holds ⊢
  obtain ⟨kind, holds⟩ := @Holds.add _ _ _ _ _ holds 1 matchallKind (by decide)
    (by decide)
  obtain ⟨options, holds⟩ := holds.nest 2
  obtain ⟨maAct, holds⟩ := holds.nest 2
  obtain ⟨act1, holds⟩ := holds.nest 1
  obtain ⟨action, holds⟩ := appendMirredAction_image holds ifbIfindex
  obtain ⟨endAct1, holds⟩ := holds.nestEnd
  obtain ⟨endMaAct, holds⟩ := holds.nestEnd
  obtain ⟨endOptions, holds⟩ := holds.nestEnd
  have tree : attrs ++ .leaf (low 1) matchallKind.content .nil ++
      .nest (low 2) (.nest (low 2) (.nest (low 1) (mirredTree ifbIfindex) .nil)
        .nil) .nil = attrs ++ matchallTree ifbIfindex := by
    rw [Attrs.append_assoc]
    rfl
  rw [tree] at endOptions holds
  refine ⟨?_, holds⟩
  rw [matchallAttrs, kind]
  dsimp only [bind, Except.bind]
  rw [if_neg (by decide), options]
  dsimp only
  rw [maAct]
  dsimp only
  rw [act1]
  dsimp only
  rw [action]
  dsimp only
  rw [if_neg (by decide), endAct1]
  dsimp only
  rw [endMaAct]
  dsimp only
  rw [endOptions]
  rfl

end Request

/-- `nlmsg_type`, `nlmsg_flags`, `nlmsg_seq`, `nlmsg_pid` and `struct tcmsg`. -/
def matchallHeader (ifaceIfindex prio : Int32) : List UInt8 :=
  let tcmInfo := (prio.toUInt32 <<< 16 &&& 0xFFFF0000) ||| 0x0300
  [44, 0x605].flatMap (lowFirst 2) ++
    [0, 0, 0, ifaceIfindex.toUInt32.toNat, 0, 0xFFFFFFF2,
      tcmInfo.toNat].flatMap (lowFirst 4)

/-- `req` before the first attribute; `buf` is zeroed. -/
def matchallRequest (ifaceIfindex prio : Int32) : List UInt8 :=
  lowFirst 4 36 ++
    (matchallHeader ifaceIfindex prio ++ List.replicate 1024 0)

theorem length_matchallHeader (ifaceIfindex prio : Int32) :
    (matchallHeader ifaceIfindex prio).length = 32 :=
  rfl

theorem holds_matchallHeader (ifaceIfindex prio : Int32) :
    Holds 1060 (matchallHeader ifaceIfindex prio) .nil 1024 := by
  have length := length_matchallHeader ifaceIfindex prio
  refine ⟨?_, by decide, ?_, ?_⟩
  · rw [length]
    rfl
  · omega
  · omega

/-- The request never runs out of room, and has the tree that its comment
shows. -/
theorem request_reads_back (ifaceIfindex prio ifbIfindex : Int32) :
    ∃ n, matchallAttrs (matchallRequest ifaceIfindex prio) 1060 ifbIfindex =
        .ok (n, 0) ∧
      (nlmsgLen n).toNat = 112 ∧
      readAs (matchallTree ifbIfindex).shape (walk (attributesFrom 36 n)) =
        some (matchallTree ifbIfindex) := by
  have length := length_matchallHeader ifaceIfindex prio
  have start : matchallRequest ifaceIfindex prio =
      image (matchallHeader ifaceIfindex prio) .nil (76 + 948) := by
    rw [matchallRequest, image, length]
    rfl
  have holds := holds_matchallHeader ifaceIfindex prio
  obtain ⟨built, after⟩ := @matchallAttrs_image _ _ _ 948 holds ifbIfindex
  rw [Attrs.nil_append] at built after
  have bytes : (matchallTree ifbIfindex).bytes.length = 76 := by
    have size := after.size
    have whole : (1060 : UInt64).toNat = 1060 := rfl
    omega
  have len := after.len
  have found := attributesFrom_image after
  rw [length] at len found
  refine ⟨_, by rw [start]; exact built, ?_, ?_⟩
  · rw [len, bytes]
  · rw [found]
    exact Attrs.readAs_bytes (by omega)

/-- The mask has 32 bits, so that longer data get through the check, and their
copy leaves the buffer. -/
theorem addattrL_long {maxlen : UInt64} {front : List UInt8}
    {attrs : Attrs UInt16} {room : Nat} (holds : Holds maxlen front attrs room)
    (type : Int32) {content : List UInt8} {small : content.length < 2 ^ 64}
    (long : 2 ^ 32 ≤ content.length + 7)
    (wraps : (content.length + 7) % 2 ^ 32 ≤ room) :
    addattrL (image front attrs room) maxlen type (.bytes content small) =
      .error .outside := by
  have size := holds.size
  have bounded := holds.bounded
  have aligned := holds.dvd
  have len := holds.len
  have alen : (Data.bytes content small).alen.toNat = content.length := by
    rw [← Data.length_content]
    rfl
  have length : (rtaLength (Data.bytes content small).alen).toNat =
      (4 + content.length) % 2 ^ 64 := by
    have four : (rtaAlign 4).toNat = 4 := by decide
    rw [rtaLength, UInt64.toNat_add, four, alen]
  have behind : (image front attrs room).length = maxlen.toNat := by
    rw [← size, image]
    simp only [List.length_append, length_lowFirst, List.length_replicate]
    omega
  have passes : ¬maxlen < (nlmsgAlign (nlmsgLen (image front attrs room))).toUInt64 +
      rtaAlign (rtaLength (Data.bytes content small).alen) := by
    rw [UInt64.lt_iff_toNat_lt, UInt64.toNat_add, UInt32.toNat_toUInt64,
      toNat_nlmsgAlign aligned (by omega), len, toNat_rtaAlign, length]
    omega
  have put : putAttr (image front attrs room)
      (nlmsgTail (image front attrs room)) type
      (rtaLength (Data.bytes content small).alen) (.bytes content small) =
        .error .outside := by
    rw [putAttr, putField]
    obtain left | ⟨typed, written, sameLength⟩ := copy_cases
      (image front attrs room) (nlmsgTail (image front attrs room) + 2)
      (lowFirst 2 (low type).toNat) 0 (lowFirst 2 (low type).toNat).length
    · rw [left]
      rfl
    · rw [written]
      dsimp only [bind, Except.bind]
      rw [putField]
      obtain left | ⟨sized, also, lengthToo⟩ := copy_cases typed
        (nlmsgTail (image front attrs room))
        (lowFirst 2 (rtaLength (Data.bytes content small).alen).toUInt16.toNat) 0
        (lowFirst 2
          (rtaLength (Data.bytes content small).alen).toUInt16.toNat).length
      · rw [left]
      · rw [also]
        dsimp only
        rw [putData, if_pos (by omega), copy, if_neg]
        omega
  rw [addattrL]
  dsimp only
  rw [if_neg passes, put]
  rfl

theorem addattrL_long_zeros :
    addattrL (image (matchallHeader 1 2) .nil 1024) 1060 1
        (.bytes (List.replicate (2 ^ 32 - 7) 0)
          (by rw [List.length_replicate]; omega)) = .error .outside := by
  apply addattrL_long (holds_matchallHeader 1 2)
  · rw [List.length_replicate]
    omega
  · rw [List.length_replicate]
    omega

end Hnc.TcIngress
