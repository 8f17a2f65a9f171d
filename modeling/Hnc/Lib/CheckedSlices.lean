import Hnc.Lib.BigEndian

/-!
# Slices whose bounds are checked

An index or a slice outside a list of bytes is a fault, which ends the
computation.
-/

namespace CheckedSlices

open BigEndian

inductive Fault where
  | index (i length : Nat)
  | slice (lo hi length : Nat)
deriving DecidableEq, Repr

abbrev Checked := Except Fault

/-- `b[i]`. -/
def index (b : List UInt8) (i : Nat) : Checked UInt8 :=
  match b[i]? with
  | some byte => .ok byte
  | none => .error (.index i b.length)

/-- `b[lo:hi]`. -/
def slice (b : List UInt8) (lo hi : Nat) : Checked (List UInt8) :=
  if lo ≤ hi ∧ hi ≤ b.length then .ok ((b.take hi).drop lo)
  else .error (.slice lo hi b.length)

/-- `b[lo:]`, for a loop that goes on with it. -/
def restFrom (b : List UInt8) (lo : Nat) :
    Checked { rest : List UInt8 // rest.length + lo = b.length } :=
  if inside : lo ≤ b.length then
    .ok ⟨b.drop lo, by rw [List.length_drop, Nat.sub_add_cancel inside]⟩
  else .error (.slice lo b.length b.length)

/-- `b[lo:]`. -/
def sliceFrom (b : List UInt8) (lo : Nat) : Checked (List UInt8) := do
  let rest ← restFrom b lo
  pure rest.val

/-- `b[:hi]`. -/
def sliceTo (b : List UInt8) (hi : Nat) : Checked (List UInt8) :=
  slice b 0 hi

/-- `binary.BigEndian.Uint16`. -/
def bigEndianUint16 (b : List UInt8) : Checked Nat := do
  let low ← index b 1
  let high ← index b 0
  pure (high.toNat * 256 + low.toNat)

/-- `binary.BigEndian.Uint32`. -/
def bigEndianUint32 (b : List UInt8) : Checked Nat := do
  let b3 ← index b 3
  let b0 ← index b 0
  let b1 ← index b 1
  let b2 ← index b 2
  pure (((b0.toNat * 256 + b1.toNat) * 256 + b2.toNat) * 256 + b3.toNat)

theorem ok_bind {α β : Type} (a : α) (f : α → Checked β) :
    (Except.ok a >>= f) = f a :=
  rfl

/-- The byte at an offset, 0 outside the list. -/
def byteAt (b : List UInt8) (i : Nat) : UInt8 :=
  b[i]?.getD 0

section

variable {b : List UInt8}

theorem index_ok {i : Nat} (inside : i < b.length) :
    index b i = .ok (byteAt b i) := by
  rw [index, byteAt, List.getElem?_eq_getElem inside]
  rfl

variable {lo hi : Nat}

theorem slice_ok (order : lo ≤ hi) (inside : hi ≤ b.length) :
    slice b lo hi = .ok ((b.take hi).drop lo) :=
  if_pos ⟨order, inside⟩

theorem restFrom_ok (inside : lo ≤ b.length) :
    restFrom b lo = .ok
      ⟨b.drop lo, by rw [List.length_drop, Nat.sub_add_cancel inside]⟩ :=
  dif_pos inside

theorem sliceFrom_ok (inside : lo ≤ b.length) :
    sliceFrom b lo = .ok (b.drop lo) := by
  rw [sliceFrom, restFrom_ok inside]
  rfl

theorem sliceTo_ok (inside : hi ≤ b.length) : sliceTo b hi = .ok (b.take hi) :=
  slice_ok (Nat.zero_le hi) inside

theorem window_succ {off : Nat} (inside : off < b.length) (size : Nat) :
    window b off (size + 1) = byteAt b off :: window b (off + 1) size := by
  rw [window, List.drop_eq_getElem_cons inside, List.take_succ_cons, byteAt,
    List.getElem?_eq_getElem inside, Option.getD_some, window]

theorem byteAt_slice {i : Nat} (inside : lo + i < hi) :
    byteAt ((b.take hi).drop lo) i = byteAt b (lo + i) := by
  rw [byteAt, byteAt, List.getElem?_drop, List.getElem?_take_of_lt inside]

theorem toNat_byteAt {off : Nat} (inside : off < b.length) :
    (byteAt b off).toNat = uint8 b off := by
  rw [uint8, window_succ inside 0]
  exact (Nat.zero_add _).symm

/-- A field of two bytes inside the list. -/
theorem uint16_ok (two : hi = lo + 2) (inside : hi ≤ b.length) :
    (slice b lo hi >>= bigEndianUint16) = .ok (uint16 b lo) := by
  have length : ((b.take hi).drop lo).length = 2 := by
    rw [List.length_drop, List.length_take]
    omega
  rw [slice_ok (by omega) inside, ok_bind, bigEndianUint16,
    index_ok (by omega), ok_bind, index_ok (by omega), ok_bind,
    byteAt_slice (by omega), byteAt_slice (by omega), uint16,
    window_succ (by omega), window_succ (by omega)]
  simp [value]
  rfl

theorem uint32_ok (four : hi = lo + 4) (inside : hi ≤ b.length) :
    (slice b lo hi >>= bigEndianUint32) = .ok (uint32 b lo) := by
  have length : ((b.take hi).drop lo).length = 4 := by
    rw [List.length_drop, List.length_take]
    omega
  rw [slice_ok (by omega) inside, ok_bind, bigEndianUint32,
    index_ok (by omega), ok_bind, index_ok (by omega), ok_bind,
    index_ok (by omega), ok_bind, index_ok (by omega), ok_bind,
    byteAt_slice (by omega), byteAt_slice (by omega),
    byteAt_slice (by omega), byteAt_slice (by omega), uint32,
    window_succ (by omega), window_succ (by omega), window_succ (by omega),
    window_succ (by omega)]
  simp [value]
  rfl

end

end CheckedSlices
