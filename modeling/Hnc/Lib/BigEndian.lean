import Mathlib.Algebra.Group.Nat.Defs
import Mathlib.Data.List.Induction
import Mathlib.Tactic.Common

/-!
# Numbers in network order

The bytes of a packet, read as numbers at an offset.
-/

namespace BigEndian

def value (bytes : List UInt8) : Nat :=
  bytes.foldl (fun sum b => sum * 256 + b.toNat) 0

/-- `bytes[off : off+size]`. -/
def window (bytes : List UInt8) (off size : Nat) : List UInt8 :=
  (bytes.drop off).take size

def uint8 (bytes : List UInt8) (off : Nat) : Nat :=
  value (window bytes off 1)

def uint16 (bytes : List UInt8) (off : Nat) : Nat :=
  value (window bytes off 2)

def uint32 (bytes : List UInt8) (off : Nat) : Nat :=
  value (window bytes off 4)

theorem window_drop (bytes : List UInt8) (start off size : Nat) :
    window (bytes.drop start) off size = window bytes (start + off) size := by
  simp only [window, List.drop_drop]

theorem window_take {bytes : List UInt8} {stop off size : Nat}
    (inside : off + size ≤ stop) :
    window (bytes.take stop) off size = window bytes off size := by
  rw [window, List.drop_take, List.take_take]
  congr 1
  omega

/-- A window over two parts. -/
theorem window_append {bytes first second : List UInt8} {off : Nat}
    (whole : window bytes off (first ++ second).length = first ++ second) :
    window bytes off first.length = first ∧
      window bytes (off + first.length) second.length = second := by
  rw [window, List.length_append, List.take_add] at whole
  have inside : first.length ≤ (bytes.drop off).length := by
    have length := congrArg List.length whole
    simp only [List.length_append, List.length_take]
      at length ⊢
    omega
  have split := List.append_inj whole (List.length_take_of_le inside)
  rw [List.drop_drop] at split
  exact split

theorem window_singleton {bytes : List UInt8} {off : Nat} {b : UInt8}
    (one : window bytes off 1 = [b]) : bytes[off]? = some b := by
  have first := congrArg List.head? one
  rw [window, List.head?_take, List.head?_drop] at first
  exact first

theorem value_lt (bytes : List UInt8) : value bytes < 256 ^ bytes.length := by
  induction bytes using List.reverseRecOn with
  | nil => exact Nat.one_pos
  | append_singleton bytes b induction =>
      have last := b.toNat_lt
      rw [value, List.foldl_append, List.length_append, List.foldl_cons,
        List.foldl_nil, List.length_singleton]
      rw [value] at induction
      omega

theorem value_window_lt (bytes : List UInt8) (off size : Nat) :
    value (window bytes off size) < 256 ^ size := by
  apply Nat.lt_of_lt_of_le (value_lt _)
  apply Nat.pow_le_pow_right (by omega)
  exact List.length_take_le _ _

theorem uint8_lt (bytes : List UInt8) (off : Nat) : uint8 bytes off < 256 :=
  value_window_lt bytes off 1

theorem uint16_lt (bytes : List UInt8) (off : Nat) :
    uint16 bytes off < 65536 :=
  value_window_lt bytes off 2

/-- What is written behind a prefix is found at its length. -/
theorem window_behind (first bytes rest : List UInt8) :
    window (first ++ (bytes ++ rest)) first.length bytes.length = bytes := by
  rw [window, List.drop_left, List.take_left]

def write8 (n : Nat) : List UInt8 :=
  [UInt8.ofNat n]

def write16 (n : Nat) : List UInt8 :=
  [UInt8.ofNat (n / 256), UInt8.ofNat n]

def write24 (n : Nat) : List UInt8 :=
  [UInt8.ofNat (n / 65536), UInt8.ofNat (n / 256), UInt8.ofNat n]

theorem uint8_behind {n off : Nat} (small : n < 256) (first : List UInt8)
    (rest : List UInt8) (here : first.length = off) :
    uint8 (first ++ (write8 n ++ rest)) off = n := by
  have whole := window_behind first (write8 n) rest
  rw [here] at whole
  refine (congrArg value whole).trans ?_
  simp only [write8, value, List.foldl_cons, List.foldl_nil,
    UInt8.toNat_ofNat']
  omega

theorem uint16_behind {n off : Nat} (small : n < 65536) (first : List UInt8)
    (rest : List UInt8) (here : first.length = off) :
    uint16 (first ++ (write16 n ++ rest)) off = n := by
  have whole := window_behind first (write16 n) rest
  rw [here] at whole
  refine (congrArg value whole).trans ?_
  simp only [write16, value, List.foldl_cons, List.foldl_nil,
    UInt8.toNat_ofNat']
  omega

end BigEndian
