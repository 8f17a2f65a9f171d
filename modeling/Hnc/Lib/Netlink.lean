import Mathlib.Algebra.Group.Nat.Defs
import Mathlib.Data.List.Basic
import Mathlib.Tactic.Common

/-!
# Netlink attributes

An attribute is its length and its type, 16 bits each with the low byte first,
and its data, padded to a multiple of four bytes.  The length counts the header
but not the padding.  The data of a nest are attributes again; nothing in the
bytes tells a nest from other data, so that a reader has to know the nests.
-/

namespace Netlink

def lowFirst : Nat → Nat → List UInt8
  | 0, _ => []
  | size + 1, n => UInt8.ofNat n :: lowFirst size (n / 256)

def value : List UInt8 → Nat
  | [] => 0
  | b :: bytes => b.toNat + 256 * value bytes

@[simp]
theorem length_lowFirst (size n : Nat) : (lowFirst size n).length = size := by
  induction size generalizing n with
  | zero => rfl
  | succ size induction => rw [lowFirst, List.length_cons, induction]

theorem value_lowFirst {size n : Nat} (small : n < 256 ^ size) :
    value (lowFirst size n) = n := by
  induction size generalizing n with
  | zero =>
      rw [Nat.pow_zero, Nat.lt_one_iff] at small
      rw [small]
      rfl
  | succ size induction =>
      have rest : n / 256 < 256 ^ size := by
        apply Nat.div_lt_of_lt_mul
        rw [← Nat.pow_succ']
        exact small
      rw [lowFirst, value, induction rest]
      exact Nat.mod_add_div n 256

theorem value_lt (bytes : List UInt8) : value bytes < 256 ^ bytes.length := by
  induction bytes with
  | nil => exact Nat.one_pos
  | cons b bytes induction =>
      have byte := b.toNat_lt
      rw [value, List.length_cons, Nat.pow_succ]
      omega

theorem lowFirst_value (bytes : List UInt8) :
    lowFirst bytes.length (value bytes) = bytes := by
  induction bytes with
  | nil => rfl
  | cons b bytes induction =>
      have byte := b.toNat_lt
      have first : UInt8.ofNat (b.toNat + 256 * value bytes) = b := by
        apply UInt8.toNat_inj.mp
        rw [UInt8.toNat_ofNat']
        omega
      have rest : (b.toNat + 256 * value bytes) / 256 = value bytes := by omega
      rw [List.length_cons, value, lowFirst, first, rest, induction]

/-- The next multiple of four. -/
def align (n : Nat) : Nat :=
  (n + 3) / 4 * 4

theorem dvd_align (n : Nat) : 4 ∣ align n :=
  Nat.dvd_mul_left 4 _

theorem le_align (n : Nat) : n ≤ align n := by
  rw [align]
  omega

theorem align_of_dvd {n : Nat} (aligned : 4 ∣ n) : align n = n := by
  rw [align]
  omega

theorem align_four_add (n : Nat) : align (4 + n) = 4 + align n := by
  rw [align, align]
  omega

/-- The bytes behind the data of an attribute. -/
def padding (n : Nat) : List UInt8 :=
  List.replicate (align n - n) 0

theorem padding_of_dvd {n : Nat} (aligned : 4 ∣ n) : padding n = [] := by
  rw [padding, align_of_dvd aligned, Nat.sub_self]
  rfl

/-- `rta_len` and `rta_type`. -/
def header (length : Nat) (type : UInt16) : List UInt8 :=
  lowFirst 2 length ++ lowFirst 2 type.toNat

@[simp]
theorem length_header (length : Nat) (type : UInt16) :
    (header length type).length = 4 := by
  rw [header, List.length_append, length_lowFirst, length_lowFirst]

def attr (type : UInt16) (data : List UInt8) : List UInt8 :=
  header (4 + data.length) type ++ (data ++ padding data.length)

theorem length_attr (type : UInt16) (data : List UInt8) :
    (attr type data).length = 4 + align data.length := by
  have longer := le_align data.length
  simp only [attr, padding, List.length_append, length_header,
    List.length_replicate]
  omega

/-- An attribute that a reader finds. -/
structure Found where
  type : UInt16
  data : List UInt8
deriving DecidableEq

def rtaLen (bytes : List UInt8) : Nat :=
  value (bytes.take 2)

def rtaType (bytes : List UInt8) : UInt16 :=
  UInt16.ofNat (value ((bytes.drop 2).take 2))

/-- `RTA_OK`. -/
def rtaOk (bytes : List UInt8) : Bool :=
  4 ≤ bytes.length ∧ 4 ≤ rtaLen bytes ∧ rtaLen bytes ≤ bytes.length

/-- The loop with `RTA_OK` and `RTA_NEXT`, for so many turns at most. -/
def walkFor : Nat → List UInt8 → List Found
  | 0, _ => []
  | turns + 1, bytes =>
      if rtaOk bytes then
        ⟨rtaType bytes, (bytes.take (rtaLen bytes)).drop 4⟩ ::
          walkFor turns (bytes.drop (align (rtaLen bytes)))
      else []

def walk (bytes : List UInt8) : List Found :=
  walkFor bytes.length bytes

/-- Every turn takes bytes, so that turns that are left over change nothing. -/
theorem walkFor_eq_walk {turns : Nat} {bytes : List UInt8}
    (enough : bytes.length ≤ turns) : walkFor turns bytes = walk bytes := by
  have stable : ∀ {left other : Nat} {rest : List UInt8}, rest.length ≤ left →
      rest.length ≤ other → walkFor left rest = walkFor other rest := by
    intro left
    induction left with
    | zero =>
        intro other rest short _
        cases other with
        | zero => rfl
        | succ other =>
            have few : ¬rtaOk rest = true := by
              simp only [rtaOk, decide_eq_true_eq]
              omega
            rw [walkFor, walkFor, if_neg few]
    | succ left induction =>
        intro other rest short also
        rw [walkFor]
        by_cases ok : rtaOk rest = true
        · have lengths := ok
          simp only [rtaOk, decide_eq_true_eq] at lengths
          have step := le_align (rtaLen rest)
          cases other with
          | zero => omega
          | succ other =>
              rw [walkFor, if_pos ok, if_pos ok]
              congr 1
              apply induction <;> rw [List.length_drop] <;> omega
        · rw [if_neg ok]
          cases other with
          | zero => rfl
          | succ other => rw [walkFor, if_neg ok]
  exact stable enough (Nat.le_refl _)

theorem walk_nil : walk [] = [] :=
  rfl

/-- A reader finds the attribute that stands in front. -/
theorem walk_attr (type : UInt16) {data : List UInt8}
    (short : 4 + data.length < 65536) (rest : List UInt8) :
    walk (attr type data ++ rest) = ⟨type, data⟩ :: walk rest := by
  have text : attr type data ++ rest =
      lowFirst 2 (4 + data.length) ++ (lowFirst 2 type.toNat ++
        (data ++ (padding data.length ++ rest))) := by
    simp only [attr, header, List.append_assoc]
  have length : rtaLen (attr type data ++ rest) = 4 + data.length := by
    rw [rtaLen, text, List.take_left' (length_lowFirst 2 _)]
    exact value_lowFirst short
  have kind : rtaType (attr type data ++ rest) = type := by
    rw [rtaType, text, List.drop_left' (length_lowFirst 2 _),
      List.take_left' (length_lowFirst 2 _), value_lowFirst type.toNat_lt,
      UInt16.ofNat_toNat]
  have total : (attr type data ++ rest).length =
      4 + align data.length + rest.length := by
    rw [List.length_append, length_attr]
  have longer := le_align data.length
  have ok : rtaOk (attr type data ++ rest) = true := by
    simp only [rtaOk, decide_eq_true_eq]
    omega
  have payload : ((attr type data ++ rest).take (4 + data.length)).drop 4 =
      data := by
    have front : (header (4 + data.length) type ++ data).length =
        4 + data.length := by
      rw [List.length_append, length_header]
    have split : attr type data ++ rest =
        (header (4 + data.length) type ++ data) ++
          (padding data.length ++ rest) := by
      simp only [attr, List.append_assoc]
    rw [split, List.take_left' front, List.drop_left' (length_header _ type)]
  have behind : (attr type data ++ rest).drop (align (4 + data.length)) =
      rest := by
    rw [align_four_add]
    exact List.drop_left' (length_attr type data)
  rw [walk, total, show 4 + align data.length + rest.length =
    (3 + align data.length + rest.length) + 1 by omega, walkFor, if_pos ok, length,
    kind, payload, behind, walkFor_eq_walk (by omega)]

/-! ### Trees of attributes -/

/-- Attributes one behind the other, where a nest has attributes of its own. -/
inductive Attrs (Kind : Type) where
  | nil
  | leaf (type : Kind) (data : List UInt8) (rest : Attrs Kind)
  | nest (type : Kind) (inner rest : Attrs Kind)
deriving DecidableEq

/-- Which attributes are nests. -/
inductive Shape where
  | nil
  | leaf (rest : Shape)
  | nest (inner rest : Shape)

/-- The attributes that a reader finds who knows the nests. -/
def readAs : Shape → List Found → Option (Attrs UInt16)
  | .nil, [] => some .nil
  | .leaf rest, first :: found =>
      (readAs rest found).map (.leaf first.type first.data)
  | .nest inner rest, first :: found => do
      let within ← readAs inner (walk first.data)
      let behind ← readAs rest found
      pure (.nest first.type within behind)
  | .nil, _ :: _ => none
  | .leaf _, [] => none
  | .nest _ _, [] => none

namespace Attrs

variable {Kind Other : Type}

def append : Attrs Kind → Attrs Kind → Attrs Kind
  | .nil, behind => behind
  | .leaf type data rest, behind => .leaf type data (rest.append behind)
  | .nest type inner rest, behind => .nest type inner (rest.append behind)

instance : Append (Attrs Kind) :=
  ⟨append⟩

def map (f : Kind → Other) : Attrs Kind → Attrs Other
  | .nil => .nil
  | .leaf type data rest => .leaf (f type) data (rest.map f)
  | .nest type inner rest => .nest (f type) (inner.map f) (rest.map f)

def shape : Attrs Kind → Shape
  | .nil => .nil
  | .leaf _ _ rest => .leaf rest.shape
  | .nest _ inner rest => .nest inner.shape rest.shape

def bytes : Attrs UInt16 → List UInt8
  | .nil => []
  | .leaf type data rest => attr type data ++ rest.bytes
  | .nest type inner rest => attr type inner.bytes ++ rest.bytes

@[simp]
theorem nil_append (behind : Attrs Kind) : .nil ++ behind = behind :=
  rfl

@[simp]
theorem leaf_append (type : Kind) (data : List UInt8)
    (rest behind : Attrs Kind) :
    .leaf type data rest ++ behind = .leaf type data (rest ++ behind) :=
  rfl

@[simp]
theorem nest_append (type : Kind) (inner rest behind : Attrs Kind) :
    .nest type inner rest ++ behind = .nest type inner (rest ++ behind) :=
  rfl

@[simp]
theorem append_nil (attrs : Attrs Kind) : attrs ++ .nil = attrs := by
  induction attrs with
  | nil => rfl
  | leaf type data rest induction => rw [leaf_append, induction]
  | nest type inner rest _ induction => rw [nest_append, induction]

theorem append_assoc (first second third : Attrs Kind) :
    first ++ second ++ third = first ++ (second ++ third) := by
  induction first with
  | nil => rfl
  | leaf type data rest induction =>
      rw [leaf_append, leaf_append, leaf_append, induction]
  | nest type inner rest _ induction =>
      rw [nest_append, nest_append, nest_append, induction]

theorem map_append (f : Kind → Other) (front behind : Attrs Kind) :
    (front ++ behind).map f = front.map f ++ behind.map f := by
  induction front with
  | nil => rfl
  | leaf type data rest induction =>
      rw [leaf_append, map, map, leaf_append, induction]
  | nest type inner rest _ induction =>
      rw [nest_append, map, map, nest_append, induction]

theorem shape_map (f : Kind → Other) (attrs : Attrs Kind) :
    (attrs.map f).shape = attrs.shape := by
  induction attrs with
  | nil => rfl
  | leaf type data rest induction => rw [map, shape, shape, induction]
  | nest type inner rest first second => rw [map, shape, shape, first, second]

theorem bytes_append (front behind : Attrs UInt16) :
    (front ++ behind).bytes = front.bytes ++ behind.bytes := by
  induction front with
  | nil => rfl
  | leaf type data rest induction =>
      rw [leaf_append, bytes, bytes, induction, List.append_assoc]
  | nest type inner rest _ induction =>
      rw [nest_append, bytes, bytes, induction, List.append_assoc]

theorem dvd_length_bytes (attrs : Attrs UInt16) : 4 ∣ attrs.bytes.length := by
  induction attrs with
  | nil => exact Nat.dvd_zero 4
  | leaf type data rest induction =>
      have aligned := dvd_align data.length
      rw [bytes, List.length_append, length_attr]
      omega
  | nest type inner rest _ induction =>
      have aligned := dvd_align inner.bytes.length
      rw [bytes, List.length_append, length_attr]
      omega

/-- A nest is a header in front of the attributes in it. -/
theorem bytes_nest (type : UInt16) (inner : Attrs UInt16) :
    (Attrs.nest type inner .nil).bytes =
      header (4 + inner.bytes.length) type ++ inner.bytes := by
  rw [bytes, attr, padding_of_dvd inner.dvd_length_bytes, bytes,
    List.append_nil, List.append_nil]

theorem bytes_leaf_nil (type : UInt16) (rest : Attrs UInt16) :
    (Attrs.leaf type [] rest).bytes = header 4 type ++ rest.bytes := by
  have empty : padding ([] : List UInt8).length = [] :=
    padding_of_dvd (Nat.dvd_zero 4)
  rfl

/-- A reader who knows the nests finds the tree that was written. -/
theorem readAs_bytes {attrs : Attrs UInt16} (short : attrs.bytes.length < 65536) :
    readAs attrs.shape (walk attrs.bytes) = some attrs := by
  induction attrs with
  | nil => rfl
  | leaf type data rest induction =>
      have longer := le_align data.length
      rw [bytes, List.length_append, length_attr] at short
      rw [shape, bytes, walk_attr type (by omega), readAs, induction (by omega)]
      rfl
  | nest type inner rest within behind =>
      have longer := le_align inner.bytes.length
      rw [bytes, List.length_append, length_attr] at short
      rw [shape, bytes, walk_attr type (by omega), readAs]
      rw [within (by omega), behind (by omega)]
      rfl

end Attrs

end Netlink
