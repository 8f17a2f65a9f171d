import Mathlib.Data.List.Range
import Mathlib.Logic.Function.Basic
import Mathlib.Tactic.Common

/-!
# Ring buffers

A queue in an array of `size` cells, with the index of its first entry, the
index behind its last one and the number of its entries.  The cells outside the
queue hold anything.
-/

/-- The array is a function of the index. -/
structure RingBuffer (Item : Type) where
  cells : Nat → Item
  head : Nat
  tail : Nat
  count : Nat

namespace RingBuffer

variable {Item : Type} (size : Nat)

/-- The entries in their order. -/
def contents (ring : RingBuffer Item) : List Item :=
  (List.range ring.count).map fun i => ring.cells ((ring.head + i) % size)

/-- An entry behind the last one, for a ring with room. -/
def push (ring : RingBuffer Item) (item : Item) : RingBuffer Item :=
  ⟨Function.update ring.cells ring.tail item, ring.head,
    (ring.tail + 1) % size, ring.count + 1⟩

/-- The ring without its first entry. -/
def pop (ring : RingBuffer Item) : RingBuffer Item :=
  ⟨ring.cells, (ring.head + 1) % size, ring.tail, ring.count - 1⟩

/-- `head = tail = count = 0`. -/
def reset (ring : RingBuffer Item) : RingBuffer Item :=
  ⟨ring.cells, 0, 0, 0⟩

structure Valid (ring : RingBuffer Item) : Prop where
  head_lt : ring.head < size
  tail_eq : ring.tail = (ring.head + ring.count) % size
  count_le : ring.count ≤ size

variable {size} {ring : RingBuffer Item}

theorem valid_reset (positive : 0 < size) : Valid size (reset ring) :=
  ⟨positive, (Nat.zero_mod size).symm, Nat.zero_le size⟩

/-- Cells of the queue are not the one behind it. -/
theorem Valid.apart (valid : Valid size ring) {i : Nat}
    (inside : i < ring.count) (room : ring.count < size) : (ring.head + i) % size ≠ ring.tail := by
  have head := valid.head_lt
  rw [valid.tail_eq]
  intro same
  by_cases first : ring.head + i < size
  · rw [Nat.mod_eq_of_lt first] at same
    by_cases second : ring.head + ring.count < size
    · rw [Nat.mod_eq_of_lt second] at same
      omega
    · rw [Nat.mod_eq_sub_mod (by omega), Nat.mod_eq_of_lt (by omega)] at same
      omega
  · rw [Nat.mod_eq_sub_mod (by omega), Nat.mod_eq_of_lt (by omega),
      Nat.mod_eq_sub_mod (by omega), Nat.mod_eq_of_lt (by omega)] at same
    omega

theorem Valid.push (valid : Valid size ring) (item : Item)
    (room : ring.count < size) : Valid size (push size ring item) := by
  refine ⟨valid.head_lt, ?_, room⟩
  change (ring.tail + 1) % size = (ring.head + (ring.count + 1)) % size
  rw [valid.tail_eq, Nat.mod_add_mod, Nat.add_assoc]

theorem Valid.contents_push (valid : Valid size ring) (item : Item)
    (room : ring.count < size) :
    contents size (RingBuffer.push size ring item) =
      contents size ring ++ [item] := by
  have old : ∀ i ∈ List.range ring.count,
      (RingBuffer.push size ring item).cells ((ring.head + i) % size) =
        ring.cells ((ring.head + i) % size) := by
    intro i member
    have apart := valid.apart (List.mem_range.mp member) room
    exact Function.update_of_ne apart _ _
  have last : (RingBuffer.push size ring item).cells
      ((ring.head + ring.count) % size) = item := by
    rw [← valid.tail_eq]
    exact Function.update_self _ _ _
  change (List.range (ring.count + 1)).map _ = _
  rw [List.range_succ, List.map_append]
  congr 1
  · exact List.map_congr_left old
  · exact congrArg (fun x => [x]) last

theorem Valid.pop (valid : Valid size ring) (solid : 0 < ring.count) :
    Valid size (pop size ring) := by
  have head := valid.head_lt
  refine ⟨Nat.mod_lt _ (by omega), ?_, ?_⟩
  · change ring.tail = ((ring.head + 1) % size + (ring.count - 1)) % size
    rw [valid.tail_eq, Nat.mod_add_mod]
    congr 1
    omega
  · exact Nat.le_trans (Nat.sub_le _ _) valid.count_le

theorem contents_pop (solid : 0 < ring.count) (valid : Valid size ring) :
    contents size ring =
      ring.cells ring.head :: contents size (RingBuffer.pop size ring) := by
  obtain ⟨count, size_eq⟩ : ∃ count, ring.count = count + 1 :=
    Nat.exists_eq_add_one.mpr solid
  have first : (ring.head + 0) % size = ring.head :=
    Nat.mod_eq_of_lt valid.head_lt
  rw [contents, size_eq, List.range_succ_eq_map, List.map_cons, List.map_map,
    first]
  congr 1
  change _ = (List.range (ring.count - 1)).map _
  rw [size_eq]
  apply List.map_congr_left
  intro i _
  change ring.cells ((ring.head + (i + 1)) % size) =
    ring.cells (((ring.head + 1) % size + i) % size)
  rw [Nat.mod_add_mod]
  congr 2
  omega

end RingBuffer
