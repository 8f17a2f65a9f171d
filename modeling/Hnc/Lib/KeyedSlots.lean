import Mathlib.Data.List.Nodup
import Mathlib.Order.Basic
import Mathlib.Order.Lattice
import Mathlib.Tactic.Common

/-!
# Tables with a fixed number of slots

Each slot is free or stands for one key.  A lookup scans the slots; an insertion
overwrites the slot of the key, or the first free one, or, when all slots are
taken, the first of those with the smallest stamp.
-/

namespace KeyedSlots

variable {Slot Key : Type} [DecidableEq Key] (keyOf : Slot → Option Key)

/-- The slot of a key. -/
def find (slots : List Slot) (key : Key) : Option Slot :=
  slots.find? fun slot => keyOf slot = some key

/-- No two slots stand for one key. -/
def Distinct (slots : List Slot) : Prop :=
  (slots.filterMap keyOf).Nodup

variable {keyOf}

variable {key : Key}

theorem find_eq_none {slots : List Slot} :
    find keyOf slots key = none ↔ ∀ slot ∈ slots, keyOf slot ≠ some key := by
  simp [find]

variable {left right : List Slot} {new : Slot}

/-- What one slot holds does not matter to another key. -/
theorem find_replaced {old : Slot} (wasOther : keyOf old ≠ some key)
    (isOther : keyOf new ≠ some key) :
    find keyOf (left ++ new :: right) key =
      find keyOf (left ++ old :: right) key := by
  rw [find, find, List.find?_append, List.find?_append,
    List.find?_cons_of_neg (by simpa using isOther),
    List.find?_cons_of_neg (by simpa using wasOther)]

theorem find_placed (early : ∀ slot ∈ left, keyOf slot ≠ some key)
    (placed : keyOf new = some key) :
    find keyOf (left ++ new :: right) key = some new := by
  have nowhere : left.find? (fun slot => keyOf slot = some key) = none := by
    rw [List.find?_eq_none]
    intro slot member
    simpa using early slot member
  rw [find, List.find?_append, nowhere, Option.none_or,
    List.find?_cons_of_pos (by simpa using placed)]

omit [DecidableEq Key] in
theorem Distinct.apart {slot : Slot}
    (distinct : Distinct keyOf (left ++ slot :: right))
    (here : keyOf slot = some key) :
    (∀ other ∈ left, keyOf other ≠ some key) ∧
      ∀ other ∈ right, keyOf other ≠ some key := by
  rw [Distinct, List.filterMap_append, List.filterMap_cons_some here] at distinct
  have parts := List.nodup_append.mp distinct
  constructor
  · intro other member same
    apply parts.2.2 key (List.mem_filterMap.mpr ⟨other, member, same⟩) key
    · simp
    · rfl
  · intro other member same
    apply (List.nodup_cons.mp parts.2.1).1
    exact List.mem_filterMap.mpr ⟨other, member, same⟩

omit [DecidableEq Key] in
theorem Distinct.replace {old : Slot}
    (distinct : Distinct keyOf (left ++ old :: right))
    (placed : keyOf new = some key) (early : ∀ slot ∈ left, keyOf slot ≠ some key)
    (late : ∀ slot ∈ right, keyOf slot ≠ some key) :
    Distinct keyOf (left ++ new :: right) := by
  have rest : (left.filterMap keyOf ++ right.filterMap keyOf).Nodup := by
    rw [Distinct, List.filterMap_append] at distinct
    apply List.Nodup.sublist _ distinct
    apply List.Sublist.append_left
    rw [List.filterMap_cons]
    split
    · exact List.Sublist.refl _
    · exact List.sublist_cons_self _ _
  rw [Distinct, List.filterMap_append, List.filterMap_cons_some placed]
  apply (List.perm_middle.nodup_iff).mpr
  apply List.nodup_cons.mpr
  refine ⟨?_, rest⟩
  intro member
  rcases List.mem_append.mp member with inLeft | inRight
  · obtain ⟨slot, there, same⟩ := List.mem_filterMap.mp inLeft
    exact early slot there same
  · obtain ⟨slot, there, same⟩ := List.mem_filterMap.mp inRight
    exact late slot there same

theorem split_of_findIdx? {slots : List Slot} {test : Slot → Bool} {i : Nat}
    (found : slots.findIdx? test = some i) :
    ∃ left slot right, slots = left ++ slot :: right ∧ left.length = i ∧
      test slot = true ∧ ∀ other ∈ left, test other = false := by
  obtain ⟨inside, passes, early⟩ :=
    List.findIdx?_eq_some_iff_getElem.mp found
  refine ⟨slots.take i, slots[i], slots.drop (i + 1), ?_, ?_, passes, ?_⟩
  · rw [← List.drop_eq_getElem_cons inside, List.take_append_drop]
  · rw [List.length_take]
    omega
  · intro other member
    obtain ⟨j, below, rfl⟩ := List.mem_iff_getElem.mp member
    rw [List.length_take] at below
    simpa using early j (by omega)

theorem set_middle (left right : List Slot) (old new : Slot) :
    (left ++ old :: right).set left.length new = left ++ new :: right := by
  rw [List.set_append_right _ _ (Nat.le_refl _), Nat.sub_self]
  rfl

variable {Stamp : Type} [LinearOrder Stamp] (stamp : Slot → Stamp)

/-- The loop that looks for a smaller stamp: `i` is the next index, `oldest` the
index of the smallest stamp so far. -/
def oldestLoop : List Slot → (i oldest : Nat) → Stamp → Nat
  | [], _, oldest, _ => oldest
  | slot :: slots, i, oldest, smallest =>
      if stamp slot < smallest then
        oldestLoop slots (i + 1) i (stamp slot)
      else oldestLoop slots (i + 1) oldest smallest

/-- The index of a slot with the smallest stamp. -/
def oldestIndex : List Slot → Nat
  | [] => 0
  | first :: slots => oldestLoop stamp slots 1 0 (stamp first)

variable {stamp}

/-- The loop invariant: what was seen has the smallest stamp at `oldest`. -/
theorem oldestLoop_smallest (rest : List Slot) {slot : Slot}
    (least : ∀ other ∈ left ++ slot :: right, stamp slot ≤ stamp other) :
    ∃ before victim behind,
      left ++ slot :: right ++ rest = before ++ victim :: behind ∧
        before.length = oldestLoop stamp rest (left ++ slot :: right).length
          left.length (stamp slot) ∧
        ∀ other ∈ left ++ slot :: right ++ rest,
          stamp victim ≤ stamp other := by
  induction rest generalizing left right slot with
  | nil =>
      refine ⟨left, slot, right, by simp, rfl, ?_⟩
      rw [List.append_nil]
      exact least
  | cons next rest induction =>
      rw [oldestLoop]
      by_cases smaller : stamp next < stamp slot
      · rw [if_pos smaller]
        have least' : ∀ other ∈ (left ++ slot :: right) ++ next :: [],
            stamp next ≤ stamp other := by
          intro other member
          rcases List.mem_append.mp member with early | last
          · exact le_trans (le_of_lt smaller) (least other early)
          · rw [List.mem_singleton.mp last]
        have step := induction least'
        have size : ((left ++ slot :: right) ++ [next]).length =
            (left ++ slot :: right).length + 1 :=
          List.length_append
        rw [size] at step
        simpa using step
      · rw [if_neg smaller]
        have least' : ∀ other ∈ left ++ slot :: (right ++ [next]),
            stamp slot ≤ stamp other := by
          intro other member
          rw [← List.cons_append, ← List.append_assoc] at member
          rcases List.mem_append.mp member with early | last
          · exact least other early
          · rw [List.mem_singleton.mp last]
            exact not_lt.mp smaller
        have step := induction least'
        simpa [Nat.add_assoc] using step

theorem oldestIndex_smallest {slots : List Slot} (solid : slots ≠ []) :
    ∃ before victim behind, slots = before ++ victim :: behind ∧
      before.length = oldestIndex stamp slots ∧
      ∀ other ∈ slots, stamp victim ≤ stamp other := by
  cases slots with
  | nil => exact absurd rfl solid
  | cons first rest =>
      have least : ∀ other ∈ [] ++ first :: ([] : List Slot),
          stamp first ≤ stamp other := by
        intro other member
        rw [List.mem_singleton.mp member]
      exact oldestLoop_smallest rest least

end KeyedSlots
