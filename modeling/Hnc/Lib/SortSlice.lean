import Mathlib.Data.List.Nodup
import Mathlib.Data.List.Perm.Basic
import Mathlib.Logic.Equiv.Basic

/-!
# Unstable sorting

What `sort.Slice` of Go promises: the elements in an order in which none comes
before a smaller one.  The order among ties is open, so that the first `n`
elements are determined exactly when no tie reaches into them.
-/

namespace SortSlice

/-- The relation is a strict weak order. -/
structure Weak {α : Type} (less : α → α → Bool) : Prop where
  asymm : ∀ a b, less a b = true → less b a = false
  notLessTrans : ∀ a b c, less a b = false → less b c = false →
    less a c = false

/-- The sort of a list of any type. -/
structure Sorting where
  run : {α : Type} → (less : α → α → Bool) → List α → List α
  perm : ∀ {α : Type} (less : α → α → Bool) (l : List α),
    (run less l).Perm l
  sorted : ∀ {α : Type} (less : α → α → Bool) (l : List α), Weak less →
    (run less l).Pairwise fun a b => less b a = false

/-- The sort sees the elements only through their comparisons. -/
def Sorting.Natural (sort : Sorting) : Prop :=
  ∀ {α β : Type} (less : α → α → Bool) (less' : β → β → Bool) (f : α → β)
    (l : List α), (∀ a ∈ l, ∀ b ∈ l, less' (f a) (f b) = less a b) →
    sort.run less' (l.map f) = (sort.run less l).map f

section

variable {α : Type} {less : α → α → Bool} {l l' : List α}

theorem Weak.irrefl (weak : Weak less) (a : α) : less a a = false := by
  cases same : less a a with
  | false => rfl
  | true => exact same.symm.trans (weak.asymm a a same)

variable {a b : α}

/-- Ties compare in the same way with all others. -/
theorem Weak.congr_left (weak : Weak less) (ab : less a b = false)
    (ba : less b a = false) (c : α) : less a c = less b c := by
  cases ac : less a c with
  | false => exact (weak.notLessTrans b a c ba ac).symm
  | true =>
      cases bc : less b c with
      | true => rfl
      | false => exact ac.symm.trans (weak.notLessTrans a b c ab bc)

theorem Weak.congr_right (weak : Weak less) (ab : less a b = false)
    (ba : less b a = false) (c : α) : less c a = less c b := by
  cases ca : less c a with
  | false => exact (weak.notLessTrans c a b ca ab).symm
  | true =>
      cases cb : less c b with
      | true => rfl
      | false => exact ca.symm.trans (weak.notLessTrans c b a cb ba)

variable {n : Nat}

/-- In a sorted list the first `n` elements have less than `n` smaller ones. -/
theorem countP_lt_of_mem_take (weak : Weak less)
    (sorted : l.Pairwise fun a b => less b a = false) (member : a ∈ l.take n) :
    l.countP (less · a) < n := by
  obtain ⟨i, inside, rfl⟩ := List.mem_iff_getElem.mp member
  have bound : i < n ∧ i < l.length := by
    rw [List.length_take] at inside
    omega
  rw [List.getElem_take]
  have behind : (l.drop i).countP (less · l[i]) = 0 := by
    rw [List.countP_eq_zero]
    intro b later
    rw [List.drop_eq_getElem_cons bound.2] at later
    rw [Bool.not_eq_true]
    rcases List.mem_cons.mp later with same | after
    · rw [same]
      exact weak.irrefl _
    · have pairs := sorted.drop (i := i)
      rw [List.drop_eq_getElem_cons bound.2] at pairs
      exact (List.pairwise_cons.mp pairs).1 b after
  have front := @List.countP_le_length _ (less · l[i]) (l.take i)
  have split := congrArg (List.countP (less · l[i]))
    (List.take_append_drop i l)
  rw [List.countP_append] at split
  rw [List.length_take] at front
  omega

/-- What all of the first `n` elements satisfy may be filtered for. -/
theorem take_filter (p : α → Bool) (all : ∀ a ∈ l.take n, p a = true) :
    (l.filter p).take n = l.take n := by
  conv_lhs => rw [← List.take_append_drop n l]
  rw [List.filter_append, List.filter_eq_self.mpr all]
  by_cases long : n ≤ l.length
  · have length : (l.take n).length = n := List.length_take_of_le long
    rw [List.take_append_of_le_length (Nat.le_of_eq length.symm),
      List.take_of_length_le (Nat.le_of_eq length)]
  · rw [List.drop_eq_nil_of_le (by omega), List.filter_nil, List.append_nil,
      List.take_of_length_le (List.length_take_le n l)]

variable (sort : Sorting)

/-- The result is determined when only equal elements tie. -/
theorem run_eq_of_perm (weak : Weak less) (perm : l.Perm l')
    (ties : ∀ a ∈ l, ∀ b ∈ l, less a b = false → less b a = false → a = b) :
    sort.run less l = sort.run less l' := by
  refine List.Perm.eq_of_pairwise ?_ (sort.sorted less l weak)
    (sort.sorted less l' weak) ?_
  · intro a b here there ab ba
    apply ties a ((sort.perm less l).mem_iff.mp here) b ?_ ba ab
    exact perm.mem_iff.mpr ((sort.perm less l').mem_iff.mp there)
  · exact (sort.perm less l).trans (perm.trans (sort.perm less l').symm)

/-- The first `n` elements are determined when those that tie have `n` smaller
ones. -/
theorem take_run_eq_of_perm (weak : Weak less) (perm : l.Perm l')
    (decided : ∀ a ∈ l, ∀ b ∈ l, a ≠ b → less a b = false → less b a = false → n ≤ l.countP (less · a)) :
    (sort.run less l).take n = (sort.run less l').take n := by
  have whole := sort.perm less l
  have whole' : (sort.run less l').Perm l :=
    (sort.perm less l').trans perm.symm
  have early (s : List α) (same : s.Perm l)
      (sorted : s.Pairwise fun a b => less b a = false) :
      (s.filter fun a => l.countP (less · a) < n).take n = s.take n := by
    apply take_filter
    intro a member
    rw [decide_eq_true_iff, ← same.countP_eq]
    exact countP_lt_of_mem_take weak sorted member
  rw [← early _ whole (sort.sorted less l weak),
    ← early _ whole' (sort.sorted less l' weak)]
  congr 1
  refine List.Perm.eq_of_pairwise ?_ ((sort.sorted less l weak).filter _)
    ((sort.sorted less l' weak).filter _) ((whole.trans whole'.symm).filter _)
  · intro a b here there ab ba
    obtain ⟨known, few⟩ := List.mem_filter.mp here
    by_contra different
    have many := decided a (whole.mem_iff.mp known) b
      (whole'.mem_iff.mp (List.mem_filter.mp there).1) different ba ab
    exact Nat.not_le_of_lt (of_decide_eq_true few) many

/-- One of the first `n` elements ties with an element that has fewer than
`n` smaller ones. -/
theorem exists_tie_mem_take (weak : Weak less) (member : a ∈ l)
    (few : l.countP (less · a) < n) :
    ∃ x ∈ (sort.run less l).take n, less x a = false ∧ less a x = false := by
  have whole := sort.perm less l
  have sorted := sort.sorted less l weak
  generalize sort.run less l = s at whole sorted
  by_contra none
  push Not at none
  have notFirst : a ∉ s.take n := by
    intro first
    exact none a first (weak.irrefl a) (weak.irrefl a)
  have later : a ∈ s.drop n := by
    have known := whole.mem_iff.mpr member
    rw [← List.take_append_drop n s] at known
    exact (List.mem_append.mp known).resolve_left notFirst
  rw [← List.take_append_drop n s] at sorted
  have order := (List.pairwise_append.mp sorted).2.2
  have smaller : ∀ x ∈ s.take n, less x a = true := by
    intro x first
    have notLess := none x first
    cases xa : less x a with
    | true => rfl
    | false => exact absurd (order x first a later) (notLess xa)
  have count := List.countP_eq_length.mpr smaller
  have long : n < s.length := by
    have := List.length_pos_of_mem later
    rw [List.length_drop] at this
    omega
  rw [List.length_take_of_le (Nat.le_of_lt long)] at count
  have split := congrArg (List.countP (less · a)) (List.take_append_drop n s)
  rw [List.countP_append, whole.countP_eq] at split
  omega

theorem less_swap [DecidableEq α] (weak : Weak less) {x y : α}
    (xy : less x y = false) (yx : less y x = false) (c d : α) :
    less (Equiv.swap x y c) (Equiv.swap x y d) = less c d := by
  have left (c d : α) : less (Equiv.swap x y c) d = less c d := by
    rw [Equiv.swap_apply_def]
    split
    · rename_i same
      rw [same]
      exact weak.congr_left yx xy d
    · split
      · rename_i same
        rw [same]
        exact weak.congr_left xy yx d
      · rfl
  have right (c d : α) : less c (Equiv.swap x y d) = less c d := by
    rw [Equiv.swap_apply_def]
    split
    · rename_i same
      rw [same]
      exact weak.congr_right yx xy c
    · split
      · rename_i same
        rw [same]
        exact weak.congr_right xy yx c
      · rfl
  rw [left, right]

theorem map_swap_perm [DecidableEq α] (nodup : l.Nodup) {x y : α} (here : x ∈ l)
    (there : y ∈ l) : (l.map (Equiv.swap x y)).Perm l := by
  have stays : ∀ z ∈ l, Equiv.swap x y z ∈ l := by
    intro z member
    rw [Equiv.swap_apply_def]
    split
    · exact there
    · split
      · exact here
      · exact member
  apply (List.perm_ext_iff_of_nodup
    (nodup.map (Equiv.swap x y).injective) nodup).mpr
  intro z
  rw [List.mem_map]
  constructor
  · rintro ⟨w, member, rfl⟩
    exact stays w member
  · intro member
    exact ⟨Equiv.swap x y z, stays z member, Equiv.swap_apply_self x y z⟩

/-- Ties that reach into the first `n` elements are seen: a list in which two
of them are swapped has others there. -/
theorem exists_swap_of_tie [DecidableEq α] (natural : sort.Natural)
    (weak : Weak less) (member : a ∈ l) (member' : b ∈ l) (different : a ≠ b)
    (ab : less a b = false) (ba : less b a = false)
    (few : l.countP (less · a) < n) :
    ∃ x ∈ l, ∃ y ∈ l,
      (sort.run less (l.map (Equiv.swap x y))).take n ≠
        (sort.run less l).take n := by
  obtain ⟨x, first, xa, ax⟩ := exists_tie_mem_take sort weak member few
  have known : x ∈ l :=
    (sort.perm less l).mem_iff.mp (List.mem_of_mem_take first)
  obtain ⟨y, there, other, xy, yx⟩ :
      ∃ y ∈ l, y ≠ x ∧ less x y = false ∧ less y x = false := by
    by_cases same : x = a
    · subst same
      exact ⟨b, member', different.symm, ab, ba⟩
    · exact ⟨a, member, Ne.symm same, xa, ax⟩
  refine ⟨x, known, y, there, ?_⟩
  rw [natural less less _ l fun c _ d _ => less_swap weak xy yx c d,
    ← List.map_take]
  intro unchanged
  obtain ⟨i, inside, found⟩ := List.mem_iff_getElem.mp first
  have entry := congrArg (fun s : List α => s[i]?) unchanged
  simp only [List.getElem?_map, List.getElem?_eq_getElem inside, found,
    Option.map_some, Equiv.swap_apply_left, Option.some.injEq] at entry
  exact other entry

end

/-- A stable sort. -/
def stable : Sorting where
  run less l := l.mergeSort fun a b => !less b a
  perm less l := List.mergeSort_perm l _
  sorted less l weak := by
    have pairs := @List.pairwise_mergeSort _ (fun a b => !less b a) ?_ ?_ l
    · exact pairs.imp fun before => by simpa using before
    · intro a b c ab bc
      simp only [Bool.not_eq_true'] at ab bc ⊢
      exact weak.notLessTrans c b a bc ab
    · intro a b
      cases before : less a b with
      | true => rw [weak.asymm a b before]; rfl
      | false => rw [Bool.not_false, Bool.or_true]

theorem stable_natural : stable.Natural := by
  intro α β less less' f l same
  apply (List.map_mergeSort ?_).symm
  intro a member b member'
  rw [same b member' a member]

end SortSlice
