import Hnc.Lib.LineSearch

/-!
# Searching a C string

The functions of `string.h` see the bytes of a buffer before the first NUL, and
answer with a pointer into it, which is kept as the text from there on.  A
`Char` stands for a byte.
-/

namespace Posix

/-- The string in a buffer. -/
def cString (buffer : Text) : Text :=
  buffer.takeWhile (· != '\x00')

def strstr (haystack needle : Text) : Option Text :=
  tailFrom needle haystack

def strchr (s : Text) (c : Char) : Option Text :=
  match s.dropWhile (· != c) with
  | [] => none
  | found => some found

/-- The last occurrence of a character. -/
def strrchr : Text → Char → Option Text
  | [], _ => none
  | d :: rest, c =>
      match strrchr rest c with
      | some found => some found
      | none => if d = c then some (d :: rest) else none

variable {s : Text}

theorem cString_eq_self (free : '\x00' ∉ s) : cString s = s := by
  apply List.takeWhile_eq_self_iff.mpr
  intro c member
  have other : c ≠ '\x00' := by
    intro same
    exact free (same ▸ member)
  simpa using other

variable {left : Text} {c : Char}

theorem dropWhile_ne_of_not_mem (free : c ∉ left) (rest : Text) :
    (left ++ rest).dropWhile (· != c) = rest.dropWhile (· != c) := by
  apply List.dropWhile_append_of_pos
  intro d member
  have other : d ≠ c := by
    intro same
    exact free (same ▸ member)
  simpa using other

theorem strchr_append (free : c ∉ left) (rest : Text) :
    strchr (left ++ rest) c = strchr rest c := by
  rw [strchr, dropWhile_ne_of_not_mem free, strchr]

theorem strchr_cons (c : Char) (rest : Text) :
    strchr (c :: rest) c = some (c :: rest) := by
  simp [strchr]

theorem strchr_found (free : c ∉ left) (rest : Text) :
    strchr (left ++ c :: rest) c = some (c :: rest) := by
  rw [strchr_append free, strchr_cons]

theorem strchr_eq_none (free : c ∉ s) : strchr s c = none := by
  have whole := strchr_append free []
  rw [List.append_nil] at whole
  exact whole

variable {found : Text}

theorem strchr_eq_some (search : strchr s c = some found) :
    ∃ left rest, s = left ++ found ∧ found = c :: rest ∧ c ∉ left := by
  induction s with
  | nil => cases search
  | cons d s induction =>
      by_cases here : d = c
      · subst here
        rw [strchr_cons] at search
        cases search
        exact ⟨[], s, rfl, rfl, by simp⟩
      · have free : c ∉ [d] := by simpa using Ne.symm here
        have later : strchr (d :: s) c = strchr s c := strchr_append free s
        rw [later] at search
        obtain ⟨left, rest, split, opens, others⟩ := induction search
        refine ⟨d :: left, rest, by rw [split]; rfl, opens, ?_⟩
        simpa [Ne.symm here] using others

/-- What was found in a string is found in every longer one. -/
theorem strchr_more (search : strchr s c = some found) (more : Text) :
    strchr (s ++ more) c = some (found ++ more) := by
  obtain ⟨left, rest, split, opens, free⟩ := strchr_eq_some search
  rw [split, opens, List.append_assoc]
  exact strchr_found free _

theorem strrchr_eq_none (free : c ∉ s) : strrchr s c = none := by
  induction s with
  | nil => rfl
  | cons d s induction =>
      simp only [List.mem_cons, not_or] at free
      rw [strrchr, induction free.2]
      exact if_neg (Ne.symm free.1)

theorem strrchr_last (left : Text) {rest : Text} (free : c ∉ rest) :
    strrchr (left ++ c :: rest) c = some (c :: rest) := by
  induction left with
  | nil =>
      rw [List.nil_append, strrchr, strrchr_eq_none free]
      exact if_pos rfl
  | cons d left induction => rw [List.cons_append, strrchr, induction]

theorem exists_last (member : c ∈ s) :
    ∃ left rest, s = left ++ c :: rest ∧ c ∉ rest := by
  obtain ⟨rest, left, split, free⟩ :=
    List.eq_append_cons_of_mem (List.mem_reverse.mpr member)
  refine ⟨left.reverse, rest.reverse, ?_, ?_⟩
  · rw [← List.reverse_reverse s, split]
    simp
  · intro later
    exact free (List.mem_reverse.mp later)

theorem strstr_cons (c : Char) (s needle : Text) :
    strstr (c :: s) needle =
      if (after? needle (c :: s)).isSome then some (c :: s)
      else strstr s needle :=
  rfl

theorem strstr_hit (needle rest : Text) (solid : needle ≠ []) :
    strstr (needle ++ rest) needle = some (needle ++ rest) := by
  cases needle with
  | nil => exact absurd rfl solid
  | cons c needle =>
      have here : after? (c :: needle) (c :: needle ++ rest) = some rest :=
        after?_eq_some.mpr rfl
      rw [List.cons_append] at here ⊢
      rw [strstr_cons, here]
      rfl

theorem strstr_eq_some {needle : Text} (search : strstr s needle = some found) :
    ∃ left rest, s = left ++ found ∧ found = needle ++ rest := by
  induction s with
  | nil =>
      rw [strstr, tailFrom] at search
      split at search
      · rename_i empty
        cases search
        exact ⟨[], [], rfl, by rw [empty]; rfl⟩
      · cases search
  | cons c s induction =>
      rw [strstr_cons] at search
      split at search
      · rename_i here
        cases search
        obtain ⟨rest, matched⟩ := Option.isSome_iff_exists.mp here
        exact ⟨[], rest, rfl, after?_eq_some.mp matched⟩
      · obtain ⟨left, rest, split, opens⟩ := induction search
        exact ⟨c :: left, rest, by rw [split]; rfl, opens⟩

/-- The search goes over characters that the needle does not begin with. -/
theorem strstr_skip {first : Char} {left : Text} (free : first ∉ left)
    (needle rest : Text) :
    strstr (left ++ rest) (first :: needle) = strstr rest (first :: needle) := by
  induction left with
  | nil => rfl
  | cons c left induction =>
      simp only [List.mem_cons, not_or] at free
      have miss : after? (first :: needle) (c :: (left ++ rest)) = none := by
        exact if_neg (Ne.symm free.1)
      rw [List.cons_append, strstr_cons, miss]
      exact induction free.2

/-- A string in which the needle stands somewhere. -/
theorem strstr_isSome (left needle rest : Text) (solid : needle ≠ []) :
    (strstr (left ++ (needle ++ rest)) needle).isSome = true := by
  induction left with
  | nil =>
      rw [List.nil_append, strstr_hit needle rest solid]
      rfl
  | cons c left induction =>
      rw [List.cons_append, strstr_cons]
      split
      · rfl
      · exact induction

theorem strstr_more {needle : Text} (search : strstr s needle = some found)
    (more : Text) : strstr (s ++ more) needle = some (found ++ more) := by
  induction s with
  | nil =>
      rw [strstr, tailFrom] at search
      split at search
      · rename_i empty
        cases search
        subst empty
        cases more <;> rfl
      · cases search
  | cons c s induction =>
      rw [strstr_cons] at search
      rw [List.cons_append, strstr_cons]
      split at search
      · rename_i here
        cases search
        obtain ⟨rest, matched⟩ := Option.isSome_iff_exists.mp here
        have longer : after? needle (c :: (s ++ more)) = some (rest ++ more) := by
          apply after?_eq_some.mpr
          rw [← List.append_assoc, ← after?_eq_some.mp matched]
          rfl
        rw [longer]
        rfl
      · rename_i miss
        -- the needle fits behind `c`, so it cannot reach beyond `s`
        have still : ¬ (after? needle (c :: (s ++ more))).isSome = true := by
          intro here
          obtain ⟨tail, matched⟩ := Option.isSome_iff_exists.mp here
          obtain ⟨left, rest, split, opens⟩ := strstr_eq_some search
          have front := after?_eq_some.mp matched
          have short : needle.length ≤ (c :: s).length := by
            rw [split, opens]
            simp only [List.length_cons, List.length_append]
            omega
          rw [← List.cons_append] at front
          obtain ⟨middle, inside, _⟩ | ⟨middle, inside, _⟩ :=
            List.append_eq_append_iff.mp front
          · have size := congrArg List.length inside
            rw [List.length_append] at size
            have empty : middle = [] := by
              apply List.length_eq_zero_iff.mp
              omega
            rw [empty, List.append_nil] at inside
            apply miss
            rw [← inside, after?_eq_some.mpr (List.append_nil needle).symm]
            rfl
          · apply miss
            rw [after?_eq_some.mpr inside]
            rfl
        rw [if_neg still]
        exact induction search

end Posix
