import Hnc.Lib.JsonGrammar
import Mathlib.Algebra.Order.Field.Rat
import Mathlib.Data.Rat.Floor
import Mathlib.Tactic.FieldSimp
import Mathlib.Tactic.Ring

/-!
# Numbers of `awk`

The value of a string in arithmetic is that of the decimal number at its front.
Arithmetic is exact here.
-/

namespace Posix

open JsonText

/-- The value of the digits of a number. -/
def digitsValue (digits : Text) : Nat :=
  Nat.ofDigitChars 10 digits 0

/-- The exponent behind the digits of a number. -/
def exponentOf (text : Text) : Int :=
  match text with
  | [] => 0
  | e :: behind =>
      if e = 'e' ∨ e = 'E' then
        let unsigned :=
          if behind.head? = some '-' ∨ behind.head? = some '+' then behind.tail
          else behind
        let value : Int := digitsValue (unsigned.takeWhile isDigit)
        if behind.head? = some '-' then -value else value
      else 0

/-- `v + 0`. -/
def awkNumber (text : Text) : ℚ :=
  let number := text.dropWhile isSpace
  let unsigned :=
    if number.head? = some '-' ∨ number.head? = some '+' then number.tail
    else number
  let whole := unsigned.takeWhile isDigit
  let behind := unsigned.dropWhile isDigit
  let point := behind.head? = some '.'
  let fraction := if point then behind.tail.takeWhile isDigit else []
  let rest := if point then behind.tail.dropWhile isDigit else behind
  let magnitude : ℚ := digitsValue (whole ++ fraction) / 10 ^ fraction.length
  if whole ++ fraction = [] then 0
  else
    (if number.head? = some '-' then -magnitude else magnitude) *
      10 ^ exponentOf rest

theorem digitsValue_append (left right : Text) :
    digitsValue (left ++ right) =
      10 ^ right.length * digitsValue left + digitsValue right := by
  rw [digitsValue, Nat.ofDigitChars_append, Nat.ofDigitChars_eq_ofDigitChars_zero]
  rfl

theorem digitsValue_toDigits (n : Nat) :
    digitsValue (Nat.toDigits 10 n) = n :=
  Nat.ofDigitChars_ten_toDigits

theorem digitsValue_leftpad (width n : Nat) :
    digitsValue ((Nat.toDigits 10 n).leftpad width '0') = n := by
  rw [List.leftpad, digitsValue_append, digitsValue_toDigits]
  have zeros : digitsValue
      (List.replicate (width - (Nat.toDigits 10 n).length) '0') = 0 := by
    rw [digitsValue, Nat.ofDigitChars_replicate_zero, Nat.mul_zero]
  rw [zeros, Nat.mul_zero, Nat.zero_add]

theorem length_leftpad_toDigits {width n : Nat} (positive : 0 < width)
    (small : n < 10 ^ width) :
    ((Nat.toDigits 10 n).leftpad width '0').length = width := by
  have short := (Nat.length_toDigits_le_iff (by decide) positive).mpr small
  rw [List.length_leftpad, Nat.max_eq_left short]

theorem all_toDigits (n : Nat) : (Nat.toDigits 10 n).all isDigit = true :=
  List.all_eq_true.mpr fun _ member => isDigit_of_mem_toDigits member

theorem all_leftpad_toDigits (width n : Nat) :
    ((Nat.toDigits 10 n).leftpad width '0').all isDigit = true := by
  rw [List.leftpad, List.all_append, all_toDigits, Bool.and_true]
  apply List.all_eq_true.mpr
  intro c member
  rw [List.eq_of_mem_replicate member]
  decide

section Unsigned

variable {whole : Text} (digits : whole.all isDigit = true)
  (nonempty : whole ≠ [])

include digits nonempty

/-- A digit in front is neither white space nor a sign. -/
theorem front_of_digits (rest : Text) :
    (whole ++ rest).dropWhile isSpace = whole ++ rest ∧
      (whole ++ rest).head? ≠ some '-' ∧ (whole ++ rest).head? ≠ some '+' := by
  cases whole with
  | nil => exact absurd rfl nonempty
  | cons c whole =>
      simp only [List.all_cons, Bool.and_eq_true] at digits
      have solid : isSpace c = false := isSpace_of_class digits.1 (by decide)
      have other : ∀ d ∈ ['-', '+'], c ≠ d := by
        rintro d member rfl
        have signs : ['-', '+'].all (fun d => !isDigit d) = true := by decide
        have sign := List.all_eq_true.mp signs c member
        rw [digits.1] at sign
        cases sign
      refine ⟨?_, ?_, ?_⟩
      · simp [solid]
      · simpa using other '-' (by simp)
      · simpa using other '+' (by simp)

theorem awkNumber_digits : awkNumber whole = digitsValue whole := by
  have all := List.all_eq_true.mp digits
  obtain ⟨front, minus, plus⟩ := front_of_digits digits nonempty []
  rw [List.append_nil] at front minus plus
  have taken : whole.takeWhile isDigit = whole :=
    List.takeWhile_eq_self_iff.mpr all
  have dropped : whole.dropWhile isDigit = [] :=
    List.dropWhile_eq_nil_iff.mpr all
  simp [awkNumber, front, minus, plus, taken, dropped, nonempty, exponentOf]

theorem awkNumber_point {fraction : Text}
    (places : fraction.all isDigit = true) :
    awkNumber (whole ++ '.' :: fraction) =
      digitsValue whole + digitsValue fraction / 10 ^ fraction.length := by
  have all := List.all_eq_true.mp digits
  have allPlaces := List.all_eq_true.mp places
  obtain ⟨front, minus, plus⟩ :=
    front_of_digits digits nonempty ('.' :: fraction)
  have taken : (whole ++ '.' :: fraction).takeWhile isDigit = whole := by
    rw [List.takeWhile_append_of_pos all, List.takeWhile_cons_of_neg (by decide),
      List.append_nil]
  have dropped : (whole ++ '.' :: fraction).dropWhile isDigit =
      '.' :: fraction := by
    rw [List.dropWhile_append_of_pos all, List.dropWhile_cons_of_neg (by decide)]
  have takenPlaces : fraction.takeWhile isDigit = fraction :=
    List.takeWhile_eq_self_iff.mpr allPlaces
  have droppedPlaces : fraction.dropWhile isDigit = [] :=
    List.dropWhile_eq_nil_iff.mpr allPlaces
  have value : ((digitsValue (whole ++ fraction) : Nat) : ℚ) /
      10 ^ fraction.length =
        digitsValue whole + digitsValue fraction / 10 ^ fraction.length := by
    rw [digitsValue_append]
    push_cast
    field_simp
  simp only [awkNumber, front, minus, plus, taken, dropped, List.head?_cons,
    List.tail_cons, takenPlaces, droppedPlaces, or_self, if_false, if_true,
    List.append_eq_nil_iff, nonempty, exponentOf, zpow_zero, mul_one]
  exact value

end Unsigned

end Posix
