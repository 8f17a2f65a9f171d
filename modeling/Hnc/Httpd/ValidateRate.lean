import Hnc.Httpd.Pairing

/-!
# The check of a rate

`validateRate` of `action.go` reads the digits of a rate as a 64-bit integer and
multiplies megabits by 1000 before it looks at the bounds, so that a product
that has wrapped around may lie between them.
-/

namespace Httpd

open Posix

def minRateKbit : Int := 64
def maxRateKbit : Int := 10 * 1024 * 1024

/-- What an `int` of Go holds of a value. -/
def goInt (value : Int) : Int :=
  value.bmod (2 ^ 64)

/-- `^[0-9]+(kbit|mbit)$`. -/
def rateRE (r : Text) : Bool :=
  r.takeWhile isDigit != [] &&
    (r.dropWhile isDigit == "kbit".toList ||
      r.dropWhile isDigit == "mbit".toList)

inductive RateError where
  | format
  | badNumber
  | unit
  | minimum
  | maximum
deriving DecidableEq, Repr

def RateError.message : RateError → Text
  | .format => "format must be <n>kbit or <n>mbit".toList
  | .badNumber => "bad number".toList
  | .unit => "unit must be kbit or mbit".toList
  | .minimum => "minimum rate is 64kbit".toList
  | .maximum => "maximum rate is 10485760kbit (~10 Gbit)".toList

/-- The switch over the unit. -/
def kbitOf (num : Int) (unit : Text) : Option Int :=
  if unit = "kbit".toList then some num
  else if unit = "mbit".toList then some (goInt (num * 1000))
  else none

/-- The loop over the characters stops at the first one that is no digit. -/
def validateRate (r : Text) : Option RateError :=
  if r = "0".toList then none
  else if !rateRE r then some .format
  else match parseInt (r.takeWhile isDigit) with
    | none => some .badNumber
    | some num =>
        match kbitOf num (r.dropWhile isDigit) with
        | none => some .unit
        | some kbit =>
            if kbit < minRateKbit then some .minimum
            else if kbit > maxRateKbit then some .maximum
            else none

/-! ### What a rate stands for -/

inductive RateUnit where
  | kbit
  | mbit
deriving DecidableEq, Repr

namespace RateUnit

def text : RateUnit → Text
  | kbit => "kbit".toList
  | mbit => "mbit".toList

/-- The kilobits of one unit. -/
def factor : RateUnit → Nat
  | kbit => 1
  | mbit => 1000

end RateUnit

/-- The text is a number in front of a unit. -/
structure Spelled (r digits : Text) (unit : RateUnit) : Prop where
  text : r = digits ++ unit.text
  nonempty : digits ≠ []
  all : digits.all isDigit = true

/-- The rate in kbit. -/
def rateKbit (digits : Text) (unit : RateUnit) : Nat :=
  unit.factor * decimal digits

def InRange (kbit : Nat) : Prop :=
  64 ≤ kbit ∧ kbit ≤ 10485760

/-- Only rates within the bounds are accepted, and all of them whose number fits
an `int`. -/
def ChecksRate (r : Text) : Prop :=
  (validateRate r = none → r = "0".toList ∨
    ∃ digits unit, Spelled r digits unit ∧ InRange (rateKbit digits unit)) ∧
  ((r = "0".toList ∨ ∃ digits unit, Spelled r digits unit ∧
      InRange (rateKbit digits unit) ∧ decimal digits < 2 ^ 63) →
    validateRate r = none)

/-- Megabits above the bounds whose kilobits are within them modulo `2 ^ 64`. -/
def WrapsIntoRange (r : Text) : Prop :=
  ∃ digits, Spelled r digits .mbit ∧ decimal digits < 2 ^ 63 ∧
    ¬InRange (rateKbit digits .mbit) ∧
    InRange (rateKbit digits .mbit % 2 ^ 64)

theorem RateUnit.head_text (unit : RateUnit) :
    ∃ c rest, unit.text = c :: rest ∧ isDigit c = false := by
  cases unit with
  | kbit => exact ⟨'k', _, rfl, by decide⟩
  | mbit => exact ⟨'m', _, rfl, by decide⟩

namespace Spelled

variable {r digits : Text} {unit : RateUnit}

section

variable (spelled : Spelled r digits unit)
include spelled

theorem takeWhile :
    r.takeWhile isDigit = digits := by
  obtain ⟨c, rest, head, stop⟩ := unit.head_text
  have all := List.all_eq_true.mp spelled.all
  rw [spelled.text, head, List.takeWhile_append_of_pos all]
  simp [stop]

theorem dropWhile :
    r.dropWhile isDigit = unit.text := by
  obtain ⟨c, rest, head, stop⟩ := unit.head_text
  have all := List.all_eq_true.mp spelled.all
  rw [spelled.text, head, List.dropWhile_append_of_pos all]
  simp [stop]

/-- A text is spelled in one way only. -/
theorem unique {digits' : Text} {unit' : RateUnit}
    (other : Spelled r digits' unit') :
    digits' = digits ∧ unit' = unit := by
  have units : unit'.text = unit.text :=
    other.dropWhile.symm.trans spelled.dropWhile
  refine ⟨other.takeWhile.symm.trans spelled.takeWhile, ?_⟩
  cases unit <;> cases unit' <;> first | rfl | exact absurd units (by decide)

theorem ne_zero : r ≠ "0".toList := by
  intro same
  have empty := spelled.dropWhile
  obtain ⟨c, rest, head, _⟩ := unit.head_text
  rw [same, head] at empty
  exact absurd empty (by simp [isDigit])

theorem rateRE : rateRE r = true := by
  rw [Httpd.rateRE, spelled.takeWhile, spelled.dropWhile]
  have nonempty := spelled.nonempty
  cases unit with
  | kbit => simp [nonempty, RateUnit.text]
  | mbit => simp [nonempty, RateUnit.text]

theorem parseInt : parseInt digits =
    if decimal digits < 2 ^ 63 then some (decimal digits : Int) else none := by
  have unsigned : ∀ c ∈ ['-', '+'], digits.head? ≠ some c := by
    intro c member head
    have digit := List.all_eq_true.mp spelled.all c (List.mem_of_mem_head? head)
    have signs : ['-', '+'].all (fun c => !isDigit c) = true := by decide
    have sign := List.all_eq_true.mp signs c member
    rw [digit] at sign
    cases sign
  have minus := unsigned '-' (by simp)
  have plus := unsigned '+' (by simp)
  simp [Httpd.parseInt, minus, plus, spelled.nonempty, spelled.all]

end

end Spelled

theorem spelled_of_rateRE {r : Text} (matched : rateRE r = true) :
    ∃ digits unit, Spelled r digits unit := by
  have split := (List.takeWhile_append_dropWhile (p := isDigit) (l := r)).symm
  have all : (r.takeWhile isDigit).all isDigit = true :=
    List.all_eq_true.mpr fun c member => List.mem_takeWhile_imp member
  simp only [rateRE, Bool.and_eq_true, Bool.or_eq_true, bne_iff_ne, beq_iff_eq]
    at matched
  obtain ⟨nonempty, kbit | mbit⟩ := matched
  · exact ⟨_, .kbit, by rw [kbit] at split; exact split, nonempty, all⟩
  · exact ⟨_, .mbit, by rw [mbit] at split; exact split, nonempty, all⟩

theorem kbitOf_text {num : Nat} (small : num < 2 ^ 63) (unit : RateUnit) :
    kbitOf num unit.text = some (goInt (unit.factor * num)) := by
  cases unit with
  | kbit =>
      have fits : goInt num = num := by
        apply Int.bmod_eq_of_le <;> omega
      simp [kbitOf, RateUnit.text, RateUnit.factor, fits]
  | mbit =>
      have order : (num : Int) * 1000 = 1000 * num := Int.mul_comm _ _
      simp [kbitOf, RateUnit.text, RateUnit.factor, order]

/-- The bounds are those of the residue modulo `2 ^ 64`. -/
theorem goInt_inRange (kbit : Nat) :
    (minRateKbit ≤ goInt kbit ∧ goInt kbit ≤ maxRateKbit) ↔
      InRange (kbit % 2 ^ 64) := by
  simp only [minRateKbit, maxRateKbit, goInt, InRange, Int.bmod_def]
  split <;> omega

theorem Spelled.accepted_iff {r digits : Text} {unit : RateUnit}
    (spelled : Spelled r digits unit) : validateRate r = none ↔
      decimal digits < 2 ^ 63 ∧ InRange (rateKbit digits unit % 2 ^ 64) := by
  rw [validateRate, if_neg spelled.ne_zero, spelled.rateRE, spelled.takeWhile,
    spelled.dropWhile, spelled.parseInt]
  by_cases small : decimal digits < 2 ^ 63
  · have bounds := goInt_inRange (rateKbit digits unit)
    rw [rateKbit, Int.natCast_mul] at bounds
    simp only [small, if_true, kbitOf_text small, true_and, rateKbit, ← bounds]
    simp only [Bool.not_true, Bool.false_eq_true, if_false]
    split
    · simp only [reduceCtorEq, false_iff]
      omega
    · split
      · simp only [reduceCtorEq, false_iff]
        omega
      · simp only [true_iff]
        omega
  · have refused : ¬(decimal digits < 2 ^ 63 ∧
        InRange (rateKbit digits unit % 2 ^ 64)) := fun both => small both.1
    rw [if_neg small]
    exact iff_of_false (by simp) refused

theorem accepted_cases {r : Text} (accepted : validateRate r = none) :
    r = "0".toList ∨ ∃ digits unit, Spelled r digits unit ∧
      decimal digits < 2 ^ 63 ∧ InRange (rateKbit digits unit % 2 ^ 64) := by
  by_cases zero : r = "0".toList
  · exact .inl zero
  · by_cases matched : rateRE r = true
    · obtain ⟨digits, unit, spelled⟩ := spelled_of_rateRE matched
      exact .inr ⟨digits, unit, spelled, spelled.accepted_iff.mp accepted⟩
    · rw [validateRate, if_neg zero] at accepted
      simp [matched] at accepted

theorem mod_of_inRange {kbit : Nat} (range : InRange kbit) :
    kbit % 2 ^ 64 = kbit := by
  apply Nat.mod_eq_of_lt
  have upper := range.2
  omega

theorem checksRate_iff (r : Text) : ChecksRate r ↔ ¬WrapsIntoRange r := by
  constructor
  · rintro ⟨sound, _⟩ ⟨digits, spelled, small, outside, wrapped⟩
    have accepted := spelled.accepted_iff.mpr ⟨small, wrapped⟩
    rcases sound accepted with zero | ⟨digits', unit', other, range⟩
    · exact spelled.ne_zero zero
    · obtain ⟨rfl, rfl⟩ := spelled.unique other
      exact outside range
  · intro noWrap
    constructor
    · intro accepted
      rcases accepted_cases accepted with zero | ⟨digits, unit, spelled, small,
        wrapped⟩
      · exact .inl zero
      · refine .inr ⟨digits, unit, spelled, ?_⟩
        cases unit with
        | kbit =>
            have same : rateKbit digits .kbit % 2 ^ 64 =
                rateKbit digits .kbit := by
              apply Nat.mod_eq_of_lt
              simp only [rateKbit, RateUnit.factor]
              omega
            rwa [same] at wrapped
        | mbit =>
            by_contra outside
            exact noWrap ⟨digits, spelled, small, outside, wrapped⟩
    · rintro (zero | ⟨digits, unit, spelled, range, small⟩)
      · rw [validateRate, if_pos zero]
      · apply spelled.accepted_iff.mpr
        rw [mod_of_inRange range]
        exact ⟨small, range⟩

/-- `18446744073709552 * 1000` is 384 modulo `2 ^ 64`. -/
theorem huge_rate_is_accepted : ¬∀ r, ChecksRate r := by
  intro always
  have wraps : ∀ digits, digits ≠ [] → digits.all isDigit = true →
      decimal digits = 18446744073709552 →
      WrapsIntoRange (digits ++ RateUnit.mbit.text) := by
    intro digits nonempty all number
    refine ⟨digits, ⟨rfl, nonempty, all⟩, ?_, ?_, ?_⟩
    · omega
    · rw [InRange, rateKbit, RateUnit.factor]
      omega
    · rw [InRange, rateKbit, RateUnit.factor]
      omega
  have huge := wraps "18446744073709552".toList (by decide) (by decide)
    (by decide)
  exact (checksRate_iff _).mp (always _) huge

end Httpd
