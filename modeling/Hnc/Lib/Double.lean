import Mathlib.Algebra.Group.Nat.Defs
import Mathlib.Tactic.Common

/-!
# Integers as doubles

The double next to a natural number: a significand of 53 bits, and ties to the
even one.  Up to `2 ^ 53` every integer is a double.
-/

namespace Double

/-- The number of bits that do not fit into the significand. -/
def excess (n : Nat) : Nat :=
  n.log2 - 52

def round (n : Nat) : Nat :=
  let unit := 2 ^ excess n
  let below := n / unit
  let rest := 2 * (n % unit)
  if unit < rest ∨ rest = unit ∧ below % 2 = 1 then (below + 1) * unit
  else below * unit

variable {n : Nat}

theorem excess_of_lt (small : n < 2 ^ 53) : excess n = 0 := by
  rw [excess]
  rcases Nat.eq_zero_or_pos n with rfl | positive
  · simp
  · have := (Nat.log2_lt (by omega)).mpr small
    omega

theorem round_of_lt (small : n < 2 ^ 53) : round n = n := by
  simp [round, excess_of_lt small, Nat.mod_one]

theorem round_of_le (small : n ≤ 2 ^ 53) : round n = n := by
  rcases Nat.lt_or_eq_of_le small with below | rfl
  · exact round_of_lt below
  · decide +kernel

/-- The multiple of `unit` next to a number, ties to the even one. -/
def nearest (unit n : Nat) : Nat :=
  if unit < 2 * (n % unit) ∨ 2 * (n % unit) = unit ∧ n / unit % 2 = 1 then
    (n / unit + 1) * unit
  else n / unit * unit

theorem round_eq_nearest (n : Nat) : round n = nearest (2 ^ excess n) n :=
  rfl

theorem nearest_of_dvd {unit : Nat} (multiple : unit ∣ n) :
    nearest unit n = n := by
  rw [nearest, Nat.mod_eq_zero_of_dvd multiple, Nat.div_mul_cancel multiple]
  apply if_neg
  rintro (below | ⟨tie, _⟩)
  · exact absurd below (Nat.not_lt_zero _)
  · rw [← tie] at multiple
    have zero : n = 0 := Nat.eq_zero_of_zero_dvd multiple
    rename_i odd
    rw [zero] at odd
    simp at odd

theorem dvd_nearest (unit n : Nat) : unit ∣ nearest unit n := by
  rw [nearest]
  split
  · exact Nat.dvd_mul_left unit _
  · exact Nat.dvd_mul_left unit _

theorem le_nearest (unit n : Nat) : n / unit * unit ≤ nearest unit n := by
  rw [nearest]
  split
  · exact Nat.mul_le_mul_right unit (Nat.le_succ _)
  · exact Nat.le_refl _

theorem nearest_le (unit n : Nat) : nearest unit n ≤ (n / unit + 1) * unit := by
  rw [nearest]
  split
  · exact Nat.le_refl _
  · exact Nat.mul_le_mul_right unit (Nat.le_succ _)

variable {m : Nat}

theorem nearest_mono (unit : Nat) (le : m ≤ n) :
    nearest unit m ≤ nearest unit n := by
  rcases Nat.lt_or_eq_of_le (Nat.div_le_div_right le (c := unit)) with less | same
  · calc nearest unit m ≤ (m / unit + 1) * unit := nearest_le unit m
      _ ≤ n / unit * unit := Nat.mul_le_mul_right unit less
      _ ≤ nearest unit n := le_nearest unit n
  · have rests : m % unit ≤ n % unit := by
      have left := Nat.div_add_mod m unit
      have right := Nat.div_add_mod n unit
      rw [same] at left
      omega
    rw [nearest, nearest, same]
    split
    · have upToo : unit < 2 * (n % unit) ∨
          2 * (n % unit) = unit ∧ n / unit % 2 = 1 := by
        omega
      exact Nat.le_of_eq (if_pos upToo).symm
    · split
      · exact Nat.mul_le_mul_right unit (Nat.le_succ _)
      · exact Nat.le_refl _

theorem lt_pow_excess (n : Nat) : n < 2 ^ (53 + excess n) := by
  rcases Nat.eq_zero_or_pos n with zero | positive
  · rw [zero]
    exact Nat.two_pow_pos _
  · apply (Nat.log2_lt (Nat.pos_iff_ne_zero.mp positive)).mp
    rw [excess]
    omega

theorem pow_excess_le (large : 0 < excess n) : 2 ^ (52 + excess n) ≤ n := by
  have nonzero : n ≠ 0 := by
    intro zero
    rw [zero] at large
    exact absurd large (by decide)
  have exponent : 52 + excess n = n.log2 := by
    rw [excess] at large ⊢
    omega
  rw [exponent]
  exact Nat.log2_self_le nonzero

theorem excess_le_of_lt {bits : Nat} (less : n < 2 ^ (53 + bits)) :
    excess n ≤ bits := by
  rcases Nat.eq_zero_or_pos (excess n) with zero | large
  · rw [zero]
    exact Nat.zero_le bits
  · have powers := Nat.lt_of_le_of_lt (pow_excess_le large) less
    have exponents := (Nat.pow_lt_pow_iff_right Nat.one_lt_two).mp powers
    omega

theorem excess_mono (le : m ≤ n) : excess m ≤ excess n :=
  excess_le_of_lt (Nat.lt_of_le_of_lt le (lt_pow_excess n))

theorem round_le_pow (n : Nat) : round n ≤ 2 ^ (53 + excess n) := by
  have multiple : 2 ^ excess n ∣ 2 ^ (53 + excess n) :=
    Nat.pow_dvd_pow 2 (Nat.le_add_left _ _)
  calc round n ≤ nearest (2 ^ excess n) (2 ^ (53 + excess n)) :=
      nearest_mono _ (Nat.le_of_lt (lt_pow_excess n))
    _ = 2 ^ (53 + excess n) := nearest_of_dvd multiple

theorem pow_le_round (large : 0 < excess n) : 2 ^ (52 + excess n) ≤ round n := by
  have multiple : 2 ^ excess n ∣ 2 ^ (52 + excess n) :=
    Nat.pow_dvd_pow 2 (Nat.le_add_left _ _)
  calc 2 ^ (52 + excess n)
      = nearest (2 ^ excess n) (2 ^ (52 + excess n)) :=
      (nearest_of_dvd multiple).symm
    _ ≤ round n := nearest_mono _ (pow_excess_le large)

/-- Rounding keeps the order. -/
theorem round_mono (le : m ≤ n) : round m ≤ round n := by
  rcases Nat.lt_or_eq_of_le (excess_mono le) with less | same
  · calc round m ≤ 2 ^ (53 + excess m) := round_le_pow m
      _ ≤ 2 ^ (52 + excess n) := Nat.pow_le_pow_right Nat.two_pos (by omega)
      _ ≤ round n := pow_le_round (by omega)
  · rw [round_eq_nearest, same]
    exact nearest_mono _ le

theorem round_round (n : Nat) : round (round n) = round n := by
  have multiple : 2 ^ excess n ∣ round n := dvd_nearest _ n
  apply nearest_of_dvd
  rcases Nat.lt_or_eq_of_le (round_le_pow n) with less | power
  · exact Nat.dvd_trans (Nat.pow_dvd_pow 2 (excess_le_of_lt less)) multiple
  · rw [power]
    apply Nat.pow_dvd_pow 2
    have bound : excess (2 ^ (53 + excess n)) ≤ 1 + excess n := by
      apply excess_le_of_lt
      apply Nat.pow_lt_pow_right Nat.one_lt_two
      omega
    omega

/-- Beyond `2 ^ 53` only the even integers are doubles. -/
example : round (2 ^ 53 + 1) = 2 ^ 53 ∧ round (2 ^ 53 + 3) = 2 ^ 53 + 4 := by
  decide +kernel

end Double
