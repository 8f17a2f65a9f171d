import Hnc.Httpd.ValidateRate
import Hnc.Json.Settings
import Hnc.Net.TcShaping

/-!
# An accepted rate on its way to `tc`

`rateToMbpsStr` of `action.go` writes a rate in Mbit/s.  Kilobits are read as an
integer and written anew, megabits are passed on as they were typed, so that a
zero in front of them stays and the number is no JSON.
-/

namespace Httpd

open Posix JsonText

/-- `fracStr[len(fracStr)-1] == '0'` on the reversed digits. -/
def dropZeros : Text → Text
  | '0' :: c :: rest => dropZeros (c :: rest)
  | digits => digits

/-- The loop over the zeros at the end of `fracStr`. -/
def trimZeros (fracStr : Text) : Text :=
  (dropZeros fracStr.reverse).reverse

/-- `rateToMbpsStr` fails with the error of `strconv.Atoi`, with the unit it
does not know, or without a unit. -/
inductive MbpsError where
  | atoi (nStr : Text)
  | unknownUnit (unit : Text)
  | noUnit (r : Text)
deriving DecidableEq, Repr

def kbitToMbps (n : Nat) : Text :=
  if n = 0 then "0".toList
  else if n % 1000 = 0 then Nat.toDigits 10 (n / 1000)
  else
    Nat.toDigits 10 (n / 1000) ++
      '.' :: trimZeros ((Nat.toDigits 10 (n % 1000)).leftpad 3 '0')

def rateToMbpsStr (r : Text) : Except MbpsError Text :=
  if r = [] ∨ r = "0".toList then .ok "0".toList
  else
    let nStr := r.takeWhile isDigit
    let unit := r.dropWhile isDigit
    if unit = [] then .error (.noUnit r)
    else if unit = "mbit".toList then .ok nStr
    else if unit = "kbit".toList then
      match parseInt nStr with
      | none => .error (.atoi nStr)
      | some n => .ok (kbitToMbps n.toNat)
    else .error (.unknownUnit unit)

/-- The rate is passed on as a JSON number, and `tc` is told exactly its
kilobits. -/
def ComesBack (r : Text) (kbit : Nat) : Prop :=
  ∃ mbps, rateToMbpsStr r = .ok mbps ∧
    Derives .value mbps (.number mbps) ∧
    Hnc.TcRates.mbps_to_rate mbps = Nat.toDigits 10 kbit ++ "kbit".toList

/-- Megabits with a zero in front. -/
def PaddedMbit (digits : Text) (unit : RateUnit) : Prop :=
  unit = .mbit ∧ digits.head? = some '0'

/-! ### Kilobits as a decimal -/

theorem digitsValue_eq (digits : Text) : digitsValue digits = decimal digits := by
  rw [digitsValue, Nat.ofDigitChars_eq_foldl, decimal]
  simp only [Nat.mul_comm]

/-- The zeros at the end of the places do not count. -/
theorem dropZeros_spec {reversed : Text} (nonempty : reversed ≠ [])
    (all : reversed.all isDigit = true) :
    dropZeros reversed ≠ [] ∧ (dropZeros reversed).all isDigit = true ∧
      (digitsValue (dropZeros reversed).reverse : ℚ) /
          10 ^ (dropZeros reversed).length =
        digitsValue reversed.reverse / 10 ^ reversed.length := by
  induction reversed using dropZeros.induct with
  | case1 c rest induction =>
      simp only [List.all_cons, Bool.and_eq_true] at all
      obtain ⟨kept, digits, value⟩ := induction (by simp) (by simp [all.2])
      refine ⟨kept, digits, value.trans ?_⟩
      have zero : digitsValue ['0'] = 0 := by decide
      have appended := digitsValue_append (c :: rest).reverse ['0']
      rw [zero, List.length_singleton, ← List.reverse_cons] at appended
      have longer : ('0' :: c :: rest).length = (c :: rest).length + 1 := rfl
      rw [appended, longer]
      push_cast
      field_simp
      ring
  | case2 digits other =>
      have same : dropZeros digits = digits := by
        unfold dropZeros
        split
        · rename_i c rest
          exact absurd rfl (other c rest)
        · rfl
      rw [same]
      exact ⟨nonempty, all, rfl⟩

theorem trimZeros_spec {places : Text} (nonempty : places ≠ [])
    (all : places.all isDigit = true) :
    trimZeros places ≠ [] ∧ (trimZeros places).all isDigit = true ∧
      (digitsValue (trimZeros places) : ℚ) / 10 ^ (trimZeros places).length =
        digitsValue places / 10 ^ places.length := by
  obtain ⟨kept, digits, value⟩ := dropZeros_spec
    (List.reverse_ne_nil_iff.mpr nonempty) (by simpa using all)
  refine ⟨?_, ?_, ?_⟩
  · simpa [trimZeros] using kept
  · simpa [trimZeros] using digits
  · simpa [trimZeros] using value

/-- A JSON number that ends in a digit, with its value. -/
structure Decimal (text : Text) (value : ℚ) : Prop where
  number : Number text
  last : ∃ init c, text = init ++ [c] ∧ isDigit c = true
  plain : '\\' ∉ text
  value : awkNumber text = value

theorem last_digit {digits : Text} (nonempty : digits ≠ [])
    (all : digits.all isDigit = true) :
    ∃ init c, digits = init ++ [c] ∧ isDigit c = true := by
  rcases List.eq_nil_or_concat digits with empty | ⟨init, c, split⟩
  · exact absurd empty nonempty
  · rw [List.concat_eq_append] at split
    refine ⟨init, c, split, ?_⟩
    exact List.all_eq_true.mp all c (by simp [split])

theorem noBackslash_digits {digits : Text} (all : digits.all isDigit = true) :
    '\\' ∉ digits := by
  intro member
  exact absurd (List.all_eq_true.mp all _ member) (by decide)

theorem Decimal.whole (n : Nat) : Decimal (Nat.toDigits 10 n) n where
  number := by
    simpa using Number.parts (.inl rfl) (integer_toDigits n) .absent .absent
  last := last_digit Nat.toDigits_ne_nil (all_toDigits n)
  plain := noBackslash_digits (all_toDigits n)
  value := by
    rw [awkNumber_digits (all_toDigits n) Nat.toDigits_ne_nil,
      digitsValue_toDigits]

theorem decimal_kbitToMbps (n : Nat) : Decimal (kbitToMbps n) (n / 1000) := by
  have parts := Nat.div_add_mod n 1000
  rw [kbitToMbps]
  split
  · rename_i zero
    have none := Decimal.whole 0
    rw [zero]
    simpa using none
  · split
    · rename_i whole
      have same : ((n / 1000 : Nat) : ℚ) = n / 1000 := by
        rw [whole] at parts
        rw [eq_div_iff (by decide), mul_comm]
        exact_mod_cast parts
      rw [← same]
      exact .whole (n / 1000)
    · have small : n % 1000 < 10 ^ 3 := Nat.mod_lt _ (by decide)
      have places := length_leftpad_toDigits (by decide) small
      have allPlaces := all_leftpad_toDigits 3 (n % 1000)
      have nonempty : (Nat.toDigits 10 (n % 1000)).leftpad 3 '0' ≠ [] := by
        intro empty
        rw [empty] at places
        cases places
      obtain ⟨kept, digits, value⟩ := trimZeros_spec nonempty allPlaces
      rw [places, digitsValue_leftpad] at value
      generalize trimZeros ((Nat.toDigits 10 (n % 1000)).leftpad 3 '0') =
        fraction at kept digits value
      constructor
      case number =>
          simpa using Number.parts (.inl rfl) (integer_toDigits (n / 1000))
            (.digits ⟨kept, digits⟩) .absent
      case last =>
          obtain ⟨init, c, split, digit⟩ := last_digit kept digits
          exact ⟨Nat.toDigits 10 (n / 1000) ++ '.' :: init, c,
            by simp [split], digit⟩
      case plain =>
          simp only [List.mem_append, List.mem_cons, not_or]
          exact ⟨noBackslash_digits (all_toDigits _), by decide,
            noBackslash_digits digits⟩
      case value =>
          rw [awkNumber_point (all_toDigits _) Nat.toDigits_ne_nil digits,
            digitsValue_toDigits, value]
          have cast : (1000 : ℚ) * (n / 1000 : Nat) + (n % 1000 : Nat) = n := by
            exact_mod_cast parts
          rw [← cast]
          ring

/-- The script prints the kilobits of a decimal. -/
theorem Decimal.mbps_to_rate {text : Text} {kbit : Nat}
    (decimal : Decimal text (kbit / 1000)) (positive : 0 < kbit) :
    Hnc.TcRates.mbps_to_rate text =
      Nat.toDigits 10 kbit ++ "kbit".toList := by
  obtain ⟨init, c, split, digit⟩ := decimal.last
  have plain := decimal.plain
  have value := decimal.value
  rw [split] at plain value ⊢
  have nonneg : 0 ≤ awkNumber (init ++ [c]) := by
    rw [value]
    positivity
  rw [Hnc.TcRates.mbps_to_rate_digit digit plain nonneg, value,
    Hnc.TcRates.mbps_to_rate_kbit positive]

theorem isNumeral_digits {digits : Text} (nonempty : digits ≠ [])
    (all : digits.all isDigit = true) : Hnc.isNumeral digits = true := by
  obtain ⟨c, rest, rfl⟩ := List.exists_cons_of_ne_nil nonempty
  have first : isDigit c = true := by
    simp only [List.all_cons, Bool.and_eq_true] at all
    exact all.1
  have unsigned : c ≠ '-' := by
    rintro rfl
    exact absurd first (by decide)
  have none : rest.dropWhile isDigit = [] := by
    apply List.dropWhile_eq_nil_iff.mpr
    intro d member
    exact List.all_eq_true.mp all d (by simp [member])
  simp [Hnc.isNumeral, unsigned, first, none]

theorem number_digits_iff {digits : Text} (all : digits.all isDigit = true)
    (large : 0 < decimal digits) :
    Number digits ↔ digits.head? ≠ some '0' := by
  have nonempty : digits ≠ [] := by
    rintro rfl
    exact absurd large (by decide)
  have numeral := isNumeral_digits nonempty all
  rw [Hnc.number_iff_of_isNumeral numeral, Hnc.hasLeadingZero, numeral]
  obtain ⟨c, rest, rfl⟩ := List.exists_cons_of_ne_nil nonempty
  simp only [List.all_cons, Bool.and_eq_true] at all
  have unsigned : c ≠ '-' := by
    rintro rfl
    exact absurd all.1 (by decide)
  have sameText : (if (c :: rest).head? = some '-' then (c :: rest).tail
      else c :: rest) = c :: rest := by
    simp [unsigned]
  rw [sameText]
  by_cases zero : c = '0'
  · subst zero
    cases rest with
    | nil => exact absurd large (by decide)
    | cons d rest =>
        simp only [List.all_cons, Bool.and_eq_true] at all
        simp [all.2.1]
  · have other : (c :: rest).head? ≠ some '0' := by simpa using zero
    refine iff_of_true ?_ other
    split
    · rename_i same
      exact absurd (List.cons.inj same).1 zero
    · rfl

namespace Spelled

variable {r digits : Text} {unit : RateUnit}

theorem rateToMbpsStr_mbit (spelled : Spelled r digits .mbit) :
    rateToMbpsStr r = .ok digits := by
  have nonempty : r ≠ [] := by
    rw [spelled.text]
    simp [spelled.nonempty]
  rw [rateToMbpsStr, if_neg (not_or.mpr ⟨nonempty, spelled.ne_zero⟩)]
  simp only [spelled.takeWhile, spelled.dropWhile, RateUnit.text]
  rw [if_neg (by decide), if_pos trivial]

theorem rateToMbpsStr_kbit (spelled : Spelled r digits .kbit)
    (small : decimal digits < 2 ^ 63) :
    rateToMbpsStr r = .ok (kbitToMbps (decimal digits)) := by
  have nonempty : r ≠ [] := by
    rw [spelled.text]
    simp [spelled.nonempty]
  rw [rateToMbpsStr, if_neg (not_or.mpr ⟨nonempty, spelled.ne_zero⟩)]
  simp only [spelled.takeWhile, spelled.dropWhile, RateUnit.text,
    spelled.parseInt, if_pos small, Int.toNat_natCast]
  rw [if_neg (by decide), if_neg (by decide), if_pos trivial]

theorem awkNumber_mbit (spelled : Spelled r digits .mbit) :
    awkNumber digits = (rateKbit digits .mbit : ℚ) / 1000 := by
  rw [awkNumber_digits spelled.all spelled.nonempty, digitsValue_eq, rateKbit,
    RateUnit.factor]
  push_cast
  field_simp

end Spelled

/-- Of the accepted rates within the bounds exactly those come back that are no
megabits with a zero in front. -/
theorem rate_comes_back_iff {r digits : Text} {unit : RateUnit}
    (spelled : Spelled r digits unit) (accepted : validateRate r = none)
    (range : InRange (rateKbit digits unit)) :
    ComesBack r (rateKbit digits unit) ↔ ¬PaddedMbit digits unit := by
  have positive : 0 < rateKbit digits unit :=
    Nat.lt_of_lt_of_le (by decide) range.1
  have small := (spelled.accepted_iff.mp accepted).1
  cases unit with
  | kbit =>
      have none : ¬PaddedMbit digits .kbit := by
        rintro ⟨mbit, _⟩
        cases mbit
      have decimal := decimal_kbitToMbps (rateKbit digits .kbit)
      have same : rateKbit digits .kbit = Httpd.decimal digits := by
        rw [rateKbit, RateUnit.factor, Nat.one_mul]
      refine iff_of_true ⟨_, ?_, .number decimal.number,
        decimal.mbps_to_rate positive⟩ none
      rw [same]
      exact spelled.rateToMbpsStr_kbit small
  | mbit =>
      have large : 0 < decimal digits := Nat.pos_of_mul_pos_left positive
      have number := number_digits_iff spelled.all large
      constructor
      · rintro ⟨mbps, answered, derives, _⟩ ⟨_, zero⟩
        rw [spelled.rateToMbpsStr_mbit] at answered
        obtain rfl := Except.ok.inj answered
        have isNumber := Hnc.number_of_derives
          (isNumeral_digits spelled.nonempty spelled.all) derives
        exact number.mp isNumber zero
      · intro notPadded
        have unpadded : digits.head? ≠ some '0' :=
          fun zero => notPadded ⟨rfl, zero⟩
        have isNumber := number.mpr unpadded
        have decimal : Decimal digits (rateKbit digits .mbit / 1000) :=
          ⟨isNumber, last_digit spelled.nonempty spelled.all,
            noBackslash_digits spelled.all, spelled.awkNumber_mbit⟩
        exact ⟨digits, spelled.rateToMbpsStr_mbit, .number isNumber,
          decimal.mbps_to_rate positive⟩

theorem spelled_half : Spelled "0500kbit".toList "0500".toList .kbit :=
  ⟨by decide, by decide, by decide⟩

/-- `0500kbit` is passed on as `0.5`. -/
theorem padded_kbit_comes_back :
    ComesBack "0500kbit".toList (rateKbit "0500".toList .kbit) :=
  (rate_comes_back_iff spelled_half (by decide) ⟨by decide, by decide⟩).mpr
    (fun padded => absurd padded.1 (by decide))

theorem spelled_padded : Spelled "010mbit".toList "010".toList .mbit :=
  ⟨by decide, by decide, by decide⟩

/-- `010mbit` is passed on as `010`. -/
theorem padded_mbit_is_no_json :
    ¬∀ (r digits : Text) (unit : RateUnit), Spelled r digits unit →
      validateRate r = none → InRange (rateKbit digits unit) →
      ComesBack r (rateKbit digits unit) := by
  intro always
  have back := always _ _ _ spelled_padded (by decide)
    ⟨by decide, by decide⟩
  obtain ⟨mbps, answered, derives, _⟩ := back
  rw [spelled_padded.rateToMbpsStr_mbit] at answered
  obtain rfl := Except.ok.inj answered
  have isNumber := Hnc.number_of_derives (by decide) derives
  have unpadded := (number_digits_iff spelled_padded.all (by decide)).mp isNumber
  exact unpadded (by decide)

end Httpd
