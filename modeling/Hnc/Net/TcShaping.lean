import Hnc.Json.Commands
import Hnc.Lib.AwkNumber
import Mathlib.Algebra.Order.Floor.Ring
import Mathlib.Data.Rat.Floor
import Mathlib.Logic.Function.Basic

/-!
# Limits and delays in `bin/tc_manager.sh`

The HTB trees of the hotspot interface and of `ifb0`, with one class and one
netem leaf for each mark.  SQM is off, HTB, netem and the uplink are supported,
every `tc` command succeeds and `tc … show` prints what was last set.  Bursts,
filters, the ingress redirect and the class `1:9999` are left out: no function
below reads them.
-/

namespace Hnc.TcShaping

/-- The hotspot interface (egress) and `ifb0` (ingress). -/
inductive Dev where
  | iface
  | ifb0
deriving DecidableEq, Repr

/-- A netem qdisc: milliseconds, milliseconds and per cent. -/
structure Netem where
  delay : Int
  jitter : ℚ
  loss : ℚ
deriving DecidableEq, Repr

/-- `netem delay 0ms`. -/
def Netem.zero : Netem :=
  ⟨0, 0, 0⟩

/-- The qdiscs and classes of a device: `htb` is the qdisc with handle `1:`,
`rate m` the rate and the ceiling of the class `1:m` in kbit, `leaf m` the netem
below it. -/
structure Tree where
  htb : Bool
  rate : Nat → Option Nat
  leaf : Nat → Option Netem

abbrev Net := Dev → Tree

/-- No qdisc of this script. -/
def Tree.bare : Tree :=
  ⟨false, fun _ => none, fun _ => none⟩

/-- `1000mbit`. -/
def DEFAULT_RATE : Nat :=
  1000000

/-! ## Commands -/

/-- `tc qdisc replace dev … root handle 1: htb`: the classes below the old root
go with it. -/
def tc_root_htb (net : Net) (dev : Dev) : Net :=
  Function.update net dev ⟨true, fun _ => none, fun _ => none⟩

/-- `tc class change`, and `tc class add` where there is no such class. -/
def tc_class_set (net : Net) (dev : Dev) (class_id rate : Nat) : Net :=
  Function.update net dev
    { net dev with
      rate := Function.update (net dev).rate class_id (some rate) }

/-- `tc class add`, which leaves a class that exists alone. -/
def tc_class_add (net : Net) (dev : Dev) (class_id rate : Nat) : Net :=
  if ((net dev).rate class_id).isSome then net
  else tc_class_set net dev class_id rate

/-- `tc qdisc replace dev … parent 1:class_id … netem`. -/
def tc_leaf_replace (net : Net) (dev : Dev) (class_id : Nat) (netem : Netem) :
    Net :=
  Function.update net dev
    { net dev with
      leaf := Function.update (net dev).leaf class_id (some netem) }

/-! ## Numbers -/

def gt0 (value : ℚ) : Bool :=
  decide (0 < value)

/-- `printf "%.6f"`: ties go to the even digit. -/
def fixed6 (value : ℚ) : ℚ :=
  let scaled : ℚ := value * 10 ^ 6
  let below : Int := ⌊scaled⌋
  let rest : ℚ := scaled - below
  if rest < 1 / 2 ∨ rest = 1 / 2 ∧ below % 2 = 0 then below / 10 ^ 6
  else (below + 1) / 10 ^ 6

/-- In kbit, for a value without a unit. -/
def mbps_to_rate (val : ℚ) : Nat :=
  let mbps := fixed6 val
  if gt0 mbps then
    let kbps := ⌊mbps * 1000 + 1 / 2⌋.toNat
    if kbps < 1 then 1 else kbps
  else 64

/-- The QoS settings that the rates of the downlink depend on. -/
structure Qos where
  root_fallback : Bool
  scale : Nat

def qos_effective_mbps_for_downlink (qos : Qos) (requested : ℚ) : ℚ :=
  if qos.root_fallback then fixed6 (requested * qos.scale / 100)
  else fixed6 requested

/-- A value of `$(( … ))` in a shell with integers of `bits` bits. -/
def shellInt (bits : Nat) (value : Int) : Int :=
  value.bmod (2 ^ bits)

/-- The values that the shell's integers can hold. -/
def FitsShell (bits : Nat) (value : Int) : Prop :=
  -2 ^ (bits - 1) ≤ value ∧ value < 2 ^ (bits - 1)

/-- `1 ≤ mid ≤ 99`. -/
def _validate_mark_id (mid : Nat) : Bool :=
  !(mid < 1 || mid > 99)

/-! ## The trees -/

/-- `grep -q 'class htb 1:1'` holds of the line of any class whose number begins
with the digit one. -/
def egress_htb_tree_ready (net : Net) : Bool :=
  (net .iface).htb &&
    (List.range 100).any fun class_id =>
      (Nat.toDigits 10 class_id).head? == some '1' &&
        ((net .iface).rate class_id).isSome

/-- A root qdisc `htb 1:` stays, any other one is replaced. -/
def init_tc (net : Net) : Net :=
  let net := if (net .iface).htb then net else tc_root_htb net .iface
  let net := tc_class_add net .iface 1 DEFAULT_RATE
  let net := if (net .ifb0).htb then net else tc_root_htb net .ifb0
  tc_class_add net .ifb0 1 DEFAULT_RATE

def ensure_egress_htb_ready (net : Net) : Net :=
  if egress_htb_tree_ready net then net else init_tc net

def ensure_ifb_root_v1 (net : Net) : Net :=
  if (net .ifb0).htb then net
  else
    let net := tc_root_htb net .ifb0
    tc_class_add net .ifb0 1 DEFAULT_RATE

def class_exists (net : Net) (dev : Dev) (class_id : Nat) : Bool :=
  ((net dev).rate class_id).isSome

def leaf_has_netem (net : Net) (dev : Dev) (class_id : Nat) : Bool :=
  ((net dev).leaf class_id).isSome

def leaf_has_active_netem (net : Net) (dev : Dev) (class_id : Nat) : Bool :=
  match (net dev).leaf class_id with
  | none => false
  | some netem => netem.delay != 0 || gt0 netem.loss

def netem_leaf_replace_zero (net : Net) (dev : Dev) (class_id : Nat) : Net :=
  tc_leaf_replace net dev class_id .zero

/-- The class part of `ensure_device_class`: the rate of a class is written back,
a new class gets the default rate. -/
def ensureClass (net : Net) (dev : Dev) (class_id : Nat) : Net :=
  let saved_rate := (net dev).rate class_id
  let use_rate := saved_rate.getD DEFAULT_RATE
  if class_exists net dev class_id then
    tc_class_set net dev class_id use_rate
  else
    let net := if dev = .ifb0 then net else ensure_egress_htb_ready net
    tc_class_add net dev class_id use_rate

/-- The leaf part: a netem stays as it is. -/
def ensureLeaf (net : Net) (dev : Dev) (class_id : Nat) : Net :=
  if leaf_has_active_netem net dev class_id then net
  else if leaf_has_netem net dev class_id then net
  else netem_leaf_replace_zero net dev class_id

def ensure_device_class (net : Net) (dev : Dev) (class_id : Nat) : Net :=
  ensureLeaf (ensureClass net dev class_id) dev class_id

def set_rate_only (net : Net) (dev : Dev) (class_id rate : Nat) : Net :=
  tc_class_set net dev class_id rate

/-- The arguments of `netem`: a jitter goes with a delay only. -/
def netemArgs (delay_ms : Int) (jitter_ms loss : ℚ) : Netem :=
  if gt0 delay_ms || gt0 jitter_ms || gt0 loss then
    { delay := if gt0 delay_ms then delay_ms else 0
      jitter := if gt0 delay_ms && gt0 jitter_ms then jitter_ms else 0
      loss := if gt0 loss then loss else 0 }
  else .zero

def set_netem_only (net : Net) (dev : Dev) (class_id : Nat)
    (delay_ms : Int) (jitter_ms loss : ℚ) : Net :=
  tc_leaf_replace net dev class_id (netemArgs delay_ms jitter_ms loss)

/-! ## The three actions -/

/-- One direction of `set_limit`: a limit makes the tree and the class ready and
sets the rate, a limit of zero sets the default rate of a class that exists. -/
def limitDirection (ready : Net → Net) (net : Net) (dev : Dev) (mark_id : Nat)
    (mbps : ℚ) (rate : Nat) : Net :=
  if gt0 mbps then
    let net := ready net
    let net := ensure_device_class net dev mark_id
    set_rate_only net dev mark_id rate
  else if class_exists net dev mark_id then
    set_rate_only net dev mark_id DEFAULT_RATE
  else net

def set_limit (qos : Qos) (net : Net) (mark_id : Nat) (down_mbps up_mbps : ℚ) :
    Net :=
  if !_validate_mark_id mark_id then net
  else
    let net :=
      limitDirection ensure_egress_htb_ready net .iface mark_id down_mbps
        (mbps_to_rate (qos_effective_mbps_for_downlink qos down_mbps))
    limitDirection ensure_ifb_root_v1 net .ifb0 mark_id up_mbps
      (mbps_to_rate up_mbps)

/-- The share of the interface and of `ifb0` in the round trip. -/
def delayHalves (bits : Nat) (delay_ms : Int) : Int × Int :=
  if gt0 delay_ms then
    ((shellInt bits (delay_ms + 1)).tdiv 2, (shellInt bits delay_ms).tdiv 2)
  else (0, 0)

def set_delay (bits : Nat) (net : Net) (mark_id : Nat)
    (delay_ms : Int) (jitter_ms loss : ℚ) : Net :=
  if !_validate_mark_id mark_id then net
  else
    let (delay_eg, delay_ig) := delayHalves bits delay_ms
    if gt0 delay_ms || gt0 jitter_ms || gt0 loss then
      let net := ensure_egress_htb_ready net
      let net := ensure_device_class net .iface mark_id
      let net := ensure_device_class net .ifb0 mark_id
      let net := set_netem_only net .iface mark_id delay_eg jitter_ms loss
      set_netem_only net .ifb0 mark_id delay_ig jitter_ms loss
    else
      let net :=
        if class_exists net .iface mark_id then
          set_netem_only net .iface mark_id 0 0 0
        else net
      if class_exists net .ifb0 mark_id then
        set_netem_only net .ifb0 mark_id 0 0 0
      else net

def set_all (qos : Qos) (bits : Nat) (net : Net) (mark_id : Nat)
    (down_mbps up_mbps : ℚ) (delay_ms : Int) (jitter_ms loss : ℚ) : Net :=
  let net := set_limit qos net mark_id down_mbps up_mbps
  set_delay bits net mark_id delay_ms jitter_ms loss

end Hnc.TcShaping

/-!
## The rates of `bin/tc_manager.sh` as texts

`mbps_to_rate` takes a rate in Mbit/s, or with a unit behind it, and prints it
in kbit.  On a decimal without a unit it does what `TcShaping.mbps_to_rate`
does on its value.  A value is one line.
-/

namespace Hnc.TcRates

open Posix JsonText
open JsonSet (lower)

/-- `v + 0` for a variable that was set with `-v`. -/
def awkValue (text : Text) : ℚ :=
  awkNumber (assign text)

/-- `printf "%.6f"`. -/
def printf6 (value : ℚ) : Text :=
  let millionths := ⌊TcShaping.fixed6 value * 10 ^ 6⌋.natAbs
  (if value < 0 then ['-'] else []) ++ Nat.toDigits 10 (millionths / 10 ^ 6) ++
    '.' :: (Nat.toDigits 10 (millionths % 10 ^ 6)).leftpad 6 '0'

/-- The value ends in a word, whatever the case of its letters is. -/
def endsIn (val word : Text) : Bool :=
  lower (val.drop (val.length - word.length)) == word

/-- `s/word$//`. -/
def cutEnd (val word : Text) : Text :=
  if endsIn val word then val.take (val.length - word.length) else val

def kiloUnits : List Text :=
  ["kbit".toList, "kbps".toList, "k".toList]

def megaUnits : List Text :=
  ["mbit".toList, "mbps".toList, "m".toList]

def rate_to_mbps_num (val : Text) : Text :=
  if kiloUnits.any (endsIn val) then
    printf6 (awkValue (kiloUnits.foldl cutEnd val) / 1000)
  else if megaUnits.any (endsIn val) then
    printf6 (awkValue (megaUnits.foldl cutEnd val))
  else printf6 (awkValue val)

def mbps_to_rate (val : Text) : Text :=
  let mbps := awkValue (rate_to_mbps_num val)
  if TcShaping.gt0 mbps then
    let kbps := ⌊mbps * 1000 + 1 / 2⌋.toNat
    Nat.toDigits 10 (if kbps < 1 then 1 else kbps) ++ "kbit".toList
  else "64kbit".toList

theorem fixed6_millionths (value : ℚ) :
    ((⌊TcShaping.fixed6 value * 10 ^ 6⌋ : Int) : ℚ) / 10 ^ 6 =
      TcShaping.fixed6 value := by
  have scaled : ∀ n : Int, (n : ℚ) / 10 ^ 6 * 10 ^ 6 = n := by
    intro n
    field_simp
  rw [TcShaping.fixed6]
  split
  · rw [scaled, Int.floor_intCast]
  · have next : ((⌊value * 10 ^ 6⌋ : ℚ) + 1) =
        ((⌊value * 10 ^ 6⌋ + 1 : Int) : ℚ) := by
      push_cast
      rfl
    rw [next, scaled, Int.floor_intCast]

theorem fixed6_nonneg {value : ℚ} (nonneg : 0 ≤ value) :
    0 ≤ TcShaping.fixed6 value := by
  have below : (0 : ℚ) ≤ ⌊value * 10 ^ 6⌋ := by
    have floor : 0 ≤ ⌊value * 10 ^ 6⌋ := Int.floor_nonneg.mpr (by positivity)
    exact_mod_cast floor
  rw [TcShaping.fixed6]
  split <;> positivity

/-- A whole number of millionths is printed as it is. -/
theorem fixed6_of_millionths (n : Int) :
    TcShaping.fixed6 ((n : ℚ) / 10 ^ 6) = n / 10 ^ 6 := by
  have scaled : (n : ℚ) / 10 ^ 6 * 10 ^ 6 = n := by
    field_simp
  simp [TcShaping.fixed6]

theorem awkNumber_printf6 {value : ℚ} (nonneg : 0 ≤ value) :
    awkNumber (printf6 value) = TcShaping.fixed6 value := by
  have positive : ¬value < 0 := not_lt.mpr nonneg
  have millionths := fixed6_millionths value
  have floor : 0 ≤ ⌊TcShaping.fixed6 value * 10 ^ 6⌋ := by
    have fixed := fixed6_nonneg nonneg
    exact Int.floor_nonneg.mpr (by positivity)
  obtain ⟨n, same⟩ := Int.eq_ofNat_of_zero_le floor
  rw [same] at millionths
  have small : n % 10 ^ 6 < 10 ^ 6 := Nat.mod_lt _ (by decide)
  have split : ((n : Nat) : ℚ) =
      10 ^ 6 * (n / 10 ^ 6 : Nat) + (n % 10 ^ 6 : Nat) := by
    have parts := Nat.div_add_mod n (10 ^ 6)
    exact_mod_cast parts.symm
  rw [printf6, same, if_neg positive, List.nil_append,
    awkNumber_point (all_toDigits _) Nat.toDigits_ne_nil
      (all_leftpad_toDigits _ _), Int.natAbs_natCast, digitsValue_toDigits,
    digitsValue_leftpad, length_leftpad_toDigits (by decide) small,
    ← millionths]
  rw [Int.cast_natCast, split]
  field_simp

variable {c : Char}

theorem lower_digit (digit : isDigit c = true) : lower [c] = [c] := by
  simp only [isDigit, Bool.and_eq_true, decide_eq_true_eq] at digit
  have below : ¬('A'.toNat ≤ c.toNat ∧ c.toNat ≤ 'Z'.toNat) := by
    have nine : '9'.toNat < 'A'.toNat := by decide
    omega
  rw [lower, List.map_singleton, if_neg below]

variable {init : Text}

theorem endsIn_digit {d : Char} (digit : isDigit c = true)
    (letter : isDigit d = false) (front : Text) :
    endsIn (init ++ [c]) (front ++ [d]) = false := by
  rw [endsIn, beq_eq_false_iff_ne]
  intro same
  have last := congrArg List.getLast? same
  rw [List.getLast?_concat, lower, List.getLast?_map, List.getLast?_drop] at last
  split at last
  · cases last
  · have lowered := lower_digit digit
    simp only [lower, List.map_cons, List.map_nil, List.cons.injEq, and_true]
      at lowered
    rw [List.getLast?_concat, Option.map_some, lowered] at last
    rw [Option.some.inj last, letter] at digit
    cases digit

theorem unit_last {word : Text} (listed : word ∈ kiloUnits ++ megaUnits) :
    ∃ front d, word = front ++ [d] ∧ isDigit d = false := by
  simp only [kiloUnits, megaUnits, List.cons_append, List.nil_append,
    List.mem_cons, List.not_mem_nil, or_false] at listed
  rcases listed with rfl | rfl | rfl | rfl | rfl | rfl
  · exact ⟨"kbi".toList, 't', rfl, by decide⟩
  · exact ⟨"kbp".toList, 's', rfl, by decide⟩
  · exact ⟨[], 'k', rfl, by decide⟩
  · exact ⟨"mbi".toList, 't', rfl, by decide⟩
  · exact ⟨"mbp".toList, 's', rfl, by decide⟩
  · exact ⟨[], 'm', rfl, by decide⟩

theorem rate_to_mbps_num_digit (digit : isDigit c = true) :
    rate_to_mbps_num (init ++ [c]) = printf6 (awkValue (init ++ [c])) := by
  have none : ∀ word ∈ kiloUnits ++ megaUnits,
      endsIn (init ++ [c]) word = false := by
    intro word listed
    obtain ⟨front, d, rfl, letter⟩ := unit_last listed
    exact endsIn_digit digit letter front
  have kilo : kiloUnits.any (endsIn (init ++ [c])) = false := by
    apply List.any_eq_false.mpr
    intro word listed
    simp [none word (List.mem_append_left _ listed)]
  have mega : megaUnits.any (endsIn (init ++ [c])) = false := by
    apply List.any_eq_false.mpr
    intro word listed
    simp [none word (List.mem_append_right _ listed)]
  rw [rate_to_mbps_num, kilo, mega]
  rfl

theorem noBackslash_printf6 (value : ℚ) : '\\' ∉ printf6 value := by
  have digits : ∀ {text : Text}, text.all isDigit = true → '\\' ∉ text := by
    intro text all member
    exact absurd (List.all_eq_true.mp all _ member) (by decide)
  have sign : '\\' ∉ (if value < 0 then ['-'] else []) := by
    split <;> simp
  simp only [printf6, List.mem_append, List.mem_cons, not_or]
  exact ⟨⟨sign, digits (all_toDigits _)⟩, by decide,
    digits (all_leftpad_toDigits _ _)⟩

/-- The script does on a decimal what the rates are computed with. -/
theorem mbps_to_rate_digit (digit : isDigit c = true) (plain : '\\' ∉ init ++ [c])
    (nonneg : 0 ≤ awkNumber (init ++ [c])) :
    mbps_to_rate (init ++ [c]) =
      Nat.toDigits 10 (TcShaping.mbps_to_rate (awkNumber (init ++ [c]))) ++
        "kbit".toList := by
  have read : awkValue (rate_to_mbps_num (init ++ [c])) =
      TcShaping.fixed6 (awkNumber (init ++ [c])) := by
    rw [rate_to_mbps_num_digit digit, awkValue,
      assign_of_no_backslash (noBackslash_printf6 _), awkValue,
      assign_of_no_backslash plain, awkNumber_printf6 nonneg]
  rw [mbps_to_rate, read, TcShaping.mbps_to_rate]
  split
  · rfl
  · rfl

theorem mbps_to_rate_kbit {kbit : Nat} (positive : 0 < kbit) :
    TcShaping.mbps_to_rate ((kbit : ℚ) / 1000) = kbit := by
  have exact : TcShaping.fixed6 ((kbit : ℚ) / 1000) = kbit / 1000 := by
    have scaled := fixed6_of_millionths ((kbit * 1000 : Nat) : Int)
    have same : (((kbit * 1000 : Nat) : Int) : ℚ) / 10 ^ 6 = (kbit : ℚ) / 1000 := by
      push_cast
      ring
    rwa [same] at scaled
  have above : TcShaping.gt0 ((kbit : ℚ) / 1000) = true := by
    exact decide_eq_true (by positivity)
  have rounded : ⌊(kbit : ℚ) / 1000 * 1000 + 1 / 2⌋ = (kbit : Int) := by
    have back : (kbit : ℚ) / 1000 * 1000 = kbit := by
      field_simp
    rw [Int.floor_eq_iff]
    constructor
    · push_cast
      linarith
    · push_cast
      linarith
  have large : ¬kbit < 1 := by omega
  rw [TcShaping.mbps_to_rate, exact, above, rounded]
  simp [large]

end Hnc.TcRates
