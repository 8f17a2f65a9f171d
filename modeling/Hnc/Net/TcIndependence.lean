import Hnc.Net.TcKnobs

/-!
# Limit and delay are independent knobs

What `set_limit`, `set_delay` and `set_all` do to the mark they name, and that
they leave the other marks alone.
-/

namespace Hnc.TcShaping

/-! ## Limits -/

/-- The tree of a device is there, and nothing else has changed. -/
structure Ready (dev : Dev) (before after : Net) : Prop where
  sound : Sound after
  built : (after dev).htb = true
  kept : ∀ mark, Undisturbed mark before after

theorem ready_ifb {net : Net} (sound : Sound net) :
    Ready .ifb0 net (ensure_ifb_root_v1 net) where
  sound := sound.plant .ifb0 (by simp)
  built := plant_htb sound .ifb0
  kept := undisturbed_plant sound .ifb0

theorem ready_egress {net : Net} (sound : Sound net) (dev : Dev) :
    Ready dev net (ensure_egress_htb_ready net) := by
  rw [ensure_egress_htb_ready_eq sound]
  have ifb := ready_ifb sound
  have soundBoth : Sound (plant (plant net .ifb0) .iface) :=
    ifb.sound.plant .iface fun _ => ifb.built
  refine ⟨soundBoth, ?_, fun mark =>
    (ifb.kept mark).trans (undisturbed_plant ifb.sound .iface mark)⟩
  cases dev with
  | iface => exact plant_htb ifb.sound .iface
  | ifb0 => exact plant_htb_of ifb.sound .iface ifb.built

/-- The rate that a limit asks for, the default rate for no limit. -/
def limitRate (mbps : ℚ) (rate : Nat) : Nat :=
  if gt0 mbps then rate else DEFAULT_RATE

section LimitDirection

variable {ready : Net → Net} {net : Net} {dev : Dev} (mark : Nat) (mbps : ℚ)
  (rate : Nat) (readied : Ready dev net (ready net))
include readied

theorem touches_limitDirection (sound : Sound net) :
    Touches mark net (limitDirection ready net dev mark mbps rate) := by
  rw [limitDirection]
  split
  · have touched :=
      touches_ensure_device_class mark readied.sound readied.built
    refine (Touches.of_undisturbed readied.sound readied.kept).trans
      (touched.trans (touches_tc_class_set touched.sound ?_ rate))
    exact built_of_class_exists touched.sound
      (class_exists_ensure_device_class readied.sound readied.built)
  · split
    · rename_i present
      exact touches_tc_class_set sound (built_of_class_exists sound present) _
    · exact .refl sound

theorem rateOf_limitDirection (other : Dev) (class_id : Nat) :
    rateOf (limitDirection ready net dev mark mbps rate) other class_id =
      if other = dev ∧ class_id = mark then limitRate mbps rate
      else rateOf net other class_id := by
  rw [limitDirection, limitRate]
  split
  · rw [set_rate_only, rateOf_tc_class_set,
      rateOf_ensure_device_class readied.sound readied.built,
      (readied.kept class_id).rateOf_eq]
  · split
    · exact rateOf_tc_class_set ..
    · split
      · rename_i here
        rw [rateOf]
        simp_all [class_exists]
      · rfl

theorem netemOf_limitDirection (other : Dev) (class_id : Nat) :
    netemOf (limitDirection ready net dev mark mbps rate) other class_id =
      netemOf net other class_id := by
  rw [limitDirection]
  split
  · rw [set_rate_only, netemOf_tc_class_set,
      netemOf_ensure_device_class readied.sound readied.built,
      (readied.kept class_id).netemOf_eq]
  · split
    · exact netemOf_tc_class_set ..
    · rfl

omit readied in
theorem class_exists_limitDirection (limited : gt0 mbps) :
    class_exists (limitDirection ready net dev mark mbps rate) dev mark := by
  rw [limitDirection, if_pos limited]
  exact class_exists_tc_class_set rate

end LimitDirection

def Dev.limitRate (qos : Qos) (down_mbps up_mbps : ℚ) : Dev → Nat
  | .iface =>
      TcShaping.limitRate down_mbps
        (mbps_to_rate (qos_effective_mbps_for_downlink qos down_mbps))
  | .ifb0 => TcShaping.limitRate up_mbps (mbps_to_rate up_mbps)

def Dev.mbps (down_mbps up_mbps : ℚ) : Dev → ℚ
  | .iface => down_mbps
  | .ifb0 => up_mbps

section SetLimit

variable (qos : Qos) {net : Net} (sound : Sound net) {mark : Nat}
  (down up : ℚ)
include sound

theorem touches_set_limit :
    Touches mark net (set_limit qos net mark down up) := by
  rw [set_limit]
  split
  · exact .refl sound
  · have first := touches_limitDirection mark down
      (mbps_to_rate (qos_effective_mbps_for_downlink qos down))
      (ready_egress sound .iface) sound
    exact first.trans
      (touches_limitDirection mark up _ (ready_ifb first.sound) first.sound)

variable (valid : _validate_mark_id mark)
include valid

theorem rateOf_set_limit (dev : Dev) :
    rateOf (set_limit qos net mark down up) dev mark =
      dev.limitRate qos down up := by
  have first := touches_limitDirection mark down
    (mbps_to_rate (qos_effective_mbps_for_downlink qos down))
    (ready_egress sound .iface) sound
  rw [set_limit, if_neg (by simp [valid]),
    rateOf_limitDirection _ _ _ (ready_ifb first.sound),
    rateOf_limitDirection _ _ _ (ready_egress sound .iface)]
  cases dev <;> simp [Dev.limitRate]

theorem netemOf_set_limit (dev : Dev) :
    netemOf (set_limit qos net mark down up) dev mark =
      netemOf net dev mark := by
  have first := touches_limitDirection mark down
    (mbps_to_rate (qos_effective_mbps_for_downlink qos down))
    (ready_egress sound .iface) sound
  rw [set_limit, if_neg (by simp [valid]),
    netemOf_limitDirection _ _ _ (ready_ifb first.sound),
    netemOf_limitDirection _ _ _ (ready_egress sound .iface)]

theorem class_exists_set_limit {dev : Dev} (limited : 0 < dev.mbps down up) :
    class_exists (set_limit qos net mark down up) dev mark := by
  have first := touches_limitDirection mark down
    (mbps_to_rate (qos_effective_mbps_for_downlink qos down))
    (ready_egress sound .iface) sound
  rw [set_limit, if_neg (by simp [valid])]
  cases dev with
  | iface =>
      apply (touches_limitDirection mark up _
        (ready_ifb first.sound) first.sound).stays
      exact class_exists_limitDirection mark down _ (decide_eq_true limited)
  | ifb0 =>
      exact class_exists_limitDirection mark up _ (decide_eq_true limited)

end SetLimit

/-! ## Delays -/

/-- The share of a device in a delay. -/
def Dev.half (bits : Nat) (delay_ms : Int) : Dev → Int
  | .iface => (delayHalves bits delay_ms).1
  | .ifb0 => (delayHalves bits delay_ms).2

theorem netemArgs_off {delay : Int} {jitter loss : ℚ}
    (off : ¬(gt0 delay || gt0 jitter || gt0 loss)) :
    netemArgs delay jitter loss = .zero := by
  rw [netemArgs, if_neg off]

theorem netemArgs_delay {delay : Int} (positive : 0 < delay)
    (jitter loss : ℚ) : (netemArgs delay jitter loss).delay = delay := by
  have positiveRat : gt0 delay = true := by
    simpa [gt0] using positive
  simp [netemArgs, positiveRat]

theorem netemArgs_delay_zero (jitter loss : ℚ) :
    (netemArgs 0 jitter loss).delay = 0 := by
  rw [netemArgs]
  split
  · simp [gt0]
  · rfl

theorem netemArgs_loss (delay : Int) (jitter loss : ℚ) :
    (netemArgs delay jitter loss).loss = if 0 < loss then loss else 0 := by
  rw [netemArgs]
  split
  · simp [gt0]
  · rename_i off
    simp only [gt0, Bool.or_eq_true, decide_eq_true_eq, not_or] at off
    rw [if_neg off.2]
    rfl

theorem delayHalves_of_nonpos (bits : Nat) {delay : Int} (off : delay ≤ 0) :
    delayHalves bits delay = (0, 0) := by
  rw [delayHalves, if_neg]
  simpa [gt0] using off

theorem half_of_nonpos (bits : Nat) {delay : Int} (off : delay ≤ 0)
    (dev : Dev) : dev.half bits delay = 0 := by
  cases dev <;> simp [Dev.half, delayHalves_of_nonpos bits off]

theorem shellInt_of_fits {bits : Nat} {value : Int} (nonneg : 0 ≤ value)
    (fits : FitsShell bits value) : shellInt bits value = value := by
  obtain ⟨_, below⟩ := fits
  cases bits with
  | zero =>
      have : value = 0 := by
        omega
      simp [shellInt, this]
  | succ bits =>
      rw [Nat.add_sub_cancel] at below
      have double : (2 : Int) ^ (bits + 1) = 2 * 2 ^ bits := by
        omega
      have power : ((2 ^ (bits + 1) : Nat) : Int) = 2 * 2 ^ bits := by
        rw [← double]
        norm_cast
      apply Int.bmod_eq_of_le_mul_two
      · omega
      · omega

theorem halves_add {delay : Int} (positive : 0 < delay) :
    (delay + 1).tdiv 2 + delay.tdiv 2 = delay := by
  rw [Int.tdiv_eq_ediv_of_nonneg (by omega),
    Int.tdiv_eq_ediv_of_nonneg (by omega)]
  omega

theorem netemArgs_half_delay (half : Int) (nonneg : 0 ≤ half)
    (jitter loss : ℚ) : (netemArgs half jitter loss).delay = half := by
  rcases nonneg.eq_or_lt with rfl | positive
  · exact netemArgs_delay_zero jitter loss
  · exact netemArgs_delay positive jitter loss

/-- The delays of the two directions make up the round trip. -/
theorem delays_add {bits : Nat} {delay : Int} (positive : 0 < delay)
    (fits : FitsShell bits (delay + 1)) (jitter loss : ℚ) :
    (netemArgs (Dev.iface.half bits delay) jitter loss).delay +
      (netemArgs (Dev.ifb0.half bits delay) jitter loss).delay = delay := by
  have below := fits.2
  have fitsDelay : FitsShell bits delay := by
    exact ⟨by omega, by omega⟩
  have gt : gt0 delay = true := by
    simpa [gt0] using positive
  have egress : Dev.iface.half bits delay = (delay + 1).tdiv 2 := by
    simp [Dev.half, delayHalves, gt, shellInt_of_fits (by omega) fits]
  have ingress : Dev.ifb0.half bits delay = delay.tdiv 2 := by
    simp [Dev.half, delayHalves, gt, shellInt_of_fits positive.le fitsDelay]
  rw [egress, ingress,
    netemArgs_half_delay _ (Int.tdiv_nonneg (by omega) (by decide)),
    netemArgs_half_delay _ (Int.tdiv_nonneg (by omega) (by decide))]
  exact halves_add positive

section ClearDelay

variable {net : Net} (sound : Sound net) (dev : Dev) (mark : Nat)

/-- A leaf that exists is reset. -/
def clearDelay (net : Net) (dev : Dev) (mark : Nat) : Net :=
  if class_exists net dev mark then set_netem_only net dev mark 0 0 0 else net

include sound

theorem touches_clearDelay : Touches mark net (clearDelay net dev mark) := by
  rw [clearDelay]
  split
  · rename_i present
    exact touches_tc_leaf_replace sound present _
  · exact .refl sound

theorem netemOf_clearDelay (other : Dev) :
    netemOf (clearDelay net dev mark) other mark =
      if other = dev then .zero else netemOf net other mark := by
  rw [clearDelay]
  split
  · rw [set_netem_only, netemOf_tc_leaf_replace,
      netemArgs_off (by simp [gt0])]
    simp
  · rename_i absent
    split
    · rename_i here
      have absentRate : (net dev).rate mark = none := by
        simpa [class_exists] using absent
      rw [here, netemOf, sound.hollow dev mark absentRate]
      rfl
    · rfl

omit sound in
theorem rateOf_clearDelay (other : Dev) :
    rateOf (clearDelay net dev mark) other mark = rateOf net other mark := by
  rw [clearDelay]
  split
  · exact rateOf_tc_leaf_replace ..
  · rfl

end ClearDelay

section SetDelay

variable (bits : Nat) {net : Net} (sound : Sound net) {mark : Nat}
  (delay : Int) (jitter loss : ℚ)

/-- The net before the two leaves are set. -/
def delayReady (net : Net) (mark : Nat) : Net :=
  ensure_device_class
    (ensure_device_class (ensure_egress_htb_ready net) .iface mark) .ifb0 mark

theorem set_delay_on (valid : _validate_mark_id mark)
    (on : gt0 delay || gt0 jitter || gt0 loss) :
    set_delay bits net mark delay jitter loss =
      tc_leaf_replace
        (tc_leaf_replace (delayReady net mark) .iface mark
          (netemArgs (Dev.iface.half bits delay) jitter loss))
        .ifb0 mark (netemArgs (Dev.ifb0.half bits delay) jitter loss) := by
  rw [set_delay, if_neg (by simp [valid])]
  exact if_pos on

theorem set_delay_off (valid : _validate_mark_id mark)
    (off : ¬(gt0 delay || gt0 jitter || gt0 loss)) :
    set_delay bits net mark delay jitter loss =
      clearDelay (clearDelay net .iface mark) .ifb0 mark := by
  rw [set_delay, if_neg (by simp [valid])]
  exact if_neg off

include sound

/-- Both classes are there, with the rates and the leaves of before. -/
theorem delayReady_spec (mark : Nat) :
    Touches mark net (delayReady net mark) ∧
      (∀ dev, class_exists (delayReady net mark) dev mark) ∧
      ∀ dev, rateOf (delayReady net mark) dev mark = rateOf net dev mark := by
  have egress := ready_egress sound .iface
  have ingress := ready_egress sound .ifb0
  have first :=
    touches_ensure_device_class mark egress.sound egress.built
  have built : (ensure_device_class (ensure_egress_htb_ready net) .iface mark
      .ifb0).htb = true := by
    rw [ensure_device_class_eq egress.sound egress.built, tc_leaf_replace_htb]
    exact ingress.built
  have second := touches_ensure_device_class mark first.sound built
  refine ⟨(Touches.of_undisturbed egress.sound egress.kept).trans
    (first.trans second), fun dev => ?_, fun dev => ?_⟩
  · cases dev with
    | iface =>
        exact second.stays .iface
          (class_exists_ensure_device_class egress.sound egress.built)
    | ifb0 => exact class_exists_ensure_device_class first.sound built
  · rw [delayReady, rateOf_ensure_device_class first.sound built,
      rateOf_ensure_device_class egress.sound egress.built]
    exact (egress.kept mark).rateOf_eq dev

theorem touches_set_delay :
    Touches mark net (set_delay bits net mark delay jitter loss) := by
  cases valid : _validate_mark_id mark with
  | false =>
      simp only [set_delay, valid]
      exact .refl sound
  | true =>
      by_cases on : gt0 delay || gt0 jitter || gt0 loss
      · rw [set_delay_on bits delay jitter loss valid on]
        obtain ⟨touched, present, _⟩ := delayReady_spec sound mark
        have first := touches_tc_leaf_replace touched.sound (present .iface)
          (netemArgs (Dev.iface.half bits delay) jitter loss)
        exact touched.trans (first.trans (touches_tc_leaf_replace first.sound
          (first.stays .ifb0 (present .ifb0)) _))
      · rw [set_delay_off bits delay jitter loss valid on]
        have first := touches_clearDelay sound .iface mark
        exact first.trans (touches_clearDelay first.sound .ifb0 mark)

variable (valid : _validate_mark_id mark)
include valid

theorem rateOf_set_delay (dev : Dev) :
    rateOf (set_delay bits net mark delay jitter loss) dev mark =
      rateOf net dev mark := by
  by_cases on : gt0 delay || gt0 jitter || gt0 loss
  · rw [set_delay_on bits delay jitter loss valid on, rateOf_tc_leaf_replace,
      rateOf_tc_leaf_replace]
    exact (delayReady_spec sound mark).2.2 dev
  · rw [set_delay_off bits delay jitter loss valid on, rateOf_clearDelay,
      rateOf_clearDelay]

theorem netemOf_set_delay (dev : Dev) :
    netemOf (set_delay bits net mark delay jitter loss) dev mark =
      netemArgs (dev.half bits delay) jitter loss := by
  by_cases on : gt0 delay || gt0 jitter || gt0 loss
  · rw [set_delay_on bits delay jitter loss valid on, netemOf_tc_leaf_replace,
      netemOf_tc_leaf_replace]
    cases dev <;> simp
  · rw [set_delay_off bits delay jitter loss valid on,
      netemOf_clearDelay (touches_clearDelay sound .iface mark).sound,
      netemOf_clearDelay sound]
    have zero : netemArgs (dev.half bits delay) jitter loss = .zero := by
      simp only [Bool.or_eq_true, not_or] at on
      have nonpos : delay ≤ 0 := by
        simpa [gt0] using on.1.1
      apply netemArgs_off
      simp only [half_of_nonpos bits nonpos, on.1.2, on.2]
      simp [gt0]
    rw [zero]
    cases dev <;> simp

theorem class_exists_set_delay (on : 0 < delay ∨ 0 < jitter ∨ 0 < loss)
    (dev : Dev) :
    class_exists (set_delay bits net mark delay jitter loss) dev mark := by
  have any : gt0 delay || gt0 jitter || gt0 loss := by
    simpa [gt0, or_assoc] using on
  rw [set_delay_on bits delay jitter loss valid any, class_exists,
    tc_leaf_replace_rate, tc_leaf_replace_rate]
  exact (delayReady_spec sound mark).2.1 dev

end SetDelay

/-! ## Runs -/

inductive Call where
  | limit (mark : Nat) (down up : ℚ)
  | delay (mark : Nat) (delay_ms : Int) (jitter loss : ℚ)
  | all (mark : Nat) (down up : ℚ) (delay_ms : Int) (jitter loss : ℚ)

def Call.mark : Call → Nat
  | .limit mark _ _ => mark
  | .delay mark _ _ _ => mark
  | .all mark _ _ _ _ _ => mark

def Call.apply (qos : Qos) (bits : Nat) (net : Net) : Call → Net
  | .limit mark down up => set_limit qos net mark down up
  | .delay mark delay_ms jitter loss =>
      set_delay bits net mark delay_ms jitter loss
  | .all mark down up delay_ms jitter loss =>
      set_all qos bits net mark down up delay_ms jitter loss

/-- The values of the last calls on a mark, and zero where there was none. -/
structure Knobs where
  down : ℚ
  up : ℚ
  delay_ms : Int
  jitter : ℚ
  loss : ℚ

def Call.turn (knobs : Knobs) : Call → Knobs
  | .limit _ down up => { knobs with down, up }
  | .delay _ delay_ms jitter loss => { knobs with delay_ms, jitter, loss }
  | .all _ down up delay_ms jitter loss => ⟨down, up, delay_ms, jitter, loss⟩

def knobsAfter (mark : Nat) (calls : List Call) : Knobs :=
  calls.foldl
    (fun knobs call => if call.mark = mark then call.turn knobs else knobs)
    ⟨0, 0, 0, 0, 0⟩

def run (qos : Qos) (bits : Nat) (start : Net) (calls : List Call) : Net :=
  calls.foldl (Call.apply qos bits) start

theorem Call.touches (qos : Qos) (bits : Nat) {net : Net} (sound : Sound net)
    (call : Call) : Touches call.mark net (call.apply qos bits net) := by
  cases call with
  | limit mark down up => exact touches_set_limit qos sound down up
  | delay mark delay_ms jitter loss =>
      exact touches_set_delay bits sound delay_ms jitter loss
  | all mark down up delay_ms jitter loss =>
      have first : Touches mark net (set_limit qos net mark down up) :=
        touches_set_limit qos sound down up
      exact first.trans
        (touches_set_delay bits first.sound delay_ms jitter loss)

/-- The trees hold the knobs of a mark. -/
structure Represents (qos : Qos) (bits mark : Nat) (net : Net)
    (knobs : Knobs) : Prop where
  sound : Sound net
  rates : ∀ dev : Dev,
    rateOf net dev mark = dev.limitRate qos knobs.down knobs.up
  netems : ∀ dev : Dev,
    netemOf net dev mark =
      netemArgs (dev.half bits knobs.delay_ms) knobs.jitter knobs.loss
  limited : ∀ dev : Dev, 0 < dev.mbps knobs.down knobs.up →
    class_exists net dev mark
  delayed : 0 < knobs.delay_ms ∨ 0 < knobs.jitter ∨ 0 < knobs.loss →
    ∀ dev, class_exists net dev mark

namespace Represents

variable {qos : Qos} {bits mark : Nat} {net : Net} {knobs : Knobs}

theorem of_undisturbed (represents : Represents qos bits mark net knobs)
    {after : Net} (sound : Sound after) (kept : Undisturbed mark net after) :
    Represents qos bits mark after knobs where
  sound := sound
  rates dev := (kept.rateOf_eq dev).trans (represents.rates dev)
  netems dev := (kept.netemOf_eq dev).trans (represents.netems dev)
  limited dev limit := kept.class_exists (represents.limited dev limit)
  delayed on dev := kept.class_exists (represents.delayed on dev)

variable (represents : Represents qos bits mark net knobs)
  (valid : _validate_mark_id mark)
include represents valid

theorem set_limit (down up : ℚ) :
    Represents qos bits mark (set_limit qos net mark down up)
      { knobs with down, up } where
  sound := (touches_set_limit qos represents.sound down up).sound
  rates := rateOf_set_limit qos represents.sound down up valid
  netems dev :=
    (netemOf_set_limit qos represents.sound down up valid dev).trans
      (represents.netems dev)
  limited _ := class_exists_set_limit qos represents.sound down up valid
  delayed on dev :=
    (touches_set_limit qos represents.sound down up).stays dev
      (represents.delayed on dev)

theorem set_delay (delay_ms : Int) (jitter loss : ℚ) :
    Represents qos bits mark (set_delay bits net mark delay_ms jitter loss)
      { knobs with delay_ms, jitter, loss } where
  sound := (touches_set_delay bits represents.sound delay_ms jitter loss).sound
  rates dev :=
    (rateOf_set_delay bits represents.sound delay_ms jitter loss valid
      dev).trans (represents.rates dev)
  netems := netemOf_set_delay bits represents.sound delay_ms jitter loss valid
  limited dev limit :=
    (touches_set_delay bits represents.sound delay_ms jitter loss).stays dev
      (represents.limited dev limit)
  delayed :=
    class_exists_set_delay bits represents.sound delay_ms jitter loss valid

theorem apply (call : Call) :
    Represents qos bits mark (call.apply qos bits net)
      (if call.mark = mark then call.turn knobs else knobs) := by
  split
  · rename_i here
    subst here
    cases call with
    | limit mark down up => exact represents.set_limit valid down up
    | delay mark delay_ms jitter loss =>
        exact represents.set_delay valid delay_ms jitter loss
    | all mark down up delay_ms jitter loss =>
        exact (represents.set_limit valid down up).set_delay valid delay_ms
          jitter loss
  · rename_i other
    have touched := call.touches qos bits represents.sound
    exact represents.of_undisturbed touched.sound
      (touched.others mark (Ne.symm other))

theorem run (calls : List Call) :
    Represents qos bits mark (run qos bits net calls)
      (calls.foldl
        (fun knobs call => if call.mark = mark then call.turn knobs else knobs)
        knobs) := by
  induction calls generalizing net knobs with
  | nil => exact represents
  | cons call calls induction =>
      exact induction (represents.apply valid call)

end Represents

/-- A device as the script finds it or as it sets it up: without a tree, or with
a tree that has no class but `1:1`. -/
def Tree.planted : Tree :=
  ⟨true, Function.update (fun _ => none) 1 (some DEFAULT_RATE), fun _ => none⟩

/-- The trees before any call on a mark. -/
structure Fresh (net : Net) : Prop where
  fresh : ∀ dev, net dev = .bare ∨ net dev = .planted
  uplink : (net .iface).htb = true → (net .ifb0).htb = true

theorem Fresh.represents {net : Net} (start : Fresh net) (qos : Qos)
    (bits mark : Nat) :
    Represents qos bits mark net ⟨0, 0, 0, 0, 0⟩ where
  sound := by
    refine ⟨fun dev mark unbuilt => ?_, fun dev mark _ => ?_,
      fun dev built => ?_, start.uplink⟩ <;>
    rcases start.fresh dev with bare | planted
    · rw [bare]
      rfl
    · rw [planted] at unbuilt
      cases unbuilt
    · rw [bare]
      rfl
    · rw [planted]
      rfl
    · rw [bare] at built
      cases built
    · rw [planted]
      rfl
  rates dev := by
    have noLimit : dev.limitRate qos 0 0 = DEFAULT_RATE := by
      cases dev <;> rfl
    rw [noLimit, rateOf]
    rcases start.fresh dev with bare | planted
    · rw [bare]
      rfl
    · rw [planted, Tree.planted]
      rcases eq_or_ne mark 1 with rfl | different
      · rfl
      · simp [different]
  netems dev := by
    have noDelay : dev.half bits 0 = 0 := by
      cases dev <;> rfl
    rw [noDelay, netemOf]
    rcases start.fresh dev with bare | planted
    · rw [bare]
      rfl
    · rw [planted]
      rfl
  limited dev limit := by
    cases dev <;> simp [Dev.mbps] at limit
  delayed on := by simp at on

/-- A limit, a delay, the end of the limit, and a limit for another mark. -/
def evening : List Call :=
  [.limit 5 10 2, .delay 5 101 0 (1 / 2), .limit 5 0 0, .limit 7 3 0]

end Hnc.TcShaping
