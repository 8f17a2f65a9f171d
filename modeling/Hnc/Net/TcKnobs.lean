import Hnc.Net.TcShaping

/-!
# Steps on the trees of `bin/tc_manager.sh`

Every function of `TcShaping` comes down to three steps: to plant a tree, to set
the rate of a class, and to set a leaf.
-/

namespace Hnc.TcShaping

/-! ## What the trees hold -/

/-- The rate of a mark, the default one where it has no class. -/
def rateOf (net : Net) (dev : Dev) (mark : Nat) : Nat :=
  ((net dev).rate mark).getD DEFAULT_RATE

/-- The netem of a mark; a class without one delays and loses nothing. -/
def netemOf (net : Net) (dev : Dev) (mark : Nat) : Netem :=
  ((net dev).leaf mark).getD .zero

/-- A tree has a class `1:1` if there is one at all, and `ifb0` has a tree when
the interface has one. -/
structure Sound (net : Net) : Prop where
  bare : ∀ dev mark, (net dev).htb = false → (net dev).rate mark = none
  hollow : ∀ dev mark, (net dev).rate mark = none → (net dev).leaf mark = none
  rooted : ∀ dev, (net dev).htb = true → ((net dev).rate 1).isSome
  uplink : (net .iface).htb = true → (net .ifb0).htb = true

/-- Class and leaf of a mark are as before, or the class is `1:1`, which the
building of the tree has made. -/
def Undisturbed (mark : Nat) (before after : Net) : Prop :=
  ∀ dev,
    (after dev).leaf mark = (before dev).leaf mark ∧
      ((after dev).rate mark = (before dev).rate mark ∨
        mark = 1 ∧ (before dev).rate mark = none ∧
          (after dev).rate mark = some DEFAULT_RATE)

namespace Undisturbed

variable {mark : Nat} {before middle after : Net}

theorem refl (net : Net) : Undisturbed mark net net :=
  fun _ => ⟨rfl, .inl rfl⟩

theorem trans (first : Undisturbed mark before middle)
    (second : Undisturbed mark middle after) :
    Undisturbed mark before after := by
  intro dev
  obtain ⟨leafFirst, rateFirst⟩ := first dev
  obtain ⟨leafSecond, rateSecond⟩ := second dev
  refine ⟨leafSecond.trans leafFirst, ?_⟩
  rcases rateSecond with same | ⟨root, absent, made⟩
  · rw [same]
    exact rateFirst
  · rcases rateFirst with same | ⟨_, _, madeBefore⟩
    · exact .inr ⟨root, same ▸ absent, made⟩
    · rw [absent] at madeBefore
      cases madeBefore

theorem rateOf_eq (kept : Undisturbed mark before after) (dev : Dev) :
    rateOf after dev mark = rateOf before dev mark := by
  rcases (kept dev).2 with same | ⟨_, absent, made⟩
  · rw [rateOf, rateOf, same]
  · simp [rateOf, absent, made]

theorem netemOf_eq (kept : Undisturbed mark before after) (dev : Dev) :
    netemOf after dev mark = netemOf before dev mark := by
  rw [netemOf, netemOf, (kept dev).1]

theorem class_exists (kept : Undisturbed mark before after) {dev : Dev}
    (present : class_exists before dev mark) : class_exists after dev mark := by
  rcases (kept dev).2 with same | ⟨_, _, made⟩
  · simpa [TcShaping.class_exists, same] using present
  · simp [TcShaping.class_exists, made]

end Undisturbed

/-! ## Setting a class or a leaf -/

section Setting

variable (net : Net) (dev : Dev) (mark : Nat)

@[simp] theorem tc_class_set_htb (rate : Nat) (other : Dev) :
    (tc_class_set net dev mark rate other).htb = (net other).htb := by
  rcases eq_or_ne other dev with rfl | different
  · simp [tc_class_set]
  · simp [tc_class_set, different]

@[simp] theorem tc_class_set_leaf (rate : Nat) (other : Dev) :
    (tc_class_set net dev mark rate other).leaf = (net other).leaf := by
  rcases eq_or_ne other dev with rfl | different
  · simp [tc_class_set]
  · simp [tc_class_set, different]

theorem tc_class_set_rate (rate : Nat) (other : Dev) (class_id : Nat) :
    (tc_class_set net dev mark rate other).rate class_id =
      if other = dev ∧ class_id = mark then some rate
      else (net other).rate class_id := by
  rcases eq_or_ne other dev with rfl | different
  · simp [tc_class_set, Function.update_apply]
  · simp [tc_class_set, different]

@[simp] theorem tc_leaf_replace_htb (netem : Netem) (other : Dev) :
    (tc_leaf_replace net dev mark netem other).htb = (net other).htb := by
  rcases eq_or_ne other dev with rfl | different
  · simp [tc_leaf_replace]
  · simp [tc_leaf_replace, different]

@[simp] theorem tc_leaf_replace_rate (netem : Netem) (other : Dev) :
    (tc_leaf_replace net dev mark netem other).rate = (net other).rate := by
  rcases eq_or_ne other dev with rfl | different
  · simp [tc_leaf_replace]
  · simp [tc_leaf_replace, different]

theorem tc_leaf_replace_leaf (netem : Netem) (other : Dev) (class_id : Nat) :
    (tc_leaf_replace net dev mark netem other).leaf class_id =
      if other = dev ∧ class_id = mark then some netem
      else (net other).leaf class_id := by
  rcases eq_or_ne other dev with rfl | different
  · simp [tc_leaf_replace, Function.update_apply]
  · simp [tc_leaf_replace, different]

theorem rateOf_tc_class_set (rate : Nat) (other : Dev) (class_id : Nat) :
    rateOf (tc_class_set net dev mark rate) other class_id =
      if other = dev ∧ class_id = mark then rate
      else rateOf net other class_id := by
  rw [rateOf, tc_class_set_rate]
  split <;> simp [rateOf]

@[simp] theorem netemOf_tc_class_set (rate : Nat) (other : Dev)
    (class_id : Nat) :
    netemOf (tc_class_set net dev mark rate) other class_id =
      netemOf net other class_id := by
  simp [netemOf]

@[simp] theorem rateOf_tc_leaf_replace (netem : Netem) (other : Dev)
    (class_id : Nat) :
    rateOf (tc_leaf_replace net dev mark netem) other class_id =
      rateOf net other class_id := by
  simp [rateOf]

theorem netemOf_tc_leaf_replace (netem : Netem) (other : Dev)
    (class_id : Nat) :
    netemOf (tc_leaf_replace net dev mark netem) other class_id =
      if other = dev ∧ class_id = mark then netem
      else netemOf net other class_id := by
  rw [netemOf, tc_leaf_replace_leaf]
  split <;> simp [netemOf]

variable {net dev mark}

theorem Sound.tc_class_set (sound : Sound net) (built : (net dev).htb = true)
    (rate : Nat) : Sound (tc_class_set net dev mark rate) where
  bare other class_id unbuilt := by
    rw [tc_class_set_htb] at unbuilt
    have different : other ≠ dev := by
      rintro rfl
      rw [built] at unbuilt
      cases unbuilt
    simpa [tc_class_set_rate, different] using sound.bare other class_id unbuilt
  hollow other class_id absent := by
    rw [tc_class_set_rate] at absent
    rw [tc_class_set_leaf]
    split at absent
    · cases absent
    · exact sound.hollow other class_id absent
  rooted other builtOther := by
    rw [tc_class_set_htb] at builtOther
    rw [tc_class_set_rate]
    split
    · rfl
    · exact sound.rooted other builtOther
  uplink := by simpa using sound.uplink

theorem Sound.tc_leaf_replace (sound : Sound net)
    (present : class_exists net dev mark) (netem : Netem) :
    Sound (tc_leaf_replace net dev mark netem) where
  bare other class_id unbuilt := by
    rw [tc_leaf_replace_htb] at unbuilt
    rw [tc_leaf_replace_rate]
    exact sound.bare other class_id unbuilt
  hollow other class_id absent := by
    rw [tc_leaf_replace_rate] at absent
    rw [tc_leaf_replace_leaf, if_neg]
    · exact sound.hollow other class_id absent
    · rintro ⟨rfl, rfl⟩
      simp [class_exists, absent] at present
  rooted other built := by
    rw [tc_leaf_replace_htb] at built
    rw [tc_leaf_replace_rate]
    exact sound.rooted other built
  uplink := by simpa using sound.uplink

theorem undisturbed_tc_class_set {other : Nat} (different : other ≠ mark)
    (rate : Nat) : Undisturbed other net (tc_class_set net dev mark rate) := by
  intro device
  simp [tc_class_set_rate, different]

theorem undisturbed_tc_leaf_replace {other : Nat} (different : other ≠ mark)
    (netem : Netem) :
    Undisturbed other net (tc_leaf_replace net dev mark netem) := by
  intro device
  simp [tc_leaf_replace_leaf, different]

end Setting

/-! ## Planting a tree -/

/-- A device without a tree gets one with the class `1:1`. -/
def plant (net : Net) (dev : Dev) : Net :=
  if (net dev).htb then net
  else tc_class_add (tc_root_htb net dev) dev 1 DEFAULT_RATE

section Planting

variable {net : Net} (sound : Sound net) (dev : Dev)
include sound

theorem plant_apply (other : Dev) :
    plant net dev other =
      if other = dev ∧ (net dev).htb = false then
        { htb := true
          rate := Function.update (net dev).rate 1 (some DEFAULT_RATE)
          leaf := (net dev).leaf }
      else net other := by
  cases built : (net dev).htb with
  | true => simp [plant, built]
  | false =>
      have absent : (net dev).rate = fun _ => none :=
        funext fun mark => sound.bare dev mark built
      have hollow : (net dev).leaf = fun _ => none :=
        funext fun mark => sound.hollow dev mark (sound.bare dev mark built)
      rcases eq_or_ne other dev with rfl | different
      · simp [plant, built, tc_class_add, tc_root_htb, tc_class_set, absent,
          hollow]
      · simp [plant, built, tc_class_add, tc_root_htb, tc_class_set, different]

theorem plant_htb : (plant net dev dev).htb = true := by
  rw [plant_apply sound]
  split
  · rfl
  · simp_all

theorem plant_htb_of {other : Dev} (built : (net other).htb = true) :
    (plant net dev other).htb = true := by
  rw [plant_apply sound]
  split
  · rfl
  · exact built

theorem undisturbed_plant (mark : Nat) :
    Undisturbed mark net (plant net dev) := by
  intro other
  rw [plant_apply sound]
  split
  · rename_i here
    obtain ⟨rfl, unbuilt⟩ := here
    refine ⟨rfl, ?_⟩
    rcases eq_or_ne mark 1 with rfl | different
    · exact .inr ⟨rfl, sound.bare _ _ unbuilt, by simp⟩
    · exact .inl (by simp [different])
  · exact ⟨rfl, .inl rfl⟩

theorem Sound.plant (uplink : dev = .iface → (net .ifb0).htb = true) :
    Sound (plant net dev) where
  bare other mark unbuilt := by
    rw [plant_apply sound] at unbuilt ⊢
    split at unbuilt
    · cases unbuilt
    · rw [if_neg ‹_›]
      exact sound.bare other mark unbuilt
  hollow other mark absent := by
    rw [plant_apply sound] at absent ⊢
    split at absent
    · rename_i here
      obtain ⟨rfl, unbuilt⟩ := here
      rw [if_pos ⟨rfl, unbuilt⟩]
      exact sound.hollow other mark (sound.bare other mark unbuilt)
    · rw [if_neg ‹_›]
      exact sound.hollow other mark absent
  rooted other built := by
    rw [plant_apply sound] at built ⊢
    split at built
    · rw [if_pos ‹_›]
      simp
    · rw [if_neg ‹_›]
      exact sound.rooted other built
  uplink built := by
    cases dev with
    | iface => exact plant_htb_of sound .iface (uplink rfl)
    | ifb0 => exact plant_htb sound .ifb0

theorem egress_htb_tree_ready_eq :
    egress_htb_tree_ready net = (net .iface).htb := by
  cases built : (net .iface).htb with
  | false => simp [egress_htb_tree_ready, built]
  | true =>
      rw [egress_htb_tree_ready, built, Bool.true_and, List.any_eq_true]
      refine ⟨1, by simp, ?_⟩
      rw [Bool.and_eq_true]
      exact ⟨by decide, sound.rooted .iface built⟩

/-- The classes `1:1` that `init_tc` adds are there or come with their tree. -/
theorem ensure_egress_htb_ready_eq :
    ensure_egress_htb_ready net = plant (plant net .ifb0) .iface := by
  rw [ensure_egress_htb_ready, egress_htb_tree_ready_eq sound]
  cases built : (net .iface).htb with
  | true => simp [plant, built, sound.uplink built]
  | false =>
      cases uplink : (net .ifb0).htb with
      | true =>
          have rooted := sound.rooted .ifb0 uplink
          simp [init_tc, plant, built, uplink, tc_class_add, tc_root_htb,
            tc_class_set, rooted]
      | false =>
          funext dev
          cases dev <;>
            simp [init_tc, plant, built, uplink, tc_class_add, tc_root_htb,
              tc_class_set]

end Planting

/-! ## What one action does -/

/-- What every step of an action on a mark keeps. -/
structure Touches (mark : Nat) (before after : Net) : Prop where
  sound : Sound after
  others : ∀ other, other ≠ mark → Undisturbed other before after
  stays : ∀ dev, class_exists before dev mark → class_exists after dev mark

namespace Touches

variable {mark : Nat} {before middle after : Net}

theorem refl (sound : Sound before) : Touches mark before before :=
  ⟨sound, fun _ _ => .refl before, fun _ => id⟩

theorem trans (first : Touches mark before middle)
    (second : Touches mark middle after) : Touches mark before after where
  sound := second.sound
  others other different :=
    (first.others other different).trans (second.others other different)
  stays dev present := second.stays dev (first.stays dev present)

theorem of_undisturbed (sound : Sound after)
    (kept : ∀ mark, Undisturbed mark before after) :
    Touches mark before after where
  sound := sound
  others other _ := kept other
  stays _ := (kept mark).class_exists

end Touches

section Steps

variable {net : Net} {dev : Dev} {mark : Nat}

theorem touches_tc_class_set (sound : Sound net)
    (built : (net dev).htb = true) (rate : Nat) :
    Touches mark net (tc_class_set net dev mark rate) where
  sound := sound.tc_class_set built rate
  others _ different := undisturbed_tc_class_set different rate
  stays other present := by
    rw [class_exists, tc_class_set_rate]
    split
    · rfl
    · exact present

theorem touches_tc_leaf_replace (sound : Sound net)
    (present : class_exists net dev mark) (netem : Netem) :
    Touches mark net (tc_leaf_replace net dev mark netem) where
  sound := sound.tc_leaf_replace present netem
  others _ different := undisturbed_tc_leaf_replace different netem
  stays other presentOther := by
    rw [class_exists, tc_leaf_replace_rate]
    exact presentOther

@[simp] theorem class_exists_tc_class_set (rate : Nat) :
    class_exists (tc_class_set net dev mark rate) dev mark := by
  simp [class_exists, tc_class_set_rate]

theorem built_of_class_exists (sound : Sound net)
    (present : class_exists net dev mark) : (net dev).htb = true := by
  cases built : (net dev).htb with
  | true => rfl
  | false => simp [class_exists, sound.bare dev mark built] at present

theorem ensureClass_eq (sound : Sound net) (built : (net dev).htb = true) :
    ensureClass net dev mark =
      tc_class_set net dev mark (rateOf net dev mark) := by
  have ready :
      (if dev = .ifb0 then net else ensure_egress_htb_ready net) = net := by
    cases dev with
    | ifb0 => rfl
    | iface =>
        simp [ensure_egress_htb_ready, egress_htb_tree_ready_eq sound, built]
  rw [ensureClass]
  by_cases present : class_exists net dev mark
  · rw [if_pos present, rateOf]
  · rw [if_neg present, ready]
    exact if_neg present

theorem ensureLeaf_eq (net : Net) :
    ensureLeaf net dev mark =
      tc_leaf_replace net dev mark (netemOf net dev mark) := by
  rw [ensureLeaf, leaf_has_active_netem, leaf_has_netem, netemOf]
  cases leaf : (net dev).leaf mark with
  | none => rfl
  | some netem =>
      have same : tc_leaf_replace net dev mark netem = net := by
        rw [tc_leaf_replace, ← leaf, Function.update_eq_self]
        exact Function.update_eq_self ..
      simp [same]

/-- Rate and leaf are written back as they were. -/
theorem ensure_device_class_eq (sound : Sound net)
    (built : (net dev).htb = true) :
    ensure_device_class net dev mark =
      tc_leaf_replace (tc_class_set net dev mark (rateOf net dev mark))
        dev mark (netemOf net dev mark) := by
  rw [ensure_device_class, ensureClass_eq sound built, ensureLeaf_eq,
    netemOf_tc_class_set]

theorem touches_ensure_device_class (mark : Nat) (sound : Sound net)
    (built : (net dev).htb = true) :
    Touches mark net (ensure_device_class net dev mark) := by
  rw [ensure_device_class_eq sound built]
  have touched :
      Touches mark net (tc_class_set net dev mark (rateOf net dev mark)) :=
    touches_tc_class_set sound built _
  exact touched.trans
    (touches_tc_leaf_replace touched.sound (class_exists_tc_class_set _) _)

theorem class_exists_ensure_device_class (sound : Sound net)
    (built : (net dev).htb = true) :
    class_exists (ensure_device_class net dev mark) dev mark := by
  rw [ensure_device_class_eq sound built, class_exists, tc_leaf_replace_rate]
  exact class_exists_tc_class_set _

theorem rateOf_ensure_device_class (sound : Sound net)
    (built : (net dev).htb = true) (other : Dev) (class_id : Nat) :
    rateOf (ensure_device_class net dev mark) other class_id =
      rateOf net other class_id := by
  rw [ensure_device_class_eq sound built, rateOf_tc_leaf_replace,
    rateOf_tc_class_set]
  split
  · rename_i here
    rw [here.1, here.2]
  · rfl

theorem netemOf_ensure_device_class (sound : Sound net)
    (built : (net dev).htb = true) (other : Dev) (class_id : Nat) :
    netemOf (ensure_device_class net dev mark) other class_id =
      netemOf net other class_id := by
  rw [ensure_device_class_eq sound built, netemOf_tc_leaf_replace,
    netemOf_tc_class_set]
  split
  · rename_i here
    rw [here.1, here.2]
  · rfl

end Steps

end Hnc.TcShaping
