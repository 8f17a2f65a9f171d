import Hnc.Daemon.Rebuild

/-!
# What the rebuild adds

The loop over the devices adds the limited ones when it is given the object of
the devices.  Whether it is given that object depends on the first `"devices"`
of the file and on the size of the buffer.
-/

namespace Hnc.Scheduler

open Posix JsonText

/-! ### The devices -/

def hasLimit : Json → Bool
  | .object fields => fields.any fun field =>
      field.1 == "limit_enabled".toList && isTrue field.2
  | _ => false

/-- The normalized addresses of the devices whose `limit_enabled` is true. -/
def limitedIn (devices : List (Text × Json)) : List Text :=
  devices.flatMap fun device =>
    if hasLimit device.2 then (normalizeMac (some device.1)).toList else []

/-- A name of 17 characters that is an address. -/
def IsAddress (name : Text) : Prop :=
  name.length = 17 ∧ (normalizeMac (some name)).isSome = true

/-- An object whose values are no objects and no arrays, with names that are
written as they are meant. -/
def IsFlat : Json → Prop
  | .object fields =>
      ∀ field ∈ fields, '\\' ∉ field.1 ∧ isScalar field.2 = true
  | _ => False

def FlatDevices (devices : List (Text × Json)) : Prop :=
  ∀ device ∈ devices, IsAddress device.1 ∧ IsFlat device.2

theorem normalizeLoop_colon {input : Text} {n : Nat} {out : Text}
    (done : normalizeLoop input n = some out) {i : Nat} (bound : i < n)
    (third : i % 3 = 2) : byteAt input i = ':' := by
  induction n generalizing out with
  | zero => omega
  | succ n induction =>
      obtain ⟨before, earlier, now⟩ := Option.bind_eq_some_iff.mp done
      by_cases last : i = n
      · subst last
        dsimp only at now
        rw [if_pos third] at now
        by_contra other
        rw [if_pos other, ite_self] at now
        cases now
      · exact induction earlier (by omega)

theorem IsAddress.isMac {name : Text} (address : IsAddress name)
    (rest : Text) : isMac (quote name ++ rest) = true := by
  obtain ⟨size, valid⟩ := address
  obtain ⟨norm, normalized⟩ := Option.isSome_iff_exists.mp valid
  obtain ⟨out, loop, _⟩ := Option.bind_eq_some_iff.mp normalized
  have inside : ∀ i, i < 17 →
      byteAt (quote name ++ rest) (i + 1) = byteAt name i := by
    intro i bound
    simp only [byteAt, quote, List.cons_append, List.append_assoc,
      List.getElem?_cons_succ, List.getD_eq_getElem?_getD]
    rw [List.getElem?_append_left (by omega)]
  have last : byteAt (quote name ++ rest) 18 = '"' := by
    simp only [byteAt, quote, List.cons_append, List.append_assoc,
      List.getElem?_cons_succ, List.getD_eq_getElem?_getD]
    rw [List.getElem?_append_right (by omega), size]
    rfl
  have colon : ∀ i, i < 17 → i % 3 = 2 →
      byteAt (quote name ++ rest) (i + 1) = ':' := by
    intro i bound third
    rw [inside i bound]
    exact normalizeLoop_colon loop bound third
  have long : 18 < (quote name ++ rest).length := by
    simp only [quote, List.length_append, List.length_cons]
    omega
  rw [Scheduler.isMac, colon 2 (by omega) rfl, colon 5 (by omega) rfl,
    colon 8 (by omega) rfl, colon 11 (by omega) rfl, colon 14 (by omega) rfl,
    last]
  simpa using long

theorem keyName_limitEnabled : KeyName "limit_enabled".toList where
  plain := by decide
  oneLine := by decide
  head := ⟨'l', _, rfl, by decide⟩

variable {skipped : Text}

/-- One round of the loop, in front of a device. -/
theorem scanDevices_device (free : '"' ∉ skipped) {m : Member}
    {device : Text × Json} (meant : m.Means device) (address : IsAddress device.1)
    (flat : IsFlat device.2) (fuel : Nat) (rest : Text) :
    scanDevices (fuel + 1) (skipped ++ (m.render ++ rest)) =
      (if hasLimit device.2 then (normalizeMac (some device.1)).toList
        else []) ++ scanDevices fuel (m.trail ++ rest) := by
  obtain ⟨name, value⟩ := device
  have spaced := meant.spaced
  have named : name = m.key := meant.name
  subst named
  cases value with
  | object fields =>
      have derives : Derives .value m.val (.object fields) := meant.value
      obtain ⟨inner, object, closes⟩ := closingBrace_object derives
      have text : skipped ++ (m.render ++ rest) = (skipped ++ m.lead) ++
          '"' :: (m.key ++ '"' :: (m.gap ++ ':' :: (m.pad ++ (m.val ++
            (m.trail ++ rest))))) := by
        simp [Member.render, Member.fromKey, Member.fromValue, quote]
      have before : '"' ∉ skipped ++ m.lead := by
        simp [free, quote_not_mem spaced.lead]
      have opened : ∀ rest, '"' :: (m.key ++ '"' :: rest) =
          quote m.key ++ rest := by simp [quote]
      have raw : ∀ rest, ((quote m.key ++ rest).drop 1).take 17 = m.key := by
        intro rest
        have start : (quote m.key ++ rest).drop 1 = m.key ++ '"' :: rest := by
          simp [quote]
        rw [start]
        exact List.take_left' address.1
      have behind : ∀ rest, (quote m.key ++ rest).drop 19 = rest := by
        intro rest
        apply List.drop_left'
        simp [quote, address.1]
      have brace : strchr (m.gap ++ ':' :: (m.pad ++ (m.val ++ (m.trail ++
          rest)))) '{' = some (m.val ++ (m.trail ++ rest)) := by
        have free : '{' ∉ m.gap ++ ':' :: m.pad := by
          have blanks : ∀ {space : Text}, blank space = true → '{' ∉ space := by
            intro space white member
            exact absurd (List.all_eq_true.mp white _ member) (by decide)
          simp [blanks spaced.gap, blanks spaced.pad]
        have grouped : m.gap ++ ':' :: (m.pad ++ (m.val ++ (m.trail ++ rest))) =
            (m.gap ++ ':' :: m.pad) ++ '{' :: (inner ++ '}' :: (m.trail ++
              rest)) := by simp [object]
        rw [grouped, strchr_found free]
        simp [object]
      have inside : (m.val ++ (m.trail ++ rest)).drop 1 =
          inner ++ '}' :: (m.trail ++ rest) := by simp [object]
      have block : upTo (m.val ++ (m.trail ++ rest)) (m.trail ++ rest) =
          m.val := by simp [upTo]
      rw [text, scanDevices, strchr_found before]
      dsimp only
      rw [opened, if_pos (address.isMac _), behind, brace]
      dsimp only
      rw [inside, closes]
      dsimp only
      rw [List.drop_one, List.tail_cons, block, raw,
        inBlock_object keyName_limitEnabled derives flat]
      rfl
  | null => exact flat.elim
  | bool _ => exact flat.elim
  | number _ => exact flat.elim
  | string _ => exact flat.elim
  | array _ => exact flat.elim

theorem scanDevices_free (free : '"' ∉ skipped) (fuel : Nat) :
    scanDevices fuel skipped = [] := by
  cases fuel with
  | zero => rfl
  | succ fuel => rw [scanDevices, strchr_eq_none free]

theorem limitedIn_cons (device : Text × Json)
    (devices : List (Text × Json)) :
    limitedIn (device :: devices) =
      (if hasLimit device.2 then (normalizeMac (some device.1)).toList
        else []) ++ limitedIn devices := by
  simp [limitedIn]

/-- The loop adds the limited devices from left to right. -/
theorem scanDevices_more {members : List Member} {devices : List (Text × Json)}
    (means : List.Forall₂ Member.Means members devices)
    (flat : FlatDevices devices) (free : '"' ∉ skipped) {fuel : Nat}
    (enough : members.length ≤ fuel) :
    scanDevices fuel (skipped ++ more members) = limitedIn devices := by
  induction means generalizing skipped fuel with
  | nil =>
      rw [more, List.flatMap_nil, List.append_nil]
      exact scanDevices_free free fuel
  | @cons m device members devices first _ induction =>
      obtain ⟨fuel, rfl⟩ := Nat.exists_eq_add_of_lt enough
      have text : skipped ++ more (m :: members) =
          (skipped ++ [',']) ++ (m.render ++ more members) := by
        simp [more]
      have comma : '"' ∉ skipped ++ [','] := by simp [free]
      have here := flat device (by simp)
      rw [text, scanDevices_device comma first here.1 here.2, limitedIn_cons,
        induction (fun other member => flat other (by simp [member]))
          (quote_not_mem first.spaced.trail) (by omega)]

theorem length_members_le (members : List Member) :
    members.length ≤ (more members).length := by
  induction members with
  | nil => exact Nat.zero_le _
  | cons m members induction =>
      simp only [more, List.flatMap_cons, List.length_append,
        List.length_cons] at induction ⊢
      omega

variable {inner : Text}

theorem scanDevices_object {devices : List (Text × Json)}
    (derives : Derives .value ('\x7b' :: inner ++ ['\x7d']) (.object devices))
    (flat : FlatDevices devices) :
    scanDevices inner.length inner = limitedIn devices := by
  obtain ⟨⟨members, hollow⟩, text, space, means⟩ := derives.object_members
  have same : inner = (Obj.mk members hollow).inner := by
    exact List.append_cancel_right (List.cons.inj text).2
  subst same
  cases means with
  | nil => exact scanDevices_free (quote_not_mem space) _
  | @cons m device members devices first rest =>
      have here := flat device (by simp)
      have short := length_members_le members
      have size : (Obj.mk (m :: members) hollow).inner.length =
          m.render.length + (more members).length := by
        simp [Obj.inner]
      have solid : 0 < m.render.length := by
        simp [Member.render, Member.fromKey]
      obtain ⟨fuel, bound⟩ := Nat.exists_eq_add_of_lt
        (show 0 < (Obj.mk (m :: members) hollow).inner.length by omega)
      have enough : members.length ≤ 0 + fuel := by omega
      rw [bound]
      change scanDevices (0 + fuel + 1) ([] ++ (m.render ++ more members)) = _
      rw [scanDevices_device (by simp) first here.1 here.2, limitedIn_cons,
        scanDevices_more rest
          (fun other member => flat other (by simp [member]))
          (quote_not_mem first.spaced.trail) enough]

/-- No brace stands between the first `"devices"` of a text and its end. -/
def Leads (before : Text) : Prop :=
  '{' ∉ (strstr before (quote "devices".toList)).getD []

instance (before : Text) : Decidable (Leads before) :=
  inferInstanceAs (Decidable (¬ _))

/-- When the first `"devices"` leads to the object of the devices, that object
is found in every buffer that holds it. -/
theorem devicesSection_of_leads {before between : Text}
    (search : strstr before (quote "devices".toList) = some between)
    (free : '{' ∉ between)
    (closes : ∀ rest, closingBrace 1 false false (inner ++ '}' :: rest) = some ('}' :: rest))
    (rest : Text) :
    devicesSection (before ++ '{' :: (inner ++ '}' :: rest)) = some inner := by
  have start := strstr_more search ('{' :: (inner ++ '}' :: rest))
  have opens := strchr_found free (inner ++ '}' :: rest)
  rw [devicesSection, start]
  simp only [Option.bind_eq_bind, Option.bind_some, opens, List.drop_one,
    List.tail_cons, closes]
  simp [upTo]

theorem devicesSection_of_cut {before between rest buf cut : Text}
    (search : strstr before (quote "devices".toList) = some between)
    (free : '{' ∉ between)
    (closes : ∀ rest, closingBrace 1 false false (inner ++ '}' :: rest) = some ('}' :: rest))
    (whole : before ++ '{' :: (inner ++ '}' :: rest) = buf ++ cut)
    (long : rest.length < cut.length) : devicesSection buf = none := by
  have start := strstr_more search ('{' :: (inner ++ '}' :: rest))
  have opens := strchr_found free (inner ++ '}' :: rest)
  rw [whole] at start
  cases found : devicesSection buf with
  | none => rfl
  | some devices =>
      obtain ⟨devStart, first, found⟩ := Option.bind_eq_some_iff.mp found
      obtain ⟨objStart, second, found⟩ := Option.bind_eq_some_iff.mp found
      obtain ⟨devEnd, third, _⟩ := Option.bind_eq_some_iff.mp found
      have firstMore := strstr_more first cut
      rw [start] at firstMore
      have sameStart := Option.some.inj firstMore
      have secondMore := strchr_more second cut
      rw [← sameStart, opens] at secondMore
      have sameObject := Option.some.inj secondMore
      obtain ⟨_, tail, _, solid, _⟩ := strchr_eq_some second
      rw [solid] at third sameObject
      have sameInner := (List.cons.inj sameObject).2
      have thirdMore := closingBrace_more third cut
      simp only [List.drop_one, List.tail_cons] at thirdMore
      have target : closingBrace 1 false false (tail ++ cut) =
          some ('}' :: rest) := by
        have closed := closes rest
        rwa [sameInner] at closed
      rw [target] at thirdMore
      have ends := congrArg List.length (Option.some.inj thirdMore)
      rw [List.length_cons, List.length_append] at ends
      have size := List.length_pos_iff.mpr (closingBrace_ne_nil third)
      omega

/-- As long as all addresses fit into the set, all of them are added. -/
theorem mem_foldl_addLimited {macs : List Text} {state : Sched × Nat}
    (nodup : state.1.limitedMacs.Nodup)
    (fits : (state.1.limitedMacs ++ macs).toFinset.card ≤ maxLimitedDevices)
    (mac : Text) :
    mac ∈ (macs.foldl addLimited state).1.limitedMacs ↔
      mac ∈ state.1.limitedMacs ∨ mac ∈ macs := by
  induction macs generalizing state with
  | nil => simp
  | cons norm macs induction =>
      have added : (addLimited state norm).1.limitedMacs =
          (SlotSet.add maxLimitedDevices state.1.limitedMacs norm).getD
            state.1.limitedMacs := by
        rw [addLimited]
        cases SlotSet.add maxLimitedDevices state.1.limitedMacs norm <;> rfl
      have room : norm ∉ state.1.limitedMacs →
          state.1.limitedMacs.length < maxLimitedDevices := by
        intro fresh
        have sub : (norm :: state.1.limitedMacs).toFinset ⊆
            (state.1.limitedMacs ++ norm :: macs).toFinset := by
          intro other
          simp only [List.mem_toFinset, List.mem_cons, List.mem_append]
          tauto
        have size := Finset.card_le_card sub
        rw [List.toFinset_card_of_nodup (nodup.cons fresh),
          List.length_cons] at size
        omega
      have members : ∀ other, other ∈ (addLimited state norm).1.limitedMacs ↔
          other = norm ∨ other ∈ state.1.limitedMacs := by
        intro other
        rw [added]
        exact SlotSet.mem_add room other
      have same : ((addLimited state norm).1.limitedMacs ++ macs).toFinset =
          (state.1.limitedMacs ++ norm :: macs).toFinset := by
        ext other
        simp only [List.mem_toFinset, List.mem_append, members, List.mem_cons]
        tauto
      have stillNodup : (addLimited state norm).1.limitedMacs.Nodup := by
        rw [added]
        exact SlotSet.nodup_add nodup
      rw [List.foldl_cons, induction stillNodup (by rw [same]; exact fits),
        members, List.mem_cons]
      tauto

/-- From an empty set, the rebuild adds exactly the limited devices. -/
def RebuildsExactly (file : Text) (devices : List (Text × Json)) : Prop :=
  ∀ sched : Sched, sched.limitedMacs = [] →
    ∀ mac, mac ∈ (rebuildFromRules sched (some file)).1.limitedMacs ↔
      mac ∈ limitedIn devices

/-- When the first `"devices"` of a file leads to its object of devices, the
rebuild is exact if and only if the buffer holds that object, or there is
nothing to add. -/
theorem rebuild_exact_iff {left right devices : List (Text × Json)}
    {before object behind : Text}
    (place : MemberAt left "devices".toList (.object devices) right before
      object behind)
    (flat : FlatDevices devices)
    (few : (limitedIn devices).toFinset.card ≤ maxLimitedDevices)
    (leads : Leads before) :
    RebuildsExactly (before ++ (object ++ behind)) devices ↔
      (before ++ object).length < bufferSize ∨ limitedIn devices = [] := by
  obtain ⟨inner, text, closes⟩ := closingBrace_object place.derives
  obtain ⟨early, gap, pad, front, _, _⟩ := place.before_eq
  have named : (strstr before (quote "devices".toList)).isSome = true := by
    rw [front]
    exact strstr_isSome early _ _ (quote_ne_nil _)
  obtain ⟨between, search⟩ := Option.isSome_iff_exists.mp named
  have free : '{' ∉ between := by
    rw [Leads, search] at leads
    exact leads
  have noNul : '\x00' ∉ before ++ (object ++ behind) := by
    intro member
    have char := List.all_eq_true.mp place.denotes.isTextChar _ member
    exact absurd char (by decide)
  have buffer : ∀ n, cString ((before ++ (object ++ behind)).take n) =
      (before ++ (object ++ behind)).take n :=
    fun n => cString_eq_self fun member => noNul (List.mem_of_mem_take member)
  have whole : ∀ rest, before ++ (object ++ rest) =
      before ++ '{' :: (inner ++ '}' :: rest) := by
    intro rest
    rw [text]
    simp
  by_cases fits : (before ++ object).length < bufferSize
  · have held : devicesSection (cString ((before ++ (object ++ behind)).take
        (bufferSize - 1))) = some inner := by
      obtain ⟨rest, cut⟩ : ∃ rest, (before ++ (object ++ behind)).take
          (bufferSize - 1) = before ++ (object ++ rest) := by
        refine ⟨behind.take (bufferSize - 1 - (before ++ object).length), ?_⟩
        rw [← List.append_assoc, List.take_append, ← List.append_assoc,
          List.take_of_length_le (by omega)]
      rw [buffer, cut, whole]
      exact devicesSection_of_leads search free closes rest
    have scanned : scanDevices inner.length inner = limitedIn devices :=
      scanDevices_object (text ▸ place.derives) flat
    have exact' : RebuildsExactly (before ++ (object ++ behind)) devices := by
      intro sched empty mac
      have added := @mem_foldl_addLimited (limitedIn devices) (sched, 0)
        (by rw [empty]; exact List.nodup_nil) (by rw [empty]; exact few) mac
      rw [rebuildFromRules, held]
      dsimp only
      rw [scanned, added, empty]
      simp
    exact iff_of_true exact' (.inl fits)
  · have missed : devicesSection (cString ((before ++ (object ++ behind)).take
        (bufferSize - 1))) = none := by
      have split : before ++ '{' :: (inner ++ '}' :: behind) =
          (before ++ (object ++ behind)).take (bufferSize - 1) ++
            (before ++ (object ++ behind)).drop (bufferSize - 1) := by
        rw [List.take_append_drop, whole]
      have size : bufferSize = 16384 := rfl
      rw [buffer]
      apply devicesSection_of_cut search free closes split
      rw [List.length_append] at fits
      rw [List.length_drop, List.length_append, List.length_append]
      omega
    have nothing : ∀ sched : Sched,
        rebuildFromRules sched (some (before ++ (object ++ behind))) =
          (sched, 0) := by
      intro sched
      rw [rebuildFromRules, missed]
    constructor
    · intro rebuilds
      right
      apply List.eq_nil_iff_forall_not_mem.mpr
      intro mac limited
      have member := (rebuilds ⟨true, .null, [], 0, []⟩ rfl mac).mpr limited
      rw [nothing] at member
      exact List.not_mem_nil member
    · intro either sched empty mac
      rw [nothing, empty, either.resolve_left fits]

/-- One limited device. -/
def limitedDevice : List (Text × Json) :=
  [("AA:bb:cc:dd:ee:01".toList,
    .object [("limit_enabled".toList, .bool true)])]

def limitedDeviceText : Text :=
  (Obj.mk [bare "AA:bb:cc:dd:ee:01".toList
    (Obj.mk [bare "limit_enabled".toList "true".toList] []).render] []).render

theorem derives_limitedDevice :
    Derives .value limitedDeviceText (.object limitedDevice) :=
  derives_bare (by decide) (derives_bare (by decide) .wordTrue)

theorem flatDevices_limitedDevice : FlatDevices limitedDevice := by
  simp only [FlatDevices, limitedDevice, List.forall_mem_singleton]
  refine ⟨⟨by decide, by decide⟩, ?_⟩
  simp only [IsFlat, List.forall_mem_singleton]
  exact ⟨by decide, rfl⟩

theorem limitedIn_limitedDevice :
    limitedIn limitedDevice = ["aa:bb:cc:dd:ee:01".toList] := by
  decide +kernel

theorem rebuild_limitedDevice :
    RebuildsExactly ((Obj.mk [bare "devices".toList limitedDeviceText]
      []).render) limitedDevice := by
  have meant := means_bare (show escapeFree "devices".toList = true by decide)
    derives_limitedDevice
  have place : MemberAt [] "devices".toList (.object limitedDevice) []
      ([] ++ front [] (bare "devices".toList limitedDeviceText))
      limitedDeviceText ([] ++ closing [] []) :=
    .place rfl rfl .nil meant .nil
  have few : (limitedIn limitedDevice).toFinset.card ≤ maxLimitedDevices := by
    rw [limitedIn_limitedDevice]
    decide
  have exact' := (rebuild_exact_iff place flatDevices_limitedDevice few
    (by decide +kernel)).mpr (.inl (by decide +kernel))
  exact exact'

/-- The network is called `devices`, and there is a brace in its password. -/
def hotspotMembers : List Member :=
  [bare "hotspot_ssid".toList (quote "devices".toList),
    bare "hotspot_pass".toList (quote "pass\x7bword".toList)]

theorem hotspot_hides_devices :
    ¬ ∀ (left right devices : List (Text × Json)) (before object behind : Text),
      MemberAt left "devices".toList (.object devices) right before object
        behind →
      FlatDevices devices →
      (limitedIn devices).toFinset.card ≤ maxLimitedDevices →
      RebuildsExactly (before ++ (object ++ behind)) devices := by
  intro always
  have few : (limitedIn limitedDevice).toFinset.card ≤ maxLimitedDevices := by
    rw [limitedIn_limitedDevice]
    decide
  have meant := means_bare (show escapeFree "devices".toList = true by decide)
    derives_limitedDevice
  have ssid := means_bare (show escapeFree "hotspot_ssid".toList = true by
    decide) (.string (chars_of_escapeFree (show escapeFree "devices".toList =
      true by decide)))
  have pass := means_bare (show escapeFree "hotspot_pass".toList = true by
    decide) (.string (chars_of_escapeFree
      (show escapeFree "pass\x7bword".toList = true by decide)))
  have place := @MemberAt.place _ _ _ [] [] [] hotspotMembers [] _ rfl rfl
    (.cons ssid (.cons pass .nil)) meant .nil
  have rebuilds := always _ _ _ _ _ _ place flatDevices_limitedDevice few
    ⟨true, .null, [], 0, []⟩ rfl "aa:bb:cc:dd:ee:01".toList
  rw [limitedIn_limitedDevice] at rebuilds
  have added := rebuilds.mpr (by simp)
  revert added
  decide +kernel

end Hnc.Scheduler
