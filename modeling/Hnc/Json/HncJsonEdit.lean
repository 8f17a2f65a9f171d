import Hnc.Json.Defaults
import Hnc.Json.HncJsonScan

/-!
# What `hnc_json` reads and writes in laid out files

On a file that renders an object, the programs of `hnc_json` act on the object:
`get_device` reads a member of a member of `devices`, `set_device_inner` and
`set_top_inner` replace a value in place or append a member before the closing
brace.
-/

namespace Hnc.HncJson

open Posix JsonText

/-! ### `set_top` -/

variable {m : Member} {key : Text}

theorem setTopLoop_member (shaped : m.Shaped) {close behind : Text} {fuel : Nat}
    (longer : close.length < (m.render ++ behind).length)
    (follows : Follows behind) :
    setTopLoop key close (fuel + 1) (m.render ++ behind) =
      if m.name = key then .found (m.fromValue ++ behind) behind
      else setTopLoop key close fuel behind := by
  rw [setTopLoop, if_pos longer, skipWs_fromKey shaped, m.fromKey_append]
  simp only [show ('"' : Char) ≠ '}' by decide,
    show ('"' : Char) ≠ ',' by decide, if_false, parseString_key shaped,
    skipWs_colon shaped, if_true, skipWs_fromValue shaped,
    topValueEnd_member shaped follows]

def topFound (key : Text) (members : List Member) (rest : Text) : TopSearch :=
  match findMember key members with
  | none => .absent
  | some (m, after) =>
      .found (m.fromValue ++ closing after rest) (closing after rest)

theorem setTopLoop_members (rest key : Text) :
    MemberLoop (setTopLoop key ('}' :: rest)) key rest .absent
      (fun m after => .found (m.fromValue ++ closing after rest)
        (closing after rest)) fun _ => [] where
  ends fuel trail space := by
    rw [setTopLoop, skipWs_closing_nil space]
    simp
  comma fuel trail space m after := by
    have longer : ('}' :: rest).length <
        (trail ++ closing (m :: after) rest).length := by
      rw [closing_cons]
      simp [closing]
      omega
    rw [setTopLoop, if_pos longer, skipWs_closing_cons space]
    simp
  member fuel m shaped after := by
    have longer : ('}' :: rest).length < (m.render ++ closing after rest).length := by
      simp [closing, Member.render, Member.fromKey]
      omega
    exact setTopLoop_member shaped longer (follows_closing after rest)
  keeps _ := ⟨rfl, Nat.zero_le _⟩

variable {o : Obj}

theorem setTopLoop_obj (shaped : o.Shaped) (rest key : Text) :
    setTopLoop key ('}' :: rest) (o.inner ++ '}' :: rest).length
        (o.inner ++ '}' :: rest) =
      topFound (o.keyOf key) o.members rest := by
  rw [(setTopLoop_members rest key).object shaped (Nat.le_refl _), topFound,
    Obj.findMember_keyOf]
  cases findNamed key o.members <;> rfl

/-- Set a top-level member; the white space behind a replaced value goes. -/
def topSet (o : Obj) (key val : Text) : Obj :=
  match findMember key o.members with
  | some _ => o.modify key fun m => { m with val := val, trail := [] }
  | none => o.append key val

theorem wf_topSet (wf : o.Wf) {val : Text} (plain : plainKey key = true)
    (shape : Val val) : (topSet o key val).Wf := by
  unfold topSet
  split
  · apply wf.modify
    intro m mWf _
    exact ⟨mWf.lead, mWf.key, mWf.gap, mWf.pad, shape, rfl⟩
  · exact wf.append plain shape

/-- What holds of every member holds after one was set. -/
theorem forall_topSet {P : Member → Prop} {val : Text}
    (space : blank o.hollow = true) (all : ∀ m ∈ o.members, P m)
    (new : ∀ lead, blank lead = true → P (written lead key val))
    (kept : ∀ m, P m → m.key = key → P { m with val := val, trail := [] }) :
    ∀ m ∈ (topSet o key val).members, P m := by
  unfold topSet
  split
  · exact Obj.forall_modify all kept
  · exact Obj.forall_append space all new

theorem get_topSet (o : Obj) (key val other : Text) :
    (topSet o key val).get other =
      if other = key then some val else o.get other := by
  unfold topSet
  cases hit : findMember key o.members with
  | none => exact Obj.get_append val hit other
  | some found =>
      have read := @Obj.get_modify o key
        (fun m => { m with val := val, trail := [] }) (fun _ => rfl) val
        (fun _ => rfl) other
      rw [read]
      simp [Obj.get, hit]

/-- The keys of an object after a member was set are those of a plain change of
its value. -/
theorem map_key_topSet (o : Obj) (key val : Text) :
    (topSet o key val).members.map Member.key =
      (o.setBack key val).members.map Member.key := by
  unfold topSet Obj.setBack
  cases findMember key o.members with
  | none => rfl
  | some found =>
      have cleared := map_replaceFirst Member.key key
        (fun m => { m with val := val, trail := [] }) (fun _ => rfl) o.members
      have kept := map_replaceFirst Member.key key
        (fun m => { m with val := val }) (fun _ => rfl) o.members
      exact cleared.trans kept.symm

theorem newMember_eq (key val : Text) :
    newMember key val = quote (escapeName key) ++ ':' :: ' ' :: val := by
  simp [newMember, escKey, escapeName, quote]

theorem newMember_plain (plain : plainKey key = true) (val : Text) :
    newMember key val = quote key ++ ':' :: ' ' :: val := by
  rw [newMember_eq, escapeName_plain plain]

variable {pre content post : Text}

theorem setTopInner_shaped (shaped : o.Shaped) (space : blank pre = true)
    (text : slurp content = pre ++ (o.render ++ post)) (key lit : Text) :
    setTopInner key lit content =
      .ok (pre ++ ((topSet o (o.keyOf key) lit).render ++ post) ++ ['\n']) := by
  have start : skipWs (slurp content) = '{' :: (o.inner ++ '}' :: post) := by
    rw [skipWs, text, dropWhile_isWs_blank _ space, Obj.render_append]
    simp [isWs]
  have close := lastClose_obj shaped post
  rw [Obj.render_append] at close
  rw [setTopInner, start]
  simp only [close, setTopLoop_obj shaped]
  unfold topFound topSet
  cases hit : findMember (o.keyOf key) o.members with
  | none =>
      have prefixText : slurp content =
          (pre ++ '{' :: o.inner) ++ '}' :: post := by
        rw [text, Obj.render_append]
        simp
      rw [prefixText, upTo_append, upTo_append,
        Obj.append_render shaped.hollow, newMember_eq, Obj.keyOf_of_none hit]
      simp [isBlank, blank, indent]
  | some found =>
      obtain ⟨m, after⟩ := found
      obtain ⟨before, split, modified⟩ := Obj.split_of_findMember hit
      have prefixText : slurp content =
          (pre ++ front before m) ++ (m.fromValue ++ closing after post) := by
        rw [text, split, render_split]
        simp
      simp only
      rw [prefixText, upTo_append, modified, render_split]
      simp [front, Member.fromValue]

theorem setTopInner_obj (wf : o.Wf) (space : blank pre = true)
    (text : slurp content = pre ++ (o.render ++ post))
    (plain : plainKey key = true) (lit : Text) :
    setTopInner key lit content =
      .ok (pre ++ ((topSet o key lit).render ++ post) ++ ['\n']) := by
  rw [setTopInner_shaped wf.shaped space text, wf.keyOf plain]

theorem valueEnd_obj (shaped : o.Shaped) (rest : Text) :
    valueEnd (o.render ++ rest) = rest := by
  have inside := bracketEnd_scanner.bal shaped.bal_inner (fun _ => Nat.one_pos)
    ('}' :: rest)
  rw [Obj.render_append]
  simp [valueEnd, skipWs, isWs, bracketEnd, inside]

variable {s : Text}

theorem delObjectKeyInner_eq {root : Text} {found : Found}
    (text : chomp (slurp content) = s) (start : skipWs s = '{' :: root)
    (hit : findKey ('{' :: root) (valueEnd ('{' :: root)) key = some found) :
    delObjectKeyInner key content =
      .ok (cutMember s found.fk found.fe ++ ['\n']) := by
  have cutText : cutMember s found.fk found.fe =
      if (skipWs found.fe).head? = some ',' then
        upTo s found.fk ++ (skipWs found.fe).tail
      else if (prevNonWs (upTo s found.fk)).getLast? = some ',' then
        (prevNonWs (upTo s found.fk)).dropLast ++ found.fe
      else upTo s found.fk ++ found.fe := rfl
  rw [delObjectKeyInner, text, start, cutText]
  simp only [hit]
  by_cases comma : (prevNonWs (upTo s found.fk)).getLast? = some ','
  · cases skipWs found.fe with
    | nil => simp [comma]
    | cons d behind =>
        by_cases separator : d = ','
        · simp [separator]
        · simp [separator, comma]
  · cases skipWs found.fe with
    | nil => simp [comma]
    | cons d behind =>
        by_cases separator : d = ','
        · simp [separator]
        · simp [separator, comma]

theorem delObjectKeyInner_shaped (shaped : o.Shaped) (space : blank pre = true)
    (text : chomp (slurp content) = pre ++ (o.render ++ post)) (key : Text) :
    delObjectKeyInner key content =
      .ok (pre ++ ((o.remove (o.keyOf key)).render ++ post) ++ ['\n']) := by
  have start : skipWs (pre ++ (o.render ++ post)) =
      '{' :: (o.inner ++ '}' :: post) := by
    rw [skipWs, dropWhile_isWs_blank _ space, Obj.render_append]
    simp [isWs]
  have search : findKey ('{' :: (o.inner ++ '}' :: post))
      (valueEnd ('{' :: (o.inner ++ '}' :: post))) key =
      (findMember (o.keyOf key) o.members).map fun found =>
        foundAt found.1 found.2 post := by
    rw [← Obj.render_append, valueEnd_obj shaped, findKey_shaped shaped,
      Obj.findMember_keyOf]
  cases hit : findMember (o.keyOf key) o.members with
  | none =>
      rw [delObjectKeyInner, text, start]
      simp [search, Obj.remove, hit]
  | some found =>
      obtain ⟨m, after⟩ := found
      obtain ⟨before, split, removed⟩ := Obj.remove_split hit
      have mShaped : m.Shaped := by
        obtain ⟨_, left, listed, _⟩ := findMember_mem hit
        exact shaped.members m (by simp [listed])
      have same := @cutMember_obj before m after o.hollow mShaped pre post
      rw [hit] at search
      rw [← split] at same
      rw [delObjectKeyInner_eq text start search, removed, ← same]
      rfl

theorem delObjectKeyInner_obj (wf : o.Wf) (space : blank pre = true)
    (text : chomp (slurp content) = pre ++ (o.render ++ post)) (key : Text) :
    delObjectKeyInner key content =
      .ok (pre ++ ((o.remove key).render ++ post) ++ ['\n']) := by
  have removed : o.remove (o.keyOf key) = o.remove key := by
    rw [Obj.remove, Obj.remove, Obj.findMember_keyOf, findNamed_wf wf.members]
  rw [delObjectKeyInner_shaped wf.shaped space text, removed]

/-- The search inside a member whose value is an object. -/
theorem memberOf_obj (laid : o.Laid) (value : m.val = o.render)
    (behind target : Text) :
    memberOf (m.fromValue ++ behind) (m.trail ++ behind) target =
      (findMember (escapeName target) o.members).map fun (found, after) =>
        foundAt found after (m.trail ++ behind) := by
  have start : m.fromValue ++ behind = o.render ++ (m.trail ++ behind) := by
    simp [Member.fromValue, value]
  have opening : (o.render ++ (m.trail ++ behind)).head? = some '{' := by
    simp [Obj.render]
  rw [start, memberOf, if_pos opening, findKey_laid laid]

theorem memberOf_other (shaped : m.Shaped) (noObject : m.val.head? ≠ some '{')
    (behind stop target : Text) :
    memberOf (m.fromValue ++ behind) stop target = none := by
  have start : (m.fromValue ++ behind).head? = m.val.head? := by
    obtain ⟨c, rest, split, _⟩ := shaped.val.head
    simp [Member.fromValue, split]
  rw [memberOf, start, if_neg noObject]

theorem upTo_fromValue (m : Member) (behind : Text) :
    upTo (m.fromValue ++ behind) (m.trail ++ behind) = m.val := by
  have split : m.fromValue ++ behind = m.val ++ (m.trail ++ behind) := by
    simp [Member.fromValue]
  rw [split, upTo_append]

theorem trimWs_val {value : Text} (shape : Val value) : trimWs value = value := by
  have trimmed := shape.trimWs_append (show blank [] = true from rfl)
  simpa using trimmed

/-- What `get_device` answers, from the members of the root object. -/
theorem getDeviceInner_obj (wf : o.Wf) (space : blank pre = true)
    (text : slurp content = pre ++ (o.render ++ post)) (mac key : Text) :
    getDeviceInner mac key content =
      match findMember "devices".toList o.members with
      | none => .error 3
      | some (devices, after) =>
          match memberOf (devices.fromValue ++ closing after post)
              (devices.trail ++ closing after post) mac with
          | none => .error 3
          | some device =>
              match memberOf device.fs device.fe key with
              | none => .error 3
              | some field =>
                  .ok (trimWs (upTo field.fs field.fe) ++ ['\n']) := by
  have start : skipWs (slurp content) = o.render ++ post := by
    rw [skipWs, text, dropWhile_isWs_blank _ space, Obj.render_append]
    simp [isWs]
  have opening : (o.render ++ post).head? = some '{' := by
    simp [Obj.render]
  rw [getDeviceInner, start]
  simp only [valueEnd_obj wf.shaped, findKey_obj wf]
  cases findMember "devices".toList o.members with
  | none => rfl
  | some found => rfl

theorem objectInsert_obj (space : blank o.hollow = true) {before rest : Text}
    (text : s = before ++ (o.render ++ rest)) (key val : Text) :
    objectInsert s (o.render ++ rest) rest key val =
      before ++ ((o.append (escapeName key) val).render ++ rest) := by
  have split : s = (before ++ '{' :: o.inner) ++ '}' :: rest := by
    rw [text, Obj.render_append]
    simp
  have close : s.drop (s.length - (rest.length + 1)) = '}' :: rest := by
    rw [split]
    exact drop_append_length _ _ _ rfl
  have inside : upTo (o.render ++ rest).tail ('}' :: rest) = o.inner := by
    rw [Obj.render_append, List.tail_cons, upTo_append]
  simp only [objectInsert, close, inside]
  rw [split, upTo_append, Obj.append_render space, newMember_eq]
  simp [isBlank, blank, indent]

/-- A write into an object of the file: replacing the found value, or
inserting before the closing brace, is setting the member. -/
theorem write_obj (space : blank o.hollow = true) {outer rest : Text}
    (text : s = outer ++ (o.render ++ rest)) (key lit : Text) :
    (match (findMember (escapeName key) o.members).map fun (m, after) =>
        foundAt m after rest with
      | some found => upTo s found.fs ++ lit ++ found.fe
      | none => objectInsert s (o.render ++ rest) rest key lit) =
      outer ++ ((o.setBack (escapeName key) lit).render ++ rest) := by
  cases hit : findMember (escapeName key) o.members with
  | none =>
      simp only [Obj.setBack, hit]
      exact objectInsert_obj space text key lit
  | some found =>
      obtain ⟨m, after⟩ := found
      obtain ⟨before, _, old, new⟩ := Obj.setValue_render hit
      have split : s = (outer ++ front before m) ++
          (m.fromValue ++ closing after rest) := by
        rw [text, old, Member.fromValue]
        simp
      have changed := new lit rest
      simp only [Obj.setBack, hit, Option.map_some, foundAt]
      rw [split, upTo_append]
      rw [Obj.setValue] at changed
      rw [changed]
      simp

section Rules

variable (f : Frame) {devices : Obj}

theorem skipWs_body (devices : Obj) :
    skipWs (f.body devices) = (f.root devices).render ++ f.post := by
  rw [skipWs, Frame.body, dropWhile_isWs_blank _ f.blank_pre,
    Obj.render_append]
  simp [isWs]

theorem findKey_devices (shaped : devices.Shaped) :
    findKey ((f.root devices).render ++ f.post) f.post "devices".toList =
      some ⟨(f.field devices).fromKey ++ closing f.after f.post,
        devices.render ++ (f.trail ++ closing f.after f.post),
        f.trail ++ closing f.after f.post⟩ := by
  rw [findKey_obj (f.wf_root shaped), f.findMember_root devices]
  simp [foundAt, Member.fromValue, Frame.field]

theorem body_devices (devices : Obj) : ∃ outer, ∀ other,
    f.body other =
      outer ++ (Obj.render other ++ (f.trail ++ closing f.after f.post)) := by
  obtain ⟨before, _, _, new⟩ := Obj.setValue_render (f.findMember_root devices)
  refine ⟨f.pre ++ front before (f.field devices), ?_⟩
  intro other
  have changed := new other.render f.post
  rw [f.setValue_root] at changed
  rw [Frame.body, changed]
  simp [Frame.field]

theorem setDeviceInner_new (laid : devices.Laid) {mac : Text}
    (absent : findMember (escapeName mac) devices.members = none)
    (key lit : Text) :
    setDeviceInner mac key lit (f.file devices) =
      .ok (f.file (devices.append (escapeName mac)
        ('{' :: newMember key lit ++ ['}']))) := by
  obtain ⟨outer, text⟩ := body_devices f devices
  have inserted := objectInsert_obj laid.hollow (text devices) mac
    ('{' :: newMember key lit ++ ['}'])
  have opening : (devices.render ++ (f.trail ++ closing f.after f.post)).head? =
      some '{' := by
    simp [Obj.render]
  have openingRoot : ((f.root devices).render ++ f.post).head? = some '{' := by
    simp [Obj.render]
  rw [setDeviceInner, Frame.file, slurp_line, chomp_line]
  simp only [skipWs_body, openingRoot, if_true,
    valueEnd_obj (f.wf_root laid.shaped).shaped, findKey_devices f laid.shaped,
    opening, findKey_laid laid, absent, Option.map_none]
  rw [inserted, Frame.file, text (devices.append (escapeName mac) _)]

theorem setDeviceInner_old (laid : devices.Laid) {mac : Text}
    {others : List Member}
    (hit : findMember (escapeName mac) devices.members = some (m, others))
    {device : Obj} (value : m.val = device.render) (deviceLaid : device.Laid)
    (key lit : Text) :
    setDeviceInner mac key lit (f.file devices) =
      .ok (f.file (devices.setValue (escapeName mac)
        (device.setBack (escapeName key) lit).render)) := by
  obtain ⟨outer, text⟩ := body_devices f devices
  obtain ⟨before, _, old, new⟩ := Obj.setValue_render hit
  have inner : f.body devices = (outer ++ front before m) ++ (device.render ++
      (m.trail ++ closing others (f.trail ++ closing f.after f.post))) := by
    rw [text devices, old, value]
    simp
  have written := write_obj deviceLaid.hollow inner key lit
  have opening : (devices.render ++ (f.trail ++ closing f.after f.post)).head? =
      some '{' := by
    simp [Obj.render]
  have openingInner : (device.render ++ (m.trail ++
      closing others (f.trail ++ closing f.after f.post))).head? = some '{' := by
    simp [Obj.render]
  have openingRoot : ((f.root devices).render ++ f.post).head? = some '{' := by
    simp [Obj.render]
  have found : (foundAt m others (f.trail ++ closing f.after f.post)).fs =
      device.render ++ (m.trail ++
        closing others (f.trail ++ closing f.after f.post)) := by
    simp [foundAt, Member.fromValue, value]
  have foundEnd : (foundAt m others (f.trail ++ closing f.after f.post)).fe =
      m.trail ++ closing others (f.trail ++ closing f.after f.post) := rfl
  rw [setDeviceInner, Frame.file, slurp_line, chomp_line]
  simp only [skipWs_body, valueEnd_obj (f.wf_root laid.shaped).shaped,
    findKey_devices f laid.shaped, findKey_laid laid, hit, Option.map_some, found,
    foundEnd, findKey_laid deviceLaid]
  rw [Frame.file, text (devices.setValue (escapeName mac) _), new,
    ← List.append_assoc outer, ← written]
  cases findMember (escapeName key) device.members with
  | none => rfl
  | some field => rfl

theorem getDeviceInner_devices (laid : devices.Laid) (mac key : Text) :
    getDeviceInner mac key (f.file devices) =
      match findMember (escapeName mac) devices.members with
      | none => .error 3
      | some (m, others) =>
          match memberOf (m.fromValue ++ closing others
                (f.trail ++ closing f.after (f.post ++ ['\n'])))
              (m.trail ++ closing others
                (f.trail ++ closing f.after (f.post ++ ['\n']))) key with
          | none => .error 3
          | some field => .ok (trimWs (upTo field.fs field.fe) ++ ['\n']) := by
  have text : slurp (f.file devices) =
      f.pre ++ ((f.root devices).render ++ (f.post ++ ['\n'])) := by
    rw [Frame.file, slurp_line, Frame.body]
    simp
  rw [getDeviceInner_obj (f.wf_root laid.shaped) f.blank_pre text,
    f.findMember_root devices]
  simp only
  rw [memberOf_obj laid (show (f.field devices).val = devices.render from rfl)]
  cases findMember (escapeName mac) devices.members with
  | none => rfl
  | some found => rfl

end Rules

end Hnc.HncJson
