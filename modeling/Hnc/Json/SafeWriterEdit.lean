import Hnc.Json.Defaults
import Hnc.Json.SafeWriterScan

/-!
# What `json_set.sh` writes in laid out files

On a file that renders an object these programs set a member in place, insert
a new member right behind the opening brace, or cut a member out.
-/

namespace Hnc.SafeWriter

open Posix JsonText

theorem comma_obj {o : Obj} (shaped : o.Shaped) (rest : Text) :
    comma (o.inner ++ '}' :: rest) = if blank o.inner then [] else [','] := by
  have hollowIff := Obj.blank_inner_iff shaped.hollow
  obtain ⟨members, hollow⟩ := o
  cases members with
  | nil =>
      have space : blank (Obj.mk [] hollow).inner = true := hollowIff.mpr rfl
      have solid : skipws ((Obj.mk [] hollow).inner ++ '}' :: rest) =
          '}' :: rest := by
        rw [skipws, dropWhile_isWs_blank _ space]
        simp [isWs]
      rw [comma, solid, if_pos space]
      simp
  | cons m after =>
      have first : m.Shaped := shaped.members m (by simp)
      have full : blank (Obj.mk (m :: after) hollow).inner = false := by
        simpa using hollowIff.not
      have solid : skipws ((Obj.mk (m :: after) hollow).inner ++ '}' :: rest) =
          m.fromKey ++ closing after rest := by
        rw [Obj.inner_cons, Member.render, List.append_assoc, skipws,
          dropWhile_isWs_blank _ first.lead, m.fromKey_append]
        simp [isWs]
      rw [comma, solid, m.fromKey_append, full]
      simp

theorem insertFront_obj {o : Obj} (shaped : o.Shaped)
    (outer rest key val : Text) :
    insertFront (outer ++ (o.render ++ rest)) (o.render ++ rest)
        (entry key val) =
      outer ++ ((o.prepend key val).render ++ rest) := by
  have behind : (o.render ++ rest).tail = o.inner ++ '}' :: rest := by
    rw [Obj.render_append]
    rfl
  rw [insertFront, upTo_append, behind, comma_obj shaped,
    Obj.prepend_render shaped.hollow]
  simp [entry, quote]

theorem firstBrace_obj {pre : Text} (space : blank pre = true) (o : Obj)
    (post : Text) :
    firstBrace (pre ++ (o.render ++ post)) = some (o.render ++ post) := by
  have skipped : ∀ c ∈ pre, (c != '{') = true := by
    intro c member
    have white := isPlain_of_isWs (List.all_eq_true.mp space c member)
    simp only [isPlain, Bool.and_eq_true] at white
    exact white.1.1.1.2
  rw [firstBrace, List.dropWhile_append_of_pos skipped, Obj.render_append]
  simp

/-- Set a member; a new one goes in front of the others. -/
def setFront (o : Obj) (key val : Text) : Obj :=
  match findMember key o.members with
  | some _ => o.modify key fun m => { m with val := val, trail := keptTrail m }
  | none => o.prepend key val

variable {m : Member}

theorem blank_keptTrail (shaped : m.Shaped) : blank (keptTrail m) = true := by
  unfold keptTrail
  split
  · rfl
  · exact shaped.trail

variable {key : Text}

theorem wf_setFront {o : Obj} (wf : o.Wf) {val : Text}
    (plain : plainKey key = true) (shape : Val val) :
    (setFront o key val).Wf := by
  unfold setFront
  split
  · apply wf.modify
    intro m mWf _
    exact ⟨mWf.lead, mWf.key, mWf.gap, mWf.pad, shape,
      blank_keptTrail mWf.shaped⟩
  · exact wf.prepend plain shape

theorem mem_setFront {o : Obj} (wf : o.Wf) {val : Text}
    (member : m ∈ (setFront o key val).members) :
    m ∈ o.members ∨ o.Sets key val m := by
  unfold setFront at member
  split at member
  · exact Obj.mem_modify wf (fun old oldWf => blank_keptTrail oldWf.shaped) member
  · exact Obj.mem_prepend wf member

theorem forall_setFront {P : Member → Prop} {o : Obj} {val : Text}
    (space : blank o.hollow = true) (all : ∀ m ∈ o.members, P m)
    (new : ∀ lead trail, blank lead = true → blank trail = true →
      P { written lead key val with trail := trail })
    (kept : ∀ m, P m → m.key = key →
      P { m with val := val, trail := keptTrail m }) :
    ∀ m ∈ (setFront o key val).members, P m := by
  unfold setFront
  split
  · exact Obj.forall_modify all kept
  · intro m member
    unfold Obj.prepend at member
    split at member
    · rw [List.mem_singleton.mp member]
      exact new [] o.hollow rfl space
    · rename_i first rest list
      rcases List.mem_cons.mp member with rfl | old
      · exact new _ [] rfl rfl
      · exact all m (by rw [list]; exact old)

theorem nodup_setFront {o : Obj} (distinct : (o.members.map Member.key).Nodup)
    (key val : Text) : ((setFront o key val).members.map Member.key).Nodup := by
  unfold setFront
  split
  · have keys := map_replaceFirst Member.key key
      (fun m => { m with val := val, trail := keptTrail m }) fun _ => rfl
    rw [Obj.modify, keys]
    exact distinct
  · rename_i absent
    rw [Obj.map_key_prepend, List.nodup_cons]
    refine ⟨?_, distinct⟩
    intro member
    obtain ⟨m, listed, same⟩ := List.mem_map.mp member
    exact findMember_eq_none.mp absent m listed same

theorem get_setFront (o : Obj) (key val other : Text) :
    (setFront o key val).get other =
      if other = key then some val else o.get other := by
  unfold setFront
  cases hit : findMember key o.members with
  | none => exact Obj.get_prepend o key val other
  | some found =>
      have read := @Obj.get_modify o key
        (fun m => { m with val := val, trail := keptTrail m })
        (fun _ => rfl) val (fun _ => rfl) other
      rw [read]
      simp [Obj.get, hit]

/-- The text after a write: replacing the found value, or inserting in front of
the members, is setting the member. -/
theorem write_obj {o : Obj} (shaped : o.Shaped)
    (outer rest key val : Text) :
    (match foundIn key o.members rest with
      | some found =>
          upTo (outer ++ (o.render ++ rest)) found.fs ++ val ++ found.fe
      | none =>
          insertFront (outer ++ (o.render ++ rest)) (o.render ++ rest)
            (entry key val)) =
      outer ++ ((setFront o key val).render ++ rest) := by
  cases hit : findMember key o.members with
  | none =>
      simp only [foundIn, setFront, hit]
      exact insertFront_obj shaped outer rest key val
  | some found =>
      obtain ⟨m, after⟩ := found
      obtain ⟨before, split, modified⟩ := Obj.split_of_findMember hit
      have text : outer ++ (o.render ++ rest) =
          (outer ++ front before m) ++ (m.fromValue ++ closing after rest) := by
        rw [split, render_split]
        simp
      simp only [foundIn, setFront, hit, Option.map_some]
      rw [text, upTo_append, modified, render_split]
      simp [front, Member.fromValue]

section Flat

variable {pre post : Text} {o : Obj}

section

variable (before : blank pre = true) (shaped : o.Shaped)
  (behind : blank post = true) {content : Text}
  (text : chomp (slurp content) = pre ++ (o.render ++ post))
include before shaped behind text

theorem updateTop_obj (field val : Text) :
    updateTop field val content =
      .ok (pre ++ ((setFront o field val).render ++ post) ++ ['\n']) := by
  have write := write_obj shaped pre post field val
  rw [updateTop, text]
  simp only [findkey_top before shaped behind, firstBrace_obj before]
  cases hit : foundIn field o.members post with
  | none =>
      rw [hit] at write
      simp only at write ⊢
      rw [write]
  | some found =>
      rw [hit] at write
      simp only at write ⊢
      rw [write]

/-- An object is not an empty file, so this is the program for a member. -/
theorem objectSet_obj (key val : Text) :
    objectSet key val content =
      .ok (pre ++ ((setFront o key val).render ++ post) ++ ['\n']) := by
  have nonempty : chomp (slurp content) ≠ [] := by
    rw [text]
    simp [Obj.render]
  have same : objectSet key val content = updateTop key val content := by
    simp only [objectSet, if_neg nonempty]
    rfl
  rw [same]
  exact updateTop_obj before shaped behind text key val

end

/-- The member that is to go has a value behind which the white space is left
alone. -/
theorem removeFound_obj (wf : o.Wf) {after : List Member}
    (hit : findMember key o.members = some (m, after))
    (solid : isBare m.val = false) (outer rest : Text) :
    removeFound (outer ++ (o.render ++ rest))
        ⟨m.fromKey ++ closing after rest, m.fromValue ++ closing after rest,
          keptTrail m ++ closing after rest⟩ =
      outer ++ ((o.remove key).render ++ rest) := by
  obtain ⟨before, split, removed⟩ := Obj.remove_split hit
  have kept : keptTrail m = m.trail := by
    simp [keptTrail, solid]
  have same := @cutMember_obj before m after o.hollow
    (wf.mem_of_findMember hit).shaped outer rest
  rw [kept, removed]
  rw [← split] at same
  exact same

theorem objectDel_obj (before : blank pre = true) (wf : o.Wf)
    (behind : blank post = true)
    (solid : ∀ m ∈ o.members, isBare m.val = false) {content : Text}
    (text : chomp (slurp content) = pre ++ (o.render ++ post)) (key : Text) :
    objectDel key content =
      .ok (pre ++ ((o.remove key).render ++ post) ++ ['\n']) := by
  rw [objectDel, text]
  simp only [findkey_top before wf.shaped behind, foundIn]
  cases hit : findMember key o.members with
  | none => simp [Obj.remove, hit]
  | some found =>
      obtain ⟨m, after⟩ := found
      have listed : m ∈ o.members := by
        obtain ⟨_, front, split, _⟩ := findMember_mem hit
        simp [split]
      simp only [Option.map_some]
      rw [removeFound_obj wf hit (solid m listed)]

end Flat

theorem isBare_obj (o : Obj) : isBare o.render = false := by
  simp [isBare, Obj.render]

/-- An object in a file: the text in front of it leaves this many braces open. -/
structure Place (s : Text) (depth : Nat) (outer : Text) (o : Obj)
    (rest : Text) : Prop where
  text : s = outer ++ (o.render ++ rest)
  opens : Opens depth outer
  wf : o.Wf

theorem bal_before {members : List Member} (wf : ∀ m ∈ members, m.Wf) :
    Bal (members.flatMap fun other => other.render ++ [',']) := by
  induction members with
  | nil => exact .nil
  | cons m rest induction =>
      have first : Bal (m.render ++ [',']) :=
        (wf m (by simp)).shaped.bal_render.append (.plain (by decide) .nil)
      exact first.append (induction fun other member => wf other (by simp [member]))

/-- The text up to the value of a member leaves one brace more open. -/
theorem opens_front {depth : Nat} {outer : Text} (opens : Opens depth outer)
    {before : List Member} {after : List Member} {hollow : Text}
    (wf : (Obj.mk (before ++ m :: after) hollow).Wf) :
    Opens (depth + 1) (outer ++ front before m) := by
  have member : m.Wf := wf.members m (by simp)
  have others : Bal (before.flatMap fun other => other.render ++ [',']) :=
    bal_before fun other listed => wf.members other (by simp [listed])
  have name : Bal (m.lead ++ quote m.key ++ m.gap ++ ':' :: m.pad) :=
    (((bal_of_blank member.lead).append
      (bal_quote (body_of_plainKey member.key))).append
      (bal_of_blank member.gap)).append
      (.plain (by decide) (bal_of_blank member.pad))
  have whole := Opens.deeper opens (others.append name)
  simpa [front] using whole

namespace Place

variable {s outer rest : Text} {depth : Nat} {o : Obj}

theorem found (place : Place s depth outer o rest) (key : Text) (target : Int)
    (deep : target = depth + 1) :
    findkey s key target (o.render ++ rest) ('}' :: rest) =
      foundIn key o.members rest := by
  have same := findkey_obj place.opens place.wf.shaped rest key
  rw [← place.text, ← deep] at same
  exact same

theorem brace (place : Place s depth outer o rest) :
    braceBefore s rest = '}' :: rest := by
  have split : s = (outer ++ '{' :: o.inner) ++ '}' :: rest := by
    rw [place.text, Obj.render_append]
    simp
  rw [split]
  exact drop_append_length _ _ _ rfl

theorem written (place : Place s depth outer o rest) (key val : Text) :
    (match foundIn key o.members rest with
      | some found => upTo s found.fs ++ val ++ found.fe
      | none => insertFront s (o.render ++ rest) (entry key val)) =
      outer ++ ((setFront o key val).render ++ rest) := by
  have same := write_obj place.wf.shaped outer rest key val
  rw [← place.text] at same
  exact same

/-- The place of a member value, and how a change of it reaches the object. -/
theorem member (place : Place s depth outer o rest) {key : Text} {m : Member}
    {after : List Member} (hit : findMember key o.members = some (m, after))
    {inner : Obj} (value : m.val = inner.render) (innerWf : inner.Wf) :
    ∃ front, Place s (depth + 1) (outer ++ front) inner
        (m.trail ++ closing after rest) ∧
      ∀ val, outer ++ ((o.setValue key val).render ++ rest) =
        (outer ++ front) ++ (val ++ (m.trail ++ closing after rest)) := by
  obtain ⟨before, split, old, new⟩ := Obj.setValue_render hit
  refine ⟨front before m, ⟨?_, ?_, innerWf⟩, ?_⟩
  · rw [place.text, old, value]
    simp
  · exact opens_front place.opens (split ▸ place.wf)
  · intro val
    rw [new]
    simp

end Place

section Rules

variable (f : Frame) {devices : Obj}

theorem place_devices (wf : devices.Wf) :
    ∃ outer, Place (f.body devices) 1 outer devices
        (f.trail ++ closing f.after f.post) ∧
      ∀ other, f.body other =
        outer ++ (Obj.render other ++ (f.trail ++ closing f.after f.post)) := by
  have top : Place (f.body devices) 0 f.pre (f.root devices) f.post :=
    ⟨rfl, .balanced (bal_of_blank f.blank_pre), f.wf_root wf.shaped⟩
  obtain ⟨front, place, change⟩ :=
    top.member (f.findMember_root devices) rfl wf
  refine ⟨f.pre ++ front, place, ?_⟩
  intro other
  have changed := change other.render
  rw [f.setValue_root] at changed
  exact changed

theorem findkey_devices (wf : devices.Wf) :
    findkey (f.body devices) "devices".toList 1 (f.body devices) [] =
      some ⟨(f.field devices).fromKey ++ closing f.after f.post,
        devices.render ++ (f.trail ++ closing f.after f.post),
        f.trail ++ closing f.after f.post⟩ := by
  have found := findkey_top f.blank_pre (f.wf_root wf.shaped).shaped
    f.blank_post
    "devices".toList
  rw [Frame.body, found, foundIn, f.findMember_root devices]
  simp [Member.fromValue, keptTrail, isBare_obj, Frame.field]

theorem head_obj (o : Obj) (rest : Text) : (o.render ++ rest).head? = some '{' := by
  simp [Obj.render]

theorem updateDevice_new (wf : devices.Wf) {mac : Text}
    (absent : findMember mac devices.members = none) (key val : Text) :
    updateDevice mac key val (f.file devices) =
      .ok (f.file (devices.prepend mac ('{' :: entry key val ++ ['}']))) := by
  obtain ⟨outer, place, change⟩ := place_devices f wf
  have inserted := insertFront_obj wf.shaped outer (f.trail ++ closing f.after f.post)
    mac ('{' :: entry key val ++ ['}'])
  have none : foundIn mac devices.members (f.trail ++ closing f.after f.post) =
      none := by
    simp [foundIn, absent]
  rw [← place.text] at inserted
  rw [updateDevice, Frame.file, slurp_line, chomp_line]
  simp only [findkey_devices f wf, head_obj, if_true, objend_obj wf.shaped,
    place.brace]
  rw [place.found mac 2 rfl, none]
  simp only [inserted]
  rw [Frame.file, change]

theorem updateDevice_old (wf : devices.Wf) {mac : Text} {others : List Member}
    (hit : findMember mac devices.members = some (m, others)) {device : Obj}
    (value : m.val = device.render) (deviceWf : device.Wf) (key val : Text) :
    updateDevice mac key val (f.file devices) =
      .ok (f.file (devices.setValue mac (setFront device key val).render)) := by
  obtain ⟨outer, place, change⟩ := place_devices f wf
  obtain ⟨front, inner, changeInner⟩ := place.member hit value deviceWf
  have found : foundIn mac devices.members (f.trail ++ closing f.after f.post) =
      some ⟨m.fromKey ++ closing others (f.trail ++ closing f.after f.post),
        device.render ++ (m.trail ++
          closing others (f.trail ++ closing f.after f.post)),
        m.trail ++ closing others (f.trail ++ closing f.after f.post)⟩ := by
    simp [foundIn, hit, Member.fromValue, keptTrail, isBare_obj, value]
  have written := inner.written key val
  rw [updateDevice, Frame.file, slurp_line, chomp_line]
  simp only [findkey_devices f wf, objend_obj wf.shaped, place.brace]
  rw [place.found mac 2 rfl, found]
  simp only [objend_obj deviceWf.shaped, inner.brace]
  rw [inner.found key 3 rfl, Frame.file, change (devices.setValue mac _),
    changeInner, ← written]
  cases foundIn key device.members (m.trail ++
      closing others (f.trail ++ closing f.after f.post)) with
  | none => rfl
  | some hitField => rfl

theorem removeDevice_obj (wf : devices.Wf)
    (objects : ∀ m ∈ devices.members, isBare m.val = false) (mac : Text) :
    removeDevice mac (f.file devices) = .ok (f.file (devices.remove mac)) := by
  obtain ⟨outer, place, change⟩ := place_devices f wf
  rw [removeDevice, Frame.file, slurp_line, chomp_line]
  simp only [findkey_devices f wf, head_obj, if_true, place.brace]
  rw [place.found mac 2 rfl, Frame.file, change (devices.remove mac)]
  cases hit : findMember mac devices.members with
  | none =>
      simp only [foundIn, hit, Option.map_none, Obj.remove]
      rw [place.text]
  | some found =>
      obtain ⟨m, others⟩ := found
      have listed : m ∈ devices.members := by
        obtain ⟨_, front, split, _⟩ := findMember_mem hit
        simp [split]
      have removed := removeFound_obj wf hit (objects m listed) outer
        (f.trail ++ closing f.after f.post)
      rw [← place.text] at removed
      simp only [foundIn, hit, Option.map_some, removed]

end Rules

end Hnc.SafeWriter
