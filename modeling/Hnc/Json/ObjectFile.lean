import Hnc.Json.FlatStore
import Hnc.Json.SafeWriterEdit

/-!
# Files with one object

Whatever the names of its members are, a valid file with one object is laid out
as that object, and `hnc_json` sets, reads and removes the first member that is
read under a name.
-/

namespace Hnc

open Posix JsonText

/-- A file that is laid out as an object, with what its members mean. -/
structure ObjectFile (file : Text) (o : Obj) (entries : List (Text × Json)) :
    Prop where
  text : ∃ before after, file = before ++ (o.render ++ after) ∧
    blank before = true ∧ blank after = true
  means : List.Forall₂ Member.Means o.members entries
  hollow : blank o.hollow = true

theorem exists_objectFile {file : Text} {entries : List (Text × Json)}
    (denotes : Denotes file (.object entries)) :
    ∃ o, ObjectFile file o entries := by
  obtain ⟨before, middle, after, split, beforeBlank, derives, afterBlank⟩ :=
    denotes
  obtain ⟨o, text, space, means⟩ := derives.object_members
  exact ⟨o, ⟨before, after, by rw [split, text], beforeBlank, afterBlank⟩,
    means, space⟩

/-- Members that mean something mean a list of entries. -/
theorem forall₂_means {members : List Member}
    (each : ∀ m ∈ members, ∃ entry, m.Means entry) :
    ∃ entries, List.Forall₂ Member.Means members entries := by
  induction members with
  | nil => exact ⟨[], .nil⟩
  | cons m members induction =>
      obtain ⟨entry, first⟩ := each m (by simp)
      obtain ⟨entries, rest⟩ :=
        induction fun other member => each other (by simp [member])
      exact ⟨entry :: entries, .cons first rest⟩

theorem exists_member_of_get {o : Obj} {key val : Text}
    (read : o.get key = some val) : ∃ m ∈ o.members, m.val = val := by
  obtain ⟨⟨m, after⟩, hit, same⟩ := Option.map_eq_some_iff.mp read
  obtain ⟨_, before, split, _⟩ := findMember_mem hit
  exact ⟨m, by simp [split], same⟩

variable {o' : Obj}

namespace ObjectFile

variable {file : Text} {o : Obj} {entries : List (Text × Json)}

section

variable (object : ObjectFile file o entries)
include object

theorem denotes :
    Denotes file (.object entries) := by
  obtain ⟨before, after, split, beforeBlank, afterBlank⟩ := object.text
  exact ⟨before, o.render, after, split, beforeBlank,
    derives_object object.hollow object.means, afterBlank⟩

theorem valid :
    Guard.jsonGuard file = true :=
  (Guard.jsonGuard_iff file).mpr ⟨_, object.denotes⟩

theorem each :
    ∀ m ∈ o.members, ∃ entry, m.Means entry := by
  intro m member
  obtain ⟨entry, _, means⟩ := exists_meaning object.means member
  exact ⟨entry, means⟩

theorem shaped : o.Shaped := by
  refine ⟨?_, object.hollow⟩
  intro m member
  obtain ⟨entry, means⟩ := object.each m member
  exact means.shaped

/-- Whatever the file stands for is an object with the same names. -/
theorem names_of_denotes {tree : Json} (denotes : Denotes file tree) :
    ∃ others, tree = .object others ∧
      entries.map Prod.fst = others.map Prod.fst := by
  obtain ⟨before, after, text, beforeBlank, afterBlank⟩ := object.text
  rw [text] at denotes
  obtain ⟨others, isObject, means⟩ := means_of_derives object.shaped
    (derives_of_denotes object.shaped.val_render beforeBlank afterBlank denotes)
  refine ⟨others, isObject, ?_⟩
  rw [map_name_of_means object.means, map_name_of_means means]

theorem slurp : ∃ before after,
    Posix.slurp file = before ++ (o.render ++ after) ∧ blank before = true ∧
      blank after = true := by
  obtain ⟨before, after, split, beforeBlank, afterBlank⟩ := object.text
  exact slurp_obj split beforeBlank afterBlank

theorem chomp_slurp : ∃ before after,
    chomp (Posix.slurp file) = before ++ (o.render ++ after) ∧
      blank before = true ∧ blank after = true := by
  obtain ⟨before, after, split, beforeBlank, afterBlank⟩ := object.slurp
  rw [split]
  exact chomp_obj o beforeBlank afterBlank

theorem getTop {key : Text} (name : assign key = key) :
    HncJson.getTop file key =
      HncJson.topAnswer (o.keyOf key) o.members := by
  obtain ⟨before, after, split, beforeBlank, _⟩ := object.slurp
  rw [HncJson.getTop, if_pos object.valid, name]
  exact HncJson.getTopInner_shaped object.shaped beforeBlank split key

theorem commit {before after : Text} (beforeBlank : blank before = true)
    (afterBlank : blank after = true) (hollow : blank o'.hollow = true)
    (each : ∀ m ∈ o'.members, ∃ entry, m.Means entry) :
    ∃ next entries', HncJson.commit file
        (.ok (before ++ (o'.render ++ after) ++ ['\n'])) = some next ∧
      ObjectFile next o' entries' := by
  obtain ⟨entries', means⟩ := forall₂_means each
  have next : ObjectFile (before ++ (o'.render ++ (after ++ ['\n']))) o'
      entries' :=
    ⟨⟨before, after ++ ['\n'], rfl, beforeBlank,
      blank_append.mpr ⟨afterBlank, by decide⟩⟩, means, hollow⟩
  have text : before ++ (o'.render ++ after) ++ ['\n'] =
      before ++ (o'.render ++ (after ++ ['\n'])) := by simp
  refine ⟨_, entries', ?_, next⟩
  rw [HncJson.commit, if_pos object.valid, text]
  exact if_pos next.valid

end

theorem not_commit {before after : Text} (beforeBlank : blank before = true)
    (afterBlank : blank after = true) (shaped : o'.Shaped) {m : Member}
    (member : m ∈ o'.members) (broken : ∀ value, ¬ Derives .value m.val value) :
    Guard.jsonGuard (before ++ (o'.render ++ after) ++ ['\n']) = false := by
  have text : before ++ (o'.render ++ after) ++ ['\n'] =
      before ++ (o'.render ++ (after ++ ['\n'])) := by simp
  rw [text, ← Bool.not_eq_true]
  intro valid
  obtain ⟨entries, means⟩ := Flat.means_of_valid shaped beforeBlank
    (blank_append.mpr ⟨afterBlank, by decide⟩) valid
  obtain ⟨entry, _, meant⟩ := exists_meaning means member
  exact broken entry.2 meant.value

end ObjectFile

/-- A text without control characters. -/
def isPrintable (text : Text) : Bool :=
  text.all fun c => !isControl c

theorem isPrintable_cons {c : Char} {text : Text} :
    isPrintable (c :: text) = true ↔
      isControl c = false ∧ isPrintable text = true := by
  simp [isPrintable]

theorem isPrintable_of_escapeFree {text : Text}
    (free : escapeFree text = true) : isPrintable text = true := by
  apply List.all_eq_true.mpr
  intro c member
  have char := List.all_eq_true.mp free c member
  simp only [Bool.and_eq_true] at char
  exact char.2

theorem chars_escapeName {value : Text} (printable : isPrintable value = true) :
    Chars (escapeName value) := by
  induction value with
  | nil => exact .nil
  | cons c value induction =>
      obtain ⟨visible, rest⟩ := isPrintable_cons.mp printable
      have later := induction rest
      rw [escapeName_cons]
      split
      · exact .escape (by decide) later
      · split
        · exact .escape (by decide) later
        · rename_i slash quote
          refine .unescaped ?_ quote slash later
          simpa [isControl] using visible

theorem keyAmong_eq_find (target : Text) (members : List Member) :
    keyAmong target members =
      ((members.map Member.key).find? fun key =>
        readName false key = target).getD (escapeName target) := by
  induction members with
  | nil => rfl
  | cons m members induction =>
      rw [keyAmong] at induction ⊢
      by_cases same : m.name = target
      · have read : readName false m.key = target := same
        simp [findNamed, same, read]
      · have read : ¬ readName false m.key = target := same
        simpa [findNamed, same, read] using induction

/-- After a write, the name still stands under its key. -/
theorem keyOf_of_keys {o : Obj} {target : Text}
    (keys : o'.members.map Member.key = o.members.map Member.key ∨ findMember (o.keyOf target) o.members = none ∧ (o'.members.map Member.key = o.members.map Member.key ++ [o.keyOf target] ∨ o'.members.map Member.key = o.keyOf target :: o.members.map Member.key)) :
    o'.keyOf target = o.keyOf target := by
  have read := o.readName_keyOf target
  rcases keys with same | ⟨hit, behind | inFront⟩
  · rw [Obj.keyOf, Obj.keyOf, keyAmong_eq_find, same, ← keyAmong_eq_find]
  · have absent : (o.members.map Member.key).find?
        (fun key => readName false key = target) = none := by
      rw [Obj.findMember_keyOf, findNamed_eq_none] at hit
      rw [List.find?_eq_none]
      intro key member
      obtain ⟨m, listed, rfl⟩ := List.mem_map.mp member
      have other : ¬ readName false m.key = target := hit m listed
      simpa using other
    rw [Obj.keyOf, keyAmong_eq_find, behind, List.find?_append, absent]
    simp [read]
  · rw [Obj.keyOf, keyAmong_eq_find, inFront]
    simp [read]

/-- Only the empty text is read as the empty name. -/
theorem keyOf_nil {o : Obj} (shaped : o.Shaped) : o.keyOf [] = [] := by
  have read := o.readName_keyOf []
  have body := shaped.body_keyOf []
  generalize o.keyOf [] = key at read body ⊢
  cases body with
  | done => rfl
  | slash inside =>
      cases inside with
      | escaped c _ => simp [readName] at read
  | plain slash _ _ => simp [readName, slash] at read

namespace HncJson

theorem topAnswer_of_get {o : Obj} {key val : Text}
    (value : o.get key = some val) :
    topAnswer key o.members = .ok (val ++ ['\n']) := by
  obtain ⟨⟨m, after⟩, hit, rfl⟩ := Option.map_eq_some_iff.mp value
  rw [topAnswer, hit]

theorem keyOf_topSet (o : Obj) (target val : Text) :
    (topSet o (o.keyOf target) val).keyOf target = o.keyOf target := by
  apply keyOf_of_keys
  unfold topSet
  cases hit : findMember (o.keyOf target) o.members with
  | none => exact .inr ⟨rfl, .inl (Obj.map_key_append o _ val)⟩
  | some found =>
      exact .inl (map_replaceFirst Member.key (o.keyOf target)
        (fun m => { m with val := val, trail := [] }) (fun _ => rfl) o.members)

theorem hollow_topSet (o : Obj) (key val : Text) :
    (topSet o key val).hollow = o.hollow := by
  unfold topSet
  split
  · rfl
  · exact Obj.hollow_append o key val

end HncJson

namespace SafeWriter

theorem keyOf_setFront (o : Obj) (target val : Text) :
    (setFront o (o.keyOf target) val).keyOf target = o.keyOf target := by
  apply keyOf_of_keys
  unfold setFront
  cases hit : findMember (o.keyOf target) o.members with
  | none => exact .inr ⟨rfl, .inr (Obj.map_key_prepend o _ val)⟩
  | some found =>
      exact .inl (map_replaceFirst Member.key (o.keyOf target)
        (fun m => { m with val := val, trail := keptTrail m }) (fun _ => rfl)
        o.members)

theorem hollow_setFront (o : Obj) (key val : Text) :
    (setFront o key val).hollow = o.hollow := by
  unfold setFront
  split
  · rfl
  · unfold Obj.prepend
    split <;> rfl

end SafeWriter

namespace ObjectFile

variable {file : Text} {o : Obj} {entries : List (Text × Json)}

theorem chars_keyOf (object : ObjectFile file o entries) {target : Text}
    (printable : isPrintable target = true) : Chars (o.keyOf target) := by
  cases hit : findNamed target o.members with
  | none =>
      rw [Obj.keyOf, keyAmong, hit]
      exact chars_escapeName printable
  | some found =>
      obtain ⟨_, before, split, _⟩ := findNamed_split hit
      obtain ⟨entry, means⟩ := object.each found.1 (by simp [split])
      rw [Obj.keyOf, keyAmong, hit]
      exact means.key

section Values

variable {key val : Text} {value : Json}
  (chars : Chars key) (derives : Derives .value val value)

include chars derives

theorem each_topSet (object : ObjectFile file o entries) :
    ∀ m ∈ (HncJson.topSet o key val).members, ∃ entry, m.Means entry := by
  apply HncJson.forall_topSet object.hollow object.each
  · intro lead space
    exact ⟨(key, value), ⟨space, rfl, rfl, rfl⟩, chars, rfl, derives⟩
  · rintro m ⟨entry, means⟩ same
    have spaced := means.spaced
    exact ⟨(m.key, value), ⟨spaced.lead, spaced.gap, spaced.pad, rfl⟩,
      means.key, rfl, derives⟩

theorem each_setFront (object : ObjectFile file o entries) :
    ∀ m ∈ (SafeWriter.setFront o key val).members,
      ∃ entry, m.Means entry := by
  apply SafeWriter.forall_setFront object.hollow object.each
  · intro lead trail space behind
    exact ⟨(key, value), ⟨space, rfl, rfl, behind⟩, chars, rfl, derives⟩
  · rintro m ⟨entry, means⟩ same
    have spaced := means.spaced
    exact ⟨(m.key, value), ⟨spaced.lead, spaced.gap, spaced.pad,
      SafeWriter.blank_keptTrail means.shaped⟩, means.key, rfl, derives⟩

end Values

section

variable (object : ObjectFile file o entries) {before after key val : Text}
  (beforeBlank : blank before = true) (afterBlank : blank after = true)
  (body : Body false key) (shape : Val val)
  (broken : ∀ value, ¬ Derives .value val value)
include object beforeBlank afterBlank body shape broken

/-- The safe writer does not get a member past the check that is no JSON. -/
theorem not_commit_setFront :
    Guard.jsonGuard (before ++ ((SafeWriter.setFront o key val).render ++
      after) ++ ['\n']) = false := by
  have shaped : (SafeWriter.setFront o key val).Shaped := by
    refine ⟨?_, by rw [SafeWriter.hollow_setFront]; exact object.hollow⟩
    apply SafeWriter.forall_setFront object.hollow object.shaped.members
    · intro lead trail space behind
      exact ⟨space, body, rfl, rfl, shape, behind⟩
    · intro m shaped _
      exact ⟨shaped.lead, shaped.key, shaped.gap, shaped.pad, shape,
        SafeWriter.blank_keptTrail shaped⟩
  have read : (SafeWriter.setFront o key val).get key = some val := by
    rw [SafeWriter.get_setFront, if_pos rfl]
  obtain ⟨m, member, same⟩ := exists_member_of_get read
  apply not_commit beforeBlank afterBlank shaped member
  rw [same]
  exact broken

theorem not_commit_topSet :
    Guard.jsonGuard (before ++ ((HncJson.topSet o key val).render ++
      after) ++ ['\n']) = false := by
  have shaped : (HncJson.topSet o key val).Shaped := by
    refine ⟨?_, by rw [HncJson.hollow_topSet]; exact object.hollow⟩
    apply HncJson.forall_topSet object.hollow object.shaped.members
    · intro lead space
      exact ⟨space, body, rfl, rfl, shape, rfl⟩
    · intro m shaped _
      exact ⟨shaped.lead, shaped.key, shaped.gap, shaped.pad, shape, rfl⟩
  have read : (HncJson.topSet o key val).get key = some val := by
    rw [HncJson.get_topSet, if_pos rfl]
  obtain ⟨m, member, same⟩ := exists_member_of_get read
  apply not_commit beforeBlank afterBlank shaped member
  rw [same]
  exact broken

end

theorem commit_setTopInner (object : ObjectFile file o entries)
    {target val : Text} (printable : isPrintable target = true) {value : Json}
    (derives : Derives .value val value) :
    ∃ next entries', HncJson.commit file
        (HncJson.setTopInner target val file) = some next ∧
      ObjectFile next (HncJson.topSet o (o.keyOf target) val) entries' := by
  obtain ⟨before, after, text, beforeBlank, afterBlank⟩ := object.slurp
  rw [HncJson.setTopInner_shaped object.shaped beforeBlank text]
  apply object.commit beforeBlank afterBlank
  · rw [HncJson.hollow_topSet]
    exact object.hollow
  · exact object.each_topSet (object.chars_keyOf printable) derives

theorem commit_delObjectKeyInner (object : ObjectFile file o entries)
    {target : Text} {rest : List (Text × Json)}
    (means : List.Forall₂ Member.Means
      (o.remove (o.keyOf target)).members rest)
    (hollow : blank (o.remove (o.keyOf target)).hollow = true) :
    ∃ gone, HncJson.commit file (HncJson.delObjectKeyInner target file) =
        some gone ∧ Denotes gone (.object rest) := by
  obtain ⟨before, after, text, beforeBlank, afterBlank⟩ := object.chomp_slurp
  rw [HncJson.delObjectKeyInner_shaped object.shaped beforeBlank text target]
  obtain ⟨gone, _, committed, laid⟩ := object.commit beforeBlank afterBlank
    hollow fun m member =>
      (exists_meaning means member).imp fun _ both => both.2
  exact ⟨gone, committed, ObjectFile.denotes ⟨laid.text, means, hollow⟩⟩

section First

variable {target name : Text} {value : Json} {left right : List (Text × Json)}

theorem exists_first
    (object : ObjectFile file o (left ++ (name, value) :: right))
    (others : ∀ entry ∈ left, entry.1 ≠ name) :
    ∃ before m after, o.members = before ++ m :: after ∧
      List.Forall₂ Member.Means before left ∧ m.Means (name, value) ∧
      List.Forall₂ Member.Means after right ∧
      ∀ other ∈ before, other.key ≠ name := by
  obtain ⟨before, m, after, split, leftMeans, meant, rightMeans⟩ :=
    split_members object.means
  refine ⟨before, m, after, split, leftMeans, meant, rightMeans, ?_⟩
  intro other member
  obtain ⟨entry, listed, means⟩ := exists_meaning leftMeans member
  rw [← means.name]
  exact others entry listed

variable (object : ObjectFile file o (left ++ (name, value) :: right))
  (others : ∀ entry ∈ left, entry.1 ≠ name) (key : o.keyOf target = name)

include object others key

theorem commit_setTopInner_first {val : Text}
    (printable : isPrintable target = true) {new : Json}
    (derives : Derives .value val new) :
    ∃ next, HncJson.commit file (HncJson.setTopInner target val file) =
        some next ∧ Denotes next (.object (left ++ (name, new) :: right)) := by
  obtain ⟨before, m, after, split, leftMeans, meant, rightMeans, apart⟩ :=
    object.exists_first others
  have hit : findMember name o.members = some (m, after) := by
    rw [split]
    exact findMember_split apart meant.name.symm after
  have result : (HncJson.topSet o name val).members =
      before ++ { m with val := val, trail := [] } :: after := by
    simp only [HncJson.topSet, hit, Obj.modify]
    rw [split, replaceFirst_split apart meant.name.symm]
  have spaced := meant.spaced
  have changed : Member.Means { m with val := val, trail := [] } (name, new) :=
    ⟨⟨spaced.lead, spaced.gap, spaced.pad, rfl⟩, meant.key, meant.name,
      derives⟩
  obtain ⟨next, _, committed, written⟩ :=
    object.commit_setTopInner printable derives
  rw [key] at written
  have all : List.Forall₂ Member.Means (HncJson.topSet o name val).members
      (left ++ (name, new) :: right) := by
    rw [result]
    exact List.rel_append leftMeans (.cons changed rightMeans)
  exact ⟨next, committed,
    ObjectFile.denotes ⟨written.text, all, written.hollow⟩⟩

theorem commit_delObjectKeyInner_first :
    ∃ gone, HncJson.commit file (HncJson.delObjectKeyInner target file) =
        some gone ∧ Denotes gone (.object (left ++ right)) := by
  obtain ⟨before, m, after, split, leftMeans, meant, rightMeans, apart⟩ :=
    object.exists_first others
  have removed : o.remove name = cut before m after o.hollow := by
    rw [Obj.remove, split, findMember_split apart meant.name.symm]
    simp
  apply object.commit_delObjectKeyInner
  · rw [key, removed]
    exact means_cut meant.spaced leftMeans rightMeans
  · rw [key, removed]
    exact hollow_cut meant.spaced object.hollow

end First

theorem means_append {o : Obj} {entries : List (Text × Json)}
    (space : blank o.hollow = true)
    (means : List.Forall₂ Member.Means o.members entries) {key val : Text}
    (chars : Chars key) {value : Json} (derives : Derives .value val value) :
    List.Forall₂ Member.Means (o.append key val).members
      (entries ++ [(key, value)]) := by
  have new : ∀ lead, blank lead = true →
      (JsonText.written lead key val).Means (key, value) :=
    fun lead space => ⟨⟨space, rfl, rfl, rfl⟩, chars, rfl, derives⟩
  obtain ⟨members, hollow⟩ := o
  cases members with
  | nil =>
      cases means
      exact .cons (new _ (blank_append.mpr ⟨space, rfl⟩)) .nil
  | cons m rest => exact List.rel_append means (.cons (new _ rfl) .nil)

section Absent

variable {target : Text} (object : ObjectFile file o entries)
  (absent : findMember (o.keyOf target) o.members = none)

include object absent

/-- A name that is not there is set behind the others. -/
theorem commit_setTopInner_absent {val : Text}
    (printable : isPrintable target = true) {new : Json}
    (derives : Derives .value val new) :
    ∃ next, HncJson.commit file (HncJson.setTopInner target val file) =
        some next ∧
      Denotes next (.object (entries ++ [(o.keyOf target, new)])) := by
  obtain ⟨next, _, committed, written⟩ :=
    object.commit_setTopInner printable derives
  have chars := object.chars_keyOf printable
  have result : HncJson.topSet o (o.keyOf target) val =
      o.append (o.keyOf target) val := by
    rw [HncJson.topSet, absent]
  have appended := means_append object.hollow object.means chars derives
  rw [← result] at appended
  exact ⟨next, committed,
    ObjectFile.denotes ⟨written.text, appended, written.hollow⟩⟩

theorem commit_delObjectKeyInner_absent :
    ∃ gone, HncJson.commit file (HncJson.delObjectKeyInner target file) =
        some gone ∧ Denotes gone (.object entries) := by
  have same : o.remove (o.keyOf target) = o := by
    rw [Obj.remove, absent]
  apply object.commit_delObjectKeyInner
  · rw [same]
    exact object.means
  · rw [same]
    exact object.hollow

end Absent

theorem getTop_topSet {target val : Text}
    (object : ObjectFile file (HncJson.topSet o (o.keyOf target) val) entries)
    (name : assign target = target) :
    HncJson.getTop file target = .ok (val ++ ['\n']) := by
  rw [object.getTop name, HncJson.keyOf_topSet]
  apply HncJson.topAnswer_of_get
  rw [HncJson.get_topSet, if_pos rfl]

end ObjectFile

end Hnc
