import Hnc.Json.StringArrays
import Hnc.Json.HncJsonCArrays

/-!
# The C helper and the shell write the same files

`hnc_json` lets the helper write where it can.  What the helper leaves then
means the same as what the awk programs leave, as long as the quoted texts that
it searches for are found where the shell finds the member and the element.
-/

namespace Hnc

open Posix JsonText

namespace HncJsonC

/-- The write commands that the helper takes over. -/
inductive Write where
  | set (key v : Text)
  | del (key : Text)
  | add (key v : Text)
  | remove (key v : Text)

/-- Its key and its value have no escapes. -/
def Write.EscapeFree : Write → Prop
  | set key v | add key v | remove key v =>
      escapeFree key = true ∧ escapeFree v = true
  | del key => escapeFree key = true

/-- The C helper. -/
def fast (file : Text) : Write → Option Text
  | .set key v => setObjectKey file key v .str
  | .del key => delObjectKey file key
  | .add key v => arrayAdd file key v
  | .remove key v => arrayDel file key v

/-- The shell. -/
def slow (file : Text) : Write → Option Text
  | .set key v => HncJson.setTop file key v .str
  | .del key => HncJson.delObjectKey file key
  | .add key v => HncJson.arrayAddUnique file key v
  | .remove key v => HncJson.arrayDelValue file key v

/-- Two texts that stand for one value up to the order of members. -/
def SameValue (left right : Text) : Prop :=
  ∃ leftTree rightTree, Denotes left leftTree ∧ Denotes right rightTree ∧
    leftTree.Alike rightTree

/-- Where the helper succeeds, its file has the value of the one that the shell
leaves; a command of the shell that fails leaves the file as it was. -/
def HelperAgrees (file : Text) (write : Write) : Prop :=
  ∀ out, fast file write = some out →
    SameValue out ((slow file write).getD file)

/-- No member has the name, and no colon stands behind the quoted key. -/
structure Absent (file key : Text) (entries : List (Text × Json)) : Prop where
  fresh : key ∉ entries.map Prod.fst
  unnamed : Unnamed file key

/-- Where the shell commands for arrays fail. -/
def Refused (key v : Text) (value : Json) : Prop :=
  key = [] ∨ v = [] ∨ ∀ elements, value ≠ .array elements

/-- The quoted value stands somewhere behind the name. -/
def Hit (v val behind : Text) : Prop :=
  (strstr (val ++ behind) (quote v)).isSome = true

/-- No quoted value begins in the text of the member's value. -/
def NoHit (v val behind : Text) : Prop :=
  ∀ x, strstr (val ++ behind) (quote v) = some x → x.length ≤ behind.length

/-- The member is found, and its value is an array of plain strings. -/
structure ListAt (file key : Text) (left : List (Text × Json))
    (items : List Text) (right : List (Text × Json))
    (before val behind : Text) : Prop where
  named : NamedAt file key left (.array (items.map .string)) right before val
    behind
  plain : ∀ item ∈ items, PlainName item

/-- The first quoted value is the element between `front` and `back`. -/
structure FirstHit (v : Text) (front back : List Text) (val behind : Text) :
    Prop where
  once : v ∉ front ++ back
  first : ∃ early late, val = early ++ (quote v ++ late) ∧
    ElementAt (front.map .string) (.string v) (back.map .string) early
      (quote v) late ∧
    strstr (val ++ behind) (quote v) = some (quote v ++ (late ++ behind))

/-- What the helper searches for is the member and the element, or is not
there where there is nothing to do. -/
inductive Aimed (file : Text) : List (Text × Json) → Write → Prop
  | set {entries : List (Text × Json)} {key v : Text} : key ≠ [] →
      NameFirst file key entries ∨ Absent file key entries →
      Aimed file entries (.set key v)
  | del {entries : List (Text × Json)} {key : Text} :
      key ≠ [] ∧ NameFirst file key entries ∨ Absent file key entries →
      Aimed file entries (.del key)
  | addAbsent {entries : List (Text × Json)} {key v : Text} : key ≠ [] →
      v ≠ [] → Absent file key entries → Aimed file entries (.add key v)
  | add {left right : List (Text × Json)} {items : List Text}
      {key v before val behind : Text} : key ≠ [] → v ≠ [] →
      ListAt file key left items right before val behind →
      (Hit v val behind → v ∈ items) →
      Aimed file (left ++ (key, .array (items.map .string)) :: right)
        (.add key v)
  | addRefused {left right : List (Text × Json)} {value : Json}
      {key v before val behind : Text} : Refused key v value →
      NamedAt file key left value right before val behind →
      Hit v val behind →
      Aimed file (left ++ (key, value) :: right) (.add key v)
  | addFails {left right : List (Text × Json)} {value : Json}
      {key v before val behind : Text} :
      NamedAt file key left value right before val behind →
      ¬ Hit v val behind → ']' ∉ val ∨ ']' ∈ behind →
      Aimed file (left ++ (key, value) :: right) (.add key v)
  | remove {left right : List (Text × Json)} {front back : List Text}
      {key v before val behind : Text} : key ≠ [] → v ≠ [] →
      ListAt file key left (front ++ v :: back) right before val behind →
      FirstHit v front back val behind →
      Aimed file
        (left ++ (key, .array ((front ++ v :: back).map .string)) :: right)
        (.remove key v)
  | removeNone {left right : List (Text × Json)} {items : List Text}
      {key v before val behind : Text} : key ≠ [] → v ≠ [] →
      ListAt file key left items right before val behind → v ∉ items →
      NoHit v val behind →
      Aimed file (left ++ (key, .array (items.map .string)) :: right)
        (.remove key v)
  | removeRefused {left right : List (Text × Json)} {value : Json}
      {key v before val behind : Text} : Refused key v value →
      NamedAt file key left value right before val behind →
      NoHit v val behind →
      Aimed file (left ++ (key, value) :: right) (.remove key v)
  | removeAbsent {entries : List (Text × Json)} {key v : Text} :
      key = [] ∨ v = [] → Absent file key entries →
      Aimed file entries (.remove key v)

theorem setTop_str {key v : Text} (nonempty : key ≠ [])
    (free : escapeFree key = true) (plain : escapeFree v = true) (file : Text) :
    HncJson.setTop file key v .str =
      HncJson.commit file (HncJson.setTopInner key (quote v) file) := by
  rw [HncJson.setTop, if_neg nonempty, assign_of_escapeFree free]
  simp only [HncJson.jsonLiteral, HncJson.quoteString_of_escapeFree plain,
    reduceCtorEq, if_false, assign_doubleBackslash]

/-- What is no array is not printed as one. -/
theorem head_ne_of_noArray {val : Text} {value : Json}
    (derives : Derives .value val value)
    (noArray : ∀ elements, value ≠ .array elements) : val.head? ≠ some '[' := by
  cases derives with
  | number number =>
      obtain ⟨c, rest, rfl, first⟩ := number.head
      intro opens
      cases opens
      rcases first with bracket | digit
      · cases bracket
      · exact absurd digit (by decide)
  | noElements _ | array _ => exact absurd rfl (noArray _)
  | _ =>
      simp [quote]

section Shell

variable {file key : Text} {entries : List (Text × Json)}
  (denotes : Denotes file (.object entries))
  (distinct : (entries.map Prod.fst).Nodup)
  (plain : ∀ name ∈ entries.map Prod.fst, '\\' ∉ name)
  (free : escapeFree key = true)

include denotes distinct plain free

theorem exists_keyed : ∃ o, ObjectFile file o entries ∧ o.keyOf key = key := by
  obtain ⟨o, object⟩ := exists_objectFile denotes
  have flat := flat_object distinct plain object
  exact ⟨o, object, flat.wf.keyOf (plainKey_of_escapeFree free)⟩

section Fresh

variable (fresh : key ∉ entries.map Prod.fst)

include fresh

theorem exists_fresh : ∃ o, ObjectFile file o entries ∧ o.keyOf key = key ∧
    findMember (o.keyOf key) o.members = none := by
  obtain ⟨o, object, keyed⟩ := exists_keyed denotes distinct plain free
  refine ⟨o, object, keyed, ?_⟩
  rw [keyed, findMember_eq_none]
  intro m member same
  apply fresh
  rw [map_name_of_means object.means, ← same]
  exact List.mem_map_of_mem member

theorem shell_set_fresh {lit : Text} {new : Json}
    (derives : Derives .value lit new) :
    ∃ next, HncJson.commit file (HncJson.setTopInner key lit file) =
        some next ∧ Denotes next (.object (entries ++ [(key, new)])) := by
  obtain ⟨o, object, keyed, absent⟩ :=
    exists_fresh denotes distinct plain free fresh
  have set := object.commit_setTopInner_absent absent
    (isPrintable_of_escapeFree free) derives
  rw [keyed] at set
  exact set

theorem shell_del_fresh (nonempty : key ≠ []) :
    ∃ gone, HncJson.delObjectKey file key = some gone ∧
      Denotes gone (.object entries) := by
  obtain ⟨o, object, _, absent⟩ :=
    exists_fresh denotes distinct plain free fresh
  rw [HncJson.delObjectKey, if_neg nonempty, assign_of_escapeFree free]
  exact object.commit_delObjectKeyInner_absent absent

theorem shell_add_fresh (nonempty : key ≠ []) {v : Text} (word : PlainName v) :
    ∃ next, HncJson.arrayAddUnique file key v = some next ∧
      Denotes next (.object (entries ++ [(key, .array [.string v])])) := by
  have one : ∀ item ∈ [v], PlainName item := by simpa using word
  obtain ⟨next, set, result⟩ := shell_set_fresh denotes distinct plain free
    fresh (HncJson.derives_renderArray one)
  refine ⟨next, ?_, result⟩
  have empty : HncJson.currentArray file key = some ['[', ']'] := by
    rw [HncJson.currentArray, awk_absent distinct plain free denotes fresh]
  have none : HncJson.readItems ['[', ']'] = [] := by decide
  have words : ¬ (key = [] ∨ v = []) := not_or.mpr ⟨nonempty, word.nonempty⟩
  rw [HncJson.arrayAddUnique, if_neg words, empty]
  simp only [none, List.not_mem_nil, if_false, List.nil_append]
  rw [HncJson.setTop_renderArray one nonempty, assign_of_escapeFree free]
  exact set

end Fresh

end Shell

section ShellNamed

variable {file key : Text} {left right : List (Text × Json)} {value : Json}
  {before val behind : Text}
  (named : NamedAt file key left value right before val behind)
  (distinct : ((left ++ (key, value) :: right).map Prod.fst).Nodup)
  (plain : ∀ name ∈ (left ++ (key, value) :: right).map Prod.fst, '\\' ∉ name)
  (free : escapeFree key = true)

omit named plain free in
include distinct in
theorem ne_of_nodup : ∀ entry ∈ left, entry.1 ≠ key := by
  intro entry member
  rw [List.map_append] at distinct
  have apart := (List.nodup_append.mp distinct).2.2
  exact apart _ (List.mem_map_of_mem member) _ List.mem_cons_self

include named distinct plain free

theorem shell_set_named {lit : Text} {new : Json}
    (derives : Derives .value lit new) :
    ∃ next, HncJson.commit file (HncJson.setTopInner key lit file) =
        some next ∧ Denotes next (.object (left ++ (key, new) :: right)) := by
  obtain ⟨o, object, keyed⟩ := exists_keyed named.denotes distinct plain free
  exact object.commit_setTopInner_first (ne_of_nodup distinct) keyed
    (isPrintable_of_escapeFree free) derives

theorem shell_del_named (nonempty : key ≠ []) :
    ∃ gone, HncJson.delObjectKey file key = some gone ∧
      Denotes gone (.object (left ++ right)) := by
  obtain ⟨o, object, keyed⟩ := exists_keyed named.denotes distinct plain free
  rw [HncJson.delObjectKey, if_neg nonempty, assign_of_escapeFree free]
  exact object.commit_delObjectKeyInner_first (ne_of_nodup distinct) keyed

theorem shell_get_named : HncJson.getTop file key = .ok (val ++ ['\n']) := by
  rw [named.text]
  exact awk_place distinct plain free rfl named.place

theorem shell_refuses {v : Text} (refused : Refused key v value) :
    HncJson.arrayAddUnique file key v = none ∧
      HncJson.arrayDelValue file key v = none := by
  have words : (key = [] ∨ v = []) → HncJson.arrayAddUnique file key v = none ∧
      HncJson.arrayDelValue file key v = none :=
    fun empty => ⟨if_pos empty, if_pos empty⟩
  by_cases empty : key = [] ∨ v = []
  · exact words empty
  · have noArray : ∀ elements, value ≠ .array elements := by
      rcases refused with nokey | novalue | noArray
      · exact absurd (.inl nokey) empty
      · exact absurd (.inr novalue) empty
      · exact noArray
    have derives := named.place.derives
    have nonempty : val ≠ [] := by
      obtain ⟨c, rest, split, _⟩ := derives.val.head
      rw [split]
      exact List.cons_ne_nil c rest
    have current : HncJson.currentArray file key = none := by
      rw [HncJson.currentArray,
        shell_get_named named distinct plain free]
      simp only [JsonSet.captured_line derives.val, if_neg nonempty]
      exact if_neg fun bracketed => head_ne_of_noArray derives noArray bracketed.1
    rw [HncJson.arrayAddUnique, HncJson.arrayDelValue, current, if_neg empty]
    exact ⟨rfl, rfl⟩

end ShellNamed

section ShellList

variable {file key : Text} {left right : List (Text × Json)}
  {items : List Text} {before val behind v : Text}
  (list : ListAt file key left items right before val behind)
  (distinct : ((left ++ (key, .array (items.map .string)) :: right).map
    Prod.fst).Nodup)
  (plain : ∀ name ∈ (left ++ (key, .array (items.map .string)) :: right).map
    Prod.fst, '\\' ∉ name)
  (free : escapeFree key = true) (nonempty : key ≠ []) (word : PlainName v)

include list distinct plain free nonempty

theorem shell_write_array {new : List Text}
    (plains : ∀ item ∈ new, PlainName item) :
    ∃ next, HncJson.setTop file key (HncJson.renderArray new) .json =
        some next ∧ Denotes next
      (.object (left ++ (key, .array (new.map .string)) :: right)) := by
  rw [HncJson.setTop_renderArray plains nonempty, assign_of_escapeFree free]
  exact shell_set_named list.named distinct plain free
    (HncJson.derives_renderArray plains)

include word

theorem shell_add_list : ∃ next, HncJson.arrayAddUnique file key v = some next ∧
    Denotes next (.object (left ++ (key, .array
      ((if v ∈ items then items else items ++ [v]).map .string)) :: right)) := by
  have words : ¬ (key = [] ∨ v = []) := not_or.mpr ⟨nonempty, word.nonempty⟩
  have plains : ∀ item ∈ (if v ∈ items then items else items ++ [v]),
      PlainName item := by
    intro item member
    split at member
    · exact list.plain item member
    · rcases List.mem_append.mp member with old | new
      · exact list.plain item old
      · rw [List.mem_singleton.mp new]
        exact word
  have derives := list.named.place.derives
  rw [HncJson.arrayAddUnique, if_neg words, HncJson.currentArray_array
    (shell_get_named list.named distinct plain free) derives list.plain]
  simp only [HncJson.readItems_of_derives derives list.plain]
  exact shell_write_array list distinct plain free nonempty plains

theorem shell_remove_list : ∃ next,
    HncJson.arrayDelValue file key v = some next ∧ Denotes next (.object
      (left ++ (key, .array ((items.filter (· ≠ v)).map .string)) ::
        right)) := by
  have words : ¬ (key = [] ∨ v = []) := not_or.mpr ⟨nonempty, word.nonempty⟩
  have derives := list.named.place.derives
  rw [HncJson.arrayDelValue, if_neg words, HncJson.currentArray_array
    (shell_get_named list.named distinct plain free) derives list.plain]
  simp only [HncJson.readItems_of_derives derives list.plain]
  exact shell_write_array list distinct plain free nonempty
    fun item member => list.plain item (List.mem_filter.mp member).1

end ShellList

/-! ### Agreement -/

variable {write : Write} {tree : Json}

theorem agrees_of_alike {file : Text} {other : Json}
    (helper : ∀ out, fast file write = some out → Denotes out tree)
    (shell : ∃ next, slow file write = some next ∧ Denotes next other)
    (alike : tree.Alike other) : HelperAgrees file write := by
  obtain ⟨next, done, denotes⟩ := shell
  intro out ran
  rw [done]
  exact ⟨tree, other, helper out ran, denotes, alike⟩

theorem agrees_of_denotes {file : Text}
    (helper : ∃ out, fast file write = some out ∧ Denotes out tree)
    (shell : ∃ next, slow file write = some next ∧ Denotes next tree) :
    HelperAgrees file write := by
  obtain ⟨out, done, denotes⟩ := helper
  apply agrees_of_alike ?_ shell (.refl tree)
  intro other ran
  rw [done] at ran
  exact Option.some.inj ran ▸ denotes

theorem agrees_of_refused {file : Text} (denotes : Denotes file tree)
    (helper : fast file write = some file) (shell : slow file write = none) :
    HelperAgrees file write := by
  intro out ran
  rw [helper] at ran
  rw [shell, ← Option.some.inj ran]
  exact ⟨tree, tree, denotes, denotes, .refl tree⟩

theorem filter_ne_of_not_mem {items : List Text} {v : Text} (fresh : v ∉ items) :
    items.filter (· ≠ v) = items := by
  apply List.filter_eq_self.mpr
  intro item member
  simpa using fun same : item = v => fresh (same ▸ member)

section Absent

variable {file key : Text} {entries : List (Text × Json)}
  (denotes : Denotes file (.object entries))
  (distinct : (entries.map Prod.fst).Nodup)
  (plain : ∀ name ∈ entries.map Prod.fst, '\\' ∉ name)
  (free : escapeFree key = true) (absent : Absent file key entries)

include denotes distinct plain free absent

variable {v : Text}

theorem set_absent_agrees (nonempty : key ≠ []) (word : escapeFree v = true) :
    HelperAgrees file (.set key v) := by
  have derives : Derives .value (quote v) (.string v) :=
    .string (chars_of_escapeFree word)
  have spelled : literal v .str = some (quote v) :=
    congrArg some (escstr_of_escapeFree word)
  obtain ⟨out, set, result⟩ := setObjectKey_absent denotes free absent.unnamed
    spelled derives
  refine agrees_of_alike ?_ ?_
    (.perm (List.perm_append_singleton (key, .string v) entries).symm)
  · intro other ran
    rw [fast, set] at ran
    exact Option.some.inj ran ▸ result
  · rw [slow, setTop_str nonempty free word]
    exact shell_set_fresh denotes distinct plain free absent.fresh derives

theorem del_absent_agrees : HelperAgrees file (.del key) := by
  have idle : fast file (.del key) = some file :=
    delObjectKey_absent denotes free absent.unnamed
  by_cases nonempty : key = []
  · exact agrees_of_refused denotes idle (if_pos nonempty)
  · exact agrees_of_denotes ⟨file, idle, denotes⟩
      (shell_del_fresh denotes distinct plain free absent.fresh nonempty)

theorem add_absent_agrees (nonempty : key ≠ []) (word : PlainName v) :
    HelperAgrees file (.add key v) := by
  obtain ⟨out, added, result⟩ := arrayAdd_absent denotes free absent.unnamed
    word.free
  refine agrees_of_alike ?_
    (shell_add_fresh denotes distinct plain free absent.fresh nonempty word)
    (.perm (List.perm_append_singleton _ entries).symm)
  intro other ran
  rw [fast, added] at ran
  exact Option.some.inj ran ▸ result

omit distinct plain in
theorem remove_absent_agrees (empty : key = [] ∨ v = []) :
    HelperAgrees file (.remove key v) :=
  agrees_of_refused denotes (arrayDel_absent denotes free absent.unnamed)
    (if_pos empty)

end Absent

section Named

variable {file key v : Text} {left right : List (Text × Json)} {value : Json}
  {before val behind : Text}
  (named : NamedAt file key left value right before val behind)
  (distinct : ((left ++ (key, value) :: right).map Prod.fst).Nodup)
  (plain : ∀ name ∈ (left ++ (key, value) :: right).map Prod.fst, '\\' ∉ name)
  (free : escapeFree key = true)

include named distinct plain free

theorem set_named_agrees (nonempty : key ≠ []) (word : escapeFree v = true) :
    HelperAgrees file (.set key v) := by
  have derives : Derives .value (quote v) (.string v) :=
    .string (chars_of_escapeFree word)
  have spelled : literal v .str = some (quote v) :=
    congrArg some (escstr_of_escapeFree word)
  refine agrees_of_denotes (setObjectKey_named named free spelled derives) ?_
  rw [slow, setTop_str nonempty free word]
  exact shell_set_named named distinct plain free derives

theorem del_named_agrees (nonempty : key ≠ []) :
    HelperAgrees file (.del key) :=
  agrees_of_denotes (delObjectKey_named named free)
    (shell_del_named named distinct plain free nonempty)

theorem add_refused_agrees (refused : Refused key v value)
    (word : escapeFree v = true) (hit : Hit v val behind) :
    HelperAgrees file (.add key v) :=
  agrees_of_refused named.denotes (arrayAdd_present named free word hit)
    (shell_refuses named distinct plain free refused).1

omit distinct plain in
theorem add_fails_agrees (word : escapeFree v = true)
    (miss : ¬ Hit v val behind) (bracket : ']' ∉ val ∨ ']' ∈ behind) :
    HelperAgrees file (.add key v) := by
  have search : strstr (val ++ behind) (quote v) = none := by
    rw [Hit, Bool.not_eq_true, Option.isSome_eq_false_iff] at miss
    exact Option.isNone_iff_eq_none.mp miss
  have fails : fast file (.add key v) = none := by
    by_cases beyond : ']' ∈ behind
    · exact arrayAdd_beyond named free word search beyond
    · have outside := bracket.resolve_right beyond
      apply arrayAdd_noBracket named free word search
      rw [List.mem_append, not_or]
      exact ⟨outside, beyond⟩
  intro out ran
  rw [fails] at ran
  cases ran

theorem remove_refused_agrees (refused : Refused key v value)
    (word : escapeFree v = true) (noHit : NoHit v val behind) :
    HelperAgrees file (.remove key v) :=
  agrees_of_refused named.denotes (arrayDel_none named free word noHit)
    (shell_refuses named distinct plain free refused).2

end Named

section List

variable {file key v : Text} {left right : List (Text × Json)}
  {items : List Text} {before val behind : Text}
  (list : ListAt file key left items right before val behind)
  (distinct : ((left ++ (key, .array (items.map .string)) :: right).map
    Prod.fst).Nodup)
  (plain : ∀ name ∈ (left ++ (key, .array (items.map .string)) :: right).map
    Prod.fst, '\\' ∉ name)
  (free : escapeFree key = true) (nonempty : key ≠ []) (word : PlainName v)

include list distinct plain free nonempty word

theorem add_list_agrees (hit : Hit v val behind → v ∈ items) :
    HelperAgrees file (.add key v) := by
  have shell := shell_add_list list distinct plain free nonempty word
  cases search : strstr (val ++ behind) (quote v) with
  | some x =>
      have found : Hit v val behind := by rw [Hit, search]; rfl
      rw [if_pos (hit found)] at shell
      exact agrees_of_denotes ⟨file,
        arrayAdd_present list.named free word.free found, list.named.denotes⟩
        shell
  | none =>
      have missing : v ∉ items := by
        intro member
        obtain ⟨early, text, late, split, derives⟩ :=
          list.named.place.derives.mem_array (List.mem_map_of_mem member)
        cases derives
        have found := strstr_isSome early (quote v) (late ++ behind)
          (List.cons_ne_nil _ _)
        rw [split, List.append_assoc, List.append_assoc] at search
        rw [search] at found
        cases found
      rw [if_neg missing, List.map_append] at shell
      refine agrees_of_alike ?_ shell (.refl _)
      intro out ran
      exact arrayAdd_new list.named free word.free search rfl ran

theorem remove_none_agrees (fresh : v ∉ items) (noHit : NoHit v val behind) :
    HelperAgrees file (.remove key v) := by
  have shell := shell_remove_list list distinct plain free nonempty word
  rw [filter_ne_of_not_mem fresh] at shell
  exact agrees_of_denotes ⟨file, arrayDel_none list.named free word.free noHit,
    list.named.denotes⟩ shell

end List

theorem remove_element_agrees {file key v : Text}
    {left right : List (Text × Json)} {front back : List Text}
    {before val behind : Text}
    (list : ListAt file key left (front ++ v :: back) right before val behind)
    (distinct : ((left ++ (key, .array ((front ++ v :: back).map .string)) ::
      right).map Prod.fst).Nodup)
    (plain : ∀ name ∈ (left ++ (key, .array ((front ++ v :: back).map
      .string)) :: right).map Prod.fst, '\\' ∉ name)
    (free : escapeFree key = true) (nonempty : key ≠ []) (word : PlainName v)
    (hit : FirstHit v front back val behind) :
    HelperAgrees file (.remove key v) := by
  have shell := shell_remove_list list distinct plain free nonempty word
  have others : (front ++ v :: back).filter (· ≠ v) = front ++ back := by
    rw [← filter_ne_of_not_mem hit.once]
    simp
  rw [others, List.map_append] at shell
  obtain ⟨early, late, text, place, first⟩ := hit.first
  exact agrees_of_denotes
    (arrayDel_element list.named free word.free place text first) shell

/-- The helper and the shell leave files with the same value where the helper
finds what it is after. -/
theorem helper_agrees {file : Text} {entries : List (Text × Json)}
    (denotes : Denotes file (.object entries))
    (distinct : (entries.map Prod.fst).Nodup)
    (plain : ∀ name ∈ entries.map Prod.fst, '\\' ∉ name) {write : Write}
    (words : write.EscapeFree) (aimed : Aimed file entries write) :
    HelperAgrees file write := by
  cases aimed with
  | set nonempty aim =>
      rcases aim with first | absent
      · obtain ⟨left, value, right, before, val, behind, rfl, named⟩ :=
          first.namedAt
        exact set_named_agrees named distinct plain words.1 nonempty words.2
      · exact set_absent_agrees denotes distinct plain words.1 absent nonempty
          words.2
  | del aim =>
      rcases aim with ⟨nonempty, first⟩ | absent
      · obtain ⟨left, value, right, before, val, behind, rfl, named⟩ :=
          first.namedAt
        exact del_named_agrees named distinct plain words nonempty
      · exact del_absent_agrees denotes distinct plain words absent
  | addAbsent nonempty filled absent =>
      exact add_absent_agrees denotes distinct plain words.1 absent nonempty
        ⟨filled, words.2⟩
  | add nonempty filled list hit =>
      exact add_list_agrees list distinct plain words.1 nonempty
        ⟨filled, words.2⟩ hit
  | addRefused refused named hit =>
      exact add_refused_agrees named distinct plain words.1 refused words.2 hit
  | addFails named miss bracket =>
      exact add_fails_agrees named words.1 words.2 miss bracket
  | remove nonempty filled list first =>
      exact remove_element_agrees list distinct plain words.1 nonempty
        ⟨filled, words.2⟩ first
  | removeNone nonempty filled list fresh noHit =>
      exact remove_none_agrees list distinct plain words.1 nonempty
        ⟨filled, words.2⟩ fresh noHit
  | removeRefused refused named noHit =>
      exact remove_refused_agrees named distinct plain words.1 refused words.2
        noHit
  | removeAbsent empty absent =>
      exact remove_absent_agrees denotes words.1 absent empty

/-- `{"k":["a","b"]}`. -/
def listFile : Text :=
  "\x7b\"k\":[\"a\",\"b\"]\x7d\n".toList

theorem element_b : ElementAt (["a".toList].map .string) (.string "b".toList)
    (([] : List Text).map .string) "[\"a\",".toList (quote "b".toList)
    [']'] := by
  have first : Element.Means ⟨[], quote "a".toList, []⟩ (.string "a".toList) :=
    ⟨rfl, rfl, .string (chars_of_escapeFree (by decide))⟩
  have second : Element.Means ⟨[], quote "b".toList, []⟩ (.string "b".toList) :=
    ⟨rfl, rfl, .string (chars_of_escapeFree (by decide))⟩
  exact .place (.cons first .nil) second .nil

theorem listAt_listFile : ListAt listFile "k".toList [] ["a".toList, "b".toList]
    [] "\x7b\"k\":".toList "[\"a\",\"b\"]".toList ['}', '\n'] := by
  have array : Derives .value "[\"a\",\"b\"]".toList
      (.array (["a".toList, "b".toList].map .string)) := element_b.derives
  have place := @MemberAt.place _ _ _ _ [] ['\n'] [] [] _ rfl rfl .nil
    (means_bare (show escapeFree "k".toList = true by decide) array) .nil
  have search : strstr listFile (quote "k".toList) =
      some (quote "k".toList ++ ([] ++ ':' :: ([] ++
        ("[\"a\",\"b\"]".toList ++ ['}', '\n'])))) := by
    decide +kernel
  refine ⟨⟨place, rfl, [ '{' ], [], [], rfl, rfl, rfl, search⟩, ?_⟩
  intro item member
  rcases List.mem_pair.mp member with rfl | rfl
  · exact ⟨by decide, by decide⟩
  · exact ⟨by decide, by decide⟩

theorem firstHit_listFile : FirstHit "b".toList ["a".toList] []
    "[\"a\",\"b\"]".toList ['}', '\n'] :=
  ⟨by decide, _, _, rfl, element_b, by decide +kernel⟩

theorem b_is_removed_alike :
    HelperAgrees listFile (.remove "k".toList "b".toList) := by
  have list := listAt_listFile
  exact helper_agrees list.named.denotes (by decide) (by simp)
    ⟨by decide, by decide⟩
    (.remove (by decide) (by decide) list firstHit_listFile)

/-- `{"a":{},"k":false}`. -/
def nestedCut : Text :=
  "\x7b\"a\":\x7b\x7d,\"k\":false\x7d\n\n".toList

/-- `{"a":{"k":true}}`. -/
def nestedLeft : Text :=
  "\x7b\"a\":\x7b\"k\":true\x7d\x7d\n".toList

theorem denotes_nestedCut : Denotes nestedCut (.object
    [("a".toList, .object []), ("k".toList, .bool false)]) := by
  have inner : Derives .value "\x7b\x7d".toList (.object []) :=
    @Derives.noMembers [] rfl
  have first := means_bare (show escapeFree "a".toList = true by decide) inner
  have second := means_bare (show escapeFree "k".toList = true by decide)
    .wordFalse
  have object := @derives_object (Obj.mk _ []) _ rfl
    (.cons first (.cons second .nil))
  exact ⟨[], _, ['\n', '\n'], by decide, rfl, object, rfl⟩

theorem denotes_nestedLeft : Denotes nestedLeft (.object
    [("a".toList, .object [("k".toList, .bool true)])]) := by
  have inner := derives_bare (show escapeFree "k".toList = true by decide)
    .wordTrue
  have first := means_bare (show escapeFree "a".toList = true by decide) inner
  have object := @derives_object (Obj.mk _ []) _ rfl (.cons first .nil)
  exact ⟨[], _, ['\n'], by decide, rfl, object, rfl⟩

theorem nested_member_is_deleted :
    ¬ ∀ (file : Text) (entries : List (Text × Json)) (write : Write),
      Denotes file (.object entries) → (entries.map Prod.fst).Nodup →
      (∀ name ∈ entries.map Prod.fst, '\\' ∉ name) → write.EscapeFree →
      HelperAgrees file write := by
  intro always
  have agrees := always nestedFile _ (.del "k".toList) denotes_nestedFile
    (by decide) (by simp) (show escapeFree "k".toList = true by decide)
  have cut : fast nestedFile (.del "k".toList) = some nestedCut := by
    decide +kernel
  have deleted : slow nestedFile (.del "k".toList) = some nestedLeft := by
    decide +kernel
  obtain ⟨left, right, leftDenotes, rightDenotes, alike⟩ := agrees _ cut
  rw [deleted] at rightDenotes
  obtain ⟨_, cutObject⟩ := exists_objectFile denotes_nestedCut
  obtain ⟨_, leftObject⟩ := exists_objectFile denotes_nestedLeft
  obtain ⟨members, isObject, cutNames⟩ :=
    cutObject.names_of_denotes leftDenotes
  obtain ⟨others, isOther, leftNames⟩ :=
    leftObject.names_of_denotes rightDenotes
  obtain ⟨others', isOther', moved⟩ := alike.names isObject
  cases isOther.symm.trans isOther'
  have sizes := moved.length_eq
  rw [← cutNames, ← leftNames] at sizes
  cases sizes

end HncJsonC

end Hnc
