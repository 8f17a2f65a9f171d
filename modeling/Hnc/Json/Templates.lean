import Hnc.Json.Settings
import Hnc.Lib.JsonPlace

/-!
# The templates of `bin/json_set.sh`

`tpl_set` and `tpl_del` pass the name of a template through `awk -v`, which drops
backslashes, and compare it with the keys of the file after the backslashes of
their escapes were dropped.  A template stands under its own name if both leave
the names as they are.
-/

namespace JsonText

open Posix

/-! ### Names that are read as they are meant -/

theorem readName_append {left : Text} (plain : ∀ c ∈ left, c ≠ '\\')
    (rest : Text) :
    readName false (left ++ rest) = left ++ readName false rest := by
  induction left with
  | nil => rfl
  | cons c left induction =>
      rw [List.cons_append, readName, if_neg (plain c (by simp)),
        induction fun d member => plain d (by simp [member])]
      rfl

theorem unescapes_escapeName (name : Text) :
    Unescapes (escapeName name) name := by
  induction name with
  | nil => exact .nil
  | cons c name induction =>
      rw [escapeName_cons]
      split
      · rename_i slash
        rw [slash]
        exact .letter (by decide) induction
      · split
        · rename_i isQuote
          rw [isQuote]
          exact .letter (by decide) induction
        · rename_i slash _
          exact .plain slash induction

/-- A key without control characters is read as what it stands for, or as
something longer. -/
theorem Unescapes.name_eq_or_longer {key name : Text}
    (unescapes : Unescapes key name) (printable : Hnc.isPrintable name = true) :
    readName false key = name ∨ name.length < (readName false key).length := by
  induction unescapes with
  | nil => exact .inl rfl
  | plain slash _ induction =>
      rcases induction (Hnc.isPrintable_cons.mp printable).2 with same | longer
      · left
        simp [readName, slash, same]
      · right
        simpa [readName, slash] using longer
  | @letter e c rest out listed _ induction =>
      obtain ⟨visible, others⟩ := Hnc.isPrintable_cons.mp printable
      have itself : letterEscapes.all (fun pair =>
          pair.1 == pair.2 || isControl pair.2) = true := by
        decide
      have same : e = c := by
        simpa [visible] using List.all_eq_true.mp itself _ listed
      rcases induction others with name | longer
      · left
        simp [readName, same, name]
      · right
        simpa [readName] using longer
  | @unicode digits rest out four hex _ _ induction =>
      have tail := readName_append
        (fun c member => Hnc.JsonSet.ne_backslash_of_hex (hex c member)) rest
      have enough : out.length ≤ (readName false rest).length := by
        rcases induction (Hnc.isPrintable_cons.mp printable).2 with same | longer
        · exact le_of_eq (congrArg List.length same.symm)
        · exact le_of_lt longer
      right
      simp [readName, tail]
      omega
  | @surrogates high low rest out fourHigh fourLow hex _ _ _ _ _ induction =>
      have tailHigh := readName_append fun c member =>
        Hnc.JsonSet.ne_backslash_of_hex (hex c (List.mem_append_left _ member))
      have tailLow := readName_append fun c member =>
        Hnc.JsonSet.ne_backslash_of_hex (hex c (List.mem_append_right _ member))
      have enough : out.length ≤ (readName false rest).length := by
        rcases induction (Hnc.isPrintable_cons.mp printable).2 with same | longer
        · exact le_of_eq (congrArg List.length same.symm)
        · exact le_of_lt longer
      right
      simp [readName, tailHigh, tailLow]
      omega

end JsonText

namespace Hnc

open Posix JsonText

/-- The arguments of `tpl_set` behind the name; an empty one counts as 0. -/
structure Template where
  down : Text
  up : Text
  delay : Text
  jitter : Text
  loss : Text

namespace Template

/-- `${3:-0}`. -/
def orZero (v : Text) : Text :=
  if v = [] then ['0'] else v

def values (t : Template) : List Text :=
  [orZero t.down, orZero t.up, orZero t.delay, orZero t.jitter, orZero t.loss]

/-- What `''|*[!0-9.]*|.*|*..*` lets through. -/
def isNumber (v : Text) : Bool :=
  v != [] && v.all (fun c => isDigit c || c == '.') && v.head? != some '.' &&
    (tailFrom ['.', '.'] v).isNone

/-- `ENTRY_OBJ`. -/
def entryObj (t : Template) : Text :=
  '\x7b' :: "\"down_mbps\":".toList ++ orZero t.down ++
    ",\"up_mbps\":".toList ++ orZero t.up ++
    ",\"delay_ms\":".toList ++ orZero t.delay ++
    ",\"jitter_ms\":".toList ++ orZero t.jitter ++
    ",\"loss_pct\":".toList ++ orZero t.loss ++ ['\x7d']

end Template

namespace JsonSet

/-- `json_set.sh tpl_set <name> <numbers>`. -/
def tplSet (file name : Text) (t : Template) : Option Text :=
  if name = [] then none
  else if t.values.all Template.isNumber then
    match HncJson.setTop file name t.entryObj .json with
    | some next => some next
    | none =>
        guardedCommit (SafeWriter.objectSet (firstLine (escapeInner name))
          (firstLine t.entryObj) file)
  else none

/-- `json_set.sh tpl_del <name>`. -/
def tplDel (file name : Text) : Option Text :=
  if name = [] then some file
  else match HncJson.delObjectKey file name with
    | some next => some next
    | none =>
        guardedCommit (SafeWriter.objectDel (firstLine (escapeInner name)) file)

/-- The template is a member under its own name, and `tpl_del` takes exactly this
member away. -/
def StoredAsNamed (next name : Text) (t : Template) : Prop :=
  ∃ before key value after,
    Denotes next (.object (before ++ (key, value) :: after)) ∧
      Unescapes key name ∧ Derives .value t.entryObj value ∧
      ∃ gone, tplDel next name = some gone ∧
        Denotes gone (.object (before ++ after))

/-- An escape is shorter than what it is written as. -/
theorem length_assignFrom (text : Text) :
    (assignFrom .plain text).length ≤ text.length ∧
      (assignFrom .escape text).length ≤ max 1 text.length ∧
      ∀ value count, (assignFrom (.octal value count) text).length ≤
        text.length + 1 := by
  induction text with
  | nil => simp [assignFrom]
  | cons c rest induction =>
      obtain ⟨plain, escape, octal⟩ := induction
      refine ⟨?_, ?_, ?_⟩
      · rw [assignFrom]
        split
        · simp
          omega
        · simpa using plain
      · rw [assignFrom]
        split
        · rename_i digit _
          have shorter := octal digit 1
          simp
          omega
        · simp
          omega
      · intro value count
        rw [assignFrom]
        split
        · rename_i digit _
          have shorter := octal (8 * value + digit) (count + 1)
          simp
          omega
        · split
          · simp
            omega
          · simp
            omega

theorem length_assign_le (name : Text) : (assign name).length ≤ name.length :=
  (length_assignFrom name).1

/-- A name comes through if it has no backslash in front of its last
character. -/
theorem assign_eq_self_iff (name : Text) :
    assign name = name ↔ '\\' ∉ name.dropLast := by
  induction name with
  | nil => simp [assign, assignFrom]
  | cons c rest induction =>
      cases rest with
      | nil =>
          by_cases slash : c = '\\'
          · simp [assign, assignFrom, slash]
          · simp [assign, assignFrom, slash]
      | cons d rest =>
          rw [List.dropLast_cons_cons, List.mem_cons, not_or]
          by_cases slash : c = '\\'
          · have shorter := (length_assignFrom (d :: rest)).2.1
            constructor
            · intro same
              rw [assign, assignFrom, if_pos slash] at same
              have lengths := congrArg List.length same
              simp at lengths shorter
              omega
            · rintro ⟨other, _⟩
              exact absurd slash.symm other
          · rw [assign, assignFrom, if_neg slash, ← assign, List.cons.injEq,
              induction]
            simp [Ne.symm slash]

variable {v : Text}

theorem chars_of_isNumber (number : Template.isNumber v = true) :
    v ≠ [] ∧ ∀ c ∈ v, isDigit c = true ∨ c = '.' := by
  simp only [Template.isNumber, Bool.and_eq_true, bne_iff_ne] at number
  obtain ⟨⟨⟨nonempty, digits⟩, _⟩, _⟩ := number
  refine ⟨nonempty, ?_⟩
  intro c member
  simpa using List.all_eq_true.mp digits c member

theorem val_of_isNumber (number : Template.isNumber v = true) : Val v := by
  obtain ⟨nonempty, chars⟩ := chars_of_isNumber number
  apply Val.atom nonempty
  rw [List.all_eq_true]
  intro c member
  rcases chars c member with digit | dot
  · exact isAtomChar_of_isDigit digit
  · rw [dot]
    rfl

theorem plain_of_isNumber (number : Template.isNumber v = true) :
    (v.all fun c => c != '\\' && c != '\n') = true := by
  rw [List.all_eq_true]
  intro c member
  rcases (chars_of_isNumber number).2 c member with digit | dot
  · simp only [Bool.and_eq_true, bne_iff_ne]
    constructor <;> rintro rfl <;> exact absurd digit (by decide)
  · rw [dot]
    rfl

section Entries

variable {t : Template} (numbers : t.values.all Template.isNumber = true)

include numbers

theorem val_entryObj : Val t.entryObj := by
  have wf : ∀ {key v : Text}, plainKey key = true →
      Template.isNumber v = true → (bare key v).Wf :=
    fun plain number =>
      ⟨rfl, plain, rfl, rfl, val_of_isNumber number, rfl⟩
  simp only [Template.values, List.all_cons, List.all_nil, Bool.and_true,
    Bool.and_eq_true] at numbers
  obtain ⟨down, up, delay, jitter, loss⟩ := numbers
  have object : (Obj.mk [bare "down_mbps".toList (Template.orZero t.down),
      bare "up_mbps".toList (Template.orZero t.up),
      bare "delay_ms".toList (Template.orZero t.delay),
      bare "jitter_ms".toList (Template.orZero t.jitter),
      bare "loss_pct".toList (Template.orZero t.loss)] []).Wf := by
    refine ⟨?_, rfl⟩
    simp only [List.forall_mem_cons, List.not_mem_nil, false_implies,
      implies_true, and_true]
    exact ⟨wf (by decide) down, wf (by decide) up, wf (by decide) delay,
      wf (by decide) jitter, wf (by decide) loss⟩
  have val := object.shaped.val_render
  simpa [Obj.render, Obj.inner, more, Member.render, Member.fromKey,
    Member.fromValue, quote, bare, Template.entryObj] using val

theorem plain_entryObj :
    '\\' ∉ t.entryObj ∧ '\n' ∉ t.entryObj ∧ t.entryObj ≠ [] := by
  have all : (t.entryObj.all fun c => c != '\\' && c != '\n') = true := by
    simp only [Template.values, List.all_cons, List.all_nil, Bool.and_true,
      Bool.and_eq_true] at numbers
    obtain ⟨down, up, delay, jitter, loss⟩ := numbers
    simp only [Template.entryObj, List.all_append, plain_of_isNumber down,
      plain_of_isNumber up, plain_of_isNumber delay, plain_of_isNumber jitter,
      plain_of_isNumber loss]
    decide
  refine ⟨?_, ?_, by simp [Template.entryObj]⟩
  · intro slash
    exact absurd (List.all_eq_true.mp all _ slash) (by decide)
  · intro newline
    exact absurd (List.all_eq_true.mp all _ newline) (by decide)

theorem setTop_entryObj {name : Text} (nonempty : name ≠ []) (file : Text) :
    HncJson.setTop file name t.entryObj .json =
      if Guard.jsonGuard (t.entryObj ++ ['\n']) then
        HncJson.commit file
          (HncJson.setTopInner (assign name) t.entryObj file)
      else none := by
  obtain ⟨slash, oneLine, _⟩ := plain_entryObj numbers
  rw [HncJson.setTop, if_neg nonempty, HncJson.jsonLiteral]
  by_cases valid : Guard.jsonGuard (t.entryObj ++ ['\n']) = true
  · simp only [valid, if_true]
    rw [captured_of_oneLine oneLine, assign_of_no_backslash slash]
  · simp [valid]

theorem jsonGuard_entryObj_iff :
    Guard.jsonGuard (t.entryObj ++ ['\n']) = true ↔
      ∃ value, Derives .value t.entryObj value := by
  rw [Guard.jsonGuard_iff]
  constructor
  · rintro ⟨value, denotes⟩
    exact ⟨value, @derives_of_denotes [] _ ['\n'] _ (val_entryObj numbers) rfl
      rfl denotes⟩
  · rintro ⟨value, derives⟩
    exact ⟨value, [], t.entryObj, ['\n'], rfl, rfl, derives, rfl⟩

end Entries

/-! ### Setting and removing -/

variable {next : Text}

theorem objectSet_valid {file key val : Text} {o : Obj}
    {entries : List (Text × Json)} (object : ObjectFile file o entries)
    (body : Body false key) (shape : Val val)
    (set : guardedCommit (SafeWriter.objectSet key val file) = some next) :
    ∃ value, Derives .value val value := by
  by_contra broken
  obtain ⟨before, after, text, beforeBlank, afterBlank⟩ := object.chomp_slurp
  rw [SafeWriter.objectSet_obj beforeBlank object.shaped afterBlank text] at set
  have invalid := object.not_commit_setFront beforeBlank afterBlank body shape
    fun value derives => broken ⟨value, derives⟩
  have valid := guardedCommit_valid set
  rw [← Except.ok.inj (guardedCommit_some set), invalid] at valid
  cases valid

theorem body_firstLine_escapeInner (name : Text) :
    Body false (firstLine (escapeInner name)) := by
  by_cases empty : escapeInner name = []
  · rw [empty]
    exact .done
  · rw [firstLine_of_oneLine (newline_not_mem_escapeInner name) empty]
    exact body_escapeInner name

/-- The element by which a list is longer than another. -/
theorem inserted_eq {Item : Type} [DecidableEq Item]
    {left right left' right' : List Item} {x y : Item}
    (whole : left ++ x :: right = left' ++ y :: right')
    (rest : left ++ right = left' ++ right') : x = y := by
  have front : (left ++ x :: right).Perm (x :: (left ++ right)) :=
    List.perm_middle
  have back : (left' ++ y :: right').Perm (y :: (left' ++ right')) :=
    List.perm_middle
  rw [← whole, ← rest] at back
  have counted := (front.symm.trans back).count_eq x
  by_contra other
  simp [Ne.symm other] at counted

theorem names_unique {file : Text} {left right : List (Text × Json)}
    (leftDenotes : Denotes file (.object left))
    (rightDenotes : Denotes file (.object right)) :
    left.map Prod.fst = right.map Prod.fst := by
  obtain ⟨o, object⟩ := exists_objectFile leftDenotes
  obtain ⟨others, same, names⟩ := object.names_of_denotes rightDenotes
  cases same
  exact names

section Files

variable {file name : Text} {t : Template} {o : Obj}
  {entries : List (Text × Json)}

theorem tplSet_topSet (object : ObjectFile file o entries)
    (printable : isPrintable name = true) (kept : assign name = name)
    (set : tplSet file name t = some next) :
    ∃ entries', ObjectFile next
      (HncJson.topSet o (o.keyOf name) t.entryObj) entries' := by
  rw [tplSet] at set
  split at set
  · cases set
  · rename_i nonempty
    split at set
    · rename_i numbers
      rw [setTop_entryObj numbers nonempty, kept] at set
      by_cases valid : Guard.jsonGuard (t.entryObj ++ ['\n']) = true
      · obtain ⟨value, derives⟩ := (jsonGuard_entryObj_iff numbers).mp valid
        obtain ⟨next', entries', committed, written⟩ :=
          object.commit_setTopInner printable derives
        rw [if_pos valid, committed] at set
        cases set
        exact ⟨entries', written⟩
      · rw [if_neg valid] at set
        obtain ⟨_, oneLine, filled⟩ := plain_entryObj numbers
        have derives := objectSet_valid object
          (body_firstLine_escapeInner name)
          (by
            rw [firstLine_of_oneLine oneLine filled]
            exact val_entryObj numbers) set
        rw [firstLine_of_oneLine oneLine filled] at derives
        exact absurd ((jsonGuard_entryObj_iff numbers).mpr derives) valid
    · cases set

theorem tplSet_commits (object : ObjectFile file o entries)
    (nonempty : name ≠ []) (printable : isPrintable (assign name) = true)
    (numbers : t.values.all Template.isNumber = true)
    (valid : Guard.jsonGuard (t.entryObj ++ ['\n']) = true) :
    ∃ next, tplSet file name t = some next := by
  obtain ⟨value, derives⟩ := (jsonGuard_entryObj_iff numbers).mp valid
  obtain ⟨next, _, committed, _⟩ :=
    object.commit_setTopInner printable derives
  refine ⟨next, ?_⟩
  rw [tplSet, if_neg nonempty, if_pos numbers,
    setTop_entryObj numbers nonempty, if_pos valid, committed]

section Removing

theorem tplDel_commits (nonempty : name ≠ []) {gone : Text}
    (committed : HncJson.commit file
      (HncJson.delObjectKeyInner (assign name) file) = some gone) :
    tplDel file name = some gone := by
  rw [tplDel, if_neg nonempty, HncJson.delObjectKey, if_neg nonempty, committed]

variable (object : ObjectFile file o entries) (nonempty : name ≠ [])

include object nonempty

/-- `tpl_del` takes the first member away that is read under what `awk -v`
makes of the name. -/
theorem tplDel_found {m : Member} {behind : List Member}
    (hit : findMember (o.keyOf (assign name)) o.members = some (m, behind)) :
    ∃ left entry right gone, entries = left ++ entry :: right ∧
      m.Means entry ∧ tplDel file name = some gone ∧
      Denotes gone (.object (left ++ right)) := by
  obtain ⟨front, split, removed⟩ := Obj.remove_split hit
  have means := object.means
  rw [split] at means
  obtain ⟨left, entry, right, parts, leftMeans, meant, rightMeans⟩ :=
    split_entries means
  obtain ⟨gone, committed, denotes⟩ : ∃ gone, HncJson.commit file
      (HncJson.delObjectKeyInner (assign name) file) = some gone ∧
        Denotes gone (.object (left ++ right)) := by
    apply object.commit_delObjectKeyInner
    · rw [removed]
      exact means_cut meant.spaced leftMeans rightMeans
    · rw [removed]
      exact hollow_cut meant.spaced object.hollow
  exact ⟨left, entry, right, gone, parts, meant,
    tplDel_commits nonempty committed, denotes⟩

theorem tplDel_absent
    (hit : findMember (o.keyOf (assign name)) o.members = none) :
    ∃ gone, tplDel file name = some gone ∧
      Denotes gone (.object entries) := by
  obtain ⟨gone, committed, denotes⟩ := object.commit_delObjectKeyInner_absent hit
  exact ⟨gone, tplDel_commits nonempty committed, denotes⟩

end Removing

/-- A template that stands under its name has one that `awk -v` leaves alone. -/
theorem assign_of_stored (printable : isPrintable name = true)
    (nonempty : name ≠ []) (stored : StoredAsNamed next name t) :
    assign name = name ∧ ∃ o' entries', ObjectFile next o' entries' ∧
      Unescapes (o'.keyOf name) name := by
  obtain ⟨before, key, value, after, denotes, unescapes, _, gone, removed,
    left⟩ := stored
  obtain ⟨o', object⟩ := exists_objectFile denotes
  have named : key = o'.keyOf (assign name) := by
    cases hit : findMember (o'.keyOf (assign name)) o'.members with
    | none =>
        obtain ⟨gone', removed', all⟩ := tplDel_absent object nonempty hit
        rw [removed] at removed'
        cases removed'
        have names := names_unique left all
        exact absurd (congrArg List.length names) (by simp)
    | some found =>
        obtain ⟨first, entry, last, gone', parts, meant, removed', rest⟩ :=
          tplDel_found object nonempty hit
        rw [removed] at removed'
        cases removed'
        have names := names_unique left rest
        have whole := congrArg (List.map Prod.fst) parts
        simp only [List.map_append, List.map_cons] at names whole
        rw [inserted_eq whole names, meant.name]
        exact (findMember_mem hit).1
  have read : readName false key = assign name := by
    rw [named]
    exact o'.readName_keyOf (assign name)
  have kept : assign name = name := by
    rw [← read]
    rcases unescapes.name_eq_or_longer printable with same | longer
    · exact same
    · have short := length_assign_le name
      rw [read] at longer
      omega
  refine ⟨kept, o', _, object, ?_⟩
  rw [kept] at named
  rwa [← named]

theorem stored_of_unescapes
    (object : ObjectFile next (HncJson.topSet o (o.keyOf name) t.entryObj) entries)
    (nonempty : name ≠ []) (kept : assign name = name)
    (unescapes : Unescapes (o.keyOf name) name) : StoredAsNamed next name t := by
  have key := HncJson.keyOf_topSet o name t.entryObj
  have read : (HncJson.topSet o (o.keyOf name) t.entryObj).get
      (o.keyOf name) = some t.entryObj := by
    rw [HncJson.get_topSet, if_pos rfl]
  obtain ⟨⟨m, behind⟩, hit, written⟩ := Option.map_eq_some_iff.mp read
  have found : findMember
      ((HncJson.topSet o (o.keyOf name) t.entryObj).keyOf (assign name))
      (HncJson.topSet o (o.keyOf name) t.entryObj).members =
        some (m, behind) := by
    rw [kept, key]
    exact hit
  obtain ⟨left, ⟨stored, value'⟩, right, gone, parts, meant, removed, rest⟩ :=
    tplDel_found object nonempty found
  have named : stored = o.keyOf name :=
    meant.name.trans (findMember_mem hit).1
  refine ⟨left, stored, value', right, parts ▸ object.denotes, ?_, ?_, gone,
    removed, rest⟩
  · rw [named]
    exact unescapes
  · rw [← written]
    exact meant.value

/-- What a name finds in a file does not depend on the layout. -/
theorem keyOf_eq (object : ObjectFile file o entries) (target : Text) :
    o.keyOf target =
      ((entries.map Prod.fst).find? fun key =>
        readName false key = target).getD (escapeName target) := by
  rw [Obj.keyOf, keyAmong_eq_find, map_name_of_means object.means]

end Files

def gameTemplate : Template :=
  ⟨"20".toList, "5".toList, "0".toList, "0".toList, "0.5".toList⟩

theorem game_is_set {name : Text} (nonempty : name ≠ [])
    (printable : isPrintable (assign name) = true) :
    ∃ next, tplSet "\x7b\x7d\n".toList name gameTemplate = some next := by
  obtain ⟨o, object⟩ := exists_objectFile denotes_noSettings
  exact tplSet_commits object nonempty printable (by decide)
    (by decide +kernel)

end JsonSet

end Hnc
