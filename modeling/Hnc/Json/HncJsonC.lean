import Hnc.Json.ObjectFile
import Hnc.Lib.CString
import Hnc.Lib.JsonPlace

/-!
# The C helper of `hnc_json`

`tools/hnc_json.c` looks for a quoted key with `strstr` and takes what stands
behind the next colon for its value.  Where it is installed, `hnc_json` asks it
first.  Its `get-top` agrees with the awk program as long as the first quoted
key of the file is the name of the member.
-/

namespace Hnc

open Posix JsonText

namespace HncJsonC

def escstr (v : Text) : Text :=
  '"' :: (v.flatMap fun c =>
    if c = '\\' ∨ c = '"' then ['\\', c]
    else if isControl c then []
    else [c]) ++ ['"']

/-- The loop of `find_key` to the end of a value. -/
def valueEnd (ins esc : Bool) (dep : Int) : Text → Text
  | [] => []
  | ch :: rest =>
      if ins then
        if esc then valueEnd true false dep rest
        else if ch = '\\' then valueEnd true true dep rest
        else if ch = '"' then valueEnd false false dep rest
        else valueEnd true false dep rest
      else if ch = '"' then valueEnd true false dep rest
      else if ch = '{' ∨ ch = '[' then valueEnd false false (dep + 1) rest
      else if (ch = ',' ∨ ch = '}') ∧ dep = 0 then ch :: rest
      else if ch = '}' ∨ ch = ']' then valueEnd false false (dep - 1) rest
      else valueEnd false false dep rest

/-- The three pointers that `find_key` answers with. -/
structure Found where
  p : Text
  val : Text
  fin : Text
deriving DecidableEq

def findKey (s key : Text) : Option Found :=
  match strstr s (escstr key) with
  | none => none
  | some p =>
      match strchr (p.drop (escstr key).length) ':' with
      | none => none
      | some c =>
          let val := c.tail.dropWhile isSpace
          some ⟨p, val, valueEnd false false 0 val⟩

/-- `get_top` on a file that can be read. -/
def getTop (file key : Text) : Except Nat Text :=
  match findKey (cString file) key with
  | none => .error 3
  | some found =>
      .ok (found.val.take (found.val.length - found.fin.length) ++ ['\n'])

theorem escstr_of_escapeFree {key : Text} (free : escapeFree key = true) :
    escstr key = quote key := by
  have same : (key.flatMap fun c =>
      if c = '\\' ∨ c = '"' then ['\\', c]
      else if isControl c then [] else [c]) = key := by
    refine (List.flatMap_congr ?_).trans (List.flatMap_singleton' key)
    intro c member
    have char := List.all_eq_true.mp free c member
    simp only [Bool.and_eq_true, bne_iff_ne, Bool.not_eq_true'] at char
    obtain ⟨⟨slash, quote⟩, visible⟩ := char
    simp [slash, quote, visible]
  rw [escstr, same]
  rfl

theorem valueEnd_scanner : Scanner (fun dep ins esc => valueEnd ins esc dep)
    fun dep c => 0 < dep ∨ dep = 0 ∧ c ≠ ',' where
  quote _ _ := by simp [valueEnd]
  string _ _ _ _ := by simp [valueEnd]
  plain passed plain _ := by
    simp only [isPlain, Bool.and_eq_true, bne_iff_ne] at plain
    rcases passed with deep | ⟨_, other⟩
    · simp [valueEnd, plain, Int.ne_of_gt deep]
    · simp [valueEnd, plain, other]
  bracket {dep} := by
    intro _ _ passed pair
    have inside : 0 < dep + 1 := by omega
    refine ⟨dep + 1, fun _ => .inl inside, fun _ => ?_⟩
    rcases pair with ⟨⟨⟩⟩ | ⟨⟨⟩⟩
    · simp [valueEnd, Int.ne_of_gt inside]
    · simp [valueEnd]

variable {value : Json}

/-- No character of white space that C knows begins a value. -/
theorem dropWhile_isSpace_value {text : Text}
    (derives : Derives .value text value) (rest : Text) :
    (text ++ rest).dropWhile isSpace = text ++ rest := by
  obtain ⟨c, tail, rfl, solid⟩ := derives.val.head
  have char := List.all_eq_true.mp derives.isTextChar c List.mem_cons_self
  have other : isSpace c = false := isSpace_of_isTextChar char solid
  rw [List.cons_append, List.dropWhile_cons_of_neg (by simp [other])]

theorem dropWhile_isSpace_blank {space : Text} (blanks : blank space = true)
    (rest : Text) :
    (space ++ rest).dropWhile isSpace = rest.dropWhile isSpace := by
  apply List.dropWhile_append_of_pos
  intro c member
  rw [isSpace, List.all_eq_true.mp blanks c member]
  rfl

theorem findKey_member {s p key gap pad val trail rest : Text} {stop : Char}
    (free : escapeFree key = true) (first : strstr s (quote key) = some p)
    (named : p = quote key ++ (gap ++ ':' :: (pad ++ (val ++ (trail ++ stop :: rest)))))
    (gapBlank : blank gap = true) (padBlank : blank pad = true)
    (derives : Derives .value val value) (trailBlank : blank trail = true)
    (stops : stop = ',' ∨ stop = '}') :
    findKey s key = some
      ⟨p, val ++ (trail ++ stop :: rest), stop :: rest⟩ := by
  have noColon : ':' ∉ gap := by
    intro member
    exact absurd (List.all_eq_true.mp gapBlank _ member) (by decide)
  have ends : valueEnd false false 0 (val ++ (trail ++ stop :: rest)) =
      stop :: rest := by
    have outside : ∀ c, c ≠ ',' → 0 < (0 : Int) ∨ (0 : Int) = 0 ∧ c ≠ ',' :=
      fun _ other => .inr ⟨rfl, other⟩
    refine (valueEnd_scanner.val derives.val 0 outside _).trans ?_
    refine (valueEnd_scanner.blank trailBlank 0 outside _).trans ?_
    rcases stops with rfl | rfl
    · rfl
    · rfl
  rw [findKey, escstr_of_escapeFree free, first]
  simp only [named, List.drop_left, strchr_found noColon, List.tail_cons,
    dropWhile_isSpace_blank padBlank, dropWhile_isSpace_value derives, ends]

/-- Both report that the member is absent, or print the same text up to white
space around it. -/
inductive Agree : Except Nat Text → Except Nat Text → Prop
  | absent : Agree (.error 3) (.error 3)
  | printed {fast slow : Text} : trimWs fast = trimWs slow →
      Agree (.ok fast) (.ok slow)

/-- The first quoted `key` of the file is the name of the member. -/
structure NameFirst (file key : Text) (entries : List (Text × Json)) :
    Prop where
  found : ∃ left value right before val behind early gap pad,
    entries = left ++ (key, value) :: right ∧
    MemberAt left key value right before val behind ∧
    file = before ++ (val ++ behind) ∧
    before = early ++ (quote key ++ (gap ++ ':' :: pad)) ∧
    blank gap = true ∧ blank pad = true ∧
    strstr file (quote key) =
      some (quote key ++ (gap ++ ':' :: (pad ++ (val ++ behind))))

/-- No colon stands behind the first quoted `key` of the file, if there is
one. -/
def Unnamed (file key : Text) : Prop :=
  ∀ p, strstr file (quote key) = some p → ':' ∉ p.drop (quote key).length

theorem cString_of_denotes {file : Text} {tree : Json}
    (denotes : Denotes file tree) : cString file = file := by
  apply cString_eq_self
  intro member
  exact absurd (List.all_eq_true.mp denotes.isTextChar _ member) (by decide)

section Files

variable {file key : Text} {entries : List (Text × Json)}
  (denotes : Denotes file (.object entries)) (free : escapeFree key = true)

include denotes free

theorem getTop_absent_iff :
    getTop file key = .error 3 ↔ Unnamed file key := by
  rw [getTop, cString_of_denotes denotes, findKey, escstr_of_escapeFree free,
    Unnamed]
  cases search : strstr file (quote key) with
  | none => simp
  | some p =>
      by_cases colon : ':' ∈ p.drop (quote key).length
      · obtain ⟨left, rest, split, fresh⟩ := List.eq_append_cons_of_mem colon
        have found := strchr_found fresh rest
        rw [← split] at found
        simp [found, colon]
      · simp [strchr_eq_none colon, colon]

/-- The C helper prints the value and the white space behind it. -/
theorem getTop_named (first : NameFirst file key entries) :
    ∃ left value right before val behind trail,
      entries = left ++ (key, value) :: right ∧
      MemberAt left key value right before val behind ∧
      file = before ++ (val ++ behind) ∧ blank trail = true ∧
      getTop file key = .ok (val ++ trail ++ ['\n']) := by
  obtain ⟨left, value, right, before, val, behind, early, gap, pad, split,
    place, text, _, gapBlank, padBlank, search⟩ := first.found
  obtain ⟨trail, stop, rest, ends, trailBlank, stops⟩ := place.behind_eq
  rw [ends] at search
  have found := findKey_member free search rfl gapBlank padBlank place.derives
    trailBlank stops
  refine ⟨left, value, right, before, val, behind, trail, split, place, text,
    trailBlank, ?_⟩
  have shorter : (val ++ (trail ++ stop :: rest)).length -
      (stop :: rest).length = (val ++ trail).length := by
    simp only [List.length_append]
    omega
  rw [getTop, cString_of_denotes denotes, found]
  simp only [shorter]
  rw [← List.append_assoc, List.take_left]

end Files

section Names

variable {file key : Text} {entries : List (Text × Json)}
  (distinct : (entries.map Prod.fst).Nodup)
  (plain : ∀ name ∈ entries.map Prod.fst, '\\' ∉ name)

include distinct plain

theorem flat_object {o : Obj} (object : ObjectFile file o entries) :
    Flat file o := by
  have names := map_name_of_means object.means
  refine ⟨object.text, ⟨entries, object.means⟩, object.hollow, ?_, ?_⟩
  · intro m member
    apply plain
    rw [names]
    exact List.mem_map_of_mem member
  · rw [← names]
    exact distinct

theorem awk_place (free : escapeFree key = true) {left right : List (Text × Json)}
    {before val behind : Text} (split : entries = left ++ (key, value) :: right)
    (place : MemberAt left key value right before val behind) :
    HncJson.getTop (before ++ (val ++ behind)) key = .ok (val ++ ['\n']) := by
  cases place with
  | @place pre post members after m preBlank postBlank meansLeft means
      meansRight =>
  have all : List.Forall₂ Member.Means (members ++ m :: after) entries := by
    rw [split]
    exact List.rel_append meansLeft (.cons means meansRight)
  have text : pre ++ JsonText.front members m ++ (m.val ++ (m.trail ++
      closing after post)) =
      pre ++ ((Obj.mk (members ++ m :: after) []).render ++ post) := by
    rw [render_split]
    simp [Member.fromValue]
  have flat := flat_object distinct plain
    ⟨⟨pre, post, text, preBlank, postBlank⟩, all, rfl⟩
  have others : ∀ other ∈ members, other.key ≠ key := by
    intro other member same
    have nodup := flat.distinct
    rw [List.map_append, List.map_cons, ← means.name] at nodup
    have apart := (List.nodup_append.mp nodup).2.2
    exact apart _ (List.mem_map_of_mem member) _ List.mem_cons_self same
  rw [flat.getTop (assign_of_escapeFree free), HncJson.topAnswer,
    findMember_split others means.name.symm]

theorem awk_absent (free : escapeFree key = true)
    (denotes : Denotes file (.object entries))
    (absent : key ∉ entries.map Prod.fst) :
    HncJson.getTop file key = .error 3 := by
  obtain ⟨o, object⟩ := exists_objectFile denotes
  have flat := flat_object distinct plain object
  have missing : findMember key o.members = none := by
    rw [findMember_eq_none]
    intro m member same
    apply absent
    rw [map_name_of_means object.means, ← same]
    exact List.mem_map_of_mem member
  rw [flat.getTop (assign_of_escapeFree free), HncJson.topAnswer, missing]

/-- Behind the first quoted key the C helper finds what the awk program finds,
when that is the name of the member.  For a key that is not there both report
this exactly when no colon stands behind the first quoted key. -/
theorem getTop_agrees (denotes : Denotes file (.object entries))
    (free : escapeFree key = true) :
    (NameFirst file key entries →
      Agree (getTop file key) (HncJson.getTop file key)) ∧
    (key ∉ entries.map Prod.fst →
      (Agree (getTop file key) (HncJson.getTop file key) ↔
        Unnamed file key)) := by
  constructor
  · intro first
    obtain ⟨left, value, right, before, val, behind, trail, split, place, text,
      trailBlank, fast⟩ := getTop_named denotes free first
    have slow := awk_place distinct plain free split place
    rw [← text] at slow
    have shape := place.derives.val
    rw [fast, slow]
    apply Agree.printed
    rw [shape.trimWs_append (by decide), List.append_assoc,
      shape.trimWs_append (blank_append.mpr ⟨trailBlank, by decide⟩)]
  · intro absent
    rw [awk_absent distinct plain free denotes absent,
      ← getTop_absent_iff denotes free]
    constructor
    · intro agree
      cases answer : getTop file key with
      | ok out =>
          rw [answer] at agree
          cases agree
      | error code =>
          rw [answer] at agree
          cases agree
          rfl
    · intro answer
      rw [answer]
      exact .absent

end Names

/-- `{"a":null,"k":[true]}`. -/
def flatFile : Text :=
  "\x7b\"a\":null,\"k\":[true]\x7d\n".toList

theorem nameFirst_flatFile : NameFirst flatFile "k".toList
    [("a".toList, .null), ("k".toList, .array [.bool true])] := by
  have first := means_bare (show escapeFree "a".toList = true by decide)
    .wordNull
  have list : Derives .value "[true]".toList (.array [.bool true]) :=
    .array (@Derives.element [] _ [] _ rfl .wordTrue rfl)
  have second := means_bare (show escapeFree "k".toList = true by decide) list
  have place := @MemberAt.place _ _ _ _ [] ['\n'] _ _ _ rfl rfl
    (.cons first .nil) second .nil
  have search : strstr flatFile (quote "k".toList) =
      some (quote "k".toList ++ ([] ++ ':' :: ([] ++ ("[true]".toList ++
        ([] ++ closing [] ['\n']))))) := by
    decide +kernel
  refine ⟨[("a".toList, .null)], .array [.bool true], [], _, "[true]".toList,
    [] ++ closing [] ['\n'], "\x7b\"a\":null,".toList, [], [], rfl, place, ?_, ?_,
    rfl, rfl, search⟩
  · decide
  · decide

theorem member_of_flatFile_agrees :
    Agree (getTop flatFile "k".toList) (HncJson.getTop flatFile "k".toList) := by
  have first := nameFirst_flatFile
  obtain ⟨left, value, right, before, val, behind, _, _, _, split, place, text,
    _⟩ := first.found
  have denotes := place.denotes
  rw [← text, ← split] at denotes
  exact (getTop_agrees (by decide) (by simp) denotes (by decide)).1 first

/-- `{"a":{"k":true},"k":false}`. -/
def nestedFile : Text :=
  "\x7b\"a\":\x7b\"k\":true\x7d,\"k\":false\x7d\n".toList

theorem denotes_nestedFile : Denotes nestedFile (.object
    [("a".toList, .object [("k".toList, .bool true)]),
      ("k".toList, .bool false)]) := by
  have inner := derives_bare (show escapeFree "k".toList = true by decide)
    .wordTrue
  have first := means_bare (show escapeFree "a".toList = true by decide) inner
  have second := means_bare (show escapeFree "k".toList = true by decide)
    .wordFalse
  have object := @derives_object (Obj.mk _ []) _ rfl
    (.cons first (.cons second .nil))
  exact ⟨[], _, ['\n'], by decide, rfl, object, rfl⟩

theorem nested_name_is_taken :
    ¬ ∀ (file key : Text) (entries : List (Text × Json)),
      Denotes file (.object entries) → (entries.map Prod.fst).Nodup →
      (∀ name ∈ entries.map Prod.fst, '\\' ∉ name) → escapeFree key = true →
      Agree (getTop file key) (HncJson.getTop file key) := by
  intro always
  have agrees := always nestedFile "k".toList _ denotes_nestedFile (by decide)
    (by simp) (by decide)
  have fast : getTop nestedFile "k".toList = .ok "true\n".toList := by
    decide +kernel
  have slow : HncJson.getTop nestedFile "k".toList = .ok "false\n".toList := by
    decide +kernel
  rw [fast, slow] at agrees
  cases agrees with
  | printed same => exact absurd same (by decide)

end HncJsonC

end Hnc
