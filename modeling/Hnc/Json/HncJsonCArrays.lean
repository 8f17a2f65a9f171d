import Hnc.Json.HncJsonCWrites
import Hnc.Lib.JsonArrays

/-!
# The array commands of the C helper

`add-array-unique` looks for the quoted value from the array on to the end of
the file, and puts it in front of the last bracket there.  `del-array-value`
takes the first quoted value out with one comma.
-/

namespace Hnc

open Posix JsonText

namespace HncJsonC

theorem joinCut_element {left right : List Json} {value : Json}
    {early text late : Text} (place : ElementAt left value right early text late) :
    ∃ rest, Derives .value rest (.array (left ++ right)) ∧
      ∀ behind, joinCut early (late ++ behind) = rest ++ behind := by
  cases place with
  | @place before after e leftMeans meant rightMeans =>
  have means := Element.means_cut meant.lead leftMeans rightMeans
  refine ⟨_, Element.derives_array means, ?_⟩
  intro behind
  rw [List.append_assoc]
  cases rightMeans with
  | @cons next _ after _ _ _ =>
      have text : Element.more (next :: after) ++ [']'] ++ behind =
          ',' :: (next.render ++ (Element.more after ++ ']' :: behind)) := by
        simp [Element.more]
      rw [text, joinCut_next _ meant.trail, Element.cut, Element.inner_split]
      simp [Element.render]
  | nil =>
      have text : Element.more [] ++ [']'] ++ behind = ']' :: behind := rfl
      have close : isSpace ']' = false := by decide
      rw [text, joinCut_end meant.trail close (by decide), Element.cut]
      rcases List.eq_nil_or_concat before with rfl | ⟨init, last, rfl⟩
      · have open_ : isSpace '[' = false := by decide
        have front : '[' :: (Element.front [] ++ e.lead) = [] ++ '[' :: e.lead :=
          rfl
        rw [front, dropComma_other meant.lead open_ (by decide)]
        rfl
      · have front : '[' :: (Element.front (init.concat last) ++ e.lead) =
            ('[' :: (Element.front init ++ last.render)) ++ ',' :: e.lead := by
          simp [Element.front]
        rw [front, dropComma_comma meant.lead, List.concat_eq_append,
          Element.inner_split]
        simp [Element.more]

theorem ne_close_of_val {c : Char} {rest : Text} (shape : Val (c :: rest)) :
    c ≠ ']' := by
  rintro rfl
  cases shape with
  | atom _ chars => exact absurd (List.all_eq_true.mp chars ']' (by simp)) (by decide)

theorem commaUnless_elements {part : Part} {inner : Text} {tree : Json}
    (derives : Derives part inner tree) (isElements : part = .elements)
    (behind : Text) : commaUnless ']' (inner ++ behind) = [','] := by
  have opens : ∀ {lead text : Text} {value : Json}, blank lead = true →
      Derives .value text value → ∀ behind,
        commaUnless ']' (lead ++ (text ++ behind)) = [','] := by
    intro lead text value leadBlank derives behind
    obtain ⟨c, rest, rfl, solid⟩ := derives.val.head
    have char := List.all_eq_true.mp derives.isTextChar c List.mem_cons_self
    exact commaUnless_other leadBlank (isSpace_of_isTextChar char solid)
      (ne_close_of_val derives.val) (rest ++ behind)
  cases derives with
  | element lead value trail =>
      rw [List.append_assoc, List.append_assoc]
      exact opens lead value _
  | elements lead value trail others =>
      rw [List.append_assoc, List.append_assoc]
      exact opens lead value _
  | _ => cases isElements

theorem derives_behind {val : Text} {elements : List Json}
    (derives : Derives .value val (.array elements)) {lit : Text} {new : Json}
    (added : Derives .value lit new) :
    ∃ inner, val = '[' :: (inner ++ [']']) ∧ ∀ behind,
      Derives .value ('[' :: (inner ++ (commaUnless ']' (inner ++ ']' :: behind) ++
        (lit ++ [']'])))) (.array (elements ++ [new])) := by
  generalize array : Json.array elements = tree at derives
  cases derives with
  | @noElements space blanks =>
      refine ⟨space, rfl, ?_⟩
      intro behind
      rw [commaUnless_blank blanks (by decide), Json.array.inj array]
      have alone := Derives.array (@Derives.element space lit [] new blanks added
        rfl)
      simpa using alone
  | @array inner elements derives =>
      refine ⟨inner, rfl, ?_⟩
      intro behind
      rw [commaUnless_elements derives rfl, Json.array.inj array]
      simpa using Derives.array (derives.snoc_element rfl rfl added)
  | _ => cases array

/-- What begins with a character that is not in front of a text begins in
that text. -/
theorem length_le_of_not_mem {front left rest x : Text} {c : Char}
    (same : front ++ c :: x = left ++ rest) (free : c ∉ left) :
    (c :: x).length ≤ rest.length := by
  rcases List.append_eq_append_iff.mp same with
    ⟨between, inside, tail⟩ | ⟨between, _, tail⟩
  · cases between with
    | nil => rw [tail, List.nil_append]
    | cons d between =>
        rw [List.cons_append, List.cons.injEq] at tail
        exact absurd (by rw [inside, tail.1]; simp) free
  · rw [tail, List.length_append]
    omega

section Named

variable {file key v : Text} {left right : List (Text × Json)} {value : Json}
  {before val behind : Text}
  (named : NamedAt file key left value right before val behind)
  (free : escapeFree key = true) (plain : escapeFree v = true)

include named free plain

/-- A quoted value anywhere behind the name is taken for an element. -/
theorem arrayAdd_present
    (hit : (strstr (val ++ behind) (quote v)).isSome = true) :
    arrayAdd file key v = some file := by
  obtain ⟨p, _, c, rest, found, _⟩ := named.findKey free
  obtain ⟨x, search⟩ := Option.isSome_iff_exists.mp hit
  rw [arrayAdd, cString_of_denotes named.denotes]
  simp only [validJson_of_denotes named.denotes, if_true, found,
    escstr_of_escapeFree plain, search]

section Missing

variable (miss : strstr (val ++ behind) (quote v) = none)

include miss

/-- Nothing is added when the last bracket stands behind the member. -/
theorem arrayAdd_beyond (bracket : ']' ∈ behind) :
    arrayAdd file key v = none := by
  obtain ⟨p, trail, c, rest, found, ends, trailBlank, stops, _⟩ :=
    named.findKey free
  have member : ']' ∈ rest := by
    rw [ends] at bracket
    rcases List.mem_append.mp bracket with space | others
    · exact absurd (List.all_eq_true.mp trailBlank _ space) (by decide)
    · rcases List.mem_cons.mp others with rfl | later
      · rcases stops with stop | stop
        · cases stop
        · cases stop
      · exact later
  obtain ⟨front, after, split, last⟩ := exists_last member
  have whole : val ++ behind = (val ++ (trail ++ c :: front)) ++
      ']' :: after := by
    rw [ends, split]
    simp
  have beyond : (']' :: after).length < (c :: rest).length := by
    rw [split]
    simp only [List.length_cons, List.length_append]
    omega
  have search : strrchr (val ++ behind) ']' = some (']' :: after) := by
    rw [whole]
    exact strrchr_last _ last
  rw [arrayAdd, cString_of_denotes named.denotes]
  simp only [validJson_of_denotes named.denotes, if_true, found,
    escstr_of_escapeFree plain, miss, search, beyond]

theorem arrayAdd_noBracket (none : ']' ∉ val ++ behind) :
    arrayAdd file key v = .none := by
  obtain ⟨p, _, c, rest, found, _⟩ := named.findKey free
  rw [arrayAdd, cString_of_denotes named.denotes]
  simp only [validJson_of_denotes named.denotes, if_true, found,
    escstr_of_escapeFree plain, miss, strrchr_eq_none none]

theorem arrayAdd_new {elements : List Json} (isArray : value = .array elements)
    {out : Text} (added : arrayAdd file key v = some out) :
    Denotes out (.object
      (left ++ (key, .array (elements ++ [.string v])) :: right)) := by
  have none : ']' ∉ behind := by
    intro bracket
    rw [arrayAdd_beyond named free plain miss bracket] at added
    cases added
  subst isArray
  obtain ⟨inner, text, grown⟩ := derives_behind named.place.derives
    (Derives.string (chars_of_escapeFree plain))
  obtain ⟨p, trail, c, rest, found, ends, _, _, put⟩ := named.findKey free
  have whole : val ++ behind = ('[' :: inner) ++ ']' :: behind := by
    rw [text]
    simp
  have search : strrchr (val ++ behind) ']' = some (']' :: behind) := by
    rw [whole]
    exact strrchr_last _ none
  have front : upTo file (']' :: behind) = before ++ '[' :: inner := by
    rw [named.text, whole, ← List.append_assoc, upTo_append]
  have inside : ¬ (']' :: behind).length < (c :: rest).length := by
    rw [ends]
    simp only [List.length_cons, List.length_append]
    omega
  have opens : (val ++ behind).tail = inner ++ ']' :: behind := by
    rw [whole]
    rfl
  rw [arrayAdd, cString_of_denotes named.denotes] at added
  simp only [validJson_of_denotes named.denotes, found,
    escstr_of_escapeFree plain, miss, search, if_neg inside, front, opens]
    at added
  have denotes := (put (grown behind)).1.denotes
  have same : before ++ ('[' :: (inner ++
      (commaUnless ']' (inner ++ ']' :: behind) ++ (quote v ++ [']']))) ++
        behind) = before ++ '[' :: inner ++
      (commaUnless ']' (inner ++ ']' :: behind) ++
        (quote v ++ ']' :: behind)) := by simp
  rw [same] at denotes
  obtain ⟨written, result⟩ := writeFile_of_denotes denotes
  rw [written] at added
  rw [← Option.some.inj added]
  exact result

end Missing

theorem arrayDel_element {front behind' : List Json} {early late : Text}
    (place : ElementAt front (.string v) behind' early (quote v) late)
    (text : val = early ++ (quote v ++ late))
    (first : strstr (val ++ behind) (quote v) =
      some (quote v ++ (late ++ behind))) :
    ∃ out, arrayDel file key v = some out ∧ Denotes out (.object
      (left ++ (key, .array (front ++ behind')) :: right)) := by
  obtain ⟨p, trail, c, rest, found, ends, _, _, put⟩ := named.findKey free
  obtain ⟨smaller, derives, cut⟩ := joinCut_element place
  have denotes := (put derives).1.denotes
  obtain ⟨written, result⟩ := writeFile_of_denotes denotes
  refine ⟨_, ?_, result⟩
  have inside : ¬ (quote v ++ (late ++ behind)).length < (c :: rest).length := by
    rw [ends]
    simp only [List.length_append]
    omega
  have outer : upTo file (val ++ behind) = before := by
    rw [named.text, upTo_append]
  have whole : val ++ behind = early ++ (quote v ++ (late ++ behind)) := by
    rw [text]
    simp
  rw [arrayDel, cString_of_denotes named.denotes]
  simp only [found, escstr_of_escapeFree plain, first, if_neg inside, outer]
  rw [whole, upTo_append, List.drop_left, cut]
  exact written

/-- Nothing happens where no quoted value begins in the text of the member's
value. -/
theorem arrayDel_none
    (none : ∀ x, strstr (val ++ behind) (quote v) = some x →
      x.length ≤ behind.length) : arrayDel file key v = some file := by
  obtain ⟨p, trail, c, rest, found, ends, trailBlank, stops, _⟩ :=
    named.findKey free
  rw [arrayDel, cString_of_denotes named.denotes]
  simp only [found, escstr_of_escapeFree plain]
  cases search : strstr (val ++ behind) (quote v) with
  | none => rfl
  | some x =>
      obtain ⟨front, after, split, opens⟩ := strstr_eq_some search
      have short := none x search
      obtain ⟨y, tail⟩ : ∃ y, behind = y ++ x := by
        rcases List.append_eq_append_iff.mp split with
          ⟨y, _, inside⟩ | ⟨y, longer, inside⟩
        · exact ⟨y, inside⟩
        · have size := congrArg List.length inside
          rw [List.length_append] at size
          have empty : y = [] := List.length_eq_zero_iff.mp (by omega)
          exact ⟨[], by rw [inside, empty]; rfl⟩
      have noQuote : '"' ∉ trail ++ [c] := by
        simp only [List.mem_append, not_or]
        constructor
        · intro member
          exact absurd (List.all_eq_true.mp trailBlank _ member) (by decide)
        · rcases stops with rfl | rfl
          · decide
          · decide
      have same : y ++ '"' :: (v ++ '"' :: after) = (trail ++ [c]) ++ rest := by
        rw [List.append_assoc, List.singleton_append, ← ends, tail, opens]
        simp [quote]
      have later := length_le_of_not_mem same noQuote
      have size : x.length = ('"' :: (v ++ '"' :: after)).length := by
        rw [opens]
        simp [quote]
      have beyond : x.length < (c :: rest).length := by
        rw [List.length_cons]
        omega
      exact if_pos beyond

end Named

section Absent

variable {file key v : Text} {entries : List (Text × Json)}
  (denotes : Denotes file (.object entries)) (free : escapeFree key = true)
  (unnamed : Unnamed file key)

include denotes free unnamed

theorem arrayAdd_absent (plain : escapeFree v = true) :
    ∃ out, arrayAdd file key v = some out ∧ Denotes out (.object
      ((key, .array [.string v]) :: entries)) := by
  have array : Derives .value ('[' :: quote v ++ [']'])
      (.array [.string v]) := by
    have alone := Derives.array (@Derives.element [] (quote v) [] _ rfl
      (.string (chars_of_escapeFree plain)) rfl)
    simpa using alone
  have valid : validJson ('[' :: quote v ++ [']']) = true :=
    validJson_of_denotes ⟨[], _, [], by simp, rfl, array, rfl⟩
  obtain ⟨out, set, result⟩ := setObjectKey_absent denotes free unnamed
    (show literal ('[' :: quote v ++ [']']) .json = some _ from if_pos valid)
    array
  refine ⟨out, ?_, result⟩
  rw [arrayAdd, cString_of_denotes denotes]
  simp only [validJson_of_denotes denotes, findKey_absent denotes free unnamed,
    escstr_of_escapeFree plain]
  exact set

theorem arrayDel_absent : arrayDel file key v = some file := by
  rw [arrayDel, cString_of_denotes denotes]
  simp only [findKey_absent denotes free unnamed]

end Absent

end HncJsonC

end Hnc
