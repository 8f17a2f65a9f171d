import Hnc.Lib.JsonGrammar

/-!
# The place of a member in a text

The text of an object is split at the value of one of its members.
-/

namespace JsonText

open Posix

/-- A text whose three parts are what stands before, in and behind the value of
a member, between the members `left` and `right`. -/
inductive MemberAt (left : List (Text × Json)) (name : Text) (value : Json)
    (right : List (Text × Json)) : Text → Text → Text → Prop
  | place {pre post : Text} {before after : List Member} {m : Member} :
      blank pre = true → blank post = true →
      List.Forall₂ Member.Means before left → m.Means (name, value) →
      List.Forall₂ Member.Means after right →
      MemberAt left name value right (pre ++ front before m) m.val
        (m.trail ++ closing after post)

variable {left right : List (Text × Json)} {name : Text} {value : Json}

/-- Every member of an object has its place. -/
theorem exists_memberAt {file : Text}
    (denotes : Denotes file (.object (left ++ (name, value) :: right))) :
    ∃ before object behind, file = before ++ (object ++ behind) ∧
      MemberAt left name value right before object behind := by
  obtain ⟨pre, middle, post, split, preBlank, derives, postBlank⟩ := denotes
  obtain ⟨⟨members, hollow⟩, text, _, means⟩ := derives.object_members
  obtain ⟨before, m, after, rfl, leftMeans, meant, rightMeans⟩ :=
    split_members means
  refine ⟨pre ++ front before m, m.val, m.trail ++ closing after post, ?_,
    .place preBlank postBlank leftMeans meant rightMeans⟩
  rw [split, text, render_split]
  simp [Member.fromValue]

namespace MemberAt

variable {before object behind : Text}

section

variable (place : MemberAt left name value right before object behind)
include place

theorem denotes :
    Denotes (before ++ (object ++ behind))
      (.object (left ++ (name, value) :: right)) := by
  obtain ⟨preBlank, postBlank, leftMeans, meant, rightMeans⟩ := place
  rename_i pre post before after m
  have means : List.Forall₂ Member.Means (before ++ m :: after)
      (left ++ (name, value) :: right) :=
    List.rel_append leftMeans (.cons meant rightMeans)
  refine ⟨pre, (Obj.mk (before ++ m :: after) []).render, post, ?_, preBlank,
    derives_object rfl means, postBlank⟩
  rw [render_split]
  simp [Member.fromValue]

theorem derives :
    Derives .value object value := by
  obtain ⟨_, _, _, meant, _⟩ := place
  exact meant.value

/-- The text before the value ends with the name and the colon. -/
theorem before_eq :
    ∃ early gap pad, before = early ++ (quote name ++ (gap ++ ':' :: pad)) ∧
      blank gap = true ∧ blank pad = true := by
  cases place with
  | @place pre post before after m _ _ _ meant _ =>
  have named : name = m.key := meant.name
  refine ⟨pre ++ ('{' :: (before.flatMap fun other => other.render ++ [',']) ++
    m.lead), m.gap, m.pad, ?_, meant.spaced.gap, meant.spaced.pad⟩
  rw [named]
  simp [JsonText.front]

/-- Another value in the place, with the white space behind the first one or
without it; then the object goes on or ends. -/
theorem put :
    ∃ trail c rest, behind = trail ++ c :: rest ∧ blank trail = true ∧
      (c = ',' ∨ c = '}') ∧
      ∀ {text : Text} {new : Json}, Derives .value text new →
        MemberAt left name new right before text behind ∧
          MemberAt left name new right before text (c :: rest) := by
  cases place with
  | @place pre post before after m preBlank postBlank leftMeans meant
      rightMeans =>
  have spaced := meant.spaced
  obtain ⟨c, rest, closes, stops⟩ : ∃ c rest, closing after post = c :: rest ∧
      (c = ',' ∨ c = '}') := by
    cases after with
    | nil => exact ⟨'}', post, rfl, .inr rfl⟩
    | cons other after =>
        exact ⟨',', _, closing_cons other after post, .inl rfl⟩
  refine ⟨m.trail, c, rest, by rw [closes], spaced.trail, stops, ?_⟩
  intro text new derives
  have kept : Member.Means { m with val := text } (name, new) :=
    ⟨⟨spaced.lead, spaced.gap, spaced.pad, spaced.trail⟩, meant.key, meant.name,
      derives⟩
  have tight : Member.Means { m with val := text, trail := [] } (name, new) :=
    ⟨⟨spaced.lead, spaced.gap, spaced.pad, rfl⟩, meant.key, meant.name, derives⟩
  have placed : MemberAt left name new right (pre ++ JsonText.front before m)
      text ([] ++ closing after post) :=
    .place preBlank postBlank leftMeans tight rightMeans
  rw [closes] at placed
  exact ⟨.place preBlank postBlank leftMeans kept rightMeans, placed⟩

/-- Behind the value and its white space the object goes on or ends. -/
theorem behind_eq :
    ∃ trail c rest, behind = trail ++ c :: rest ∧ blank trail = true ∧
      (c = ',' ∨ c = '}') := by
  obtain ⟨trail, c, rest, ends, trailBlank, stops, _⟩ := place.put
  exact ⟨trail, c, rest, ends, trailBlank, stops⟩

end

end MemberAt

/-- A member without white space. -/
def bare (key val : Text) : Member :=
  ⟨[], key, [], [], val, []⟩

theorem means_bare {key val : Text} (free : escapeFree key = true)
    (derives : Derives .value val value) : (bare key val).Means (key, value) :=
  ⟨⟨rfl, rfl, rfl, rfl⟩, chars_of_escapeFree free, rfl, derives⟩

theorem derives_bare {key val : Text} (free : escapeFree key = true)
    (derives : Derives .value val value) :
    Derives .value (Obj.mk [bare key val] []).render (.object [(key, value)]) :=
  derives_object rfl (.cons (means_bare free derives) .nil)

/-- White space, or no control character. -/
def isTextChar (c : Char) : Bool :=
  !isControl c || isWs c

variable {c : Char}

theorem isTextChar_of_isWs (space : isWs c = true) : isTextChar c = true := by
  simp [isTextChar, space]

/-- Of the white space of C only that of JSON stands outside of strings. -/
theorem isSpace_of_isTextChar (char : isTextChar c = true)
    (solid : isWs c = false) : isSpace c = false := by
  rw [isSpace, solid]
  simp only [Bool.false_or, Bool.or_eq_false_iff, beq_eq_false_iff_ne]
  constructor
  · rintro rfl
    exact absurd char (by decide)
  · rintro rfl
    exact absurd char (by decide)

variable {text : Text}

theorem all_isTextChar_of_blank (space : blank text = true) :
    text.all isTextChar = true := by
  rw [List.all_eq_true]
  intro c member
  exact isTextChar_of_isWs (List.all_eq_true.mp space c member)

theorem Chars.isTextChar (chars : Chars text) : text.all isTextChar = true := by
  induction chars with
  | nil => rfl
  | unescaped visible _ _ _ induction =>
      rw [List.all_cons, induction]
      simp [JsonText.isTextChar, isControl]
      left
      exact visible
  | escape letter _ induction =>
      have letters : "\"\\/bfnrt".toList.all JsonText.isTextChar = true := by
        decide
      rw [List.all_cons, List.all_cons, induction,
        List.all_eq_true.mp letters _ letter]
      rfl
  | unicode hex _ induction =>
      have digits : hexDigits.all JsonText.isTextChar = true := by decide
      have all : ∀ h ∈ _, JsonText.isTextChar h = true :=
        fun h member => List.all_eq_true.mp digits h (hex h member)
      simp only [List.forall_mem_cons] at all
      obtain ⟨first, second, third, fourth, _⟩ := all
      simp only [List.all_cons, induction, first, second, third, fourth]
      rfl

theorem isTextChar_of_isDigit (digit : isDigit c = true) :
    isTextChar c = true := by
  simp only [isDigit, Bool.and_eq_true, decide_eq_true_eq] at digit
  have zero : '0'.toNat = 48 := rfl
  simp [isTextChar, isControl]
  omega

/-- What holds of digits and of the other characters of a number holds of a
number. -/
theorem Number.all {p : Char → Bool} (digit : ∀ c, isDigit c = true → p c = true)
    (others : ['+', '-', '.', 'e', 'E'].all p = true) (number : Number text) :
    text.all p = true := by
  have digits : ∀ {text : Text}, Digits text → text.all p = true := by
    intro text digits
    rw [List.all_eq_true]
    intro c member
    exact digit c (List.all_eq_true.mp digits.2 c member)
  simp only [List.all_cons, Bool.and_eq_true] at others
  obtain ⟨plus, minus, point, lower, upper, _⟩ := others
  obtain ⟨signed, whole, fraction, exponent⟩ := number
  simp only [List.all_append, Bool.and_eq_true]
  refine ⟨?_, ?_, ?_, ?_⟩
  · rcases signed with rfl | rfl
    · rfl
    · simpa using minus
  · cases whole with
    | zero => simpa using digit '0' rfl
    | digits _ many => exact digits many
  · cases fraction with
    | absent => rfl
    | digits many => rw [List.all_cons, point, digits many, Bool.and_true]
  · cases exponent with
    | absent => rfl
    | digits letter exponentSign many =>
        rw [List.all_cons, List.all_append, digits many]
        rcases letter with rfl | rfl <;>
          rcases exponentSign with rfl | rfl | rfl <;>
          simp [lower, upper, plus, minus]

theorem Number.isTextChar (number : Number text) : text.all isTextChar = true :=
  number.all (fun _ => isTextChar_of_isDigit) (by decide)

theorem Member.Spaced.isTextChar {m : Member} (spaced : m.Spaced)
    (key : Chars m.key) (value : m.val.all isTextChar = true) :
    m.render.all isTextChar = true := by
  have comma : JsonText.isTextChar '"' = true := by decide
  have colon : JsonText.isTextChar ':' = true := by decide
  simp only [Member.render, Member.fromKey, Member.fromValue, quote,
    List.all_append, List.all_cons, List.all_nil, Bool.and_eq_true,
    all_isTextChar_of_blank spaced.lead, all_isTextChar_of_blank spaced.gap,
    all_isTextChar_of_blank spaced.pad, all_isTextChar_of_blank spaced.trail,
    key.isTextChar, value, comma, colon, and_self]

/-- A text that is derived has no control characters but white space. -/
theorem Derives.isTextChar {part : Part} {value : Json}
    (derives : Derives part text value) : text.all isTextChar = true := by
  have plain : ['"', '{', '}', '[', ']', ','].all JsonText.isTextChar =
      true := by decide
  simp only [List.all_cons, Bool.and_eq_true] at plain
  obtain ⟨quoted, openCurly, closeCurly, openSquare, closeSquare, comma, _⟩ :=
    plain
  induction derives with
  | wordNull | wordTrue | wordFalse => decide
  | number number => exact number.isTextChar
  | string chars =>
      simp [quote, quoted, chars.isTextChar]
  | noElements space | noMembers space =>
      simp [openCurly, closeCurly, openSquare, closeSquare,
        all_isTextChar_of_blank space]
  | array _ induction | object _ induction =>
      simp [openCurly, closeCurly, openSquare, closeSquare, induction]
  | element lead _ trail induction =>
      simp [all_isTextChar_of_blank lead, all_isTextChar_of_blank trail,
        induction]
  | elements lead _ trail _ first rest =>
      simp [all_isTextChar_of_blank lead, comma, all_isTextChar_of_blank trail,
        first, rest]
  | member spaced key _ induction => exact spaced.isTextChar key induction
  | members spaced key _ _ first rest =>
      rw [List.all_append, spaced.isTextChar key first, List.all_cons, rest]
      rfl

theorem Denotes.isTextChar {value : Json} (denotes : Denotes text value) :
    text.all isTextChar = true := by
  obtain ⟨before, middle, after, split, beforeBlank, derives, afterBlank⟩ :=
    denotes
  rw [split, List.all_append, List.all_append, derives.isTextChar,
    all_isTextChar_of_blank beforeBlank, all_isTextChar_of_blank afterBlank]
  rfl

end JsonText
