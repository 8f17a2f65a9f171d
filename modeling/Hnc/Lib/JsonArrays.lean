import Hnc.Lib.JsonGrammar

/-!
# The elements of an array in a text

An array is split at one of its elements, whatever the white space around them
is, and is an array again when that element is cut out.
-/

namespace JsonText

open Posix

/-- An element with the white space around it. -/
structure Element where
  lead : Text
  text : Text
  trail : Text

variable {values : List Json}

namespace Element

def render (e : Element) : Text :=
  e.lead ++ (e.text ++ e.trail)

structure Means (e : Element) (value : Json) : Prop where
  lead : blank e.lead = true
  trail : blank e.trail = true
  value : Derives .value e.text value

/-- The elements in front of another one. -/
def front (before : List Element) : Text :=
  before.flatMap fun e => e.render ++ [',']

/-- The elements behind another one. -/
def more (after : List Element) : Text :=
  after.flatMap fun e => ',' :: e.render

/-- What stands between the brackets. -/
def inner : List Element → Text
  | [] => []
  | e :: after => e.render ++ more after

theorem inner_cons_cons (first second : Element) (rest : List Element) :
    inner (first :: second :: rest) =
      first.render ++ ',' :: inner (second :: rest) := by
  simp [inner, more]

theorem inner_split (before : List Element) (e : Element)
    (after : List Element) :
    inner (before ++ e :: after) = front before ++ (e.render ++ more after) := by
  induction before with
  | nil => rfl
  | cons first before induction =>
      have behind : inner (first :: (before ++ e :: after)) =
          first.render ++ ',' :: inner (before ++ e :: after) := by
        cases before with
        | nil => exact inner_cons_cons first e after
        | cons second rest => exact inner_cons_cons first second _
      rw [List.cons_append, behind, induction]
      simp [front]

theorem derives_inner {e : Element} {after : List Element}
    (means : List.Forall₂ Means (e :: after) values) :
    Derives .elements (inner (e :: after)) (.array values) := by
  induction after generalizing e values with
  | nil =>
      obtain _ | ⟨first, rest⟩ := means
      cases rest
      rw [inner, more, List.flatMap_nil, List.append_nil]
      exact .element first.lead first.value first.trail
  | cons next after induction =>
      obtain _ | ⟨first, rest⟩ := means
      have text : inner (e :: next :: after) =
          e.lead ++ (e.text ++ (e.trail ++ ',' :: inner (next :: after))) := by
        rw [inner_cons_cons]
        simp [render]
      rw [text]
      exact .elements first.lead first.value first.trail (induction rest)

/-- An array is derived from its elements. -/
theorem derives_array {elements : List Element}
    (means : List.Forall₂ Means elements values) :
    Derives .value ('[' :: inner elements ++ [']']) (.array values) := by
  cases elements with
  | nil =>
      cases means
      exact @Derives.noElements [] rfl
  | cons e after => exact .array (derives_inner means)

/-- The elements when one of them is cut out: the white space in front of it
stays with the next one. -/
def cut (before : List Element) (e : Element) : List Element → List Element
  | [] => before
  | next :: after => before ++ { next with lead := e.lead ++ next.lead } :: after

theorem means_cut {before after : List Element} {e : Element}
    {left right : List Json} (space : blank e.lead = true)
    (leftMeans : List.Forall₂ Means before left)
    (rightMeans : List.Forall₂ Means after right) :
    List.Forall₂ Means (cut before e after) (left ++ right) := by
  cases rightMeans with
  | nil =>
      rw [List.append_nil]
      exact leftMeans
  | cons meant others =>
      exact List.rel_append leftMeans
        (.cons ⟨blank_append.mpr ⟨space, meant.lead⟩, meant.trail, meant.value⟩
          others)

end Element

/-- A text whose three parts are what stands before, in and behind an element
of an array. -/
inductive ElementAt (left : List Json) (value : Json) (right : List Json) :
    Text → Text → Text → Prop
  | place {before after : List Element} {e : Element} :
      List.Forall₂ Element.Means before left → e.Means value →
      List.Forall₂ Element.Means after right →
      ElementAt left value right ('[' :: (Element.front before ++ e.lead))
        e.text (e.trail ++ (Element.more after ++ [']']))

variable {value : Json}

theorem ElementAt.derives {left right : List Json} {before text behind : Text}
    (place : ElementAt left value right before text behind) :
    Derives .value (before ++ (text ++ behind))
      (.array (left ++ value :: right)) := by
  obtain ⟨leftMeans, meant, rightMeans⟩ := place
  have array := Element.derives_array
    (List.rel_append leftMeans (.cons meant rightMeans))
  rw [Element.inner_split] at array
  simpa [Element.render] using array

/-- Every element stands in the text. -/
theorem Derives.mem_elements {part : Part} {inner : Text} {tree : Json}
    (derives : Derives part inner tree) (isElements : part = .elements)
    (isArray : tree = .array values) (member : value ∈ values) :
    ∃ early text late,
      inner = early ++ (text ++ late) ∧ Derives .value text value := by
  induction derives generalizing values with
  | @element lead text trail _ _ derives _ _ =>
      rw [← Json.array.inj isArray] at member
      rw [List.mem_singleton.mp member]
      exact ⟨lead, text, trail, rfl, derives⟩
  | @elements lead text trail rest _ _ _ derives _ _ _ induction =>
      rw [← Json.array.inj isArray] at member
      rcases List.mem_cons.mp member with rfl | later
      · exact ⟨lead, text, trail ++ ',' :: rest, rfl, derives⟩
      · obtain ⟨early, found, late, split, means⟩ := induction rfl rfl later
        refine ⟨lead ++ (text ++ (trail ++ ',' :: early)), found, late, ?_,
          means⟩
        rw [split]
        simp
  | _ => cases isElements

theorem Derives.mem_array {val : Text}
    (derives : Derives .value val (.array values)) (member : value ∈ values) :
    ∃ early text late,
      val = early ++ (text ++ late) ∧ Derives .value text value := by
  generalize array : Json.array values = tree at derives
  cases derives with
  | noElements _ =>
      rw [Json.array.inj array] at member
      cases member
  | array derives =>
      obtain ⟨early, text, late, split, means⟩ :=
        derives.mem_elements rfl array.symm member
      refine ⟨'[' :: early, text, late ++ [']'], ?_, means⟩
      rw [split]
      simp
  | _ => cases array

theorem Derives.snoc_element {part : Part} {inner : Text} {tree : Json}
    (derives : Derives part inner tree) (isElements : part = .elements)
    (isArray : tree = .array values) {text : Text}
    (new : Derives .value text value) :
    Derives .elements (inner ++ ',' :: text) (.array (values ++ [value])) := by
  have last : Derives .elements text (.array [value]) := by
    have alone := @Derives.element [] text [] value rfl new rfl
    rw [List.append_nil] at alone
    exact alone
  induction derives generalizing values with
  | element lead first trail _ =>
      rw [← Json.array.inj isArray]
      simpa using Derives.elements lead first trail last
  | elements lead first trail _ _ induction =>
      rw [← Json.array.inj isArray]
      simpa using Derives.elements lead first trail (induction rfl rfl)
  | _ => cases isElements

end JsonText
