import Hnc.Lib.JsonText
import Mathlib.Data.List.Forall2

/-!
# The grammar of JSON

The productions of the standard, with the value that a text stands for.  Numbers
and strings are kept as they are written.  A value, the elements of an array and
the members of an object are derived by one relation.
-/

namespace JsonText

open Posix

inductive Json where
  | null
  | bool (b : Bool)
  | number (text : Text)
  | string (body : Text)
  | array (elements : List Json)
  | object (members : List (Text × Json))

/-- Equal up to the order of members: the least congruence in which the members
of an object may be permuted. -/
inductive Json.Alike : Json → Json → Prop where
  | refl (value : Json) : Alike value value
  | trans {left middle right : Json} : Alike left middle →
      Alike middle right → Alike left right
  | perm {left right : List (Text × Json)} : left.Perm right →
      Alike (.object left) (.object right)
  | member {before after : List (Text × Json)} {name : Text}
      {left right : Json} : Alike left right →
      Alike (.object (before ++ (name, left) :: after))
        (.object (before ++ (name, right) :: after))
  | element {before after : List Json} {left right : Json} :
      Alike left right →
      Alike (.array (before ++ left :: after))
        (.array (before ++ right :: after))

/-- What is like an object is an object with the same names. -/
theorem Json.Alike.names {left right : Json} (alike : left.Alike right)
    {members : List (Text × Json)} (isObject : left = .object members) :
    ∃ others, right = .object others ∧
      (members.map Prod.fst).Perm (others.map Prod.fst) := by
  induction alike generalizing members with
  | refl => exact ⟨members, isObject, .refl _⟩
  | trans _ _ first second =>
      obtain ⟨middle, isMiddle, firstNames⟩ := first isObject
      obtain ⟨others, isOthers, secondNames⟩ := second isMiddle
      exact ⟨others, isOthers, firstNames.trans secondNames⟩
  | perm moved =>
      cases isObject
      exact ⟨_, rfl, moved.map Prod.fst⟩
  | member _ _ =>
      cases isObject
      refine ⟨_, rfl, ?_⟩
      simp
  | element _ _ => cases isObject

def hexDigits : Text := "0123456789abcdefABCDEF".toList

/-- The characters of a string between its quotes. -/
inductive Chars : Text → Prop where
  | nil : Chars []
  | unescaped {c : Char} {rest : Text} : ' '.toNat ≤ c.toNat → c ≠ '"' →
      c ≠ '\\' → Chars rest → Chars (c :: rest)
  | escape {e : Char} {rest : Text} : e ∈ "\"\\/bfnrt".toList → Chars rest →
      Chars ('\\' :: e :: rest)
  | unicode {a b c d : Char} {rest : Text} : (∀ h ∈ [a, b, c, d],
      h ∈ hexDigits) → Chars rest → Chars ('\\' :: 'u' :: a :: b :: c :: d :: rest)

/-- One or more digits. -/
def Digits (text : Text) : Prop :=
  text ≠ [] ∧ text.all isDigit = true

inductive Integer : Text → Prop where
  | zero : Integer ['0']
  | digits {first : Char} {rest : Text} : first ≠ '0' →
      Digits (first :: rest) → Integer (first :: rest)

inductive Fraction : Text → Prop where
  | absent : Fraction []
  | digits {text : Text} : Digits text → Fraction ('.' :: text)

inductive Exponent : Text → Prop where
  | absent : Exponent []
  | digits {e : Char} {sign text : Text} : e = 'e' ∨ e = 'E' →
      sign = [] ∨ sign = ['+'] ∨ sign = ['-'] → Digits text →
      Exponent (e :: (sign ++ text))

inductive Number : Text → Prop where
  | parts {sign whole fraction exponent : Text} : sign = [] ∨ sign = ['-'] →
      Integer whole → Fraction fraction → Exponent exponent →
      Number (sign ++ (whole ++ (fraction ++ exponent)))

/-- The white space of a member. -/
structure Member.Spaced (m : Member) : Prop where
  lead : blank m.lead = true
  gap : blank m.gap = true
  pad : blank m.pad = true
  trail : blank m.trail = true

/-- The nonterminals. -/
inductive Part where
  | value
  | elements
  | members
deriving DecidableEq

inductive Derives : Part → Text → Json → Prop where
  | wordNull : Derives .value "null".toList .null
  | wordTrue : Derives .value "true".toList (.bool true)
  | wordFalse : Derives .value "false".toList (.bool false)
  | number {text : Text} : Number text → Derives .value text (.number text)
  | string {body : Text} : Chars body →
      Derives .value (quote body) (.string body)
  | noElements {space : Text} : blank space = true →
      Derives .value ('[' :: space ++ [']']) (.array [])
  | array {inner : Text} {elements : List Json} :
      Derives .elements inner (.array elements) →
      Derives .value ('[' :: inner ++ [']']) (.array elements)
  | noMembers {space : Text} : blank space = true →
      Derives .value ('{' :: space ++ ['}']) (.object [])
  | object {inner : Text} {members : List (Text × Json)} :
      Derives .members inner (.object members) →
      Derives .value ('{' :: inner ++ ['}']) (.object members)
  | element {lead text trail : Text} {value : Json} :
      blank lead = true → Derives .value text value → blank trail = true →
      Derives .elements (lead ++ (text ++ trail)) (.array [value])
  | elements {lead text trail rest : Text} {value : Json}
      {values : List Json} :
      blank lead = true → Derives .value text value → blank trail = true →
      Derives .elements rest (.array values) →
      Derives .elements (lead ++ (text ++ (trail ++ ',' :: rest)))
        (.array (value :: values))
  | member {m : Member} {value : Json} :
      m.Spaced → Chars m.key → Derives .value m.val value →
      Derives .members m.render (.object [(m.key, value)])
  | members {m : Member} {rest : Text} {value : Json}
      {values : List (Text × Json)} :
      m.Spaced → Chars m.key → Derives .value m.val value →
      Derives .members rest (.object values) →
      Derives .members (m.render ++ ',' :: rest)
        (.object ((m.key, value) :: values))

/-- A text is a value with white space around it. -/
def Denotes (text : Text) (value : Json) : Prop :=
  ∃ before middle after, text = before ++ (middle ++ after) ∧
    blank before = true ∧ Derives .value middle value ∧ blank after = true

def IsJson (text : Text) : Prop :=
  ∃ value, Denotes text value

/-! ### The shape of what is derived -/

variable {text : Text}

theorem Chars.body (chars : Chars text) : Body false text := by
  induction chars with
  | nil => exact .done
  | unescaped _ quote slash _ induction =>
      exact .plain slash quote induction
  | escape _ _ induction => exact .slash (.escaped _ induction)
  | @unicode a b c d rest hex _ induction =>
      have solid : hexDigits.all (fun h => h != '\\' && h != '"') = true := by
        decide
      have plain : ∀ h ∈ [a, b, c, d], h ≠ '\\' ∧ h ≠ '"' := by
        intro h member
        simpa using List.all_eq_true.mp solid h (hex h member)
      simp only [List.forall_mem_cons] at plain
      obtain ⟨first, second, third, fourth, _⟩ := plain
      exact .slash (.escaped _ (.plain first.1 first.2 (.plain second.1 second.2
        (.plain third.1 third.2 (.plain fourth.1 fourth.2 induction)))))

/-- A text without escapes, quotes and control characters. -/
def escapeFree (text : Text) : Bool :=
  text.all fun c => c != '\\' && c != '"' && !isControl c

theorem chars_of_escapeFree (free : escapeFree text = true) : Chars text := by
  induction text with
  | nil => exact .nil
  | cons c rest induction =>
      simp only [escapeFree, List.all_cons, Bool.and_eq_true, bne_iff_ne,
        Bool.not_eq_true', isControl, decide_eq_false_iff_not, not_lt] at free
      obtain ⟨⟨⟨slash, quote⟩, visible⟩, others⟩ := free
      refine .unescaped visible quote slash (induction ?_)
      simpa [escapeFree, isControl] using others

theorem plainKey_of_escapeFree (free : escapeFree text = true) :
    plainKey text = true := by
  rw [escapeFree, List.all_eq_true] at free
  rw [plainKey, List.all_eq_true]
  intro c member
  have char := free c member
  simp only [Bool.and_eq_true] at char ⊢
  exact ⟨char.1.2, char.1.1⟩

theorem plainKey_of_chars {key : Text} (chars : Chars key)
    (plain : '\\' ∉ key) : plainKey key = true := by
  induction chars with
  | nil => rfl
  | unescaped _ quote slash _ induction =>
      simp only [List.mem_cons, not_or] at plain
      have rest := induction plain.2
      simp only [plainKey] at rest ⊢
      simp [quote, slash, rest]
  | escape _ _ _ => simp at plain
  | unicode _ _ _ => simp at plain

theorem assign_of_escapeFree (free : escapeFree text = true) :
    assign text = text := by
  apply assign_of_no_backslash
  intro slash
  exact absurd (List.all_eq_true.mp free _ slash) (by decide)

theorem isAtomChar_of_isDigit {c : Char} (digit : isDigit c = true) :
    isAtomChar c = true :=
  isAtomChar_of_class digit (by decide)

theorem Digits.isAtomChar (digits : Digits text) :
    text.all isAtomChar = true := by
  rw [List.all_eq_true]
  intro c member
  exact isAtomChar_of_isDigit (List.all_eq_true.mp digits.2 c member)

theorem Number.isAtomChar (number : Number text) :
    text.all isAtomChar = true := by
  obtain ⟨sign, whole, fraction, exponent⟩ := number
  have signChars := sign
  simp only [List.all_append, Bool.and_eq_true]
  refine ⟨?_, ?_, ?_, ?_⟩
  · rcases signChars with rfl | rfl <;> decide
  · cases whole with
    | zero => decide
    | digits _ digits => exact digits.isAtomChar
  · cases fraction with
    | absent => rfl
    | digits digits =>
        rw [List.all_cons, digits.isAtomChar]
        decide
  · cases exponent with
    | absent => rfl
    | digits letter exponentSign digits =>
        rw [List.all_cons, List.all_append, digits.isAtomChar]
        rcases letter with rfl | rfl <;>
          rcases exponentSign with rfl | rfl | rfl <;> decide

theorem Number.ne_nil (number : Number text) : text ≠ [] := by
  obtain ⟨_, whole, _, _⟩ := number
  cases whole with
  | zero => simp
  | digits _ _ => simp

theorem Number.head (number : Number text) :
    ∃ c rest, text = c :: rest ∧ (c = '-' ∨ isDigit c = true) := by
  obtain ⟨signed, whole, _, _⟩ := number
  rcases signed with rfl | rfl
  · cases whole with
    | zero => exact ⟨'0', _, rfl, by decide⟩
    | digits _ digits =>
        have all := digits.2
        simp only [List.all_cons, Bool.and_eq_true] at all
        exact ⟨_, _, rfl, .inr all.1⟩
  · exact ⟨'-', _, rfl, .inl rfl⟩

/-- What a scanner that counts brackets sees of a part. -/
def Part.Shape : Part → Text → Prop
  | value => Val
  | elements | members => Bal

variable {m : Member}

theorem Member.Spaced.shaped (spaced : m.Spaced) (key : Chars m.key)
    (val : Val m.val) : m.Shaped :=
  ⟨spaced.lead, key.body, spaced.gap, spaced.pad, val, spaced.trail⟩

variable {value : Json}

theorem Derives.shape {part : Part} (derives : Derives part text value) :
    part.Shape text := by
  have comma : ∀ {rest : Text}, Bal rest → Bal (',' :: rest) :=
    fun rest => .plain (by decide) rest
  induction derives with
  | wordNull | wordTrue | wordFalse => exact .atom (by decide) (by decide)
  | number number => exact .atom number.ne_nil number.isAtomChar
  | string chars => exact .str chars.body
  | noElements space => exact .square (bal_of_blank space)
  | array _ induction => exact .square induction
  | noMembers space => exact .curly (bal_of_blank space)
  | object _ induction => exact .curly induction
  | element lead _ trail induction =>
      exact (bal_of_blank lead).append
        (Val.bal induction |>.append (bal_of_blank trail))
  | elements lead _ trail _ first rest =>
      exact (bal_of_blank lead).append (Val.bal first |>.append
        ((bal_of_blank trail).append (comma rest)))
  | member spaced key _ induction => exact (spaced.shaped key induction).bal_render
  | members spaced key _ _ first rest =>
      exact (spaced.shaped key first).bal_render.append (comma rest)

theorem Derives.val (derives : Derives .value text value) : Val text :=
  derives.shape

variable {inner : Text}

/-- White space in front of the elements is that of the first one. -/
theorem Derives.lead_elements {space : Text} {elements : List Json}
    (spaceBlank : blank space = true)
    (derives : Derives .elements inner (.array elements)) :
    Derives .elements (space ++ inner) (.array elements) := by
  have both : ∀ {lead}, blank lead = true → blank (space ++ lead) = true :=
    fun lead => blank_append.mpr ⟨spaceBlank, lead⟩
  cases derives with
  | element lead value trail =>
      simpa using Derives.element (both lead) value trail
  | elements lead value trail rest =>
      simpa using Derives.elements (both lead) value trail rest

theorem Derives.lead_members {space : Text} {members : List (Text × Json)}
    (spaceBlank : blank space = true)
    (derives : Derives .members inner (.object members)) :
    Derives .members (space ++ inner) (.object members) := by
  have both : ∀ {m : Member}, m.Spaced →
      Member.Spaced { m with lead := space ++ m.lead } :=
    fun spaced => ⟨blank_append.mpr ⟨spaceBlank, spaced.lead⟩, spaced.gap,
      spaced.pad, spaced.trail⟩
  cases derives with
  | member spaced key value =>
      simpa [Member.render, Member.fromKey, Member.fromValue] using
        Derives.member (both spaced) key value
  | members spaced key value rest =>
      simpa [Member.render, Member.fromKey, Member.fromValue] using
        Derives.members (both spaced) key value rest

/-- A member and what it stands for. -/
structure Member.Means (m : Member) (entry : Text × Json) : Prop where
  spaced : m.Spaced
  key : Chars m.key
  name : entry.1 = m.key
  value : Derives .value m.val entry.2

variable {entry : Text × Json}

theorem Member.Means.shaped (means : m.Means entry) : m.Shaped :=
  means.spaced.shaped means.key means.value.val

variable {members : List Member} {entries : List (Text × Json)}

theorem exists_meaning (means : List.Forall₂ Member.Means members entries)
    (member : m ∈ members) : ∃ entry, entry ∈ entries ∧ m.Means entry := by
  induction means with
  | nil => cases member
  | cons first _ induction =>
      rcases List.mem_cons.mp member with rfl | later
      · exact ⟨_, by simp, first⟩
      · obtain ⟨entry, listed, meant⟩ := induction later
        exact ⟨entry, by simp [listed], meant⟩

/-- The members around the one that stands for an entry. -/
theorem split_members {before after : List (Text × Json)}
    (means : List.Forall₂ Member.Means members (before ++ entry :: after)) :
    ∃ left m right, members = left ++ m :: right ∧
      List.Forall₂ Member.Means left before ∧ m.Means entry ∧
      List.Forall₂ Member.Means right after := by
  have leftMeans := List.forall₂_take_append _ _ _ means
  have restMeans := List.forall₂_drop_append _ _ _ means
  obtain ⟨m, right, meant, rightMeans, rest⟩ :=
    List.forall₂_cons_right_iff.mp restMeans
  refine ⟨_, m, right, ?_, leftMeans, meant, rightMeans⟩
  rw [← rest]
  exact (List.take_append_drop _ _).symm

theorem split_entries {before after : List Member}
    (means : List.Forall₂ Member.Means (before ++ m :: after) entries) :
    ∃ left entry right, entries = left ++ entry :: right ∧
      List.Forall₂ Member.Means before left ∧ m.Means entry ∧
      List.Forall₂ Member.Means after right := by
  induction before generalizing entries with
  | nil =>
      obtain _ | ⟨first, rest⟩ := means
      exact ⟨[], _, _, rfl, .nil, first, rest⟩
  | cons other before induction =>
      obtain _ | ⟨first, rest⟩ := means
      obtain ⟨left, entry, right, rfl, leftMeans, meant, rightMeans⟩ :=
        induction rest
      exact ⟨_ :: left, entry, right, rfl, .cons first leftMeans, meant,
        rightMeans⟩

theorem map_name_of_means (means : List.Forall₂ Member.Means members entries) :
    entries.map Prod.fst = members.map Member.key := by
  induction means with
  | nil => rfl
  | cons first _ induction =>
      rw [List.map_cons, List.map_cons, first.name, induction]

theorem means_cut {before after : List Member} {m : Member} {hollow : Text}
    {left right : List (Text × Json)} (space : m.Spaced)
    (leftMeans : List.Forall₂ Member.Means before left)
    (rightMeans : List.Forall₂ Member.Means after right) :
    List.Forall₂ Member.Means (cut before m after hollow).members
      (left ++ right) := by
  cases rightMeans with
  | @cons next entry after right meant others =>
      have spaced := meant.spaced
      have joined : Member.Means { next with lead := m.lead ++ next.lead }
          entry :=
        ⟨⟨blank_append.mpr ⟨space.lead, spaced.lead⟩, spaced.gap, spaced.pad,
          spaced.trail⟩, meant.key, meant.name, meant.value⟩
      exact List.rel_append leftMeans (.cons joined others)
  | nil =>
      rcases List.eq_nil_or_concat before with rfl | ⟨init, last, rfl⟩
      · cases leftMeans
        exact .nil
      · rw [List.concat_eq_append] at leftMeans
        obtain ⟨others, entry, none, rfl, initMeans, meant, noneMeans⟩ :=
          split_entries leftMeans
        cases noneMeans
        have spaced := meant.spaced
        have joined : Member.Means { last with trail := last.trail ++ m.trail }
            entry :=
          ⟨⟨spaced.lead, spaced.gap, spaced.pad,
            blank_append.mpr ⟨spaced.trail, space.trail⟩⟩, meant.key,
            meant.name, meant.value⟩
        have all := List.rel_append initMeans (List.Forall₂.cons joined .nil)
        simpa [cut] using all

theorem hollow_cut {before after : List Member} {hollow : Text} (space : m.Spaced)
    (inside : blank hollow = true) :
    blank (cut before m after hollow).hollow = true := by
  cases after with
  | cons next rest => exact inside
  | nil =>
      rcases List.eq_nil_or_concat before with rfl | ⟨init, last, rfl⟩
      · exact blank_append.mpr ⟨space.lead, space.trail⟩
      · simpa [cut] using inside

theorem derives_members (hollow : Text)
    (means : List.Forall₂ Member.Means (m :: members) entries) :
    Derives .members (Obj.mk (m :: members) hollow).inner (.object entries) := by
  induction members generalizing m entries with
  | nil =>
      obtain _ | ⟨first, rest⟩ := means
      cases rest
      rename_i entry
      obtain ⟨name, value⟩ := entry
      have named : name = m.key := first.name
      rw [named]
      simpa [Obj.inner, more] using
        Derives.member first.spaced first.key first.value
  | cons next members induction =>
      obtain _ | ⟨first, rest⟩ := means
      rename_i entry others
      obtain ⟨name, value⟩ := entry
      have named : name = m.key := first.name
      rw [named]
      exact Derives.members first.spaced first.key first.value (induction rest)

theorem derives_object {o : Obj} {entries : List (Text × Json)}
    (space : blank o.hollow = true)
    (means : List.Forall₂ Member.Means o.members entries) :
    Derives .value o.render (.object entries) := by
  obtain ⟨members, hollow⟩ := o
  cases members with
  | nil =>
      cases means
      exact Derives.noMembers space
  | cons m members => exact Derives.object (derives_members hollow means)

theorem Derives.members_inv {part : Part} {tree : Json}
    (derives : Derives part inner tree) (isMembers : part = .members) :
    ∃ m members entries, tree = .object entries ∧
      inner = (Obj.mk (m :: members) []).inner ∧
      List.Forall₂ Member.Means (m :: members) entries := by
  induction derives with
  | member spaced key value =>
      refine ⟨_, [], _, rfl, ?_, .cons ⟨spaced, key, rfl, value⟩ .nil⟩
      simp [Obj.inner, more]
  | members spaced key value _ _ induction =>
      obtain ⟨m, members, entries, isObject, split, means⟩ := induction rfl
      cases isObject
      refine ⟨_, m :: members, _, rfl, ?_,
        .cons ⟨spaced, key, rfl, value⟩ means⟩
      rw [split, inner_cons_cons]
  | _ => cases isMembers

theorem Derives.object_inv {tree : Json} (derives : Derives .value text tree)
    (opens : text.head? = some '{') :
    ∃ (o : Obj) (entries : List (Text × Json)), text = o.render ∧
      tree = .object entries ∧ blank o.hollow = true ∧
      List.Forall₂ Member.Means o.members entries := by
  cases derives with
  | noMembers space => exact ⟨⟨[], _⟩, [], rfl, rfl, space, .nil⟩
  | object derives =>
      obtain ⟨m, members, entries, isObject, split, means⟩ :=
        derives.members_inv rfl
      cases isObject
      exact ⟨⟨m :: members, []⟩, _, by rw [split]; rfl, rfl, rfl, means⟩
  | number number =>
      obtain ⟨c, rest, rfl, first⟩ := number.head
      cases opens
      rcases first with brace | digit
      · cases brace
      · exact absurd digit (by decide)
  | _ =>
      cases opens

theorem Derives.object_members (derives : Derives .value text (.object entries)) :
    ∃ o : Obj, text = o.render ∧ blank o.hollow = true ∧
      List.Forall₂ Member.Means o.members entries := by
  have opens : text.head? = some '{' := by
    cases derives <;> rfl
  obtain ⟨o, others, text, same, space, means⟩ := derives.object_inv opens
  cases same
  exact ⟨o, text, space, means⟩

/-- White space behind a text makes no difference. -/
theorem denotes_append_blank {tail : Text} (space : blank tail = true) :
    Denotes (text ++ tail) value ↔ Denotes text value := by
  constructor
  · rintro ⟨before, middle, after, split, beforeBlank, derives, afterBlank⟩
    rw [← List.append_assoc] at split
    rcases List.append_eq_append_iff.mp split with
      ⟨inside, whole, tailSplit⟩ | ⟨inside, whole, afterSplit⟩
    · -- the value would reach into the white space at the end
      have empty : inside = [] := by
        obtain ⟨init, c, rfl, solid⟩ := derives.val.last
        rcases List.eq_nil_or_concat inside with rfl | ⟨start, last, rfl⟩
        · rfl
        · have same : last = c := by
            simpa using congrArg List.getLast? whole.symm
          rw [tailSplit, List.concat_eq_append, blank_append, blank_append]
            at space
          have white := space.1.2
          rw [same] at white
          simp [blank, solid] at white
      rw [empty, List.append_nil] at whole
      exact ⟨before, middle, [], by simp [← whole], beforeBlank, derives, rfl⟩
    · rw [afterSplit] at afterBlank
      exact ⟨before, middle, inside, by simp [whole], beforeBlank, derives,
        (blank_append.mp afterBlank).1⟩
  · rintro ⟨before, middle, after, rfl, beforeBlank, derives, afterBlank⟩
    exact ⟨before, middle, after ++ tail, by simp, beforeBlank, derives,
      blank_append.mpr ⟨afterBlank, space⟩⟩

theorem denotes_append_newline :
    Denotes (text ++ ['\n']) value ↔ Denotes text value :=
  denotes_append_blank (by decide)

/-- A member whose text is that of a member with a meaning. -/
def Member.Reads (m : Member) (entry : Text × Json) : Prop :=
  ∃ same : Member, same.render = m.render ∧ same.Means entry

theorem Member.Means.reads (means : m.Means entry) : m.Reads entry :=
  ⟨m, rfl, means⟩

/-- White space around a value belongs to the member. -/
theorem reads_of_denotes (spaced : m.Spaced) (key : Chars m.key)
    (denotes : Denotes m.val value) : m.Reads (m.key, value) := by
  obtain ⟨before, middle, after, split, beforeBlank, derives, afterBlank⟩ :=
    denotes
  refine ⟨⟨m.lead, m.key, m.gap, m.pad ++ before, middle, after ++ m.trail⟩,
    ?_, ⟨spaced.lead, spaced.gap, ?_, ?_⟩, key, rfl, derives⟩
  · simp [Member.render, Member.fromKey, Member.fromValue, split]
  · exact blank_append.mpr ⟨spaced.pad, beforeBlank⟩
  · exact blank_append.mpr ⟨afterBlank, spaced.trail⟩

theorem derives_of_reads {o : Obj} (space : blank o.hollow = true)
    (reads : List.Forall₂ Member.Reads o.members entries) :
    Derives .value o.render (.object entries) := by
  obtain ⟨members, hollow⟩ := o
  obtain ⟨same, renders, means⟩ : ∃ same : List Member,
      same.map Member.render = members.map Member.render ∧
      List.Forall₂ Member.Means same entries := by
    clear space
    simp only at reads
    induction reads with
    | nil => exact ⟨[], rfl, .nil⟩
    | cons first _ induction =>
        obtain ⟨m, render, meant⟩ := first
        obtain ⟨others, renders, means⟩ := induction
        exact ⟨m :: others, by simp [render, renders], .cons meant means⟩
  have text : (Obj.mk same hollow).render = (Obj.mk members hollow).render := by
    have more : ∀ list : List Member, JsonText.more list =
        (list.map Member.render).flatMap fun text => ',' :: text := by
      intro list
      rw [JsonText.more, List.flatMap_map]
    cases same with
    | nil =>
        cases members with
        | nil => rfl
        | cons m rest => cases renders
    | cons m rest =>
        cases members with
        | nil => cases renders
        | cons m' rest' =>
            obtain ⟨first, others⟩ := List.cons.inj renders
            simp only [Obj.render, Obj.inner, more, first, others]
  rw [← text]
  exact derives_object space means

theorem isDigit_of_mem_toDigits {n : Nat} {c : Char}
    (member : c ∈ Nat.toDigits 10 n) : isDigit c = true := by
  have digit := Nat.isDigit_of_mem_toDigits (by decide) (by decide) member
  simpa [isDigit, Char.isDigit, UInt32.le_iff_toNat_le] using digit

theorem toDigits_head {n : Nat} (positive : 0 < n) :
    (Nat.toDigits 10 n).head? ≠ some '0' := by
  induction n using Nat.strongRecOn with
  | ind n induction =>
      rw [Nat.toDigits_eq_if (by decide)]
      split
      · rename_i small
        have digits : ∀ d : Fin 10, 0 < d.val → d.val.digitChar ≠ '0' := by
          decide
        simpa using digits ⟨n, small⟩ positive
      · have shorter := induction (n / 10) (by omega) (by omega)
        cases text : Nat.toDigits 10 (n / 10) with
        | nil => exact absurd text Nat.toDigits_ne_nil
        | cons first rest =>
            rw [text] at shorter
            simpa using shorter

theorem integer_toDigits (n : Nat) : Integer (Nat.toDigits 10 n) := by
  rcases Nat.eq_zero_or_pos n with rfl | positive
  · exact .zero
  · have leading := toDigits_head positive
    have all : (Nat.toDigits 10 n).all isDigit = true :=
      List.all_eq_true.mpr fun _ => isDigit_of_mem_toDigits
    cases text : Nat.toDigits 10 n with
    | nil => exact absurd text Nat.toDigits_ne_nil
    | cons first rest =>
        rw [text] at leading all
        exact .digits (by simpa using leading) ⟨by simp, all⟩

end JsonText
