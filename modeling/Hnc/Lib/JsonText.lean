import Hnc.Lib.Posix

/-!
# The layout of JSON texts

An object is kept as the list of its members, each with the white space around
its parts, so that rendering gives back the text character by character.  A
member value is known only by its shape: a string, a bracketed text with
balanced content, or a bare word.  That is all a scanner relies on that counts
brackets and skips strings.
-/

namespace JsonText

open Posix

/-- The characters of a string between its quotes, from inside or outside of an
escape on: no quote that is not escaped, and no escape left open. -/
inductive Body : Bool → Text → Prop where
  | done : Body false []
  | slash {rest : Text} : Body true rest → Body false ('\\' :: rest)
  | escaped {rest : Text} (c : Char) : Body false rest → Body true (c :: rest)
  | plain {c : Char} {rest : Text} : c ≠ '\\' → c ≠ '"' → Body false rest →
      Body false (c :: rest)

def isPlain (c : Char) : Bool :=
  c != '"' && c != '{' && c != '}' && c != '[' && c != ']'

/-- Text in which the brackets outside strings match. -/
inductive Bal : Text → Prop where
  | nil : Bal []
  | plain {c : Char} {rest : Text} : isPlain c = true → Bal rest →
      Bal (c :: rest)
  | str {body rest : Text} : Body false body → Bal rest →
      Bal ('"' :: body ++ '"' :: rest)
  | curly {inner rest : Text} : Bal inner → Bal rest →
      Bal ('{' :: inner ++ '}' :: rest)
  | square {inner rest : Text} : Bal inner → Bal rest →
      Bal ('[' :: inner ++ ']' :: rest)

/-- A character of a number or of a word such as `true`. -/
def isAtomChar (c : Char) : Bool :=
  isPlain c && c != ',' && c != ':' && !isWs c

/-- The shapes of a value. -/
inductive Val : Text → Prop where
  | str {body : Text} : Body false body → Val ('"' :: body ++ ['"'])
  | curly {inner : Text} : Bal inner → Val ('{' :: inner ++ ['}'])
  | square {inner : Text} : Bal inner → Val ('[' :: inner ++ [']'])
  | atom {text : Text} : text ≠ [] → text.all isAtomChar = true → Val text

def blank (text : Text) : Bool :=
  text.all isWs

/-- A key that is written as it is meant. -/
def plainKey (key : Text) : Bool :=
  key.all fun c => c != '"' && c != '\\'

/-- A member with the white space around its parts. -/
structure Member where
  lead : Text
  key : Text
  gap : Text
  pad : Text
  val : Text
  trail : Text
deriving DecidableEq

structure Obj where
  members : List Member
  hollow : Text
deriving DecidableEq

def quote (body : Text) : Text :=
  '"' :: body ++ ['"']

namespace Member

/-- The text of a member from its value on. -/
def fromValue (m : Member) : Text :=
  m.val ++ m.trail

/-- The text of a member from its key on. -/
def fromKey (m : Member) : Text :=
  quote m.key ++ m.gap ++ ':' :: m.pad ++ m.fromValue

def render (m : Member) : Text :=
  m.lead ++ m.fromKey

structure Wf (m : Member) : Prop where
  lead : blank m.lead = true
  key : plainKey m.key = true
  gap : blank m.gap = true
  pad : blank m.pad = true
  val : Val m.val
  trail : blank m.trail = true

/-- A member with any string for its key. -/
structure Shaped (m : Member) : Prop where
  lead : blank m.lead = true
  key : Body false m.key
  gap : blank m.gap = true
  pad : blank m.pad = true
  val : Val m.val
  trail : blank m.trail = true

end Member

/-- Members behind the first one, each with its comma. -/
def more (members : List Member) : Text :=
  members.flatMap fun m => ',' :: m.render

/-- The text behind a member: the other members, the closing brace and what
stands behind the object. -/
def closing (after : List Member) (rest : Text) : Text :=
  more after ++ '}' :: rest

/-- The first member with a key, and the members behind it. -/
def findMember (target : Text) : List Member → Option (Member × List Member)
  | [] => none
  | m :: after =>
      if m.key = target then some (m, after) else findMember target after

namespace Obj

/-- The text between the braces. -/
def inner (o : Obj) : Text :=
  match o.members with
  | [] => o.hollow
  | m :: rest => m.render ++ more rest

def render (o : Obj) : Text :=
  '{' :: o.inner ++ ['}']

structure Wf (o : Obj) : Prop where
  members : ∀ m ∈ o.members, m.Wf
  hollow : blank o.hollow = true

structure Shaped (o : Obj) : Prop where
  members : ∀ m ∈ o.members, m.Shaped
  hollow : blank o.hollow = true

end Obj

/-- What may stand behind a value and its white space. -/
def Follows (rest : Text) : Prop :=
  rest = [] ∨ ∃ c tail, rest = c :: tail ∧ (c = ',' ∨ c = '}' ∨ c = ']')

/-! ### White space, strings and balanced text -/

variable {c : Char}

theorem isAtomChar_of_class {p : Char → Bool} (char : p c = true)
    (others : ['"', '\x7b', '\x7d', '[', ']', ',', ':', ' ', '\t', '\r', '\n'].all (fun d => !p d) = true) :
    isAtomChar c = true := by
  have away : ∀ d ∈ ['"', '\x7b', '\x7d', '[', ']', ',', ':', ' ', '\t', '\r',
      '\n'], c ≠ d := by
    rintro d member rfl
    have hidden := List.all_eq_true.mp others c member
    rw [char] at hidden
    cases hidden
  simp only [List.forall_mem_cons] at away
  obtain ⟨a1, a2, a3, a4, a5, a6, a7, a8, a9, a10, a11, _⟩ := away
  simp [isAtomChar, isPlain, isWs, a1, a2, a3, a4, a5, a6, a7, a8, a9, a10, a11]

theorem blank_append {left right : Text} :
    blank (left ++ right) = true ↔ blank left = true ∧ blank right = true := by
  simp [blank]

theorem isPlain_of_isWs (space : isWs c = true) : isPlain c = true := by
  simp only [isWs, Bool.or_eq_true, beq_iff_eq] at space
  rcases space with ((rfl | rfl) | rfl) | rfl <;> decide

theorem dropWhile_isWs_blank {spaces : Text} (rest : Text)
    (space : blank spaces = true) :
    (spaces ++ rest).dropWhile isWs = rest.dropWhile isWs := by
  induction spaces with
  | nil => rfl
  | cons c spaces induction =>
      simp only [blank, List.all_cons, Bool.and_eq_true] at space
      simp [space.1, induction space.2]

theorem dropWhile_isWs_cons (rest : Text) (solid : isWs c = false) :
    (c :: rest).dropWhile isWs = c :: rest := by
  simp [solid]

theorem Bal.append {left right : Text} (balanced : Bal left)
    (rest : Bal right) : Bal (left ++ right) := by
  induction balanced with
  | nil => exact rest
  | plain plain _ induction => exact .plain plain induction
  | str body _ induction => simpa using Bal.str body induction
  | curly inner _ _ induction => simpa using Bal.curly inner induction
  | square inner _ _ induction => simpa using Bal.square inner induction

theorem bal_of_plain {text : Text} (plain : text.all isPlain = true) :
    Bal text := by
  induction text with
  | nil => exact .nil
  | cons c rest induction =>
      simp only [List.all_cons, Bool.and_eq_true] at plain
      exact .plain plain.1 (induction plain.2)

theorem bal_of_blank {text : Text} (space : blank text = true) : Bal text := by
  apply bal_of_plain
  simp only [blank, List.all_eq_true] at space ⊢
  intro c member
  exact isPlain_of_isWs (space c member)

variable {key : Text}

theorem body_of_plainKey (plain : plainKey key = true) : Body false key := by
  induction key with
  | nil => exact .done
  | cons c rest induction =>
      simp only [plainKey, List.all_cons, Bool.and_eq_true, bne_iff_ne] at plain
      exact .plain plain.1.2 plain.1.1 (induction plain.2)

theorem bal_quote {body : Text} (ok : Body false body) :
    Bal (quote body) := by
  simpa [quote] using Bal.str ok Bal.nil

theorem Val.bal {text : Text} (value : Val text) : Bal text := by
  cases value with
  | str body => simpa using Bal.str body Bal.nil
  | curly inner => simpa using Bal.curly inner Bal.nil
  | square inner => simpa using Bal.square inner Bal.nil
  | atom _ chars =>
      apply bal_of_plain
      simp only [List.all_eq_true, isAtomChar, Bool.and_eq_true] at chars ⊢
      intro c member
      exact (chars c member).1.1.1

/-- A value starts with a character that is no white space. -/
theorem Val.head {text : Text} (value : Val text) :
    ∃ c rest, text = c :: rest ∧ isWs c = false := by
  cases value with
  | str _ => exact ⟨'"', _, rfl, by decide⟩
  | curly _ => exact ⟨'{', _, rfl, by decide⟩
  | square _ => exact ⟨'[', _, rfl, by decide⟩
  | atom nonempty chars =>
      cases text with
      | nil => exact absurd rfl nonempty
      | cons c rest =>
          refine ⟨c, rest, rfl, ?_⟩
          simp only [List.all_cons, isAtomChar, Bool.and_eq_true,
            Bool.not_eq_true'] at chars
          exact chars.1.2

/-- A value ends with a character that is no white space. -/
theorem Val.last {text : Text} (value : Val text) :
    ∃ init c, text = init ++ [c] ∧ isWs c = false := by
  cases value with
  | @str body _ => exact ⟨'"' :: body, '"', rfl, by decide⟩
  | @curly inner _ => exact ⟨'{' :: inner, '}', rfl, by decide⟩
  | @square inner _ => exact ⟨'[' :: inner, ']', rfl, by decide⟩
  | atom nonempty chars =>
      refine ⟨text.dropLast, text.getLast nonempty,
        (List.dropLast_concat_getLast nonempty).symm, ?_⟩
      have char := List.all_eq_true.mp chars _ (List.getLast_mem nonempty)
      simp only [isAtomChar, Bool.and_eq_true, Bool.not_eq_true'] at char
      exact char.2

theorem Val.dropWhile_isWs {text : Text} (value : Val text) (rest : Text) :
    (text ++ rest).dropWhile isWs = text ++ rest := by
  obtain ⟨c, tail, rfl, solid⟩ := value.head
  simp [solid]

theorem Val.trimWs_append {text trail : Text} (value : Val text)
    (space : blank trail = true) : trimWs (text ++ trail) = text := by
  obtain ⟨init, c, rfl, solid⟩ := value.last
  have reversed : blank trail.reverse = true := by
    simpa [blank] using space
  rw [trimWs, value.dropWhile_isWs, List.reverse_append,
    dropWhile_isWs_blank _ reversed]
  simp [solid]

variable {m : Member}

theorem Member.Wf.shaped (wf : m.Wf) : m.Shaped :=
  ⟨wf.lead, body_of_plainKey wf.key, wf.gap, wf.pad, wf.val, wf.trail⟩

variable {o : Obj}

theorem Obj.Wf.shaped (wf : o.Wf) : o.Shaped :=
  ⟨fun m member => (wf.members m member).shaped, wf.hollow⟩

theorem Member.Shaped.trimWs_fromValue (shaped : m.Shaped) :
    trimWs m.fromValue = m.val :=
  shaped.val.trimWs_append shaped.trail

theorem Member.fromKey_append (m : Member) (behind : Text) :
    m.fromKey ++ behind =
      '"' :: (m.key ++ '"' :: (m.gap ++ ':' :: (m.pad ++
        (m.fromValue ++ behind)))) := by
  simp [Member.fromKey, quote]

theorem Member.Shaped.bal_fromValue (shaped : m.Shaped) : Bal m.fromValue :=
  shaped.val.bal.append (bal_of_blank shaped.trail)

theorem Member.Shaped.bal_fromKey (shaped : m.Shaped) : Bal m.fromKey := by
  have key : Bal (quote m.key) := bal_quote shaped.key
  have colon : Bal (':' :: m.pad ++ m.fromValue) :=
    .plain (by decide) ((bal_of_blank shaped.pad).append shaped.bal_fromValue)
  simpa [Member.fromKey] using
    (key.append (bal_of_blank shaped.gap)).append colon

theorem Member.Shaped.bal_render (shaped : m.Shaped) : Bal m.render :=
  (bal_of_blank shaped.lead).append shaped.bal_fromKey

variable {members : List Member}

theorem bal_more (shaped : ∀ m ∈ members, m.Shaped) : Bal (more members) := by
  induction members with
  | nil => exact .nil
  | cons m rest induction =>
      have first : Bal (',' :: m.render) :=
        .plain (by decide) (shaped m (by simp)).bal_render
      exact first.append
        (induction fun other member => shaped other (by simp [member]))

theorem Obj.Shaped.bal_inner (shaped : o.Shaped) : Bal o.inner := by
  obtain ⟨members, hollow⟩ := o
  cases members with
  | nil => exact bal_of_blank shaped.hollow
  | cons m rest =>
      have first : Bal m.render := (shaped.members m (by simp)).bal_render
      exact first.append
        (bal_more fun other member => shaped.members other (by simp [member]))

theorem Obj.Shaped.val_render (shaped : o.Shaped) : Val o.render :=
  .curly shaped.bal_inner

theorem closing_cons (m : Member) (after : List Member) (rest : Text) :
    closing (m :: after) rest = ',' :: (m.render ++ closing after rest) := by
  simp [closing, more]

theorem closing_nil (rest : Text) : closing [] rest = '}' :: rest :=
  rfl

theorem follows_closing (after : List Member) (rest : Text) :
    Follows (closing after rest) := by
  cases after with
  | nil => exact .inr ⟨'}', rest, rfl, by simp⟩
  | cons m after =>
      exact .inr ⟨',', _, closing_cons m after rest, by simp⟩

theorem Obj.render_append (o : Obj) (rest : Text) :
    o.render ++ rest = '{' :: (o.inner ++ '}' :: rest) := by
  simp [Obj.render]

/-- The text of an object behind its brace is that of a first member, or white
space, in front of what closes the object. -/
theorem Obj.inner_nil (hollow rest : Text) :
    (Obj.mk [] hollow).inner ++ '}' :: rest = hollow ++ closing [] rest :=
  rfl

theorem Obj.inner_cons (m : Member) (after : List Member) (hollow rest : Text) :
    (Obj.mk (m :: after) hollow).inner ++ '}' :: rest =
      m.render ++ closing after rest := by
  simp [Obj.inner, closing]

variable {target : Text}

theorem findMember_mem {found : Member × List Member}
    (hit : findMember target members = some found) :
    found.1.key = target ∧
      ∃ before, members = before ++ found.1 :: found.2 ∧
        ∀ m ∈ before, m.key ≠ target := by
  induction members with
  | nil => cases hit
  | cons m after induction =>
      rw [findMember] at hit
      split at hit
      · rename_i same
        cases hit
        exact ⟨same, [], rfl, by simp⟩
      · rename_i different
        obtain ⟨named, before, split, others⟩ := induction hit
        refine ⟨named, m :: before, by rw [split]; rfl, ?_⟩
        intro other member
        rcases List.mem_cons.mp member with rfl | later
        · exact different
        · exact others other later

variable {before : List Member}

theorem findMember_split (others : ∀ other ∈ before, other.key ≠ target)
    (named : m.key = target) (after : List Member) :
    findMember target (before ++ m :: after) = some (m, after) := by
  induction before with
  | nil => simp [findMember, named]
  | cons first before induction =>
      rw [List.cons_append, findMember, if_neg (others first (by simp))]
      exact induction fun other member => others other (by simp [member])

theorem findMember_eq_none :
    findMember target members = none ↔ ∀ m ∈ members, m.key ≠ target := by
  induction members with
  | nil => simp [findMember]
  | cons m after induction =>
      by_cases same : m.key = target
      · simp [findMember, same]
      · simp [findMember, same, induction]

/-- A scanner with flags for strings and for escapes; a depth says which plain
characters and opening brackets do not end it. -/
structure Scanner {Depth Result : Type}
    (scan : Depth → Bool → Bool → Text → Result) (passes : Depth → Char → Prop) :
    Prop where
  quote : ∀ d rest, scan d false false ('"' :: rest) = scan d true false rest
  string : ∀ d esc c rest, scan d true esc (c :: rest) =
    if esc then scan d true false rest
    else if c = '\\' then scan d true true rest
    else if c = '"' then scan d false false rest
    else scan d true false rest
  plain : ∀ {d c}, passes d c → isPlain c = true → ∀ rest,
    scan d false false (c :: rest) = scan d false false rest
  bracket : ∀ {d opening closing}, passes d opening →
    (opening, closing) = ('{', '}') ∨ (opening, closing) = ('[', ']') →
    ∃ within, (∀ c, passes within c) ∧ ∀ rest,
      scan d false false (opening :: rest) = scan within false false rest ∧
      scan within false false (closing :: rest) = scan d false false rest

namespace Scanner

variable {Depth Result : Type} {scan : Depth → Bool → Bool → Text → Result}
  {passes : Depth → Char → Prop} (scanner : Scanner scan passes)
include scanner

theorem body (d : Depth) {esc : Bool} {body : Text} (ok : Body esc body)
    (rest : Text) :
    scan d true esc (body ++ '"' :: rest) = scan d false false rest := by
  induction ok with
  | done => simp [scanner.string]
  | slash _ induction => simpa [scanner.string] using induction
  | escaped c _ induction => simpa [scanner.string] using induction
  | plain slash quoteFree _ induction =>
      simpa [scanner.string, slash, quoteFree] using induction

theorem str (d : Depth) {body : Text} (ok : Body false body) (rest : Text) :
    scan d false false ('"' :: body ++ '"' :: rest) = scan d false false rest := by
  rw [List.cons_append, scanner.quote, scanner.body d ok]

theorem text {d : Depth} {text : Text}
    (plain : ∀ c ∈ text, isPlain c = true ∧ passes d c) (rest : Text) :
    scan d false false (text ++ rest) = scan d false false rest := by
  induction text with
  | nil => rfl
  | cons c text induction =>
      obtain ⟨solid, passed⟩ := plain c List.mem_cons_self
      rw [List.cons_append, scanner.plain passed solid]
      exact induction fun d member => plain d (List.mem_cons_of_mem c member)

theorem bal {text : Text} (balanced : Bal text) {d : Depth}
    (inside : ∀ c, passes d c) (rest : Text) :
    scan d false false (text ++ rest) = scan d false false rest := by
  induction balanced generalizing d rest with
  | nil => rfl
  | plain plain _ induction =>
      rw [List.cons_append, scanner.plain (inside _) plain, induction inside]
  | str ok _ induction =>
      rw [List.append_assoc]
      exact (scanner.str d ok _).trans (induction inside rest)
  | curly _ _ innerInduction induction =>
      obtain ⟨within, deeper, turns⟩ := scanner.bracket (inside _) (.inl rfl)
      rw [List.append_assoc, List.cons_append, (turns _).1, List.cons_append,
        innerInduction deeper, (turns _).2, induction inside]
  | square _ _ innerInduction induction =>
      obtain ⟨within, deeper, turns⟩ := scanner.bracket (inside _) (.inr rfl)
      rw [List.append_assoc, List.cons_append, (turns _).1, List.cons_append,
        innerInduction deeper, (turns _).2, induction inside]

/-- A value is passed where only a comma is not. -/
theorem val {value : Text} (shape : Val value) (d : Depth)
    (outside : ∀ c, c ≠ ',' → passes d c) (rest : Text) :
    scan d false false (value ++ rest) = scan d false false rest := by
  cases shape with
  | str ok => simpa using scanner.str d ok rest
  | curly balanced =>
      obtain ⟨within, deeper, turns⟩ :=
        scanner.bracket (outside '{' (by decide)) (.inl rfl)
      rw [List.append_assoc, List.cons_append, (turns _).1,
        scanner.bal balanced deeper]
      exact (turns rest).2
  | square balanced =>
      obtain ⟨within, deeper, turns⟩ :=
        scanner.bracket (outside '[' (by decide)) (.inr rfl)
      rw [List.append_assoc, List.cons_append, (turns _).1,
        scanner.bal balanced deeper]
      exact (turns rest).2
  | atom _ chars =>
      refine scanner.text (fun c member => ?_) rest
      have char := List.all_eq_true.mp chars c member
      simp only [isAtomChar, Bool.and_eq_true, bne_iff_ne] at char
      exact ⟨char.1.1.1, outside c char.1.1.2⟩

theorem blank {space : Text} (white : blank space = true) (d : Depth)
    (outside : ∀ c, c ≠ ',' → passes d c) (rest : Text) :
    scan d false false (space ++ rest) = scan d false false rest := by
  refine scanner.text (fun c member => ?_) rest
  have char := List.all_eq_true.mp white c member
  refine ⟨isPlain_of_isWs char, outside c ?_⟩
  rintro rfl
  exact absurd char (by decide)

end Scanner
/-- A name with its backslashes and quotes escaped. -/
def escapeName (name : Text) : Text :=
  name.flatMap fun c =>
    if c = '\\' then ['\\', '\\'] else if c = '"' then ['\\', '"'] else [c]

theorem escapeName_plain {name : Text} (plain : plainKey name = true) :
    escapeName name = name := by
  induction name with
  | nil => rfl
  | cons c name induction =>
      simp only [plainKey, List.all_cons, Bool.and_eq_true, bne_iff_ne] at plain
      have tail := induction plain.2
      simp only [escapeName] at tail ⊢
      simp [plain.1.1, plain.1.2, tail]

theorem escapeName_cons (c : Char) (name : Text) :
    escapeName (c :: name) =
      (if c = '\\' then ['\\', '\\'] else if c = '"' then ['\\', '"']
        else [c]) ++ escapeName name :=
  rfl

theorem body_escapeName (name : Text) : Body false (escapeName name) := by
  induction name with
  | nil => exact .done
  | cons c name induction =>
      rw [escapeName_cons]
      split
      · exact .slash (.escaped _ induction)
      · rename_i notSlash
        split
        · exact .slash (.escaped _ induction)
        · rename_i notQuote
          exact .plain notSlash notQuote induction

/-- A member whose key is escaped only where it has to be. -/
structure Member.Laid (m : Member) : Prop extends m.Shaped where
  name : ∃ name, m.key = escapeName name

structure Obj.Laid (o : Obj) : Prop where
  members : ∀ m ∈ o.members, m.Laid
  hollow : blank o.hollow = true

theorem Obj.Laid.shaped (laid : o.Laid) : o.Shaped :=
  ⟨fun m member => (laid.members m member).toShaped, laid.hollow⟩

theorem Member.Wf.laid (wf : m.Wf) : m.Laid :=
  ⟨wf.shaped, m.key, (escapeName_plain wf.key).symm⟩

theorem Obj.Wf.laid (wf : o.Wf) : o.Laid :=
  ⟨fun m member => (wf.members m member).laid, wf.hollow⟩

/-- Among plain keys only a plain name can be found. -/
theorem findMember_escapeName (wf : ∀ m ∈ members, m.Wf) (name : Text) :
    findMember (escapeName name) members = findMember name members := by
  by_cases plain : plainKey name = true
  · rw [escapeName_plain plain]
  · have keys : ∀ m ∈ members, m.key ≠ name := by
      rintro m member rfl
      exact plain (wf m member).key
    have escaped : ∀ m ∈ members, m.key ≠ escapeName name := by
      intro m member same
      have plainEscaped : plainKey (escapeName name) = true :=
        same ▸ (wf m member).key
      apply plain
      simp only [plainKey, List.all_eq_true] at plainEscaped ⊢
      intro c listed
      have char := plainEscaped '\\'
      by_cases special : c = '\\' ∨ c = '"'
      · have slash : '\\' ∈ name.flatMap fun c =>
            if c = '\\' then ['\\', '\\'] else if c = '"' then ['\\', '"']
              else [c] := by
          refine List.mem_flatMap.mpr ⟨c, listed, ?_⟩
          rcases special with rfl | rfl <;> simp
        exact absurd (char slash) (by decide)
      · simpa [not_or, and_comm] using special
    rw [findMember_eq_none.mpr keys, findMember_eq_none.mpr escaped]

/-! ### Editing an object -/

/-- The text of an object up to the value of a member. -/
def front (before : List Member) (m : Member) : Text :=
  '{' :: (before.flatMap fun other => other.render ++ [',']) ++
    (m.lead ++ quote m.key ++ m.gap ++ ':' :: m.pad)

theorem inner_cons_cons (first second : Member) (rest : List Member)
    (hollow : Text) :
    (Obj.mk (first :: second :: rest) hollow).inner =
      first.render ++ ',' :: (Obj.mk (second :: rest) hollow).inner := by
  simp [Obj.inner, more]

theorem inner_split (before : List Member) (m : Member) (after : List Member)
    (hollow : Text) :
    (Obj.mk (before ++ m :: after) hollow).inner =
      (before.flatMap fun other => other.render ++ [',']) ++
        (m.render ++ more after) := by
  induction before with
  | nil => rfl
  | cons first before induction =>
      have tail : (Obj.mk (first :: (before ++ m :: after)) hollow).inner =
          first.render ++ ',' :: (Obj.mk (before ++ m :: after) hollow).inner := by
        cases before with
        | nil => exact inner_cons_cons first m after hollow
        | cons second before =>
            exact inner_cons_cons first second (before ++ m :: after) hollow
      rw [List.cons_append, tail, induction]
      simp

/-- The text of an object, split in front of the value of a member. -/
theorem render_split (before : List Member) (m : Member) (after : List Member)
    (hollow rest : Text) :
    (Obj.mk (before ++ m :: after) hollow).render ++ rest =
      front before m ++ (m.fromValue ++ closing after rest) := by
  rw [Obj.render_append, inner_split]
  simp [front, Member.render, Member.fromKey, closing]

/-- A member as the scripts write it. -/
def written (lead key val : Text) : Member :=
  ⟨lead, key, [], [' '], val, []⟩

/-- A line break and the indentation in front of an appended member. -/
def indent : Text := ['\n', ' ', ' ']

namespace Obj

/-- The object with a new member behind its last one. -/
def append (o : Obj) (key val : Text) : Obj :=
  match o.members with
  | [] => ⟨[written (o.hollow ++ indent) key val], o.hollow⟩
  | m :: rest => ⟨m :: rest ++ [written indent key val], o.hollow⟩

/-- The object with a new member in front of its first one. -/
def prepend (o : Obj) (key val : Text) : Obj :=
  match o.members with
  | [] => ⟨[{ written [] key val with trail := o.hollow }], o.hollow⟩
  | m :: rest => ⟨written [] key val :: m :: rest, o.hollow⟩

/-- The value of the first member with a key. -/
def get (o : Obj) (key : Text) : Option Text :=
  (findMember key o.members).map fun found => found.1.val

end Obj

theorem wf_written {lead val : Text} (space : blank lead = true)
    (plain : plainKey key = true) (shape : Val val) : (written lead key val).Wf :=
  ⟨space, plain, rfl, rfl, shape, rfl⟩

variable {P : Member → Prop}

/-- What holds of every member, and of a new one, holds after appending it. -/
theorem Obj.forall_append (space : blank o.hollow = true)
    (all : ∀ m ∈ o.members, P m) {val : Text}
    (new : ∀ lead, blank lead = true → P (written lead key val)) :
    ∀ m ∈ (o.append key val).members, P m := by
  obtain ⟨members, hollow⟩ := o
  have indented : blank (hollow ++ indent) = true :=
    blank_append.mpr ⟨space, rfl⟩
  intro m member
  cases members with
  | nil =>
      rw [List.mem_singleton.mp member]
      exact new _ indented
  | cons first rest =>
      rcases List.mem_append.mp member with old | added
      · exact all m old
      · rw [List.mem_singleton.mp added]
        exact new _ rfl

theorem Obj.hollow_append (o : Obj) (key val : Text) :
    (o.append key val).hollow = o.hollow := by
  unfold Obj.append
  split <;> rfl

theorem Obj.Wf.append (wf : o.Wf) {val : Text} (plain : plainKey key = true)
    (shape : Val val) : (o.append key val).Wf := by
  refine ⟨Obj.forall_append wf.hollow wf.members ?_, ?_⟩
  · exact fun lead space => wf_written space plain shape
  · rw [Obj.hollow_append]
    exact wf.hollow

theorem Obj.Wf.prepend (wf : o.Wf) {val : Text} (plain : plainKey key = true)
    (shape : Val val) : (o.prepend key val).Wf := by
  obtain ⟨members, hollow⟩ := o
  cases members with
  | nil =>
      refine ⟨?_, wf.hollow⟩
      intro m member
      rw [List.mem_singleton.mp member]
      exact ⟨rfl, plain, rfl, rfl, shape, wf.hollow⟩
  | cons first rest =>
      refine ⟨?_, wf.hollow⟩
      intro m member
      rcases List.mem_cons.mp member with rfl | old
      · exact wf_written rfl plain shape
      · exact wf.members m old

/-- Only an object without members has nothing but white space between its
braces. -/
theorem Obj.blank_inner_iff (space : blank o.hollow = true) :
    blank o.inner = true ↔ o.members = [] := by
  obtain ⟨members, hollow⟩ := o
  cases members with
  | nil => simpa [Obj.inner] using space
  | cons m rest =>
      simp [Obj.inner, blank, Member.render, Member.fromKey, isWs]

theorem Obj.append_render (space : blank o.hollow = true) (key val : Text) :
    (o.append key val).render =
      '{' :: o.inner ++ (if blank o.inner then indent else ',' :: indent) ++
        (quote key ++ ':' :: ' ' :: val) ++ ['}'] := by
  have hollowIff := Obj.blank_inner_iff space
  obtain ⟨members, hollow⟩ := o
  cases members with
  | nil =>
      have space : blank (Obj.mk [] hollow).inner = true := hollowIff.mpr rfl
      rw [if_pos space]
      simp [Obj.append, Obj.render, Obj.inner, written, Member.render,
        Member.fromKey, Member.fromValue, more]
  | cons m rest =>
      have solid : blank (Obj.mk (m :: rest) hollow).inner = false := by
        simpa using hollowIff.not
      rw [if_neg (by simp [solid])]
      simp [Obj.append, Obj.render, Obj.inner, written, Member.render,
        Member.fromKey, Member.fromValue, more]

theorem Obj.prepend_render (space : blank o.hollow = true) (key val : Text) :
    (o.prepend key val).render =
      '{' :: (quote key ++ ':' :: ' ' :: val) ++
        (if blank o.inner then [] else [',']) ++ o.inner ++ ['}'] := by
  have hollowIff := Obj.blank_inner_iff space
  obtain ⟨members, hollow⟩ := o
  cases members with
  | nil =>
      have space : blank (Obj.mk [] hollow).inner = true := hollowIff.mpr rfl
      rw [if_pos space]
      simp [Obj.prepend, Obj.render, Obj.inner, written, Member.render,
        Member.fromKey, Member.fromValue, more]
  | cons m rest =>
      have solid : blank (Obj.mk (m :: rest) hollow).inner = false := by
        simpa using hollowIff.not
      rw [if_neg (by simp [solid])]
      simp [Obj.prepend, Obj.render, Obj.inner, written, Member.render,
        Member.fromKey, Member.fromValue, more]

/-- The list with its first member of a key changed. -/
def replaceFirst (key : Text) (change : Member → Member) :
    List Member → List Member
  | [] => []
  | m :: rest =>
      if m.key = key then change m :: rest
      else m :: replaceFirst key change rest

theorem replaceFirst_split (others : ∀ other ∈ before, other.key ≠ key)
    (named : m.key = key) (change : Member → Member) (after : List Member) :
    replaceFirst key change (before ++ m :: after) =
      before ++ change m :: after := by
  induction before with
  | nil => simp [replaceFirst, named]
  | cons first before induction =>
      have different : first.key ≠ key := others first (by simp)
      have tail := induction fun other member => others other (by simp [member])
      simp [replaceFirst, different, tail]

variable {change : Member → Member}

theorem mem_replaceFirst (member : m ∈ replaceFirst key change members) :
    m ∈ members ∨ ∃ old ∈ members, old.key = key ∧ m = change old := by
  induction members with
  | nil => cases member
  | cons first rest induction =>
      rw [replaceFirst] at member
      split at member
      · rename_i named
        rcases List.mem_cons.mp member with rfl | old
        · exact .inr ⟨first, by simp, named, rfl⟩
        · exact .inl (by simp [old])
      · rcases List.mem_cons.mp member with rfl | old
        · exact .inl (by simp)
        · rcases induction old with kept | ⟨other, listed, named, same⟩
          · exact .inl (by simp [kept])
          · exact .inr ⟨other, by simp [listed], named, same⟩

theorem map_replaceFirst {Part : Type} (part : Member → Part) (key : Text)
    (change : Member → Member) (kept : ∀ m, part (change m) = part m)
    (members : List Member) :
    (replaceFirst key change members).map part = members.map part := by
  induction members with
  | nil => rfl
  | cons m rest induction =>
      rw [replaceFirst]
      split
      · simp [kept]
      · simp [induction]

namespace Obj

def modify (o : Obj) (key : Text) (change : Member → Member) : Obj :=
  ⟨replaceFirst key change o.members, o.hollow⟩

/-- Set a member; a new one goes behind the others. -/
def setBack (o : Obj) (key val : Text) : Obj :=
  match findMember key o.members with
  | some _ => o.modify key fun m => { m with val := val }
  | none => o.append key val

end Obj

variable {after : List Member}

/-- An object split at its first member of a key. -/
theorem Obj.split_of_findMember (hit : findMember key o.members = some (m, after)) :
    ∃ before, o = ⟨before ++ m :: after, o.hollow⟩ ∧
      ∀ change, o.modify key change = ⟨before ++ change m :: after, o.hollow⟩ := by
  obtain ⟨named, before, split, others⟩ := findMember_mem hit
  obtain ⟨members, hollow⟩ := o
  subst split
  refine ⟨before, rfl, ?_⟩
  intro change
  rw [Obj.modify, replaceFirst_split others named]

theorem Obj.exists_inner {P : Obj → Prop}
    (objects : ∀ m ∈ o.members, ∃ inner, m.val = Obj.render inner ∧ P inner)
    (key : Text) :
    ∃ found : Option Obj, o.get key = found.map Obj.render ∧
      ∀ inner ∈ found, P inner := by
  cases hit : findMember key o.members with
  | none => exact ⟨none, by simp [Obj.get, hit], by simp⟩
  | some found =>
      obtain ⟨_, before, split, _⟩ := findMember_mem hit
      obtain ⟨inner, value, holds⟩ := objects found.1 (by simp [split])
      exact ⟨some inner, by simp [Obj.get, hit, value], by simpa using holds⟩

theorem Obj.Wf.mem_of_findMember (wf : o.Wf)
    (hit : findMember key o.members = some (m, after)) : m.Wf := by
  obtain ⟨_, before, split, _⟩ := findMember_mem hit
  apply wf.members
  simp [split]

theorem Obj.forall_modify (all : ∀ m ∈ o.members, P m)
    (kept : ∀ m, P m → m.key = key → P (change m)) :
    ∀ m ∈ (o.modify key change).members, P m := by
  intro m member
  rcases mem_replaceFirst member with old | ⟨old, listed, named, rfl⟩
  · exact all m old
  · exact kept old (all old listed) named

theorem Obj.Wf.modify (wf : o.Wf) (key : Text)
    (kept : ∀ m, m.Wf → m.key = key → (change m).Wf) : (o.modify key change).Wf :=
  ⟨Obj.forall_modify wf.members kept, wf.hollow⟩

/-- What holds of every member holds after one was set. -/
theorem Obj.forall_setBack (space : blank o.hollow = true)
    (all : ∀ m ∈ o.members, P m) {val : Text}
    (new : ∀ lead, blank lead = true → P (written lead key val))
    (kept : ∀ m, P m → m.key = key → P { m with val := val }) :
    ∀ m ∈ (o.setBack key val).members, P m := by
  unfold Obj.setBack
  split
  · exact Obj.forall_modify all kept
  · exact Obj.forall_append space all new

theorem Obj.hollow_setBack (o : Obj) (key val : Text) :
    (o.setBack key val).hollow = o.hollow := by
  unfold Obj.setBack
  split
  · rfl
  · exact o.hollow_append key val

theorem Member.Laid.setValue (laid : m.Laid) {val : Text} (shape : Val val) :
    Member.Laid { m with val := val } :=
  ⟨⟨laid.lead, laid.key, laid.gap, laid.pad, shape, laid.trail⟩, laid.name⟩

theorem laid_written {lead val : Text} (space : blank lead = true)
    (name : Text) (shape : Val val) :
    (written lead (escapeName name) val).Laid :=
  ⟨⟨space, body_escapeName name, rfl, rfl, shape, rfl⟩, name, rfl⟩

theorem Obj.Laid.setBack (laid : o.Laid) (name : Text) {val : Text}
    (shape : Val val) : (o.setBack (escapeName name) val).Laid := by
  refine ⟨Obj.forall_setBack laid.hollow laid.members ?_ ?_, ?_⟩
  · exact fun lead space => laid_written space name shape
  · exact fun m mLaid _ => mLaid.setValue shape
  · rw [Obj.hollow_setBack]
    exact laid.hollow

theorem Obj.Wf.setBack (wf : o.Wf) {val : Text} (plain : plainKey key = true)
    (shape : Val val) : (o.setBack key val).Wf := by
  unfold Obj.setBack
  split
  · apply wf.modify
    intro m mWf _
    exact ⟨mWf.lead, mWf.key, mWf.gap, mWf.pad, shape, mWf.trail⟩
  · exact wf.append plain shape

/-- An object with distinct names. -/
structure Obj.Keyed (o : Obj) : Prop extends o.Laid where
  distinct : (o.members.map Member.key).Nodup

/-- An object of objects. -/
structure Obj.Nested (d : Obj) : Prop extends d.Keyed where
  objects : ∀ m ∈ d.members, ∃ o : Obj, m.val = o.render ∧ o.Keyed

/-- Give the first member with a key another value. -/
def Obj.setValue (o : Obj) (key val : Text) : Obj :=
  o.modify key fun m => { m with val := val }

/-- A member that a write of `key` put into an object. -/
structure Obj.Sets (o : Obj) (key val : Text) (m : Member) : Prop where
  named : m.key = key
  value : m.val = val
  trail : blank m.trail = true
  place : (m.gap = [] ∧ m.pad = [' ']) ∨
    ∃ old ∈ o.members, old.key = key ∧ m.gap = old.gap ∧ m.pad = old.pad

theorem Obj.map_key_prepend (o : Obj) (key val : Text) :
    (o.prepend key val).members.map Member.key =
      key :: o.members.map Member.key := by
  unfold Obj.prepend
  cases list : o.members with
  | nil => rfl
  | cons m rest => rfl

theorem Obj.map_key_append (o : Obj) (key val : Text) :
    (o.append key val).members.map Member.key =
      o.members.map Member.key ++ [key] := by
  unfold Obj.append
  cases list : o.members with
  | nil => rfl
  | cons m rest => simp [written]

theorem Obj.mem_prepend (wf : o.Wf) {val : Text}
    (member : m ∈ (o.prepend key val).members) :
    m ∈ o.members ∨ o.Sets key val m := by
  unfold Obj.prepend at member
  split at member
  · rw [List.mem_singleton.mp member]
    exact .inr ⟨rfl, rfl, wf.hollow, .inl ⟨rfl, rfl⟩⟩
  · rename_i first rest list
    rw [list]
    rcases List.mem_cons.mp member with rfl | old
    · exact .inr ⟨rfl, rfl, rfl, .inl ⟨rfl, rfl⟩⟩
    · exact .inl old

theorem Obj.mem_append {val : Text} (member : m ∈ (o.append key val).members) :
    m ∈ o.members ∨ o.Sets key val m := by
  unfold Obj.append at member
  split at member
  · rw [List.mem_singleton.mp member]
    exact .inr ⟨rfl, rfl, rfl, .inl ⟨rfl, rfl⟩⟩
  · rename_i first rest list
    rw [list]
    rcases List.mem_append.mp member with old | new
    · exact .inl old
    · rw [List.mem_singleton.mp new]
      exact .inr ⟨rfl, rfl, rfl, .inl ⟨rfl, rfl⟩⟩

theorem Obj.mem_modify (wf : o.Wf) {val : Text} {trail : Member → Text}
    (space : ∀ m, m.Wf → blank (trail m) = true)
    (member : m ∈ (o.modify key fun old => { old with val := val, trail := trail old }).members) :
    m ∈ o.members ∨ o.Sets key val m := by
  rcases mem_replaceFirst member with kept | ⟨old, listed, named, rfl⟩
  · exact .inl kept
  · exact .inr ⟨named, rfl, space old (wf.members old listed),
      .inr ⟨old, listed, named, rfl, rfl⟩⟩

theorem Obj.mem_setBack (wf : o.Wf) {val : Text}
    (member : m ∈ (o.setBack key val).members) :
    m ∈ o.members ∨ o.Sets key val m := by
  unfold Obj.setBack at member
  split at member
  · exact Obj.mem_modify wf (fun old oldWf => oldWf.trail) member
  · exact Obj.mem_append member

theorem Obj.nodup_setBack (distinct : (o.members.map Member.key).Nodup)
    (key val : Text) : ((o.setBack key val).members.map Member.key).Nodup := by
  unfold Obj.setBack
  split
  · have keys := map_replaceFirst Member.key key
      (fun m => { m with val := val }) fun _ => rfl
    rw [Obj.modify, keys]
    exact distinct
  · rename_i absent
    have fresh : key ∉ o.members.map Member.key := by
      intro member
      obtain ⟨m, listed, same⟩ := List.mem_map.mp member
      exact findMember_eq_none.mp absent m listed same
    rw [Obj.map_key_append, List.nodup_append]
    refine ⟨distinct, by simp, ?_⟩
    intro left old right new same
    rw [List.mem_singleton.mp new] at same
    exact fresh (same ▸ old)

theorem Obj.Keyed.setBack (keyed : o.Keyed) (name : Text) {val : Text}
    (shape : Val val) : (o.setBack (escapeName name) val).Keyed :=
  ⟨keyed.toLaid.setBack name shape, Obj.nodup_setBack keyed.distinct _ val⟩

theorem Obj.Nested.setBack {d : Obj} (nested : d.Nested) (name : Text)
    (keyed : o.Keyed) : (d.setBack (escapeName name) o.render).Nested := by
  refine ⟨nested.toKeyed.setBack name keyed.shaped.val_render, ?_⟩
  apply Obj.forall_setBack nested.hollow nested.objects
  · exact fun lead _ => ⟨o, rfl, keyed⟩
  · exact fun m _ _ => ⟨o, rfl, keyed⟩

/-- The text around the value of a member, before and after a change of it. -/
theorem Obj.setValue_render (hit : findMember key o.members = some (m, after)) :
    ∃ before, o = ⟨before ++ m :: after, o.hollow⟩ ∧
      (∀ rest, o.render ++ rest =
        front before m ++ (m.val ++ (m.trail ++ closing after rest))) ∧
      ∀ val rest, (o.setValue key val).render ++ rest =
        front before m ++ (val ++ (m.trail ++ closing after rest)) := by
  obtain ⟨before, split, modified⟩ := Obj.split_of_findMember hit
  refine ⟨before, split, ?_, ?_⟩
  · intro rest
    rw [split, render_split, Member.fromValue, List.append_assoc]
  · intro val rest
    rw [Obj.setValue, modified, render_split]
    simp [front, Member.fromValue]

theorem Obj.get_cons (m : Member) (rest : List Member) (hollow key : Text) :
    (Obj.mk (m :: rest) hollow).get key =
      if m.key = key then some m.val else (Obj.mk rest hollow).get key := by
  by_cases same : m.key = key
  · simp [Obj.get, findMember, same]
  · simp [Obj.get, findMember, same]

theorem Obj.get_modify {o : Obj} {key : Text} {change : Member → Member}
    (kept : ∀ m, (change m).key = m.key) (val : Text)
    (valued : ∀ m, (change m).val = val) (other : Text) :
    (o.modify key change).get other =
      if other = key then (o.get key).map fun _ => val else o.get other := by
  obtain ⟨members, hollow⟩ := o
  rw [Obj.modify]
  induction members with
  | nil => simp [replaceFirst, Obj.get, findMember]
  | cons m rest induction =>
      rw [replaceFirst]
      by_cases named : m.key = key
      · rw [if_pos named, Obj.get_cons, Obj.get_cons, Obj.get_cons, kept, valued,
          named]
        by_cases same : other = key
        · simp [same]
        · simp [same, Ne.symm same]
      · rw [if_neg named, Obj.get_cons, Obj.get_cons, Obj.get_cons, induction]
        by_cases same : other = key
        · subst same
          simp [named]
        · simp [same]

theorem Obj.get_prepend (o : Obj) (key val other : Text) :
    (o.prepend key val).get other =
      if other = key then some val else o.get other := by
  obtain ⟨members, hollow⟩ := o
  cases members with
  | nil =>
      simp only [Obj.prepend]
      rw [Obj.get_cons]
      by_cases same : other = key
      · simp [written, same]
      · simp [written, same, Ne.symm same]
  | cons m rest =>
      simp only [Obj.prepend]
      rw [Obj.get_cons]
      by_cases same : other = key
      · simp [written, same]
      · simp [written, same, Ne.symm same]

theorem Obj.get_concat (hollow : Text) (fresh : ∀ old ∈ members, old.key ≠ m.key)
    (other : Text) :
    (Obj.mk (members ++ [m]) hollow).get other =
      if other = m.key then some m.val else (Obj.mk members hollow).get other := by
  induction members with
  | nil =>
      rw [List.nil_append, Obj.get_cons]
      by_cases same : other = m.key
      · simp [same]
      · simp [same, Ne.symm same]
  | cons first rest induction =>
      have tail := induction fun old member => fresh old (by simp [member])
      rw [List.cons_append, Obj.get_cons, tail, Obj.get_cons]
      by_cases same : first.key = other
      · have different : other ≠ m.key := same ▸ fresh first (by simp)
        simp [different]
      · simp [same]

theorem Obj.get_append (val : Text) (absent : findMember key o.members = none)
    (other : Text) :
    (o.append key val).get other =
      if other = key then some val else o.get other := by
  obtain ⟨members, hollow⟩ := o
  have fresh : ∀ m ∈ members, m.key ≠ key := findMember_eq_none.mp absent
  cases members with
  | nil =>
      simp only [Obj.append]
      rw [Obj.get_cons]
      by_cases same : other = key
      · simp [written, same]
      · simp [written, same, Ne.symm same]
  | cons m rest => exact Obj.get_concat hollow fresh other

theorem Obj.get_setBack (o : Obj) (key val other : Text) :
    (o.setBack key val).get other =
      if other = key then some val else o.get other := by
  unfold Obj.setBack
  cases hit : findMember key o.members with
  | none => exact Obj.get_append val hit other
  | some found =>
      have read := @Obj.get_modify o key (fun m => { m with val := val })
        (fun _ => rfl) val (fun _ => rfl) other
      rw [read]
      simp [Obj.get, hit]

theorem drop_append_length (before rest : Text) (n : Nat)
    (length : n = rest.length) :
    (before ++ rest).drop ((before ++ rest).length - n) = rest := by
  subst length
  simp

/-! ### Removing a member -/

/-- Remove the text from `fk` to `fe` with the comma behind it, or else with
the comma in front of it. -/
def cutMember (s fk fe : Text) : Text :=
  let before := ((upTo s fk).reverse.dropWhile isWs).reverse
  if (fe.dropWhile isWs).head? = some ',' then
    upTo s fk ++ (fe.dropWhile isWs).tail
  else if before.getLast? = some ',' then before.dropLast ++ fe
  else upTo s fk ++ fe

/-- The object without one of its members; white space around it stays. -/
def cut (before : List Member) (m : Member) (after : List Member)
    (hollow : Text) : Obj :=
  match after with
  | next :: rest =>
      ⟨before ++ { next with lead := m.lead ++ next.lead } :: rest, hollow⟩
  | [] =>
      match before.getLast? with
      | some last =>
          ⟨before.dropLast ++ [{ last with trail := last.trail ++ m.trail }],
            hollow⟩
      | none => ⟨[], m.lead ++ m.trail⟩

namespace Obj

/-- Remove the first member with a key. -/
def remove (o : Obj) (key : Text) : Obj :=
  match findMember key o.members with
  | none => o
  | some (m, after) =>
      cut (o.members.take (o.members.length - (m :: after).length)) m after
        o.hollow

end Obj

theorem Obj.remove_split (hit : findMember key o.members = some (m, after)) :
    ∃ before, o = ⟨before ++ m :: after, o.hollow⟩ ∧
      o.remove key = cut before m after o.hollow := by
  obtain ⟨_, before, split, _⟩ := findMember_mem hit
  refine ⟨before, ?_, ?_⟩
  · obtain ⟨members, hollow⟩ := o
    simpa using split
  · rw [Obj.remove, hit]
    simp [split]

theorem upTo_append (before rest : Text) : upTo (before ++ rest) rest = before := by
  simp [upTo]

theorem dropWhile_end_blank {spaces : Text} (space : blank spaces = true)
    (text : Text) (solid : isWs c = false) :
    ((text ++ [c] ++ spaces).reverse.dropWhile isWs).reverse = text ++ [c] := by
  have reversed : blank spaces.reverse = true := by
    simpa [blank] using space
  rw [List.reverse_append, dropWhile_isWs_blank _ reversed]
  simp [solid]

/-- Cutting a member out of the text of an object that stands in a file. -/
theorem cutMember_obj {before : List Member} {m : Member}
    {after : List Member} {hollow : Text} (shaped : m.Shaped)
    (outer rest : Text) :
    cutMember (outer ++ ((Obj.mk (before ++ m :: after) hollow).render ++ rest))
        (m.fromKey ++ closing after rest) (m.trail ++ closing after rest) =
      outer ++ ((cut before m after hollow).render ++ rest) := by
  have text : outer ++ ((Obj.mk (before ++ m :: after) hollow).render ++ rest) =
      (outer ++ '{' :: (before.flatMap fun other => other.render ++ [',']) ++
        m.lead) ++ (m.fromKey ++ closing after rest) := by
    rw [Obj.render_append, inner_split]
    simp [Member.render, closing]
  have behind : (m.trail ++ closing after rest).dropWhile isWs =
      closing after rest := by
    rw [dropWhile_isWs_blank _ shaped.trail]
    cases after with
    | nil => simp [closing_nil, isWs]
    | cons next after => simp [closing_cons, isWs]
  simp only [cutMember, text, upTo_append, behind]
  cases after with
  | cons next after =>
      simp only [cut, closing_cons]
      rw [Obj.render_append, inner_split]
      simp [Member.render, Member.fromKey, Member.fromValue, closing]
  | nil =>
      rw [if_neg (by simp [closing_nil])]
      rcases List.eq_nil_or_concat before with rfl | ⟨init, last, rfl⟩
      · have trimmed : ((outer ++ '{' :: m.lead).reverse.dropWhile
            isWs).reverse = outer ++ ['{'] := by
          have base := dropWhile_end_blank shaped.lead outer
            (show isWs '{' = false by decide)
          simpa using base
        simp only [List.flatMap_nil, List.append_assoc, List.cons_append,
          List.nil_append, trimmed]
        simp [cut, Obj.render, Obj.inner, closing_nil]
      · have trimmed : ((outer ++ '{' :: ((init ++ [last]).flatMap
            fun other => other.render ++ [',']) ++ m.lead).reverse.dropWhile
            isWs).reverse =
            (outer ++ '{' :: (init.flatMap fun other => other.render ++ [',']) ++
              last.render) ++ [','] := by
          have base := dropWhile_end_blank shaped.lead
            (outer ++ '{' :: (init.flatMap fun other => other.render ++ [',']) ++
              last.render) (show isWs ',' = false by decide)
          simpa using base
        rw [List.concat_eq_append, trimmed]
        simp only [cut, List.getLast?_concat, List.dropLast_concat]
        rw [Obj.render_append, inner_split]
        simp [Member.render, Member.fromKey, Member.fromValue, closing]

/-- What is left of a member when another one is removed. -/
structure Member.Same (m other : Member) : Prop where
  key : m.key = other.key
  gap : m.gap = other.gap
  pad : m.pad = other.pad
  val : m.val = other.val

theorem mem_cut {hollow : Text} {found : Member}
    (member : found ∈ (cut before m after hollow).members) :
    ∃ old ∈ before ++ after, found.Same old ∧
      (found.lead = old.lead ∨ found.lead = m.lead ++ old.lead) ∧
      (found.trail = old.trail ∨ found.trail = old.trail ++ m.trail) := by
  cases after with
  | cons next rest =>
      simp only [cut, List.mem_append, List.mem_cons] at member
      rcases member with old | rfl | old
      · exact ⟨found, by simp [old], ⟨rfl, rfl, rfl, rfl⟩, .inl rfl, .inl rfl⟩
      · exact ⟨next, by simp, ⟨rfl, rfl, rfl, rfl⟩, .inr rfl, .inl rfl⟩
      · exact ⟨found, by simp [old], ⟨rfl, rfl, rfl, rfl⟩, .inl rfl, .inl rfl⟩
  | nil =>
      rcases List.eq_nil_or_concat before with rfl | ⟨init, last, rfl⟩
      · simp [cut] at member
      · simp only [cut, List.concat_eq_append, List.getLast?_concat,
          List.dropLast_concat, List.mem_append, List.mem_singleton] at member
        rcases member with old | rfl
        · exact ⟨found, by simp [old], ⟨rfl, rfl, rfl, rfl⟩, .inl rfl, .inl rfl⟩
        · exact ⟨last, by simp, ⟨rfl, rfl, rfl, rfl⟩, .inl rfl, .inr rfl⟩

theorem wf_cut {hollow : Text} (wf : (Obj.mk (before ++ m :: after) hollow).Wf) :
    (cut before m after hollow).Wf := by
  have removed : m.Wf := wf.members m (by simp)
  refine ⟨?_, ?_⟩
  · intro found member
    obtain ⟨old, listed, same, lead, trail⟩ := mem_cut member
    have oldWf : old.Wf := wf.members old (by
      rcases List.mem_append.mp listed with left | right
      · simp [left]
      · simp [right])
    refine ⟨?_, same.key ▸ oldWf.key, same.gap ▸ oldWf.gap,
      same.pad ▸ oldWf.pad, same.val ▸ oldWf.val, ?_⟩
    · rcases lead with kept | joined
      · exact kept ▸ oldWf.lead
      · rw [joined, blank_append]
        exact ⟨removed.lead, oldWf.lead⟩
    · rcases trail with kept | joined
      · exact kept ▸ oldWf.trail
      · rw [joined, blank_append]
        exact ⟨oldWf.trail, removed.trail⟩
  · cases after with
    | cons next rest => exact wf.hollow
    | nil =>
        rcases List.eq_nil_or_concat before with rfl | ⟨init, last, rfl⟩
        · simp only [cut, List.getLast?_nil]
          rw [blank_append]
          exact ⟨removed.lead, removed.trail⟩
        · simp only [cut, List.concat_eq_append, List.getLast?_concat]
          exact wf.hollow

theorem Obj.Wf.remove (wf : o.Wf) (key : Text) : (o.remove key).Wf := by
  cases hit : findMember key o.members with
  | none =>
      rw [Obj.remove, hit]
      exact wf
  | some found =>
      obtain ⟨before, split, removed⟩ := Obj.remove_split hit
      rw [removed]
      exact wf_cut (split ▸ wf)

/-- The other members keep everything but the white space around them. -/
theorem map_cut {Part : Type} (part : Member → Part)
    (inner : ∀ (m : Member) (lead trail : Text),
      part { m with lead := lead, trail := trail } = part m)
    (before : List Member) (m : Member) (after : List Member)
    (hollow : Text) :
    (cut before m after hollow).members.map part =
      (before ++ after).map part := by
  cases after with
  | cons next rest =>
      have same := inner next (m.lead ++ next.lead) next.trail
      simp [cut, same]
  | nil =>
      rcases List.eq_nil_or_concat before with rfl | ⟨init, last, rfl⟩
      · rfl
      · have same := inner last last.lead (last.trail ++ m.trail)
        simp [cut, same]

theorem Obj.get_eq_find (o : Obj) (key : Text) :
    o.get key = ((o.members.map fun m => (m.key, m.val)).find?
      fun pair => pair.1 = key).map Prod.snd := by
  obtain ⟨members, hollow⟩ := o
  induction members with
  | nil => rfl
  | cons m members induction =>
      rw [Obj.get_cons, induction, List.map_cons]
      by_cases same : m.key = key
      · simp [same]
      · simp [same]

theorem Obj.nodup_remove (distinct : (o.members.map Member.key).Nodup)
    (key : Text) : ((o.remove key).members.map Member.key).Nodup := by
  cases hit : findMember key o.members with
  | none =>
      rw [Obj.remove, hit]
      exact distinct
  | some found =>
      obtain ⟨before, split, removed⟩ := Obj.remove_split hit
      rw [removed, map_cut Member.key fun _ _ _ => rfl]
      rw [split] at distinct
      exact distinct.sublist (((List.sublist_cons_self _ _).append_left
        before).map Member.key)

theorem Obj.get_remove {o : Obj}
    (distinct : (o.members.map Member.key).Nodup) (key other : Text) :
    (o.remove key).get other = if other = key then none else o.get other := by
  cases hit : findMember key o.members with
  | none =>
      have kept : o.remove key = o := by
        rw [Obj.remove, hit]
      rw [kept]
      by_cases same : other = key
      · rw [if_pos same, same, Obj.get, hit]
        rfl
      · rw [if_neg same]
  | some found =>
      obtain ⟨m, after⟩ := found
      obtain ⟨before, split, removed⟩ := Obj.remove_split hit
      have named := (findMember_mem hit).1
      rw [removed, Obj.get_eq_find, map_cut _ fun _ _ _ => rfl]
      have whole := Obj.get_eq_find o other
      rw [split] at whole distinct
      by_cases same : other = key
      · rw [if_pos same, Option.map_eq_none_iff, List.find?_eq_none]
        intro pair member
        obtain ⟨left, listed, rfl⟩ := List.mem_map.mp member
        simp only [decide_eq_true_eq]
        intro equal
        have elsewhere : left.key ≠ m.key := by
          rw [List.map_append, List.nodup_append] at distinct
          rcases List.mem_append.mp listed with front | back
          · exact distinct.2.2 _ (List.mem_map_of_mem front) _ (by simp)
          · intro clash
            apply (List.nodup_cons.mp distinct.2.1).1
            rw [← clash]
            exact List.mem_map_of_mem back
        exact elsewhere (equal.trans (same.trans named.symm))
      · have skip : ¬m.key = other := fun equal =>
          same (equal.symm.trans named)
        rw [if_neg same, split, whole]
        simp [skip]

/-- A bare word, an empty array or a string without escapes. -/
def isSimple (val : Text) : Bool :=
  (val != [] && val.all isAtomChar) || val == ['[', ']'] ||
    (val == quote val.tail.dropLast && plainKey val.tail.dropLast)

theorem isSimple_cases {val : Text} (simple : isSimple val = true) :
    '"' ∉ val ∨ ∃ body, plainKey body = true ∧ val = quote body := by
  simp only [isSimple, Bool.or_eq_true, Bool.and_eq_true, beq_iff_eq] at simple
  rcases simple with (⟨_, atom⟩ | rfl) | ⟨same, plain⟩
  · left
    intro member
    have char := List.all_eq_true.mp atom _ member
    exact absurd char (by decide)
  · left
    decide
  · exact .inr ⟨_, plain, same⟩

theorem val_of_isSimple {val : Text} (simple : isSimple val = true) : Val val := by
  simp only [isSimple, Bool.or_eq_true, Bool.and_eq_true, beq_iff_eq,
    bne_iff_ne] at simple
  rcases simple with (⟨nonempty, atom⟩ | rfl) | ⟨same, plain⟩
  · exact .atom nonempty atom
  · exact @Val.square [] .nil
  · rw [same]
    exact .str (body_of_plainKey plain)

def Member.isSimple (m : Member) : Bool :=
  blank m.lead && plainKey m.key && blank m.gap && blank m.pad &&
    JsonText.isSimple m.val && blank m.trail

theorem Member.wf_of_isSimple (simple : m.isSimple = true) : m.Wf := by
  simp only [Member.isSimple, Bool.and_eq_true] at simple
  obtain ⟨⟨⟨⟨⟨lead, key⟩, gap⟩, pad⟩, val⟩, trail⟩ := simple
  exact ⟨lead, key, gap, pad, val_of_isSimple val, trail⟩

end JsonText
