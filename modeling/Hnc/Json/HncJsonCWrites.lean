import Hnc.Json.HncJsonC

/-!
# The writers of the C helper of `hnc_json`

`set-object-key`, `del-object-key`, `add-array-unique` and `del-array-value`
of `tools/hnc_json.c` splice the text of the file around what `find_key` and
`strstr` find, and count brackets in the result before they write it.
-/

namespace Hnc

open Posix JsonText

namespace HncJsonC

/-- The loop of `valid_json`. -/
def validFrom (ins esc : Bool) (dep : Nat) (seen : Bool) : Text → Bool
  | [] => seen && !ins && !esc && dep == 0
  | c :: rest =>
      if ins then
        if esc then validFrom true false dep seen rest
        else if c = '\\' then validFrom true true dep seen rest
        else if c = '"' then validFrom false false dep seen rest
        else if isControl c then false
        else validFrom true false dep seen rest
      else if isSpace c then validFrom false false dep seen rest
      else if c = '"' then validFrom true false dep true rest
      else if c = '{' ∨ c = '[' then validFrom false false (dep + 1) true rest
      else if c = '}' ∨ c = ']' then
        if dep = 0 then false else validFrom false false (dep - 1) true rest
      else validFrom false false dep true rest

def validJson (s : Text) : Bool :=
  validFrom false false 0 false s

def literal (v : Text) : LiteralType → Option Text
  | .str => some (escstr v)
  | .bool => if v = "true".toList ∨ v = "false".toList then some v else none
  | .null => if v = "null".toList then some v else none
  | .num => some v
  | .json => if validJson v then some v else none

/-- `write_file` behind the check of the text. -/
def writeFile (out : Text) : Option Text :=
  if validJson out then some (out ++ ['\n']) else none

/-- The comma of a list that `close` does not end at once. -/
def commaUnless (close : Char) (behind : Text) : Text :=
  if (behind.dropWhile isSpace).head? = some close then [] else [',']

/-- `set_object_key`. -/
def setObjectKey (file key v : Text) (typ : LiteralType) : Option Text :=
  let s := cString file
  if validJson s then
    match literal v typ with
    | none => none
    | some lit =>
        match findKey s key with
        | some found => writeFile (upTo s found.val ++ (lit ++ found.fin))
        | none =>
            match strchr s '{' with
            | none => none
            | some r =>
                let behind := r.tail
                writeFile (upTo s behind ++ (escstr key ++ ':' ::
                  (lit ++ (commaUnless '}' behind ++ behind))))
  else none

/-- A text without the white space it ends with and the comma before that. -/
def dropComma (front : Text) : Text :=
  match front.reverse.dropWhile isSpace with
  | [] => []
  | c :: rest => if c = ',' then rest.reverse else (c :: rest).reverse

/-- What stands around a piece that is cut out, without the comma behind it
or, where there is none, the comma in front of it. -/
def joinCut (front behind : Text) : Text :=
  match behind.dropWhile isSpace with
  | [] => dropComma front
  | c :: after =>
      if c = ',' then front ++ after else dropComma front ++ c :: after

/-- `del_object_key`. -/
def delObjectKey (file key : Text) : Option Text :=
  let s := cString file
  if validJson s then
    match findKey s key with
    | none => some file
    | some found => writeFile (joinCut (upTo s found.p) found.fin)
  else none

/-- `array_add`. -/
def arrayAdd (file key v : Text) : Option Text :=
  let s := cString file
  if validJson s then
    let lit := escstr v
    match findKey s key with
    | none => setObjectKey file key ('[' :: lit ++ [']']) .json
    | some found =>
        match strstr found.val lit with
        | some _ => some file
        | none =>
            match strrchr found.val ']' with
            | none => none
            | some rb =>
                if rb.length < found.fin.length then none
                else writeFile (upTo s rb ++
                  (commaUnless ']' found.val.tail ++ (lit ++ rb)))
  else none

/-- `array_del`. -/
def arrayDel (file key v : Text) : Option Text :=
  let s := cString file
  let lit := escstr v
  match findKey s key with
  | none => some file
  | some found =>
      match strstr found.val lit with
      | none => some file
      | some x =>
          if x.length < found.fin.length then some file
          else writeFile (upTo s found.val ++
            joinCut (upTo found.val x) (x.drop lit.length))

/-! ### The check of a text -/

variable {space text : Text} {c : Char}

section Check

variable (dep : Nat) (seen : Bool)

theorem validFrom_blank (blanks : blank space = true) (rest : Text) :
    validFrom false false dep seen (space ++ rest) =
      validFrom false false dep seen rest := by
  induction space with
  | nil => rfl
  | cons c space induction =>
      simp only [blank, List.all_cons, Bool.and_eq_true] at blanks
      have white : isSpace c = true := by simp [isSpace, blanks.1]
      rw [List.cons_append, validFrom]
      simpa [white] using induction blanks.2

theorem validFrom_body {body : Text} (chars : Chars body) (rest : Text) :
    validFrom true false dep seen (body ++ '"' :: rest) =
      validFrom false false dep seen rest := by
  induction chars with
  | nil => simp [validFrom]
  | @unescaped c _ visible quote slash _ induction =>
      have shown : isControl c = false := by simpa [isControl] using visible
      simpa [validFrom, quote, slash, shown] using induction
  | escape _ _ induction => simpa [validFrom] using induction
  | @unicode a b c d _ hex _ induction =>
      have solid : hexDigits.all (fun h => h != '\\' && h != '"' &&
          !isControl h) = true := by decide
      have plain : ∀ h ∈ [a, b, c, d], (h ≠ '\\' ∧ h ≠ '"') ∧
          isControl h = false := by
        intro h member
        simpa using List.all_eq_true.mp solid h (hex h member)
      simp only [List.forall_mem_cons] at plain
      obtain ⟨first, second, third, fourth, _⟩ := plain
      simpa [validFrom, first, second, third, fourth] using induction

theorem validFrom_quote {body : Text} (chars : Chars body) (rest : Text) :
    validFrom false false dep seen (quote body ++ rest) =
      validFrom false false dep true rest := by
  have text : quote body ++ rest = '"' :: (body ++ '"' :: rest) := by
    simp [quote]
  rw [text, validFrom]
  simpa [isSpace, isWs] using validFrom_body dep true chars rest

theorem validFrom_plain (plain : isPlain c = true) (solid : isSpace c = false)
    (rest : Text) :
    validFrom false false dep seen (c :: rest) =
      validFrom false false dep true rest := by
  simp only [isPlain, Bool.and_eq_true, bne_iff_ne] at plain
  rw [validFrom]
  simp [solid, plain]

theorem validFrom_atom (nonempty : text ≠ []) (atom : text.all isAtomChar = true)
    (shown : text.all isTextChar = true) (rest : Text) :
    validFrom false false dep seen (text ++ rest) =
      validFrom false false dep true rest := by
  induction text generalizing seen with
  | nil => exact absurd rfl nonempty
  | cons c text induction =>
      simp only [List.all_cons, Bool.and_eq_true] at atom shown
      have char := atom.1
      simp only [isAtomChar, Bool.and_eq_true, Bool.not_eq_true'] at char
      have solid := isSpace_of_isTextChar shown.1 char.2
      rw [List.cons_append, validFrom_plain dep seen char.1.1.1 solid]
      cases text with
      | nil => rfl
      | cons d text => exact induction true (by simp) atom.2 shown.2

theorem validFrom_brackets {first last : Char} {inner : Text}
    (brackets : first = '[' ∧ last = ']' ∨ first = '{' ∧ last = '}')
    (inside : ∀ rest, validFrom false false (dep + 1) true (inner ++ rest) =
      validFrom false false (dep + 1) true rest) (rest : Text) :
    validFrom false false dep seen (first :: inner ++ [last] ++ rest) =
      validFrom false false dep true rest := by
  have text : first :: inner ++ [last] ++ rest =
      first :: (inner ++ last :: rest) := by simp
  rw [text]
  rcases brackets with ⟨rfl, rfl⟩ | ⟨rfl, rfl⟩
  · simp [isSpace, isWs, inside, validFrom]
  · simp [isSpace, isWs, inside, validFrom]

theorem validFrom_member {m : Member} (spaced : m.Spaced) (key : Chars m.key)
    (value : ∀ dep seen rest, validFrom false false dep seen (m.val ++ rest) =
      validFrom false false dep true rest) (rest : Text) :
    validFrom false false dep seen (m.render ++ rest) =
      validFrom false false dep true rest := by
  have text : m.render ++ rest = m.lead ++ (quote m.key ++
      (m.gap ++ ':' :: (m.pad ++ (m.val ++ (m.trail ++ rest))))) := by
    simp [Member.render, Member.fromKey, Member.fromValue]
  rw [text, validFrom_blank dep seen spaced.lead,
    validFrom_quote dep seen key, validFrom_blank dep true spaced.gap,
    validFrom_plain dep true (by decide) (by decide),
    validFrom_blank dep true spaced.pad, value,
    validFrom_blank dep true spaced.trail]

/-- Brackets match and strings are closed in what is derived. -/
theorem validFrom_derives {part : Part} {value : Json}
    (derives : Derives part text value) (rest : Text) :
    validFrom false false dep seen (text ++ rest) =
      validFrom false false dep true rest := by
  have comma : ∀ dep seen rest, validFrom false false dep seen (',' :: rest) =
      validFrom false false dep true rest :=
    fun dep seen => validFrom_plain dep seen (by decide) (by decide)
  induction derives generalizing dep seen rest with
  | wordNull | wordTrue | wordFalse =>
      exact validFrom_atom dep seen (by decide) (by decide) (by decide) rest
  | number number =>
      exact validFrom_atom dep seen number.ne_nil number.isAtomChar
        number.isTextChar rest
  | string chars => exact validFrom_quote dep seen chars rest
  | noElements space =>
      exact validFrom_brackets dep seen (.inl ⟨rfl, rfl⟩)
        (validFrom_blank (dep + 1) true space) rest
  | array _ induction =>
      exact validFrom_brackets dep seen (.inl ⟨rfl, rfl⟩)
        (induction (dep + 1) true) rest
  | noMembers space =>
      exact validFrom_brackets dep seen (.inr ⟨rfl, rfl⟩)
        (validFrom_blank (dep + 1) true space) rest
  | object _ induction =>
      exact validFrom_brackets dep seen (.inr ⟨rfl, rfl⟩)
        (induction (dep + 1) true) rest
  | element lead _ trail induction =>
      rw [List.append_assoc, List.append_assoc, validFrom_blank dep seen lead,
        induction, validFrom_blank dep true trail]
  | elements lead _ trail _ first others =>
      simp only [List.append_assoc, List.cons_append]
      rw [validFrom_blank dep seen lead, first, validFrom_blank dep true trail,
        comma, others]
  | member spaced key _ induction =>
      exact validFrom_member dep seen spaced key
        (fun dep seen => induction dep seen) rest
  | members spaced key _ _ first others =>
      rw [List.append_assoc, List.cons_append, validFrom_member dep seen spaced
        key (fun dep seen => first dep seen), comma, others]

end Check

theorem validJson_of_denotes {value : Json} (denotes : Denotes text value) :
    validJson text = true := by
  obtain ⟨before, middle, after, split, beforeBlank, derives, afterBlank⟩ :=
    denotes
  have behind := validFrom_blank 0 true afterBlank []
  rw [List.append_nil] at behind
  rw [validJson, split, validFrom_blank 0 false beforeBlank,
    validFrom_derives 0 false derives, behind]
  rfl

theorem writeFile_of_denotes {out : Text} {value : Json}
    (denotes : Denotes out value) :
    writeFile out = some (out ++ ['\n']) ∧ Denotes (out ++ ['\n']) value :=
  ⟨if_pos (validJson_of_denotes denotes), denotes_append_newline.mpr denotes⟩

theorem commaUnless_blank {close : Char} (blanks : blank space = true)
    (solid : isSpace close = false) (rest : Text) :
    commaUnless close (space ++ close :: rest) = [] := by
  rw [commaUnless, dropWhile_isSpace_blank blanks,
    List.dropWhile_cons_of_neg (by simp [solid])]
  exact if_pos rfl

theorem commaUnless_other {close : Char} (blanks : blank space = true)
    (solid : isSpace c = false) (other : c ≠ close) (rest : Text) :
    commaUnless close (space ++ c :: rest) = [','] := by
  rw [commaUnless, dropWhile_isSpace_blank blanks,
    List.dropWhile_cons_of_neg (by simp [solid])]
  exact if_neg (by simpa using other)

theorem joinCut_next (front : Text) {space : Text}
    (blanks : blank space = true) (after : Text) :
    joinCut front (space ++ ',' :: after) = front ++ after := by
  have comma : (',' :: after).dropWhile isSpace = ',' :: after := by
    rw [List.dropWhile_cons_of_neg (by decide)]
  rw [joinCut, dropWhile_isSpace_blank blanks]
  exact if_pos rfl

theorem joinCut_end {front space after : Text} {c : Char}
    (blanks : blank space = true) (solid : isSpace c = false)
    (noComma : c ≠ ',') :
    joinCut front (space ++ c :: after) = dropComma front ++ c :: after := by
  have here : (c :: after).dropWhile isSpace = c :: after := by
    rw [List.dropWhile_cons_of_neg (by simp [solid])]
  rw [joinCut, dropWhile_isSpace_blank blanks, here]
  exact if_neg noComma

variable {front : Text}

theorem reverse_dropWhile_blank (blanks : blank space = true)
    (solid : isSpace c = false) :
    (front ++ c :: space).reverse.dropWhile isSpace = c :: front.reverse := by
  have turned : blank space.reverse = true := by simpa [blank] using blanks
  have text : (front ++ c :: space).reverse =
      space.reverse ++ c :: front.reverse := by simp
  rw [text, dropWhile_isSpace_blank turned,
    List.dropWhile_cons_of_neg (by simp [solid])]

theorem dropComma_comma (blanks : blank space = true) :
    dropComma (front ++ ',' :: space) = front := by
  rw [dropComma, reverse_dropWhile_blank blanks (by decide)]
  exact (if_pos rfl).trans (List.reverse_reverse front)

theorem dropComma_other (blanks : blank space = true) (solid : isSpace c = false)
    (noComma : c ≠ ',') : dropComma (front ++ c :: space) = front ++ [c] := by
  rw [dropComma, reverse_dropWhile_blank blanks solid]
  exact (if_neg noComma).trans (by simp)

theorem denotes_joinCut {left right : List (Text × Json)} {pre post : Text}
    {before after : List Member} {m : Member} (preBlank : blank pre = true)
    (postBlank : blank post = true)
    (leftMeans : List.Forall₂ Member.Means before left) (spaced : m.Spaced)
    (rightMeans : List.Forall₂ Member.Means after right) :
    Denotes (joinCut (pre ++ ('{' :: (before.flatMap fun other =>
      other.render ++ [',']) ++ m.lead)) (closing after post))
      (.object (left ++ right)) := by
  have means := @means_cut _ _ m [] _ _ spaced leftMeans rightMeans
  cases rightMeans with
  | @cons next _ after _ meant others =>
      refine ⟨pre, _, post, ?_, preBlank, derives_object rfl means, postBlank⟩
      have behind := @joinCut_next (pre ++ ('{' :: (before.flatMap fun other =>
        other.render ++ [',']) ++ m.lead)) [] rfl
        (next.render ++ closing after post)
      rw [List.nil_append] at behind
      rw [closing_cons, behind, cut, render_split]
      simp [front, Member.render, Member.fromKey, Member.fromValue]
  | nil =>
      have brace : isSpace '}' = false := by decide
      have behind := @joinCut_end (pre ++ ('{' ::
        (before.flatMap fun other => other.render ++ [',']) ++ m.lead)) [] post
        '}' rfl brace (by decide)
      rw [List.nil_append] at behind
      rw [List.append_nil, closing_nil, behind]
      rcases List.eq_nil_or_concat before with rfl | ⟨init, last, rfl⟩
      · cases leftMeans
        have open_ : isSpace '{' = false := by decide
        have text : pre ++ ('{' :: ([].flatMap fun other : Member =>
            other.render ++ [',']) ++ m.lead) = pre ++ '{' :: m.lead := rfl
        rw [text, dropComma_other spaced.lead open_ (by decide)]
        refine ⟨pre, _, post, ?_, preBlank,
          @derives_object ⟨[], []⟩ [] rfl .nil, postBlank⟩
        simp [Obj.render, Obj.inner]
      · have text : pre ++ ('{' :: ((init.concat last).flatMap fun other =>
            other.render ++ [',']) ++ m.lead) =
            (pre ++ '{' :: (init.flatMap fun other => other.render ++ [',']) ++
              last.render) ++ ',' :: m.lead := by simp
        rw [text, dropComma_comma spaced.lead]
        rw [List.concat_eq_append] at leftMeans
        refine ⟨pre, _, post, ?_, preBlank,
          @derives_object ⟨init ++ [last], []⟩ _ rfl leftMeans, postBlank⟩
        rw [render_split, closing_nil]
        simp [front, Member.render, Member.fromKey]

variable {lit : Text} {new : Json}

theorem denotes_inFront {file key pre post : Text} {o : Obj}
    {entries : List (Text × Json)} (preBlank : blank pre = true)
    (postBlank : blank post = true) (object : ObjectFile file o entries)
    (free : escapeFree key = true) (derives : Derives .value lit new) :
    Denotes (pre ++ ['{'] ++ (quote key ++ ':' :: (lit ++
      (commaUnless '}' (o.inner ++ '}' :: post) ++ (o.inner ++ '}' :: post)))))
      (.object ((key, new) :: entries)) := by
  obtain ⟨members, hollow⟩ := o
  have space : blank hollow = true := object.hollow
  have means := object.means
  cases members with
  | nil =>
      cases means
      have alone : Member.Means ⟨[], key, [], [], lit, hollow⟩ (key, new) :=
        ⟨⟨rfl, rfl, rfl, space⟩, chars_of_escapeFree free, rfl, derives⟩
      refine ⟨pre, _, post, ?_, preBlank,
        @derives_object ⟨[_], []⟩ _ rfl (.cons alone .nil), postBlank⟩
      simp only [Obj.inner]
      rw [commaUnless_blank space (by decide)]
      simp [Obj.render, Obj.inner, Member.render, Member.fromKey,
        Member.fromValue, more]
  | cons m rest =>
      have lead : blank m.lead = true := by
        cases means with
        | cons meant _ => exact meant.spaced.lead
      have comma : commaUnless '}' ((Obj.mk (m :: rest) hollow).inner ++
          '}' :: post) = [','] := by
        simp only [Obj.inner, Member.render, List.append_assoc]
        exact commaUnless_other lead (by decide) (by decide) _
      refine ⟨pre, _, post, ?_, preBlank,
        @derives_object ⟨bare key lit :: m :: rest, []⟩ _ rfl
          (.cons (means_bare free derives) means), postBlank⟩
      rw [comma]
      simp [Obj.render, Obj.inner, bare, Member.render, Member.fromKey,
        Member.fromValue, more]

/-- The first quoted `key` of the file is the name of the member in that
place. -/
structure NamedAt (file key : Text) (left : List (Text × Json)) (value : Json)
    (right : List (Text × Json)) (before val behind : Text) : Prop where
  place : MemberAt left key value right before val behind
  text : file = before ++ (val ++ behind)
  first : ∃ early gap pad,
    before = early ++ (quote key ++ (gap ++ ':' :: pad)) ∧
    blank gap = true ∧ blank pad = true ∧
    strstr file (quote key) =
      some (quote key ++ (gap ++ ':' :: (pad ++ (val ++ behind))))

theorem NameFirst.namedAt {file key : Text} {entries : List (Text × Json)}
    (first : NameFirst file key entries) :
    ∃ left value right before val behind,
      entries = left ++ (key, value) :: right ∧
      NamedAt file key left value right before val behind := by
  obtain ⟨left, value, right, before, val, behind, early, gap, pad, split,
    place, text, ahead, gapBlank, padBlank, search⟩ := first.found
  exact ⟨left, value, right, before, val, behind, split, place, text, early, gap,
    pad, ahead, gapBlank, padBlank, search⟩

theorem count_name (key : Text) {gap pad : Text} (gapBlank : blank gap = true)
    (padBlank : blank pad = true) :
    (quote key ++ (gap ++ ':' :: pad)).count '"' = (quote key).count '"' := by
  have none : ∀ {space : Text}, blank space = true → space.count '"' = 0 := by
    intro space blanks
    apply List.count_eq_zero.mpr
    intro member
    exact absurd (List.all_eq_true.mp blanks _ member) (by decide)
  simp [none gapBlank, none padBlank]

theorem eq_nil_of_quote {key behind behind' x : Text}
    (same : quote key ++ behind = x ++ (quote key ++ behind'))
    (quotes : (quote key ++ behind).count '"' =
      (quote key ++ behind').count '"') : x = [] := by
  cases x with
  | nil => rfl
  | cons c x =>
      have opens : c = '"' := (List.cons.inj same).1.symm
      rw [same, List.count_append, opens, List.count_cons_self] at quotes
      omega

/-- A text ends with a name and a colon in one way. -/
theorem early_unique {early early' key gap gap' pad pad' : Text}
    (gapBlank : blank gap = true) (padBlank : blank pad = true)
    (gapBlank' : blank gap' = true) (padBlank' : blank pad' = true)
    (same : early ++ (quote key ++ (gap ++ ':' :: pad)) =
      early' ++ (quote key ++ (gap' ++ ':' :: pad'))) : early = early' := by
  have quotes := (count_name key gapBlank padBlank).trans
    (count_name key gapBlank' padBlank').symm
  rcases List.append_eq_append_iff.mp same with
    ⟨x, longer, tail⟩ | ⟨x, longer, tail⟩
  · rw [longer, eq_nil_of_quote tail quotes, List.append_nil]
  · rw [longer, eq_nil_of_quote tail quotes.symm, List.append_nil]

namespace NamedAt

variable {file key : Text} {left right : List (Text × Json)} {value : Json}
  {before val behind : Text}

section

variable (named : NamedAt file key left value right before val behind)
include named

theorem denotes :
    Denotes file (.object (left ++ (key, value) :: right)) := by
  rw [named.text]
  exact named.place.denotes

/-- What is found, and the place for another value there, with the white space
behind the value or without it. -/
theorem findKey (free : escapeFree key = true) :
    ∃ p trail c rest, HncJsonC.findKey file key =
        some ⟨p, val ++ behind, c :: rest⟩ ∧ behind = trail ++ c :: rest ∧
      blank trail = true ∧ (c = ',' ∨ c = '}') ∧
      ∀ {text : Text} {new : Json}, Derives .value text new →
        MemberAt left key new right before text behind ∧
          MemberAt left key new right before text (c :: rest) := by
  obtain ⟨trail, c, rest, ends, trailBlank, stops, put⟩ := named.place.put
  obtain ⟨_, gap, pad, _, gapBlank, padBlank, search⟩ := named.first
  rw [ends] at search
  have found := findKey_member free search rfl gapBlank padBlank
    named.place.derives trailBlank stops
  rw [← ends] at found
  exact ⟨_, trail, c, rest, found, ends, trailBlank, stops, put⟩

theorem joinCut (free : escapeFree key = true) :
    ∃ found, HncJsonC.findKey file key = some found ∧
      Denotes (HncJsonC.joinCut (upTo file found.p) found.fin)
        (.object (left ++ right)) := by
  obtain ⟨place, text, early, gap, pad, ahead, gapBlank, padBlank, search⟩ :=
    named
  cases place with
  | @place pre post members after m preBlank postBlank leftMeans meant
      rightMeans =>
  have name : key = m.key := meant.name
  have spaced := meant.spaced
  have start : early = pre ++ ('{' :: (members.flatMap fun other =>
      other.render ++ [',']) ++ m.lead) := by
    apply early_unique gapBlank padBlank spaced.gap spaced.pad
    rw [← ahead, name]
    simp [front]
  obtain ⟨c, rest, closes, stops⟩ : ∃ c rest, closing after post = c :: rest ∧
      (c = ',' ∨ c = '}') := by
    cases after with
    | nil => exact ⟨'}', post, rfl, .inr rfl⟩
    | cons next after => exact ⟨',', _, closing_cons next after post, .inl rfl⟩
  rw [closes] at search
  have found := findKey_member free search rfl gapBlank padBlank meant.value
    spaced.trail stops
  refine ⟨_, found, ?_⟩
  have whole : file = early ++ (quote key ++ (gap ++ ':' :: (pad ++
      (m.val ++ (m.trail ++ c :: rest))))) := by
    rw [text, ahead, closes]
    simp
  rw [whole, upTo_append, start, ← closes]
  exact denotes_joinCut preBlank postBlank leftMeans spaced rightMeans

end

end NamedAt

section Named

variable {file key : Text} {left right : List (Text × Json)} {value : Json}
  {before val behind : Text}
  (named : NamedAt file key left value right before val behind)
  (free : escapeFree key = true)

include named free

theorem setObjectKey_named {v : Text} {typ : LiteralType}
    (spelled : literal v typ = some lit) (derives : Derives .value lit new) :
    ∃ out, setObjectKey file key v typ = some out ∧
      Denotes out (.object (left ++ (key, new) :: right)) := by
  obtain ⟨p, _, c, rest, found, _, _, _, put⟩ := named.findKey free
  obtain ⟨written, denotes⟩ := writeFile_of_denotes (put derives).2.denotes
  refine ⟨_, ?_, denotes⟩
  have front : upTo file (val ++ behind) = before := by
    rw [named.text, upTo_append]
  rw [setObjectKey, cString_of_denotes named.denotes]
  simp only [validJson_of_denotes named.denotes, spelled, found, front]
  exact written

theorem delObjectKey_named :
    ∃ out, delObjectKey file key = some out ∧
      Denotes out (.object (left ++ right)) := by
  obtain ⟨found, search, cut⟩ := named.joinCut free
  obtain ⟨written, denotes⟩ := writeFile_of_denotes cut
  refine ⟨_, ?_, denotes⟩
  rw [delObjectKey, cString_of_denotes named.denotes]
  simp only [validJson_of_denotes named.denotes, search]
  exact written

end Named

section Absent

variable {file key : Text} {entries : List (Text × Json)}
  (denotes : Denotes file (.object entries)) (free : escapeFree key = true)
  (unnamed : Unnamed file key)

include denotes free unnamed

theorem findKey_absent : findKey file key = none := by
  have answer := (getTop_absent_iff denotes free).mpr unnamed
  rw [getTop, cString_of_denotes denotes] at answer
  cases search : findKey file key with
  | none => rfl
  | some found =>
      rw [search] at answer
      cases answer

theorem setObjectKey_absent {v : Text} {typ : LiteralType}
    (spelled : literal v typ = some lit) (derives : Derives .value lit new) :
    ∃ out, setObjectKey file key v typ = some out ∧
      Denotes out (.object ((key, new) :: entries)) := by
  obtain ⟨o, object⟩ := exists_objectFile denotes
  obtain ⟨pre, post, text, preBlank, postBlank⟩ := object.text
  have noBrace : '{' ∉ pre := by
    intro member
    exact absurd (List.all_eq_true.mp preBlank _ member) (by decide)
  have split : file = (pre ++ ['{']) ++ (o.inner ++ '}' :: post) := by
    rw [text, Obj.render]
    simp
  have brace : strchr file '{' = some ('{' :: (o.inner ++ '}' :: post)) := by
    rw [split, List.append_assoc]
    exact strchr_found noBrace _
  have front : upTo file (o.inner ++ '}' :: post) = pre ++ ['{'] := by
    rw [split, upTo_append]
  obtain ⟨written, result⟩ := writeFile_of_denotes
    (denotes_inFront preBlank postBlank object free derives)
  refine ⟨_, ?_, result⟩
  rw [setObjectKey, cString_of_denotes denotes]
  simp only [validJson_of_denotes denotes, spelled,
    findKey_absent denotes free unnamed, brace, List.tail_cons, front,
    escstr_of_escapeFree free]
  exact written

theorem delObjectKey_absent : delObjectKey file key = some file := by
  rw [delObjectKey, cString_of_denotes denotes]
  simp only [validJson_of_denotes denotes, if_true,
    findKey_absent denotes free unnamed]

end Absent

end HncJsonC

end Hnc
