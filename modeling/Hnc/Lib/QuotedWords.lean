import Hnc.Lib.GrepSed
import Hnc.Lib.JsonSearch

/-!
# Quoted words in a line of JSON

A pattern that begins with a quoted word is quiet on a stretch of text when no
match starts there.  `grep -o` and `sed` pass over such a stretch.
-/

namespace Posix

open JsonText

variable {Value : Type}

/-- No match starts in `front`, when `rest` follows. -/
def Quiet (pattern : Text → Option Value) : Text → Text → Prop
  | [], _ => True
  | c :: front, rest =>
      pattern (c :: (front ++ rest)) = none ∧ Quiet pattern front rest

variable {pattern : Text → Option Value} {rest : Text}

theorem Quiet.append {left right : Text}
    (first : Quiet pattern left (right ++ rest))
    (second : Quiet pattern right rest) : Quiet pattern (left ++ right) rest := by
  induction left with
  | nil => exact second
  | cons c left induction =>
      refine ⟨?_, induction first.2⟩
      have text : left ++ right ++ rest = left ++ (right ++ rest) :=
        List.append_assoc left right rest
      exact (congrArg (fun tail => pattern (c :: tail)) text).trans first.1

/-- On one line a pattern without hits is quiet. -/
theorem quiet_of_hits {front : Text} (oneLine : '\n' ∉ front ++ rest)
    (missed : hits pattern front rest = []) : Quiet pattern front rest := by
  induction front with
  | nil => trivial
  | cons c front induction =>
      obtain ⟨here, later⟩ := List.append_eq_nil_iff.mp missed
      rw [← List.cons_append, lineOf_self oneLine] at here
      constructor
      · exact Option.toList_eq_nil_iff.mp here
      · exact induction (fun member => oneLine (List.mem_cons_of_mem c member)) later

theorem hits_front_of_single {front behind : Text} {value : Value}
    (single : hits pattern (front ++ behind) rest = [value])
    (here : hits pattern behind rest ≠ []) :
    hits pattern front (behind ++ rest) = [] := by
  rw [hits_append] at single
  rcases List.append_eq_singleton_iff.mp single with ⟨none, _⟩ | ⟨_, none⟩
  · exact none
  · exact absurd none here

theorem grepFrom_skip (pattern : Text → Option Text) (front rest : Text) :
    grepFrom pattern front.length (front ++ rest) = grepO pattern rest := by
  induction front with
  | nil => rfl
  | cons c front induction => exact induction

theorem grepO_quiet {pattern : Text → Option Text} {front : Text}
    (quiet : Quiet pattern front rest) :
    grepO pattern (front ++ rest) = grepO pattern rest := by
  induction front with
  | nil => rfl
  | cons c front induction =>
      rw [← induction quiet.2, List.cons_append, grepO, grepFrom, quiet.1]
      rfl

theorem grepO_match {pattern : Text → Option Text} {found : Text}
    (nonempty : found ≠ []) (matched : pattern (found ++ rest) = some rest) :
    grepO pattern (found ++ rest) = found :: grepO pattern rest := by
  obtain ⟨c, more, rfl⟩ := List.exists_cons_of_ne_nil nonempty
  have length : (more ++ rest).length - rest.length = more.length := by
    rw [List.length_append, Nat.add_sub_cancel]
  rw [List.cons_append] at matched ⊢
  rw [grepO, grepFrom, matched]
  dsimp only
  rw [length, grepFrom_skip, ← List.cons_append, upTo_append]

/-- `s/pattern/new/`, where `pattern` answers with what follows a match. -/
def substitute (pattern : Text → Option Text) (new : Text) : Text → Text
  | [] => []
  | c :: rest =>
      match pattern (c :: rest) with
      | none => c :: substitute pattern new rest
      | some behind => new ++ behind

theorem substitute_quiet {pattern : Text → Option Text} {front : Text}
    (new : Text) (quiet : Quiet pattern front rest) :
    substitute pattern new (front ++ rest) =
      front ++ substitute pattern new rest := by
  induction front with
  | nil => rfl
  | cons c front induction =>
      rw [List.cons_append, List.cons_append, ← induction quiet.2, substitute,
        quiet.1]

variable {text : Text}

theorem substitute_match {pattern : Text → Option Text} {behind : Text}
    (new : Text) (nonempty : text ≠ []) (matched : pattern text = some behind) :
    substitute pattern new text = new ++ behind := by
  obtain ⟨c, rest, rfl⟩ := List.exists_cons_of_ne_nil nonempty
  rw [substitute, matched]

/-- A match stays one when the text goes on. -/
def Grows (pattern : Text → Option Value) : Prop :=
  ∀ text more, (pattern text).isSome = true → (pattern (text ++ more)).isSome = true

theorem Quiet.truncate {pattern : Text → Option Value} (grows : Grows pattern)
    {front rest more : Text} (quiet : Quiet pattern front (rest ++ more)) :
    Quiet pattern front rest := by
  induction front with
  | nil => trivial
  | cons c front induction =>
      refine ⟨?_, induction quiet.2⟩
      cases found : pattern (c :: (front ++ rest)) with
      | none => rfl
      | some value =>
          have longer := grows (c :: (front ++ rest)) more (by rw [found]; rfl)
          rw [List.cons_append, List.append_assoc, quiet.1] at longer
          cases longer

theorem Quiet.front {left right : Text}
    (quiet : Quiet pattern (left ++ right) rest) :
    Quiet pattern left (right ++ rest) := by
  induction left with
  | nil => trivial
  | cons c left induction =>
      have text : left ++ right ++ rest = left ++ (right ++ rest) :=
        List.append_assoc left right rest
      exact ⟨(congrArg (fun tail => pattern (c :: tail)) text).symm.trans quiet.1,
        induction quiet.2⟩

theorem closed_append (body rest : Text) :
    body ++ ['"'] ++ rest = body ++ '"' :: rest :=
  List.append_assoc body ['"'] rest

theorem quote_append (word rest : Text) :
    quote word ++ rest = '"' :: (word ++ '"' :: rest) :=
  congrArg ('"' :: ·) (closed_append word rest)

variable {c : Char}

theorem named_other (key : Text) (behind : Text → Option Value) (other : c ≠ '"')
    (rest : Text) : named key behind (c :: rest) = none := by
  rw [named]
  cases found : after? (quote key) (c :: rest) with
  | none => rfl
  | some tail =>
      have same := after?_eq_some.mp found
      exact absurd (List.cons.inj same).1 other

theorem quiet_named_of_not_mem (key : Text) (behind : Text → Option Value)
    (free : '"' ∉ text) (rest : Text) : Quiet (named key behind) text rest := by
  induction text with
  | nil => trivial
  | cons c text induction =>
      rw [List.mem_cons, not_or] at free
      exact ⟨named_other key behind (Ne.symm free.1) _, induction free.2⟩

variable {body : Text}

/-- A quoted word that is not the key. -/
theorem quiet_named_quote {key : Text} (name : KeyName key)
    (behind : Text → Option Value) (plain : plainKey body = true)
    (other : body ≠ key) (apart : Apart rest)
    (oneLine : '\n' ∉ quote body ++ rest) :
    Quiet (named key behind) (quote body) rest := by
  apply quiet_of_hits oneLine
  rw [hits_quote_plain name behind apart plain, if_neg other]

theorem named_here (key : Text) (behind : Text → Option Value) (rest : Text) :
    named key behind (quote key ++ rest) = behind rest := by
  have found : after? (quote key) (quote key ++ rest) = some rest :=
    after?_eq_some.mpr rfl
  rw [named, found]
  rfl

theorem grows_named (key : Text) {parse : Text → Option Value}
    (grows : Grows parse) : Grows (named key (tightColon parse)) := by
  intro text more found
  obtain ⟨value, matched⟩ := Option.isSome_iff_exists.mp found
  obtain ⟨behind, key_found, parsed⟩ := Option.bind_eq_some_iff.mp matched
  rw [after?_eq_some.mp key_found, List.append_assoc, named_here]
  unfold tightColon at parsed
  split at parsed
  · rename_i rest
    exact grows rest more (Option.isSome_iff_exists.mpr ⟨value, parsed⟩)
  · cases parsed

/-- The text of an object in front of a member. -/
def opening (before : List (Text × Text)) : Text :=
  '\x7b' :: (before.map Member.tight).flatMap fun m => m.render ++ [',']

theorem render_opening (before : List (Text × Text)) (key val : Text)
    (after : List (Text × Text)) :
    (Obj.mk ((before ++ (key, val) :: after).map Member.tight) []).render =
      opening before ++
        (quote key ++ ':' :: (val ++ closing (after.map Member.tight) [])) := by
  have split := render_split (before.map Member.tight) (Member.tight (key, val))
    (after.map Member.tight) [] []
  rw [List.append_nil] at split
  rw [List.map_append, List.map_cons, split]
  simp [front, opening, Member.tight, Member.fromValue]

theorem closing_append (after : List Member) (rest : Text) :
    closing after [] ++ rest = closing after rest := by
  simp [closing]

/-- In front of its member the pattern of a key is quiet. -/
theorem quiet_opening {key val rest : Text} {value : Value} (name : KeyName key)
    (parse : Text → Option Value) {before after : List (Text × Text)}
    (wf : (Obj.mk ((before ++ (key, val) :: after).map Member.tight) []).Wf)
    (scalars : ∀ m ∈ before ++ (key, val) :: after, Scalar m.2)
    (others : ∀ m ∈ before ++ after, m.1 ≠ key)
    (oneLine : '\n' ∉ opening before ++
      (quote key ++ ':' :: (val ++ closing (after.map Member.tight) rest)))
    (matched : parse (val ++ closing (after.map Member.tight) rest) = some value) :
    Quiet (named key (tightColon parse)) (opening before)
      (quote key ++ ':' :: (val ++ closing (after.map Member.tight) rest)) := by
  have valueLine : '\n' ∉ val ++ closing (after.map Member.tight) rest := by
    intro member
    apply oneLine
    exact List.mem_append_right _
      (List.mem_append_right _ (List.mem_cons_of_mem ':' member))
  have tail : quote key ++ ':' :: (val ++ closing (after.map Member.tight) []) ++
      rest = quote key ++ ':' :: (val ++ closing (after.map Member.tight) rest) := by
    rw [← closing_append (after.map Member.tight) rest]
    simp
  have single := hits_obj name (tightColon parse) wf rest
  rw [hitsIn_tight name parse scalars others, lineOf_self valueLine, matched,
    render_opening] at single
  have here : hits (named key (tightColon parse))
      (quote key ++ ':' :: (val ++ closing (after.map Member.tight) [])) rest ≠
        [] := by
    have found := named_at_quote name (tightColon parse)
      (body_of_plainKey name.plain)
      (':' :: (val ++ closing (after.map Member.tight) rest))
    have colonLine : '\n' ∉ ':' :: (val ++ closing (after.map Member.tight) rest) := by
      rw [List.mem_cons, not_or]
      exact ⟨by decide, valueLine⟩
    rw [if_pos rfl, lineOf_self colonLine, tightColon, matched, ← quote_append, ← tail]
      at found
    intro empty
    obtain ⟨none, _⟩ := List.append_eq_nil_iff.mp empty
    rw [Option.toList_eq_nil_iff] at none
    cases none.symm.trans found
  rw [← tail] at oneLine ⊢
  exact quiet_of_hits oneLine (hits_front_of_single single here)

/-- A quoted word of a class, and what `behind` accepts behind it. -/
def worded (good : Text → Bool) (behind : Text → Option Value) :
    Text → Option Value
  | '"' :: rest =>
      if good (rest.takeWhile (· != '"')) then
        match rest.dropWhile (· != '"') with
        | [] => none
        | _ :: tail => behind tail
      else none
  | _ => none

/-- A character that stands behind a value, or in front of an escaped one. -/
def isPunct (c : Char) : Bool :=
  c == ',' || c == '\x7b' || c == '\x7d' || c == '\\'

/-- A class of words without punctuation. -/
structure WordClass (good : Text → Bool) : Prop where
  free : ∀ word, good word = true → ∀ c ∈ word, isPunct c = false
  colon : good [':'] = false

/-- What may stand behind the value of a member. -/
def Stops (behind : Text → Option Value) : Prop :=
  ∀ c tail, c = ',' ∨ c = '\x7d' → behind (c :: tail) = none

theorem takeWhile_until {word : Text} (free : c ∉ word) (rest : Text) :
    (word ++ c :: rest).takeWhile (· != c) = word := by
  have visible : ∀ d ∈ word, (d != c) = true := by
    intro d member
    apply bne_iff_ne.mpr
    rintro rfl
    exact free member
  rw [List.takeWhile_append_of_pos visible,
    List.takeWhile_cons_of_neg (by simp), List.append_nil]

theorem dropWhile_until {word : Text} (free : c ∉ word) (rest : Text) :
    (word ++ c :: rest).dropWhile (· != c) = c :: rest := by
  have whole := List.takeWhile_append_dropWhile (p := (· != c))
    (l := word ++ c :: rest)
  rw [takeWhile_until free] at whole
  exact List.append_cancel_left whole

section Words

variable {good : Text → Bool} (behind : Text → Option Value)

theorem worded_other (other : c ≠ '"') (rest : Text) :
    worded good behind (c :: rest) = none := by
  unfold worded
  split
  · rename_i same
    exact absurd (List.cons.inj same).1 other
  · rfl

theorem worded_quote {word : Text} (free : '"' ∉ word) (rest : Text) :
    worded good behind ('"' :: (word ++ '"' :: rest)) =
      if good word = true then behind rest else none := by
  rw [worded, takeWhile_until free, dropWhile_until free]

theorem quiet_of_not_mem (free : '"' ∉ text) (rest : Text) :
    Quiet (worded good behind) text rest := by
  induction text with
  | nil => trivial
  | cons c text induction =>
      rw [List.mem_cons, not_or] at free
      exact ⟨worded_other behind (Ne.symm free.1) _, induction free.2⟩

variable (words : WordClass good)
include words

/-- Punctuation in front of the next quote. -/
theorem worded_punct {front : Text} (free : '"' ∉ front) {c : Char}
    (punct : isPunct c = true) (rest : Text) :
    worded good behind ('"' :: (front ++ c :: rest)) = none := by
  have visible : ∀ d ∈ front, (d != '"') = true := by
    intro d member
    apply bne_iff_ne.mpr
    rintro rfl
    exact free member
  have other : (c != '"') = true := by
    apply bne_iff_ne.mpr
    rintro rfl
    cases punct
  have bad : good ((front ++ c :: rest).takeWhile (· != '"')) = false := by
    apply Bool.eq_false_iff.mpr
    intro word
    rw [List.takeWhile_append_of_pos visible,
      List.takeWhile_cons_of_pos (p := (· != '"')) other] at word
    have clean := words.free _ word c (List.mem_append_right _ List.mem_cons_self)
    rw [punct] at clean
    cases clean
  rw [worded, bad]
  rfl

omit words in
/-- A string has no quote, or a backslash in front of the first one. -/
theorem body_cases (ok : Body false body) :
    '"' ∉ body ∨ ∃ front rest, body = front ++ '\\' :: rest ∧ '"' ∉ front := by
  induction body with
  | nil => exact .inl List.not_mem_nil
  | cons c body induction =>
      cases ok with
      | slash _ => exact .inr ⟨[], body, rfl, List.not_mem_nil⟩
      | plain _ quoteFree tailOk =>
          rcases induction tailOk with free | ⟨front, rest, rfl, free⟩
          · left
            rw [List.mem_cons, not_or]
            exact ⟨Ne.symm quoteFree, free⟩
          · right
            refine ⟨c :: front, rest, rfl, ?_⟩
            rw [List.mem_cons, not_or]
            exact ⟨Ne.symm quoteFree, free⟩

/-- The pattern at the quote in front of a string. -/
theorem worded_body (ok : Body false body) (closed : behind rest = none) :
    worded good behind ('"' :: (body ++ '"' :: rest)) = none := by
  rcases body_cases ok with free | ⟨front, tail, rfl, free⟩
  · rw [worded_quote behind free, closed, ite_self]
  · rw [List.append_assoc]
    exact worded_punct behind words free (by decide) _

theorem quiet_body {esc : Bool} (ok : Body esc body) (stops : Stops behind)
    {tail : Text} (text : rest = c :: tail) (ends : c = ',' ∨ c = '\x7d') :
    Quiet (worded good behind) (body ++ ['"']) rest := by
  have closed : behind rest = none := text ▸ stops c tail ends
  induction ok with
  | done =>
      refine ⟨?_, trivial⟩
      rw [text]
      refine worded_punct behind words List.not_mem_nil ?_ tail
      rcases ends with rfl | rfl
      · decide
      · decide
  | slash _ induction => exact ⟨worded_other behind (by decide) _, induction⟩
  | @escaped body d tailOk induction =>
      refine ⟨?_, induction⟩
      by_cases quoteChar : d = '"'
      · have inner := worded_body behind words tailOk closed
        rw [← closed_append body rest] at inner
        exact quoteChar ▸ inner
      · exact worded_other behind quoteChar _
  | plain _ quoteFree _ induction =>
      exact ⟨worded_other behind quoteFree _, induction⟩

theorem quiet_member {key val : Text} (keyFree : '"' ∉ key)
    (other : good key = false) (scalar : Scalar val) (stops : Stops behind)
    {tail : Text} (text : rest = c :: tail) (ends : c = ',' ∨ c = '\x7d') :
    Quiet (worded good behind) (quote key ++ ':' :: val) rest := by
  have punct : isPunct c = true := by
    rcases ends with rfl | rfl
    · decide
    · decide
  have opening : worded good behind
      ('"' :: (key ++ '"' :: (':' :: (val ++ rest)))) = none := by
    rw [worded_quote behind keyFree, other]
    rfl
  have colonFree : '"' ∉ [':'] := by decide
  have closing : worded good behind ('"' :: ':' :: (val ++ rest)) = none := by
    rcases scalar with free | ⟨body, rfl, _⟩
    · rw [text]
      have colonVal : '"' ∉ ':' :: val := by
        rw [List.mem_cons, not_or]
        exact ⟨by decide, free⟩
      exact worded_punct behind words colonVal punct tail
    · have word := @worded_quote _ good behind _ colonFree (body ++ '"' :: rest)
      rw [words.colon, ← closed_append body rest] at word
      exact word
  have value : Quiet (worded good behind) val rest := by
    rcases scalar with free | ⟨body, rfl, ok⟩
    · exact quiet_of_not_mem behind free rest
    · have inner := worded_body behind words ok (text ▸ stops c tail ends)
      rw [← closed_append body rest] at inner
      exact ⟨inner, quiet_body behind words ok stops text ends⟩
  have tailText : Quiet (worded good behind) ('"' :: ':' :: val) rest :=
    ⟨closing, worded_other behind (by decide) _, value⟩
  have front : key ++ '"' :: ':' :: val ++ rest =
      key ++ '"' :: ':' :: (val ++ rest) :=
    List.append_assoc key ('"' :: ':' :: val) rest
  rw [quote_append]
  refine ⟨?_, (quiet_of_not_mem behind keyFree _).append tailText⟩
  rw [front]
  exact opening

theorem quiet_object {members : List (Text × Text)} (stops : Stops behind)
    (keys : ∀ m ∈ members, '"' ∉ m.1 ∧ good m.1 = false)
    (scalars : ∀ m ∈ members, Scalar m.2) (rest : Text) :
    Quiet (worded good behind) (Obj.mk (members.map Member.tight) []).render
      rest := by
  have single : ∀ m ∈ members, ∀ after : List Member,
      Quiet (worded good behind) (Member.tight m).render
        (more after ++ ['\x7d'] ++ rest) := by
    intro m member after
    have behindText : more after ++ ['\x7d'] ++ rest = closing after rest := by
      simp [closing]
    rw [behindText]
    have text : (Member.tight m).render = quote m.1 ++ ':' :: m.2 := by
      simp [Member.render, Member.fromKey, Member.fromValue, Member.tight]
    obtain ⟨tail, comma | brace⟩ := closing_cases after rest
    · rw [text]
      exact quiet_member behind words (keys m member).1 (keys m member).2
        (scalars m member) stops comma (.inl rfl)
    · rw [text]
      exact quiet_member behind words (keys m member).1 (keys m member).2
        (scalars m member) stops brace (.inr rfl)
  have tail : ∀ after : List (Text × Text), (∀ m ∈ after, m ∈ members) →
      Quiet (worded good behind) (more (after.map Member.tight) ++ ['\x7d'])
        rest := by
    intro after within
    induction after with
    | nil => exact quiet_of_not_mem behind (by decide) rest
    | cons m after induction =>
        have text : more ((m :: after).map Member.tight) ++ ['\x7d'] =
            [','] ++ ((Member.tight m).render ++
              (more (after.map Member.tight) ++ ['\x7d'])) := by
          simp [more]
        have here := single m (within m List.mem_cons_self) (after.map Member.tight)
        rw [text]
        exact (quiet_of_not_mem behind (by decide) _).append
          (here.append (induction fun other member =>
            within other (List.mem_cons_of_mem m member)))
  cases members with
  | nil => exact quiet_of_not_mem behind (by decide) rest
  | cons m after =>
      have text : (Obj.mk ((m :: after).map Member.tight) []).render =
          ['\x7b'] ++ ((Member.tight m).render ++
            (more (after.map Member.tight) ++ ['\x7d'])) := by
        simp [Obj.render, Obj.inner]
      have here := single m List.mem_cons_self (after.map Member.tight)
      rw [text]
      exact (quiet_of_not_mem behind (by decide) _).append
        (here.append (tail after fun other member =>
          List.mem_cons_of_mem m member))

end Words

end Posix
