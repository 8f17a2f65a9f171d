import Hnc.Lib.JsonText
import Hnc.Lib.LineSearch

/-!
# Patterns that look for a key in a JSON text

Scripts that do not parse JSON look for a quoted key on the lines of a file.
In a laid out file such a pattern can only match at a key, or at a string value
that nothing more is asked of.
-/

namespace JsonText

open Posix

variable {Value : Type}

/-- A quoted key and what `behind` accepts on the rest of the line. -/
def named (key : Text) (behind : Text → Option Value) (text : Text) :
    Option Value :=
  (after? (quote key) text).bind behind

/-- `[[:space:]]*:[[:space:]]*` and what `parse` accepts. -/
def colon (parse : Text → Option Value) (text : Text) : Option Value :=
  match text.dropWhile isSpace with
  | ':' :: value => parse (value.dropWhile isSpace)
  | _ => none

theorem keyed_eq_named (key : Text) (parse : Text → Option Value) :
    keyed key parse = named key (colon parse) := by
  funext text
  rw [keyed, afterKey, named, quote]
  cases after? ('"' :: key ++ ['"']) text with
  | none => rfl
  | some behind =>
      rw [Option.bind_some, colon]
      dsimp only
      cases behind.dropWhile isSpace with
      | nil => rfl
      | cons c value =>
          by_cases colon : c = ':'
          · rw [colon]
            rfl
          · simp [colon]

theorem named_nil (key : Text) (behind : Text → Option Value) :
    named key behind [] = none :=
  rfl

theorem quoted_quote_append {value : Text} (plain : plainKey value = true)
    (rest : Text) : quoted (· != '"') (quote value ++ rest) = some value := by
  have inside : ∀ c ∈ value, (c != '"') = true := by
    intro c member
    have char := List.all_eq_true.mp plain c member
    simp only [Bool.and_eq_true] at char
    exact char.1
  have front : (value ++ '"' :: rest).takeWhile (· != '"') = value := by
    rw [List.takeWhile_append_of_pos inside]
    simp
  have behind : (value ++ '"' :: rest).dropWhile (· != '"') = '"' :: rest := by
    rw [List.dropWhile_append_of_pos inside]
    simp
  have text : quote value ++ rest = '"' :: (value ++ '"' :: rest) := by
    simp [quote]
  rw [text, quoted]
  simp [front, behind]

theorem quoted_quote {value : Text} (plain : plainKey value = true) :
    quoted (· != '"') (quote value) = some value := by
  simpa using quoted_quote_append plain []

/-- Looking for a quoted string with `index`. -/
theorem tailFrom_eq_hits (key : Text) {line : Text} (oneLine : '\n' ∉ line) :
    tailFrom (quote key) line =
      (hits (named key some) line []).head?.map fun rest => quote key ++ rest := by
  induction line with
  | nil => rfl
  | cons c line induction =>
      simp only [List.mem_cons, not_or] at oneLine
      have whole : lineOf (c :: (line ++ [])) = c :: line := by
        rw [List.append_nil]
        exact lineOf_self (by simpa using oneLine)
      rw [tailFrom, hits, whole, named]
      cases found : after? (quote key) (c :: line) with
      | none => simpa using induction oneLine.2
      | some rest => simp [after?_eq_some.mp found]

/-- A key that patterns can look for. -/
structure KeyName (key : Text) : Prop where
  plain : plainKey key = true
  oneLine : '\n' ∉ key
  head : ∃ first rest, key = first :: rest ∧ isAtomChar first = true

/-- What stands behind a string does not begin like a key. -/
def Apart (rest : Text) : Prop :=
  ∀ c tail, rest = c :: tail → isAtomChar c = false

variable {rest : Text}

theorem apart_of_blank {space : Text} (blanks : blank space = true)
    (apart : Apart rest) : Apart (space ++ rest) := by
  cases space with
  | nil => exact apart
  | cons c space =>
      intro d tail same
      simp only [List.cons_append, List.cons.injEq] at same
      simp only [blank, List.all_cons, Bool.and_eq_true] at blanks
      rw [← same.1]
      simp [isAtomChar, blanks.1]

theorem apart_of_follows (follows : Follows rest) : Apart rest := by
  intro c tail same
  rcases follows with rfl | ⟨d, others, rfl, stops⟩
  · cases same
  · cases same
    rcases stops with rfl | rfl | rfl <;> decide

theorem follows_lineOf (follows : Follows rest) : Follows (lineOf rest) := by
  rcases follows with rfl | ⟨c, tail, rfl, stops⟩
  · exact .inl rfl
  · refine .inr ⟨c, lineOf tail, ?_, stops⟩
    rcases stops with rfl | rfl | rfl <;> rfl

theorem hits_of_not_mem {key : Text} (behind : Text → Option Value)
    {text : Text} (free : '"' ∉ text) (rest : Text) :
    hits (named key behind) text rest = [] := by
  induction text with
  | nil => rfl
  | cons c text induction =>
      simp only [List.mem_cons, not_or] at free
      have miss : named key behind (lineOf (c :: (text ++ rest))) = none := by
        rw [named]
        cases found : after? (quote key) (lineOf (c :: (text ++ rest))) with
        | none => rfl
        | some value =>
            obtain ⟨tail, same, _⟩ := after?_lineOf found
            simp only [quote, List.cons_append, List.cons.injEq] at same
            exact absurd same.1.symm free.1
      rw [hits, miss, induction free.2]
      rfl

variable {body : Text}

theorem body_eq_key {key tail : Text} (ok : Body false body)
    (plain : plainKey key = true)
    (same : body ++ '"' :: rest = key ++ '"' :: tail) :
    body = key ∧ rest = tail := by
  induction key generalizing body with
  | nil =>
      cases body with
      | nil => exact ⟨rfl, by simpa using same⟩
      | cons c body =>
          simp only [List.cons_append, List.nil_append, List.cons.injEq] at same
          rw [same.1] at ok
          cases ok with
          | plain _ quoteFree _ => exact absurd rfl quoteFree
  | cons k key induction =>
      simp only [plainKey, List.all_cons, Bool.and_eq_true, bne_iff_ne] at plain
      cases body with
      | nil =>
          simp only [List.nil_append, List.cons_append, List.cons.injEq] at same
          exact absurd same.1.symm plain.1.1
      | cons c body =>
          simp only [List.cons_append, List.cons.injEq] at same
          rw [same.1] at ok
          cases ok with
          | slash _ => exact absurd rfl plain.1.2
          | plain _ _ tailOk =>
              obtain ⟨rfl, rest⟩ := induction tailOk plain.2 same.2
              exact ⟨by rw [same.1], rest⟩

section

variable {key : Text} (name : KeyName key)
include name

/-- The pattern at a quote. -/
theorem named_at_quote (behind : Text → Option Value) (ok : Body false body)
    (rest : Text) :
    named key behind (lineOf ('"' :: (body ++ '"' :: rest))) =
      if body = key then behind (lineOf rest) else none := by
  rw [named]
  by_cases same : body = key
  · subst same
    have oneLine : '\n' ∉ quote body := by
      simpa [quote] using name.oneLine
    have text : '"' :: (body ++ '"' :: rest) = quote body ++ rest := by
      simp [quote]
    rw [if_pos rfl, text, lineOf_of_not_mem oneLine, after?_eq_some.mpr rfl]
    rfl
  · rw [if_neg same]
    cases found : after? (quote key) (lineOf ('"' :: (body ++ '"' :: rest))) with
    | none => rfl
    | some value =>
        obtain ⟨tail, split, _⟩ := after?_lineOf found
        simp only [quote, List.cons_append, List.append_assoc, List.cons.injEq,
          true_and] at split
        exact absurd (body_eq_key ok name.plain split).1 same

theorem named_at_end (behind : Text → Option Value) (apart : Apart rest) :
    named key behind (lineOf ('"' :: rest)) = none := by
  rw [named]
  cases found : after? (quote key) (lineOf ('"' :: rest)) with
  | none => rfl
  | some value =>
      obtain ⟨tail, split, _⟩ := after?_lineOf found
      obtain ⟨first, others, text, atom⟩ := name.head
      simp only [quote, List.cons_append, List.cons.injEq, true_and,
        text] at split
      have other := apart _ _ split
      rw [atom] at other
      cases other

theorem hits_string {behind : Text → Option Value} (apart : Apart rest)
    (silent : behind (lineOf rest) = none) {esc : Bool} (ok : Body esc body) :
    hits (named key behind) (body ++ ['"']) rest = [] := by
  have away : ∀ {c : Char} (tail : Text), c ≠ '"' →
      named key behind (lineOf (c :: tail)) = none := by
    intro c tail other
    have single := @hits_of_not_mem Value key behind [c] (by
      simpa using Ne.symm other) tail
    simpa [hits] using single
  induction ok with
  | done =>
      simp [hits, named_at_end name behind apart]
  | slash _ induction =>
      rw [List.cons_append, hits, induction]
      rfl
  | escaped c tailOk induction =>
      rw [List.cons_append, hits, induction]
      by_cases quoteChar : c = '"'
      · subst quoteChar
        have text : ∀ tail : Text, tail ++ ['"'] ++ rest = tail ++ '"' :: rest := by
          simp
        rw [text, named_at_quote name behind tailOk]
        split
        · rw [silent]
          rfl
        · rfl
      · rw [away _ quoteChar]
        rfl
  | plain _ quoteFree _ induction =>
      rw [List.cons_append, hits, away _ quoteFree, induction]
      rfl

/-- A string that is not the key, or behind which the pattern fails. -/
theorem hits_quote_silent {behind : Text → Option Value} (apart : Apart rest)
    (silent : behind (lineOf rest) = none) (ok : Body false body) :
    hits (named key behind) (quote body) rest = [] := by
  have text : quote body = '"' :: (body ++ ['"']) := rfl
  have more : body ++ ['"'] ++ rest = body ++ '"' :: rest := by simp
  rw [text, hits, hits_string name apart silent ok, more,
    named_at_quote name behind ok]
  split
  · rw [silent]
    rfl
  · rfl

/-- A key: without escapes the pattern can match only at its first quote. -/
theorem hits_quote_plain (behind : Text → Option Value) (apart : Apart rest)
    (plain : plainKey body = true) :
    hits (named key behind) (quote body) rest =
      if body = key then (behind (lineOf rest)).toList else [] := by
  have free : '"' ∉ body := by
    intro member
    have char := List.all_eq_true.mp plain _ member
    simp at char
  have tail : hits (named key behind) (body ++ ['"']) rest = [] := by
    rw [hits_append, hits_of_not_mem behind free]
    simp [hits, named_at_end name behind apart]
  have text : quote body = '"' :: (body ++ ['"']) := rfl
  have more : body ++ ['"'] ++ rest = body ++ '"' :: rest := by simp
  rw [text, hits, tail, more, named_at_quote name behind (body_of_plainKey plain)]
  split
  · simp
  · rfl

end

/-- What the pattern finds at the key of a member and in its value. -/
def hitsAt (key : Text) (behind : Text → Option Value) (m : Member)
    (rest : Text) : List Value :=
  (if m.key = key then
    (behind (lineOf (m.gap ++ ':' :: (m.pad ++ (m.fromValue ++ rest))))).toList
  else []) ++ hits (named key behind) m.val (m.trail ++ rest)

def hitsIn (key : Text) (behind : Text → Option Value) :
    List Member → Text → List Value
  | [], _ => []
  | m :: after, rest =>
      hitsAt key behind m (closing after rest) ++ hitsIn key behind after rest

variable {text : Text}

theorem quote_not_mem (space : blank text = true) : '"' ∉ text := by
  intro member
  have white := List.all_eq_true.mp space _ member
  exact absurd white (by decide)

section

variable {key : Text} (name : KeyName key) (behind : Text → Option Value)
include name behind

theorem hits_member {m : Member} (wf : m.Wf) (rest : Text) :
    hits (named key behind) m.render rest = hitsAt key behind m rest := by
  have apart : Apart (m.gap ++ ':' :: (m.pad ++ (m.fromValue ++ rest))) := by
    apply apart_of_blank wf.gap
    intro c tail same
    cases same
    decide
  have text : m.render = m.lead ++ (quote m.key ++
      ((m.gap ++ ':' :: m.pad) ++ (m.val ++ m.trail))) := by
    simp [Member.render, Member.fromKey, Member.fromValue]
  have colonFree : '"' ∉ m.gap ++ ':' :: m.pad := by
    have gap := quote_not_mem wf.gap
    have pad := quote_not_mem wf.pad
    simp [gap, pad]
  have afterKey : ((m.gap ++ ':' :: m.pad) ++ (m.val ++ m.trail)) ++ rest =
      m.gap ++ ':' :: (m.pad ++ (m.fromValue ++ rest)) := by
    simp [Member.fromValue]
  rw [text, hits_append, hits_of_not_mem behind (quote_not_mem wf.lead),
    hits_append, afterKey, hits_quote_plain name behind apart wf.key,
    hits_append, hits_of_not_mem behind colonFree, hits_append,
    hits_of_not_mem behind (quote_not_mem wf.trail), hitsAt]
  simp

theorem hits_closing {after : List Member} (wf : ∀ m ∈ after, m.Wf) (rest : Text) :
    hits (named key behind) (more after ++ ['}']) rest =
      hitsIn key behind after rest := by
  induction after with
  | nil => exact hits_of_not_mem behind (by simp [more]) rest
  | cons m after induction =>
      have text : more (m :: after) ++ ['}'] =
          [','] ++ (m.render ++ (more after ++ ['}'])) := by
        simp [more]
      have rests : more after ++ ['}'] ++ rest = closing after rest := by
        simp [closing]
      rw [text, hits_append, hits_append, rests,
        hits_member name behind (wf m (by simp)),
        induction fun other member => wf other (by simp [member])]
      rfl

theorem hits_obj {o : Obj} (wf : o.Wf) (rest : Text) :
    hits (named key behind) o.render rest = hitsIn key behind o.members rest := by
  obtain ⟨members, hollow⟩ := o
  cases members with
  | nil =>
      apply hits_of_not_mem
      have free := quote_not_mem wf.hollow
      simpa [Obj.render, Obj.inner] using free
  | cons m after =>
      have text : (Obj.mk (m :: after) hollow).render =
          ['{'] ++ (m.render ++ (more after ++ ['}'])) := by
        simp [Obj.render, Obj.inner]
      have rests : more after ++ ['}'] ++ rest = closing after rest := by
        simp [closing]
      rw [text, hits_append, hits_append, rests,
        hits_member name behind (wf.members m (by simp)),
        hits_closing name behind fun other member => wf.members other (by simp [member])]
      rfl

end

def Member.tight (member : Text × Text) : Member :=
  ⟨[], member.1, [], [], member.2, []⟩

/-- A colon with nothing around it, and what `parse` accepts. -/
def tightColon (parse : Text → Option Value) : Text → Option Value
  | ':' :: value => parse value
  | _ => none

/-- A value that no key stands in: one without quotes, or a string. -/
def Scalar (val : Text) : Prop :=
  '"' ∉ val ∨ ∃ body, val = quote body ∧ Body false body

theorem scalar_quote (plain : plainKey body = true) : Scalar (quote body) :=
  .inr ⟨body, rfl, body_of_plainKey plain⟩

theorem closing_cases (after : List Member) (rest : Text) :
    ∃ tail, closing after rest = ',' :: tail ∨ closing after rest = '}' :: tail := by
  cases after with
  | nil => exact ⟨rest, .inr rfl⟩
  | cons m after => exact ⟨_, .inl rfl⟩

section

variable {key : Text} (name : KeyName key) (parse : Text → Option Value)
include name parse

theorem hits_scalar {val : Text} (scalar : Scalar val) (after : List Member)
    (rest : Text) :
    hits (named key (tightColon parse)) val (closing after rest) = [] := by
  rcases scalar with free | ⟨body, text, ok⟩
  · exact hits_of_not_mem _ free _
  · rw [text]
    obtain ⟨tail, comma | brace⟩ := closing_cases after rest
    · rw [comma]
      apply hits_quote_silent name _ rfl ok
      intro c rest same
      cases same
      decide
    · rw [brace]
      apply hits_quote_silent name _ rfl ok
      intro c rest same
      cases same
      decide

theorem hitsAt_tight {m : Text × Text} (scalar : Scalar m.2) (after : List Member)
    (rest : Text) :
    hitsAt key (tightColon parse) (Member.tight m) (closing after rest) =
      if m.1 = key then (parse (lineOf (m.2 ++ closing after rest))).toList
      else [] := by
  have text : (Member.tight m).fromValue = m.2 := List.append_nil m.2
  have line : lineOf (':' :: (m.2 ++ closing after rest)) =
      ':' :: lineOf (m.2 ++ closing after rest) := rfl
  have inside : hits (named key (tightColon parse)) (Member.tight m).val
      ((Member.tight m).trail ++ closing after rest) = [] :=
    hits_scalar name parse scalar after rest
  rw [hitsAt, inside, List.append_nil, text]
  change (if m.1 = key then
    (tightColon parse (lineOf (':' :: (m.2 ++ closing after rest)))).toList else []) = _
  rw [line, tightColon]

theorem hitsIn_tight_other {members : List (Text × Text)}
    (scalars : ∀ m ∈ members, Scalar m.2) (others : ∀ m ∈ members, m.1 ≠ key)
    (rest : Text) :
    hitsIn key (tightColon parse) (members.map Member.tight) rest = [] := by
  induction members with
  | nil => rfl
  | cons m after induction =>
      rw [List.map_cons, hitsIn,
        hitsAt_tight name parse (scalars m List.mem_cons_self),
        if_neg (others m List.mem_cons_self)]
      exact induction
        (fun other member => scalars other (List.mem_cons_of_mem _ member))
        (fun other member => others other (List.mem_cons_of_mem _ member))

end

/-- The pattern matches once, at the member with its key. -/
theorem hitsIn_tight {key val : Text} (name : KeyName key)
    (parse : Text → Option Value) {before after : List (Text × Text)}
    (scalars : ∀ m ∈ before ++ (key, val) :: after, Scalar m.2)
    (others : ∀ m ∈ before ++ after, m.1 ≠ key) (rest : Text) :
    hitsIn key (tightColon parse)
        ((before ++ (key, val) :: after).map Member.tight) rest =
      (parse (lineOf (val ++ closing (after.map Member.tight) rest))).toList := by
  induction before with
  | nil =>
      rw [List.nil_append, List.map_cons, hitsIn,
        hitsAt_tight name parse (scalars (key, val) List.mem_cons_self), if_pos rfl,
        hitsIn_tight_other name parse
          (fun m member => scalars m (List.mem_cons_of_mem _ member)) others,
        List.append_nil]
  | cons m before induction =>
      rw [List.cons_append, List.map_cons, hitsIn,
        hitsAt_tight name parse (scalars m List.mem_cons_self),
        if_neg (others m List.mem_cons_self)]
      exact induction
        (fun other member => scalars other (List.mem_cons_of_mem _ member))
        (fun other member => others other (List.mem_cons_of_mem _ member))

/-- The loop `while (match(s, ..)) s = substr(s, RSTART + RLENGTH)`: the matches
from left to right that do not overlap. -/
def matchAll (key : Text) (parse : Text → Option (Value × Text)) :
    Nat → Text → List Value
  | 0, _ => []
  | fuel + 1, line =>
      match matchKey key parse line with
      | none => []
      | some (value, behind) => value :: matchAll key parse fuel behind

theorem colon_eq_some {parse : Text → Option Value} {value : Value}
    (found : colon parse text = some value) :
    ∃ gap pad rest, text = gap ++ ':' :: (pad ++ rest) ∧
      gap.all isSpace = true ∧ pad.all isSpace = true ∧
      parse rest = some value := by
  unfold colon at found
  split at found
  · rename_i behind split
    refine ⟨text.takeWhile isSpace, behind.takeWhile isSpace,
      behind.dropWhile isSpace, ?_, ?_, ?_, found⟩
    · rw [List.takeWhile_append_dropWhile, ← split,
        List.takeWhile_append_dropWhile]
    · exact List.all_eq_true.mpr fun c member => List.mem_takeWhile_imp member
    · exact List.all_eq_true.mpr fun c member => List.mem_takeWhile_imp member
  · cases found

theorem named_colon_map {Answer : Type} (key : Text) (parse : Text → Option Value)
    (answer : Value → Answer) (text : Text) :
    named key (colon fun value => (parse value).map answer) text =
      (named key (colon parse) text).map answer := by
  unfold named colon
  cases after? (quote key) text with
  | none => rfl
  | some behind =>
      simp only [Option.bind_some]
      split <;> rfl

theorem quote_not_mem_space (space : text.all isSpace = true) : '"' ∉ text := by
  intro member
  have white := List.all_eq_true.mp space _ member
  exact absurd white (by decide)

/-- No other match begins inside a match. -/
theorem hits_inside {key : Text} (name : KeyName key)
    (solid : ∀ c rest, key = c :: rest → isSpace c = false)
    (behind : Text → Option Value) {gap pad used : Text}
    (white : gap.all isSpace = true) (whitePad : pad.all isSpace = true)
    (noQuote : '"' ∉ used) (rest : Text) :
    hits (named key behind) (key ++ '"' :: (gap ++ ':' :: (pad ++ used))) rest =
      [] := by
  have keyFree : '"' ∉ key := by
    intro member
    have char := List.all_eq_true.mp name.plain _ member
    simp at char
  have free : '"' ∉ gap ++ ':' :: (pad ++ used) := by
    have gapFree := quote_not_mem_space white
    have padFree := quote_not_mem_space whitePad
    simp [gapFree, padFree, noQuote]
  have miss : named key behind (lineOf ('"' ::
      ((gap ++ ':' :: (pad ++ used)) ++ rest))) = none := by
    rw [named]
    cases found : after? (quote key) (lineOf ('"' ::
        ((gap ++ ':' :: (pad ++ used)) ++ rest))) with
    | none => rfl
    | some value =>
        obtain ⟨tail, split, _⟩ := after?_lineOf found
        obtain ⟨first, others, text, atom⟩ := name.head
        have visible := solid first others text
        rw [text] at split
        cases gap with
        | nil =>
            simp only [quote, List.cons_append, List.nil_append, List.cons.injEq,
              true_and] at split
            rw [← split.1] at atom
            exact absurd atom (by decide)
        | cons c gap =>
            simp only [quote, List.cons_append, List.cons.injEq, true_and] at split
            have space := List.all_eq_true.mp white c (by simp)
            rw [split.1, visible] at space
            cases space
  rw [hits_append, hits_of_not_mem behind keyFree, hits, miss,
    hits_of_not_mem behind free]
  rfl

/-- The matches of a key do not overlap, so the loop finds them all. -/
theorem matchAll_eq_hits {key : Text} (name : KeyName key)
    (solid : ∀ c rest, key = c :: rest → isSpace c = false)
    {parse : Text → Option (Value × Text)}
    (free : ∀ text value rest, parse text = some (value, rest) →
      ∃ used, text = used ++ rest ∧ '"' ∉ used)
    {line : Text} (oneLine : '\n' ∉ line) {fuel : Nat}
    (enough : line.length ≤ fuel) :
    matchAll key parse fuel line =
      hits (named key (colon fun text => (parse text).map Prod.fst)) line [] := by
  induction size : line.length using Nat.strong_induction_on
    generalizing line fuel with
  | _ size induction =>
    cases line with
    | nil => cases fuel <;> rfl
    | cons c rest =>
        simp only [List.length_cons] at enough size
        cases fuel with
        | zero => omega
        | succ fuel =>
            have tailLine : '\n' ∉ rest := fun member => oneLine (by simp [member])
            have whole : lineOf (c :: (rest ++ [])) = c :: rest := by
              rw [List.append_nil, lineOf_self oneLine]
            have here : (afterKey key (c :: rest)).bind parse =
                named key (colon parse) (c :: rest) :=
              congrFun (keyed_eq_named key parse) (c :: rest)
            rw [hits, whole, named_colon_map]
            cases found : named key (colon parse) (c :: rest) with
            | none =>
                have next : matchKey key parse (c :: rest) =
                    matchKey key parse rest := by
                  rw [matchKey, here, found]
                have tail := @induction rest.length (by omega) rest tailLine
                  (fuel + 1) (by omega) rfl
                rw [Option.map_none, Option.toList_none, List.nil_append, ← tail,
                  matchAll, matchAll, next]
            | some answer =>
                obtain ⟨value, behind⟩ := answer
                have hit : matchKey key parse (c :: rest) = some (value, behind) := by
                  rw [matchKey, here, found]
                obtain ⟨tail, start, after⟩ := Option.bind_eq_some_iff.mp found
                obtain ⟨gap, pad, parsed, split, white, whitePad, read⟩ :=
                  colon_eq_some after
                obtain ⟨used, consumed, noQuote⟩ := free parsed value behind read
                have text : c :: rest = '"' :: ((key ++ '"' :: (gap ++ ':' ::
                    (pad ++ used))) ++ behind) := by
                  rw [after?_eq_some.mp start, split, consumed]
                  simp [quote]
                obtain ⟨_, text⟩ := List.cons.inj text
                have shorter : behind.length < rest.length := by
                  rw [text]
                  simp
                  omega
                have behindLine : '\n' ∉ behind := fun member =>
                  tailLine (by simp [text, member])
                have remaining := @induction behind.length (by omega) behind
                  behindLine fuel (by omega) rfl
                rw [matchAll, hit]
                simp only [remaining]
                rw [text, hits_append, hits_inside name solid _ white whitePad noQuote]
                rfl

end JsonText
