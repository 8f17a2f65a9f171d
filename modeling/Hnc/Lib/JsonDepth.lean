import Hnc.Lib.JsonGrammar

/-!
# Brackets that are left open

An automaton counts the open brackets of a text outside its strings, and refuses
a name without a value and a line break inside a string.  It accepts every JSON
text at the depth where it began, so that a text with a broken value in it, which
leaves a bracket open or a name without a value, is not a JSON text.
-/

namespace JsonText

open Posix

/-- Where in a text the automaton is: outside strings, behind a colon, in a
string, or behind a backslash in a string. -/
inductive Mode where
  | plain
  | colon
  | string
  | escaped
deriving DecidableEq

/-- The mode and the number of open brackets. -/
structure Depth where
  mode : Mode
  opened : Nat
deriving DecidableEq

namespace Depth

/-- One character outside strings. -/
def read (count : Nat) (c : Char) : Option Depth :=
  if c = '"' then some ⟨.string, count⟩
  else if c = '{' ∨ c = '[' then some ⟨.plain, count + 1⟩
  else if c = '}' ∨ c = ']' then
    match count with
    | 0 => none
    | less + 1 => some ⟨.plain, less⟩
  else if c = ':' then some ⟨.colon, count⟩
  else some ⟨.plain, count⟩

def step (state : Depth) (c : Char) : Option Depth :=
  match state.mode with
  | .plain => read state.opened c
  | .colon =>
      if isWs c then some state
      else if c = ',' ∨ c = '}' ∨ c = ']' then none
      else read state.opened c
  | .string =>
      if c = '\n' then none
      else if c = '\\' then some ⟨.escaped, state.opened⟩
      else if c = '"' then some ⟨.plain, state.opened⟩
      else some state
  | .escaped =>
      if c = '\n' then none else some ⟨.string, state.opened⟩

def walk (state : Depth) : Text → Option Depth
  | [] => some state
  | c :: rest => (state.step c).bind fun next => walk next rest

theorem walk_append (state : Depth) (left right : Text) :
    state.walk (left ++ right) =
      (state.walk left).bind fun next => next.walk right := by
  induction left generalizing state with
  | nil => rfl
  | cons c left induction =>
      rw [List.cons_append, walk, walk]
      cases state.step c with
      | none => rfl
      | some next => exact induction next

variable {state next : Depth} {left : Text}

theorem walk_append_of (walked : state.walk left = some next) (right : Text) :
    state.walk (left ++ right) = next.walk right := by
  rw [walk_append, walked]
  rfl

variable {c : Char}

theorem walk_cons_of (stepped : state.step c = some next) (rest : Text) :
    state.walk (c :: rest) = next.walk rest := by
  rw [walk, stepped]
  rfl

def lift (state : Depth) (extra : Nat) : Depth :=
  ⟨state.mode, state.opened + extra⟩

variable {count : Nat}

theorem read_lift {extra : Nat} (stepped : read count c = some next) :
    read (count + extra) c = some (next.lift extra) := by
  unfold read at stepped ⊢
  split at stepped
  · cases stepped
    rw [if_pos (by assumption)]
    rfl
  · rw [if_neg (by assumption)]
    split at stepped
    · cases stepped
      rw [if_pos (by assumption), lift, Nat.add_right_comm]
    · rw [if_neg (by assumption)]
      split at stepped
      · rw [if_pos (by assumption)]
        cases count with
        | zero => cases stepped
        | succ less =>
            cases stepped
            rw [Nat.add_right_comm]
            rfl
      · rw [if_neg (by assumption)]
        split at stepped
        · cases stepped
          rw [if_pos (by assumption)]
          rfl
        · cases stepped
          rw [if_neg (by assumption)]
          rfl

theorem step_lift (extra : Nat) (stepped : state.step c = some next) :
    (state.lift extra).step c = some (next.lift extra) := by
  obtain ⟨mode, count⟩ := state
  cases mode with
  | plain => exact read_lift stepped
  | colon =>
      simp only [step, lift] at stepped ⊢
      split at stepped
      · cases stepped
        rw [if_pos (by assumption)]
      · rw [if_neg (by assumption)]
        split at stepped
        · cases stepped
        · rw [if_neg (by assumption)]
          exact read_lift stepped
  | string =>
      simp only [step, lift] at stepped ⊢
      repeat' split at stepped
      all_goals first
        | cases stepped; done
        | (cases stepped; simp [*])
  | escaped =>
      simp only [step, lift] at stepped ⊢
      split at stepped
      · cases stepped
      · cases stepped
        rw [if_neg (by assumption)]

variable {text : Text}

theorem walk_lift (extra : Nat) (walked : state.walk text = some next) :
    (state.lift extra).walk text = some (next.lift extra) := by
  induction text generalizing state with
  | nil =>
      cases walked
      rfl
  | cons c rest induction =>
      obtain ⟨middle, stepped, later⟩ := Option.bind_eq_some_iff.mp walked
      rw [walk_cons_of (step_lift extra stepped)]
      exact induction later

variable {mode : Mode}

theorem walk_blank (space : blank text = true)
    (outside : mode = .plain ∨ mode = .colon) (count : Nat) :
    walk ⟨mode, count⟩ text = some ⟨mode, count⟩ := by
  induction text with
  | nil => rfl
  | cons c rest induction =>
      simp only [blank, List.all_cons, Bool.and_eq_true] at space
      have plain := isPlain_of_isWs space.1
      simp only [isPlain, Bool.and_eq_true, bne_iff_ne] at plain
      obtain ⟨⟨⟨⟨quote, curly⟩, curlyEnd⟩, square⟩, squareEnd⟩ := plain
      have colon : c ≠ ':' := by
        rintro rfl
        exact absurd space.1 (by decide)
      have stepped : step ⟨mode, count⟩ c = some ⟨mode, count⟩ := by
        rcases outside with rfl | rfl
        · simp [step, read, quote, curly, curlyEnd, square, squareEnd, colon]
        · simp [step, space.1]
      rw [walk_cons_of stepped]
      exact induction space.2

theorem walk_atom (atom : text.all isAtomChar = true) (count : Nat) :
    walk ⟨.plain, count⟩ text = some ⟨.plain, count⟩ := by
  induction text with
  | nil => rfl
  | cons c rest induction =>
      simp only [List.all_cons, Bool.and_eq_true] at atom
      have char := atom.1
      simp only [isAtomChar, isPlain, Bool.and_eq_true, bne_iff_ne] at char
      obtain ⟨⟨⟨⟨⟨⟨⟨quote, curly⟩, curlyEnd⟩, square⟩, squareEnd⟩, _⟩, colon⟩,
        _⟩ := char
      have stepped : step ⟨.plain, count⟩ c = some ⟨.plain, count⟩ := by
        simp [step, read, quote, curly, curlyEnd, square, squareEnd, colon]
      rw [walk_cons_of stepped]
      exact induction atom.2

theorem walk_string_cons (newline : c ≠ '\n') (slash : c ≠ '\\') (quote : c ≠ '"')
    (count : Nat) (rest : Text) :
    walk ⟨.string, count⟩ (c :: rest) = walk ⟨.string, count⟩ rest :=
  walk_cons_of (by simp [step, newline, slash, quote]) rest

theorem walk_escaped {e : Char} (newline : e ≠ '\n') (count : Nat)
    (rest : Text) :
    walk ⟨.string, count⟩ ('\\' :: e :: rest) = walk ⟨.string, count⟩ rest := by
  exact walk_cons_of (by simp [step, newline]) rest

variable {body : Text}

theorem walk_chars (chars : Chars body) (count : Nat) :
    walk ⟨.string, count⟩ body = some ⟨.string, count⟩ := by
  induction chars with
  | nil => rfl
  | unescaped visible quote slash _ induction =>
      have newline : ∀ {c : Char}, ' '.toNat ≤ c.toNat → c ≠ '\n' := by
        rintro c large rfl
        exact absurd large (by decide)
      rw [walk_string_cons (newline visible) slash quote]
      exact induction
  | escape letter _ induction =>
      rw [walk_escaped ?_]
      · exact induction
      · rintro rfl
        exact absurd letter (by decide)
  | unicode hex _ induction =>
      have digit : hexDigits.all (fun h => h != '\n' && h != '\\' && h != '"') =
          true := by
        decide
      have skip : ∀ {h : Char} (rest : Text), h ∈ hexDigits →
          walk ⟨.string, count⟩ (h :: rest) = walk ⟨.string, count⟩ rest := by
        intro h rest listed
        have facts := List.all_eq_true.mp digit h listed
        simp only [Bool.and_eq_true, bne_iff_ne] at facts
        exact walk_string_cons facts.1.1 facts.1.2 facts.2 count rest
      simp only [List.forall_mem_cons] at hex
      obtain ⟨first, second, third, fourth, _⟩ := hex
      rw [walk_escaped (by decide), skip _ first, skip _ second, skip _ third,
        skip _ fourth]
      exact induction

theorem walk_quote (chars : Chars body) (count : Nat) :
    walk ⟨.plain, count⟩ (quote body) = some ⟨.plain, count⟩ := by
  rw [quote, List.cons_append, walk_cons_of (show step ⟨.plain, count⟩ '"' =
    some ⟨.string, count⟩ from rfl), walk_append_of (walk_chars chars count)]
  rfl

variable {value : Json}

/-- A value may stand behind a colon. -/
theorem walk_colon (derives : Derives .value text value) (count : Nat)
    (rest : Text) :
    walk ⟨.colon, count⟩ (text ++ rest) = walk ⟨.plain, count⟩ (text ++ rest) := by
  have solid : ∀ {c : Char}, isWs c = false → c ≠ ',' → c ≠ '}' → c ≠ ']' →
      step ⟨.colon, count⟩ c = step ⟨.plain, count⟩ c := by
    intro c white comma curly square
    simp [step, white, comma, curly, square]
  have head : ∃ c others, text = c :: others ∧ isWs c = false ∧ c ≠ ',' ∧
      c ≠ '}' ∧ c ≠ ']' := by
    cases derives with
    | number number =>
        obtain ⟨c, others, rfl, first⟩ := number.head
        refine ⟨c, others, rfl, ?_⟩
        have atom : isAtomChar c = true := by
          rcases first with rfl | digit
          · decide
          · exact isAtomChar_of_isDigit digit
        simp only [isAtomChar, isPlain, Bool.and_eq_true, bne_iff_ne,
          Bool.not_eq_true'] at atom
        exact ⟨atom.2, atom.1.1.2, atom.1.1.1.1.1.2, atom.1.1.1.2⟩
    | _ => exact ⟨_, _, rfl, by decide⟩
  obtain ⟨c, others, rfl, white, comma, curly, square⟩ := head
  rw [List.cons_append, walk, walk, solid white comma curly square]

variable {m : Member}

theorem walk_member (spaced : m.Spaced) (key : Chars m.key) (count : Nat) :
    walk ⟨.plain, count⟩ (m.lead ++ quote m.key ++ m.gap ++ ':' :: m.pad) =
      some ⟨.colon, count⟩ := by
  have name : walk ⟨.plain, count⟩ (m.lead ++ quote m.key ++ m.gap) =
      some ⟨.plain, count⟩ := by
    rw [List.append_assoc,
      walk_append_of (walk_blank spaced.lead (.inl rfl) count),
      walk_append_of (walk_quote key count)]
    exact walk_blank spaced.gap (.inl rfl) count
  rw [walk_append_of name]
  exact walk_blank spaced.pad (.inr rfl) count

theorem render_eq (m : Member) :
    m.render = (m.lead ++ quote m.key ++ m.gap ++ ':' :: m.pad) ++
      (m.val ++ m.trail) := by
  simp [Member.render, Member.fromKey, Member.fromValue]

theorem walk_render (spaced : m.Spaced) (key : Chars m.key)
    (derives : Derives .value m.val value)
    (walked : walk ⟨.plain, count⟩ m.val = some ⟨.plain, count⟩) :
    walk ⟨.plain, count⟩ m.render = some ⟨.plain, count⟩ := by
  rw [render_eq, walk_append_of (walk_member spaced key count),
    walk_colon derives, walk_append_of walked]
  exact walk_blank spaced.trail (.inl rfl) count

theorem walk_brackets {inner : Text} {opening closing : Char}
    (pair : opening = '{' ∧ closing = '}' ∨ opening = '[' ∧ closing = ']')
    (walked : walk ⟨.plain, count + 1⟩ inner = some ⟨.plain, count + 1⟩) :
    walk ⟨.plain, count⟩ (opening :: inner ++ [closing]) =
      some ⟨.plain, count⟩ := by
  rcases pair with ⟨rfl, rfl⟩ | ⟨rfl, rfl⟩
  · exact walk_append_of walked ['}']
  · exact walk_append_of walked [']']

theorem walk_comma (count : Nat) (rest : Text) :
    walk ⟨.plain, count⟩ (',' :: rest) = walk ⟨.plain, count⟩ rest :=
  rfl

/-- A text of the grammar ends at the depth where it began. -/
theorem walk_derives {part : Part} (derives : Derives part text value)
    (count : Nat) : walk ⟨.plain, count⟩ text = some ⟨.plain, count⟩ := by
  have around : ∀ {lead middle : Text} (trail rest : Text) {count : Nat},
      blank lead = true → blank trail = true →
      walk ⟨.plain, count⟩ middle = some ⟨.plain, count⟩ →
      walk ⟨.plain, count⟩ (lead ++ (middle ++ (trail ++ rest))) =
        walk ⟨.plain, count⟩ rest := by
    intro lead middle trail rest count leadBlank trailBlank walked
    rw [walk_append_of (walk_blank leadBlank (.inl rfl) count),
      walk_append_of walked,
      walk_append_of (walk_blank trailBlank (.inl rfl) count)]
  induction derives generalizing count with
  | wordNull | wordTrue | wordFalse => exact walk_atom (by decide) count
  | number number => exact walk_atom number.isAtomChar count
  | string chars => exact walk_quote chars count
  | noElements space =>
      exact walk_brackets (.inr ⟨rfl, rfl⟩) (walk_blank space (.inl rfl) _)
  | array _ induction => exact walk_brackets (.inr ⟨rfl, rfl⟩) (induction _)
  | noMembers space =>
      exact walk_brackets (.inl ⟨rfl, rfl⟩) (walk_blank space (.inl rfl) _)
  | object _ induction => exact walk_brackets (.inl ⟨rfl, rfl⟩) (induction _)
  | element lead _ trail induction =>
      have walked := around _ [] lead trail (induction count)
      rw [List.append_nil] at walked
      exact walked
  | elements lead _ trail _ first rest =>
      rw [around _ _ lead trail (first count)]
      exact rest count
  | member spaced key derives induction =>
      exact walk_render spaced key derives (induction count)
  | members spaced key derives _ first rest =>
      rw [walk_append_of (walk_render spaced key derives (first count))]
      exact rest count

theorem walk_isJson (isJson : IsJson text) :
    walk ⟨.plain, 0⟩ text = some ⟨.plain, 0⟩ := by
  obtain ⟨value, before, middle, after, rfl, beforeBlank, derives,
    afterBlank⟩ := isJson
  rw [walk_append_of (walk_blank beforeBlank (.inl rfl) 0),
    walk_append_of (walk_derives derives 0)]
  exact walk_blank afterBlank (.inl rfl) 0

/-- Too many brackets are open. -/
def Beyond (count : Nat) : Option Depth → Prop
  | none => True
  | some state => state.mode = .plain ∧ count < state.opened

theorem Beyond.walk {after : Nat} {state : Option Depth}
    (beyond : Beyond count state)
    (walked : Depth.walk ⟨.plain, count⟩ text = some ⟨.plain, after⟩) :
    Beyond after (state.bind fun next => next.walk text) := by
  cases state with
  | none => trivial
  | some state =>
      obtain ⟨mode, opened⟩ := state
      obtain ⟨isPlain, more⟩ := beyond
      subst isPlain
      obtain ⟨extra, rfl⟩ := Nat.exists_eq_add_of_lt more
      have lifted := walk_lift (extra + 1) walked
      rw [Option.bind_some]
      simp only [lift, ← Nat.add_assoc] at lifted
      rw [lifted]
      exact ⟨rfl, show after < after + extra + 1 by omega⟩

/-- The text of a value leaves a bracket open. -/
def Unclosed (text : Text) : Prop :=
  ∀ count mode, mode = .plain ∨ mode = .colon →
    Beyond count (walk ⟨mode, count⟩ text)

/-- A text that is not a value of a member. -/
def Broken (text : Text) : Prop :=
  ∀ count trail, blank trail = true →
    Beyond (count + 1) (walk ⟨.colon, count + 1⟩ (text ++ (trail ++ [',']))) ∧
    Beyond count (walk ⟨.colon, count + 1⟩ (text ++ (trail ++ ['}'])))

theorem Unclosed.broken (unclosed : Unclosed text) : Broken text := by
  intro count trail space
  have walked := walk_blank space (.inl rfl) (count + 1)
  have beyond := unclosed (count + 1) .colon (.inr rfl)
  rw [walk_append, walk_append]
  constructor
  · exact beyond.walk (walk_append_of walked [','])
  · exact beyond.walk (walk_append_of walked ['}'])

theorem not_isJson_of_unclosed {before after : Text} (unclosed : Unclosed text)
    (beforeBlank : blank before = true) (afterBlank : blank after = true) :
    ¬ IsJson (before ++ (text ++ after)) := by
  intro isJson
  have walked := walk_isJson isJson
  have beyond := (unclosed 0 .plain (.inl rfl)).walk
    (walk_blank afterBlank (.inl rfl) 0)
  rw [walk_append_of (walk_blank beforeBlank (.inl rfl) 0), walk_append]
    at walked
  rw [walked] at beyond
  exact absurd beyond.2 (by decide)

theorem walk_front {before : List Member}
    (all : ∀ other ∈ before, ∃ entry, other.Means entry) (spaced : m.Spaced)
    (key : Chars m.key) (outside : mode = .plain ∨ mode = .colon) (count : Nat) :
    walk ⟨mode, count⟩ (front before m) = some ⟨.colon, count + 1⟩ := by
  have members : walk ⟨.plain, count + 1⟩
      (before.flatMap fun other => other.render ++ [',']) =
      some ⟨.plain, count + 1⟩ := by
    induction before with
    | nil => rfl
    | cons first before induction =>
        obtain ⟨entry, means⟩ := all first (by simp)
        have rendered := walk_render means.spaced means.key means.value
          (walk_derives means.value (count + 1))
        rw [List.flatMap_cons, List.append_assoc, walk_append_of rendered,
          List.singleton_append]
        exact induction fun other member => all other (by simp [member])
  have brace : step ⟨mode, count⟩ '{' = some ⟨.plain, count + 1⟩ := by
    rcases outside with rfl | rfl <;> rfl
  rw [front, List.cons_append, walk_cons_of brace, walk_append_of members]
  exact walk_member spaced key (count + 1)

theorem walk_closing {after : List Member}
    (all : ∀ other ∈ after, ∃ entry, other.Means entry) (count : Nat) :
    walk ⟨.plain, count + 1⟩ (closing after []) = some ⟨.plain, count⟩ := by
  induction after with
  | nil => rfl
  | cons first after induction =>
      obtain ⟨entry, means⟩ := all first (by simp)
      have rendered := walk_render means.spaced means.key means.value
        (walk_derives means.value (count + 1))
      rw [closing_cons, walk_comma, walk_append_of rendered]
      exact induction fun other member => all other (by simp [member])

/-- An object with a broken value is not closed. -/
theorem Broken.unclosed {before after : List Member} {hollow : Text}
    (broken : Broken m.val) (left : ∀ other ∈ before, ∃ entry, other.Means entry)
    (right : ∀ other ∈ after, ∃ entry, other.Means entry) (spaced : m.Spaced)
    (key : Chars m.key) :
    Unclosed (Obj.mk (before ++ m :: after) hollow).render := by
  intro count mode outside
  have split := render_split before m after hollow []
  rw [List.append_nil, Member.fromValue] at split
  rw [split, walk_append_of (walk_front left spaced key outside count)]
  cases after with
  | nil =>
      have beyond := (broken count m.trail spaced.trail).2
      rwa [closing_nil, List.append_assoc]
  | cons first after =>
      have beyond := (broken count m.trail spaced.trail).1
      obtain ⟨entry, means⟩ := right first (by simp)
      have rest : walk ⟨.plain, count + 1⟩
          (first.render ++ closing after []) = some ⟨.plain, count⟩ := by
        rw [walk_append_of (walk_render means.spaced means.key means.value
          (walk_derives means.value (count + 1)))]
        exact walk_closing (fun other member => right other (by simp [member]))
          count
      have walked := beyond.walk rest
      rw [← walk_append] at walked
      simpa [closing_cons] using walked

theorem control_not_mem_chars (control : isControl c = true) (chars : Chars body) :
    c ∉ body := by
  have small : c.toNat < 32 := of_decide_eq_true control
  have other : ∀ {d : Char}, 32 ≤ d.toNat → c ≠ d := by
    rintro d large rfl
    exact absurd small (Nat.not_lt.mpr large)
  induction chars with
  | nil => simp
  | unescaped visible _ _ _ induction =>
      exact List.not_mem_cons_of_ne_of_not_mem (other visible) induction
  | @escape e rest letter _ induction =>
      have visible : "\"\\/bfnrt".toList.all (fun e => 32 ≤ e.toNat) = true := by
        decide
      have escaped := List.all_eq_true.mp visible e letter
      simp [induction, other (show 32 ≤ '\\'.toNat by decide),
        other (of_decide_eq_true escaped)]
  | unicode hex _ induction =>
      have visible : hexDigits.all (fun h => 32 ≤ h.toNat) = true := by decide
      have digit : ∀ {h : Char}, h ∈ hexDigits → c ≠ h := fun listed =>
        other (of_decide_eq_true (List.all_eq_true.mp visible _ listed))
      simp only [List.forall_mem_cons] at hex
      obtain ⟨first, second, third, fourth, _⟩ := hex
      simp [induction, other (show 32 ≤ '\\'.toNat by decide),
        other (show 32 ≤ 'u'.toNat by decide), digit first, digit second,
        digit third, digit fourth]

theorem newline_not_mem_chars (chars : Chars body) : '\n' ∉ body :=
  control_not_mem_chars (by decide) chars

theorem broken_of_blank (space : blank text = true) : Broken text := by
  intro count trail trailBlank
  have walked := walk_blank (blank_append.mpr ⟨space, trailBlank⟩)
    (.inr rfl) (count + 1)
  rw [← List.append_assoc, ← List.append_assoc, walk_append_of walked,
    walk_append_of walked]
  exact ⟨trivial, trivial⟩

/-- What stands before a line break inside a bracket. -/
theorem walk_before_newline {inner right : Text}
    (walked : walk ⟨.plain, 0⟩ inner = some ⟨.plain, count⟩)
    (split : inner = left ++ '\n' :: right) :
    ∃ mode opened, (mode = .plain ∨ mode = .colon) ∧
      walk ⟨.plain, 0⟩ left = some ⟨mode, opened⟩ := by
  rw [split, walk_append] at walked
  obtain ⟨⟨mode, opened⟩, before, later⟩ := Option.bind_eq_some_iff.mp walked
  refine ⟨mode, opened, ?_, before⟩
  cases mode with
  | plain => exact .inl rfl
  | colon => exact .inr rfl
  | string | escaped => cases later

/-- A value with a line break in it is an array or an object. -/
theorem walk_of_newline {right : Text}
    (derives : Derives .value (c :: (left ++ '\n' :: right)) value) :
    (c = '{' ∨ c = '[') ∧ ∃ mode opened, (mode = .plain ∨ mode = .colon) ∧
      walk ⟨.plain, 0⟩ left = some ⟨mode, opened⟩ := by
  generalize whole : c :: (left ++ '\n' :: right) = text at derives
  have inside : '\n' ∈ text := by simp [← whole]
  have bracketed : ∀ {inner : Text} {opening closing : Char},
      c :: (left ++ '\n' :: right) = opening :: inner ++ [closing] →
      closing ≠ '\n' → walk ⟨.plain, 0⟩ inner = some ⟨.plain, 0⟩ →
      c = opening ∧ ∃ mode opened, (mode = .plain ∨ mode = .colon) ∧
        walk ⟨.plain, 0⟩ left = some ⟨mode, opened⟩ := by
    intro inner opening closing same solid walked
    obtain ⟨first, others⟩ := List.cons.inj same
    refine ⟨first, ?_⟩
    rcases List.eq_nil_or_concat right with rfl | ⟨init, last, rfl⟩
    · have ends := congrArg List.getLast? others
      simp at ends
      exact absurd ends.symm solid
    · rw [List.concat_eq_append, ← List.cons_append, ← List.append_assoc]
        at others
      exact walk_before_newline walked (List.append_inj' others rfl).1.symm
  cases derives with
  | wordNull | wordTrue | wordFalse => exact absurd inside (by decide)
  | number number =>
      exact absurd (List.all_eq_true.mp number.isAtomChar _ inside) (by decide)
  | string chars =>
      simp [quote, newline_not_mem_chars chars] at inside
  | noElements space =>
      obtain ⟨first, walked⟩ := bracketed whole (by decide)
        (walk_blank space (.inl rfl) 0)
      exact ⟨.inr first, walked⟩
  | array derives =>
      obtain ⟨first, walked⟩ := bracketed whole (by decide)
        (walk_derives derives 0)
      exact ⟨.inr first, walked⟩
  | noMembers space =>
      obtain ⟨first, walked⟩ := bracketed whole (by decide)
        (walk_blank space (.inl rfl) 0)
      exact ⟨.inl first, walked⟩
  | object derives =>
      obtain ⟨first, walked⟩ := bracketed whole (by decide)
        (walk_derives derives 0)
      exact ⟨.inl first, walked⟩

theorem broken_of_open {before start : Text} {opened : Nat}
    (beforeBlank : blank before = true) (bracket : c = '{' ∨ c = '[')
    (outside : mode = .plain ∨ mode = .colon)
    (walked : walk ⟨.plain, 0⟩ start = some ⟨mode, opened⟩) :
    Broken (before ++ c :: start) := by
  intro count trail trailBlank
  have opens : step ⟨.colon, count + 1⟩ c = some ⟨.plain, count + 2⟩ := by
    rcases bracket with rfl | rfl <;> rfl
  have lifted : walk ⟨.plain, count + 2⟩ start =
      some ⟨mode, opened + (count + 2)⟩ := by
    have moved := walk_lift (count + 2) walked
    rwa [lift, Nat.zero_add] at moved
  have deep : walk ⟨.colon, count + 1⟩ ((before ++ c :: start) ++ trail) =
      some ⟨mode, opened + (count + 2)⟩ := by
    rw [List.append_assoc,
      walk_append_of (walk_blank beforeBlank (.inr rfl) (count + 1)),
      List.cons_append, walk_cons_of opens, walk_append_of lifted]
    exact walk_blank trailBlank outside _
  rw [← List.append_assoc, ← List.append_assoc, walk_append_of deep,
    walk_append_of deep]
  rcases outside with rfl | rfl
  · exact ⟨⟨rfl, show count + 1 < opened + (count + 2) by omega⟩,
      ⟨rfl, show count < opened + (count + 1) by omega⟩⟩
  · exact ⟨trivial, trivial⟩

theorem broken_of_newline {first rest : Text}
    (denotes : Denotes (first ++ '\n' :: rest) value) (more : blank rest ≠ true) :
    Broken first := by
  obtain ⟨before, middle, after, split, beforeBlank, derives, afterBlank⟩ :=
    denotes
  rw [← List.append_assoc] at split
  rcases List.append_eq_append_iff.mp split with
    ⟨inside, whole, behind⟩ | ⟨inside, _, behind⟩
  · cases inside with
    | nil =>
        rw [List.nil_append] at behind
        rw [← behind] at afterBlank
        simp only [blank, List.all_cons, Bool.and_eq_true] at afterBlank
        exact absurd afterBlank.2 more
    | cons c inside =>
        obtain ⟨rfl, _⟩ := List.cons.inj behind
        rcases List.append_eq_append_iff.mp whole with
          ⟨start, opens, middleSplit⟩ | ⟨start, blanks, _⟩
        · cases start with
          | nil =>
              rw [opens, List.append_nil]
              exact broken_of_blank beforeBlank
          | cons c start =>
              rw [opens]
              rw [middleSplit] at derives
              obtain ⟨bracket, mode, opened, outside, walked⟩ :=
                walk_of_newline derives
              exact broken_of_open beforeBlank bracket outside walked
        · rw [blanks, blank_append] at beforeBlank
          exact broken_of_blank beforeBlank.1
  · rw [behind, blank_append] at afterBlank
    have tail := afterBlank.2
    simp only [blank, List.all_cons, Bool.and_eq_true] at tail
    exact absurd tail.2 more

end Depth

end JsonText
