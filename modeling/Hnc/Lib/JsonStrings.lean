import Hnc.Lib.JsonGrammar
import Hnc.Lib.JsonSearch

/-!
# Where the strings of a JSON text are

An automaton follows the quotes and escapes of a text.  Behind a string it
accepts only what may stand there, so that a quote in front of a letter opens a
string or is escaped in one.  A search for a quoted word and a colon in a JSON
text therefore finds the end of a name, and a quote behind the colon opens the
value.
-/

namespace JsonText

open Posix

/-- Where in a text the automaton is: outside strings, right behind one, in one,
behind a backslash in one, or that many hexadecimal digits from the end of an
escape. -/
inductive Spot where
  | outside
  | closed
  | inside
  | escaped
  | digits (left : Nat)
deriving DecidableEq

/-- A character that may stand behind a string. -/
def endsString (c : Char) : Bool :=
  isWs c || c == ',' || c == ':' || c == ']' || c == '}'

namespace Spot

def step (spot : Spot) (c : Char) : Option Spot :=
  match spot with
  | outside => if c = '"' then some inside else some outside
  | closed => if endsString c then some outside else none
  | inside =>
      if c = '"' then some closed
      else if c = '\\' then some escaped
      else if c.toNat < ' '.toNat then none
      else some inside
  | escaped =>
      if c = 'u' then some (digits 4)
      else if c ∈ "\"\\/bfnrt".toList then some inside
      else none
  | digits left =>
      if c ∈ hexDigits then some (if left = 1 then inside else digits (left - 1))
      else none

def scan (spot : Spot) : Text → Option Spot
  | [] => some spot
  | c :: rest => (spot.step c).bind fun next => scan next rest

/-- A JSON text may end here. -/
def Settled (spot : Spot) : Prop :=
  spot = outside ∨ spot = closed

theorem scan_append (spot : Spot) (left right : Text) :
    spot.scan (left ++ right) =
      (spot.scan left).bind fun next => next.scan right := by
  induction left generalizing spot with
  | nil => rfl
  | cons c left induction =>
      rw [List.cons_append, scan, scan]
      cases spot.step c with
      | none => rfl
      | some next => exact induction next

variable {spot next : Spot}

theorem scan_append_of {left : Text} (scanned : spot.scan left = some next)
    (right : Text) : spot.scan (left ++ right) = next.scan right := by
  rw [scan_append, scanned]
  rfl

variable {c : Char}

theorem scan_cons_of (stepped : spot.step c = some next) (rest : Text) :
    spot.scan (c :: rest) = next.scan rest := by
  rw [scan, stepped]
  rfl

variable {text : Text}

theorem scan_outside (free : '"' ∉ text) : outside.scan text = some outside := by
  induction text with
  | nil => rfl
  | cons c rest induction =>
      simp only [List.mem_cons, not_or] at free
      rw [scan_cons_of (show step outside c = some outside by
        simp [step, Ne.symm free.1])]
      exact induction free.2

/-- Behind a value. -/
theorem Settled.scan_cons (settled : spot.Settled) (ends : endsString c = true)
    (rest : Text) : spot.scan (c :: rest) = outside.scan rest := by
  rcases settled with rfl | rfl
  · have other : c ≠ '"' := by
      rintro rfl
      exact absurd ends (by decide)
    exact scan_cons_of (by simp [step, other]) rest
  · exact scan_cons_of (by simp [step, ends]) rest

theorem Settled.scan_blank (settled : spot.Settled) {trail : Text}
    (white : blank trail = true) :
    ∃ next, spot.scan trail = some next ∧ next.Settled := by
  cases trail with
  | nil => exact ⟨spot, rfl, settled⟩
  | cons c trail =>
      simp only [blank, List.all_cons, Bool.and_eq_true] at white
      rw [settled.scan_cons (by simp [endsString, white.1])]
      exact ⟨outside, scan_outside (quote_not_mem white.2), .inl rfl⟩

theorem Settled.scan_trail (settled : spot.Settled) {trail : Text}
    (white : blank trail = true) (ends : endsString c = true) (rest : Text) :
    spot.scan (trail ++ c :: rest) = outside.scan rest := by
  obtain ⟨next, scanned, nextSettled⟩ := settled.scan_blank white
  rw [scan_append_of scanned]
  exact nextSettled.scan_cons ends rest

theorem scan_inside_cons (visible : ' '.toNat ≤ c.toNat) (quote : c ≠ '"')
    (slash : c ≠ '\\') (rest : Text) :
    inside.scan (c :: rest) = inside.scan rest := by
  refine scan_cons_of ?_ rest
  rw [step, if_neg quote, if_neg slash, if_neg (Nat.not_lt.mpr visible)]

theorem scan_escape {e : Char} (letter : e ∈ "\"\\/bfnrt".toList) (rest : Text) :
    inside.scan ('\\' :: e :: rest) = inside.scan rest := by
  have other : e ≠ 'u' := by
    rintro rfl
    exact absurd letter (by decide)
  exact scan_cons_of (by rw [step, if_neg other, if_pos letter]) rest

theorem scan_unicode {a b d : Char} (hex : ∀ h ∈ [a, b, c, d], h ∈ hexDigits)
    (rest : Text) :
    inside.scan ('\\' :: 'u' :: a :: b :: c :: d :: rest) =
      inside.scan rest := by
  simp only [List.forall_mem_cons] at hex
  obtain ⟨first, second, third, fourth, _⟩ := hex
  rw [scan_cons_of (show step inside '\\' = some escaped from rfl),
    scan_cons_of (show step escaped 'u' = some (digits 4) from rfl),
    scan_cons_of (show step (digits 4) a = some (digits 3) by simp [step, first]),
    scan_cons_of (show step (digits 3) b = some (digits 2) by simp [step, second]),
    scan_cons_of (show step (digits 2) c = some (digits 1) by simp [step, third]),
    scan_cons_of (show step (digits 1) d = some inside by simp [step, fourth])]

variable {body : Text}

theorem scan_chars (chars : Chars body) : inside.scan body = some inside := by
  induction chars with
  | nil => rfl
  | unescaped visible quote slash _ induction =>
      rw [scan_inside_cons visible quote slash]
      exact induction
  | escape letter _ induction =>
      rw [scan_escape letter]
      exact induction
  | unicode hex _ induction =>
      rw [scan_unicode hex]
      exact induction

theorem scan_quote (chars : Chars body) :
    outside.scan (quote body) = some closed := by
  rw [quote, List.cons_append, scan_cons_of (show step outside '"' = some inside
    from rfl), scan_append_of (scan_chars chars)]
  rfl

theorem quote_not_mem_atom (atom : text.all isAtomChar = true) : '"' ∉ text := by
  intro member
  exact absurd (List.all_eq_true.mp atom _ member) (by decide)

theorem scan_render {m : Member} (spaced : m.Spaced) (key : Chars m.key)
    (scanned : outside.scan m.val = some next) (settled : next.Settled) :
    ∃ last, outside.scan m.render = some last ∧ last.Settled := by
  have named : outside.scan (m.lead ++ quote m.key) = some closed := by
    rw [scan_append_of (scan_outside (quote_not_mem spaced.lead))]
    exact scan_quote key
  have behind : outside.scan m.render = next.scan m.trail := by
    have split : m.render = (m.lead ++ quote m.key) ++
        (m.gap ++ ':' :: (m.pad ++ (m.val ++ m.trail))) := by
      simp [Member.render, Member.fromKey, Member.fromValue]
    have colon : closed.Settled := .inr rfl
    rw [split, scan_append_of named, colon.scan_trail spaced.gap (by decide),
      scan_append_of (scan_outside (quote_not_mem spaced.pad)),
      scan_append_of scanned]
  rw [behind]
  exact settled.scan_blank spaced.trail

theorem scan_derives {part : Part} {value : Json}
    (derives : Derives part text value) :
    ∃ next, outside.scan text = some next ∧ next.Settled := by
  have atom : ∀ {text : Text}, text.all isAtomChar = true →
      ∃ next, outside.scan text = some next ∧ next.Settled :=
    fun all => ⟨outside, scan_outside (quote_not_mem_atom all), .inl rfl⟩
  have brackets : ∀ {opening closing : Char} {inner : Text} {next : Spot},
      opening ≠ '"' → endsString closing = true →
      outside.scan inner = some next → next.Settled →
      ∃ next, outside.scan (opening :: inner ++ [closing]) = some next ∧
        next.Settled := by
    intro opening closing inner next other ends scanned settled
    refine ⟨outside, ?_, .inl rfl⟩
    rw [List.cons_append, scan_cons_of (show step outside opening = some outside
      by simp [step, other]), scan_append_of scanned]
    exact settled.scan_cons ends []
  have hollow : ∀ {space : Text}, blank space = true →
      outside.scan space = some outside :=
    fun white => scan_outside (quote_not_mem white)
  induction derives with
  | wordNull | wordTrue | wordFalse => exact atom (by decide)
  | number number => exact atom number.isAtomChar
  | string chars => exact ⟨closed, scan_quote chars, .inr rfl⟩
  | noElements space =>
      exact brackets (by decide) (by decide) (hollow space) (.inl rfl)
  | array _ induction =>
      obtain ⟨next, scanned, settled⟩ := induction
      exact brackets (by decide) (by decide) scanned settled
  | noMembers space =>
      exact brackets (by decide) (by decide) (hollow space) (.inl rfl)
  | object _ induction =>
      obtain ⟨next, scanned, settled⟩ := induction
      exact brackets (by decide) (by decide) scanned settled
  | element lead _ trail induction =>
      obtain ⟨next, scanned, settled⟩ := induction
      rw [scan_append_of (hollow lead), scan_append_of scanned]
      exact settled.scan_blank trail
  | elements lead _ trail _ first rest =>
      obtain ⟨next, scanned, settled⟩ := first
      rw [scan_append_of (hollow lead), scan_append_of scanned,
        settled.scan_trail trail (by decide)]
      exact rest
  | member spaced key _ induction =>
      obtain ⟨next, scanned, settled⟩ := induction
      exact scan_render spaced key scanned settled
  | members spaced key _ _ first rest =>
      obtain ⟨next, scanned, settled⟩ := first
      obtain ⟨last, rendered, lastSettled⟩ :=
        scan_render spaced key scanned settled
      rw [scan_append_of rendered, lastSettled.scan_cons (by decide)]
      exact rest

theorem scan_isJson (isJson : IsJson text) :
    ∃ next, outside.scan text = some next ∧ next.Settled := by
  obtain ⟨value, before, middle, after, rfl, lead, derives, trail⟩ := isJson
  obtain ⟨next, scanned, settled⟩ := scan_derives derives
  rw [scan_append_of (scan_outside (quote_not_mem lead)), scan_append_of scanned]
  exact settled.scan_blank trail

variable {rest : Text} {last : Spot}

/-- The digits of an escape, with what follows them. -/
theorem digits_of_scan {left : Nat}
    (scanned : (digits (left + 1)).scan rest = some last) (settled : last.Settled) :
    ∃ hex tail, rest = hex ++ tail ∧ hex.length = left + 1 ∧
      (∀ h ∈ hex, h ∈ hexDigits) ∧ inside.scan tail = some last := by
  induction left generalizing rest with
  | zero =>
      cases rest with
      | nil =>
          cases scanned
          rcases settled with same | same <;> cases same
      | cons c rest =>
          by_cases hex : c ∈ hexDigits
          · rw [scan_cons_of (show step (digits 1) c = some inside by
              simp [step, hex])] at scanned
            exact ⟨[c], rest, rfl, rfl, by simpa using hex, scanned⟩
          · rw [scan, step, if_neg hex] at scanned
            cases scanned
  | succ left induction =>
      cases rest with
      | nil =>
          cases scanned
          rcases settled with same | same <;> cases same
      | cons c rest =>
          by_cases hex : c ∈ hexDigits
          · rw [scan_cons_of (show step (digits (left + 2)) c =
              some (digits (left + 1)) by simp [step, hex])] at scanned
            obtain ⟨more, tail, rfl, length, all, again⟩ := induction scanned
            refine ⟨c :: more, tail, rfl, by simp [length], ?_, again⟩
            intro h member
            rcases List.mem_cons.mp member with rfl | later
            · exact hex
            · exact all h later
          · rw [scan, step, if_neg hex] at scanned
            cases scanned

theorem escape_of_scan (scanned : inside.scan ('\\' :: rest) = some last)
    (settled : last.Settled) :
    ∃ front tail, rest = front ++ tail ∧
      (∀ body, Chars body → Chars ('\\' :: front ++ body)) ∧
      inside.scan tail = some last := by
  rw [scan_cons_of (show step inside '\\' = some escaped from rfl)] at scanned
  cases rest with
  | nil =>
      cases scanned
      rcases settled with same | same <;> cases same
  | cons e rest =>
      by_cases unicode : e = 'u'
      · subst unicode
        obtain ⟨hex, tail, rfl, length, all, again⟩ :=
          digits_of_scan scanned settled
        obtain ⟨a, b, c, d, rfl⟩ := List.length_eq_four.mp length
        exact ⟨['u', a, b, c, d], tail, rfl, fun _ => .unicode all, again⟩
      · by_cases letter : e ∈ "\"\\/bfnrt".toList
        · rw [scan_cons_of (show step escaped e = some inside by
            rw [step, if_neg unicode, if_pos letter])] at scanned
          exact ⟨[e], rest, rfl, fun _ => .escape letter, scanned⟩
        · rw [scan, step, if_neg unicode, if_neg letter] at scanned
          cases scanned

/-- From inside a string on, a text that ends outside closes the string. -/
theorem exists_body_of_scan (scanned : inside.scan rest = some last)
    (settled : last.Settled) :
    ∃ body tail, rest = body ++ '"' :: tail ∧ Chars body := by
  induction size_eq : rest.length using Nat.strongRecOn generalizing rest with
  | ind size induction =>
      cases rest with
      | nil =>
          cases scanned
          rcases settled with same | same <;> cases same
      | cons c rest =>
          by_cases quote : c = '"'
          · exact ⟨[], rest, by rw [quote]; rfl, .nil⟩
          by_cases slash : c = '\\'
          · subst slash
            obtain ⟨front, tail, rfl, chars, again⟩ :=
              escape_of_scan scanned settled
            have shorter : tail.length < size := by
              rw [← size_eq, List.length_cons, List.length_append]
              omega
            obtain ⟨body, behind, rfl, ok⟩ := induction _ shorter again rfl
            exact ⟨'\\' :: front ++ body, behind, by simp, chars body ok⟩
          · have visible : ' '.toNat ≤ c.toNat := by
              by_contra control
              rw [scan, step, if_neg quote, if_neg slash,
                if_pos (Nat.not_le.mp control)] at scanned
              cases scanned
            rw [scan_inside_cons visible quote slash] at scanned
            have shorter : rest.length < size := by
              rw [← size_eq, List.length_cons]
              omega
            obtain ⟨body, behind, rfl, ok⟩ := induction _ shorter scanned rfl
            exact ⟨c :: body, behind, rfl, .unescaped visible quote slash ok⟩

/-- A quote in front of what cannot stand behind a string opens one, or is
escaped in one. -/
theorem inside_of_quote (solid : endsString c = false)
    (scanned : spot.scan ('"' :: c :: rest) = some last) :
    inside.scan (c :: rest) = some last := by
  cases spot with
  | outside => exact scanned
  | escaped => exact scanned
  | closed =>
      cases scanned
  | inside =>
      rw [scan_cons_of (show step inside '"' = some closed from rfl), scan, step,
        if_neg (by simp [solid])] at scanned
      cases scanned
  | digits left =>
      cases scanned

theorem scan_colon {gap : Text} (space : gap.all isSpace = true)
    (scanned : closed.scan (gap ++ ':' :: rest) = some last) :
    outside.scan rest = some last := by
  cases gap with
  | nil => exact scanned
  | cons c gap =>
      simp only [List.all_cons, Bool.and_eq_true] at space
      have free := quote_not_mem_space space.2
      rw [List.cons_append, scan, step] at scanned
      split at scanned
      · rw [Option.bind_some, scan_append_of (scan_outside free)] at scanned
        exact scanned
      · cases scanned

/-- A quoted word in front of a colon ends a name, and a quote behind the colon
opens a string. -/
theorem named_string {before word gap pad : Text}
    (isJson : IsJson (before ++ (quote word ++ (gap ++ ':' :: (pad ++ '"' :: rest)))))
    (chars : Chars word) (head : ∀ c ∈ word.head?, endsString c = false)
    (nonempty : word ≠ []) (gapSpace : gap.all isSpace = true)
    (padSpace : pad.all isSpace = true) :
    ∃ body tail, rest = body ++ '"' :: tail ∧ Chars body := by
  obtain ⟨last, scanned, settled⟩ := scan_isJson isJson
  rw [scan_append, Option.bind_eq_some_iff] at scanned
  obtain ⟨spot, _, scanned⟩ := scanned
  obtain ⟨c, others, rfl⟩ := List.exists_cons_of_ne_nil nonempty
  have split : quote (c :: others) ++ (gap ++ ':' :: (pad ++ '"' :: rest)) =
      '"' :: c :: (others ++ '"' :: (gap ++ ':' :: (pad ++ '"' :: rest))) := by
    simp [quote]
  rw [split] at scanned
  have opened := inside_of_quote (head c rfl) scanned
  rw [← List.cons_append, scan_append_of (scan_chars chars)] at opened
  have value := scan_colon gapSpace opened
  rw [scan_append_of (scan_outside (quote_not_mem_space padSpace))] at value
  exact exists_body_of_scan value settled

/-- Up to its first quote, a string with an escaped quote ends in the backslash
of the escape. -/
theorem cut_of_escaped_quote (chars : Chars body) (escaped_quote : '"' ∈ body) :
    ∃ front, body.takeWhile (· != '"') = front ++ ['\\'] ∧ Chars front := by
  induction chars with
  | nil => cases escaped_quote
  | @unescaped c rest visible quote slash _ induction =>
      rcases List.mem_cons.mp escaped_quote with same | later
      · exact absurd same.symm quote
      · obtain ⟨front, cut, ok⟩ := induction later
        refine ⟨c :: front, ?_, .unescaped visible quote slash ok⟩
        simp [quote, cut]
  | @escape e rest letter _ induction =>
      by_cases same : e = '"'
      · exact ⟨[], by simp [same], .nil⟩
      · have later : '"' ∈ rest := by simpa [Ne.symm same] using escaped_quote
        obtain ⟨front, cut, ok⟩ := induction later
        refine ⟨'\\' :: e :: front, ?_, .escape letter ok⟩
        simp [same, cut]
  | @unicode a b c d rest hex _ induction =>
      have solid : hexDigits.all (fun h => h != '"') = true := by decide
      have other : ∀ h ∈ [a, b, c, d], h ≠ '"' := by
        intro h member
        simpa using List.all_eq_true.mp solid h (hex h member)
      simp only [List.forall_mem_cons] at other
      obtain ⟨first, second, third, fourth, _⟩ := other
      have later : '"' ∈ rest := by
        simpa [Ne.symm first, Ne.symm second, Ne.symm third, Ne.symm fourth]
          using escaped_quote
      obtain ⟨front, cut, ok⟩ := induction later
      refine ⟨'\\' :: 'u' :: a :: b :: c :: d :: front, ?_, .unicode hex ok⟩
      simp [first, second, third, fourth, cut]

theorem not_isJson_of_cut {before front behind : Text}
    (opened : outside.scan before = some inside) (chars : Chars front)
    (closing : inside.scan behind = some inside) :
    ¬IsJson (before ++ (front ++ '\\' :: '"' :: behind)) := by
  intro isJson
  obtain ⟨last, scanned, settled⟩ := scan_isJson isJson
  rw [scan_append_of opened, scan_append_of (scan_chars chars),
    scan_escape (by decide), closing] at scanned
  cases scanned
  rcases settled with same | same <;> cases same

end Spot

end JsonText
