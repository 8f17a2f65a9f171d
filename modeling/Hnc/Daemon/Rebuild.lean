import Hnc.Daemon.Scheduler
import Hnc.Lib.CString
import Hnc.Lib.JsonPlace
import Hnc.Lib.JsonSearch

/-!
# The limited set after a restart

`rebuild_from_rules` of `daemon/hotspotd/scheduler.c` reads `rules.json` into a
buffer of fixed size and finds the devices with a limit with a scanner of its
own.  A pointer is kept as the text from there on, and the loops that jump run
on fuel.
-/

namespace Hnc.Scheduler

open Posix JsonText

/-- `sizeof(buf)`. -/
def bufferSize : Nat := 16384

/-- The loops that look for the brace that closes an object. -/
def closingBrace (depth : Nat) (inString escape : Bool) : Text → Option Text
  | [] => none
  | c :: rest =>
      if escape then closingBrace depth inString false rest
      else if c = '\\' then closingBrace depth inString true rest
      else if c = '"' then closingBrace depth (!inString) false rest
      else if inString then closingBrace depth inString false rest
      else if c = '{' then closingBrace (depth + 1) inString false rest
      else if c = '}' then
        if depth = 1 then some (c :: rest)
        else closingBrace (depth - 1) inString false rest
      else closingBrace depth inString false rest

/-- `strncmp(q, "true", 4)` and the test of `q[4]`. -/
def readsTrue (q : Text) : Bool :=
  match after? "true".toList q with
  | none => false
  | some [] => true
  | some (c :: _) => c == ',' || c == '}' || isSpace c

def jsonBoolTrueLoop (needle : Text) : Nat → Text → Bool
  | 0, _ => false
  | fuel + 1, p =>
      match strstr p needle with
      | none => false
      | some p =>
          match (p.drop needle.length).dropWhile isSpace with
          | ':' :: q =>
              let q := q.dropWhile isSpace
              readsTrue q || jsonBoolTrueLoop needle fuel q
          | q => jsonBoolTrueLoop needle fuel q

def jsonBoolTrueInBlock (block key : Text) : Bool :=
  jsonBoolTrueLoop (quote key) block.length block

/-- `is_mac`, for a quote in a text that ends at `dev_end`. -/
def isMac (q : Text) : Bool :=
  18 < q.length && byteAt q 3 == ':' && byteAt q 6 == ':' &&
    byteAt q 9 == ':' && byteAt q 12 == ':' && byteAt q 15 == ':' &&
    byteAt q 18 == '"'

/-- The loop over the devices: the addresses it adds. -/
def scanDevices : Nat → Text → List Text
  | 0, _ => []
  | fuel + 1, p =>
      match strchr p '"' with
      | none => []
      | some q =>
          if isMac q then
            let macRaw := (q.drop 1).take 17
            match strchr (q.drop 19) '{' with
            | none => []
            | some blockOpen =>
                match closingBrace 1 false false (blockOpen.drop 1) with
                | none => []
                | some blockEnd =>
                    let block := upTo blockOpen (blockEnd.drop 1)
                    let hasLimit :=
                      jsonBoolTrueInBlock block "limit_enabled".toList
                    (if hasLimit then (normalizeMac (some macRaw)).toList
                      else []) ++ scanDevices fuel (blockEnd.drop 1)
          else
            match strchr (q.drop 1) '"' with
            | none => []
            | some p => scanDevices fuel (p.drop 1)

/-- The text between `obj_start + 1` and `dev_end`. -/
def devicesSection (buf : Text) : Option Text := do
  let devStart ← strstr buf (quote "devices".toList)
  let objStart ← strchr devStart '{'
  let devEnd ← closingBrace 1 false false (objStart.drop 1)
  some (upTo (objStart.drop 1) devEnd)

/-- One `limited_set_add` of the loop, with the count of those added. -/
def addLimited (state : Sched × Nat) (norm : Text) : Sched × Nat :=
  match SlotSet.add maxLimitedDevices state.1.limitedMacs norm with
  | none => state
  | some macs => ({ state.1 with limitedMacs := macs }, state.2 + 1)

/-- `rebuild_from_rules`, with no file for one that cannot be opened. -/
def rebuildFromRules (sched : Sched) : Option Text → Sched × Nat
  | none => (sched, 0)
  | some file =>
      match devicesSection (cString (file.take (bufferSize - 1))) with
      | none => (sched, 0)
      | some devices =>
          (scanDevices devices.length devices).foldl addLimited (sched, 0)

/-- Characters that the brace loops pass by. -/
def passed (c : Char) : Bool :=
  c != '\\' && c != '"' && c != '{' && c != '}'

theorem closingBrace_passed {left : Text} (free : left.all passed = true)
    (depth : Nat) (rest : Text) :
    closingBrace depth false false (left ++ rest) =
      closingBrace depth false false rest := by
  induction left with
  | nil => rfl
  | cons c left induction =>
      simp only [List.all_cons, Bool.and_eq_true, passed, bne_iff_ne] at free
      obtain ⟨⟨⟨⟨slash, quoted⟩, opens⟩, closes⟩, others⟩ := free
      have later := induction (by simpa [passed] using others)
      simp [closingBrace, slash, quoted, opens, closes, later]

variable {body : Text}

theorem closingBrace_body {escape : Bool} (ok : Body escape body) (depth : Nat)
    (rest : Text) :
    closingBrace depth true escape (body ++ '"' :: rest) =
      closingBrace depth false false rest := by
  induction ok with
  | done => simp [closingBrace]
  | slash _ induction => simpa [closingBrace] using induction
  | escaped c _ induction => simpa [closingBrace] using induction
  | plain slash quoted _ induction =>
      simpa [closingBrace, slash, quoted] using induction

theorem closingBrace_quote (chars : Chars body) (depth : Nat) (rest : Text) :
    closingBrace depth false false (quote body ++ rest) =
      closingBrace depth false false rest := by
  have strings := closingBrace_body chars.body depth rest
  simpa [quote, closingBrace] using strings

variable {text : Text}

theorem all_passed_of_blank (space : blank text = true) :
    text.all passed = true := by
  rw [List.all_eq_true]
  intro c member
  have white := List.all_eq_true.mp space c member
  simp only [passed, Bool.and_eq_true, bne_iff_ne]
  refine ⟨⟨⟨?_, ?_⟩, ?_⟩, ?_⟩ <;>
  · intro same
    rw [same] at white
    exact absurd white (by decide)

theorem passed_of_isDigit {c : Char} (digit : isDigit c = true) :
    passed c = true := by
  simp only [passed, Bool.and_eq_true, bne_iff_ne]
  refine ⟨⟨⟨?_, ?_⟩, ?_⟩, ?_⟩ <;>
  · intro same
    rw [same] at digit
    exact absurd digit (by decide)

theorem closingBrace_member {m : Member} (spaced : m.Spaced)
    (key : Chars m.key) {depth : Nat}
    (value : ∀ rest, closingBrace depth false false (m.val ++ rest) =
      closingBrace depth false false rest) (rest : Text) :
    closingBrace depth false false (m.render ++ rest) =
      closingBrace depth false false rest := by
  have text : m.render ++ rest = m.lead ++ (quote m.key ++ (m.gap ++
      ([':'] ++ (m.pad ++ (m.val ++ (m.trail ++ rest)))))) := by
    simp [Member.render, Member.fromKey, Member.fromValue]
  rw [text, closingBrace_passed (all_passed_of_blank spaced.lead),
    closingBrace_quote key,
    closingBrace_passed (all_passed_of_blank spaced.gap),
    closingBrace_passed rfl,
    closingBrace_passed (all_passed_of_blank spaced.pad), value,
    closingBrace_passed (all_passed_of_blank spaced.trail)]

/-- The loops pass by every value, element and member. -/
theorem closingBrace_derives {part : Part} {value : Json}
    (derives : Derives part text value) {depth : Nat} (inside : 0 < depth)
    (rest : Text) :
    closingBrace depth false false (text ++ rest) =
      closingBrace depth false false rest := by
  have blanks : ∀ {space : Text}, blank space = true → ∀ depth rest,
      closingBrace depth false false (space ++ rest) =
        closingBrace depth false false rest :=
    fun space => closingBrace_passed (all_passed_of_blank space)
  have single : ∀ {c : Char}, passed c = true → ∀ depth rest,
      closingBrace depth false false (c :: rest) =
        closingBrace depth false false rest :=
    fun {c} pass => @closingBrace_passed [c] (by simpa using pass)
  have braces : ∀ {inner : Text} {depth : Nat}, 0 < depth →
      (∀ rest, closingBrace (depth + 1) false false (inner ++ rest) =
        closingBrace (depth + 1) false false rest) →
      ∀ rest, closingBrace depth false false (('{' :: inner ++ ['}']) ++ rest) =
        closingBrace depth false false rest := by
    intro inner depth inside passes rest
    have text : ('{' :: inner ++ ['}']) ++ rest =
        '{' :: (inner ++ '}' :: rest) := by simp
    simp [closingBrace, passes, Nat.ne_of_gt inside]
  induction derives generalizing depth rest with
  | wordNull | wordTrue | wordFalse => exact closingBrace_passed (by decide) _ _
  | number number =>
      exact closingBrace_passed
        (number.all (fun _ => passed_of_isDigit) (by decide)) _ _
  | string chars => exact closingBrace_quote chars depth rest
  | noElements space =>
      have text : ∀ inner : Text, ('[' :: inner ++ [']']) ++ rest =
          '[' :: (inner ++ ']' :: rest) := by simp
      rw [text, single (by decide), blanks space, single (by decide)]
  | array _ induction =>
      have text : ∀ inner : Text, ('[' :: inner ++ [']']) ++ rest =
          '[' :: (inner ++ ']' :: rest) := by simp
      rw [text, single (by decide), induction inside, single (by decide)]
  | noMembers space => exact braces inside (blanks space _) rest
  | object _ induction =>
      exact braces inside (induction (Nat.succ_pos depth)) rest
  | element lead _ trail induction =>
      rw [List.append_assoc, List.append_assoc, blanks lead, induction inside,
        blanks trail]
  | elements lead _ trail _ first others =>
      rw [List.append_assoc, List.append_assoc, blanks lead, List.append_assoc,
        first inside, blanks trail, List.cons_append, single (by decide),
        others inside]
  | member spaced key _ induction =>
      exact closingBrace_member spaced key (induction inside) rest
  | members spaced key _ _ first others =>
      rw [List.append_assoc,
        closingBrace_member spaced key (first inside), List.cons_append,
        single (by decide), others inside]

theorem closingBrace_object {object : Text} {members : List (Text × Json)}
    (derives : Derives .value object (.object members)) :
    ∃ inner, object = '{' :: inner ++ ['}'] ∧
      ∀ rest, closingBrace 1 false false (inner ++ '}' :: rest) =
        some ('}' :: rest) := by
  have closes : ∀ {inner : Text}, (∀ rest,
      closingBrace 1 false false (inner ++ rest) =
        closingBrace 1 false false rest) →
      ∀ rest, closingBrace 1 false false (inner ++ '}' :: rest) =
        some ('}' :: rest) := by
    intro inner passes rest
    rw [passes]
    simp [closingBrace]
  cases derives with
  | noMembers space =>
      exact ⟨_, rfl, closes (closingBrace_passed (all_passed_of_blank space) 1)⟩
  | object derives =>
      exact ⟨_, rfl, closes (closingBrace_derives derives Nat.one_pos)⟩

section

variable {s found : Text} {depth : Nat} {inString escape : Bool}
  (search : closingBrace depth inString escape s = some found)
include search

theorem closingBrace_more (more : Text) :
    closingBrace depth inString escape (s ++ more) = some (found ++ more) := by
  induction s generalizing depth inString escape with
  | nil => cases search
  | cons c s induction =>
      rw [closingBrace] at search
      rw [List.cons_append, closingBrace]
      split_ifs at search ⊢
      all_goals first
        | exact induction search
        | (cases search; rfl)

theorem closingBrace_ne_nil :
    found ≠ [] := by
  induction s generalizing depth inString escape with
  | nil => cases search
  | cons c s induction =>
      rw [closingBrace] at search
      split_ifs at search
      all_goals first
        | exact induction search
        | (cases search; exact List.cons_ne_nil _ _)

end

theorem length_dropWhile_drop_lt {needle found : Text} (solid : needle ≠ [])
    (long : needle.length ≤ found.length) :
    ((found.drop needle.length).dropWhile isSpace).length < found.length := by
  have some := List.length_pos_iff.mpr solid
  have shorter := List.length_dropWhile_le isSpace (found.drop needle.length)
  rw [List.length_drop] at shorter
  omega

theorem jsonBoolTrueLoop_enough {needle p : Text} (solid : needle ≠ [])
    {fuel other : Nat} (enough : p.length ≤ fuel) (enough' : p.length ≤ other) :
    jsonBoolTrueLoop needle fuel p = jsonBoolTrueLoop needle other p := by
  have empty : ∀ fuel, jsonBoolTrueLoop needle fuel [] = false := by
    intro fuel
    cases fuel with
    | zero => rfl
    | succ fuel => simp [jsonBoolTrueLoop, strstr, tailFrom, solid]
  induction fuel generalizing other p with
  | zero =>
      have nothing : p = [] := List.length_eq_zero_iff.mp (by omega)
      rw [nothing, empty, empty]
  | succ fuel induction =>
      cases other with
      | zero =>
          have nothing : p = [] := List.length_eq_zero_iff.mp (by omega)
          rw [nothing, empty, empty]
      | succ other =>
          rw [jsonBoolTrueLoop, jsonBoolTrueLoop]
          cases search : strstr p needle with
          | none => rfl
          | some found =>
              obtain ⟨left, rest, split, opens⟩ := strstr_eq_some search
              have long : needle.length ≤ found.length := by
                rw [opens, List.length_append]
                omega
              have shorter := length_dropWhile_drop_lt solid long
              have size := congrArg List.length split
              rw [List.length_append] at size
              have same : ∀ q : Text, q.length < found.length →
                  jsonBoolTrueLoop needle fuel q =
                    jsonBoolTrueLoop needle other q :=
                fun q short => induction (by omega) (by omega)
              dsimp only
              split
              · rename_i q colon
                rw [colon, List.length_cons] at shorter
                have behind := List.length_dropWhile_le isSpace q
                rw [same _ (by omega)]
              · exact same _ shorter

variable {key : Text}

theorem quote_ne_nil (key : Text) : quote key ≠ [] := by
  simp [quote]

theorem inBlock_skip {left : Text} (free : '"' ∉ left) (rest : Text) :
    jsonBoolTrueInBlock (left ++ rest) key = jsonBoolTrueInBlock rest key := by
  have sameSearch : ∀ fuel, jsonBoolTrueLoop (quote key) fuel (left ++ rest) =
      jsonBoolTrueLoop (quote key) fuel rest := by
    intro fuel
    cases fuel with
    | zero => rfl
    | succ fuel =>
        have search : strstr (left ++ rest) (quote key) =
            strstr rest (quote key) := strstr_skip free _ rest
        rw [jsonBoolTrueLoop, jsonBoolTrueLoop, search]
  rw [jsonBoolTrueInBlock, sameSearch]
  apply jsonBoolTrueLoop_enough (quote_ne_nil key) _ (Nat.le_refl _)
  rw [List.length_append]
  omega

variable {rest : Text}

theorem inBlock_miss (miss : after? (quote key) ('"' :: rest) = none) :
    jsonBoolTrueInBlock ('"' :: rest) key = jsonBoolTrueInBlock rest key := by
  have sameSearch : ∀ fuel, jsonBoolTrueLoop (quote key) fuel ('"' :: rest) =
      jsonBoolTrueLoop (quote key) fuel rest := by
    intro fuel
    cases fuel with
    | zero => rfl
    | succ fuel =>
        rw [jsonBoolTrueLoop, strstr_cons, miss]
        rfl
  rw [jsonBoolTrueInBlock, sameSearch]
  apply jsonBoolTrueLoop_enough (quote_ne_nil key) _ (Nat.le_refl _)
  rw [List.length_cons]
  omega

/-- What the scanner does behind a quoted key. -/
def behindKey (key q : Text) : Bool :=
  match q with
  | ':' :: q =>
      readsTrue (q.dropWhile isSpace) ||
        jsonBoolTrueInBlock (q.dropWhile isSpace) key
  | q => jsonBoolTrueInBlock q key

theorem behindKey_other {q : Text} (other : ∀ tail, q ≠ ':' :: tail) :
    behindKey key q = jsonBoolTrueInBlock q key := by
  unfold behindKey
  split
  · exact absurd rfl (other _)
  · rfl

theorem inBlock_hit (key rest : Text) :
    jsonBoolTrueInBlock (quote key ++ rest) key =
      behindKey key (rest.dropWhile isSpace) := by
  have size : (quote key ++ rest).length = (key ++ ['"'] ++ rest).length + 1 :=
    rfl
  have text : (quote key ++ rest).drop (quote key).length = rest :=
    List.drop_left
  have short := List.length_dropWhile_le isSpace rest
  have enough : ∀ q : Text, q.length ≤ rest.length →
      jsonBoolTrueLoop (quote key) (key ++ ['"'] ++ rest).length q =
        jsonBoolTrueInBlock q key := by
    intro q shorter
    apply jsonBoolTrueLoop_enough (quote_ne_nil key) _ (Nat.le_refl _)
    rw [List.length_append]
    omega
  rw [jsonBoolTrueInBlock, size, jsonBoolTrueLoop,
    strstr_hit _ rest (quote_ne_nil key)]
  dsimp only
  rw [text]
  split
  · rename_i q colon
    have behind := List.length_dropWhile_le isSpace q
    rw [colon, List.length_cons] at short
    rw [colon, enough _ (by omega)]
    rfl
  · rename_i other
    rw [enough _ short, behindKey_other]
    exact fun tail colon => other tail colon

/-- Behind a string that is no name. -/
def NoColon (rest : Text) : Prop :=
  ∀ q, rest.dropWhile isSpace ≠ ':' :: q

theorem behindKey_noColon (value : NoColon rest) :
    behindKey key (rest.dropWhile isSpace) = jsonBoolTrueInBlock rest key := by
  have spaces : '"' ∉ rest.takeWhile isSpace := by
    intro member
    exact absurd (List.mem_takeWhile_imp member) (by decide)
  have text : rest.takeWhile isSpace ++ rest.dropWhile isSpace = rest :=
    List.takeWhile_append_dropWhile
  have whole := @inBlock_skip key _ spaces (rest.dropWhile isSpace)
  rw [text] at whole
  rw [behindKey_other value, whole]

/-- Nothing begins with the quote at the end of a string. -/
theorem inBlock_close (name : KeyName key) (apart : Apart rest) :
    jsonBoolTrueInBlock ('"' :: rest) key = jsonBoolTrueInBlock rest key := by
  apply inBlock_miss
  cases found : after? (quote key) ('"' :: rest) with
  | none => rfl
  | some tail =>
      have split := after?_eq_some.mp found
      obtain ⟨first, others, text, atom⟩ := name.head
      simp only [quote, List.cons_append, List.cons.injEq, true_and,
        text] at split
      have other := apart _ _ split
      rw [atom] at other
      cases other

theorem inBlock_string (name : KeyName key) (apart : Apart rest)
    (value : NoColon rest) {escape : Bool} (ok : Body escape body) :
    jsonBoolTrueInBlock (body ++ '"' :: rest) key =
      jsonBoolTrueInBlock rest key := by
  have skip : ∀ {c : Char} {tail : Text}, c ≠ '"' →
      jsonBoolTrueInBlock (c :: tail) key = jsonBoolTrueInBlock tail key :=
    fun {c tail} other => @inBlock_skip key [c] (by simpa using Ne.symm other) tail
  induction ok with
  | done => exact inBlock_close name apart
  | slash _ induction =>
      rw [List.cons_append, skip (by decide)]
      exact induction
  | @escaped body c tailOk induction =>
      rw [List.cons_append]
      by_cases quoted : c = '"'
      · subst quoted
        cases found : after? (quote key) ('"' :: (body ++ '"' :: rest)) with
        | none =>
            rw [inBlock_miss found]
            exact induction
        | some tail =>
            -- the string ends like the name, and no colon comes
            have split := after?_eq_some.mp found
            have inside : body ++ '"' :: rest = key ++ '"' :: tail := by
              simpa [quote] using split
            have same := (body_eq_key tailOk name.plain inside).2
            rw [split, inBlock_hit, ← same]
            exact behindKey_noColon value
      · rw [skip quoted]
        exact induction
  | plain _ quoted _ induction =>
      rw [List.cons_append, skip quoted]
      exact induction

def isTrue : Json → Bool
  | .bool b => b
  | _ => false

def isScalar : Json → Bool
  | .array _ | .object _ => false
  | _ => true

/-- What may stand behind the value of a member. -/
def EndsMember (rest : Text) : Prop :=
  ∃ trail c tail, rest = trail ++ c :: tail ∧ blank trail = true ∧
    (c = ',' ∨ c = '}')

theorem dropWhile_isSpace_blank {space : Text} (white : blank space = true)
    (rest : Text) :
    (space ++ rest).dropWhile isSpace = rest.dropWhile isSpace := by
  apply List.dropWhile_append_of_pos
  intro c member
  simp [isSpace, List.all_eq_true.mp white c member]

theorem EndsMember.noColon (ends : EndsMember rest) : NoColon rest := by
  obtain ⟨trail, c, tail, rfl, white, stops⟩ := ends
  intro q colon
  rw [dropWhile_isSpace_blank white] at colon
  rcases stops with rfl | rfl
  · cases colon
  · cases colon

theorem EndsMember.apart (ends : EndsMember rest) : Apart rest := by
  obtain ⟨trail, c, tail, rfl, white, stops⟩ := ends
  apply apart_of_blank white
  apply apart_of_follows
  exact .inr ⟨c, tail, rfl, stops.imp_right Or.inl⟩

theorem readsTrue_true (ends : EndsMember rest) :
    readsTrue ("true".toList ++ rest) = true := by
  obtain ⟨trail, c, tail, rfl, white, stops⟩ := ends
  have behind : ∀ rest, after? "true".toList ("true".toList ++ rest) =
      some rest := fun rest => after?_eq_some.mpr rfl
  rw [readsTrue, behind]
  cases trail with
  | nil => rcases stops with rfl | rfl <;> rfl
  | cons d trail =>
      simp only [blank, List.all_cons, Bool.and_eq_true] at white
      simp [isSpace, white.1]

theorem readsTrue_of_head {c : Char} (other : c ≠ 't') (rest : Text) :
    readsTrue (c :: rest) = false := by
  have miss : after? "true".toList (c :: rest) = none := if_neg other
  rw [readsTrue, miss]

theorem head_of_number (number : Number text) :
    ∃ c rest, text = c :: rest ∧ c ≠ 't' ∧ isSpace c = false := by
  obtain ⟨c, rest, rfl, first⟩ := number.head
  refine ⟨c, rest, rfl, ?_, ?_⟩
  · intro same
    rw [same] at first
    exact absurd first (by decide)
  · rcases first with rfl | digit
    · decide
    · simp only [isSpace, isWs, Bool.or_eq_false_iff, beq_eq_false_iff_ne]
      refine ⟨⟨⟨⟨⟨?_, ?_⟩, ?_⟩, ?_⟩, ?_⟩, ?_⟩ <;>
      · intro same
        rw [same] at digit
        exact absurd digit (by decide)

theorem quote_not_mem_number (number : Number text) : '"' ∉ text := by
  have free : text.all (· != '"') = true := by
    apply number.all
    · intro c digit
      have pass := passed_of_isDigit digit
      simp only [passed, Bool.and_eq_true] at pass
      exact pass.1.1.2
    · decide
  intro member
  exact absurd (List.all_eq_true.mp free _ member) (by decide)

/-- What the scanner makes of a value without members. -/
theorem inBlock_value (name : KeyName key) {value : Json}
    (derives : Derives .value text value) (scalar : isScalar value = true)
    (ends : EndsMember rest) :
    jsonBoolTrueInBlock (text ++ rest) key = jsonBoolTrueInBlock rest key ∧
      readsTrue (text ++ rest) = isTrue value ∧
      (text ++ rest).dropWhile isSpace = text ++ rest := by
  cases derives with
  | wordNull =>
      exact ⟨inBlock_skip (by decide) rest, readsTrue_of_head (by decide) _,
        rfl⟩
  | wordTrue =>
      exact ⟨inBlock_skip (by decide) rest, readsTrue_true ends, rfl⟩
  | wordFalse =>
      exact ⟨inBlock_skip (by decide) rest, readsTrue_of_head (by decide) _,
        rfl⟩
  | number number =>
      refine ⟨inBlock_skip (quote_not_mem_number number) rest, ?_, ?_⟩
      · obtain ⟨c, tail, rfl, other, _⟩ := head_of_number number
        exact readsTrue_of_head other _
      · obtain ⟨c, tail, rfl, _, solid⟩ := head_of_number number
        simp [solid]
  | @string body chars =>
      have opened : quote body ++ rest = ('"' :: body) ++ '"' :: rest := by
        simp [quote]
      refine ⟨?_, readsTrue_of_head (by decide) _, rfl⟩
      rw [opened]
      exact inBlock_string name ends.apart ends.noColon
        (.escaped '"' chars.body)
  | noElements _ => cases scalar
  | array _ => cases scalar
  | noMembers _ => cases scalar
  | object _ => cases scalar

/-- A member with a name that is written as it is meant, and no object for its
value. -/
def FlatMember (m : Member) (field : Text × Json) : Prop :=
  m.Means field ∧ '\\' ∉ field.1 ∧ isScalar field.2 = true

theorem inBlock_member (name : KeyName key) {m : Member} {field : Text × Json}
    (flat : FlatMember m field)
    (ends : ∃ c tail, rest = c :: tail ∧ (c = ',' ∨ c = '}')) :
    jsonBoolTrueInBlock (m.render ++ rest) key =
      ((field.1 == key && isTrue field.2) || jsonBoolTrueInBlock rest key) := by
  obtain ⟨meant, plain, scalar⟩ := flat
  have spaced := meant.spaced
  have named : field.1 = m.key := meant.name
  have closes : EndsMember (m.trail ++ rest) := by
    obtain ⟨c, tail, same, stops⟩ := ends
    exact ⟨m.trail, c, tail, by rw [same], spaced.trail, stops⟩
  obtain ⟨passes, reads, solid⟩ :=
    inBlock_value name meant.value scalar closes
  have behind : jsonBoolTrueInBlock (m.trail ++ rest) key =
      jsonBoolTrueInBlock rest key :=
    inBlock_skip (quote_not_mem spaced.trail) rest
  have text : m.render ++ rest = m.lead ++ (quote m.key ++ (m.gap ++
      ':' :: (m.pad ++ (m.val ++ (m.trail ++ rest))))) := by
    simp [Member.render, Member.fromKey, Member.fromValue]
  have toValue : (m.gap ++ ':' :: (m.pad ++ (m.val ++ (m.trail ++
      rest)))).dropWhile isSpace =
        ':' :: (m.pad ++ (m.val ++ (m.trail ++ rest))) := by
    rw [dropWhile_isSpace_blank spaced.gap]
    rfl
  rw [text, inBlock_skip (quote_not_mem spaced.lead)]
  by_cases same : m.key = key
  · subst same
    rw [inBlock_hit, toValue, behindKey, dropWhile_isSpace_blank spaced.pad,
      solid, reads, passes, behind, named]
    simp
  · have keyPlain : plainKey m.key = true :=
      plainKey_of_chars meant.key (named ▸ plain)
    have apart : Apart (m.gap ++ ':' :: (m.pad ++ (m.val ++ (m.trail ++
        rest)))) := by
      apply apart_of_blank spaced.gap
      intro c tail colon
      cases colon
      decide
    have quoteFree : '"' ∉ m.key := by
      intro member
      exact absurd (List.all_eq_true.mp keyPlain _ member) (by decide)
    have miss : ∀ rest, after? (quote key) ('"' :: (m.key ++ '"' :: rest)) =
        none := by
      intro rest
      cases found : after? (quote key) ('"' :: (m.key ++ '"' :: rest)) with
      | none => rfl
      | some tail =>
          have split := after?_eq_some.mp found
          have inside : m.key ++ '"' :: rest = key ++ '"' :: tail := by
            simpa [quote] using split
          exact absurd (body_eq_key (body_of_plainKey keyPlain) name.plain
            inside).1 same
    have opened : ∀ rest, quote m.key ++ rest = '"' :: (m.key ++ '"' :: rest) := by
      simp [quote]
    have between : '"' ∉ m.gap ++ ':' :: m.pad := by
      simp [quote_not_mem spaced.gap, quote_not_mem spaced.pad]
    have grouped : m.gap ++ ':' :: (m.pad ++ (m.val ++ (m.trail ++ rest))) =
        (m.gap ++ ':' :: m.pad) ++ (m.val ++ (m.trail ++ rest)) := by simp
    have other : (field.1 == key) = false := by
      rw [named]
      simpa using same
    rw [opened, inBlock_miss (miss _), inBlock_skip quoteFree,
      inBlock_close name apart, grouped, inBlock_skip between, passes, behind,
      other]
    rfl

/-- The scanner of a block reads a flat object. -/
theorem inBlock_object (name : KeyName key) {fields : List (Text × Json)}
    (derives : Derives .value text (.object fields))
    (flat : ∀ field ∈ fields, '\\' ∉ field.1 ∧ isScalar field.2 = true) :
    jsonBoolTrueInBlock text key =
      fields.any fun field => field.1 == key && isTrue field.2 := by
  obtain ⟨⟨members, hollow⟩, rfl, space, means⟩ := derives.object_members
  have flatMeans : List.Forall₂ FlatMember members fields := by
    rw [List.forall₂_iff_zip] at means ⊢
    refine ⟨means.1, ?_⟩
    intro m field both
    exact ⟨means.2 both, flat field (List.of_mem_zip both).2⟩
  have noQuote : '"' ∉ ['\x7d'] := by decide
  have stops : ∀ members : List Member, ∃ c tail,
      closing members [] = c :: tail ∧ (c = ',' ∨ c = '}') := by
    intro members
    cases members with
    | nil => exact ⟨'}', [], rfl, .inr rfl⟩
    | cons m members =>
        exact ⟨',', _, closing_cons m members [], .inl rfl⟩
  have listed : ∀ {members : List Member} {fields : List (Text × Json)},
      List.Forall₂ FlatMember members fields →
      jsonBoolTrueInBlock (closing members []) key =
        fields.any fun field => field.1 == key && isTrue field.2 := by
    intro members fields means
    induction means with
    | nil => exact inBlock_skip noQuote []
    | @cons m field members fields first _ induction =>
        have comma : jsonBoolTrueInBlock (',' :: (m.render ++
            closing members [])) key =
              jsonBoolTrueInBlock (m.render ++ closing members []) key :=
          @inBlock_skip key [','] (by decide) _
        rw [closing_cons, comma, inBlock_member name first (stops members),
          induction, List.any_cons]
  have opened : ∀ text, jsonBoolTrueInBlock ('{' :: text) key =
      jsonBoolTrueInBlock text key :=
    fun text => @inBlock_skip key ['{'] (by decide) text
  have whole := Obj.render_append (Obj.mk members hollow) []
  rw [List.append_nil] at whole
  rw [whole, opened]
  cases flatMeans with
  | nil =>
      rw [Obj.inner_nil, inBlock_skip (quote_not_mem space)]
      exact inBlock_skip noQuote []
  | cons first rest =>
      rw [Obj.inner_cons, inBlock_member name first (stops _), listed rest,
        List.any_cons]

end Hnc.Scheduler
