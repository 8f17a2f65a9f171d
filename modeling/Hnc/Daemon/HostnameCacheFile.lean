import Hnc.Daemon.HostnameCache
import Hnc.Daemon.JsonEscape
import Hnc.Lib.Loops

/-!
# `hostname_cache.json`

`hnc_cache_save` prints the active slots as one JSON object, and `hnc_cache_load`
finds the records again by the text between the MAC and the name.  Its pointers
into the buffer are the texts from there on.
-/

namespace Hnc.HostnameCache

open Posix JsonText Hotspotd

/-! ## Saving -/

/-- The pattern `":{"h":"` behind a MAC. -/
def nameMarker : Text :=
  "\":\x7b\"h\":\"".toList

def srcMarker : Text :=
  ",\"s\":\"".toList

def timeMarker : Text :=
  ",\"t\":".toList

/-- What `fprintf` prints for a slot, up to the quote behind the source.  The
name is in `esc_hn`, which has 128 bytes. -/
def printFront (e : Entry) : Text :=
  '"' :: (e.mac ++ (nameMarker ++ (hncJsonEscape e.hostname 128 ++
    ('"' :: (srcMarker ++ (e.src ++ ['"']))))))

def printBack (e : Entry) : Text :=
  timeMarker ++ (printLong e.updatedAt ++ ['\x7d'])

/-- What `fprintf` prints for a slot. -/
def printEntry (e : Entry) : Text :=
  printFront e ++ printBack e

/-- The loop over the slots; the flag is `first`. -/
def printEntries : Bool → List Entry → Text
  | _, [] => []
  | first, e :: entries =>
      if e.active then
        (if first then [] else [',']) ++ printEntry e ++
          printEntries false entries
      else printEntries first entries

/-- What `hnc_cache_save` writes when no call fails. -/
def hncCacheSave (cache : Cache) : Text :=
  '\x7b' :: printEntries true cache.slots ++ ['\x7d', '\n']

/-! ## Numbers -/

/-- `isspace` in the C locale. -/
def isSpace (c : Char) : Bool :=
  c == ' ' || (9 ≤ c.toNat && c.toNat ≤ 13)

/-- The sign of a number, and the text behind it. -/
def takeSign : Text → Bool × Text
  | '-' :: rest => (true, rest)
  | '+' :: rest => (false, rest)
  | s => (false, s)

/-- `strtol(s, NULL, 10)`. -/
def strtol (s : Text) : Int :=
  let (negative, body) := takeSign (s.dropWhile isSpace)
  let value : Int := Nat.ofDigitChars 10 (body.takeWhile isDigit) 0
  if negative then max (-2 ^ 63) (-value) else min (2 ^ 63 - 1) value

/-- The digits of a hexadecimal number, with or without `0x`. -/
def hexBody : Text → Text
  | '0' :: x :: h :: rest =>
      if (x = 'x' ∨ x = 'X') ∧ h ∈ hexDigits then h :: rest
      else '0' :: x :: h :: rest
  | s => s

/-- `strtoul(hex, &endp, 16)`, if `endp` is the end of the string. -/
def strtoulAll (hex : Text) : Option Nat :=
  let (negative, body) := takeSign (hex.dropWhile isSpace)
  let digits := hexBody body
  if digits ≠ [] ∧ digits.all (· ∈ hexDigits) then
    some (if negative then (2 ^ 64 - codeUnit digits) % 2 ^ 64
      else codeUnit digits)
  else none

/-! ## Loading -/

/-- The bytes that `\u` and a number add to a name of `j` bytes. -/
def unicodeBytes (j cp : Nat) : Text :=
  if cp < 0x80 then [Char.ofNat cp]
  else if cp < 0x800 ∧ j + 1 < 63 then
    [Char.ofNat (0xC0 ||| cp >>> 6), Char.ofNat (0x80 ||| cp &&& 0x3F)]
  else if j + 2 < 63 then
    [Char.ofNat ((0xE0 ||| cp >>> 12) % 256),
      Char.ofNat (0x80 ||| cp >>> 6 &&& 0x3F), Char.ofNat (0x80 ||| cp &&& 0x3F)]
  else []

/-- The letters that `hnc_cache_load` undoes; others stand for themselves. -/
def unescapeChar (c : Char) : Char :=
  if c = 'n' then '\n'
  else if c = 'r' then '\r'
  else if c = 't' then '\t'
  else if c = 'b' then '\x08'
  else if c = 'f' then '\x0c'
  else c

/-- The loop that reads a name into `hn`, which has 64 bytes. -/
def readName (hn : Text) : Text → Text × Text
  | [] => (hn, [])
  | '\\' :: 'u' :: a :: b :: c :: d :: rest =>
      if 63 ≤ hn.length then (hn, '\\' :: 'u' :: a :: b :: c :: d :: rest)
      else
        match strtoulAll [a, b, c, d] with
        | some cp => readName (hn ++ unicodeBytes hn.length cp) rest
        | none => readName (hn ++ ['u']) (a :: b :: c :: d :: rest)
  | '\\' :: c :: rest =>
      if 63 ≤ hn.length then (hn, '\\' :: c :: rest)
      else readName (hn ++ [unescapeChar c]) rest
  | c :: rest =>
      if c = '"' ∨ 63 ≤ hn.length then (hn, c :: rest)
      else readName (hn ++ [c]) rest

/-- The loop that reads a source into `src`, which has 12 bytes. -/
def readSrc (src : Text) : Text → Text × Text
  | [] => (src, [])
  | c :: rest =>
      if c = '"' ∨ 11 ≤ src.length then (src, c :: rest)
      else readSrc (src ++ [c]) rest

/-- The variables of the loop in `hnc_cache_load`: `p`, `loaded` and the
table. -/
structure Loading where
  p : Text
  loaded : Nat
  cache : Cache

/-- `p++` behind a match that is no record. -/
def Loading.skip (s : Loading) (found : Text) : Loading :=
  { s with p := found.tail }

/-- The new record, if there is room and both texts are there. -/
def Loading.insert (s : Loading) (mac hn src r : Text) : Loading :=
  if s.loaded < maxEntries ∧ hn ≠ [] ∧ src ≠ [] then
    let updatedAt := match strstr r timeMarker with
      | some found => strtol (found.drop timeMarker.length)
      | none => 0
    { s with
      loaded := s.loaded + 1
      cache := s.cache.set s.loaded
        ⟨true, copyInto 18 mac, copyInto 64 (cString hn), copyInto 12 src,
          updatedAt⟩ s.cache.dirty }
  else s

/-- The body of the loop behind a match of the pattern, at `found`. -/
def readRecord (buf : Text) (s : Loading) (found : Text) : Loading :=
  let keyEnd := buf.length - found.length
  if keyEnd < 18 then s.skip found
  else if buf[keyEnd - 18]? ≠ some '"' then s.skip found
  else
    let mac := (buf.drop (keyEnd - 17)).take 17
    let (hn, q) := readName [] (found.drop nameMarker.length)
    if q.head? ≠ some '"' then s.skip found
    else
      match strstr q srcMarker with
      | none => s.skip found
      | some marker =>
          let (src, r) := readSrc [] (marker.drop srcMarker.length)
          if r.head? ≠ some '"' then s.skip found
          else { s.insert mac hn src r with p := r.tail }

def loadTurn (buf : Text) (s : Loading) : Loops.Turn Loading Cache :=
  match strstr s.p nameMarker with
  | none => .done s.cache
  | some found => .again (readRecord buf s found)

theorem readName_suffix (hn q : Text) : (readName hn q).2 <:+ q := by
  fun_induction readName hn q with
  | case1 => exact List.suffix_rfl
  | case2 => exact List.suffix_rfl
  | case3 _ _ _ _ _ _ _ _ _ induction =>
      exact induction.trans ⟨['\\', 'u', _, _, _, _], rfl⟩
  | case4 _ _ _ _ _ _ _ _ induction =>
      exact induction.trans ⟨['\\', 'u'], rfl⟩
  | case5 => exact List.suffix_rfl
  | case6 _ _ _ _ _ induction => exact induction.trans ⟨['\\', _], rfl⟩
  | case7 => exact List.suffix_rfl
  | case8 _ _ _ _ _ _ induction => exact induction.trans ⟨[_], rfl⟩

theorem readSrc_suffix (src q : Text) : (readSrc src q).2 <:+ q := by
  fun_induction readSrc src q with
  | case1 => exact List.suffix_rfl
  | case2 => exact List.suffix_rfl
  | case3 _ _ _ _ induction => exact induction.trans ⟨[_], rfl⟩

theorem length_skip (s : Loading) {found : Text} (solid : found ≠ []) :
    (s.skip found).p.length < found.length := by
  rw [Loading.skip, List.length_tail]
  have positive := List.length_pos_iff.mpr solid
  omega

/-- Every turn moves `p` forward. -/
theorem length_readRecord (buf : Text) (s : Loading) {found : Text}
    (solid : found ≠ []) :
    (readRecord buf s found).p.length < found.length := by
  have skip := length_skip s solid
  rw [readRecord]
  dsimp only
  split
  · exact skip
  · split
    · exact skip
    · split
      · exact skip
      · cases search : strstr (readName [] (found.drop nameMarker.length)).2
            srcMarker with
        | none => exact skip
        | some marker =>
            dsimp only
            split
            · exact skip
            · obtain ⟨left, rest, split, _⟩ := strstr_eq_some search
              have name := (readName_suffix [] (found.drop
                nameMarker.length)).length_le
              have source := (readSrc_suffix [] (marker.drop
                srcMarker.length)).length_le
              have inside := congrArg List.length split
              rw [List.length_append] at inside
              rw [List.length_drop] at name source
              rw [List.length_tail]
              omega

/-- The loop of `hnc_cache_load` over the string in the buffer. -/
def loadLoop (buf : Text) : Loops.Loop Loading Cache where
  turn := loadTurn buf
  variant := fun s => s.p.length
  decreases := by
    intro s s' body
    rw [loadTurn] at body
    cases search : strstr s.p nameMarker with
    | none =>
        rw [search] at body
        cases body
    | some found =>
        rw [search] at body
        cases body
        obtain ⟨left, rest, split, opens⟩ := strstr_eq_some search
        have solid : found ≠ [] := by
          rw [opens]
          exact List.cons_ne_nil _ _
        have shorter := length_readRecord buf s solid
        have whole := congrArg List.length split
        rw [List.length_append] at whole
        omega

/-- `hnc_cache_load`. -/
def hncCacheLoad (cache : Cache) (file : Option Text) : Cache :=
  match file with
  | none => cache
  | some bytes =>
      if bytes.length = 0 ∨ 256 * 1024 < bytes.length then cache
      else
        let buf := cString bytes
        let loaded := (loadLoop buf).exec ⟨buf, 0, cache⟩
        ⟨loaded.slots, loaded.size, false⟩

/-! ## Reading what was printed -/

variable {hn : Text}

theorem readName_letter (free : ¬63 ≤ hn.length) {e : Char} (other : e ≠ 'u')
    (rest : Text) :
    readName hn ('\\' :: e :: rest) =
      readName (hn ++ [unescapeChar e]) rest := by
  rw [readName, if_neg free]
  intro _ _ _ _ _ same
  exact absurd same other

variable {c : Char}

theorem readName_plain (free : ¬63 ≤ hn.length) (quote : c ≠ '"')
    (slash : c ≠ '\\') (rest : Text) :
    readName hn (c :: rest) = readName (hn ++ [c]) rest := by
  rw [readName, if_neg (not_or.mpr ⟨quote, free⟩)]
  · intro _ _ _ _ _ same
    exact absurd same slash
  · intro _ _ same
    exact absurd same slash

theorem strtoulAll_control (control : c.toNat < 0x20) :
    strtoulAll ['0', '0', Nat.digitChar (c.toNat / 16),
      Nat.digitChar (c.toNat % 16)] = some c.toNat := by
  have table : ∀ n < 0x20, strtoulAll ['0', '0', Nat.digitChar (n / 16),
      Nat.digitChar (n % 16)] = some n := by
    decide +kernel
  exact table c.toNat control

/-- What stands for a byte is read as that byte. -/
theorem readName_escapeByte (free : ¬63 ≤ hn.length) (c : Char) (rest : Text) :
    readName hn (escapeByte c ++ rest) = readName (hn ++ [c]) rest := by
  unfold escapeByte
  split
  · rename_i special
    rcases special with rfl | rfl
    · exact readName_letter free (by decide) rest
    · exact readName_letter free (by decide) rest
  · rename_i plain
    simp only [not_or] at plain
    split
    · rename_i newline
      subst newline
      exact readName_letter free (by decide) rest
    · split
      · rename_i return_
        subst return_
        exact readName_letter free (by decide) rest
      · split
        · rename_i tab
          subst tab
          exact readName_letter free (by decide) rest
        · split
          · rename_i control
            simp only [List.cons_append, List.nil_append]
            rw [readName, if_neg free, strtoulAll_control control]
            dsimp only
            rw [unicodeBytes, if_pos (by omega), Char.ofNat_toNat]
          · exact readName_plain free plain.1 plain.2 rest

/-- A text that `hnc_json_escape` may have written is read back. -/
theorem readName_escaped {bytes : Text} (hn rest : Text)
    (room : hn.length + bytes.length ≤ 63) :
    readName hn (bytes.flatMap escapeByte ++ '"' :: rest) =
      (hn ++ bytes, '"' :: rest) := by
  induction bytes generalizing hn with
  | nil => simp [readName]
  | cons c bytes induction =>
      rw [List.length_cons] at room
      have free : ¬63 ≤ hn.length := by omega
      rw [List.flatMap_cons, List.append_assoc, readName_escapeByte free c,
        induction (hn ++ [c])]
      · simp
      · rw [List.length_append, List.length_singleton]
        omega

theorem readSrc_plain {text : Text} (src rest : Text) (free : '"' ∉ text)
    (room : src.length + text.length ≤ 11) :
    readSrc src (text ++ '"' :: rest) = (src ++ text, '"' :: rest) := by
  induction text generalizing src with
  | nil => simp [readSrc]
  | cons c text induction =>
      simp only [List.mem_cons, not_or] at free
      rw [List.length_cons] at room
      have other : ¬(c = '"' ∨ 11 ≤ src.length) := by
        rw [not_or]
        exact ⟨Ne.symm free.1, by omega⟩
      rw [List.cons_append, readSrc, if_neg other, induction (src ++ [c]) free.2]
      · simp
      · rw [List.length_append, List.length_singleton]
        omega

theorem takeWhile_digits (n : Nat) (rest : Text) :
    (Nat.toDigits 10 n ++ '\x7d' :: rest).takeWhile isDigit =
      Nat.toDigits 10 n := by
  rw [List.takeWhile_append_of_pos fun _ => isDigit_of_mem_toDigits,
    List.takeWhile_cons_of_neg (by decide), List.append_nil]

theorem takeSign_digit (digit : isDigit c = true) (rest : Text) :
    takeSign (c :: rest) = (false, c :: rest) ∧ isSpace c = false := by
  have range := digit
  simp only [isDigit, Bool.and_eq_true, decide_eq_true_eq] at range
  have low : '0'.toNat ≤ c.toNat := range.1
  constructor
  · rw [takeSign]
    · intro _ minus
      cases minus
      exact absurd low (by decide)
    · intro _ plus
      cases plus
      exact absurd low (by decide)
  · have space : c ≠ ' ' := by
      intro same
      rw [same] at low
      exact absurd low (by decide)
    have code : '0'.toNat = 48 := rfl
    have beyond : ¬c.toNat ≤ 13 := by omega
    simp [isSpace, space, beyond]

/-- What `%ld` printed is read as the same number. -/
theorem strtol_printLong {value : Int} (low : -2 ^ 63 ≤ value)
    (high : value < 2 ^ 63) (rest : Text) :
    strtol (printLong value ++ '\x7d' :: rest) = value := by
  have digits := takeWhile_digits value.natAbs rest
  have parsed : Nat.ofDigitChars 10 (Nat.toDigits 10 value.natAbs) 0 =
      value.natAbs := Nat.ofDigitChars_ten_toDigits
  rw [printLong]
  by_cases negative : value < 0
  · rw [if_pos negative, List.cons_append, strtol,
      List.dropWhile_cons_of_neg (by decide), takeSign]
    dsimp only
    rw [digits]
    simp only [if_true]
    omega
  · rw [if_neg negative]
    cases text : Nat.toDigits 10 value.natAbs with
    | nil => exact absurd text Nat.toDigits_ne_nil
    | cons first others =>
        have digit : isDigit first = true := by
          apply @isDigit_of_mem_toDigits value.natAbs
          rw [text]
          simp
        obtain ⟨sign, space⟩ :=
          takeSign_digit digit (others ++ '\x7d' :: rest)
        rw [text] at digits parsed
        rw [List.cons_append] at digits ⊢
        rw [strtol, List.dropWhile_cons_of_neg (by simp [space]), sign]
        dsimp only
        rw [digits]
        simp only [Bool.false_eq_true, if_false]
        omega

/-! ## One record -/

/-- What an update may have put into a slot: MACs hold no quote, names are whole
characters, and the time fits `%ld`. -/
structure Entry.Printable (e : Entry) : Prop where
  active : e.active = true
  macLength : e.mac.length = 17
  macPlain : '"' ∉ e.mac ∧ '\x00' ∉ e.mac
  nameSolid : e.hostname ≠ []
  nameShort : e.hostname.length ≤ 63
  nameText : ∃ text, e.hostname = encode text ∧ '\x00' ∉ text
  src : e.src = "dhcp".toList ∨ e.src = "mdns".toList
  time : -2 ^ 63 ≤ e.updatedAt ∧ e.updatedAt < 2 ^ 63

/-- The name behind a save and a load. -/
def storedName (name : Text) : Text :=
  (readName [] (hncJsonEscape name 128 ++ ['"'])).1

def reloaded (e : Entry) : Entry :=
  { e with hostname := storedName e.hostname }

theorem length_escapeText_singleton (c : Char) :
    (escapeText [c]).length ≤ 6 ∨ escapeText [c] = encode [c] := by
  by_cases ascii : c.toNat < 128
  · rw [escapeText_ascii ascii]
    exact .inl (length_escapeByte c)
  · exact .inr (escapeText_high (by omega))

/-- The stored name is a front of the name, and all of it when the escape fits
into `esc_hn`. -/
theorem storedName_encode {text : Text} (solid : text ≠ [])
    (short : (encode text).length ≤ 63) :
    ∃ front, front <+: text ∧ front ≠ [] ∧
      hncJsonEscape (encode text) 128 = escapeText front ∧
      storedName (encode text) = encode front ∧
      (encode front).length ≤ 63 ∧
      (front = text ↔ (escapeText text).length ≤ 127) := by
  have escaped := hncJsonEscape_encode (show 1 ≤ 128 by decide) text
  have begins := fitting_isPrefix 127 text
  have bound : (encode (fitting 127 text)).length ≤ 63 := by
    obtain ⟨rest, split⟩ := begins
    have whole := congrArg (fun t => (encode t).length) split
    simp only [encode_append, List.length_append] at whole
    omega
  refine ⟨fitting 127 text, begins, ?_, escaped, ?_, bound, ?_⟩
  · cases text with
    | nil => exact absurd rfl solid
    | cons c rest =>
        have first : (escapeText [c]).length ≤ 127 := by
          rw [encode_cons, List.length_append] at short
          rcases length_escapeText_singleton c with small | same
          · omega
          · rw [same]
            omega
        rw [fitting, if_pos first]
        exact List.cons_ne_nil _ _
  · have read := readName_escaped [] [] (by simpa using bound)
    rw [storedName, escaped, escapeText, read]
    rfl
  · constructor
    · intro whole
      rw [← whole]
      exact length_fitting 127 _
    · exact fitting_of_fits

/-! ## The search for the next record -/

theorem nameMarker_eq : nameMarker =
    '"' :: ':' :: '\x7b' :: '"' :: 'h' :: '"' :: ':' :: '"' :: [] :=
  rfl

theorem strstr_nameMarker_skip {left : Text} (free : '"' ∉ left)
    (rest : Text) : strstr (left ++ rest) nameMarker =
      strstr rest nameMarker := by
  exact strstr_skip free _ _

/-- A quote that no colon and brace follow is passed over. -/
theorem strstr_nameMarker_quote {rest : Text}
    (other : ¬[':', '\x7b', '"'] <+: rest) :
    strstr ('"' :: rest) nameMarker = strstr rest nameMarker := by
  rw [strstr_cons, if_neg]
  intro here
  obtain ⟨behind, matched⟩ := Option.isSome_iff_exists.mp here
  have split := after?_eq_some.mp matched
  apply other
  exact ⟨'h' :: '"' :: ':' :: '"' :: behind, (List.cons.inj split).2.symm⟩

theorem not_mem_printLong (value : Int) {c : Char} (noDigit : isDigit c = false)
    (noSign : c ≠ '-') : c ∉ printLong value := by
  have outside : c ∉ Nat.toDigits 10 value.natAbs := by
    intro member
    rw [isDigit_of_mem_toDigits member] at noDigit
    cases noDigit
  rw [printLong]
  split
  · simpa [noSign] using outside
  · exact outside

theorem strstr_printBack (e : Entry) (rest : Text) :
    strstr (printBack e ++ rest) nameMarker = strstr rest nameMarker := by
  have text : printBack e ++ rest = [','] ++ ('"' :: (['t'] ++
      ('"' :: ((':' :: (printLong e.updatedAt ++ ['\x7d'])) ++ rest)))) := by
    simp [printBack, timeMarker]
  have noBrace : ∀ c, printLong e.updatedAt ≠ '\x7b' :: c := by
    intro c same
    apply @not_mem_printLong e.updatedAt '\x7b' (by decide) (by decide)
    simp [same]
  have plain : '"' ∉ ':' :: (printLong e.updatedAt ++ ['\x7d']) := by
    simp [@not_mem_printLong e.updatedAt '"' (by decide) (by decide)]
  rw [text, strstr_nameMarker_skip (by decide), strstr_nameMarker_quote,
    strstr_nameMarker_skip (by decide), strstr_nameMarker_quote,
    strstr_nameMarker_skip plain]
  · rintro ⟨tail, same⟩
    simp only [List.cons_append, List.cons.injEq, true_and] at same
    cases number : printLong e.updatedAt with
    | nil =>
        rw [number] at same
        exact absurd (List.cons.inj same).1 (by decide)
    | cons first others =>
        rw [number] at same
        simp only [List.cons_append, List.cons.injEq] at same
        exact noBrace others (by rw [number, same.1])
  · rintro ⟨tail, same⟩
    exact absurd (List.cons.inj same).1 (by decide)

theorem strstr_mac {mac : Text} (length : mac.length = 17) (free : '"' ∉ mac)
    (rest : Text) :
    strstr ('"' :: (mac ++ (nameMarker ++ rest))) nameMarker =
      some (nameMarker ++ rest) := by
  rw [strstr_nameMarker_quote, strstr_nameMarker_skip free,
    strstr_hit nameMarker rest (List.cons_ne_nil _ _)]
  rintro ⟨tail, same⟩
  have front := congrArg (List.take 3) same
  rw [List.take_append_of_le_length (by simp),
    List.take_append_of_le_length (by omega)] at front
  apply free
  apply List.mem_of_mem_take
  rw [← front]
  simp

end Hnc.HostnameCache
