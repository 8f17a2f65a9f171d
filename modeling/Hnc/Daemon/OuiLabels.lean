import Hnc.Lib.CString
import Hnc.Lib.JsonGrammar
import Hnc.Lib.KeyedSlots
import Hnc.Lib.Loops
import Mathlib.Data.Finset.Card

/-!
# The labels that a user gives to vendors

`daemon/hotspotd/oui_override.c` reads `oui_overrides.json` with a scanner for
pairs of strings.  Its pointers into the buffer are the texts from there on.
-/

variable {keyRaw : Text}

namespace Hnc.OuiOverride

open Posix Loops

/-- `HNC_OVERRIDE_MAX_ENTRIES`. -/
def maxEntries : Nat := 256

/-- `HNC_OVERRIDE_LABEL_LEN`. -/
def labelLen : Nat := 64

/-- `hnc_override_entry_t`; a text is what stands before the NUL that was
written last. -/
structure Entry where
  active : Bool := false
  macPrefix : Text := []
  label : Text := []
deriving DecidableEq, Repr

/-- `g_overrides`. -/
structure Table where
  entries : List Entry
  size : entries.length = maxEntries

namespace Table

def empty : Table :=
  ⟨List.replicate maxEntries {}, List.length_replicate⟩

def set (t : Table) (i : Nat) (e : Entry) : Table :=
  ⟨t.entries.set i e, by rw [List.length_set, t.size]⟩

end Table

/-- The variables of the module. -/
structure Overrides where
  table : Table
  count : Nat
  path : Text

/-! ## `normalize_prefix` -/

def isHex (c : Char) : Bool :=
  ('0' ≤ c && c ≤ '9') || ('a' ≤ c && c ≤ 'f') || ('A' ≤ c && c ≤ 'F')

def tolower (c : Char) : Char :=
  if 'A' ≤ c ∧ c ≤ 'Z' then Char.ofNat (c.toNat + 32) else c

/-- The loop over `in`; `out` has the digits so far. -/
def normalizeLoop (out : Text) : Text → Option Text
  | [] => if out.length = 6 then some out else none
  | c :: rest =>
      if c = '\x00' ∨ 6 ≤ out.length then
        if out.length = 6 then some out else none
      else if c = ':' ∨ c = '-' ∨ c = ' ' then normalizeLoop out rest
      else if isHex c then normalizeLoop (out ++ [tolower c]) rest
      else none

def normalizePrefix (text : Text) : Option Text :=
  normalizeLoop [] text

/-! ## `hnc_override_init` and `hnc_override_lookup` -/

def hncOverrideInit (path : Text) : Overrides :=
  ⟨Table.empty, 0, path.take 255⟩

/-- `hnc_override_lookup` with a buffer of `outlen` bytes. -/
def hncOverrideLookup (g : Overrides) (mac : Text) (outlen : Nat) :
    Option Text :=
  if outlen = 0 ∨ g.count = 0 then none
  else
    match normalizePrefix mac with
    | none => none
    | some key =>
        match (g.table.entries.take g.count).find?
            fun e => e.active && e.macPrefix == key with
        | none => none
        | some e => some ((cString e.label).take (outlen - 1))

/-! ## Strings -/

/-- `find_unescaped_quote`: the text up to the quote, and the text behind
it. -/
def findUnescapedQuote : Text → Option (Text × Text)
  | [] => none
  | '\\' :: c :: rest =>
      (findUnescapedQuote rest).map fun found =>
        ('\\' :: c :: found.1, found.2)
  | c :: rest =>
      if c = '"' then some ([], rest)
      else
        (findUnescapedQuote rest).map fun found => (c :: found.1, found.2)

/-- What a letter behind a backslash stands for. -/
def unescape (c : Char) : Char :=
  if c = 'n' then '\n'
  else if c = 'r' then '\r'
  else if c = 't' then '\t'
  else c

/-- `decode_json_string` behind the bytes in `out`. -/
def decodeLoop (outSize : Nat) (out : Text) : Text → Text
  | [] => out
  | '\\' :: c :: rest =>
      if out.length + 1 < outSize then
        decodeLoop outSize (out ++ [unescape c]) rest
      else out
  | c :: rest =>
      if out.length + 1 < outSize then decodeLoop outSize (out ++ [c]) rest
      else out

def decodeJsonString (src : Text) (outSize : Nat) : Text :=
  decodeLoop outSize [] src

/-! ## `hnc_override_load` -/

/-- `loaded` and the table. -/
structure Filled where
  loaded : Nat
  table : Table

/-- The variables of the loop. -/
structure Loading where
  p : Text
  filled : Filled

/-- The code behind `val_end`: the label goes into the slot of its key. -/
def Filled.enter (f : Filled) (keyRaw val : Text) : Filled :=
  match normalizePrefix keyRaw with
  | none => f
  | some normalized =>
      let existing := (f.table.entries.take f.loaded).findIdx?
        fun e => e.macPrefix == normalized
      { table := f.table.set (existing.getD f.loaded)
          ⟨true, normalized, decodeJsonString val labelLen⟩
        loaded := if existing.isNone then f.loaded + 1 else f.loaded }

/-- The code behind the label `skip_value`. -/
def skipValue (p : Text) : Text :=
  match ((p.dropWhile (· != ':')).tail).dropWhile isWs with
  | '"' :: p =>
      match findUnescapedQuote p with
      | some (_, behind) => behind
      | none => p
  | p => p

/-- The loop body behind a key. -/
def readValue (s : Loading) (keyRaw p : Text) : Turn Loading Loading :=
  match p.dropWhile isWs with
  | ':' :: p =>
      match p.dropWhile isWs with
      | '"' :: p =>
          match findUnescapedQuote p with
          | none => .done s
          | some (val, behind) =>
              .again ⟨behind, s.filled.enter keyRaw val⟩
      | p => .again { s with p }
  | p => .again { s with p }

def loadTurn (s : Loading) : Turn Loading Loading :=
  if s.p = [] ∨ maxEntries ≤ s.filled.loaded then .done s
  else
    match s.p.dropWhile (· != '"') with
    | [] => .done s
    | _ :: p =>
        match findUnescapedQuote p with
        | none => .done s
        | some (keyRaw, p) =>
            if 64 ≤ keyRaw.length then .again { s with p := skipValue p }
            else readValue s keyRaw p

theorem findUnescapedQuote_length {text content behind : Text}
    (found : findUnescapedQuote text = some (content, behind)) :
    behind.length < text.length := by
  fun_induction findUnescapedQuote text generalizing content with
  | case1 => cases found
  | case2 c rest induction =>
      obtain ⟨inner, search, same⟩ := Option.map_eq_some_iff.mp found
      cases same
      have shorter := induction search
      simp only [List.length_cons]
      omega
  | case3 rest _ =>
      cases found
      exact Nat.lt_succ_self _
  | case4 c rest _ _ induction =>
      obtain ⟨inner, search, same⟩ := Option.map_eq_some_iff.mp found
      cases same
      have shorter := induction search
      rw [List.length_cons]
      omega

theorem skipValue_length (p : Text) : (skipValue p).length ≤ p.length := by
  have colon := (p.dropWhile_suffix (· != ':')).length_le
  have space := ((p.dropWhile (· != ':')).tail.dropWhile_suffix isWs).length_le
  rw [List.length_tail] at space
  unfold skipValue
  split
  · rename_i q opens
    rw [opens, List.length_cons] at space
    split
    · rename_i found
      have shorter := findUnescapedQuote_length found
      omega
    · omega
  · omega

theorem readValue_again {s s' : Loading} {p : Text}
    (goesOn : readValue s keyRaw p = .again s') : s'.p.length ≤ p.length := by
  have space := (p.dropWhile_suffix isWs).length_le
  unfold readValue at goesOn
  split at goesOn
  · rename_i q colon
    have space' := (q.dropWhile_suffix isWs).length_le
    rw [colon, List.length_cons] at space
    split at goesOn
    · rename_i r opens
      rw [opens, List.length_cons] at space'
      split at goesOn
      · cases goesOn
      · rename_i found
        have shorter := findUnescapedQuote_length found
        cases goesOn
        simp only
        omega
    · cases goesOn
      simp only
      omega
  · cases goesOn
    exact space

/-- Every turn that goes on is behind a quote. -/
theorem loadTurn_again {s s' : Loading} (goesOn : loadTurn s = .again s') :
    s'.p.length < s.p.length := by
  have search := (s.p.dropWhile_suffix (· != '"')).length_le
  unfold loadTurn at goesOn
  split at goesOn
  · cases goesOn
  · split at goesOn
    · cases goesOn
    · rename_i opens
      rw [opens, List.length_cons] at search
      split at goesOn
      · cases goesOn
      · rename_i found
        have shorter := findUnescapedQuote_length found
        split at goesOn
        · cases goesOn
          have skipped := skipValue_length ‹Text›
          simp only
          omega
        · have read := readValue_again goesOn
          omega

def loadLoop : Loop Loading Loading where
  turn := loadTurn
  variant s := s.p.length
  decreases := loadTurn_again

/-- `hnc_override_load` with the bytes of the file, if it can be read. -/
def hncOverrideLoad (g : Overrides) (file : Option Text) : Nat × Overrides :=
  match file with
  | none => (0, g)
  | some buf =>
      if g.path = [] ∨ buf = [] ∨ 16 * 1024 < buf.length then (0, g)
      else
        let f := (loadLoop.exec ⟨buf, 0, g.table⟩).filled
        (f.loaded, { g with table := f.table, count := f.loaded })

end Hnc.OuiOverride

/-!
## The last label of a prefix

The scanner of `hnc_override_load` meets the members of a flat object in turn.
What the table holds behind a front of them is the last label of each prefix,
as long as there is a slot for each new prefix.
-/

namespace Hnc.OuiOverride

open Posix JsonText Loops KeyedSlots

/-! ## What a file says -/

/-- A string as `decode_json_string` shows it: a letter behind a backslash is a
newline, a return, a tab or stands for itself. -/
def shown : Text → Text
  | [] => []
  | '\\' :: c :: rest => unescape c :: shown rest
  | c :: rest => c :: shown rest

/-- The prefix of a key as it stands in the file. -/
def usable (key : Text) : Option Text :=
  if 64 ≤ key.length then none else normalizePrefix key

/-- The last label of a prefix. -/
def lastFor (macPrefix : Text) (members : List (Text × Text)) : Option Text :=
  members.reverse.findSome? fun m =>
    if usable m.1 = some macPrefix then some (shown m.2) else none

/-- The different prefixes. -/
def prefixes (members : List (Text × Text)) : Finset Text :=
  (members.filterMap fun m => usable m.1).toFinset

/-- No member with a usable key comes behind 256 different prefixes. -/
def Fits (members : List (Text × Text)) : Prop :=
  ∀ front m rest, members = front ++ m :: rest → usable m.1 ≠ none →
    (prefixes front).card < maxEntries

theorem lastFor_concat (macPrefix : Text) (front : List (Text × Text))
    (m : Text × Text) :
    lastFor macPrefix (front ++ [m]) =
      if usable m.1 = some macPrefix then some (shown m.2)
      else lastFor macPrefix front := by
  rw [lastFor, List.reverse_append, List.reverse_singleton,
    List.singleton_append, List.findSome?_cons]
  split
  · rename_i found
    split at found
    · rename_i here
      rw [if_pos here, found]
    · cases found
  · rename_i found
    split at found
    · cases found
    · rename_i other
      rw [if_neg other]
      rfl

variable {macPrefix : Text}

theorem lastFor_eq_none {members : List (Text × Text)} :
    lastFor macPrefix members = none ↔ macPrefix ∉ prefixes members := by
  simp only [lastFor, prefixes, List.findSome?_eq_none_iff, List.mem_reverse,
    List.mem_toFinset, List.mem_filterMap, not_exists, not_and, ite_eq_right_iff,
    reduceCtorEq]

/-! ## The table -/

/-- The slots in use. -/
def Filled.live (f : Filled) : List Entry :=
  f.table.entries.take f.loaded

/-- The slot of a key, in the eyes of the loop. -/
def slotKey (e : Entry) : Option Text :=
  some e.macPrefix

/-- One turn of the loop at a member. -/
def Filled.read (f : Filled) (m : Text × Text) : Filled :=
  if maxEntries ≤ f.loaded ∨ 64 ≤ m.1.length then f else f.enter m.1 m.2

/-- The slots in use hold the last label of each prefix in `members`. -/
structure Filled.Holds (f : Filled) (members : List (Text × Text)) : Prop where
  fits : f.loaded ≤ maxEntries
  count : f.loaded = (prefixes members).card
  active : ∀ e ∈ f.live, e.active = true
  find : ∀ macPrefix, (KeyedSlots.find slotKey f.live macPrefix).map
    Entry.label = lastFor macPrefix members

theorem shown_plain {c : Char} {rest : Text} (solid : c ≠ '\\') :
    shown (c :: rest) = c :: shown rest := by
  rw [shown]
  intro _ _ slash
  exact absurd slash solid

theorem decodeLoop_eq {size : Nat} {out src : Text}
    (room : out.length + (shown src).length < size) :
    decodeLoop size out src = out ++ shown src := by
  fun_induction decodeLoop size out src with
  | case1 out => exact (List.append_nil out).symm
  | case2 out c rest free induction =>
      rw [shown, List.length_cons] at room
      rw [induction (by rw [List.length_append]; simp; omega), List.append_assoc]
      rfl
  | case3 out c rest full =>
      rw [shown, List.length_cons] at room
      omega
  | case4 out c rest other free induction =>
      have plain : shown (c :: rest) = c :: shown rest := by
        rw [shown]
        exact other
      rw [plain, List.length_cons] at room
      rw [plain, induction (by rw [List.length_append]; simp; omega),
        List.append_assoc]
      rfl
  | case5 out c rest other full =>
      have plain : shown (c :: rest) = c :: shown rest := by
        rw [shown]
        exact other
      rw [plain, List.length_cons] at room
      omega

section

variable {f : Filled} {members : List (Text × Text)}

/-- A key without a slot gets the next one. -/
theorem Filled.enter_new (val : Text)
    (key : normalizePrefix keyRaw = some macPrefix) (room : f.loaded < maxEntries)
    (absent : KeyedSlots.find slotKey f.live macPrefix = none) :
    (f.enter keyRaw val).live =
        f.live ++ [⟨true, macPrefix, decodeJsonString val labelLen⟩] ∧
      (f.enter keyRaw val).loaded = f.loaded + 1 := by
  have none_ : f.live.findIdx? (fun e => e.macPrefix == macPrefix) = none := by
    rw [List.findIdx?_eq_none_iff]
    intro e member
    have other := find_eq_none.mp absent e member
    simpa [slotKey] using other
  rw [live] at none_
  have inside : f.loaded < f.table.entries.length := by rw [f.table.size]; omega
  simp only [enter, key, none_, Option.getD_none, Option.isNone_none, if_true,
    live, Table.set, and_true]
  rw [List.take_set, List.take_succ_eq_append_getElem inside,
    List.set_append_right _ _ (by rw [List.length_take]; omega),
    List.length_take, Nat.min_eq_left (by omega), Nat.sub_self]
  rfl

theorem Filled.enter_old (val : Text)
    (key : normalizePrefix keyRaw = some macPrefix)
    (present : KeyedSlots.find slotKey f.live macPrefix ≠ none) :
    ∃ left old right, f.live = left ++ old :: right ∧
      old.macPrefix = macPrefix ∧
      (∀ other ∈ left, slotKey other ≠ some macPrefix) ∧
      (f.enter keyRaw val).live = left ++
        ⟨true, macPrefix, decodeJsonString val labelLen⟩ :: right ∧
      (f.enter keyRaw val).loaded = f.loaded := by
  cases search : f.live.findIdx? (fun e => e.macPrefix == macPrefix) with
  | none =>
      rw [List.findIdx?_eq_none_iff] at search
      refine absurd (find_eq_none.mpr ?_) present
      intro e member same
      have other := search e member
      cases same
      simp at other
  | some i =>
      obtain ⟨left, old, right, split, length, here, early⟩ :=
        split_of_findIdx? search
      refine ⟨left, old, right, split, by simpa using here, ?_, ?_, ?_⟩
      · intro other member same
        have apart := early other member
        cases same
        simp at apart
      · rw [live] at search
        simp only [enter, key, search, Option.getD_some, Option.isNone_some,
          Bool.false_eq_true, if_false, live, Table.set]
        rw [List.take_set]
        change f.live.set i _ = _
        rw [split, ← length, set_middle]
      · rw [live] at search
        simp only [enter, key, search, Option.isNone_some, Bool.false_eq_true,
          if_false]

variable {m : Text × Text}

theorem prefixes_concat_none (none_ : usable m.1 = none) :
    prefixes (members ++ [m]) = prefixes members := by
  simp only [prefixes, List.filterMap_append, List.filterMap_cons, none_,
    List.filterMap_nil, List.append_nil]

theorem prefixes_concat_some (use : usable m.1 = some macPrefix) :
    prefixes (members ++ [m]) = insert macPrefix (prefixes members) := by
  simp only [prefixes, List.filterMap_append, List.filterMap_cons, use,
    List.toFinset_append]
  rw [Finset.union_comm]
  rfl

theorem usable_some {key : Text} (use : usable key = some macPrefix) :
    ¬64 ≤ key.length ∧ normalizePrefix key = some macPrefix := by
  rw [usable] at use
  split at use
  · cases use
  · exact ⟨‹_›, use⟩

theorem Filled.read_unusable (none_ : usable m.1 = none) : f.read m = f := by
  rw [read]
  split
  · rfl
  · rename_i taken
    rw [usable, if_neg (fun long => taken (.inr long))] at none_
    simp only [enter, none_]

theorem slotKey_ne {e : Entry} {other : Text} (here : e.macPrefix = macPrefix)
    (differ : other ≠ macPrefix) : slotKey e ≠ some other := by
  intro same
  exact differ ((Option.some.inj same).symm.trans here)

theorem Filled.Holds.read (holds : f.Holds members)
    (short : (shown m.2).length < labelLen)
    (space : usable m.1 ≠ none → (prefixes members).card < maxEntries) :
    (f.read m).Holds (members ++ [m]) := by
  cases use : usable m.1 with
  | none =>
      rw [Filled.read_unusable use]
      refine ⟨holds.fits, ?_, holds.active, fun macPrefix => ?_⟩
      · rw [prefixes_concat_none use]
        exact holds.count
      · rw [lastFor_concat, use]
        exact holds.find macPrefix
  | some macPrefix =>
      obtain ⟨notLong, key⟩ := usable_some use
      have room : f.loaded < maxEntries := by
        rw [holds.count]
        exact space (by rw [use]; exact Option.some_ne_none _)
      have label : decodeJsonString m.2 labelLen = shown m.2 :=
        decodeLoop_eq (by rw [List.length_nil, Nat.zero_add]; exact short)
      have taken : f.read m = f.enter m.1 m.2 := by
        rw [Filled.read, if_neg (by omega)]
      have here := holds.find macPrefix
      rw [taken]
      cases search : KeyedSlots.find slotKey f.live macPrefix with
      | none =>
          obtain ⟨live, loaded⟩ := Filled.enter_new m.2 key room search
          rw [search] at here
          have fresh := lastFor_eq_none.mp here.symm
          rw [label] at live
          refine ⟨by omega, ?_, ?_, fun other => ?_⟩
          · rw [loaded, prefixes_concat_some use,
              Finset.card_insert_of_notMem fresh, holds.count]
          · rw [live]
            intro e member
            rcases List.mem_append.mp member with old | new
            · exact holds.active e old
            · rw [List.mem_singleton.mp new]
          · rw [live, lastFor_concat, use]
            by_cases same : other = macPrefix
            · subst same
              rw [if_pos rfl, find_placed (find_eq_none.mp search) rfl]
              rfl
            · rw [if_neg fun equal => same (Option.some.inj equal).symm,
                ← holds.find other, KeyedSlots.find, List.find?_append,
                List.find?_cons_of_neg
                  (by simpa using slotKey_ne (e := ⟨true, macPrefix, _⟩) rfl same),
                List.find?_nil, Option.or_none]
              rfl
      | some e =>
          obtain ⟨left, old, right, split, wasHere, early, live, loaded⟩ :=
            Filled.enter_old m.2 key (by rw [search]; simp)
          rw [search] at here
          have seen : macPrefix ∈ prefixes members := by
            by_contra fresh
            rw [lastFor_eq_none.mpr fresh] at here
            cases here
          rw [label] at live
          refine ⟨by omega, ?_, ?_, fun other => ?_⟩
          · rw [loaded, prefixes_concat_some use, Finset.insert_eq_of_mem seen,
              holds.count]
          · rw [live]
            intro e member
            rcases List.mem_append.mp member with inLeft | new
            · exact holds.active e (split ▸ List.mem_append_left _ inLeft)
            · rcases List.mem_cons.mp new with rfl | inRight
              · rfl
              · exact holds.active e
                  (split ▸ List.mem_append_right _ (.tail _ inRight))
          · rw [live, lastFor_concat, use]
            by_cases same : other = macPrefix
            · subst same
              rw [if_pos rfl, find_placed early rfl]
              rfl
            · rw [if_neg fun equal => same (Option.some.inj equal).symm,
                ← holds.find other, split,
                find_replaced (slotKey_ne wasHere same) (slotKey_ne rfl same)]

theorem Filled.Holds.read_all (empty : f.Holds [])
    (short : ∀ m ∈ members, (shown m.2).length < labelLen)
    (fits : Fits members) : (members.foldl Filled.read f).Holds members := by
  induction members using List.reverseRecOn with
  | nil => exact empty
  | append_singleton members m induction =>
      rw [List.foldl_append]
      have front : Fits members := by
        intro front other rest split use
        exact fits front other (rest ++ [m]) (by rw [split]; simp) use
      refine (induction (fun other one => short other ?_) front).read
        (short m ?_) (fits members m [] rfl)
      · exact List.mem_append_left _ one
      · exact List.mem_append_right _ List.mem_cons_self

end

end Hnc.OuiOverride
