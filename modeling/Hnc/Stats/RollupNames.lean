import Hnc.Lib.GrepSed
import Hnc.Lib.JsonStrings
import Hnc.Lib.JsonDepth
import Hnc.Lib.JsonPlace
import Hnc.Stats.TodayChart

/-!
# The display names of the rollup

`stats_rollup.sh` cuts the names of the devices out of two JSON files with
patterns that stop at the first quote.  A JSON string that contains a quote is
cut at the backslash in front of it.
-/

namespace Hnc.Stats

open Posix JsonText

/-- `device_names.json` and `devices.json`; a missing file is an empty one. -/
structure NameFiles where
  names : Text
  devices : Text

/-- `"MAC"[[:space:]]*:[[:space:]]*` at the front of a text. -/
def macKey : Text → Option Text
  | '"' :: rest =>
      if isLowerMac (rest.take 17) then afterKey (rest.take 17) ('"' :: rest)
      else none
  | _ => none

/-- `"MAC"[[:space:]]*:[[:space:]]*"[^"]*"`. -/
def namePair (text : Text) : Option Text :=
  match macKey text with
  | some ('"' :: value) =>
      match value.dropWhile (· != '"') with
      | [] => none
      | _ :: behind => some behind
  | _ => none

/-- `"MAC"[[:space:]]*:[[:space:]]*\{[^}]*\}`. -/
def deviceBlock (text : Text) : Option Text :=
  match macKey text with
  | some ('\x7b' :: block) =>
      match block.dropWhile (· != '\x7d') with
      | [] => none
      | _ :: behind => some behind
  | _ => none

/-- `sed -nE 's/^"([0-9a-f:]+)".*/\1/p'`. -/
def macOf : Text → Option Text
  | '"' :: rest =>
      let mac := rest.takeWhile fun c => isLowerHex c || c == ':'
      if mac ≠ [] ∧ (rest.drop mac.length).head? = some '"' then some mac
      else none
  | _ => none

/-- `:[[:space:]]*"([^"]*)"`. -/
def colonString : Text → Option Text
  | ':' :: rest => quoted (· != '"') (rest.dropWhile isSpace)
  | _ => none

/-- `"hostname"[[:space:]]*:[[:space:]]*"([^"]*)"`. -/
def hostnameString : Text → Option Text :=
  keyed "hostname".toList (quoted (· != '"'))

/-- A line of the temporary file: an address and a name. -/
abbrev NameRecord := Text × Text

/-- The body of the first `while read`, with an `echo` that prints backslashes as
they are. -/
def manualName (pair : Text) : Option NameRecord :=
  match macOf pair, lastAt colonString pair with
  | some mac, some name => if name = [] then none else some (mac, name)
  | _, _ => none

/-- The body of the second one: only an address without a line gets one. -/
def addHostname (lines : List NameRecord) (block : Text) : List NameRecord :=
  match macOf block, lastAt hostnameString block with
  | some mac, some name =>
      if name = [] ∨ mac ∈ lines.map Prod.fst then lines
      else lines ++ [(mac, name)]
  | _, _ => lines

/-- The temporary file. -/
def nameRecords (files : NameFiles) : List NameRecord :=
  let pairs := (records files.names).flatMap (grepO namePair)
  let blocks := (records files.devices).flatMap (grepO deviceBlock)
  blocks.foldl addHostname (pairs.filterMap manualName)

/-- The array `names`: `split` ends a name at a tab, and the last line of an
address counts. -/
def displayName (files : NameFiles) (mac : Text) : Text :=
  match (nameRecords files).reverse.find? fun line => line.1 = mac with
  | some line => line.2.takeWhile (· != '\t')
  | none => []

/-- The JSON string of one of the files that the name of a device is cut from. -/
structure NameFiles.Spells (files : NameFiles) (mac body : Text) : Prop where
  chars : Chars body
  stands : quote body <:+: files.names ∨ quote body <:+: files.devices
  cut : body.takeWhile (· != '"') = displayName files mac

variable {line : NameRecord}

theorem mem_addHostname {lines : List NameRecord} {block : Text}
    (member : line ∈ addHostname lines block) :
    line ∈ lines ∨ lastAt hostnameString block = some line.2 ∧ line.2 ≠ [] := by
  unfold addHostname at member
  split at member
  · rename_i mac name _ found
    split at member
    · exact .inl member
    · rename_i fresh
      rw [not_or] at fresh
      rcases List.mem_append.mp member with earlier | added
      · exact .inl earlier
      · rw [List.mem_singleton.mp added]
        exact .inr ⟨found, fresh.1⟩
  · exact .inl member

/-- The hostnames, one block after the other. -/
theorem mem_foldl_addHostname {blocks : List Text} {lines : List NameRecord}
    (member : line ∈ blocks.foldl addHostname lines) :
    line ∈ lines ∨ ∃ block ∈ blocks,
      lastAt hostnameString block = some line.2 ∧ line.2 ≠ [] := by
  induction blocks generalizing lines with
  | nil => exact .inl member
  | cons block blocks induction =>
      rcases induction member with earlier | ⟨other, listed, found⟩
      · rcases mem_addHostname earlier with before | here
        · exact .inl before
        · exact .inr ⟨block, by simp, here⟩
      · exact .inr ⟨other, by simp [listed], found⟩

variable {pair : Text}

theorem manualName_ne_nil (named : manualName pair = some line) :
    line.2 ≠ [] := by
  unfold manualName at named
  split at named
  · split at named
    · cases named
    · rename_i nonempty
      cases named
      exact nonempty
  · cases named

theorem lastAt_of_manualName (named : manualName pair = some line) :
    lastAt colonString pair = some line.2 := by
  unfold manualName at named
  split at named
  · rename_i found
    split at named
    · cases named
    · cases named
      exact found
  · cases named

variable {text name : Text}

theorem colonString_free (found : colonString text = some name) : '"' ∉ name := by
  unfold colonString at found
  split at found
  · obtain ⟨_, _, free⟩ := quoted_eq_some found
    exact free
  · cases found

theorem hostnameString_free (found : hostnameString text = some name) :
    '"' ∉ name := by
  rw [hostnameString, keyed, Option.bind_eq_some_iff] at found
  obtain ⟨_, _, string⟩ := found
  obtain ⟨_, _, free⟩ := quoted_eq_some string
  exact free

theorem nameRecords_free {files : NameFiles} (member : line ∈ nameRecords files) :
    '"' ∉ line.2 := by
  rcases mem_foldl_addHostname member with manual | ⟨block, _, found, _⟩
  · obtain ⟨pair, _, named⟩ := List.mem_filterMap.mp manual
    obtain ⟨_, _, _, matched⟩ := lastAt_eq_some (lastAt_of_manualName named)
    exact colonString_free matched
  · obtain ⟨_, _, _, matched⟩ := lastAt_eq_some found
    exact hostnameString_free matched

theorem displayName_free (files : NameFiles) (mac : Text) :
    '"' ∉ displayName files mac := by
  unfold displayName
  split
  · rename_i line found
    intro member
    exact nameRecords_free (List.mem_reverse.mp (List.mem_of_find?_eq_some found))
      ((List.takeWhile_sublist _).mem member)
  · exact List.not_mem_nil

/-- A file has a string that begins with `name` up to its first quote. -/
def CutFrom (file name : Text) : Prop :=
  ∃ body, Chars body ∧ quote body <:+: file ∧ body.takeWhile (· != '"') = name

variable {file : Text}

/-- A value behind a key of a JSON file. -/
theorem cutFrom_of_within {word gap pad : Text} (isJson : IsJson file)
    (within : quote word ++ (gap ++ ':' :: (pad ++ quote name)) <:+: file)
    (chars : Chars word) (head : ∀ c ∈ word.head?, endsString c = false)
    (nonempty : word ≠ []) (gapSpace : gap.all isSpace = true)
    (padSpace : pad.all isSpace = true) (free : '"' ∉ name) :
    CutFrom file name := by
  obtain ⟨before, after, rfl⟩ := within
  have split : before ++ (quote word ++ (gap ++ ':' :: (pad ++ quote name))) ++
      after = before ++ (quote word ++ (gap ++ ':' :: (pad ++
        '"' :: (name ++ '"' :: after)))) := by
    simp [quote]
  rw [split] at isJson ⊢
  obtain ⟨body, tail, same, ok⟩ := Spot.named_string isJson chars head nonempty
    gapSpace padSpace
  refine ⟨body, ok, ?_, ?_⟩
  · rw [same]
    refine ⟨before ++ (quote word ++ (gap ++ ':' :: pad)), tail, ?_⟩
    simp [quote]
  · rw [← takeWhile_closed body tail, ← same, takeWhile_closed,
      takeWhile_of_not_mem free]

theorem Mac.chars_text (mac : Mac) : Chars mac.text := by
  apply chars_of_escapeFree
  apply List.all_eq_true.mpr
  intro c member
  have solid : isControl c = false := by
    rcases mac.chars c member with hex | rfl
    · simp only [isLowerHex, isDigit, Bool.or_eq_true, Bool.and_eq_true,
        decide_eq_true_eq] at hex
      simp only [isControl, decide_eq_false_iff_not]
      have low : 32 ≤ '0'.toNat := by decide
      have high : 32 ≤ 'a'.toNat := by decide
      omega
    · decide
  simp only [solid, Bool.and_eq_true, bne_iff_ne, Bool.not_false, and_true]
  constructor
  · rintro rfl
    exact mac.not_mem (by decide) (by decide) member
  · rintro rfl
    exact mac.not_mem (by decide) (by decide) member

theorem endsString_of_isLowerHex {c : Char} (hex : isLowerHex c = true) :
    endsString c = false := by
  cases ends : endsString c with
  | false => rfl
  | true =>
      simp only [endsString, isWs, Bool.or_eq_true, beq_iff_eq] at ends
      rcases ends with ((((((rfl | rfl) | rfl) | rfl) | rfl) | rfl) | rfl) | rfl
      all_goals exact absurd hex (by decide)

theorem Mac.endsString_head (mac : Mac) :
    ∀ c ∈ mac.text.head?, endsString c = false := by
  obtain ⟨text, shape⟩ := mac
  unfold isLowerMac at shape
  split at shape
  · simp only [List.all_cons, Bool.and_eq_true] at shape
    rintro c ⟨⟩
    exact endsString_of_isLowerHex shape.1.1
  · cases shape

theorem macKey_eq_some {value : Text} (found : macKey text = some value) :
    ∃ (mac : Mac) (gap pad : Text),
      text = quote mac.text ++ (gap ++ ':' :: (pad ++ value)) ∧
        gap.all isSpace = true ∧ pad.all isSpace = true := by
  unfold macKey at found
  split at found
  · rename_i rest
    split at found
    · rename_i shape
      obtain ⟨gap, pad, same, gapSpace, padSpace⟩ := afterKey_eq_some found
      refine ⟨⟨rest.take 17, shape⟩, gap, pad, ?_, gapSpace, padSpace⟩
      rw [same]
      simp [quote]
    · cases found
  · cases found

theorem namePair_eq_some {behind : Text} (found : namePair text = some behind) :
    ∃ (mac : Mac) (gap pad name : Text),
      text = quote mac.text ++ (gap ++ ':' :: (pad ++ quote name)) ++ behind ∧
        gap.all isSpace = true ∧ pad.all isSpace = true ∧ '"' ∉ name := by
  unfold namePair at found
  split at found
  · rename_i value key
    split at found
    · cases found
    · rename_i c tail dropped
      cases found
      obtain ⟨mac, gap, pad, same, gapSpace, padSpace⟩ := macKey_eq_some key
      have stop : c = '"' := by
        have head := List.head?_dropWhile_not (· != '"') value
        rw [dropped] at head
        simpa using head
      subst stop
      refine ⟨mac, gap, pad, value.takeWhile (· != '"'), ?_, gapSpace, padSpace,
        ?_⟩
      · have whole : value =
            value.takeWhile (· != '"') ++ '"' :: behind := by
          rw [← dropped, List.takeWhile_append_dropWhile]
        rw [same]
        conv_lhs => rw [whole]
        simp [quote]
      · intro member
        have kept := List.mem_takeWhile_imp member
        simp at kept
  · cases found

/-- A match of the second one begins with what `grep` prints. -/
theorem deviceBlock_within {behind : Text}
    (found : deviceBlock text = some behind) :
    ∃ block, text = block ++ behind := by
  unfold deviceBlock at found
  split at found
  · rename_i block key
    split at found
    · cases found
    · rename_i c tail dropped
      cases found
      obtain ⟨mac, gap, pad, same, _⟩ := macKey_eq_some key
      have whole : block = block.takeWhile (· != '\x7d') ++ c :: behind := by
        rw [← dropped, List.takeWhile_append_dropWhile]
      refine ⟨quote mac.text ++ (gap ++ ':' :: (pad ++ '\x7b' ::
        (block.takeWhile (· != '\x7d') ++ [c]))), ?_⟩
      rw [same]
      conv_lhs => rw [whole]
      simp
  · cases found

/-- Behind the colon of a pair there is no other one in front of a string. -/
theorem lastAt_colonString {pad : Text} (padSpace : pad.all isSpace = true)
    (free : '"' ∉ name) : lastAt colonString (pad ++ quote name) = none := by
  apply lastAt_eq_none
  intro before rest split
  cases found : colonString rest with
  | none => rfl
  | some value =>
      unfold colonString at found
      split at found
      · rename_i tail
        obtain ⟨behind, dropped, _⟩ := quoted_eq_some found
        have quotes : 2 ≤ tail.count '"' := by
          have shorter : tail.dropWhile isSpace <:+ tail :=
            List.dropWhile_suffix _
          have fewer := shorter.sublist.count_le '"'
          rw [dropped] at fewer
          simp only [List.count_cons, List.count_append, beq_self_eq_true,
            if_true] at fewer
          omega
        rcases List.append_eq_append_iff.mp split with
          ⟨before, rfl, string⟩ | ⟨colon, padded, string⟩
        · cases before with
          | nil => cases string
          | cons c before =>
              simp only [quote, List.cons_append, List.cons.injEq] at string
              have counted := congrArg (List.count '"') string.2
              rw [List.count_append,
                List.count_eq_zero_of_not_mem free] at counted
              simp at counted
              omega
        · cases colon with
          | nil => cases string
          | cons c colon =>
              cases string
              have space := List.all_eq_true.mp padSpace ':' (by simp [padded])
              cases space
      · cases found

theorem cutFrom_manualName (isJson : IsJson file)
    (member : pair ∈ (records file).flatMap (grepO namePair))
    (named : manualName pair = some line) : CutFrom file line.2 := by
  obtain ⟨text, listed, matched⟩ := List.mem_flatMap.mp member
  obtain ⟨before, rest, behind, rfl, found, rfl⟩ := mem_grepFrom matched
  obtain ⟨mac, gap, pad, name, rfl, gapSpace, padSpace, free⟩ :=
    namePair_eq_some found
  rw [upTo_append] at named
  have last : lastAt colonString (quote mac.text ++ (gap ++ ':' :: (pad ++
      quote name))) = some name := by
    rw [← List.append_assoc]
    apply lastAt_append
    · have start : (pad ++ quote name).dropWhile isSpace = quote name := by
        rw [List.dropWhile_append_of_pos (List.all_eq_true.mp padSpace)]
        rfl
      rw [colonString, start]
      exact quoted_closed free []
    · exact lastAt_colonString padSpace free
  have within : quote mac.text ++ (gap ++ ':' :: (pad ++ quote name)) <:+:
      file := by
    exact List.IsInfix.trans ⟨before, behind, by simp⟩ (records_within listed)
  have cut := cutFrom_of_within isJson within (Mac.chars_text mac)
    (Mac.endsString_head mac) mac.text_ne_nil gapSpace padSpace free
  have same := lastAt_of_manualName named
  rw [last, Option.some.injEq] at same
  rw [← same]
  exact cut

theorem cutFrom_hostname {block : Text} (isJson : IsJson file)
    (member : block ∈ (records file).flatMap (grepO deviceBlock))
    (found : lastAt hostnameString block = some name) : CutFrom file name := by
  obtain ⟨text, listed, matched⟩ := List.mem_flatMap.mp member
  obtain ⟨before, rest, behind, rfl, ended, rfl⟩ := mem_grepFrom matched
  obtain ⟨block, rfl⟩ := deviceBlock_within ended
  rw [upTo_append] at found
  obtain ⟨front, tail, rfl, key⟩ := lastAt_eq_some found
  rw [hostnameString, keyed, Option.bind_eq_some_iff] at key
  obtain ⟨value, key, string⟩ := key
  obtain ⟨gap, pad, rfl, gapSpace, padSpace⟩ := afterKey_eq_some key
  obtain ⟨others, rfl, free⟩ := quoted_eq_some string
  have within : quote "hostname".toList ++ (gap ++ ':' :: (pad ++ quote name))
      <:+: file := by
    apply List.IsInfix.trans _ (records_within listed)
    exact ⟨before ++ front, others ++ behind, by simp [quote]⟩
  have head : ∀ c ∈ "hostname".toList.head?, endsString c = false := by
    rintro c ⟨⟩
    decide
  exact cutFrom_of_within isJson within (chars_of_escapeFree (by decide)) head
    (by decide) gapSpace padSpace free

namespace NameFiles

variable {files : NameFiles}

/-- Both files are JSON texts. -/
structure Valid (files : NameFiles) : Prop where
  names : IsJson files.names
  devices : IsJson files.devices

theorem cutFrom_nameRecords (valid : files.Valid)
    (member : line ∈ nameRecords files) :
    (CutFrom files.names line.2 ∨ CutFrom files.devices line.2) ∧
      line.2 ≠ [] := by
  rcases mem_foldl_addHostname member with manual | ⟨block, listed, found, some⟩
  · obtain ⟨pair, listed, named⟩ := List.mem_filterMap.mp manual
    exact ⟨.inl (cutFrom_manualName valid.names listed named),
      manualName_ne_nil named⟩
  · exact ⟨.inr (cutFrom_hostname valid.devices listed found), some⟩

/-- A device without a record has the empty name; any other name is cut from a
string. -/
theorem exists_spells (valid : files.Valid) (mac : Text) :
    displayName files mac = [] ∨ ∃ body, files.Spells mac body := by
  cases found : (nameRecords files).reverse.find? fun line => line.1 = mac with
  | none =>
      left
      rw [displayName, found]
  | some line =>
      right
      have member := List.mem_reverse.mp (List.mem_of_find?_eq_some found)
      have cut : ∀ file, CutFrom file line.2 → ∃ body, Chars body ∧
          quote body <:+: file ∧
          body.takeWhile (· != '"') = displayName files mac := by
        rintro file ⟨body, chars, stands, cut⟩
        refine ⟨body, chars, stands, ?_⟩
        have noTab : '\t' ∉ line.2 := by
          rw [← cut]
          intro inside
          exact Depth.control_not_mem_chars (by decide) chars
            (List.takeWhile_sublist _ |>.mem inside)
        rw [displayName, found, cut]
        exact (takeWhile_of_not_mem noTab).symm
      rcases (cutFrom_nameRecords valid member).1 with names | devices
      · obtain ⟨body, chars, stands, same⟩ := cut _ names
        exact ⟨body, chars, .inl stands, same⟩
      · obtain ⟨body, chars, stands, same⟩ := cut _ devices
        exact ⟨body, chars, .inr stands, same⟩

end NameFiles

end Hnc.Stats
