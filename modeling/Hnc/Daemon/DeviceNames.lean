import Hnc.Daemon.HncHelpers
import Hnc.Json.Commands
import Hnc.Json.HncJsonEdit
import Hnc.Json.Literals
import Hnc.Json.SafeWriterEdit
import Hnc.Lib.Runs

/-!
# Manual names, from `json_set.sh` to `hotspotd`

Both writers of `device_names.json` put a space behind the colon of a member.
`hnc_lookup_manual_name` looks for the quote of the name right behind the
colon, so it never finds a name that was set.
-/

namespace Hnc.DeviceNames

open Posix JsonText

/-- The address argument of `name_set` and `name_del`, in any letter case. -/
structure MacArg where
  text : Text
  shape : JsonSetBatch.isMacLine text = true
deriving DecidableEq

/-- The calls that change `device_names.json`. -/
inductive Command where
  | set (mac : MacArg) (name : Text)
  | del (mac : MacArg)
deriving DecidableEq

/-- A call that exits with an error leaves the file alone. -/
def step (file : Text) : Command → Text
  | .set mac name => (JsonSet.nameSet file mac.text name).getD file
  | .del mac => (JsonSet.nameDel file mac.text).getD file

/-- The file that `ensure_names_file` creates. -/
def emptyNames : Text := "{}\n".toList

def namesAfter (commands : List Command) : Text :=
  commands.foldl step emptyNames

/-- The lookup answers 1 and leaves the name in `out`. -/
def NameFound (file : Text) (mac : MacArg) (name : Text) (outlen : Nat) : Prop :=
  HncHelpers.lookupManualName (utf8 mac.text) (utf8 file) outlen =
    ⟨1, utf8 name⟩

def isMacChar (c : Char) : Bool :=
  Guard.isHex c || c == ':'

theorem MacArg.parts (mac : MacArg) : ∃ first middle last,
    mac.text = first :: (middle ++ [last]) ∧ Guard.isHex first = true ∧
      Guard.isHex last = true ∧ middle.length = 15 ∧
      mac.text.all isMacChar = true := by
  obtain ⟨text, shape⟩ := mac
  unfold JsonSetBatch.isMacLine at shape
  split at shape
  · rename_i a b s c d t e f u g h v i j w k l
    simp only [List.all_cons, List.all_nil, Bool.and_true, Bool.and_eq_true,
      JsonSetBatch.isHexDigit] at shape
    refine ⟨a, [b, s, c, d, t, e, f, u, g, h, v, i, j, w, k], l, rfl, shape.1.1,
      ?_, rfl, ?_⟩
    · exact shape.1.2.2.2.2.2.2.2.2.2.2.2
    · simp [isMacChar, shape]
  · simp at shape

theorem toNat_lt_of_isMacChar {c : Char} (char : isMacChar c = true) :
    c.toNat < 128 := by
  simp only [isMacChar, Guard.isHex, isDigit, Bool.or_eq_true, Bool.and_eq_true,
    decide_eq_true_eq, beq_iff_eq] at char
  rcases char with ((digit | low) | high) | rfl
  · exact Nat.lt_of_le_of_lt digit.2 (by decide)
  · exact Nat.lt_of_le_of_lt low.2 (by decide)
  · exact Nat.lt_of_le_of_lt high.2 (by decide)
  · decide

/-- What lower-casing does to a character below 128, checked for each. -/
theorem lower_ascii : ∀ n : Fin 128,
    (isMacChar (Char.ofNat n) = true →
      (JsonSet.lower [Char.ofNat n]).all isMacChar = true) ∧
    (Guard.isHex (Char.ofNat n) = true →
      (JsonSet.lower [Char.ofNat n]).all Guard.isHex = true) := by
  decide

theorem lower_isMacChar {c : Char} (char : isMacChar c = true) :
    (JsonSet.lower [c]).all isMacChar = true ∧
      (Guard.isHex c = true → (JsonSet.lower [c]).all Guard.isHex = true) := by
  have small := toNat_lt_of_isMacChar char
  have checked := lower_ascii ⟨c.toNat, small⟩
  simp only [Char.ofNat_toNat] at checked
  exact ⟨checked.1 char, checked.2⟩

/-- The key that a call uses: it begins with a hex digit and holds nothing that
a writer would have to escape. -/
theorem MacArg.lower_parts (mac : MacArg) : ∃ first rest,
    JsonSet.lower mac.text = first :: rest ∧ Guard.isHex first = true ∧
      (first :: rest).all isMacChar = true := by
  obtain ⟨first, middle, last, text, firstHex, _, _, chars⟩ := mac.parts
  have each : ∀ c ∈ mac.text, (JsonSet.lower [c]).all isMacChar = true :=
    fun c member => (lower_isMacChar (List.all_eq_true.mp chars c member)).1
  have firstChar : isMacChar first = true :=
    List.all_eq_true.mp chars first (by simp [text])
  have all : (JsonSet.lower mac.text).all isMacChar = true := by
    apply List.all_eq_true.mpr
    intro d member
    obtain ⟨c, listed, rfl⟩ := List.mem_map.mp member
    simpa [JsonSet.lower] using each c listed
  have head := (lower_isMacChar firstChar).2 firstHex
  rw [text] at all ⊢
  refine ⟨_, _, rfl, ?_, all⟩
  simpa [JsonSet.lower] using head

/-! ### The layout of `device_names.json` -/

/-- A member as the writers leave it. -/
structure IsName (m : Member) : Prop where
  wf : m.Wf
  key : ∃ first rest, m.key = first :: rest ∧ first ≠ ':'
  gap : m.gap = []
  pad : m.pad = [' ']
  val : ∃ body, Body false body ∧ m.val = quote body

/-- A file with one object of names, and white space around it. -/
structure IsNames (file : Text) : Prop where
  layout : ∃ pre o post, file = pre ++ (Obj.render o ++ post) ++ ['\n'] ∧
    blank pre = true ∧ blank post = true ∧ o.Wf ∧
    ∀ m ∈ o.members, IsName m

theorem isNames_empty : IsNames emptyNames :=
  ⟨[], ⟨[], []⟩, [], rfl, rfl, rfl, ⟨by simp, rfl⟩, by simp⟩

theorem IsName.relaid {m old : Member} (name : IsName old) (same : m.Same old)
    (wf : m.Wf) : IsName m :=
  ⟨wf, same.key ▸ name.key, same.gap.trans name.gap, same.pad.trans name.pad,
    same.val ▸ name.val⟩

variable {trail : Text}

theorem IsName.revalued {m : Member} (name : IsName m) {body : Text}
    (ok : Body false body) (space : blank trail = true) :
    IsName { m with val := quote body, trail := trail } :=
  ⟨⟨name.wf.lead, name.wf.key, name.wf.gap, name.wf.pad, .str ok, space⟩,
    name.key, name.gap, name.pad, body, ok, rfl⟩

theorem isName_written {lead key body : Text} (space : blank lead = true)
    (behind : blank trail = true) (plain : plainKey key = true)
    (first : ∃ c rest, key = c :: rest ∧ c ≠ ':') (ok : Body false body) :
    IsName { written lead key (quote body) with trail := trail } :=
  ⟨⟨space, plain, rfl, rfl, .str ok, behind⟩, first, rfl, rfl, body, ok, rfl⟩

section Edits

variable {o : Obj} {key body : Text}

section

variable (wf : o.Wf) (names : ∀ m ∈ o.members, IsName m)
  (plain : plainKey key = true) (first : ∃ c rest, key = c :: rest ∧ c ≠ ':')
  (ok : Body false body)
include wf names plain first ok

theorem isName_topSet :
    ∀ m ∈ (HncJson.topSet o key (quote body)).members, IsName m := by
  apply HncJson.forall_topSet wf.hollow names
  · intro lead space
    exact isName_written space rfl plain first ok
  · intro m name _
    exact name.revalued ok rfl

theorem isName_setFront :
    ∀ m ∈ (SafeWriter.setFront o key (quote body)).members, IsName m := by
  apply SafeWriter.forall_setFront wf.hollow names
  · intro lead trail space behind
    exact isName_written space behind plain first ok
  · intro m name _
    exact name.revalued ok (SafeWriter.blank_keptTrail name.wf.shaped)

end

theorem isName_remove (wf : o.Wf) (names : ∀ m ∈ o.members, IsName m) :
    ∀ m ∈ (o.remove key).members, IsName m := by
  intro m member
  cases hit : findMember key o.members with
  | none =>
      rw [Obj.remove, hit] at member
      exact names m member
  | some found =>
      have whole := (wf.remove key).members m member
      obtain ⟨before, split, removed⟩ := Obj.remove_split hit
      rw [removed] at member
      obtain ⟨old, listed, same, _⟩ := mem_cut member
      refine (names old ?_).relaid same whole
      rw [split]
      rcases List.mem_append.mp listed with left | right
      · simp [left]
      · simp [right]

end Edits

/-- What the writers rely on in a key. -/
structure KeyFacts (key : Text) : Prop where
  plain : plainKey key = true
  first : ∃ c rest, key = c :: rest ∧ c ≠ ':'
  assigned : assign key = key
  line : JsonSet.firstLine key = key

theorem MacArg.keyFacts (mac : MacArg) : KeyFacts (JsonSet.lower mac.text) := by
  obtain ⟨first, rest, text, hex, chars⟩ := mac.lower_parts
  have free : ∀ c : Char, isMacChar c = false → c ∉ first :: rest := by
    intro c other member
    have char := List.all_eq_true.mp chars c member
    rw [other] at char
    cases char
  rw [text]
  refine ⟨?_, ⟨first, rest, rfl, ?_⟩, ?_, ?_⟩
  · apply List.all_eq_true.mpr
    intro c member
    simp only [Bool.and_eq_true, bne_iff_ne]
    constructor
    · rintro rfl
      exact free _ (by decide) member
    · rintro rfl
      exact free _ (by decide) member
  · rintro rfl
    exact absurd hex (by decide)
  · exact assign_of_no_backslash (free _ (by decide))
  · rw [JsonSet.firstLine, records_line (free _ (by decide)) (by simp)]
    rfl

variable {file : Text}

theorem nameSet_isNames {next : Text} (names : IsNames file) (mac : MacArg)
    {name : Text} (set : JsonSet.nameSet file mac.text name = some next) :
    IsNames next := by
  obtain ⟨pre, o, post, rfl, before, behind, wf, all⟩ := names.layout
  have facts := mac.keyFacts
  unfold JsonSet.nameSet at set
  split at set
  · cases set
  · split at set
    · rename_i written
      cases set
      have nonempty : JsonSet.lower mac.text ≠ [] := by
        obtain ⟨c, rest, text, _⟩ := facts.first
        simp [text]
      rw [HncJson.setTop, if_neg nonempty] at written
      simp only [reduceCtorEq, if_false, assign_doubleBackslash,
        facts.assigned] at written
      have text : slurp (pre ++ (o.render ++ post) ++ ['\n']) =
          pre ++ (o.render ++ (post ++ ['\n'])) := by
        rw [slurp_line]
        simp
      have answer := HncJson.setTopInner_obj wf before text facts.plain
        (HncJson.quoteString name)
      have ok := body_quoteString name
      have done := (HncJson.commit_some written).symm.trans answer
      cases done
      refine ⟨pre, _, post ++ ['\n'], rfl, before, ?_, ?_, ?_⟩
      · rw [blank_append]
        exact ⟨behind, rfl⟩
      · exact HncJson.wf_topSet wf facts.plain (.str ok)
      · exact isName_topSet wf all facts.plain facts.first ok
    · have done := JsonSet.guardedCommit_some set
      rw [facts.line, firstLine_jsonStringEncode] at done
      have ok := body_escapeInner name
      have text : chomp (slurp (pre ++ (o.render ++ post) ++ ['\n'])) =
          pre ++ (o.render ++ post) := by
        rw [slurp_line, chomp_line]
      rw [SafeWriter.objectSet_obj before wf.shaped behind text] at done
      cases done
      refine ⟨pre, _, post, rfl, before, behind, ?_, ?_⟩
      · exact SafeWriter.wf_setFront wf facts.plain (.str ok)
      · exact isName_setFront wf all facts.plain facts.first ok

theorem nameDel_isNames {next : Text} (names : IsNames file) (mac : MacArg)
    (deleted : JsonSet.nameDel file mac.text = some next) : IsNames next := by
  have unchanged := names
  obtain ⟨pre, o, post, rfl, before, behind, wf, all⟩ := names.layout
  have facts := mac.keyFacts
  have text : chomp (slurp (pre ++ (o.render ++ post) ++ ['\n'])) =
      pre ++ (o.render ++ post) := by
    rw [slurp_line, chomp_line]
  have kept : IsNames
      (pre ++ ((o.remove (JsonSet.lower mac.text)).render ++ post) ++ ['\n']) :=
    ⟨pre, _, post, rfl, before, behind, wf.remove _, isName_remove wf all⟩
  unfold JsonSet.nameDel at deleted
  split at deleted
  · cases deleted
    exact unchanged
  · split at deleted
    · rename_i written
      cases deleted
      have nonempty : JsonSet.lower mac.text ≠ [] := by
        obtain ⟨c, rest, same, _⟩ := facts.first
        simp [same]
      rw [HncJson.delObjectKey, if_neg nonempty, facts.assigned] at written
      have done := HncJson.commit_some written
      rw [HncJson.delObjectKeyInner_obj wf before text] at done
      cases done
      exact kept
    · have done := JsonSet.guardedCommit_some deleted
      have solid : ∀ m ∈ o.members, SafeWriter.isBare m.val = false := by
        intro m member
        obtain ⟨body, _, value⟩ := (all m member).val
        simp [value, SafeWriter.isBare, quote]
      rw [facts.line, SafeWriter.objectDel_obj before wf behind solid text] at done
      cases done
      exact kept

theorem step_isNames (names : IsNames file) (command : Command) :
    IsNames (step file command) := by
  cases command with
  | set mac name =>
      cases result : JsonSet.nameSet file mac.text name with
      | none => simpa [step, result] using names
      | some next => simpa [step, result] using nameSet_isNames names mac result
  | del mac =>
      cases result : JsonSet.nameDel file mac.text with
      | none => simpa [step, result] using names
      | some next => simpa [step, result] using nameDel_isNames names mac result

theorem namesAfter_isNames (commands : List Command) :
    IsNames (namesAfter commands) := by
  unfold namesAfter
  generalize start : emptyNames = file
  have names : IsNames file := start ▸ isNames_empty
  clear start
  induction commands generalizing file with
  | nil => exact names
  | cons command rest induction =>
      exact induction (step file command) (step_isNames names command)

/-- No quote of `text` that stands behind a hex digit is followed by a colon
and a second quote. -/
def Quiet (prev : Char) : Text → Text → Prop
  | [], _ => True
  | c :: text, rest =>
      (c = '"' → Guard.isHex prev = true →
        ∀ tail, text ++ rest ≠ ':' :: '"' :: tail) ∧
      Quiet c text rest

theorem quiet_append {prev : Char} {left right rest : Text}
    (first : Quiet prev left (right ++ rest))
    (second : ∀ last, Quiet last right rest) :
    Quiet prev (left ++ right) rest := by
  induction left generalizing prev with
  | nil => exact second prev
  | cons c left induction =>
      refine ⟨?_, induction first.2⟩
      simpa using first.1

theorem quiet_of_not_mem {text : Text} (free : '"' ∉ text) (prev : Char)
    (rest : Text) : Quiet prev text rest := by
  induction text generalizing prev with
  | nil => trivial
  | cons c text induction =>
      simp only [List.mem_cons, not_or] at free
      exact ⟨fun same => absurd same.symm free.1, induction free.2 c⟩

theorem quote_not_mem_of_blank {text : Text} (space : blank text = true) :
    '"' ∉ text := by
  intro member
  have white := List.all_eq_true.mp space _ member
  exact absurd white (by decide)

theorem quiet_body {esc : Bool} {body : Text} (ok : Body esc body) (prev : Char)
    (escape : esc = true → prev = '\\') (rest : Text) :
    Quiet prev body rest := by
  induction ok generalizing prev with
  | done => trivial
  | slash _ induction =>
      refine ⟨fun same => absurd same (by decide), ?_⟩
      exact induction _ fun _ => rfl
  | escaped c _ induction =>
      refine ⟨?_, induction c fun impossible => by cases impossible⟩
      intro _ hex
      rw [escape rfl] at hex
      exact absurd hex (by decide)
  | plain _ quoteFree _ induction =>
      refine ⟨fun same => absurd same quoteFree, ?_⟩
      exact induction _ fun impossible => by cases impossible

theorem no_colon_behind {rest : Text} (space : blank trail = true)
    (follows : Follows rest) (tail : Text) : trail ++ rest ≠ ':' :: tail := by
  intro same
  cases trail with
  | nil =>
      rcases follows with rfl | ⟨c, others, rfl, stops⟩
      · simp at same
      · rcases stops with rfl | rfl | rfl <;> simp at same
  | cons c trail =>
      simp only [blank, List.all_cons, Bool.and_eq_true] at space
      simp only [List.cons_append, List.cons.injEq] at same
      rw [same.1] at space
      exact absurd space.1 (by decide)

theorem quiet_name {m : Member} (name : IsName m) {rest : Text}
    (follows : Follows rest) (prev : Char) : Quiet prev m.render rest := by
  obtain ⟨first, others, key, notColon⟩ := name.key
  obtain ⟨body, ok, value⟩ := name.val
  have keyFree : '"' ∉ m.key := by
    intro member
    have plain := List.all_eq_true.mp name.wf.key _ member
    simp at plain
  have text : m.render = m.lead ++ (['"'] ++ (m.key ++ (['"'] ++
      ([':', ' ', '"'] ++ (body ++ (['"'] ++ m.trail)))))) := by
    simp [Member.render, Member.fromKey, Member.fromValue, name.gap, name.pad,
      value, quote]
  rw [text]
  refine quiet_append (quiet_of_not_mem
    (quote_not_mem_of_blank name.wf.lead) _ _) fun last => ?_
  refine quiet_append ⟨?_, trivial⟩ fun last => ?_
  · intro _ _ tail
    simp [key, notColon]
  refine quiet_append (quiet_of_not_mem keyFree _ _) fun last => ?_
  refine quiet_append ⟨?_, trivial⟩ fun last => ?_
  · intro _ _ tail
    simp
  have opening : ∀ last, Quiet last [':', ' ', '"']
      ((body ++ (['"'] ++ m.trail)) ++ rest) := by
    intro last
    refine ⟨fun same => absurd same (by decide),
      fun same => absurd same (by decide), ?_, trivial⟩
    intro _ hex
    exact absurd hex (by decide)
  refine quiet_append (opening last) fun last => ?_
  refine quiet_append (quiet_body ok _ (fun impossible => by cases impossible) _)
    fun last => ?_
  refine quiet_append ⟨?_, trivial⟩ fun last => ?_
  · intro _ _ tail
    exact no_colon_behind name.wf.trail follows _
  · exact quiet_of_not_mem (quote_not_mem_of_blank name.wf.trail) _ _

theorem quiet_closing {after : List Member} (names : ∀ m ∈ after, IsName m)
    {rest : Text} (free : '"' ∉ rest) (prev : Char) :
    Quiet prev (closing after rest) [] := by
  induction after generalizing prev with
  | nil =>
      apply quiet_of_not_mem
      simpa [closing_nil] using free
  | cons m after induction =>
      rw [closing_cons]
      refine ⟨fun same => absurd same (by decide), ?_⟩
      refine quiet_append ?_ fun last => induction
        (fun other member => names other (by simp [member])) last
      rw [List.append_nil]
      exact quiet_name (names m (by simp)) (follows_closing after rest) _

theorem IsNames.quiet (names : IsNames file) (prev : Char) :
    Quiet prev file [] := by
  obtain ⟨pre, ⟨members, hollow⟩, post, rfl, before, behind, wf, all⟩ :=
    names.layout
  have free : '"' ∉ post ++ ['\n'] := by
    simpa using quote_not_mem_of_blank behind
  have text : pre ++ ((Obj.mk members hollow).render ++ post) ++ ['\n'] =
      (pre ++ ['{']) ++
        ((Obj.mk members hollow).inner ++ '}' :: (post ++ ['\n'])) := by
    simp [Obj.render]
  rw [text]
  refine quiet_append (quiet_of_not_mem ?_ _ _) fun last => ?_
  · simpa using quote_not_mem_of_blank before
  · cases members with
    | nil =>
        rw [Obj.inner_nil]
        refine quiet_append (quiet_of_not_mem
          (quote_not_mem_of_blank wf.hollow) _ _) fun last => ?_
        exact quiet_closing (by simp) free last
    | cons m after =>
        rw [Obj.inner_cons]
        refine quiet_append ?_ fun last => quiet_closing
          (fun other member => all other (by simp [member])) free last
        rw [List.append_nil]
        exact quiet_name (all m (by simp)) (follows_closing after _) _

theorem Quiet.no_hit {prev : Char} {before behind : Text} {c : Char}
    (quiet : Quiet prev (before ++ c :: '"' :: ':' :: '"' :: behind) []) :
    Guard.isHex c = false := by
  induction before generalizing prev with
  | nil =>
      obtain ⟨_, second, _⟩ := quiet
      by_contra hex
      exact second rfl (by simpa using hex) behind (by simp)
  | cons d before induction => exact induction quiet.2

/-- The bytes of the lower-case hex digits. -/
def isLowerHexByte (b : UInt8) : Bool :=
  (48 ≤ b && b ≤ 57) || (97 ≤ b && b ≤ 102)

/-- What `tolower` does to the bytes of the pattern, checked for each byte. -/
theorem toLower_bytes : ∀ n : Fin 256,
    (HncHelpers.toLower (UInt8.ofNat n) = 34 → UInt8.ofNat n = 34) ∧
    (HncHelpers.toLower (UInt8.ofNat n) = 58 → UInt8.ofNat n = 58) ∧
    (isLowerHexByte (HncHelpers.toLower (UInt8.ofNat n)) = true →
      Guard.isHex (Char.ofNat n) = true) ∧
    (Guard.isHex (Char.ofNat n) = true →
      n.val < 128 ∧ isLowerHexByte (HncHelpers.toLower (UInt8.ofNat n)) = true) := by
  decide +kernel

theorem toLower_facts (b : UInt8) :
    (HncHelpers.toLower b = 34 → b = 34) ∧
    (HncHelpers.toLower b = 58 → b = 58) ∧
    (isLowerHexByte (HncHelpers.toLower b) = true →
      Guard.isHex (Char.ofNat b.toNat) = true) ∧
    (Guard.isHex (Char.ofNat b.toNat) = true →
      b.toNat < 128 ∧ isLowerHexByte (HncHelpers.toLower b) = true) := by
  have checked := toLower_bytes ⟨b.toNat, b.toNat_lt⟩
  simpa using checked

/-- The pattern of the lookup, from the last digit of the address on. -/
theorem MacArg.utf8_text (mac : MacArg) : ∃ front b,
    utf8 mac.text = front ++ [b] ∧ front.length = 16 ∧
      Guard.isHex (Char.ofNat b.toNat) = true := by
  obtain ⟨first, middle, last, text, _, hex, length, chars⟩ := mac.parts
  have ascii : ∀ c ∈ mac.text, c.toNat < 128 := fun c member =>
    toNat_lt_of_isMacChar (List.all_eq_true.mp chars c member)
  have small : last.toNat < 256 :=
    Nat.lt_trans (ascii last (by simp [text])) (by decide)
  refine ⟨(first :: middle).map fun c => UInt8.ofNat c.toNat,
    UInt8.ofNat last.toNat, ?_, by simp [length], ?_⟩
  · rw [utf8_of_ascii ascii, text]
    simp
  · rw [UInt8.toNat_ofNat', Nat.mod_eq_of_lt small, Char.ofNat_toNat]
    exact hex

theorem lookup_eq_zero (names : IsNames file) (mac : MacArg) (outlen : Nat) :
    (HncHelpers.lookupManualName (utf8 mac.text) (utf8 file) outlen).found = 0 := by
  by_contra found
  obtain ⟨macFront, b, macText, length, hex⟩ := mac.utf8_text
  obtain ⟨before, front, behind, split, lowered⟩ :=
    HncHelpers.lookupManualName_found (by simp [macText, length]) found
  have pattern : (34 :: utf8 mac.text ++ [34, 58, 34]).map HncHelpers.toLower =
      (34 :: macFront).map HncHelpers.toLower ++
        [HncHelpers.toLower b, 34, 58, 34] := by
    rw [macText]
    simp [HncHelpers.toLower]
  rw [pattern] at lowered
  obtain ⟨early, late, rfl, _, lateLowered⟩ := List.map_eq_append_iff.mp lowered
  obtain ⟨x, rest, rfl, digit, lateLowered⟩ := List.map_eq_cons_iff.mp lateLowered
  obtain ⟨q, rest, rfl, open1, lateLowered⟩ := List.map_eq_cons_iff.mp lateLowered
  obtain ⟨c, rest, rfl, open2, lateLowered⟩ := List.map_eq_cons_iff.mp lateLowered
  obtain ⟨p, rest, rfl, open3, lateLowered⟩ := List.map_eq_cons_iff.mp lateLowered
  obtain rfl := List.map_eq_nil_iff.mp lateLowered
  obtain rfl := (toLower_facts q).1 open1
  obtain rfl := (toLower_facts c).2.1 open2
  obtain rfl := (toLower_facts p).1 open3
  have lowerHex := ((toLower_facts b).2.2.2 hex).2
  have xHex : Guard.isHex (Char.ofNat x.toNat) = true :=
    (toLower_facts x).2.2.1 (digit ▸ lowerHex)
  have ascii : ∀ other ∈ [x, 34, 58, 34], UInt8.toNat other < 128 := by
    intro other member
    simp only [List.mem_cons, List.not_mem_nil, or_false] at member
    rcases member with rfl | rfl | rfl | rfl
    · exact ((toLower_facts other).2.2.2 xHex).1
    · decide
    · decide
    · decide
  obtain ⟨textBefore, inner, textBehind, same, codes⟩ :=
    @utf8_window file (before ++ early) [34, 58, 34] behind x
      (by rw [split]; simp) ascii
  have chars : inner.map Char.toNat = [x.toNat, 34, 58, 34] := codes
  have inverse : inner = [x.toNat, 34, 58, 34].map Char.ofNat := by
    rw [← chars]
    simp [Function.comp_def]
  have quiet := names.quiet '\n'
  rw [same, inverse] at quiet
  have noHex : Guard.isHex (Char.ofNat x.toNat) = false := quiet.no_hit
  rw [xHex] at noHex
  cases noHex

/-- No name that was set is found, whatever the name, the size of the file and
the room for the name are. -/
theorem set_name_not_found (commands : List Command) (mac : MacArg)
    (name next : Text) (outlen : Nat)
    (set : JsonSet.nameSet (namesAfter commands) mac.text name = some next) :
    ¬NameFound next mac name outlen := by
  intro found
  have names := nameSet_isNames (namesAfter_isNames commands) mac set
  have zero := lookup_eq_zero names mac outlen
  rw [found] at zero
  cases zero

def phoneArg : MacArg :=
  ⟨"aa:bb:cc:dd:ee:01".toList, by decide⟩

def phoneNamed : Text :=
  '{' :: "\n  \"aa:bb:cc:dd:ee:01\": \"Mi-10\"".toList ++ '}' :: "\n\n".toList

theorem phone_name_set_not_found :
    JsonSet.nameSet (namesAfter []) phoneArg.text "Mi-10".toList =
      some phoneNamed ∧
    ¬NameFound phoneNamed phoneArg "Mi-10".toList 64 := by
  have set : JsonSet.nameSet (namesAfter []) phoneArg.text "Mi-10".toList =
      some phoneNamed := by
    decide +kernel
  refine ⟨set, ?_⟩
  exact set_name_not_found [] phoneArg "Mi-10".toList phoneNamed 64 set

/-- The name that was just set is not found by the lookup. -/
theorem phone_name_lookup_fails :
    ¬∀ (commands : List Command) (mac : MacArg) (name next : Text)
      (outlen : Nat), name ≠ [] →
      name.all (fun c => !isControl c) = true →
      JsonSet.nameSet (namesAfter commands) mac.text name = some next →
      (utf8 next).length < 8192 → (utf8 name).length < outlen →
      NameFound next mac name outlen := by
  intro always
  have set : JsonSet.nameSet (namesAfter []) phoneArg.text "Mi-10".toList =
      some phoneNamed := by
    decide +kernel
  have found := always [] phoneArg "Mi-10".toList phoneNamed 64 (by decide)
    (by decide) set (by decide +kernel) (by decide +kernel)
  have missed : HncHelpers.lookupManualName (utf8 phoneArg.text)
      (utf8 phoneNamed) 64 = ⟨0, []⟩ := by
    decide +kernel
  rw [NameFound, missed] at found
  exact absurd found (by decide)

end Hnc.DeviceNames
