import Hnc.Daemon.OuiLabels
import Hnc.Lib.JsonPlace
import Hnc.Lib.JsonSearch

/-!
# Loading the labels of a flat object

Behind each member of a flat object the scanner stands in front of the next
one, so the loop reads the members in turn.
-/

namespace Hnc.OuiOverride

open Posix JsonText Loops KeyedSlots

/-! ## The scanner -/

variable {body : Text}

theorem findUnescapedQuote_body {inside : Bool} (ok : Body inside body)
    (rest : Text) :
    if inside then
      findUnescapedQuote ('\\' :: body ++ '"' :: rest) =
        some ('\\' :: body, rest)
    else findUnescapedQuote (body ++ '"' :: rest) = some (body, rest) := by
  induction ok with
  | done => simp [findUnescapedQuote]
  | slash _ induction => simpa using induction
  | @escaped body c _ induction =>
      simp only [List.cons_append]
      rw [findUnescapedQuote, induction]
      rfl
  | @plain c body slash quote _ induction =>
      simp only [Bool.false_eq_true, if_false] at induction ⊢
      rw [List.cons_append, findUnescapedQuote, if_neg quote, induction]
      · rfl
      · intro _ _ same
        exact absurd same slash

theorem findUnescapedQuote_chars (chars : Chars body) (rest : Text) :
    findUnescapedQuote (body ++ '"' :: rest) = some (body, rest) :=
  findUnescapedQuote_body chars.body rest

variable {pad : Text}

theorem dropWhile_pad (padBlank : blank pad = true) (body rest : Text) :
    (pad ++ (quote body ++ rest)).dropWhile isWs =
      '"' :: (body ++ '"' :: rest) := by
  have text : quote body ++ rest = '"' :: (body ++ '"' :: rest) := by
    simp [quote]
  rw [dropWhile_isWs_blank _ padBlank, text,
    dropWhile_isWs_cons _ (by decide)]

theorem skipValue_eq {gap : Text} (gapBlank : blank gap = true)
    (padBlank : blank pad = true) (chars : Chars body) (rest : Text) :
    skipValue (gap ++ ':' :: (pad ++ (quote body ++ rest))) = rest := by
  have colon : ':' ∉ gap := by
    intro member
    have space := List.all_eq_true.mp gapBlank _ member
    revert space
    decide
  rw [skipValue, dropWhile_ne_of_not_mem colon, List.dropWhile_cons]
  simp only [bne_self_eq_false, Bool.false_eq_true, if_false, List.tail_cons,
    dropWhile_pad padBlank, findUnescapedQuote_chars chars rest]

theorem readValue_eq {s : Loading} {keyRaw gap : Text}
    (gapBlank : blank gap = true) (padBlank : blank pad = true)
    (chars : Chars body) (rest : Text) :
    readValue s keyRaw (gap ++ ':' :: (pad ++ (quote body ++ rest))) =
      .again ⟨rest, s.filled.enter keyRaw body⟩ := by
  have colon : (gap ++ ':' :: (pad ++ (quote body ++ rest))).dropWhile isWs =
      ':' :: (pad ++ (quote body ++ rest)) := by
    rw [dropWhile_isWs_blank _ gapBlank, dropWhile_isWs_cons _ (by decide)]
  simp only [readValue, colon, dropWhile_pad padBlank,
    findUnescapedQuote_chars chars rest]

/-- A member of the file and its raw strings. -/
def Stands (m : Member) (entry : Text × Text) : Prop :=
  m.Means (entry.1, .string entry.2)

variable {m : Member}

theorem Stands.val {entry : Text × Text} (stands : Stands m entry) :
    m.val = quote entry.2 ∧ Chars entry.2 := by
  have value := stands.value
  generalize m.val = text at value
  cases value with
  | string chars => exact ⟨rfl, chars⟩

variable {f : Filled}

/-- Behind text without quotes, one turn reads one member. -/
theorem loadTurn_member {junk : Text} {entry : Text × Text} (noQuote : '"' ∉ junk)
    (stands : Stands m entry) (room : f.loaded < maxEntries) (rest : Text) :
    loadTurn ⟨junk ++ (m.render ++ rest), f⟩ =
      .again ⟨m.trail ++ rest, f.read entry⟩ := by
  obtain ⟨val, chars⟩ := stands.val
  have key : entry.1 = m.key := stands.name
  have leadQuote := quote_not_mem stands.spaced.lead
  have search : (junk ++ (m.render ++ rest)).dropWhile (· != '"') =
      '"' :: (m.key ++ '"' :: (m.gap ++
        ':' :: (m.pad ++ (quote entry.2 ++ (m.trail ++ rest))))) := by
    rw [dropWhile_ne_of_not_mem noQuote, Member.render, List.append_assoc,
      dropWhile_ne_of_not_mem leadQuote]
    simp only [Member.fromKey, Member.fromValue, val, quote, List.cons_append,
      List.append_assoc, List.nil_append, List.dropWhile_cons,
      bne_self_eq_false, Bool.false_eq_true, if_false]
  have solid : ¬(junk ++ (m.render ++ rest) = [] ∨ maxEntries ≤ f.loaded) := by
    rintro (nothing | full)
    · rw [nothing] at search
      cases search
    · omega
  rw [loadTurn, if_neg solid]
  simp only [search, findUnescapedQuote_chars stands.key]
  rw [Filled.read, key]
  by_cases long : 64 ≤ m.key.length
  · rw [if_pos long, if_pos (.inr long),
      skipValue_eq stands.spaced.gap stands.spaced.pad chars]
  · rw [if_neg long, if_neg (by omega),
      readValue_eq stands.spaced.gap stands.spaced.pad chars]

theorem loadTurn_end {text : Text} (noQuote : '"' ∉ text) :
    loadTurn ⟨text, f⟩ = .done ⟨text, f⟩ := by
  have nothing := dropWhile_ne_of_not_mem noQuote []
  rw [List.append_nil] at nothing
  rw [loadTurn]
  split
  · rfl
  · simp only [nothing, List.dropWhile_nil]

/-- Behind 256 prefixes no member is read, not even one whose prefix has a
slot. -/
theorem read_full (full : maxEntries ≤ f.loaded) (entries : List (Text × Text)) :
    entries.foldl Filled.read f = f := by
  induction entries with
  | nil => rfl
  | cons entry entries induction =>
      rw [List.foldl_cons, Filled.read, if_pos (.inl full), induction]

theorem loadTurn_full (p : Text) (full : maxEntries ≤ f.loaded) :
    loadTurn ⟨p, f⟩ = .done ⟨p, f⟩ := by
  rw [loadTurn, if_pos (.inr full)]

/-- The loop from one member on, whatever stands in front of it. -/
theorem loadLoop_exec {junk last : Text} {members : List Member}
    {entries : List (Text × Text)}
    (stands : List.Forall₂ Stands (m :: members) entries) (noQuote : '"' ∉ junk)
    (lastQuote : '"' ∉ last) :
    (loadLoop.exec ⟨junk ++ (m.render ++ (more members ++ last)), f⟩).filled =
      entries.foldl Filled.read f := by
  induction members generalizing m junk entries f with
  | nil =>
      obtain _ | ⟨first, rest⟩ := stands
      cases rest
      by_cases full : maxEntries ≤ f.loaded
      · rw [Loop.exec_done (l := loadLoop) (loadTurn_full _ full),
          read_full full]
      · have turn := loadTurn_member noQuote first (Nat.lt_of_not_le full)
          (more [] ++ last)
        have trail : '"' ∉ m.trail ++ (more [] ++ last) := by
          intro member
          rcases List.mem_append.mp member with space | behind
          · exact quote_not_mem first.spaced.trail space
          · exact lastQuote behind
        rw [Loop.exec_again (l := loadLoop) turn,
          Loop.exec_done (l := loadLoop) (loadTurn_end trail)]
        rfl
  | cons next members induction =>
      obtain _ | ⟨first, rest⟩ := stands
      by_cases full : maxEntries ≤ f.loaded
      · rw [Loop.exec_done (l := loadLoop) (loadTurn_full _ full),
          read_full full]
      · have turn := loadTurn_member noQuote first (Nat.lt_of_not_le full)
          (more (next :: members) ++ last)
        have comma : '"' ∉ m.trail ++ [','] := by
          intro member
          rcases List.mem_append.mp member with space | one
          · exact quote_not_mem first.spaced.trail space
          · exact absurd (List.mem_singleton.mp one) (by decide)
        have shape : m.trail ++ (more (next :: members) ++ last) =
            (m.trail ++ [',']) ++ (next.render ++ (more members ++ last)) := by
          simp [more]
        rw [Loop.exec_again (l := loadLoop) turn, shape,
          induction rest comma]
        rfl

/-! ## The labels -/

/-- A flat object and its strings as they are written. -/
def Flat (file : Text) (members : List (Text × Text)) : Prop :=
  Denotes file (.object (members.map fun m => (m.1, .string m.2)))

theorem nul_not_mem_shown {text : Text} (chars : Chars text) :
    '\x00' ∉ shown text := by
  induction chars with
  | nil => exact List.not_mem_nil
  | @unescaped c rest visible _ slash _ induction =>
      rw [shown_plain slash]
      intro member
      rcases List.mem_cons.mp member with nul | later
      · rw [← nul] at visible
        exact absurd visible (by decide)
      · exact induction later
  | @escape e rest letter _ induction =>
      intro member
      rcases List.mem_cons.mp member with nul | later
      · have solid : ("\"\\/bfnrt".toList).all (fun e => unescape e != '\x00') =
            true := by
          decide
        have other := List.all_eq_true.mp solid e letter
        rw [← nul] at other
        exact absurd other (by decide)
      · exact induction later
  | @unicode a b c d rest hex _ induction =>
      have solid : hexDigits.all (fun h => h != '\\' && h != '\x00') = true := by
        decide
      have plain : ∀ h ∈ [a, b, c, d], h ≠ '\\' ∧ h ≠ '\x00' := by
        intro h member
        simpa using List.all_eq_true.mp solid h (hex h member)
      simp only [List.forall_mem_cons] at plain
      obtain ⟨first, second, third, fourth, _⟩ := plain
      rw [shown, shown_plain first.1, shown_plain second.1, shown_plain third.1,
        shown_plain fourth.1]
      simp only [List.mem_cons, not_or]
      exact ⟨by decide, first.2.symm, second.2.symm, third.2.symm,
        fourth.2.symm, induction⟩

variable {members : List (Text × Text)}

/-- The table behind the loop, for any flat object. -/
theorem Flat.load {file : Text} (flat : Flat file members) (table : Table) :
    (loadLoop.exec ⟨file, 0, table⟩).filled =
        members.foldl Filled.read ⟨0, table⟩ ∧
      ∀ m ∈ members, Chars m.2 := by
  obtain ⟨before, middle, after, whole, beforeBlank, derives, afterBlank⟩ := flat
  obtain ⟨⟨parts, hollow⟩, render, space, means⟩ := derives.object_members
  have pairs : List.Forall₂
      (fun m entry => Member.Means m (entry.1, .string entry.2)) parts members :=
    List.forall₂_map_right_iff.mp means
  have stands : List.Forall₂ Stands parts members := pairs
  subst render whole
  constructor
  · cases parts with
    | nil =>
        cases stands
        have noQuote : '"' ∉ before ++ ((Obj.mk [] hollow).render ++ after) := by
          simp only [Obj.render, List.mem_append, List.mem_cons, not_or]
          exact ⟨quote_not_mem beforeBlank,
            ⟨⟨by decide, quote_not_mem space⟩, by decide⟩,
            quote_not_mem afterBlank⟩
        rw [Loop.exec_done (l := loadLoop) (loadTurn_end noQuote)]
        rfl
    | cons m parts =>
        have opening : '"' ∉ before ++ ['\x7b'] := by
          simp only [List.mem_append, not_or]
          exact ⟨quote_not_mem beforeBlank, by decide⟩
        have closing : '"' ∉ '\x7d' :: after := by
          simp only [List.mem_cons, not_or]
          exact ⟨by decide, quote_not_mem afterBlank⟩
        have shape : before ++ ((Obj.mk (m :: parts) hollow).render ++ after) =
            (before ++ ['\x7b']) ++
              (m.render ++ (more parts ++ '\x7d' :: after)) := by
          simp [Obj.render, Obj.inner]
        rw [shape, loadLoop_exec stands opening closing]
  · intro entry member
    obtain ⟨front, rest, split⟩ := List.append_of_mem member
    rw [split, List.map_append] at means
    obtain ⟨_, m, _, _, _, stand, _⟩ := split_members means
    exact (Stands.val stand).2

theorem Filled.Holds.start (table : Table) : (Filled.mk 0 table).Holds [] :=
  ⟨Nat.zero_le _, rfl, fun _ member => absurd member List.not_mem_nil,
    fun _ => rfl⟩

theorem find_active {entries : List Entry} (macPrefix : Text)
    (active : ∀ e ∈ entries, e.active = true) :
    entries.find? (fun e => e.active && e.macPrefix == macPrefix) =
      KeyedSlots.find slotKey entries macPrefix := by
  rw [KeyedSlots.find]
  induction entries with
  | nil => rfl
  | cons e entries induction =>
      have rest := induction fun other one => active other (.tail _ one)
      rw [List.find?_cons, rest, active e List.mem_cons_self]
      by_cases same : e.macPrefix = macPrefix
      · simp [slotKey, same]
      · have apart : (e.macPrefix == macPrefix) = false :=
          beq_eq_false_iff_ne.mpr same
        simp [slotKey, same, apart]

theorem lastFor_mem {macPrefix label : Text}
    (last : lastFor macPrefix members = some label) :
    ∃ m ∈ members, label = shown m.2 := by
  obtain ⟨m, member, found⟩ := List.exists_of_findSome?_eq_some last
  split at found
  · exact ⟨m, List.mem_reverse.mp member, (Option.some.inj found).symm⟩
  · cases found

theorem Filled.Holds.lookup (holds : f.Holds members)
    (chars : ∀ m ∈ members, Chars m.2)
    (short : ∀ m ∈ members, (shown m.2).length < labelLen) {g : Overrides}
    (table : g.table = f.table) (count : g.count = f.loaded) (mac : Text)
    {outlen : Nat} (room : labelLen ≤ outlen) :
    hncOverrideLookup g mac outlen =
      (normalizePrefix mac).bind fun macPrefix =>
        lastFor macPrefix members := by
  have positive : 0 < labelLen := by decide
  have search : ∀ macPrefix, (g.table.entries.take g.count).find?
      (fun e => e.active && e.macPrefix == macPrefix) =
        KeyedSlots.find slotKey f.live macPrefix := by
    intro macPrefix
    rw [table, count]
    exact find_active macPrefix holds.active
  rw [hncOverrideLookup]
  cases key : normalizePrefix mac with
  | none => simp
  | some macPrefix =>
      rw [Option.bind_some, ← holds.find macPrefix]
      simp only [search]
      split
      · have empty : g.count = 0 := by omega
        rw [Filled.live, ← count, empty]
        rfl
      · cases found : KeyedSlots.find slotKey f.live macPrefix with
        | none => rfl
        | some e =>
            have last := holds.find macPrefix
            rw [found] at last
            obtain ⟨m, member, label⟩ := lastFor_mem last.symm
            have noNul := nul_not_mem_shown (chars m member)
            have fits := short m member
            rw [← label] at noNul fits
            change some ((cString e.label).take (outlen - 1)) = some e.label
            rw [cString_eq_self noNul, List.take_of_length_le (by omega)]

/-- A lookup after loading a flat object gives the last label, and the loop
ends on any bytes. -/
theorem load_last_wins {g : Overrides} (ready : g.path ≠ []) {file : Text}
    {members : List (Text × Text)} (flat : Flat file members)
    (size : file.length ≤ 16 * 1024)
    (short : ∀ m ∈ members, (shown m.2).length < labelLen)
    (fits : Fits members) :
    (∀ mac outlen, labelLen ≤ outlen →
      hncOverrideLookup (hncOverrideLoad g (some file)).2 mac outlen =
        (normalizePrefix mac).bind fun macPrefix =>
          lastFor macPrefix members) ∧
    ∀ (bytes : Text) (table : Table),
      loadLoop.turns (bytes.length + 1) ⟨bytes, 0, table⟩ ≠ none := by
  constructor
  · intro mac outlen room
    obtain ⟨filled, chars⟩ := flat.load g.table
    have holds := (Filled.Holds.start g.table).read_all short fits
    rw [← filled] at holds
    have solid : file ≠ [] := by
      obtain ⟨before, middle, after, whole, _, derives, _⟩ := flat
      obtain ⟨o, render, _⟩ := derives.object_members
      rw [whole, render]
      simp [Obj.render]
    have loads : (hncOverrideLoad g (some file)).2 =
        { g with
          table := (loadLoop.exec ⟨file, 0, g.table⟩).filled.table
          count := (loadLoop.exec ⟨file, 0, g.table⟩).filled.loaded } := by
      have passes : ¬(g.path = [] ∨ file = [] ∨ 16 * 1024 < file.length) := by
        rintro (noPath | nothing | large)
        · exact ready noPath
        · exact solid nothing
        · omega
      simp only [hncOverrideLoad, if_neg passes]
    rw [loads]
    exact holds.lookup chars short rfl rfl mac room
  · intro bytes table
    have enough : loadLoop.variant ⟨bytes, 0, table⟩ < bytes.length + 1 :=
      Nat.lt_succ_self _
    rw [Loop.turns_eq_exec enough]
    exact Option.some_ne_none _

/-- The object with these raw strings, without white space. -/
def flatFile (members : List (Text × Text)) : Text :=
  (Obj.mk (members.map fun m => bare m.1 (quote m.2)) []).render

theorem flat_flatFile (free : members.all (fun m => escapeFree m.1) = true)
    (chars : ∀ m ∈ members, Chars m.2) : Flat (flatFile members) members := by
  have means : List.Forall₂ Member.Means
      (members.map fun m => bare m.1 (quote m.2))
      (members.map fun m => (m.1, .string m.2)) := by
    rw [List.forall₂_map_left_iff, List.forall₂_map_right_iff,
      List.forall₂_same]
    intro m member
    exact means_bare (List.all_eq_true.mp free m member)
      (.string (chars m member))
  have object : Derives .value (flatFile members)
      (.object (members.map fun m => (m.1, .string m.2))) :=
    derives_object rfl means
  exact ⟨[], flatFile members, [], by simp, rfl, object, rfl⟩

/-- `init` with a path. -/
def fresh : Overrides :=
  hncOverrideInit ['f']

/-- Two ways to write a prefix. -/
def twice : List (Text × Text) :=
  [("28:6c:07".toList, ['a']), ("286C07".toList, "b\\n".toList)]

theorem twice_labels :
    hncOverrideLookup (hncOverrideLoad fresh (some (flatFile twice))).2
      "28-6c-07".toList 64 = some ['b', '\n'] := by
  have chars : ∀ m ∈ twice, Chars m.2 := by
    intro m member
    rcases List.mem_cons.mp member with rfl | last
    · exact chars_of_escapeFree (by decide)
    · rw [List.mem_singleton.mp last]
      exact .unescaped (by decide) (by decide) (by decide)
        (.escape (by decide) .nil)
  have few : Fits twice := by
    intro front m rest split _
    have length := congrArg List.length split
    have twoMembers : twice.length = 2 := rfl
    rw [twoMembers, List.length_append, List.length_cons] at length
    have card : (prefixes front).card ≤ front.length :=
      (List.toFinset_card_le _).trans (List.length_filterMap_le _ _)
    have large : maxEntries = 256 := rfl
    omega
  have labels := (load_last_wins (g := fresh) (List.cons_ne_nil _ _)
    (flat_flatFile (by decide) chars) (by decide) (by decide) few).1
    "28-6c-07".toList 64 (by decide)
  rw [labels]
  decide

/-- A key of 64 bytes for the prefix. -/
def longKey : Text :=
  "286c07".toList ++ List.replicate 58 ' '

/-- A usual prefix in a key of 64 bytes has no label, and `\b` gives a letter. -/
theorem long_key_and_backspace :
    Flat (flatFile [(longKey, ['a'])]) [(longKey, ['a'])] ∧
      normalizePrefix longKey = some "286c07".toList ∧
      hncOverrideLookup
        (hncOverrideLoad fresh (some (flatFile [(longKey, ['a'])]))).2
        "28:6c:07".toList 64 = none ∧
      Flat (flatFile [("286c07".toList, ['\\', 'b'])])
        [("286c07".toList, ['\\', 'b'])] ∧
      hncOverrideLookup
        (hncOverrideLoad fresh
          (some (flatFile [("286c07".toList, ['\\', 'b'])]))).2
        "28:6c:07".toList 64 = some ['b'] := by
  have plain : Chars ['a'] := chars_of_escapeFree (by decide)
  have backspace : Chars ['\\', 'b'] := .escape (by decide) .nil
  refine ⟨flat_flatFile (by decide +kernel) (List.forall_mem_singleton.mpr plain),
    by decide +kernel, by decide +kernel,
    flat_flatFile (by decide) (List.forall_mem_singleton.mpr backspace),
    by decide +kernel⟩

end Hnc.OuiOverride
