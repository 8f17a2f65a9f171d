import Hnc.Stats.RollupNames

/-!
# The lines of `stats_daily.jsonl`

The awk program of `stats_rollup.sh` escapes the names that it was given a second
time.  By the rules of `gsub` that changes nothing, so that a name without an
escaped quote stays the JSON string that it was, and a name with one takes the
closing quote of the line.
-/

namespace Hnc.Stats

open Posix JsonText

/-- `gsub(/\\/, "\\\\", name); gsub(/"/, "\\\"", name)`, with the strings that
awk makes of the two literals. -/
def escapedName (name : Text) : Text :=
  gsub '"' ['\\', '"'] (gsub '\\' ['\\', '\\'] name)

/-- `YYYY-MM-DD`. -/
def isDate : Text → Bool
  | [a, b, c, d, s, e, f, t, g, h] =>
      [a, b, c, d, e, f, g, h].all isDigit && [s, t].all (· == '-')
  | _ => false

/-- The line that `printf` writes for a device. -/
def dailyLine (target : Text) (row : DailyRow) (name : Text) : Text :=
  '\x7b' :: labelled "date" (quote target) ++
    ',' :: labelled "mac" (quote row.mac) ++
    ',' :: labelled "rx" (printed row.rx) ++
    ',' :: labelled "tx" (printed row.tx) ++
    ',' :: labelled "name" (quote name) ++ ['\x7d']

/-- The line of a device. -/
def rollupLine (files : NameFiles) (target : Text) (row : DailyRow) : Text :=
  dailyLine target row (escapedName (displayName files row.mac))

/-- What the awk program prints for the day between `ds` and `de`. -/
def rollupLines (files : NameFiles) (target : Text) (ds de : Nat)
    (raw : List Text) : List Text :=
  (rollupDouble ds de raw).map (rollupLine files target)

/-- A line that stands for the row, under any name. -/
structure Readable (target : Text) (row : DailyRow) (line : Text) : Prop where
  oneLine : '\n' ∉ line
  denotes : ∃ name, Denotes line (.object
    [("date".toList, .string target), ("mac".toList, .string row.mac),
      ("rx".toList, .number (printed row.rx)),
      ("tx".toList, .number (printed row.tx)),
      ("name".toList, .string name)])

/-! ### A row and its line -/

theorem escapedName_of_not_mem {name : Text} (free : '"' ∉ name) :
    escapedName name = name := by
  have slashes : gsub '\\' ['\\', '\\'] name = name :=
    gsub_of_replacement rfl name
  rw [escapedName, slashes]
  exact gsub_of_not_mem free _

/-- The members of a line. -/
def dailyMembers (target : Text) (row : DailyRow) (name : Text) : List Member :=
  [bare "date".toList (quote target), bare "mac".toList (quote row.mac),
    bare "rx".toList (printed row.rx), bare "tx".toList (printed row.tx),
    bare "name".toList (quote name)]

theorem render_dailyMembers (target : Text) (row : DailyRow) (name : Text) :
    (Obj.mk (dailyMembers target row name) []).render =
      dailyLine target row name := by
  simp only [dailyMembers, dailyLine, labelled, bare, Obj.render, Obj.inner, more,
    Member.render, Member.fromKey, Member.fromValue, quote, List.flatMap_cons,
    List.flatMap_nil, List.append_assoc, List.nil_append, List.cons_append]

section Line

variable {target name : Text} {row : DailyRow}

theorem readable_of_chars (date : Chars target) (mac : Chars row.mac)
    (chars : Chars name) : Readable target row (dailyLine target row name) := by
  constructor
  case oneLine =>
      have noBreak : ∀ {body : Text}, Chars body → '\n' ∉ body :=
        fun chars => Depth.newline_not_mem_chars chars
      have number : ∀ n, '\n' ∉ printed n :=
        fun n => not_mem_printed n (by decide)
      have keys : ∀ key ∈ ["date", "mac", "rx", "tx", "name"],
          '\n' ∉ key.toList := by decide
      simp only [List.mem_cons] at keys
      simp only [dailyLine, labelled, quote, List.mem_cons, List.mem_append,
        number, noBreak date, noBreak mac, noBreak chars]
      decide
  case denotes =>
      refine ⟨name, [], dailyLine target row name, [], by simp, rfl, ?_, rfl⟩
      rw [← render_dailyMembers]
      apply derives_object rfl
      exact .cons (means_bare (by decide) (.string date))
        (.cons (means_bare (by decide) (.string mac))
          (.cons (means_bare (by decide) (derives_printed _))
            (.cons (means_bare (by decide) (derives_printed _))
              (.cons (means_bare (by decide) (.string chars)) .nil))))

/-- What stands in front of the name. -/
def beforeName (target : Text) (row : DailyRow) : Text :=
  '\x7b' :: labelled "date" (quote target ++
    ',' :: labelled "mac" (quote row.mac ++
      ',' :: labelled "rx" (printed row.rx ++
        ',' :: labelled "tx" (printed row.tx ++
          ',' :: labelled "name" ['"']))))

theorem dailyLine_split :
    dailyLine target row name =
      beforeName target row ++ (name ++ ['"', '\x7d']) := by
  simp [dailyLine, beforeName, labelled, quote]

theorem scan_labelled {key : String} (free : escapeFree key.toList = true)
    (rest : Text) :
    Spot.outside.scan (labelled key rest) = Spot.outside.scan rest := by
  have split : labelled key rest = quote key.toList ++ ':' :: rest := by
    simp [labelled, quote]
  have settled : Spot.closed.Settled := .inr rfl
  rw [split, Spot.scan_append_of (Spot.scan_quote (chars_of_escapeFree free))]
  exact settled.scan_cons (by decide) rest

theorem scan_string {body : Text} (chars : Chars body) (rest : Text) :
    Spot.outside.scan (quote body ++ ',' :: rest) = Spot.outside.scan rest := by
  have settled : Spot.closed.Settled := .inr rfl
  rw [Spot.scan_append_of (Spot.scan_quote chars)]
  exact settled.scan_cons (by decide) rest

theorem scan_printed (n : Nat) (rest : Text) :
    Spot.outside.scan (printed n ++ ',' :: rest) = Spot.outside.scan rest := by
  rw [Spot.scan_append_of (Spot.scan_outside (not_mem_printed n (by decide)))]
  rfl

/-- The name begins inside a string. -/
theorem scan_beforeName (date : Chars target) (mac : Chars row.mac) :
    Spot.outside.scan (beforeName target row) = some .inside := by
  rw [beforeName, Spot.scan_cons_of (show Spot.outside.step '\x7b' =
    some .outside from rfl), scan_labelled (by decide),
    scan_string date, scan_labelled (by decide), scan_string mac,
    scan_labelled (by decide), scan_printed,
    scan_labelled (by decide), scan_printed,
    scan_labelled (by decide)]
  rfl

/-- A name that ends in the backslash of an escape takes the closing quote. -/
theorem not_isJson_of_cut_name (date : Chars target) (mac : Chars row.mac)
    {front : Text} (chars : Chars front) :
    ¬IsJson (dailyLine target row (front ++ ['\\'])) := by
  have split : dailyLine target row (front ++ ['\\']) =
      beforeName target row ++ (front ++ '\\' :: '"' :: ['\x7d']) := by
    rw [dailyLine_split]
    simp
  rw [split]
  exact Spot.not_isJson_of_cut (scan_beforeName date mac) chars (by decide)

end Line

/-- A line is readable if and only if the string that its name is cut from has no
escaped quote. -/
theorem rollupLine_readable_iff {files : NameFiles} (valid : files.Valid)
    {target : Text} (date : Chars target) {row : DailyRow}
    (mac : Chars row.mac) :
    Readable target row (rollupLine files target row) ↔
      ∀ body, files.Spells row.mac body → '"' ∉ body := by
  have free := displayName_free files row.mac
  rw [rollupLine, escapedName_of_not_mem free]
  constructor
  · intro readable body spells escaped
    obtain ⟨front, cut, chars⟩ := Spot.cut_of_escaped_quote spells.chars escaped
    obtain ⟨name, denotes⟩ := readable.denotes
    rw [← spells.cut, cut] at denotes
    exact not_isJson_of_cut_name date mac chars ⟨_, denotes⟩
  · intro plain
    apply readable_of_chars date mac
    rcases files.exists_spells valid row.mac with empty | ⟨body, spells⟩
    · rw [empty]
      exact .nil
    · rw [← spells.cut, takeWhile_of_not_mem (plain body spells)]
      exact spells.chars

variable {date : Text}

theorem isDate_chars (shape : isDate date = true) :
    ∀ c ∈ date, isDigit c = true ∨ c = '-' := by
  unfold isDate at shape
  split at shape
  · simp only [Bool.and_eq_true] at shape
    intro c member
    obtain ⟨digits, hyphens⟩ := shape
    simp only [List.mem_cons, List.not_mem_nil, or_false] at member
    rcases member with rfl | rfl | rfl | rfl | rfl | rfl | rfl | rfl | rfl |
      rfl <;> simp_all
  · cases shape

theorem not_mem_date (shape : isDate date = true) {c : Char}
    (digit : isDigit c = false) (other : c ≠ '-') : c ∉ date := by
  intro member
  rcases isDate_chars shape c member with isDigit | hyphen
  · rw [digit] at isDigit
    cases isDigit
  · exact other hyphen

theorem chars_of_isDate (shape : isDate date = true) : Chars date := by
  apply chars_of_escapeFree
  apply List.all_eq_true.mpr
  intro c member
  have visible : isControl c = false := by
    rcases isDate_chars shape c member with digit | rfl
    · simp only [isDigit, Bool.and_eq_true, decide_eq_true_eq] at digit
      have low : 32 ≤ '0'.toNat := by decide
      simp only [isControl, decide_eq_false_iff_not]
      omega
    · decide
  simp only [visible, Bool.and_eq_true, bne_iff_ne, Bool.not_false, and_true]
  constructor
  · rintro rfl
    exact not_mem_date shape (by decide) (by decide) member
  · rintro rfl
    exact not_mem_date shape (by decide) (by decide) member

theorem mac_of_rollupDouble {ds de : Nat} {raw : List Text} {row : DailyRow}
    (member : row ∈ rollupDouble ds de raw) :
    ∃ line ∈ raw, ∃ sample, readSample ds de line = some sample ∧
      sample.mac = row.mac := by
  rw [rollupDouble, Rollup.rows, seen_addDouble] at member
  obtain ⟨mac, seen, rfl⟩ := List.mem_map.mp member
  rw [List.mem_dedup] at seen
  obtain ⟨sample, read, rfl⟩ := List.mem_map.mp
    ((List.mem_append.mp seen).resolve_left List.not_mem_nil)
  obtain ⟨line, listed, same⟩ := List.mem_filterMap.mp read
  exact ⟨line, listed, sample, same, rfl⟩

/-- The files that give the laptop a name, in its JSON form. -/
def laptopNamed (body : Text) : NameFiles where
  names := (Obj.mk [bare laptopMac.text (quote body)] []).render
  devices := "\x7b\x7d".toList

theorem laptopNamed_valid {body : Text} (chars : Chars body) :
    (laptopNamed body).Valid where
  names := ⟨_, [], _, [], (List.append_nil _).symm, rfl,
    derives_bare (by decide) (.string chars), rfl⟩
  devices := ⟨_, [], _, [], (List.append_nil _).symm, rfl,
    .noMembers (show blank [] = true from rfl), rfl⟩

/-- The raw line of a sample of the laptop. -/
def laptopSample : RawSample :=
  ⟨7, laptopMac.text, 5, 6⟩

theorem readSample_laptop :
    readSample 0 86399 laptopSample.line = some laptopSample :=
  readSample_line (Mac.legible 7 laptopMac 5 6) (by decide) (by decide)

theorem rollupDouble_laptop :
    rollupDouble 0 86399 [laptopSample.line] = [⟨laptopMac.text, 0, 0⟩] := by
  rw [rollupDouble, List.filterMap_cons, readSample_laptop]
  decide

theorem laptop_macs : ∀ line ∈ [laptopSample.line], ∀ sample,
    readSample 0 86399 line = some sample → isLowerMac sample.mac = true := by
  intro line member sample read
  rw [List.mem_singleton.mp member, readSample_laptop] at read
  cases read
  exact laptopMac.shape

theorem chars_laptop : Chars "TV".toList :=
  chars_of_escapeFree (by decide)

/-- `a\"b`. -/
def quotedName : Text :=
  ['a', '\\', '"', 'b']

theorem chars_quotedName : Chars quotedName := by
  have behind : Chars ['b'] := chars_of_escapeFree (by decide)
  exact .unescaped (by decide) (by decide) (by decide)
    (.escape (by decide) behind)

end Hnc.Stats
