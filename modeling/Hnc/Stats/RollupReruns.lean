import Hnc.Stats.DailyLines

/-!
# Rolling a date up again

A run of `stats_rollup.sh` replaces the rows of its date and prunes both files.
The raw lines of a date are kept for the whole day after it, so that every run
of that day aggregates the same samples.
-/

namespace Hnc.Stats

open Posix JsonText

/-- `stats_raw.jsonl` and `stats_daily.jsonl`; a missing file has no lines. -/
structure StatsFiles where
  raw : List Text
  daily : List Text

/-- `grep "\"date\":\"$TARGET_DATE\""`. -/
def hasDate (target line : Text) : Bool :=
  (tailFrom (labelled "date" (quote target)) line).isSome

/-- `"[0-9]{4}-[0-9]{2}-[0-9]{2}"`. -/
def quotedDate : Text → Option Text
  | '"' :: rest =>
      if isDate (rest.take 10) ∧ (rest.drop 10).head? = some '"' then
        some (rest.take 10)
      else none
  | _ => none

def readDate (line : Text) : Option Text :=
  matchKey "date".toList quotedDate line

/-- `date >= cutoff` on strings. -/
def notBefore : Text → Text → Bool
  | _, [] => true
  | [], _ :: _ => false
  | d :: date, c :: cutoff =>
      if d = c then notBefore date cutoff else decide (c.toNat < d.toNat)

/-- The awk program that prunes the raw file. -/
def isRecent (cutoff : Int) (line : Text) : Bool :=
  match readNumber "ts" line with
  | some ts => decide (cutoff ≤ (ts : Int))
  | none => false

/-- The awk program that prunes the daily file. -/
def inWindow (cutoff line : Text) : Bool :=
  match readDate line with
  | some date => notBefore date cutoff
  | none => false

/-- The `date` command on instants, empty where it fails. -/
abbrev Calendar := Int → Text

/-- `CUTOFF_DATE`. -/
def Calendar.cutoff (dateOf : Calendar) (now : Nat) : Text :=
  dateOf (now - 90 * 86400)

/-- The daily file when the rows of the date are replaced. -/
def StatsFiles.replaced (files : StatsFiles) (target : Text) (ds de : Nat)
    (names : NameFiles) : List Text :=
  let agg := rollupLines names target ds de files.raw
  if agg = [] then files.daily
  else files.daily.filter (fun line => !hasDate target line) ++ agg

/-- `stats_rollup.sh` for the date `target` between `ds` and `de`, at `now`. -/
def StatsFiles.rollup (files : StatsFiles) (dateOf : Calendar) (target : Text)
    (ds de : Nat) (names : NameFiles) (now : Nat) : StatsFiles where
  raw := files.raw.filter (isRecent (now - 48 * 3600))
  daily :=
    if dateOf.cutoff now = [] then files.replaced target ds de names
    else (files.replaced target ds de names).filter
      (inWindow (dateOf.cutoff now))

/-- What happens to the files on a day. -/
inductive StatsEvent where
  | sample (ts : Nat) (leases : Leases) (chain : List Counted)
  | rollup (now : Nat) (names : NameFiles)

/-- The instant of an event. -/
def StatsEvent.now : StatsEvent → Nat
  | .sample ts _ _ => ts
  | .rollup now _ => now

/-- The rollups are those of the date `target`, which begins at `ds` and has 24
hours. -/
def StatsFiles.step (dateOf : Calendar) (target : Text) (ds : Nat)
    (files : StatsFiles) : StatsEvent → StatsFiles
  | .sample ts leases chain =>
      { files with raw := statsSample ts leases chain files.raw }
  | .rollup now names => files.rollup dateOf target ds (ds + 86399) names now

def StatsFiles.run (dateOf : Calendar) (target : Text) (ds : Nat)
    (files : StatsFiles) (events : List StatsEvent) : StatsFiles :=
  events.foldl (StatsFiles.step dateOf target ds) files

/-- The instants of the 24-hour day behind the date. -/
def DayAfter (ds : Nat) (event : StatsEvent) : Prop :=
  ds + 86400 ≤ event.now ∧ event.now < ds + 2 * 86400

/-- No instant in front of the date has a later date. -/
def Calendar.Before (dateOf : Calendar) (target : Text) (ds : Nat) : Prop :=
  ∀ instant : Int, instant < ds → notBefore target (dateOf instant) = true

/-- A date within the 90 days of every rollup. -/
def WithinWindow (dateOf : Calendar) (date : Text) (events : List StatsEvent) :
    Prop :=
  ∀ now names, .rollup now names ∈ events →
    notBefore date (dateOf.cutoff now) = true

/-- A line that a rollup has written. -/
def Written (line : Text) : Prop :=
  ∃ date row name, isDate date = true ∧ '"' ∉ row.mac ∧ '"' ∉ name ∧
    line = dailyLine date row name

/-- The lines of a date. -/
def linesOf (date : Text) (daily : List Text) : List Text :=
  daily.filter fun line => readDate line = some date

/-- A line of the row, under any name. -/
def IsLineOf (target : Text) (row : DailyRow) (line : Text) : Prop :=
  ∃ name, '"' ∉ name ∧ line = dailyLine target row name

/-- One row for each device that has a sample between `ds` and `de`. -/
structure OneRowEach (ds de : Nat) (raw : List Text) (rows : List DailyRow) :
    Prop where
  distinct : (rows.map DailyRow.mac).Nodup
  sampled : ∀ mac, mac ∈ rows.map DailyRow.mac ↔
    ∃ line ∈ raw, ∃ sample, readSample ds de line = some sample ∧
      sample.mac = mac

/-- The pieces of a line between its quotes. -/
def dailyPieces (date : Text) (row : DailyRow) (name : Text) : List Text :=
  [['\x7b'], "date".toList, [':'], date, [','], "mac".toList, [':'], row.mac,
    [','], "rx".toList, ':' :: printed row.rx ++ [','], "tx".toList,
    ':' :: printed row.tx ++ [','], "name".toList, [':'], name, ['\x7d']]

section Pieces

variable {date name : Text} {row : DailyRow}

theorem dailyLine_eq_pieces :
    dailyLine date row name =
      List.intercalate ['"'] (dailyPieces date row name) := by
  simp [dailyLine, labelled, quote, dailyPieces]

theorem fields_dailyLine (shape : isDate date = true) (mac : '"' ∉ row.mac)
    (free : '"' ∉ name) :
    fields '"' (dailyLine date row name) = dailyPieces date row name := by
  rw [dailyLine_eq_pieces]
  apply fields_intercalate (by simp [dailyPieces])
  have numbers : ∀ n, '"' ∉ ':' :: printed n ++ [','] := by
    intro n
    simp [not_mem_printed n (show isDigit '"' = false by decide)]
  have noQuote := not_mem_date shape (c := '"') (by decide) (by decide)
  have words : ∀ word ∈ ["date", "mac", "rx", "tx", "name"],
      '"' ∉ word.toList := by
    decide
  simp only [List.forall_mem_cons] at words
  obtain ⟨first, second, third, fourth, fifth, _⟩ := words
  simp only [dailyPieces, List.forall_mem_cons]
  exact ⟨by decide, first, by decide, noQuote, by decide, second, by decide, mac,
    by decide, third, numbers _, fourth, numbers _, fifth, by decide, free,
    by decide, List.forall_mem_nil _⟩

/-- The word `date` stands in front of a colon only once. -/
theorem date_piece {front behind : List Text} {target : Text}
    (same : front ++ "date".toList :: [':'] :: target :: behind =
      dailyPieces date row name) : target = date := by
  have word : (dailyPieces date row name)[front.length]? =
      some "date".toList := by
    simp [← same]
  have colon : (dailyPieces date row name)[front.length + 1]? = some [':'] := by
    simp [← same]
  have value : (dailyPieces date row name)[front.length + 2]? = some target := by
    simp [← same]
  generalize front.length = place at word colon value
  rcases place with _ | _ | _ | _ | _ | _ | _ | _ | _ | _ | _ | _ | _ | _ | _ |
    _ | _ | place
  all_goals simp [dailyPieces] at word colon value
  · exact value.symm

theorem hasDate_dailyLine (shape : isDate date = true) (mac : '"' ∉ row.mac)
    (free : '"' ∉ name) {target : Text} (targetShape : isDate target = true) :
    hasDate target (dailyLine date row name) = true ↔ date = target := by
  constructor
  · intro found
    obtain ⟨before, behind, split⟩ := tailFrom_isSome found
    have noQuote := not_mem_date targetShape (c := '"') (by decide) (by decide)
    have pattern : dailyLine date row name = before ++ '"' :: ("date".toList ++
        '"' :: ([':'] ++ '"' :: (target ++ '"' :: behind))) := by
      rw [split]
      simp [labelled, quote]
    have pieces := fields_dailyLine shape mac free
    rw [pattern, fields_split, fields_split, fields_split, fields_split,
      fields_of_not_mem noQuote] at pieces
    exact (date_piece pieces).symm
  · rintro rfl
    have split : dailyLine date row name = ['\x7b'] ++
        (labelled "date" (quote date) ++ (',' :: labelled "mac" (quote row.mac) ++
          ',' :: labelled "rx" (printed row.rx) ++
          ',' :: labelled "tx" (printed row.tx) ++
          ',' :: labelled "name" (quote name) ++ ['\x7d'])) := by
      simp [dailyLine]
    rw [split]
    exact tailFrom_append _ (by simp [labelled]) _

theorem isDate_length (shape : isDate date = true) : date.length = 10 := by
  unfold isDate at shape
  split at shape
  · rfl
  · cases shape

theorem readDate_dailyLine (shape : isDate date = true) :
    readDate (dailyLine date row name) = some date := by
  have split : ∃ rest, dailyLine date row name =
      '\x7b' :: '"' :: ("date".toList ++ '"' :: ':' :: '"' ::
        (date ++ '"' :: rest)) :=
    ⟨_, by simp [dailyLine, labelled, quote]; rfl⟩
  obtain ⟨rest, split⟩ := split
  have key : afterKey "date".toList ('"' :: ("date".toList ++ '"' :: ':' :: '"' ::
      (date ++ '"' :: rest))) = some ('"' :: (date ++ '"' :: rest)) := by
    have matched : after? ('"' :: "date".toList ++ ['"']) ('"' :: ("date".toList ++
        '"' :: ':' :: '"' :: (date ++ '"' :: rest))) =
        some (':' :: '"' :: (date ++ '"' :: rest)) :=
      after?_eq_some.mpr (by simp)
    rfl
  have length := isDate_length shape
  have value : quotedDate ('"' :: (date ++ '"' :: rest)) = some date := by
    have front : (date ++ '"' :: rest).take 10 = date := by
      rw [← length, List.take_left]
    have behind : (date ++ '"' :: rest).drop 10 = '"' :: rest := by
      rw [← length, List.drop_left]
    rw [quotedDate, front, behind, if_pos ⟨shape, rfl⟩]
  have brace : afterKey "date".toList ('\x7b' :: '"' :: ("date".toList ++
      '"' :: ':' :: '"' :: (date ++ '"' :: rest))) = none :=
    rfl
  rw [readDate, split, matchKey, brace, Option.bind_none]
  rw [matchKey, key, Option.bind_some, value]

end Pieces

variable {line : Text}

theorem Written.hasDate_iff {target : Text} (written : Written line)
    (shape : isDate target = true) :
    hasDate target line = true ↔ readDate line = some target := by
  obtain ⟨date, row, name, dated, mac, free, rfl⟩ := written
  rw [hasDate_dailyLine dated mac free shape, readDate_dailyLine dated,
    Option.some.injEq]

theorem linesOf_append (date : Text) (left right : List Text) :
    linesOf date (left ++ right) = linesOf date left ++ linesOf date right :=
  List.filter_append ..

variable {daily : List Text}

theorem linesOf_filter {date : Text} {keep : Text → Bool}
    (kept : ∀ line ∈ daily, readDate line = some date → keep line = true) :
    linesOf date (daily.filter keep) = linesOf date daily := by
  rw [linesOf, List.filter_filter]
  apply List.filter_congr
  intro line member
  by_cases own : readDate line = some date
  · simp [kept line member own]
  · simp [own]

theorem linesOf_eq_nil {date : Text}
    (others : ∀ line ∈ daily, readDate line ≠ some date) :
    linesOf date daily = [] := by
  rw [linesOf, List.filter_eq_nil_iff]
  intro line member
  simpa using others line member

theorem linesOf_eq_self {date : Text}
    (own : ∀ line ∈ daily, readDate line = some date) :
    linesOf date daily = daily := by
  rw [linesOf, List.filter_eq_self]
  intro line member
  simpa using own line member

theorem readMac_free {mac : Text} (read : readMac line = some mac) :
    '"' ∉ mac := by
  obtain ⟨value, matched, rfl⟩ := Option.map_eq_some_iff.mp read
  obtain ⟨_, string⟩ := matchKey_eq_some matched
  obtain ⟨_, _, free⟩ := quoted_eq_some string
  split
  · exact List.not_mem_nil
  · exact free

theorem readSample_eq_some {ds de : Nat} {sample : RawSample}
    (read : readSample ds de line = some sample) :
    readNumber "ts" line = some sample.ts ∧ ds ≤ sample.ts ∧ sample.ts ≤ de ∧
      readMac line = some sample.mac := by
  obtain ⟨ts, tsRead, read⟩ := Option.bind_eq_some_iff.mp read
  split at read
  · cases read
  · rename_i inDay
    obtain ⟨mac, macRead, read⟩ := Option.bind_eq_some_iff.mp read
    obtain ⟨rx, _, read⟩ := Option.bind_eq_some_iff.mp read
    obtain ⟨tx, _, read⟩ := Option.bind_eq_some_iff.mp read
    cases read
    simp only [not_or, Nat.not_lt] at inDay
    exact ⟨tsRead, inDay.1, inDay.2, macRead⟩

theorem rollupDouble_free {ds de : Nat} {raw : List Text} {row : DailyRow}
    (member : row ∈ rollupDouble ds de raw) : '"' ∉ row.mac := by
  obtain ⟨line, _, sample, read, same⟩ := mac_of_rollupDouble member
  rw [← same]
  exact readMac_free (readSample_eq_some read).2.2.2

theorem isLineOf_rollupLine (names : NameFiles) (target : Text)
    (row : DailyRow) : IsLineOf target row (rollupLine names target row) := by
  have free := displayName_free names row.mac
  refine ⟨displayName names row.mac, free, ?_⟩
  rw [rollupLine, escapedName_of_not_mem free]

/-- What a run appends is written by it, and has its date. -/
theorem rollupLines_written {names : NameFiles} {target : Text}
    (shape : isDate target = true) {ds de : Nat} {raw : List Text}
    (member : line ∈ rollupLines names target ds de raw) :
    Written line ∧ readDate line = some target := by
  obtain ⟨row, listed, rfl⟩ := List.mem_map.mp member
  obtain ⟨name, free, same⟩ := isLineOf_rollupLine names target row
  rw [same]
  exact ⟨⟨target, row, name, shape, rollupDouble_free listed, free, rfl⟩,
    readDate_dailyLine shape⟩

/-- One row for each device, in the order of the awk array. -/
theorem oneRowEach_rollupDouble (ds de : Nat) (raw : List Text) :
    OneRowEach ds de raw (rollupDouble ds de raw) := by
  have macs : (rollupDouble ds de raw).map DailyRow.mac =
      ((raw.filterMap (readSample ds de)).map RawSample.mac).dedup := by
    rw [rollupDouble, Rollup.rows, seen_addDouble, List.map_map]
    exact List.map_id _
  constructor
  case distinct =>
      rw [macs]
      exact List.nodup_dedup _
  case sampled =>
      intro mac
      rw [macs, List.mem_dedup, List.mem_map]
      constructor
      · rintro ⟨sample, member, same⟩
        obtain ⟨line, listed, read⟩ := List.mem_filterMap.mp member
        exact ⟨line, listed, sample, read, same⟩
      · rintro ⟨line, listed, sample, read, same⟩
        exact ⟨sample, List.mem_filterMap.mpr ⟨line, listed, read⟩, same⟩

namespace StatsFiles

variable {files : StatsFiles} {dateOf : Calendar} {target : Text} {ds de : Nat}
  {names : NameFiles} {now : Nat}

theorem rollup_daily :
    (files.rollup dateOf target ds de names now).daily =
      if dateOf.cutoff now = [] then files.replaced target ds de names
      else (files.replaced target ds de names).filter
        (inWindow (dateOf.cutoff now)) :=
  rfl

theorem replaced_written (shape : isDate target = true)
    (written : ∀ line ∈ files.daily, Written line) :
    ∀ line ∈ files.replaced target ds de names, Written line := by
  intro line member
  rw [replaced] at member
  split at member
  · exact written line member
  · rcases List.mem_append.mp member with kept | added
    · exact written line (List.mem_of_mem_filter kept)
    · exact (rollupLines_written shape added).1

theorem rollup_written (shape : isDate target = true)
    (written : ∀ line ∈ files.daily, Written line) :
    ∀ line ∈ (files.rollup dateOf target ds de names now).daily,
      Written line := by
  intro line member
  rw [rollup_daily] at member
  split at member
  · exact replaced_written shape written line member
  · exact replaced_written shape written line (List.mem_of_mem_filter member)

variable {date : Text}

theorem linesOf_rollup (kept : notBefore date (dateOf.cutoff now) = true) :
    linesOf date (files.rollup dateOf target ds de names now).daily =
      linesOf date (files.replaced target ds de names) := by
  rw [rollup_daily]
  split
  · rfl
  · apply linesOf_filter
    intro line _ own
    rw [inWindow, own]
    exact kept

theorem linesOf_replaced_other (shape : isDate target = true)
    (written : ∀ line ∈ files.daily, Written line) (other : date ≠ target) :
    linesOf date (files.replaced target ds de names) =
      linesOf date files.daily := by
  rw [replaced]
  split
  · rfl
  · have added : linesOf date (rollupLines names target ds de files.raw) = [] := by
      apply linesOf_eq_nil
      intro line member same
      have own := (rollupLines_written shape member).2
      rw [own, Option.some.injEq] at same
      exact other same.symm
    rw [linesOf_append, added, List.append_nil]
    apply linesOf_filter
    intro line member own
    cases found : hasDate target line with
    | false => rfl
    | true =>
        have same := ((written line member).hasDate_iff shape).mp found
        rw [own, Option.some.injEq] at same
        exact absurd same other

theorem linesOf_replaced_target (shape : isDate target = true)
    (written : ∀ line ∈ files.daily, Written line) :
    linesOf target (files.replaced target ds de names) =
      if rollupLines names target ds de files.raw = [] then
        linesOf target files.daily
      else rollupLines names target ds de files.raw := by
  rw [replaced]
  split
  · rfl
  · have removed : linesOf target
        (files.daily.filter fun line => !hasDate target line) = [] := by
      apply linesOf_eq_nil
      intro line member own
      obtain ⟨listed, kept⟩ := List.mem_filter.mp member
      have found := ((written line listed).hasDate_iff shape).mpr own
      rw [found] at kept
      cases kept
    rw [linesOf_append, removed]
    apply linesOf_eq_self
    intro line member
    exact (rollupLines_written shape member).2

/-! ### The runs of a day -/

/-- The files still have the samples of the date that they had at the start. -/
structure Steady (ds : Nat) (start files : StatsFiles) : Prop where
  samples : files.raw.filterMap (readSample ds (ds + 86399)) =
    start.raw.filterMap (readSample ds (ds + 86399))
  written : ∀ line ∈ files.daily, Written line

variable {start : StatsFiles} {event : StatsEvent} {events : List StatsEvent}

theorem Steady.rollupDouble (steady : Steady ds start files) :
    rollupDouble ds (ds + 86399) files.raw =
      Stats.rollupDouble ds (ds + 86399) start.raw := by
  rw [Stats.rollupDouble, Stats.rollupDouble, steady.samples]

/-- The sampler appends lines of later instants. -/
theorem readSamples_statsSample {ts : Nat} (later : de < ts) (leases : Leases)
    (chain : List Counted) (raw : List Text) :
    (statsSample ts leases chain raw).filterMap (readSample ds de) =
      raw.filterMap (readSample ds de) := by
  have none : ((aggregated ts leases (IptablesManager.statsAll chain)).map
      RawSample.line).filterMap (readSample ds de) = [] := by
    rw [List.filterMap_eq_nil_iff]
    intro line member
    obtain ⟨sample, listed, rfl⟩ := List.mem_map.mp member
    obtain ⟨mac, _, rfl⟩ := List.mem_map.mp listed
    cases read : readSample ds de (RawSample.line _) with
    | none => rfl
    | some sample =>
        obtain ⟨tsRead, _, inDay, _⟩ := readSample_eq_some read
        have same : some ts = some sample.ts := by
          rw [← tsRead]
          exact (Mac.legible ts mac _ _).reads.1.symm
        cases same
        omega
  rw [statsSample, List.filterMap_append, none, List.append_nil]

/-- Pruning keeps the samples of the last 48 hours. -/
theorem readSamples_filter {cutoff : Int} (early : cutoff ≤ ds)
    (raw : List Text) :
    (raw.filter (isRecent cutoff)).filterMap (readSample ds de) =
      raw.filterMap (readSample ds de) := by
  rw [List.filterMap_filter]
  apply List.filterMap_congr
  intro line _
  cases read : readSample ds de line with
  | none => simp
  | some sample =>
      obtain ⟨tsRead, inDay, _⟩ := readSample_eq_some read
      have recent : isRecent cutoff line = true := by
        rw [isRecent, tsRead]
        apply decide_eq_true
        omega
      rw [if_pos recent]

theorem Steady.step (steady : Steady ds start files) (dateOf : Calendar)
    (shape : isDate target = true) (day : DayAfter ds event) :
    Steady ds start (files.step dateOf target ds event) := by
  cases event with
  | sample ts leases chain =>
      constructor
      case samples =>
          have later := day.1
          rw [StatsEvent.now] at later
          rw [← steady.samples]
          exact readSamples_statsSample (by omega) leases chain files.raw
      case written => exact steady.written
  | rollup now names =>
      constructor
      case samples =>
          have soon := day.2
          rw [StatsEvent.now] at soon
          rw [← steady.samples]
          exact readSamples_filter (by omega) files.raw
      case written => exact rollup_written shape steady.written

theorem Steady.run (steady : Steady ds start files) (dateOf : Calendar)
    (shape : isDate target = true)
    (day : ∀ event ∈ events, DayAfter ds event) :
    Steady ds start (files.run dateOf target ds events) := by
  induction events generalizing files with
  | nil => exact steady
  | cons event events induction =>
      have stepped := steady.step dateOf shape (day event (by simp))
      exact induction stepped fun other member => day other (by simp [member])

theorem notBefore_cutoff (before : dateOf.Before target ds) {now : Nat}
    (soon : now < ds + 2 * 86400) :
    notBefore target (dateOf.cutoff now) = true :=
  before _ (by omega)

theorem linesOf_rollup_target (steady : Steady ds start files)
    (shape : isDate target = true) (before : dateOf.Before target ds)
    (soon : now < ds + 2 * 86400) :
    linesOf target
        (files.rollup dateOf target ds (ds + 86399) names now).daily =
      if rollupDouble ds (ds + 86399) start.raw = [] then
        linesOf target files.daily
      else (rollupDouble ds (ds + 86399) start.raw).map
        (rollupLine names target) := by
  rw [linesOf_rollup (notBefore_cutoff before soon),
    linesOf_replaced_target shape steady.written, rollupLines,
    steady.rollupDouble]
  simp only [List.map_eq_nil_iff]

theorem forall₂_rollupLine (names : NameFiles) (target : Text)
    (rows : List DailyRow) :
    List.Forall₂ (IsLineOf target) rows (rows.map (rollupLine names target)) := by
  rw [List.forall₂_map_right_iff, List.forall₂_same]
  intro row _
  exact isLineOf_rollupLine names target row

section

variable (steady : Steady ds start files) (shape : isDate target = true)
  (before : dateOf.Before target ds) (day : ∀ event ∈ events, DayAfter ds event)
include steady shape before day

theorem run_rows
    (rows : List.Forall₂ (IsLineOf target)
      (rollupDouble ds (ds + 86399) start.raw) (linesOf target files.daily)) :
    List.Forall₂ (IsLineOf target) (rollupDouble ds (ds + 86399) start.raw)
      (linesOf target (files.run dateOf target ds events).daily) := by
  induction events generalizing files with
  | nil => exact rows
  | cons event events induction =>
      have first := day event (by simp)
      refine induction (steady.step dateOf shape first)
        (fun other member => day other (by simp [member])) ?_
      cases event with
      | sample ts leases chain => exact rows
      | rollup now names =>
          have soon : now < ds + 2 * 86400 := first.2
          rw [StatsFiles.step, linesOf_rollup_target steady shape before soon]
          split
          · exact rows
          · exact forall₂_rollupLine names target _

/-- Without samples of the date nothing is replaced. -/
theorem run_unsampled (empty : rollupDouble ds (ds + 86399) start.raw = []) :
    linesOf target (files.run dateOf target ds events).daily =
      linesOf target files.daily := by
  induction events generalizing files with
  | nil => rfl
  | cons event events induction =>
      have first := day event (by simp)
      have rest := induction (steady.step dateOf shape first)
        (fun other member => day other (by simp [member]))
      refine rest.trans ?_
      cases event with
      | sample ts leases chain => rfl
      | rollup now names =>
          have soon : now < ds + 2 * 86400 := first.2
          rw [StatsFiles.step, linesOf_rollup_target steady shape before soon,
            if_pos empty]

end

theorem run_other (steady : Steady ds start files) (shape : isDate target = true)
    (day : ∀ event ∈ events, DayAfter ds event) (other : date ≠ target)
    (within : WithinWindow dateOf date events) :
    linesOf date (files.run dateOf target ds events).daily =
      linesOf date files.daily := by
  induction events generalizing files with
  | nil => rfl
  | cons event events induction =>
      have rest := induction
        (steady.step dateOf shape (day event (by simp)))
        (fun later member => day later (by simp [member]))
        (fun now names member => within now names (by simp [member]))
      refine rest.trans ?_
      cases event with
      | sample ts leases chain => rfl
      | rollup now names =>
          have kept := within now names (by simp)
          rw [StatsFiles.step, linesOf_rollup kept,
            linesOf_replaced_other shape steady.written other]

theorem run_append (first second : List StatsEvent) :
    files.run dateOf target ds (first ++ second) =
      (files.run dateOf target ds first).run dateOf target ds second := by
  rw [StatsFiles.run, List.foldl_append]
  rfl

end StatsFiles

/-- However often a date is rolled up on the day after it, its rows are one for
each device with a sample, the same after every run, and the other dates of the
window keep their lines. -/
theorem rerun_keeps_rows {dateOf : Calendar} {target : Text}
    (shape : isDate target = true) {ds : Nat}
    (before : dateOf.Before target ds) (files : StatsFiles)
    (written : ∀ line ∈ files.daily, Written line)
    (early later : List StatsEvent) (now : Nat) (names : NameFiles)
    (day : ∀ event ∈ early ++ .rollup now names :: later, DayAfter ds event) :
    ∃ rows, OneRowEach ds (ds + 86399) files.raw rows ∧
      (rows ≠ [] →
        List.Forall₂ (IsLineOf target) rows (linesOf target
          (files.run dateOf target ds (early ++ [.rollup now names])).daily) ∧
        List.Forall₂ (IsLineOf target) rows (linesOf target
          (files.run dateOf target ds
            (early ++ .rollup now names :: later)).daily)) ∧
      (rows = [] → linesOf target (files.run dateOf target ds
        (early ++ .rollup now names :: later)).daily =
          linesOf target files.daily) ∧
      ∀ date ≠ target,
        WithinWindow dateOf date (early ++ .rollup now names :: later) →
        linesOf date (files.run dateOf target ds
          (early ++ .rollup now names :: later)).daily =
            linesOf date files.daily := by
  have steady : StatsFiles.Steady ds files files := ⟨rfl, written⟩
  have dayEarly : ∀ event ∈ early, DayAfter ds event :=
    fun event member => day event (by simp [member])
  have dayRun : DayAfter ds (.rollup now names) := day _ (by simp)
  have dayLater : ∀ event ∈ later, DayAfter ds event :=
    fun event member => day event (by simp [member])
  have steadyEarly := steady.run dateOf shape dayEarly
  have soon : now < ds + 2 * 86400 := dayRun.2
  have split : early ++ .rollup now names :: later =
      (early ++ [.rollup now names]) ++ later := by
    simp
  refine ⟨rollupDouble ds (ds + 86399) files.raw,
    oneRowEach_rollupDouble _ _ _, ?_, ?_, ?_⟩
  · intro some
    have first : List.Forall₂ (IsLineOf target)
        (rollupDouble ds (ds + 86399) files.raw) (linesOf target
          (files.run dateOf target ds (early ++ [.rollup now names])).daily) := by
      rw [StatsFiles.run_append]
      change List.Forall₂ _ _ (linesOf target (StatsFiles.rollup _ dateOf target
        ds (ds + 86399) names now).daily)
      rw [StatsFiles.linesOf_rollup_target steadyEarly shape before soon,
        if_neg some]
      exact StatsFiles.forall₂_rollupLine names target _
    refine ⟨first, ?_⟩
    have steadyFirst : StatsFiles.Steady ds files
        (files.run dateOf target ds (early ++ [.rollup now names])) := by
      rw [StatsFiles.run_append]
      exact steadyEarly.step dateOf shape dayRun
    rw [split, StatsFiles.run_append]
    exact StatsFiles.run_rows steadyFirst shape before dayLater first
  · intro empty
    exact StatsFiles.run_unsampled steady shape before day empty
  · intro date other within
    exact StatsFiles.run_other steady shape day other within

/-- The dates of the first two days of 1970 in UTC. -/
def firstDays (instant : Int) : Text :=
  if instant < 86400 then "1970-01-01".toList else "1970-01-02".toList

/-- The files on the second of April, with a row of the first of March. -/
def aprilFiles : StatsFiles where
  raw := [(RawSample.mk 7776000 laptopMac.text 5 6).line]
  daily := [dailyLine "1970-03-01".toList ⟨laptopMac.text, 1, 2⟩ "TV".toList]

theorem aprilFiles_written : ∀ line ∈ aprilFiles.daily, Written line := by
  intro line member
  rw [List.mem_singleton.mp member]
  exact ⟨_, _, _, by decide, by decide, by decide, rfl⟩

theorem firstDays_before :
    Calendar.Before firstDays "1970-04-01".toList 7776000 := by
  intro instant _
  rw [firstDays]
  split <;> decide

/-- Two rollups with a sample in between. -/
theorem april_rolled_up_twice :
    ∃ rows, rows ≠ [] ∧
      List.Forall₂ (IsLineOf "1970-04-01".toList) rows
        (linesOf "1970-04-01".toList (aprilFiles.run firstDays
          "1970-04-01".toList 7776000
          ([] ++ .rollup 7862400 (laptopNamed "TV".toList) ::
            [.sample 7862700 [] [],
              .rollup 7948799 (laptopNamed "PC".toList)])).daily) := by
  have day : ∀ event ∈ ([] : List StatsEvent) ++
      .rollup 7862400 (laptopNamed "TV".toList) ::
        [.sample 7862700 [] [], .rollup 7948799 (laptopNamed "PC".toList)],
      DayAfter 7776000 event := by
    simp [DayAfter, StatsEvent.now]
  obtain ⟨rows, each, kept, _⟩ := rerun_keeps_rows (by decide) firstDays_before
    aprilFiles aprilFiles_written [] _ 7862400 (laptopNamed "TV".toList) day
  have sampled := (each.sampled laptopMac.text).mpr
    ⟨_, List.mem_singleton.mpr rfl, _,
      readSample_line (Mac.legible 7776000 laptopMac 5 6) (by decide)
        (by decide), rfl⟩
  have some : rows ≠ [] := by
    rintro rfl
    cases sampled
  exact ⟨rows, some, (kept some).2⟩

end Hnc.Stats
