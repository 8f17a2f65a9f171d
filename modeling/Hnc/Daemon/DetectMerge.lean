import Hnc.Daemon.DetectEntries

/-!
# The earlier devices of a scan

The scanner finds the entries of the earlier file by a pattern whose object ends
at the first brace.  An entry with a brace in a name is passed over; of any other
one the address, the time and the fields in front of the status are cut out.
-/

namespace Hnc.DeviceDetect

open Posix JsonText
open Hotspotd (escapeByte printLong IsPlain)
open OwnIp (body_escaped_name isAtomChar_printLong val_word val_long wf_bare
  oneLine_bare oneLine_closing oneLine_obj oneLine_quote oneLine_long oneLine_escaped)

/-! ### The texts of an entry -/

variable {bytes : Text}

theorem not_mem_of_isPlain (plain : IsPlain bytes) {c : Char}
    (ascii : c.toNat < 128) (special : c = '"' ∨ c = '\\' ∨ isControl c = true) :
    c ∉ bytes := by
  obtain ⟨text, rfl, free⟩ := plain
  intro member
  have inside := mem_of_mem_encode member ascii
  have clean := List.all_eq_true.mp free c inside
  simp only [Bool.and_eq_true, bne_iff_ne] at clean
  rcases special with rfl | rfl | control
  · exact clean.1.2 rfl
  · exact clean.1.1 rfl
  · rw [control] at clean
    exact absurd clean.2 (by decide)

theorem plainKey_of_isPlain (plain : IsPlain bytes) : plainKey bytes = true := by
  apply List.all_eq_true.mpr
  intro c member
  have noQuote : c ≠ '"' := by
    rintro rfl
    exact not_mem_of_isPlain plain (by decide) (.inl rfl) member
  have noSlash : c ≠ '\\' := by
    rintro rfl
    exact not_mem_of_isPlain plain (by decide) (.inr (.inl rfl)) member
  rw [Bool.and_eq_true, bne_iff_ne, bne_iff_ne]
  exact ⟨noQuote, noSlash⟩

theorem newline_not_mem_isPlain (plain : IsPlain bytes) : '\n' ∉ bytes :=
  not_mem_of_isPlain plain (by decide) (.inr (.inr (by decide)))

theorem brace_not_mem_isDottedQuad {ip : Text} (shape : isDottedQuad ip = true) :
    '\x7d' ∉ ip := by
  intro member
  rcases (Ipv4.mk ip shape).chars _ member with digit | dot
  · exact absurd digit (by decide)
  · exact absurd dot (by decide)

theorem brace_not_mem_printLong (value : Int) : '\x7d' ∉ printLong value := by
  intro member
  have atom := List.all_eq_true.mp (isAtomChar_printLong value).2 _ member
  exact absurd atom (by decide)

theorem brace_mem_escaped {name : Text} :
    '\x7d' ∈ name.flatMap escapeByte ↔ '\x7d' ∈ name := by
  have letters : '\x7d' ∉ "\"\\nrt".toList := by decide
  have hex : '\x7d' ∉ hexDigits := by decide
  rw [List.mem_flatMap]
  constructor
  · rintro ⟨c, member, inside⟩
    rcases Hotspotd.escapeByte_cases c with
      ⟨e, letter, pair, _⟩ | ⟨high, hexHigh, low, hexLow, code, _⟩ | ⟨byte, _⟩
    · rw [pair] at inside
      simp only [List.mem_cons, List.not_mem_nil, or_false] at inside
      rcases inside with same | same
      · exact absurd same (by decide)
      · exact absurd (same ▸ letter) letters
    · rw [code] at inside
      simp only [List.mem_cons, List.not_mem_nil, or_false] at inside
      rcases inside with same | same | same | same | same | same
      · exact absurd same (by decide)
      · exact absurd same (by decide)
      · exact absurd same (by decide)
      · exact absurd same (by decide)
      · exact absurd (same ▸ hexHigh) hex
      · exact absurd (same ▸ hexLow) hex
    · rw [byte, List.mem_singleton] at inside
      exact inside ▸ member
  · intro member
    exact ⟨'\x7d', member, by decide⟩

namespace Entry

/-- No text of the entry has a brace in it. -/
def BraceFree (entry : Entry) : Prop :=
  '\x7d' ∉ entry.hostname ∧ '\x7d' ∉ entry.hostnameSrc ∧ '\x7d' ∉ entry.iface

instance (entry : Entry) : Decidable entry.BraceFree :=
  inferInstanceAs (Decidable (_ ∧ _))

/-- The entry of a device that is no longer in the ARP table. -/
def stale (entry : Entry) : Entry :=
  { entry with status := "stale".toList }

theorem Sound.stale {entry : Entry} (sound : entry.Sound) : entry.stale.Sound :=
  { sound with status := List.mem_of_getElem? (i := 2) rfl }

/-- The names of the fields. -/
def labels : List Text :=
  ["ip", "mac", "hostname", "hostname_src", "iface", "rx_bytes", "tx_bytes",
    "status", "last_seen"].map String.toList

theorem label_mem {entry : Entry} {m : Text × Text} (member : m ∈ entry.fields) :
    m.1 ∈ labels :=
  List.mem_map_of_mem (f := Prod.fst) member

theorem label_plain {label : Text} (listed : label ∈ labels) :
    plainKey label = true ∧ '\n' ∉ label ∧ isMacWord label = false := by
  have all : labels.all (fun text => plainKey text && text.all (· != '\n') &&
      !isMacWord text) = true := by decide
  have parts := List.all_eq_true.mp all label listed
  simp only [Bool.and_eq_true, List.all_eq_true, bne_iff_ne, Bool.not_eq_true']
    at parts
  exact ⟨parts.1.1, fun newline => parts.1.2 _ newline rfl, parts.2⟩

/-- A text that stands for the value of a field. -/
structure FieldValue (text : Text) : Prop where
  scalar : Scalar text
  val : Val text
  oneLine : '\n' ∉ text

theorem FieldValue.word {text : Text} (plain : IsPlain text) :
    FieldValue (quote text) where
  scalar := scalar_quote (plainKey_of_isPlain plain)
  val := val_word (plainKey_of_isPlain plain)
  oneLine := oneLine_quote (newline_not_mem_isPlain plain)

theorem FieldValue.name (name : Text) :
    FieldValue (quote (name.flatMap escapeByte)) where
  scalar := .inr ⟨_, rfl, body_escaped_name name⟩
  val := .str (body_escaped_name name)
  oneLine := oneLine_quote (oneLine_escaped name)

theorem FieldValue.long (value : Int) : FieldValue (printLong value) where
  scalar := by
    left
    intro member
    have atom := List.all_eq_true.mp (isAtomChar_printLong value).2 _ member
    exact absurd atom (by decide)
  val := val_long value
  oneLine := oneLine_long value

section Sound

variable {entry : Entry} (sound : entry.Sound)
include sound

theorem Sound.plainKey_mac : plainKey entry.mac = true :=
  plainKey_of_isPlain (isPlain_lowerMac sound.mac)

theorem Sound.isMacWord_mac : isMacWord entry.mac = true := by
  have hex : ∀ c, isLowerHex c = true → DeviceNames.isMacChar c = true := by
    intro c lower
    simp only [isLowerHex, DeviceNames.isMacChar, Guard.isHex, Bool.or_eq_true]
      at lower ⊢
    exact .inl (.inl lower)
  rw [isMacWord, Bool.and_eq_true, beq_iff_eq, List.all_eq_true]
  refine ⟨(Mac.mk entry.mac sound.mac).text_length, fun c member => ?_⟩
  rcases (Mac.mk entry.mac sound.mac).chars c member with lower | rfl
  · exact hex c lower
  · decide

theorem Sound.quote_not_mem_mac : '"' ∉ entry.mac :=
  not_mem_of_isPlain (isPlain_lowerMac sound.mac) (by decide) (.inl rfl)

theorem Sound.fieldValue : ∀ m ∈ entry.fields, FieldValue m.2 := by
  intro m member
  simp only [fields, fieldsFront, fieldsBehind, List.cons_append, List.nil_append,
    List.mem_cons, List.not_mem_nil, or_false] at member
  rcases member with rfl | rfl | rfl | rfl | rfl | rfl | rfl | rfl | rfl
  · exact .word (Hotspotd.isPlain_ip sound.ip)
  · exact .word (isPlain_lowerMac sound.mac)
  · exact .name entry.hostname
  · exact .word sound.hostnameSrc
  · exact .word sound.iface
  · exact .long _
  · exact .long _
  · exact .word (isPlain_statuses sound.status)
  · exact .long _

theorem Sound.scalars : ∀ m ∈ entry.fields, Scalar m.2 :=
  fun m member => (sound.fieldValue m member).scalar

theorem Sound.obj_wf : entry.obj.Wf := by
  refine ⟨?_, rfl⟩
  intro m member
  obtain ⟨field, listed, rfl⟩ := List.mem_map.mp member
  exact wf_bare (label_plain (label_mem listed)).1
    (sound.fieldValue field listed).val

theorem Sound.oneLine_obj : '\n' ∉ entry.obj.render := by
  apply OwnIp.oneLine_obj _ List.not_mem_nil
  intro m member
  obtain ⟨field, listed, rfl⟩ := List.mem_map.mp member
  exact oneLine_bare (label_plain (label_mem listed)).2.1
    (sound.fieldValue field listed).oneLine

theorem Sound.oneLine_member : '\n' ∉ entry.member.render :=
  oneLine_bare (newline_not_mem_isPlain (isPlain_lowerMac sound.mac))
    sound.oneLine_obj

end Sound

end Entry

theorem wordClass_isMacWord : WordClass isMacWord where
  free := by
    intro word good c member
    rw [isMacWord, Bool.and_eq_true, List.all_eq_true] at good
    have char := good.2 c member
    by_contra punct
    rw [Bool.not_eq_false, isPunct, Bool.or_eq_true, Bool.or_eq_true,
      Bool.or_eq_true, beq_iff_eq, beq_iff_eq, beq_iff_eq, beq_iff_eq] at punct
    rcases punct with ((rfl | rfl) | rfl) | rfl
    · exact absurd char (by decide)
    · exact absurd char (by decide)
    · exact absurd char (by decide)
    · exact absurd char (by decide)
  colon := by decide

theorem stops_seenObject : Stops seenObject := by
  rintro c tail (rfl | rfl)
  · rfl
  · rfl

theorem keyName_lastSeen : KeyName "last_seen".toList :=
  ⟨by decide, by decide, 'l', "ast_seen".toList, by decide, by decide⟩

theorem keyName_status : KeyName "status".toList :=
  ⟨by decide, by decide, 's', "tatus".toList, by decide, by decide⟩

variable {rest : Text}

theorem takeWhile_toDigits (n : Nat) (ends : ∀ c ∈ rest.head?, isDigit c = false) :
    (Nat.toDigits 10 n ++ rest).takeWhile isDigit = Nat.toDigits 10 n ∧
      (Nat.toDigits 10 n ++ rest).dropWhile isDigit = rest := by
  have all : ∀ c ∈ Nat.toDigits 10 n, isDigit c = true := fun c member =>
    isDigit_of_mem_toDigits member
  rw [List.takeWhile_append_of_pos all, List.dropWhile_append_of_pos all]
  cases rest with
  | nil => exact ⟨List.append_nil _, rfl⟩
  | cons c rest =>
      have other : ¬isDigit c = true := by
        rw [ends c rfl]
        exact Bool.false_ne_true
      rw [List.takeWhile_cons_of_neg other, List.dropWhile_cons_of_neg other,
        List.append_nil]
      exact ⟨rfl, rfl⟩

theorem digits_toDigits (n : Nat) (ends : ∀ c ∈ rest.head?, isDigit c = false) :
    digits (Nat.toDigits 10 n ++ rest) = some rest := by
  obtain ⟨front, behind⟩ := takeWhile_toDigits n ends
  rw [digits, front, behind, if_neg Nat.toDigits_ne_nil]

theorem grows_digits : Grows digits := by
  intro text more found
  cases text with
  | nil => cases found
  | cons c text =>
      have digit : isDigit c = true := by
        by_contra other
        rw [digits, List.takeWhile_cons_of_neg other, if_pos rfl] at found
        cases found
      rw [digits, List.cons_append, List.takeWhile_cons_of_pos digit,
        if_neg (List.cons_ne_nil _ _)]
      rfl

theorem grows_lastSeenField : Grows lastSeenField :=
  grows_named _ grows_digits

/-! ### The patterns in an entry -/

theorem mem_pieces {members : List (Text × Text)} {c : Char}
    (letter : c ∉ [',', ':', '"']) :
    c ∈ ((members.map Member.tight).flatMap fun m => m.render ++ [',']) ↔
      ∃ m ∈ members, c ∈ m.1 ∨ c ∈ m.2 := by
  simp only [List.mem_cons, not_or] at letter
  simp only [List.mem_flatMap, List.mem_map, exists_exists_and_eq_and]
  apply exists_congr
  intro m
  apply and_congr_right
  intro _
  simp [Member.tight, Member.render, Member.fromKey, Member.fromValue, quote,
    letter]

namespace Entry

/-- The fields in front of the time. -/
def seenFields (entry : Entry) : List (Text × Text) :=
  entry.fieldsFront ++ [("status".toList, quote entry.status)]

/-- The text between the opening brace and the time. -/
def seenFront (entry : Entry) : Text :=
  (entry.seenFields.map Member.tight).flatMap fun m => m.render ++ [',']

/-- The field of the time. -/
def seenText (entry : Entry) : Text :=
  quote "last_seen".toList ++ ':' :: printLong entry.lastSeen

theorem obj_render_seen (entry : Entry) :
    entry.obj.render =
      '\x7b' :: (entry.seenFront ++ (entry.seenText ++ ['\x7d'])) := by
  have split := render_opening entry.seenFields "last_seen".toList
    (printLong entry.lastSeen) []
  have text : entry.obj.render =
      (Obj.mk ((entry.seenFields ++ ("last_seen".toList,
        printLong entry.lastSeen) :: []).map Member.tight) []).render := rfl
  rw [text, split, opening, seenText, List.map_nil, closing_nil, List.append_assoc]
  rfl

theorem obj_render_append (entry : Entry) (rest : Text) :
    entry.obj.render ++ rest =
      '\x7b' :: (entry.seenFront ++ entry.seenText ++ '\x7d' :: rest) := by
  rw [obj_render_seen]
  simp only [List.cons_append, List.append_assoc, List.nil_append]

theorem brace_not_mem_seenText (entry : Entry) : '\x7d' ∉ entry.seenText := by
  rw [seenText, List.mem_append, List.mem_cons, not_or, not_or]
  exact ⟨by decide, by decide, brace_not_mem_printLong entry.lastSeen⟩

section Sound

variable {entry : Entry} (sound : entry.Sound)
include sound

theorem Sound.brace_mem_seenFront :
    '\x7d' ∈ entry.seenFront ↔ ¬entry.BraceFree := by
  have brace {text : Text} : '\x7d' ∈ quote text ↔ '\x7d' ∈ text := by
    simp [quote]
  have label : ∀ label ∈ labels, '\x7d' ∉ label := by decide
  have ip := brace_not_mem_isDottedQuad sound.ip
  have mac := (Mac.mk entry.mac sound.mac).not_mem (c := '\x7d') (by decide)
    (by decide)
  have status : '\x7d' ∉ entry.status := by
    have all : ∀ text ∈ statuses, '\x7d' ∉ text := by decide
    exact all entry.status sound.status
  rw [seenFront, mem_pieces (by decide)]
  have keys : ∀ m ∈ entry.seenFields, ('\x7d' ∈ m.1 ∨ '\x7d' ∈ m.2) ↔
      '\x7d' ∈ m.2 := by
    intro m member
    have listed : m ∈ entry.fields := by
      rcases List.mem_append.mp member with first | last
      · exact List.mem_append_left _ first
      · rw [List.mem_singleton.mp last]
        exact List.mem_append_right _ List.mem_cons_self
    exact or_iff_right (label m.1 (label_mem listed))
  rw [exists_congr fun m => and_congr_right (keys m)]
  simp only [seenFields, fieldsFront, List.cons_append, List.nil_append,
    List.mem_cons, List.not_mem_nil, or_false, exists_eq_or_imp, exists_eq_left,
    brace, ip, mac, status, brace_mem_escaped, brace_not_mem_printLong, false_or,
    BraceFree, not_and_or, not_not]

theorem Sound.seen_toDigits :
    printLong entry.lastSeen = Nat.toDigits 10 entry.lastSeen.natAbs := by
  rw [printLong, if_neg (Int.not_lt.mpr sound.lastSeen)]

/-- The time is not found in front of its field. -/
theorem Sound.quiet_seenFront (restLine : '\n' ∉ rest) :
    Quiet lastSeenField entry.seenFront
      (entry.seenText ++ '\x7d' :: rest) := by
  have others : ∀ m ∈ entry.seenFields ++ [], m.1 ≠ "last_seen".toList := by
    intro m member
    rw [List.append_nil] at member
    have names : ∀ label ∈ entry.seenFields.map Prod.fst,
        label ≠ "last_seen".toList := by
      show ∀ label ∈ labels.take 8, label ≠ "last_seen".toList
      decide
    exact names m.1 (List.mem_map_of_mem member)
  have matched : digits (printLong entry.lastSeen ++ '\x7d' :: rest) =
      some ('\x7d' :: rest) := by
    rw [sound.seen_toDigits]
    apply digits_toDigits
    rintro c ⟨⟩
    decide
  have text : opening entry.seenFields ++ (quote "last_seen".toList ++ ':' ::
      (printLong entry.lastSeen ++ closing ([].map Member.tight) rest)) =
      entry.obj.render ++ rest := by
    rw [obj_render_append, List.append_assoc, seenText, List.append_assoc]
    rfl
  have oneLine : '\n' ∉ entry.obj.render ++ rest := by
    rw [List.mem_append, not_or]
    exact ⟨sound.oneLine_obj, restLine⟩
  have quiet := @quiet_opening _ _ _ _ _ keyName_lastSeen digits
    entry.seenFields [] sound.obj_wf sound.scalars others (text ▸ oneLine) matched
  have tail : quote "last_seen".toList ++ ':' :: (printLong entry.lastSeen ++
      closing ([].map Member.tight) rest) =
      entry.seenText ++ '\x7d' :: rest := by
    rw [seenText, List.append_assoc]
    rfl
  rw [tail] at quiet
  exact quiet.2

theorem Sound.grepO_seenText {rest : Text}
    (ends : ∀ c ∈ rest.head?, isDigit c = false) :
    grepO lastSeenField (entry.seenText ++ rest) =
      entry.seenText :: grepO lastSeenField rest := by
  apply grepO_match
  · rw [seenText]
    exact List.append_ne_nil_of_right_ne_nil _ (List.cons_ne_nil _ _)
  · rw [seenText, List.append_assoc, lastSeenField, named_here]
    show digits (printLong entry.lastSeen ++ rest) = some rest
    rw [sound.seen_toDigits, digits_toDigits _ ends]

theorem Sound.seenObject_obj (restLine : '\n' ∉ rest) :
    seenObject (':' :: (entry.obj.render ++ rest)) =
      if entry.BraceFree then some rest else none := by
  have quiet := sound.quiet_seenFront restLine
  rw [obj_render_append, seenObject]
  by_cases free : '\x7d' ∉ entry.seenFront
  · have braceFree : entry.BraceFree := by
      by_contra braced
      exact free (sound.brace_mem_seenFront.mpr braced)
    have inner : '\x7d' ∉ entry.seenFront ++ entry.seenText := by
      rw [List.mem_append, not_or]
      exact ⟨free, entry.brace_not_mem_seenText⟩
    have short : Quiet lastSeenField entry.seenFront (entry.seenText ++ []) := by
      rw [List.append_nil]
      exact quiet.truncate grows_lastSeenField
    have found := grepO_quiet short
    rw [sound.grepO_seenText (by simp), List.append_nil] at found
    rw [takeWhile_until inner, dropWhile_until inner, if_pos braceFree]
    dsimp only
    rw [found, if_neg (List.cons_ne_nil _ _)]
  · rw [not_not] at free
    have braced : ¬entry.BraceFree := sound.brace_mem_seenFront.mp free
    -- the object ends at the first brace of a name, in front of the time
    obtain ⟨front, behind, split, first⟩ := List.eq_append_cons_of_mem free
    have text : entry.seenFront ++ entry.seenText ++ '\x7d' :: rest =
        front ++ '\x7d' :: (behind ++ (entry.seenText ++ '\x7d' :: rest)) := by
      rw [split]
      simp only [List.append_assoc, List.cons_append]
    rw [split] at quiet
    have short : Quiet lastSeenField front [] :=
      @Quiet.truncate _ _ grows_lastSeenField _ [] _ quiet.front
    have none := grepO_quiet short
    rw [List.append_nil] at none
    rw [text, takeWhile_until first, dropWhile_until first, if_neg braced]
    dsimp only
    rw [none, if_pos]
    rfl

theorem Sound.worded_member (behind : Text → Option Text) (rest : Text) :
    worded isMacWord behind (entry.member.render ++ rest) =
      behind (':' :: (entry.obj.render ++ rest)) := by
  have found := @worded_quote _ isMacWord behind _ sound.quote_not_mem_mac
    (':' :: (entry.obj.render ++ rest))
  rw [if_pos sound.isMacWord_mac] at found
  rw [member, Hotspotd.render_bare, List.append_assoc, quote_append]
  exact found

theorem Sound.grepO_member (restLine : '\n' ∉ rest) :
    grepO (worded isMacWord seenObject) (entry.member.render ++ rest) =
      (if entry.BraceFree then [entry.member.render] else []) ++
        grepO (worded isMacWord seenObject) rest := by
  have here : worded isMacWord seenObject (entry.member.render ++ rest) =
      if entry.BraceFree then some rest else none := by
    rw [sound.worded_member, sound.seenObject_obj restLine]
  have text : entry.member.render =
      '"' :: (entry.mac ++ '"' :: ':' :: entry.obj.render) := by
    rw [member, Hotspotd.render_bare, quote_append]
  by_cases free : entry.BraceFree
  · rw [if_pos free] at here ⊢
    apply grepO_match _ here
    rw [text]
    exact List.cons_ne_nil _ _
  · rw [if_neg free] at here ⊢
    have fields : Quiet (worded isMacWord seenObject) entry.obj.render rest :=
      quiet_object seenObject wordClass_isMacWord stops_seenObject
        (fun m listed => ⟨fun quoteChar => by
          have plain := List.all_eq_true.mp (label_plain (label_mem listed)).1 _ quoteChar
          exact absurd plain (by decide), (label_plain (label_mem listed)).2.2⟩)
        sound.scalars rest
    have closing : worded isMacWord seenObject
        ('"' :: ':' :: (entry.obj.render ++ rest)) = none := by
      rw [obj_render_append]
      exact @worded_punct _ _ seenObject wordClass_isMacWord [':'] (by decide)
        _ (by decide) _
    have tail : Quiet (worded isMacWord seenObject)
        ('"' :: ':' :: entry.obj.render) rest :=
      ⟨closing, worded_other seenObject (by decide) _, fields⟩
    apply grepO_quiet
    rw [text] at here ⊢
    exact ⟨here, (quiet_of_not_mem seenObject sound.quote_not_mem_mac _).append tail⟩

end Sound

end Entry

section

variable {entries : List Entry} (sound : ∀ entry ∈ entries, entry.Sound)
include sound

theorem oneLine_members :
    ∀ m ∈ entries.map Entry.member, '\n' ∉ m.render := by
  intro m member
  obtain ⟨entry, listed, rfl⟩ := List.mem_map.mp member
  exact (sound entry listed).oneLine_member

theorem grepO_more :
    grepO (worded isMacWord seenObject)
        (more (entries.map Entry.member) ++ ['\x7d']) =
      (entries.filter fun entry => entry.BraceFree).map fun entry =>
        entry.member.render := by
  induction entries with
  | nil => decide
  | cons entry entries induction =>
      have comma : Quiet (worded isMacWord seenObject) [',']
          (entry.member.render ++ (more (entries.map Entry.member) ++ ['\x7d'])) :=
        quiet_of_not_mem seenObject (by decide) _
      have text : more ((entry :: entries).map Entry.member) ++ ['\x7d'] =
          [','] ++ (entry.member.render ++
            (more (entries.map Entry.member) ++ ['\x7d'])) := by
        simp [more]
      have line : '\n' ∉ more (entries.map Entry.member) ++ ['\x7d'] :=
        oneLine_closing (oneLine_members fun other member =>
          sound other (List.mem_cons_of_mem entry member)) List.not_mem_nil
      rw [text, grepO_quiet comma,
        (sound entry List.mem_cons_self).grepO_member line,
        induction fun other member => sound other (List.mem_cons_of_mem entry member)]
      rw [List.filter_cons]
      by_cases free : entry.BraceFree
      · rw [if_pos free, if_pos (decide_eq_true free)]
        rfl
      · rw [if_neg free, if_neg (by simpa using free)]
        rfl

theorem oldBlocks_fileText :
    oldBlocks (fileText entries) =
      (entries.filter fun entry => entry.BraceFree).map fun entry =>
        entry.member.render := by
  have oneLine : '\n' ∉ fileText entries :=
    oneLine_obj (oneLine_members sound) List.not_mem_nil
  have line : records (fileText entries) = [fileText entries] :=
    records_line oneLine (List.cons_ne_nil _ _)
  rw [oldBlocks, line, List.flatMap_singleton]
  cases entries with
  | nil => decide
  | cons entry entries =>
      have others : ∀ other ∈ entries, other.Sound := fun other member =>
        sound other (List.mem_cons_of_mem entry member)
      have brace : Quiet (worded isMacWord seenObject) ['\x7b']
          (entry.member.render ++ (more (entries.map Entry.member) ++ ['\x7d'])) :=
        quiet_of_not_mem seenObject (by decide) _
      have text : fileText (entry :: entries) = ['\x7b'] ++
          (entry.member.render ++ (more (entries.map Entry.member) ++ ['\x7d'])) := by
        simp [fileText, Obj.render, Obj.inner]
      have line : '\n' ∉ more (entries.map Entry.member) ++ ['\x7d'] :=
        oneLine_closing (oneLine_members others) List.not_mem_nil
      rw [text, grepO_quiet brace,
        (sound entry List.mem_cons_self).grepO_member line, grepO_more others,
        List.filter_cons]
      by_cases free : entry.BraceFree
      · rw [if_pos free, if_pos (decide_eq_true free)]
        rfl
      · rw [if_neg free, if_neg (by simpa using free)]
        rfl

end

namespace Entry

section Sound

variable {entry : Entry} (sound : entry.Sound)
include sound

theorem Sound.worded_block (behind : Text → Option Text) :
    worded isMacWord behind entry.member.render = behind (':' :: entry.obj.render) := by
  have found := sound.worded_member behind []
  rw [List.append_nil, List.append_nil] at found
  exact found

theorem Sound.oldMac_block : oldMac entry.member.render = entry.mac := by
  have lower := toLower_mac ⟨entry.mac, sound.mac⟩
  have bare : (quote entry.mac).filter (· ≠ '"') = entry.mac := by
    have free : entry.mac.filter (· ≠ '"') = entry.mac := by
      apply List.filter_eq_self.mpr
      intro c member
      apply decide_eq_true
      rintro rfl
      exact sound.quote_not_mem_mac member
    rw [quote, List.filter_append, List.filter_cons, free]
    exact List.append_nil entry.mac
  rw [oldMac, sound.worded_block]
  dsimp only
  rw [member, Hotspotd.render_bare, upTo_append, bareLower, bare]
  exact lower

theorem Sound.oldLastSeen_block :
    oldLastSeen entry.member.render = [printLong entry.lastSeen] := by
  have other : entry.mac ≠ "last_seen".toList := by
    intro same
    have length := (Mac.mk entry.mac sound.mac).text_length
    rw [show (Mac.mk entry.mac sound.mac).text = entry.mac from rfl, same] at length
    exact absurd length (by decide)
  have apart : Apart (':' :: entry.obj.render) := by
    rintro c tail ⟨⟩
    decide
  have key : Quiet lastSeenField (quote entry.mac) (':' :: entry.obj.render) :=
    quiet_named_quote keyName_lastSeen _ sound.plainKey_mac other apart
      (by
        rw [← Hotspotd.render_bare]
        exact sound.oneLine_member)
  have punct : Quiet lastSeenField [':', '\x7b']
      (entry.seenFront ++ (entry.seenText ++ ['\x7d'])) :=
    quiet_named_of_not_mem _ _ (by decide) _
  have found := @Sound.grepO_seenText _ sound ['\x7d'] (by simp [isDigit])
  have text : (':' :: entry.obj.render : Text) = [':', '\x7b'] ++
      (entry.seenFront ++ (entry.seenText ++ ['\x7d'])) := by
    rw [obj_render_seen]
    rfl
  have none : grepO lastSeenField ['\x7d'] = [] := by
    decide
  have digits : ∀ c ∈ (printLong entry.lastSeen).reverse, isDigit c = true := by
    intro c member
    rw [List.mem_reverse, sound.seen_toDigits] at member
    exact isDigit_of_mem_toDigits member
  have tail : (entry.seenText.reverse.takeWhile isDigit).reverse =
      printLong entry.lastSeen := by
    rw [seenText, List.reverse_append, List.reverse_cons, List.append_assoc,
      List.takeWhile_append_of_pos digits, List.singleton_append,
      List.takeWhile_cons_of_neg (by decide), List.append_nil, List.reverse_reverse]
  rw [oldLastSeen, member, Hotspotd.render_bare, grepO_quiet key, text,
    grepO_quiet punct, grepO_quiet (sound.quiet_seenFront List.not_mem_nil),
    found, none, List.map_singleton, tail]

theorem Sound.entryBody_block :
    entryBody entry.member.render = entry.stale.obj.render := by
  have split (status : Text) := render_opening entry.fieldsFront "status".toList
    (quote status) entry.fieldsBehind
  have string : ∀ status : Text, '"' ∉ status → ∀ rest,
      anyString (quote status ++ rest) = some rest := by
    intro status free rest
    rw [quote_append, anyString, dropWhile_until free]
  have statusFree : '"' ∉ entry.status :=
    not_mem_of_isPlain (isPlain_statuses sound.status) (by decide) (.inl rfl)
  have others : ∀ m ∈ entry.fieldsFront ++ entry.fieldsBehind,
      m.1 ≠ "status".toList := by
    intro m member
    have names : ∀ label ∈ (entry.fieldsFront ++ entry.fieldsBehind).map Prod.fst,
        label ≠ "status".toList := by
      show ∀ label ∈ labels.take 7 ++ labels.drop 8, label ≠ "status".toList
      decide
    exact names m.1 (List.mem_map_of_mem member)
  have quiet : Quiet statusField (opening entry.fieldsFront) _ :=
    @quiet_opening _ _ _ [] _ keyName_status anyString entry.fieldsFront
      entry.fieldsBehind sound.obj_wf sound.scalars others
      (split entry.status ▸ sound.oneLine_obj) (string entry.status statusFree _)
  have matched : statusField (quote "status".toList ++ ':' :: (quote entry.status ++
      closing (entry.fieldsBehind.map Member.tight) [])) =
        some (closing (entry.fieldsBehind.map Member.tight) []) := by
    rw [statusField, named_here]
    exact string entry.status statusFree _
  have keyless : worded isMacWord (tightColon some) entry.member.render =
      some entry.obj.render :=
    sound.worded_block (tightColon some)
  have nonempty : quote "status".toList ++ ':' :: (quote entry.status ++
      closing (entry.fieldsBehind.map Member.tight) []) ≠ [] :=
    List.append_ne_nil_of_left_ne_nil (List.cons_ne_nil _ _) _
  have old : entry.obj.render = _ := split entry.status
  have new : entry.stale.obj.render = _ := split "stale".toList
  rw [entryBody, keyless, Option.getD_some, old, substitute_quiet _ quiet,
    substitute_match _ nonempty matched, new]
  rfl

end Sound

end Entry

end Hnc.DeviceDetect
