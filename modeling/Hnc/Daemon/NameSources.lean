import Hnc.Daemon.DeviceTable
import Hnc.Daemon.HncHelpers
import Hnc.Daemon.WriteJson
import Hnc.Lib.ByteText
import Hnc.Lib.CString

/-!
# Where the names come from

`device_names.json`, the dump of `network_stack`, the output of `mdns_resolve`,
the cache and the table of vendors.  Each name passes a buffer of 64 bytes that
cuts it after 63, wherever that is.
-/

namespace Hnc.Hotspotd

open Posix JsonText

/-- `HN_LEN` and `HNC_MDNS_HOSTNAME_LEN`. -/
def hnLen : Nat := 64

/-- `hnc_lookup_manual_name`; the file is empty when it cannot be read. -/
def lookupManualName (mac names : Text) (outlen : Nat) : Option Text :=
  let answer :=
    HncHelpers.lookupManualName (toBytes mac) (toBytes names) outlen
  if answer.found = 1 then some (asChars answer.out) else none

/-- The test of the address in `try_ns_dhcp_resolve`. -/
def isDhcpMac (mac : Text) : Bool :=
  mac.length = 17 && mac.all fun c => Scheduler.isXDigit c || c == ':'

/-- Whether `strcasestr` finds something. -/
def strcasestr (haystack needle : Text) : Bool :=
  (strstr (haystack.map Scheduler.toLower)
    (needle.map Scheduler.toLower)).isSome

/-- The two tests of a line. -/
def isLease (mac line : Text) : Bool :=
  strcasestr line mac && (strstr line "hostname: ".toList).isSome

/-- What stands behind `hostname: `, before the loop that copies it ends for a
reason other than its bound. -/
def hostnameField (line : Text) : Text :=
  match strstr line "hostname: ".toList with
  | none => []
  | some p => (p.drop 10).takeWhile fun c => c != '\r' && c != ','

def isTrailingBlank (c : Char) : Bool :=
  c == ' ' || c == '\t'

/-- `hn`. -/
def leaseName (line : Text) : Text :=
  ((hostnameField line).take (hnLen - 1)).rdropWhile isTrailingBlank

/-- The loop over the lines, with `latest_hostname`. -/
def latestHostname (mac : Text) : Text → List Text → Text
  | latest, [] => latest
  | latest, line :: lines =>
      if isLease mac line then
        let hn := leaseName line
        latestHostname mac (if hn = [] then latest else hn) lines
      else latestHostname mac latest lines

/-- The lines that `strtok_r` finds in the buffer of 32 KB. -/
def dumpLines (dump : Text) : List Text :=
  (fields '\n' (cString (dump.take (32 * 1024 - 1)))).filter (· ≠ [])

/-- `try_ns_dhcp_resolve`, with what could be read of the dump. -/
def tryNsDhcpResolve (mac dump : Text) (outlen : Nat) : Option Text :=
  if isDhcpMac mac then
    let latest := latestHostname mac [] (dumpLines dump)
    if latest = [] then none else some (latest.take (outlen - 1))
  else none

def isLineEnd (c : Char) : Bool :=
  c == '\n' || c == '\r'

/-- `try_mdns_resolve`; a program that does not run has an exit code other than
0. -/
def tryMdnsResolve (output : Text) (rc outlen : Nat) : Option Text :=
  let out := (cString (output.take (outlen - 1))).rdropWhile isLineEnd
  if rc ≠ 0 ∨ out = [] then none else some out

/-- What there is for one lookup.  A source that is not asked is empty. -/
structure Sources where
  names : Text
  dump : Text
  /-- The entry of the cache, with the name and its source. -/
  cached : Option (Text × Text)
  oui : Option Text
  mdnsOutput : Text
  mdnsExit : Nat
deriving DecidableEq, Repr

/-- The copies of `hnc_cache_lookup`, into buffers of 64 and of 16 bytes. -/
def cacheCopy (entry : Text × Text) : Text × Text :=
  (entry.1.take (hnLen - 1), entry.2.take 15)

def Sources.lookups (sources : Sources) (mac : Text) : Lookups where
  manual := lookupManualName mac sources.names hnLen
  dhcp := tryNsDhcpResolve mac sources.dump hnLen
  cache := sources.cached.map cacheCopy
  oui := sources.oui.map (·.take (hnLen - 1))

/-! ## Names that are cut -/

/-- 63 bytes of the name are whole characters. -/
def CutsWhole (name : Text) : Prop :=
  IsUtf8 (name.take (hnLen - 1))

variable {name : Text}

theorem cutsWhole_of_short (whole : IsUtf8 name) (short : name.length ≤ 63) :
    CutsWhole name := by
  rw [CutsWhole,
    List.take_of_length_le (show name.length ≤ hnLen - 1 from short)]
  exact whole

/-- A text that needs no escape. -/
def IsPlain (bytes : Text) : Prop :=
  ∃ text, encode text = bytes ∧ escapeFree text = true

theorem isPlain_of_ascii {text : Text} (ascii : ∀ c ∈ text, c.toNat < 128)
    (free : escapeFree text = true) : IsPlain text :=
  ⟨text, encode_ascii ascii, free⟩

/-- The name in `device_names.json`, copied to a buffer that is as long as the
one for the file. -/
def uncutManualName (mac names : Text) : Text :=
  asChars (HncHelpers.lookupManualName (toBytes mac) (toBytes names) 8192).out

/-- The text behind `hostname: ` in the line whose name is kept. -/
def latestField (mac : Text) (lines : List Text) : Option Text :=
  ((lines.filter fun line => isLease mac line && leaseName line ≠ []).getLast?).map
    hostnameField

/-- Every name that a lookup can give is whole when it is cut. -/
structure Sources.Whole (sources : Sources) (mac : Text) : Prop where
  manual : CutsWhole (uncutManualName mac sources.names)
  dhcp : ∀ field, latestField mac (dumpLines sources.dump) = some field →
    CutsWhole field
  cached : ∀ entry, sources.cached = some entry → CutsWhole entry.1 ∧
    IsPlain (Source.cached (cacheCopy entry).2).text
  oui : ∀ name, sources.oui = some name → CutsWhole name

/-- What a buffer for a name holds. -/
structure IsStored (name : Text) : Prop where
  whole : IsUtf8 name
  short : name.length ≤ 63

/-- What the lookups give. -/
structure Lookups.Whole (lookups : Lookups) : Prop where
  manual : ∀ name, lookups.manual = some name → IsStored name
  dhcp : ∀ name, lookups.dhcp = some name → IsStored name
  cache : ∀ name src, lookups.cache = some (name, src) →
    IsStored name ∧ IsPlain (Source.cached src).text
  oui : ∀ name, lookups.oui = some name → IsStored name

theorem CutsWhole.isStored (whole : CutsWhole name) :
    IsStored (name.take (hnLen - 1)) :=
  ⟨whole, List.length_take_le _ _⟩

theorem copyName_take {room more : Nat} (enough : room ≤ more)
    (q : HncHelpers.Bytes) :
    HncHelpers.copyName room q = (HncHelpers.copyName more q).take room := by
  induction room generalizing more q with
  | zero => simp [HncHelpers.copyName]
  | succ room induction =>
      obtain ⟨more, rfl⟩ : ∃ n, more = n + 1 := ⟨more - 1, by omega⟩
      have rest := fun q => induction (show room ≤ more by omega) q
      cases q with
      | nil => rfl
      | cons c q =>
          simp only [HncHelpers.copyName]
          split
          · rfl
          · split
            · cases q with
              | nil => simp
              | cons d q =>
                  dsimp only
                  split
                  · rw [rest, List.take_succ_cons]
                  · rw [rest, List.take_succ_cons]
            · rw [rest, List.take_succ_cons]

/-- A shorter buffer holds the start of the name. -/
theorem lookupLoop_take {room more : Nat} (some : 0 < room)
    (enough : room ≤ more) (pattern left text : HncHelpers.Bytes) :
    HncHelpers.lookupLoop pattern room left text =
      ⟨(HncHelpers.lookupLoop pattern more left text).found,
        (HncHelpers.lookupLoop pattern more left text).out.take room⟩ := by
  induction text generalizing left with
  | nil => simp [HncHelpers.lookupLoop]
  | cons c rest induction =>
      rw [HncHelpers.lookupLoop, HncHelpers.lookupLoop]
      split
      · exact induction _
      · rename_i q _
        split
        · rw [copyName_take enough q]
          have same : ((HncHelpers.copyName more q).take room = []) ↔
              HncHelpers.copyName more q = [] := by
            simp [Nat.ne_of_gt some]
          simp only [same]
        · exact induction _

variable {mac : Text}

theorem lookupManualName_isStored {names : Text}
    (whole : CutsWhole (uncutManualName mac names))
    (found : lookupManualName mac names hnLen = some name) : IsStored name := by
  rw [lookupManualName] at found
  split at found
  · cases found
    have cut : (HncHelpers.lookupManualName (toBytes mac) (toBytes names)
        hnLen).out = (HncHelpers.lookupManualName (toBytes mac) (toBytes names)
          8192).out.take 63 := by
      rw [HncHelpers.lookupManualName, HncHelpers.lookupManualName]
      have loop := @lookupLoop_take 63 8191 (by decide) (by decide)
      rw [show (hnLen + (2 ^ 64 - 1)) % 2 ^ 64 = 63 by decide,
        show (8192 + (2 ^ 64 - 1)) % 2 ^ 64 = 8191 by decide, loop]
    rw [cut, asChars, List.map_take]
    exact whole.isStored
  · cases found

/-! ### The other names -/

theorem IsStored.rdropWhile {drop : Char → Bool} (stored : IsStored name)
    (ascii : ∀ c, drop c = true → c.toNat < 128) :
    IsStored (name.rdropWhile drop) where
  whole := stored.whole.rdropWhile ascii
  short := by
    have prefixed := List.rdropWhile_prefix drop name
    exact Nat.le_trans prefixed.length_le stored.short

theorem latestHostname_eq (mac latest : Text) (lines : List Text) :
    latestHostname mac latest lines =
      (((lines.filter fun line =>
        isLease mac line && leaseName line ≠ []).getLast?).map
          leaseName).getD latest := by
  induction lines generalizing latest with
  | nil => rfl
  | cons line lines induction =>
      rw [latestHostname, List.filter_cons]
      cases lease : isLease mac line with
      | false => simpa using induction latest
      | true =>
          rw [induction]
          by_cases empty : leaseName line = []
          · simp [empty]
          · simp only [empty, Bool.true_and, ne_eq, not_false_eq_true,
              decide_true, if_true, List.getLast?_cons]
            cases (lines.filter fun line =>
              isLease mac line && leaseName line ≠ []).getLast? <;> simp

theorem isAscii_of_isTrailingBlank (c : Char) (drops : isTrailingBlank c = true) :
    c.toNat < 128 := by
  simp only [isTrailingBlank, Bool.or_eq_true, beq_iff_eq] at drops
  rcases drops with rfl | rfl <;> decide

theorem tryNsDhcpResolve_isStored {dump : Text}
    (whole : ∀ field, latestField mac (dumpLines dump) = some field → CutsWhole field)
    (found : tryNsDhcpResolve mac dump hnLen = some name) : IsStored name := by
  rw [tryNsDhcpResolve] at found
  split at found
  · dsimp only at found
    split at found
    · cases found
    · cases found
      rw [latestHostname_eq] at *
      rw [latestField] at whole
      cases last : ((dumpLines dump).filter fun line =>
        isLease mac line && leaseName line ≠ []).getLast? with
      | none =>
          rename_i some
          rw [last] at some
          exact absurd rfl some
      | some line =>
          rw [last] at whole
          have stored := (whole _ rfl).isStored.rdropWhile
            isAscii_of_isTrailingBlank
          have short : (leaseName line).length ≤ hnLen - 1 := stored.short
          rw [Option.map_some, Option.getD_some, List.take_of_length_le short]
          exact stored
  · cases found

theorem isAscii_of_isLineEnd (c : Char) (drops : isLineEnd c = true) :
    c.toNat < 128 := by
  simp only [isLineEnd, Bool.or_eq_true, beq_iff_eq] at drops
  rcases drops with rfl | rfl <;> decide

theorem tryMdnsResolve_isStored {output : Text} {rc : Nat}
    (whole : CutsWhole output)
    (found : tryMdnsResolve output rc hnLen = some name) : IsStored name := by
  have stops : ∀ c : Char, (c != '\x00') = false → c.toNat < 128 := by
    intro c stop
    have zero : c = '\x00' := by simpa using stop
    subst zero
    decide
  rw [tryMdnsResolve] at found
  split at found
  · cases found
  · cases found
    have front : (cString (output.take (hnLen - 1))).length ≤ 63 :=
      Nat.le_trans (List.takeWhile_prefix _).length_le (List.length_take_le _ _)
    have stored : IsStored (cString (output.take (hnLen - 1))) :=
      ⟨whole.takeWhile stops, front⟩
    exact stored.rdropWhile isAscii_of_isLineEnd

theorem Sources.Whole.lookups {sources : Sources} (whole : sources.Whole mac) :
    (sources.lookups mac).Whole where
  manual := fun _ found => lookupManualName_isStored whole.manual found
  dhcp := fun _ found => tryNsDhcpResolve_isStored whole.dhcp found
  cache := by
    intro name src found
    obtain ⟨entry, cached, copied⟩ := Option.map_eq_some_iff.mp found
    obtain ⟨cuts, plain⟩ := whole.cached entry cached
    cases copied
    exact ⟨cuts.isStored, plain⟩
  oui := by
    intro name found
    obtain ⟨vendor, there, rfl⟩ := Option.map_eq_some_iff.mp found
    exact (whole.oui vendor there).isStored

/-! ## Sources in UTF-8 -/

theorem copyName_append {room : Nat} {bytes : HncHelpers.Bytes}
    (plain : ∀ b ∈ bytes, b ≠ 34 ∧ b ≠ 92) (q : HncHelpers.Bytes) :
    HncHelpers.copyName (bytes.length + room) (bytes ++ q) =
      bytes ++ HncHelpers.copyName room q := by
  induction bytes with
  | nil => simp
  | cons b bytes induction =>
      have here := plain b (by simp)
      have more : (b :: bytes).length + room = bytes.length + room + 1 := by
        simp only [List.length_cons]
        omega
      rw [more, HncHelpers.copyName.eq_def]
      simp only [if_neg here.1, if_neg here.2, List.cons_append]
      rw [induction fun other member => plain other (by simp [member])]

/-- The bytes of a character that is not ASCII are copied. -/
theorem plain_of_high {c : Char} (high : 128 ≤ c.toNat) :
    ∀ b ∈ String.utf8EncodeChar c, b ≠ 34 ∧ b ≠ 92 := by
  intro b member
  have other : ¬b.toNat < 128 := by
    intro low
    have same := (encode_of_ascii member low).2
    omega
  constructor
  · rintro rfl
    exact other (by decide)
  · rintro rfl
    exact other (by decide)

theorem asChars_cons (b : UInt8) (bytes : HncHelpers.Bytes) :
    asChars (b :: bytes) = [Char.ofNat b.toNat] ++ asChars bytes :=
  rfl

theorem copyName_isUtf8 (room : Nat) (text : Text)
    (enough : (utf8 text).length ≤ room) :
    IsUtf8 (asChars (HncHelpers.copyName room (utf8 text))) := by
  induction room using Nat.strongRecOn generalizing text with
  | ind room induction =>
  have byte {b : UInt8} (low : b.toNat < 128) {bytes : HncHelpers.Bytes}
      (rest : IsUtf8 (asChars bytes)) : IsUtf8 (asChars (b :: bytes)) := by
    rw [asChars_cons]
    refine IsUtf8.append (.of_ascii ?_) rest
    simp only [List.mem_singleton, forall_eq]
    rw [toNat_ofByte]
    exact low
  cases text with
  | nil => cases room <;> exact .of_ascii (by simp [HncHelpers.copyName, utf8, asChars])
  | cons c text =>
      by_cases ascii : c.toNat < 128
      · have single : utf8 (c :: text) = UInt8.ofNat c.toNat :: utf8 text := by
          have alone := @utf8_of_ascii [c] (by simpa using ascii)
          exact (utf8_append [c] text).trans (by rw [alone]; rfl)
        have low : (UInt8.ofNat c.toNat).toNat < 128 := by
          rw [UInt8.toNat_ofNat']
          omega
        rw [single] at enough ⊢
        obtain ⟨room, rfl⟩ : ∃ n, room = n + 1 :=
          ⟨room - 1, by simp at enough; omega⟩
        have rest : IsUtf8 (asChars (HncHelpers.copyName room (utf8 text))) := by
          apply induction room (by omega)
          simp at enough
          exact enough
        simp only [HncHelpers.copyName]
        split
        · exact .of_ascii (by simp [asChars])
        · split
          · cases behind : utf8 text with
            | nil => exact byte low (.of_ascii (by simp [asChars]))
            | cons d q =>
                dsimp only
                split
                · rename_i escaped
                  have lowNext : d.toNat < 128 := by
                    rcases escaped with rfl | rfl <;> decide
                  obtain ⟨_, _, later, _, _, _, tail⟩ :=
                    @utf8_split text [] q d behind lowNext
                  apply byte lowNext
                  rw [← tail]
                  apply induction room (by omega)
                  rw [tail]
                  rw [behind] at enough
                  simp at enough
                  omega
                · rw [← behind]
                  exact byte low rest
          · exact byte low rest
      · have plain := plain_of_high (Nat.le_of_not_lt ascii)
        have some : 0 < (String.utf8EncodeChar c).length :=
          List.length_pos_of_ne_nil String.utf8EncodeChar_ne_nil
        rw [utf8_cons] at enough ⊢
        rw [List.length_append] at enough
        obtain ⟨less, rfl⟩ : ∃ n,
            room = (String.utf8EncodeChar c).length + n :=
          ⟨room - (String.utf8EncodeChar c).length, by omega⟩
        rw [copyName_append plain, asChars, List.map_append]
        refine IsUtf8.append ⟨[c], ?_⟩ (induction less (by omega) text (by omega))
        rw [encode, utf8, List.flatMap_singleton]
        rfl

theorem lookupLoop_out {pattern : HncHelpers.Bytes} {room : Nat}
    {left text : HncHelpers.Bytes} :
    (HncHelpers.lookupLoop pattern room left text).out = [] ∨
      ∃ before behind q, text = before ++ behind ∧
        HncHelpers.matchCase pattern behind = some q ∧
        (HncHelpers.lookupLoop pattern room left text).out =
          HncHelpers.copyName room q := by
  induction text generalizing left with
  | nil => exact .inl rfl
  | cons c rest induction =>
      have later (left : HncHelpers.Bytes) :
          (HncHelpers.lookupLoop pattern room left rest).out = [] ∨
            ∃ before behind q, c :: rest = before ++ behind ∧
              HncHelpers.matchCase pattern behind = some q ∧
              (HncHelpers.lookupLoop pattern room left rest).out =
                HncHelpers.copyName room q := by
        rcases @induction left with none | ⟨before, behind, q, split, hit, out⟩
        · exact .inl none
        · exact .inr ⟨c :: before, behind, q, by rw [split]; rfl, hit, out⟩
      rw [HncHelpers.lookupLoop]
      split
      · exact later _
      · rename_i q hit
        split
        · exact .inr ⟨[], c :: rest, q, rfl, hit, rfl⟩
        · exact later _

theorem eq_quote_of_toLower (b : UInt8)
    (lowered : HncHelpers.toLower b = HncHelpers.toLower 34) : b = 34 := by
  rw [show HncHelpers.toLower 34 = 34 by decide, HncHelpers.toLower] at lowered
  split at lowered
  · rename_i upper
    rw [UInt8.le_iff_toNat_le, UInt8.le_iff_toNat_le] at upper
    have sum := congrArg UInt8.toNat lowered
    simp at upper sum
    omega
  · exact lowered

theorem behind_quote {mac behind q : HncHelpers.Bytes}
    (hit : HncHelpers.matchCase (34 :: mac ++ [34, 58, 34]) behind = some q) :
    ∃ start, behind = start ++ 34 :: q := by
  obtain ⟨front, rfl, lowered⟩ := HncHelpers.matchCase_some hit
  have ends : (34 :: mac ++ [34, 58, 34] : HncHelpers.Bytes) =
      (34 :: mac ++ [34, 58]) ++ [34] := by simp
  rw [ends, List.map_append] at lowered
  obtain ⟨start, last, rfl, _, same⟩ := List.map_eq_append_iff.mp lowered
  obtain ⟨b, none, rfl, quote, empty⟩ := List.map_eq_cons_iff.mp same
  have nil : none = [] := List.map_eq_nil_iff.mp empty
  subst nil
  have byte := eq_quote_of_toLower b quote
  subst byte
  exact ⟨start, by simp⟩

/-- The buffer up to a NUL is the start of the file. -/
theorem exists_utf8_takeWhile (file : Text) :
    ∃ front, utf8 front = (utf8 file).takeWhile (· ≠ 0) := by
  have split := List.takeWhile_append_dropWhile (p := fun b : UInt8 => b ≠ 0)
    (l := utf8 file)
  cases rest : (utf8 file).dropWhile (· ≠ 0) with
  | nil =>
      rw [rest, List.append_nil] at split
      exact ⟨file, split.symm⟩
  | cons b tail =>
      rw [rest] at split
      have zero : b = 0 := by
        have head := List.head?_dropWhile_not (fun b : UInt8 => b ≠ 0)
          (utf8 file)
        rw [rest] at head
        simpa using head
      subst zero
      obtain ⟨front, _, _, _, same, _, _⟩ := utf8_split split.symm (by decide)
      exact ⟨front, same⟩

theorem uncutManualName_isUtf8 {names : Text} (whole : IsUtf8 names)
    (fits : names.length ≤ 8191) (short : mac.length ≤ 27) :
    IsUtf8 (uncutManualName mac names) := by
  obtain ⟨file, rfl⟩ := whole
  have bytes : toBytes (encode file) = utf8 file := toBytes_asChars _
  have length : (utf8 file).length ≤ 8191 := by
    rw [encode, asChars, List.length_map] at fits
    exact fits
  have pattern : (34 :: toBytes mac ++ [34, 58, 34]).take 31 =
      34 :: toBytes mac ++ [34, 58, 34] :=
    List.take_of_length_le (by simp [toBytes]; omega)
  rw [uncutManualName, HncHelpers.lookupManualName, bytes, pattern,
    List.take_of_length_le length,
    show (8192 + (2 ^ 64 - 1)) % 2 ^ 64 = 8191 by decide]
  obtain ⟨front, buf⟩ := exists_utf8_takeWhile file
  rw [← buf]
  rcases @lookupLoop_out (34 :: toBytes mac ++ [34, 58, 34]) 8191 []
    (utf8 front) with none | ⟨before, behind, q, split, hit, out⟩
  · rw [none]
    exact .of_ascii (by simp [asChars])
  · rw [out]
    obtain ⟨start, rfl⟩ := behind_quote hit
    have whole : utf8 front = (before ++ start) ++ 34 :: q := by
      rw [split]
      simp
    obtain ⟨_, _, rest, _, _, _, rfl⟩ := utf8_split whole (by decide)
    apply copyName_isUtf8
    have total := congrArg List.length whole
    have less : (utf8 front).length ≤ (utf8 file).length := by
      rw [buf]
      exact (List.takeWhile_prefix _).length_le
    simp only [List.length_append, List.length_cons] at total
    omega

theorem hostnameField_isUtf8 {line : Text} (whole : IsUtf8 line) :
    IsUtf8 (hostnameField line) := by
  rw [hostnameField]
  cases search : strstr line "hostname: ".toList with
  | none => exact .of_ascii (by simp)
  | some p =>
      obtain ⟨left, rest, rfl, rfl⟩ := strstr_eq_some search
      have split : left ++ ("hostname: ".toList ++ rest) =
          (left ++ "hostname:".toList) ++ ' ' :: rest := by simp
      have behind : ("hostname: ".toList ++ rest).drop 10 = rest := rfl
      rw [split] at whole
      dsimp only
      refine (whole.right_of (by decide)).takeWhile fun c stop => ?_
      simp only [Bool.and_eq_false_iff, bne_eq_false_iff_eq] at stop
      rcases stop with rfl | rfl <;> decide

theorem latestField_isUtf8 {dump field : Text} (whole : IsUtf8 dump)
    (fits : dump.length ≤ 32767)
    (found : latestField mac (dumpLines dump) = some field) : IsUtf8 field := by
  obtain ⟨line, last, rfl⟩ := Option.map_eq_some_iff.mp found
  have listed := (List.mem_filter.mp (List.mem_of_getLast? last)).1
  have inDump := (List.mem_filter.mp listed).1
  rw [List.take_of_length_le fits] at inDump
  apply hostnameField_isUtf8
  refine IsUtf8.fields (by decide) (whole.takeWhile fun c stop => ?_) line inDump
  have zero : c = '\x00' := by simpa using stop
  subst zero
  decide

theorem Sources.whole_of_short {sources : Sources} (address : mac.length ≤ 27)
    (names : IsUtf8 sources.names ∧ sources.names.length ≤ 8191)
    (dump : IsUtf8 sources.dump ∧ sources.dump.length ≤ 32767)
    (manual : (uncutManualName mac sources.names).length ≤ 63)
    (dhcp : ∀ field, latestField mac (dumpLines sources.dump) = some field → field.length ≤ 63)
    (cached : ∀ entry, sources.cached = some entry → IsStored entry.1 ∧ (entry.2 = "dhcp".toList ∨ entry.2 = "mdns".toList))
    (oui : ∀ name, sources.oui = some name → IsStored name) :
    sources.Whole mac where
  manual := cutsWhole_of_short
    (uncutManualName_isUtf8 names.1 names.2 address) manual
  dhcp := fun field found =>
    cutsWhole_of_short (latestField_isUtf8 dump.1 dump.2 found)
      (dhcp field found)
  cached := by
    intro entry found
    obtain ⟨stored, label⟩ := cached entry found
    refine ⟨cutsWhole_of_short stored.whole stored.short, ?_⟩
    have ascii : ("cache-dhcp".toList.all fun c => decide (c.toNat < 128)) =
        true ∧ ("cache-mdns".toList.all fun c => decide (c.toNat < 128)) =
        true := by decide
    simp only [List.all_eq_true, decide_eq_true_eq] at ascii
    rcases label with same | same
    · rw [cacheCopy, same]
      exact @isPlain_of_ascii "cache-dhcp".toList ascii.1 (by decide)
    · rw [cacheCopy, same]
      exact @isPlain_of_ascii "cache-mdns".toList ascii.2 (by decide)
  oui := fun name found =>
    cutsWhole_of_short (oui name found).whole (oui name found).short

end Hnc.Hotspotd
