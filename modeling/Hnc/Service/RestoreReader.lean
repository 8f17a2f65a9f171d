import Hnc.Net.Tables

/-!
# How `restore_rules` reads the JSON files

`tc_manager.sh restore` does not parse JSON.  A first awk program collects the
hardware addresses below `devices`, a second one looks for the fields of one
address on the lines of the file, and `grep -o` cuts out the blacklist.
-/

namespace Hnc.TcManager

open Posix

def isHexDigit (c : Char) : Bool :=
  isDigit c || ('a'.toNat ≤ c.toNat && c.toNat ≤ 'f'.toNat) ||
    ('A'.toNat ≤ c.toNat && c.toNat ≤ 'F'.toNat)

/-- `tolower`. -/
def toLower (c : Char) : Char :=
  if 'A'.toNat ≤ c.toNat ∧ c.toNat ≤ 'Z'.toNat then Char.ofNat (c.toNat + 32)
  else c

/-- The pattern `(hex{2}:){5}hex{2}` for a class of digits. -/
def isMacText (hex : Char → Bool) : Text → Bool
  | [a, b, s, c, d, t, e, f, u, g, h, v, i, j, w, k, l] =>
      [a, b, c, d, e, f, g, h, i, j, k, l].all hex &&
        [s, t, u, v, w].all (· == ':')
  | _ => false

/-- The variables that outlive a line. -/
structure MacScan where
  inDevices : Bool
  depth : Nat
  inString : Bool

/-- `^"([0-9a-fA-F]{2}:){5}[0-9a-fA-F]{2}"[[:space:]]*:` with the address it
names. -/
def macKey (text : Text) : Option Text :=
  let mac := (text.drop 1).take 17
  if isMacText isHexDigit mac ∧ (afterKey mac text).isSome then
    some (mac.map toLower)
  else none

/-- `{` behind the key `devices`. -/
def devicesOpen (text : Text) : Option Text :=
  (afterKey "devices".toList text).bind (after? ['{'])

/-- The character loop of the first pass on the rest of a line, with the
addresses it prints. -/
@[grind] def macsLine : Nat → MacScan → Text → MacScan × List Text
  | 0, scan, _ => (scan, [])
  | _, scan, [] => (scan, [])
  | fuel + 1, scan, c :: rest =>
      if !scan.inDevices then
        match devicesOpen (c :: rest) with
        | some behind => macsLine fuel ⟨true, 1, false⟩ behind
        | none => macsLine fuel scan rest
      else if scan.inString then
        if c = '\\' then macsLine fuel scan rest.tail
        else macsLine fuel { scan with inString := c ≠ '"' } rest
      else if c = '"' then
        let (after, macs) := macsLine fuel { scan with inString := true } rest
        (after, (macKey (c :: rest)).toList ++ macs)
      else if c = '{' then
        macsLine fuel { scan with depth := scan.depth + 1 } rest
      else if c = '}' then
        macsLine fuel ⟨scan.depth ≠ 1, scan.depth - 1, false⟩ rest
      else macsLine fuel scan rest

def macsLines (scan : MacScan) : List Text → List Text
  | [] => []
  | line :: rest =>
      let (after, macs) := macsLine line.length scan line
      macs ++ macsLines after rest

/-- Insertion into a sorted list without repetition, for `sort -u`. -/
def insertSorted (mac : Text) : List Text → List Text
  | [] => [mac]
  | other :: rest =>
      if mac = other then other :: rest
      else if mac < other then mac :: other :: rest
      else other :: insertSorted mac rest

/-- The value of `macs`. -/
def deviceMacs (rules : Text) : List Text :=
  (macsLines ⟨false, 0, false⟩ (records rules)).foldr insertSorted []

/-- One printed line of the second pass. -/
structure FieldRecord where
  markId : Text
  ip : Text
  down : Text
  up : Text
  delay : Text
  jitter : Text
  loss : Text
deriving DecidableEq, Repr

/-- `block`: the text up to the brace that closes the object.  When the line
ends first, its last character is cut off, unless that is a backslash inside a
string, behind which the loop makes one more step. -/
@[grind] def block (depth : Nat) (inString esc : Bool) : Text → Text
  | [] => []
  | c :: rest =>
      if esc then cut c false rest (block depth true false rest)
      else if inString then
        if c = '\\' then cut c true rest (block depth true true rest)
        else cut c false rest (block depth (c ≠ '"') false rest)
      else if c = '"' then cut c false rest (block depth true false rest)
      else if c = '{' then cut c false rest (block (depth + 1) false false rest)
      else if c = '}' then
        if depth = 1 then []
        else cut c false rest (block (depth - 1) false false rest)
      else cut c false rest (block depth false false rest)
where
  cut (c : Char) (kept : Bool) (rest passed : Text) : Text :=
    if rest = [] ∧ ¬kept then [] else c :: passed

/-- `"ip"[[:space:]]*:[[:space:]]*"[^"]*"` after the two substitutions: a colon
at the end of the value makes the first one remove it. -/
def ipValue (part : Text) : Option Text :=
  (matchKey "ip".toList (quoted (· != '"')) part).map fun value =>
    if (value.reverse.dropWhile isSpace).head? = some ':' then [] else value

/-- The chain of `else if` on one part of the block. -/
def readPart (fields : FieldRecord) (part : Text) : FieldRecord :=
  match matchKey "mark_id".toList (run isDigit) part with
  | some value => { fields with markId := value }
  | none =>
    match ipValue part with
    | some value => { fields with ip := value }
    | none =>
      match matchKey "down_mbps".toList (run isNumberChar) part with
      | some value => { fields with down := value }
      | none =>
        match matchKey "up_mbps".toList (run isNumberChar) part with
        | some value => { fields with up := value }
        | none =>
          match matchKey "delay_ms".toList (run isNumberChar) part with
          | some value => { fields with delay := value }
          | none =>
            match matchKey "jitter_ms".toList (run isNumberChar) part with
            | some value => { fields with jitter := value }
            | none =>
              match matchKey "loss_pct".toList (run isNumberChar) part with
              | some value => { fields with loss := value }
              | none => fields

def noFields : FieldRecord :=
  ⟨[], [], ['0'], ['0'], ['0'], ['0'], ['0']⟩

/-- The parts of a block; `split` of the empty text gives none. -/
def parts (text : Text) : List Text :=
  if text = [] then [] else fields ',' text

/-- What the second pass reads on one line. -/
def readLine (mac line : Text) : Option FieldRecord :=
  match matchKey mac (after? ['{']) line with
  | none => none
  | some behind =>
      let read := (parts (block 1 false false behind)).foldl readPart noFields
      if read.markId = [] then none else some read

/-- The line the second pass prints for an address. -/
def fieldRecord (rules mac : Text) : Option FieldRecord :=
  (records rules).findSome? (readLine mac)

/-- `get_current_ip` and `get_ip`: the first address behind the quoted hardware
address on one line. -/
def liveIp (devices : Option Text) (mac : Text) : Text :=
  match devices with
  | none => []
  | some text =>
      ((records text).findSome? fun line =>
        (tailFrom ('"' :: mac ++ ['"']) line).bind fun tail =>
          matchKey "ip".toList (fun value =>
            (quoted isNumberChar value).filter (· ≠ [])) tail).getD []

/-- All matches of `"blacklist"[[:space:]]*:[[:space:]]*\[[^]]*\]` on a line,
without the part up to the bracket. -/
def blacklistSegments : Nat → Text → List Text
  | 0, _ => []
  | _, [] => []
  | fuel + 1, c :: rest =>
      match (afterKey "blacklist".toList (c :: rest)).bind (after? ['[']) with
      | none => blacklistSegments fuel rest
      | some inner =>
          match inner.dropWhile (· != ']') with
          | [] => blacklistSegments fuel rest
          | _ :: behind =>
              inner.takeWhile (· != ']') :: blacklistSegments fuel behind

/-- `grep -oE '([0-9a-f]{2}:){5}[0-9a-f]{2}'`. -/
def macMatches : Nat → Text → List Text
  | 0, _ => []
  | _, [] => []
  | fuel + 1, c :: rest =>
      let mac := (c :: rest).take 17
      if isMacText isLowerHex mac then
        mac :: macMatches fuel ((c :: rest).drop 17)
      else macMatches fuel rest

/-- The addresses of the blacklist loop. -/
def blacklistMacs (rules : Text) : List Text :=
  (records rules).flatMap fun line =>
    (blacklistSegments line.length line).flatMap fun segment =>
      macMatches segment.length segment

end Hnc.TcManager
