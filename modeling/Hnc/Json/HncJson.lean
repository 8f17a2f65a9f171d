import Hnc.Lib.Posix

/-!
# The awk programs of `bin/hnc_json`

Every program reads the whole file into one string and walks over it with a
cursor.  A position `i` of the awk string is kept as the text from `i` on:
`ch(i)` is the head of that text, `i < j` says that the text of `j` is the
shorter one, and `substr(s, 1, i - 1)` is `upTo s i`.  Loops that jump over
whole values run on fuel equal to the length of the text they still have to
read, which every round shortens.

A program answers with what it prints, or with its exit code.
-/

namespace Hnc.HncJson

open Posix

def skipWs (i : Text) : Text :=
  i.dropWhile isWs

/-- The loop of `parse_string`: the decoded string and the text behind its
closing quote.  An escape contributes the character after the backslash. -/
def stringRest (esc : Bool) : Text → Option (Text × Text)
  | [] => none
  | c :: rest =>
      if esc then
        (stringRest false rest).map fun (out, after) => (c :: out, after)
      else if c = '\\' then stringRest true rest
      else if c = '"' then some ([], rest)
      else (stringRest false rest).map fun (out, after) => (c :: out, after)

def parseString : Text → Option (Text × Text)
  | [] => none
  | c :: rest => if c = '"' then stringRest false rest else none

/-- The bracket loop of `value_end`. -/
def bracketEnd (depth : Nat) (ins esc : Bool) : Text → Text
  | [] => []
  | c :: rest =>
      if ins then
        if esc then bracketEnd depth true false rest
        else if c = '\\' then bracketEnd depth true true rest
        else if c = '"' then bracketEnd depth false false rest
        else bracketEnd depth true false rest
      else if c = '"' then bracketEnd depth true false rest
      else if c = '{' ∨ c = '[' then bracketEnd (depth + 1) false false rest
      else if c = '}' ∨ c = ']' then
        match depth with
        | 0 => c :: rest
        | 1 => rest
        | below + 2 => bracketEnd (below + 1) false false rest
      else bracketEnd depth false false rest

/-- Where a number or a literal stops: `c=="," || c=="}" || c=="]"` or white
space. -/
def endsScalar (c : Char) : Bool :=
  c == ',' || c == '}' || c == ']' || isWs c

/-- `value_end` of the device programs and of `del_object_key_inner`. -/
def valueEnd (i : Text) : Text :=
  match skipWs i with
  | [] => []
  | c :: rest =>
      if c = '"' then ((parseString (c :: rest)).map Prod.snd).getD []
      else if c = '{' ∨ c = '[' then bracketEnd 0 false false (c :: rest)
      else (c :: rest).dropWhile fun d => !endsScalar d

/-- The three positions `find_key` leaves behind. -/
structure Found where
  fk : Text
  fs : Text
  fe : Text
deriving DecidableEq

def findKeyLoop (oe target : Text) : Nat → Text → Option Found
  | 0, _ => none
  | fuel + 1, i =>
      if oe.length < i.length then
        match skipWs i with
        | [] => none
        | c :: rest =>
            if c = ',' then findKeyLoop oe target fuel rest
            else match parseString (c :: rest) with
              | none => none
              | some (k, ni) =>
                  match skipWs ni with
                  | [] => none
                  | colon :: value =>
                      if colon = ':' then
                        if k = target then
                          some ⟨c :: rest, skipWs value,
                            valueEnd (skipWs value)⟩
                        else
                          findKeyLoop oe target fuel (valueEnd (skipWs value))
                      else none
      else none

/-- `find_key(os, oe, target)`: the member named `target` of the object that
opens at `os` and ends before `oe`. -/
def findKey (os oe target : Text) : Option Found :=
  findKeyLoop oe target os.length (skipWs os.tail)

/-- `find_key` behind the tests `ch(...) != "{"`: the member of the object
that opens at `start`. -/
def memberOf (start stop target : Text) : Option Found :=
  if start.head? = some '{' then findKey start stop target else none

def escKey (x : Text) : Text :=
  x.flatMap fun c =>
    if c = '\\' then ['\\', '\\'] else if c = '"' then ['\\', '"'] else [c]

/-- A member as `object_insert` writes it. -/
def newMember (k val : Text) : Text :=
  '"' :: escKey k ++ "\": ".toList ++ val

def isBlank (text : Text) : Bool :=
  text.all isWs

/-- `object_insert(obj_start, obj_end_excl, k, val)`: the text of the object
between its braces decides the separator, and the member goes before the
closing brace. -/
def objectInsert (s objStart objEnd k val : Text) : Text :=
  let close := s.drop (s.length - (objEnd.length + 1))
  let inner := upTo objStart.tail close
  let sep := if isBlank inner then "\n  ".toList else ",\n  ".toList
  upTo s close ++ sep ++ newMember k val ++ close

/-- `get_device`, after validation. -/
def getDeviceInner (mac key content : Text) : Except Nat Text :=
  let s := slurp content
  let root := skipWs s
  if root.head? = some '{' then
    match findKey root (valueEnd root) "devices".toList with
    | none => .error 3
    | some devices =>
        match memberOf devices.fs devices.fe mac with
        | none => .error 3
        | some device =>
            match memberOf device.fs device.fe key with
            | none => .error 3
            | some field => .ok (trimWs (upTo field.fs field.fe) ++ ['\n'])
  else .error 2

/-- `set_device_inner`. -/
def setDeviceInner (mac key lit content : Text) : Except Nat Text :=
  let s := chomp (slurp content)
  let root := skipWs s
  if root.head? = some '{' then
    match findKey root (valueEnd root) "devices".toList with
    | none => .error 3
    | some devices =>
        if devices.fs.head? = some '{' then
          match findKey devices.fs devices.fe mac with
          | none =>
              let newdev := '{' :: newMember key lit ++ ['}']
              .ok (objectInsert s devices.fs devices.fe mac newdev ++ ['\n'])
          | some device =>
              if device.fs.head? = some '{' then
                match findKey device.fs device.fe key with
                | some field =>
                    .ok (upTo s field.fs ++ lit ++ field.fe ++ ['\n'])
                | none =>
                    .ok (objectInsert s device.fs device.fe key lit ++ ['\n'])
              else .error 3
        else .error 3
  else .error 2

/-- `value_end` of `get_top` and `set_top_inner`: stops at the comma or the
bracket that ends the member, so the white space before it belongs to the
value. -/
def topValueEnd (ins e : Bool) (dep : Nat) : Text → Text
  | [] => []
  | c :: rest =>
      if ins then
        if e then topValueEnd true false dep rest
        else if c = '\\' then topValueEnd true true dep rest
        else if c = '"' then topValueEnd false false dep rest
        else topValueEnd true false dep rest
      else if c = '"' then topValueEnd true false dep rest
      else if c = '{' ∨ c = '[' then topValueEnd false false (dep + 1) rest
      else if c = '}' ∨ c = ']' then
        match dep with
        | 0 => c :: rest
        | below + 1 => topValueEnd false false below rest
      else if c = ',' ∧ dep = 0 then c :: rest
      else topValueEnd false false dep rest

def getTopLoop (key : Text) : Nat → Text → Except Nat Text
  | 0, _ => .error 3
  | fuel + 1, i =>
      if i = [] then .error 3
      else match skipWs i with
        | [] => .error 2
        | c :: rest =>
            if c = '}' then .error 3
            else if c = ',' then getTopLoop key fuel rest
            else match parseString (c :: rest) with
              | none => .error 2
              | some (k, ni) =>
                  match skipWs ni with
                  | [] => .error 2
                  | colon :: value =>
                      if colon = ':' then
                        let start := skipWs value
                        let stop := topValueEnd false false 0 start
                        if k = key then .ok (trimWs (upTo start stop) ++ ['\n'])
                        else getTopLoop key fuel stop
                      else .error 2

/-- `get_top`, after validation. -/
def getTopInner (key content : Text) : Except Nat Text :=
  match skipWs (slurp content) with
  | [] => .error 2
  | c :: rest =>
      if c = '{' then getTopLoop key rest.length rest else .error 2

/-- The scan of `set_top_inner` for the brace that closes the root object. -/
def lastClose (depth : Nat) (ins e : Bool) : Text → Option Text
  | [] => none
  | c :: rest =>
      if ins then
        if e then lastClose depth true false rest
        else if c = '\\' then lastClose depth true true rest
        else if c = '"' then lastClose depth false false rest
        else lastClose depth true false rest
      else if c = '"' then lastClose depth true false rest
      else if c = '{' then lastClose (depth + 1) false false rest
      else if c = '}' then
        if depth = 1 then some (c :: rest)
        else lastClose (depth - 1) false false rest
      else lastClose depth false false rest

/-- What the member loop of `set_top_inner` comes to. -/
inductive TopSearch where
  | found (valStart stop : Text)
  | absent
  | failed

def setTopLoop (key close : Text) : Nat → Text → TopSearch
  | 0, _ => .absent
  | fuel + 1, i =>
      if close.length < i.length then
        match skipWs i with
        | [] => .failed
        | c :: rest =>
            if c = ',' then setTopLoop key close fuel rest
            else if c = '}' then .absent
            else match parseString (c :: rest) with
              | none => .failed
              | some (k, ni) =>
                  match skipWs ni with
                  | [] => .failed
                  | colon :: value =>
                      if colon = ':' then
                        let valStart := skipWs value
                        let stop := topValueEnd false false 0 valStart
                        if k = key then .found valStart stop
                        else setTopLoop key close fuel stop
                      else .failed
      else .absent

/-- `set_top_inner`. -/
def setTopInner (key lit content : Text) : Except Nat Text :=
  let s := slurp content
  match skipWs s with
  | [] => .ok ('{' :: "\n  ".toList ++ newMember key lit ++ ['\n', '}', '\n'])
  | c :: rest =>
      if c = '{' then
        match lastClose 0 false false (c :: rest) with
        | none => .error 2
        | some close =>
            match setTopLoop key close rest.length rest with
            | .failed => .error 2
            | .found valStart stop =>
                .ok (upTo s valStart ++ lit ++ stop ++ ['\n'])
            | .absent =>
                let inner := upTo rest close
                let sep :=
                  if isBlank inner then "\n  ".toList else ",\n  ".toList
                .ok (upTo s close ++ sep ++ newMember key lit ++ close ++ ['\n'])
      else .error 2

/-- `prev_non_ws`: the text up to and including the last character that is no
white space. -/
def prevNonWs (before : Text) : Text :=
  (before.reverse.dropWhile isWs).reverse

/-- `del_object_key_inner`. -/
def delObjectKeyInner (key content : Text) : Except Nat Text :=
  let s := chomp (slurp content)
  match skipWs s with
  | [] => .ok ['{', '}', '\n']
  | c :: rest =>
      if c = '{' then
        match findKey (c :: rest) (valueEnd (c :: rest)) key with
        | none => .ok (s ++ ['\n'])
        | some found =>
            let before := prevNonWs (upTo s found.fk)
            match skipWs found.fe with
            | d :: behind =>
                if d = ',' then .ok (upTo s found.fk ++ behind ++ ['\n'])
                else if before.getLast? = some ',' then
                  .ok (before.dropLast ++ found.fe ++ ['\n'])
                else .ok (upTo s found.fk ++ found.fe ++ ['\n'])
            | [] =>
                if before.getLast? = some ',' then
                  .ok (before.dropLast ++ found.fe ++ ['\n'])
                else .ok (upTo s found.fk ++ found.fe ++ ['\n'])
      else .error 2

end Hnc.HncJson
