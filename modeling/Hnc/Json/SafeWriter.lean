import Hnc.Lib.Posix

/-!
# The state-machine writers of `bin/json_set.sh`

These programs find a key by walking over the whole file with a bracket depth
and looking only at strings between two positions.  Positions are texts, as in
`Hnc.Json.HncJson`; `start <= i && i <= stop` compares lengths.
-/

namespace Hnc.SafeWriter

open Posix

def skipws (i : Text) : Text :=
  i.dropWhile isWs

/-- `strend`, behind the opening quote: the raw characters of the string and
the text behind its closing quote. -/
def strend (esc : Bool) : Text → Option (Text × Text)
  | [] => none
  | c :: rest =>
      if esc then
        (strend false rest).map fun (raw, after) => (c :: raw, after)
      else if c = '\\' then
        (strend true rest).map fun (raw, after) => (c :: raw, after)
      else if c = '"' then some ([], rest)
      else (strend false rest).map fun (raw, after) => (c :: raw, after)

/-- `objend`: the text behind the brace that closes the object. -/
def objend (depth : Nat) : Nat → Text → Option Text
  | 0, _ => none
  | _, [] => none
  | fuel + 1, c :: rest =>
      if c = '"' then
        match strend false rest with
        | none => none
        | some (_, after) => objend depth fuel after
      else if c = '{' then objend (depth + 1) fuel rest
      else if c = '}' then
        if depth = 1 then some rest else objend (depth - 1) fuel rest
      else objend depth fuel rest

/-- The bracket loop of `valend`, which counts one kind of bracket. -/
def pairEnd (opn clos : Char) (depth : Nat) : Nat → Text → Text
  | 0, _ => []
  | _, [] => []
  | fuel + 1, c :: rest =>
      if c = '"' then
        match strend false rest with
        | none => []
        | some (_, after) => pairEnd opn clos depth fuel after
      else if c = opn then pairEnd opn clos (depth + 1) fuel rest
      else if c = clos then
        if depth = 1 then rest else pairEnd opn clos (depth - 1) fuel rest
      else pairEnd opn clos depth fuel rest

/-- Where a number or a literal stops; the white space behind it is part of
it. -/
def endsBare (c : Char) : Bool :=
  c == ',' || c == '}' || c == ']'

def valend (i : Text) : Text :=
  match skipws i with
  | [] => []
  | c :: rest =>
      if c = '"' then ((strend false rest).map Prod.snd).getD []
      else if c = '{' then pairEnd '{' '}' 0 (c :: rest).length (c :: rest)
      else if c = '[' then pairEnd '[' ']' 0 (c :: rest).length (c :: rest)
      else (c :: rest).dropWhile fun d => !endsBare d

/-- The three positions `findkey` leaves behind. -/
structure Found where
  fk : Text
  fs : Text
  fe : Text
deriving DecidableEq

def findkeyLoop (key : Text) (target : Int) (start stop : Text) (depth : Int) :
    Nat → Text → Option Found
  | 0, _ => none
  | _, [] => none
  | fuel + 1, c :: rest =>
      if c = '"' then
        match strend false rest with
        | none => none
        | some (k, se) =>
            if (c :: rest).length ≤ start.length ∧
                stop.length ≤ (c :: rest).length ∧ depth = target ∧
                (skipws se).head? = some ':' ∧ k = key then
              let fs := skipws (skipws se).tail
              some ⟨c :: rest, fs, valend fs⟩
            else findkeyLoop key target start stop depth fuel se
      else if c = '{' ∨ c = '[' then
        findkeyLoop key target start stop (depth + 1) fuel rest
      else if c = '}' ∨ c = ']' then
        findkeyLoop key target start stop (depth - 1) fuel rest
      else findkeyLoop key target start stop depth fuel rest

/-- `findkey(key, target, start, stop)` on the whole string `s`. -/
def findkey (s key : Text) (target : Int) (start stop : Text) : Option Found :=
  findkeyLoop key target start stop 0 s.length s

/-- The comma put behind a member that is inserted in front of `behind`. -/
def comma (behind : Text) : Text :=
  if (skipws behind).head? = some '}' then [] else [',']

/-- Insert `entry` right behind the opening brace at `brace`. -/
def insertFront (s brace entry : Text) : Text :=
  upTo s brace ++ '{' :: entry ++ comma brace.tail ++ brace.tail

/-- `index(s, "{")`. -/
def firstBrace (s : Text) : Option Text :=
  match s.dropWhile (· != '{') with
  | [] => none
  | brace => some brace

/-- A member as these writers write it: the key is not escaped. -/
def entry (key val : Text) : Text :=
  '"' :: key ++ "\": ".toList ++ val

/-- The end of the position range of an object: the brace before `after`. -/
def braceBefore (s after : Text) : Text :=
  s.drop (s.length - (after.length + 1))

/-- The program of `json_update_device_safe`. -/
def updateDevice (mac field val content : Text) : Except Nat Text :=
  let s := chomp (slurp content)
  let object := fun key val => '{' :: entry key val ++ ['}']
  let insertDevices :=
    match firstBrace s with
    | none => .error 1
    | some p =>
        let newdev := entry "devices".toList (object mac (object field val))
        .ok (insertFront s p newdev ++ ['\n'])
  match findkey s "devices".toList 1 s [] with
  | none => insertDevices
  | some devices =>
      if devices.fs.head? = some '{' then
        match objend 0 devices.fs.length devices.fs with
        | none => .error 1
        | some devEnd =>
            let insertDevice :=
              .ok (insertFront s devices.fs (entry mac (object field val)) ++
                ['\n'])
            match findkey s mac 2 devices.fs (braceBefore s devEnd) with
            | none => insertDevice
            | some device =>
                if device.fs.head? = some '{' then
                  match objend 0 device.fs.length device.fs with
                  | none => .error 1
                  | some macEnd =>
                      match findkey s field 3 device.fs (braceBefore s macEnd) with
                      | some found =>
                          .ok (upTo s found.fs ++ val ++ found.fe ++ ['\n'])
                      | none =>
                          .ok (insertFront s device.fs (entry field val) ++
                            ['\n'])
                else insertDevice
      else insertDevices

/-- Remove the member between `found.fk` and `found.fe` with one of the commas
next to it. -/
def removeFound (s : Text) (found : Found) : Text :=
  let before := ((upTo s found.fk).reverse.dropWhile isWs).reverse
  if (skipws found.fe).head? = some ',' then
    upTo s found.fk ++ (skipws found.fe).tail
  else if before.getLast? = some ',' then before.dropLast ++ found.fe
  else upTo s found.fk ++ found.fe

/-- The program of `json_remove_device_safe`. -/
def removeDevice (mac content : Text) : Except Nat Text :=
  let s := chomp (slurp content)
  match findkey s "devices".toList 1 s [] with
  | none => .ok (s ++ ['\n'])
  | some devices =>
      if devices.fs.head? = some '{' then
        match findkey s mac 2 devices.fs (braceBefore s devices.fe) with
        | none => .ok (s ++ ['\n'])
        | some found => .ok (removeFound s found ++ ['\n'])
      else .ok (s ++ ['\n'])

/-- The program of `json_update_top_safe`. -/
def updateTop (field val content : Text) : Except Nat Text :=
  let s := chomp (slurp content)
  match findkey s field 1 s [] with
  | some found => .ok (upTo s found.fs ++ val ++ found.fe ++ ['\n'])
  | none =>
      match firstBrace s with
      | none => .error 1
      | some p => .ok (insertFront s p (entry field val) ++ ['\n'])

/-- The program of `json_object_set_safe_file`. -/
def objectSet (key val content : Text) : Except Nat Text :=
  let read := chomp (slurp content)
  let s := if read = [] then ['{', '}'] else read
  match findkey s key 1 s [] with
  | some found => .ok (upTo s found.fs ++ val ++ found.fe ++ ['\n'])
  | none =>
      match firstBrace s with
      | none => .error 1
      | some p => .ok (insertFront s p (entry key val) ++ ['\n'])

/-- The program of `json_object_del_safe_file`. -/
def objectDel (key content : Text) : Except Nat Text :=
  let s := chomp (slurp content)
  match findkey s key 1 s [] with
  | none => .ok (s ++ ['\n'])
  | some found => .ok (removeFound s found ++ ['\n'])

/-- The tokens that the element loops of the array programs visit between `a`
and the closing bracket `b`. -/
def elementsLoop (b : Text) : Nat → Text → List Text
  | 0, _ => []
  | fuel + 1, i =>
      if b.length < i.length then
        let ve := valend i
        let next := skipws ve
        let i' := if next.head? = some ',' then skipws next.tail else next
        upTo i ve :: elementsLoop b fuel i'
      else []

/-- The program of `json_array_add_string_top_safe`. -/
def arrayAdd (field val content : Text) : Except Nat Text :=
  let s := chomp (slurp content)
  let insertField :=
    match firstBrace s with
    | none => .error 1
    | some p =>
        .ok (insertFront s p (entry field ('[' :: val ++ [']'])) ++ ['\n'])
  match findkey s field 1 s [] with
  | none => insertField
  | some found =>
      if found.fs.head? = some '[' then
        let a := found.fs
        let b := braceBefore s found.fe
        let tokens := elementsLoop b s.length (skipws a.tail)
        if val ∈ tokens then .ok (s ++ ['\n'])
        else if (skipws a.tail).head? = some ']' then
          .ok (upTo s a ++ '[' :: val ++ b ++ ['\n'])
        else .ok (upTo s b ++ ',' :: val ++ b ++ ['\n'])
      else insertField

/-- The program of `json_array_del_string_top_safe`. -/
def arrayDel (field val content : Text) : Except Nat Text :=
  let s := chomp (slurp content)
  match findkey s field 1 s [] with
  | none => .ok (s ++ ['\n'])
  | some found =>
      if found.fs.head? = some '[' then
        let a := found.fs
        let b := braceBefore s found.fe
        let tokens := elementsLoop b s.length (skipws a.tail)
        let out := List.intercalate [','] (tokens.filter (· ≠ val))
        .ok (upTo s a ++ '[' :: out ++ b ++ ['\n'])
      else .ok (s ++ ['\n'])

end Hnc.SafeWriter
