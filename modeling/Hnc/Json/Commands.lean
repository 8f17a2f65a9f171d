import Hnc.Json.Guard
import Hnc.Json.HncJson
import Hnc.Json.SafeWriter

/-!
# The commands of `hnc_json`, `json_set.sh` and `json_set_batch.sh`

A write command takes the content of its file and answers with the new
content, or with `none` when it exits with an error and leaves the file alone.
Every command is run by one process at a time here, so its lock is free.
`bin/hnc_json_c` is not shipped, so `hnc_json` runs its own awk programs.
-/

namespace Hnc

open Posix

/-- `^-?[0-9]+(\.[0-9]+)?$` on one line. -/
def isNumeral (line : Text) : Bool :=
  let unsigned := if line.head? = some '-' then line.tail else line
  let fraction := unsigned.dropWhile isDigit
  (unsigned.head?.any isDigit) &&
    (fraction == [] ||
      (fraction.head? == some '.' && fraction.tail != [] &&
        fraction.tail.all isDigit))

/-- `echo "$v" | grep -q` looks at every line of the value. -/
def hasNumeralLine (v : Text) : Bool :=
  (records (v ++ ['\n'])).any isNumeral

/-- The type argument of the `hnc_json` write commands. -/
inductive LiteralType where
  | str
  | num
  | bool
  | null
  | json
deriving DecidableEq, Repr

variable {next : Text} {candidate : Except Nat Text}

namespace HncJson

/-- One character of a JSON string as `json_literal` writes it. -/
def escapeChar (c : Char) : Text :=
  if c = '\\' then ['\\', '\\']
  else if c = '"' then ['\\', '"']
  else if c = '\x08' then ['\\', 'b']
  else if c = '\x0c' then ['\\', 'f']
  else if c = '\n' then ['\\', 'n']
  else if c = '\r' then ['\\', 'r']
  else if c = '\t' then ['\\', 't']
  else [c]

def quoteString (v : Text) : Text :=
  '"' :: v.flatMap escapeChar ++ ['"']

def jsonLiteral (v : Text) : LiteralType → Option Text
  | .str => some (quoteString v)
  | .num => if hasNumeralLine v then some (captured v) else none
  | .bool =>
      if v = "true".toList ∨ v = "false".toList then some v else none
  | .null => if v = "null".toList then some v else none
  | .json =>
      if Guard.jsonGuard (v ++ ['\n']) then some (captured v) else none

/-- `get_top`. -/
def getTop (file key : Text) : Except Nat Text :=
  if Guard.jsonGuard file then getTopInner (assign key) file else .error 1

/-- `get_device`. -/
def getDevice (file mac key : Text) : Except Nat Text :=
  if mac = [] ∨ key = [] then .error 2
  else if Guard.jsonGuard file then
    getDeviceInner (assign mac) (assign key) file
  else .error 1

/-- Validation of the live file, of the candidate and of the file after the
rename, around one awk program. -/
def commit (file : Text) (candidate : Except Nat Text) : Option Text :=
  if Guard.jsonGuard file then
    match candidate with
    | .error _ => none
    | .ok text => if Guard.jsonGuard text then some text else none
  else none

theorem commit_some {file : Text} (committed : commit file candidate = some next) :
    candidate = .ok next := by
  unfold commit at committed
  split at committed
  · split at committed
    · cases committed
    · split at committed
      · cases committed
        rfl
      · cases committed
  · cases committed

theorem commit_valid {file : Text} (committed : commit file candidate = some next) :
    Guard.jsonGuard next = true := by
  unfold commit at committed
  split at committed
  · split at committed
    · cases committed
    · split at committed
      · rename_i valid
        cases committed
        exact valid
      · cases committed
  · cases committed

/-- `set_top`; only a raw JSON value reaches awk without its backslashes
doubled. -/
def setTop (file key value : Text) (typ : LiteralType) : Option Text :=
  if key = [] then none
  else match jsonLiteral value typ with
    | none => none
    | some lit =>
        let awkLit := if typ = .json then lit else doubleBackslash lit
        commit file (setTopInner (assign key) (assign awkLit) file)

/-- `del_object_key`. -/
def delObjectKey (file key : Text) : Option Text :=
  if key = [] then none
  else commit file (delObjectKeyInner (assign key) file)

/-- `set_device`. -/
def setDevice (file mac key value : Text) (typ : LiteralType) : Option Text :=
  if mac = [] ∨ key = [] then none
  else match jsonLiteral value typ with
    | none => none
    | some lit =>
        commit file (setDeviceInner (assign mac) (assign key)
          (assign (doubleBackslash lit)) file)

/-- One round of the loop of `set_device_batch`. -/
def batchField (mac : Text) (tmp : Text) (key value : Text)
    (typ : LiteralType) : Option Text :=
  if key = [] then none
  else match jsonLiteral value typ with
    | none => none
    | some lit =>
        match setDeviceInner (assign mac) (assign key)
            (assign (doubleBackslash lit)) tmp with
        | .error _ => none
        | .ok next => if Guard.jsonGuard next then some next else none

def batchFields (mac : Text) : Text → List (Text × Text × LiteralType) →
    Option Text
  | tmp, [] => some tmp
  | tmp, (key, value, typ) :: rest =>
      (batchField mac tmp key value typ).bind fun next =>
        batchFields mac next rest

/-- `set_device_batch`. -/
def setDeviceBatch (file mac : Text)
    (fields : List (Text × Text × LiteralType)) : Option Text :=
  if mac = [] ∨ fields = [] then none
  else if Guard.jsonGuard file then batchFields mac file fields
  else none

/-- The strings of an array literal, as the item loops of the array commands
read them. -/
@[grind] def arrayItems (ins esc : Bool) (out : Text) : Text → List Text
  | [] => []
  | c :: rest =>
      if ins then
        if esc then arrayItems true false (out ++ [c]) rest
        else if c = '\\' then arrayItems true true out rest
        else if c = '"' then
          if out = [] then arrayItems false false [] rest
          else out :: arrayItems false false [] rest
        else arrayItems true false (out ++ [c]) rest
      else if c = '"' then arrayItems true false [] rest
      else arrayItems false false out rest

/-- The array that `get_top` finds, or the empty one. -/
def currentArray (file key : Text) : Option Text :=
  match getTop file key with
  | .error _ => some ['[', ']']
  | .ok printed =>
      let current := captured printed
      if current = [] then some ['[', ']']
      else if current.head? = some '[' ∧ current.getLast? = some ']' ∧
          2 ≤ current.length then some current
      else none

def renderArray (items : List Text) : Text :=
  '[' :: List.intercalate [','] (items.map quoteString) ++ [']']

/-- The items of an array after the line-wise reading of the awk output, with
its newlines already taken out. -/
def readItems (current : Text) : List Text :=
  (arrayItems false false [] (current.filter (· ≠ '\n'))).flatMap fun item =>
    (records item).filter (· ≠ [])

/-- `array_add_unique`. -/
def arrayAddUnique (file key value : Text) : Option Text :=
  if key = [] ∨ value = [] then none
  else match currentArray file key with
    | none => none
    | some current =>
        let items := readItems current
        let items' := if value ∈ items then items else items ++ [value]
        setTop file key (renderArray items') .json

/-- `array_del_value`. -/
def arrayDelValue (file key value : Text) : Option Text :=
  if key = [] ∨ value = [] then none
  else match currentArray file key with
    | none => none
    | some current =>
        setTop file key
          (renderArray ((readItems current).filter (· ≠ value))) .json

end HncJson

namespace JsonSet

open HncJson (getTop getDevice)

/-- `sed 's/\\/\\\\/g; s/"/\\"/g'` after `tr -d '\000-\037'`. -/
def escapeInner (v : Text) : Text :=
  (v.filter fun c => !isControl c).flatMap fun c =>
    if c = '\\' then ['\\', '\\'] else if c = '"' then ['\\', '"'] else [c]

def jsonStringEncode (v : Text) : Text :=
  '"' :: escapeInner v ++ ['"']

def jsonEncode (v : Text) : Text :=
  if v = "true".toList ∨ v = "false".toList ∨ v = "null".toList then v
  else if v = [] then ['"', '"']
  else if hasNumeralLine v then captured v
  else jsonStringEncode v

/-- `getline val < valfile`. -/
def firstLine (text : Text) : Text :=
  (records text).headD []

/-- `guarded_commit` on the output of one awk program. -/
def guardedCommit (candidate : Except Nat Text) : Option Text :=
  match candidate with
  | .error _ => none
  | .ok text => if Guard.jsonGuard text then some text else none

theorem guardedCommit_some (committed : guardedCommit candidate = some next) :
    candidate = .ok next := by
  unfold guardedCommit at committed
  split at committed
  · cases committed
  · split at committed
    · cases committed
      rfl
    · cases committed

theorem guardedCommit_valid (committed : guardedCommit candidate = some next) :
    Guard.jsonGuard next = true := by
  unfold guardedCommit at committed
  split at committed
  · cases committed
  · split at committed
    · rename_i valid
      cases committed
      exact valid
    · cases committed

/-- `hnc_json_type_for_value`. -/
def typeForValue (v : Text) : LiteralType :=
  if v = "true".toList ∨ v = "false".toList then .bool
  else if v = "null".toList then .null
  else if hasNumeralLine v then .num
  else .str

/-- `json_set.sh top <field> <value>`. -/
def top (file field value : Text) : Option Text :=
  match HncJson.setTop file field value (typeForValue value) with
  | some next => some next
  | none =>
      guardedCommit
        (SafeWriter.updateTop (assign field) (firstLine (jsonEncode value)) file)

/-- `json_set.sh device <mac> <field> <value>`. -/
def device (file mac field value : Text) : Option Text :=
  guardedCommit
    (SafeWriter.updateDevice (assign mac) (assign field)
      (firstLine (jsonEncode value)) file)

/-- `json_set.sh device_remove <mac>`. -/
def deviceRemove (file mac : Text) : Option Text :=
  if mac = [] then none
  else guardedCommit (SafeWriter.removeDevice (assign mac) file)

/-- `json_set.sh bl_add <mac>`. -/
def blAdd (file mac : Text) : Option Text :=
  if mac = [] then none
  else match HncJson.arrayAddUnique file "blacklist".toList mac with
    | some next => some next
    | none =>
        guardedCommit (SafeWriter.arrayAdd "blacklist".toList
          (assign (jsonStringEncode mac)) file)

/-- `json_set.sh bl_del <mac>`. -/
def blDel (file mac : Text) : Option Text :=
  if mac = [] then some file
  else match HncJson.arrayDelValue file "blacklist".toList mac with
    | some next => some next
    | none =>
        guardedCommit (SafeWriter.arrayDel "blacklist".toList
          (assign (jsonStringEncode mac)) file)

/-- `tr 'A-Z' 'a-z'`. -/
def lower (text : Text) : Text :=
  text.map fun c =>
    if 'A'.toNat ≤ c.toNat ∧ c.toNat ≤ 'Z'.toNat then Char.ofNat (c.toNat + 32)
    else c

/-- `json_set.sh name_set <mac> <name>`. -/
def nameSet (file mac name : Text) : Option Text :=
  if mac = [] ∨ name = [] then none
  else match HncJson.setTop file (lower mac) name .str with
    | some next => some next
    | none =>
        guardedCommit
          (SafeWriter.objectSet (firstLine (lower mac))
            (firstLine (jsonStringEncode name)) file)

/-- `json_set.sh name_del <mac>`. -/
def nameDel (file mac : Text) : Option Text :=
  if mac = [] then some file
  else match HncJson.delObjectKey file (lower mac) with
    | some next => some next
    | none =>
        guardedCommit (SafeWriter.objectDel (firstLine (lower mac)) file)

/-- The escapes that `hnc_json_decode_string_literal` undoes. -/
def unescapeLetter (c : Char) : Char :=
  if c = 'n' then '\n'
  else if c = 'r' then '\r'
  else if c = 't' then '\t'
  else if c = 'b' then '\x08'
  else if c = 'f' then '\x0c'
  else c

def decodeBody (esc : Bool) : Text → Text
  | [] => []
  | c :: rest =>
      if esc then unescapeLetter c :: decodeBody false rest
      else if c = '\\' then decodeBody true rest
      else c :: decodeBody false rest

/-- `hnc_json_decode_string_literal`. -/
def decodeStringLiteral (s : Text) : Text :=
  if s.head? = some '"' ∧ s.getLast? = some '"' then
    decodeBody false (s.tail.dropLast) ++ ['\n']
  else s ++ ['\n']

/-- What the bridges print for the literal that `hnc_json` answered. -/
def printLiteral (printed : Text) : Text :=
  let raw := captured printed
  if raw.head? = some '"' then decodeStringLiteral raw else raw ++ ['\n']

end JsonSet

namespace JsonSetBatch

/-- The glob `-[0-9]*|[0-9]*`. -/
def startsNumeric (v : Text) : Bool :=
  match v with
  | '-' :: c :: _ => isDigit c
  | c :: _ => isDigit c
  | [] => false

/-- `infer_type`. -/
def inferType (v : Text) : LiteralType :=
  if v = "true".toList ∨ v = "false".toList then .bool
  else if v = "null".toList then .null
  else if startsNumeric v ∧ hasNumeralLine v then .num
  else .str

/-- `valid_field`: nonempty and only characters of `[A-Za-z0-9_.-]`. -/
def validField (field : Text) : Bool :=
  field != [] && field.all fun c =>
    isDigit c || ('A'.toNat ≤ c.toNat && c.toNat ≤ 'Z'.toNat) ||
      ('a'.toNat ≤ c.toNat && c.toNat ≤ 'z'.toNat) ||
      c == '_' || c == '.' || c == '-'

def isHexDigit (c : Char) : Bool :=
  Guard.isHex c

/-- `^[0-9a-f]{2}(:[0-9a-f]{2}){5}$`, ignoring letter case. -/
def isMacLine : Text → Bool
  | [a, b, s, c, d, t, e, f, u, g, h, v, i, j, w, k, l] =>
      [a, b, c, d, e, f, g, h, i, j, k, l].all isHexDigit &&
        [s, t, u, v, w].all (· == ':')
  | _ => false

/-- The test of the MAC argument; `grep` looks at every line of it. -/
def isMac (mac : Text) : Bool :=
  (records (mac ++ ['\n'])).any isMacLine

/-- The name of a type on the lines of the argument file. -/
def typeWord : LiteralType → Text
  | .str => "str".toList
  | .num => "num".toList
  | .bool => "bool".toList
  | .null => "null".toList
  | .json => "json".toList

def readType (word : Text) : Option LiteralType :=
  [LiteralType.str, .num, .bool, .null, .json].find? fun t => typeWord t = word

/-- The arguments of `set-device-batch`, read back line by line. -/
def triples : List Text → Option (List (Text × Text × LiteralType))
  | [] => some []
  | key :: value :: word :: rest =>
      (readType word).bind fun typ =>
        (triples rest).map fun others => (key, value, typ) :: others
  | _ => none

/-- The argument file: field, value and type, each on a line of its own. -/
def argumentLines (pairs : List (Text × Text)) : List Text :=
  records (pairs.flatMap fun (field, value) =>
    field ++ '\n' :: value ++ '\n' :: typeWord (inferType value) ++ ['\n'])

/-- `json_set_batch.sh device <mac> <field> <value> ...`. -/
def device (file mac : Text) (pairs : List (Text × Text)) : Option Text :=
  if isMac mac ∧ pairs ≠ [] ∧ pairs.all (fun pair => validField pair.1) then
    (triples (argumentLines pairs)).bind fun fields =>
      HncJson.setDeviceBatch file mac fields
  else none

end JsonSetBatch

end Hnc
