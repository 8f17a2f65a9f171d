import Hnc.Json.Commands

/-!
# The getters of `json_set.sh`

`device_get` and `top_get` ask `hnc_json` first.  When it answers with an error,
also for a key that is not there, they look for the key in the text of the
file.  The key is part of the regular expressions they look with, so what these
match is an argument here.
-/

namespace Hnc.JsonSet

open Posix

/-- What the regular expressions of the getters match on a text, for a key. -/
structure Patterns where
  /-- What follows the leftmost match of `"key"[[:space:]]*:[[:space:]]*`. -/
  behind (key text : Text) : Option Text
  /-- The leftmost match of the same with `"[^"]*"` behind it. -/
  string (key text : Text) : Option Text
  /-- The leftmost match of the same with `[^,}[:space:]]*` behind it. -/
  bare (key text : Text) : Option Text

/-- A character of `[^,}[:space:]]`. -/
def isBareChar (c : Char) : Bool :=
  c != ',' && c != '}' && !isSpace c

/-- The leftmost place at which a pattern matches, with what it matches. -/
def leftmost {Value : Type} (pattern : Text → Option Value) :
    Text → Option (Text × Value)
  | [] => none
  | c :: rest =>
      match pattern (c :: rest) with
      | some value => some (c :: rest, value)
      | none => leftmost pattern rest

/-- The patterns for a key without special characters. -/
def Patterns.literal : Patterns where
  behind key text := matchKey key some text
  string key text :=
    (leftmost (fun here => (afterKey key here).bind fun rest =>
        (quoted (· != '"') rest).map fun value =>
          rest.drop (value.length + 2)) text).map fun (here, rest) =>
      upTo here rest
  bare key text :=
    (leftmost (fun here => (afterKey key here).map fun rest =>
        rest.dropWhile isBareChar) text).map fun (here, rest) =>
      upTo here rest

section Scans

variable (patterns : Patterns)

/-- What `device_get` prints of the text behind a key: `^"[^"]*"` without the
quotes, or `^[^,}[:space:]]+`. -/
def scannedValue (rest : Text) : Option Text :=
  match quoted (· != '"') rest with
  | some value => some value
  | none => run isBareChar rest

/-- The awk program of `device_get`. -/
def scanDevice (mac key content : Text) : Option Text :=
  (paragraphs content).findSome? fun record =>
    (tailFrom ('"' :: mac ++ ['"']) record).bind fun tail =>
      (patterns.behind key tail).bind scannedValue

/-- `device_get`. -/
def deviceGet (file mac key : Text) : Text :=
  if mac = [] ∨ key = [] then []
  else match HncJson.getDevice file mac key with
    | .ok printed => printLiteral printed
    | .error _ =>
        match scanDevice patterns (assign mac) (assign key) file with
        | some value => value ++ ['\n']
        | none => []

/-- `sed 's/^[^:]*:[[:space:]]*//'`. -/
def dropLabel (line : Text) : Text :=
  match line.dropWhile (· != ':') with
  | [] => line
  | _ :: value => value.dropWhile isSpace

/-- `sed 's/^[^:]*:[[:space:]]*"//; s/"$//'`. -/
def dropQuotedLabel (line : Text) : Text :=
  let value :=
    match line.dropWhile (· != ':') with
    | [] => line
    | _ :: behind =>
        match behind.dropWhile isSpace with
        | '"' :: value => value
        | _ => line
  if value.getLast? = some '"' then value.dropLast else value

/-- The scan of `top_get`: a string that is not empty, or else anything. -/
def scanTop (key content : Text) : Text :=
  let result := ((records content).findSome? (patterns.string key)).elim []
    fun found => captured (dropQuotedLabel found)
  if result ≠ [] then result ++ ['\n']
  else ((records content).findSome? (patterns.bare key)).elim []
    fun found => dropLabel found ++ ['\n']

/-- `top_get`. -/
def topGet (file key : Text) : Text :=
  match HncJson.getTop file key with
  | .ok printed => printLiteral printed
  | .error _ => scanTop patterns key file

end Scans

end Hnc.JsonSet
