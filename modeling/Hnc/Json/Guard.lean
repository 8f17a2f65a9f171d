import Hnc.Lib.Posix

/-!
# `bin/json_guard.sh`

The recursive-descent validator that every writer runs on its candidate file
and on the live file.  Each parser returns the text behind what it accepts.
The three mutually recursive parsers of the script share one fuel argument,
which bounds the depth of the calls: a bracket costs two of them.
-/

namespace Hnc.Guard

open Posix

def skipws (i : Text) : Text :=
  i.dropWhile isWs

def isHex (c : Char) : Bool :=
  isDigit c || ('a'.toNat ≤ c.toNat && c.toNat ≤ 'f'.toNat) ||
    ('A'.toNat ≤ c.toNat && c.toNat ≤ 'F'.toNat)

def isEscape (e : Char) : Bool :=
  e == '"' || e == '\\' || e == '/' || e == 'b' || e == 'f' || e == 'n' ||
    e == 'r' || e == 't'

/-- What the characters read so far ask of the next one inside a string. -/
inductive StringState where
  | plain
  | escape
  | unicode (left : Nat)

/-- The loop of `parse_string`, behind the opening quote. -/
def stringTail : StringState → Text → Option Text
  | _, [] => none
  | .plain, c :: rest =>
      if c = '"' then some rest
      else if c = '\\' then stringTail .escape rest
      else if isControl c then none
      else stringTail .plain rest
  | .escape, e :: rest =>
      if isEscape e then stringTail .plain rest
      else if e = 'u' then stringTail (.unicode 4) rest
      else none
  | .unicode left, c :: rest =>
      if isHex c then
        stringTail (if left ≤ 1 then .plain else .unicode (left - 1)) rest
      else none

def parseString : Text → Option Text
  | [] => none
  | c :: rest => if c = '"' then stringTail .plain rest else none

/-- One or more digits. -/
def digits1 : Text → Option Text
  | [] => none
  | c :: rest => if isDigit c then some (rest.dropWhile isDigit) else none

def integerPart : Text → Option Text
  | [] => none
  | c :: rest =>
      if c = '0' then some rest
      else if isDigit c then some (rest.dropWhile isDigit)
      else none

def fractionPart : Text → Option Text
  | [] => some []
  | c :: rest => if c = '.' then digits1 rest else some (c :: rest)

def exponentPart : Text → Option Text
  | [] => some []
  | c :: rest =>
      if c = 'e' ∨ c = 'E' then
        match rest with
        | [] => none
        | sign :: ds => if sign = '+' ∨ sign = '-' then digits1 ds else digits1 rest
      else some (c :: rest)

def parseNumber (i : Text) : Option Text :=
  let unsigned := if i.head? = some '-' then i.tail else i
  (integerPart unsigned).bind fun whole =>
    (fractionPart whole).bind exponentPart

mutual

def parseValue : Nat → Text → Option Text
  | 0, _ => none
  | fuel + 1, i =>
      match skipws i with
      | [] => none
      | c :: rest =>
          if c = '"' then parseString (c :: rest)
          else if c = '{' then
            match skipws rest with
            | '}' :: after => some after
            | members => parseMembers fuel members
          else if c = '[' then
            match skipws rest with
            | ']' :: after => some after
            | elements => parseElements fuel elements
          else if c = 't' then after? "true".toList (c :: rest)
          else if c = 'f' then after? "false".toList (c :: rest)
          else if c = 'n' then after? "null".toList (c :: rest)
          else if c = '-' ∨ isDigit c then parseNumber (c :: rest)
          else none

/-- The member loop of `parse_object`. -/
def parseMembers : Nat → Text → Option Text
  | 0, _ => none
  | fuel + 1, i =>
      (parseString (skipws i)).bind fun behindKey =>
        match skipws behindKey with
        | ':' :: value =>
            (parseValue fuel value).bind fun behindValue =>
              match skipws behindValue with
              | ',' :: next => parseMembers fuel next
              | '}' :: after => some after
              | _ => none
        | _ => none

/-- The element loop of `parse_array`. -/
def parseElements : Nat → Text → Option Text
  | 0, _ => none
  | fuel + 1, i =>
      (parseValue fuel i).bind fun behindValue =>
        match skipws behindValue with
        | ',' :: next => parseElements fuel next
        | ']' :: after => some after
        | _ => none

end

/-- Exit code 0 of `json_guard.sh`. -/
def jsonGuard (content : Text) : Bool :=
  let s := chomp (slurp content)
  match parseValue (2 * s.length + 1) s with
  | none => false
  | some rest => skipws rest == []

end Hnc.Guard
