import Hnc.Httpd.RateLimit
import Hnc.Httpd.TokensStore
import Hnc.Lib.ByteText
import Mathlib.Algebra.Group.Nat.Defs

/-!
# Pairing by PIN

`pair_gen.sh` writes a PIN into the file `pair_pending`, and `pair.go` compares
the PINs of `POST /api/pair/verify` with it.  Requests run in parallel; between
any two of the steps of one request, steps of other requests, the script and the
clock may come.
-/

namespace Httpd

open Posix
open KeyMap

/-- What `strings.TrimSpace` cuts off. -/
def isGoSpace (c : Char) : Bool :=
  isSpace c || c.toNat == 0x85 || c.toNat == 0xA0 || c.toNat == 0x1680 ||
    (0x2000 ≤ c.toNat && c.toNat ≤ 0x200A) || c.toNat == 0x2028 ||
    c.toNat == 0x2029 || c.toNat == 0x202F || c.toNat == 0x205F ||
    c.toNat == 0x3000

def trimSpace (text : Text) : Text :=
  ((text.dropWhile isGoSpace).reverse.dropWhile isGoSpace).reverse

def decimal (digits : Text) : Nat :=
  digits.foldl (fun value c => value * 10 + (c.toNat - '0'.toNat)) 0

/-- `strconv.ParseInt` for base 10 and 64 bits. -/
def parseInt (text : Text) : Option Int :=
  let negative := text.head? == some '-'
  let digits :=
    if negative || text.head? == some '+' then text.tail else text
  if digits = [] ∨ ¬digits.all isDigit then none
  else if negative then
    if decimal digits ≤ 2 ^ 63 then some (-decimal digits) else none
  else if decimal digits < 2 ^ 63 then some (decimal digits) else none

structure PairPending where
  pin : Text
  sessionID : Text
  expiry : Int
deriving DecidableEq

inductive PairError where
  | noActivePairing
  | needThreeLines
  | badPinLen
  | nonDigitPin
  | badSid
  | badExpiry
  | expired
deriving DecidableEq

def PairError.message : PairError → Text
  | .noActivePairing => "no active pairing".toList
  | .needThreeLines => "malformed pair_pending (need 3 lines)".toList
  | .badPinLen => "malformed pair_pending (bad pin len)".toList
  | .nonDigitPin => "malformed pair_pending (non-digit pin)".toList
  | .badSid => "malformed pair_pending (bad sid)".toList
  | .badExpiry => "malformed pair_pending (bad expiry)".toList
  | .expired => "pairing expired".toList

def isSidChar (c : Char) : Bool :=
  ('a'.toNat ≤ c.toNat && c.toNat ≤ 'z'.toNat) ||
    ('A'.toNat ≤ c.toNat && c.toNat ≤ 'Z'.toNat) || isDigit c ||
    c == '-' || c == '_'

def isPairSessionID (sid : Text) : Bool :=
  decide (8 ≤ (utf8 sid).length) && decide ((utf8 sid).length ≤ 64) &&
    sid.all isSidChar

/-- The part of `readPairPending` between opening the file and the clock. -/
def parsePairPending (text : Text) : Except PairError PairPending :=
  match (records text).map trimSpace with
  | pin :: sid :: expiryStr :: _ =>
      if (utf8 pin).length ≠ 6 then .error .badPinLen
      else if ¬pin.all isDigit then .error .nonDigitPin
      else if ¬isPairSessionID sid then .error .badSid
      else match parseInt expiryStr with
        | none => .error .badExpiry
        | some expiry => .ok { pin := pin, sessionID := sid, expiry := expiry }
  | _ => .error .needThreeLines

def VALID_SEC : Int := 120

/-- `printf '%06d'`. -/
def sixDigits (number : Nat) : Text :=
  let digits := (Nat.repr number).toList
  List.replicate (6 - digits.length) '0' ++ digits

/-- The file that `pair_gen.sh` writes from a random number and up to five
random candidates for the session id. -/
def pairGen (num : Nat) (candidates : List Text) (now : Int) : Option Text :=
  let pin := sixDigits (num % 1000000)
  let sid := (candidates.take 5).find? fun candidate =>
    candidate.head?.any fun c => isSidChar c && c != '-' && c != '_'
  match sid with
  | none => none
  | some sid =>
      if sid.length < 8 then none
      else some (pin ++ '\n' :: sid ++
        '\n' :: (toString (now + VALID_SEC)).toList ++ ['\n'])

/-- `IssueToken` after the hash has been computed: up to three random ids are
tried.  The result names the id that was free. -/
def issueToken (store : TokensStore) (file : Option File) (written : Stat)
    (token : Token) : List Text → Nat → Option (Text × TokensStore × File)
  | [], _ => none
  | _, 0 => none
  | tokenID :: ids, left + 1 =>
      match store.putIfAbsent file written tokenID token with
      | some (store, file) => some (tokenID, store, file)
      | none => issueToken store file written token ids left

/-- A file `pair_pending`, numbered in the order of the writes. -/
structure PendingFile where
  number : Nat
  text : Text
deriving DecidableEq

/-- What the handler answers. -/
inductive Response where
  | tooManyAttempts (retryAfter : Int)
  | badForm
  | badPinFormat (remaining : Nat)
  | pendingError (error : PairError)
  | wrongPin (remaining : Nat)
  | issueFailed
  | paired (tokenID : Text)
deriving DecidableEq

def Response.status : Response → Nat
  | .tooManyAttempts _ => 429
  | .badForm | .badPinFormat _ | .wrongPin _ => 400
  | .pendingError error => if error = .expired then 410 else 400
  | .issueFailed => 500
  | .paired _ => 302

/-- Where a request is in `handlePairVerify`. -/
inductive Phase where
  | arrived
  | checked
  | badFormat
  | wellFormed
  | read (file : PendingFile)
  | fresh (number : Nat) (pending : PairPending)
  | wrong
  | lockedOut
  | matched (number : Nat) (pending : PairPending)
  | issued (number : Nat) (pending : PairPending) (tokenID : Text)
  | marked (number : Nat) (tokenID : Text)
  | deleted (tokenID : Text)
  | done (response : Response)
deriving DecidableEq

/-- A request: `form` is the value of `pin`, or `none` when the form does not
parse. -/
structure Request where
  ip : Text
  form : Option Text
  phase : Phase
deriving DecidableEq

/-- `issued` lists the files for which tokens were issued, and `compared` the
IPs whose PIN was compared and found wrong. -/
structure Pairing where
  limiter : RateLimiter
  now : Int
  pending : Option PendingFile
  written : Nat
  store : TokensStore
  tokensFile : Option File
  requests : List Request
  issued : List Nat
  compared : List Text

/-- The random values and the label that go into a token. -/
structure Randomness where
  hash : Text
  ids : List Text
  label : Text
  stat : Stat

inductive PairStep where
  | arrive (ip : Text) (form : Option Text)
  | advance (index : Nat) (random : Randomness)
  | generate (num : Nat) (candidates : List Text)
  | cancel
  | checkUnauth (ip : Text)
  | gc
  | tick (seconds : Nat)

namespace Pairing

/-- The clock is past the first minute of its epoch. -/
def start (now : Nat) (tokensFile : Option File) : Pairing :=
  { limiter := .newRateLimiter (rlPinWindow + 1 + now)
    now := rlPinWindow + 1 + now
    pending := none
    written := 0
    store := .newTokensStore fun _ => tokensFile
    tokensFile := tokensFile
    requests := []
    issued := []
    compared := [] }

/-- The request at `index` goes on to a phase. -/
def enter (pairing : Pairing) (index : Nat) (request : Request)
    (phase : Phase) : Pairing :=
  { pairing with
    requests := pairing.requests.set index { request with phase := phase } }

/-- The check of the form before the file is read. -/
def checkForm (form : Option Text) : Phase :=
  match form with
  | none => .done .badForm
  | some submitted =>
      if (utf8 submitted).length ≠ 6 then .badFormat
      else if ¬submitted.all isDigit then .badFormat
      else .wellFormed

def newToken (now : Int) (random : Randomness) (ip : Text) : Token :=
  { hash := random.hash, created := now, lastSeen := now,
    label := random.label, ipHint := ip, revoked := false }

/-- `RegisterPinFail` for a request, which then goes to the phase that its
result asks for. -/
def registerFail (pairing : Pairing) (index : Nat) (request : Request)
    (next : Bool → Nat → Phase) : Pairing :=
  let (limiter, locked, remaining) :=
    pairing.limiter.registerPinFail request.ip pairing.now
  { pairing with limiter := limiter }.enter index request
    (next locked remaining)

/-- The next step of one request. -/
def advance (pairing : Pairing) (index : Nat) (request : Request)
    (random : Randomness) : Pairing :=
  match request.phase with
  | .arrived =>
      let (limiter, allowed, retry) :=
        pairing.limiter.checkPinVerify request.ip pairing.now
      { pairing with limiter := limiter }.enter index request
        (if allowed then .checked else .done (.tooManyAttempts retry))
  | .checked => pairing.enter index request (checkForm request.form)
  | .badFormat =>
      pairing.registerFail index request fun _ remaining =>
        .done (.badPinFormat remaining)
  | .wellFormed =>
      match pairing.pending with
      | none =>
          pairing.enter index request (.done (.pendingError .noActivePairing))
      | some file => pairing.enter index request (.read file)
  | .read file =>
      match parsePairPending file.text with
      | .error error =>
          pairing.enter index request (.done (.pendingError error))
      | .ok pending =>
          if pairing.now ≥ pending.expiry then
            { pairing with pending := none }.enter index request
              (.done (.pendingError .expired))
          else pairing.enter index request (.fresh file.number pending)
  | .fresh number pending =>
      if request.form = some pending.pin then
        pairing.enter index request (.matched number pending)
      else
        { pairing with
          compared := request.ip :: pairing.compared }.enter index request
            .wrong
  | .wrong =>
      pairing.registerFail index request fun locked remaining =>
        if locked then .lockedOut else .done (.wrongPin remaining)
  | .lockedOut =>
      let (limiter, _, retry) :=
        pairing.limiter.checkPinVerify request.ip pairing.now
      { pairing with limiter := limiter }.enter index request
        (.done (.tooManyAttempts retry))
  | .matched number pending =>
      match issueToken pairing.store pairing.tokensFile random.stat
          (newToken pairing.now random request.ip) random.ids
          collisionRetryMax with
      | none => pairing.enter index request (.done .issueFailed)
      | some (tokenID, store, file) =>
          { pairing with
            store := store
            tokensFile := some file
            issued := number :: pairing.issued }.enter index request
              (.issued number pending tokenID)
  | .issued number _ tokenID =>
      -- `writePairSuccess` writes a file that no step of the pairing reads.
      pairing.enter index request (.marked number tokenID)
  | .marked _ tokenID =>
      { pairing with pending := none }.enter index request (.deleted tokenID)
  | .deleted tokenID =>
      { pairing with
        limiter := pairing.limiter.resetPin request.ip }.enter index request
          (.done (.paired tokenID))
  | .done _ => pairing

def step (pairing : Pairing) : PairStep → Pairing
  | .arrive ip form =>
      { pairing with
        requests := pairing.requests ++
          [{ ip := ip, form := form, phase := .arrived }] }
  | .advance index random =>
      match pairing.requests[index]? with
      | none => pairing
      | some request => pairing.advance index request random
  | .generate num candidates =>
      match pairGen num candidates pairing.now with
      | none => pairing
      | some text =>
          { pairing with
            pending := some { number := pairing.written, text := text }
            written := pairing.written + 1 }
  | .cancel => { pairing with pending := none }
  | .checkUnauth ip =>
      { pairing with
        limiter := (pairing.limiter.checkUnauth ip pairing.now).1 }
  | .gc => { pairing with limiter := pairing.limiter.gc pairing.now }
  | .tick seconds => { pairing with now := pairing.now + seconds }

def run (pairing : Pairing) (steps : List PairStep) : Pairing :=
  steps.foldl step pairing

end Pairing

end Httpd
