import Hnc.Lib.KeyMap
import Hnc.Lib.Posix
import Mathlib.Data.Finset.Basic

/-!
# The token store of the httpd

`tokens.go` keeps `remote_tokens.json` in memory and writes it back.  The file
is also written by `json_set.sh`, so the store compares the modification time it
sees with the one it remembers: `SyncIfChanged` reloads the file when they
differ, and `saveAtomicLocked` merges a newer file into the memory before it
writes.
-/

namespace Httpd

open Posix
open KeyMap

/-- An entry of `tokens` in `remote_tokens.json`. -/
structure Token where
  hash : Text
  created : Int
  lastSeen : Int
  label : Text
  ipHint : Text
  revoked : Bool
deriving DecidableEq, Repr

abbrev TokenMap := Map Text Token

/-- What `json.Unmarshal` finds in the bytes of the file.  A missing or null
`tokens` leaves a nil map. -/
inductive Content where
  | malformed
  | noTokens
  | tokens (map : TokenMap)

/-- The part of `os.Stat` that the store reads. -/
structure Stat where
  mtime : Int
  size : Nat
deriving DecidableEq

structure File where
  stat : Stat
  content : Content

structure TokensStore where
  tokens : TokenMap
  lastRead : Int
  dirty : Finset Text

/-- How often `reload` tries to read the file between two equal stats. -/
def maxRetry : Nat := 3

def collisionRetryMax : Nat := 3

def hardExpirePruneSec : Int := 90 * 86400

def revokedExpireSec : Int := 30 * 86400

/-- The outcome of the unlocked part of `reload`. -/
inductive Read where
  | absent
  | failed
  | done (content : Content) (newMtime : Int)

/-- One attempt: stat, read, stat.  `view` is what the file system holds at
each moment, and `left` is the number of attempts after this one. -/
def attempt (view : Nat → Option File) : (left moment : Nat) → Read
  | left, moment =>
      match view moment with
      | none => .absent
      | some first =>
          match view (moment + 1) with
          | none => .absent
          | some seen =>
              match view (moment + 2) with
              | none => .failed
              | some second =>
                  if first.stat.mtime = second.stat.mtime ∧
                      first.stat.size = second.stat.size then
                    .done seen.content second.stat.mtime
                  else
                    -- The last attempt is used although the stats differ.
                    match left with
                    | 0 => .done seen.content second.stat.mtime
                    | left + 1 => attempt view left (moment + 3)

inductive SyncError where
  | stat2
  | parse
deriving DecidableEq, Repr

/-- The map that a parsed file stands for: nil is replaced by an empty map. -/
def Content.parsed : Content → Option TokenMap
  | .malformed => none
  | .noTokens => some ∅
  | .tokens map => some map

namespace TokensStore

/-- The branches for a file that does not exist.  `dirty` is left alone. -/
def forget (store : TokensStore) : TokensStore :=
  { store with tokens := ∅, lastRead := 0 }

/-- The locked part of `reload`, with its double check. -/
def commit (store : TokensStore) (tokens : TokenMap) (newMtime : Int) :
    TokensStore :=
  if newMtime ≤ store.lastRead then store
  else { tokens := tokens, lastRead := newMtime, dirty := ∅ }

def reload (store : TokensStore) (view : Nat → Option File) :
    Except SyncError TokensStore :=
  match attempt view (maxRetry - 1) 0 with
  | .absent => .ok store.forget
  | .failed => .error .stat2
  | .done content newMtime =>
      match content.parsed with
      | none => .error .parse
      | some tokens => .ok (store.commit tokens newMtime)

/-- `SyncIfChanged`: its own stat comes before those of `reload`. -/
def syncIfChanged (store : TokensStore) (view : Nat → Option File) :
    Except SyncError TokensStore :=
  match view 0 with
  | none => .ok store.forget
  | some file =>
      if file.stat.mtime ≠ store.lastRead then
        store.reload fun moment => view (moment + 1)
      else .ok store

/-- `NewTokensStore`: a failed first load leaves the store empty. -/
def newTokensStore (view : Nat → Option File) : TokensStore :=
  let store : TokensStore := { tokens := ∅, lastRead := 0, dirty := ∅ }
  match store.reload view with
  | .ok loaded => loaded
  | .error _ => store

def get (store : TokensStore) (tokenID : Text) : Option Token :=
  store.tokens.lookup tokenID

/-- The body of the loop over the tokens on disk: an unseen token is added, and
a revocation on disk is believed. -/
def mergeOne (memory : TokenMap) (tid : Text) (onDisk : Token) : TokenMap :=
  match memory.lookup tid with
  | none => memory.insert tid onDisk
  | some inMemory =>
      if onDisk.revoked && !inMemory.revoked then
        memory.insert tid { inMemory with revoked := true }
      else memory

/-- Tokens in memory that are neither on disk nor dirty. -/
def toDelete (memory diskTokens : TokenMap) (dirty : Finset Text) :
    List Text :=
  memory.keys.filter fun tid => tid ∉ diskTokens.keys && tid ∉ dirty

/-- Both loops of the merge in `saveAtomicLocked`. -/
def merge (memory diskTokens : TokenMap) (dirty : Finset Text) : TokenMap :=
  let joined := diskTokens.foldl mergeOne memory
  eraseAll joined (toDelete joined diskTokens dirty)

/-- The tokens that `saveAtomicLocked` writes.  The merge needs a newer file
that holds a `tokens` object. -/
def toSave (store : TokensStore) (file : Option File) : TokenMap :=
  match file with
  | none => store.tokens
  | some file =>
      if store.lastRead < file.stat.mtime then
        match file.content with
        | .tokens diskTokens => merge store.tokens diskTokens store.dirty
        | _ => store.tokens
      else store.tokens

/-- `saveAtomicLocked`; `written` is the stat of the renamed file. -/
def saveAtomicLocked (store : TokensStore) (file : Option File)
    (written : Stat) : TokensStore × File :=
  let tokens := store.toSave file
  ({ tokens := tokens, lastRead := written.mtime, dirty := ∅ },
    { stat := written, content := .tokens tokens })

/-- The part of `Put` before the save. -/
def place (store : TokensStore) (tokenID : Text) (token : Token) :
    TokensStore :=
  { store with
    tokens := store.tokens.insert tokenID token
    dirty := insert tokenID store.dirty }

def put (store : TokensStore) (file : Option File) (written : Stat)
    (tokenID : Text) (token : Token) : TokensStore × File :=
  (store.place tokenID token).saveAtomicLocked file written

/-- `PutIfAbsent`; `none` is `ErrTokenIDCollision`. -/
def putIfAbsent (store : TokensStore) (file : Option File) (written : Stat)
    (tokenID : Text) (token : Token) : Option (TokensStore × File) :=
  match store.tokens.lookup tokenID with
  | some _ => none
  | none => some (store.put file written tokenID token)

def updateLastSeen (store : TokensStore) (now : Int) (tokenID : Text) :
    TokensStore :=
  match store.tokens.lookup tokenID with
  | none => store
  | some token => store.place tokenID { token with lastSeen := now }

def flush (store : TokensStore) (file : Option File) (written : Stat) :
    TokensStore × File :=
  store.saveAtomicLocked file written

/-- What `Prune` deletes. -/
def expired (now : Int) (token : Token) : Bool :=
  (decide (0 < token.lastSeen) &&
      decide (hardExpirePruneSec < now - token.lastSeen)) ||
    (token.revoked && decide (0 < token.lastSeen) &&
      decide (revokedExpireSec < now - token.lastSeen))

def expiredIds (store : TokensStore) (now : Int) : List Text :=
  store.tokens.keys.filter fun tid =>
    (store.tokens.lookup tid).any (expired now)

/-- The part of `Prune` before the save. -/
def dropExpired (store : TokensStore) (now : Int) : TokensStore :=
  { store with tokens := eraseAll store.tokens (store.expiredIds now) }

/-- `Prune`; `none` when nothing has expired and nothing is written. -/
def prune (store : TokensStore) (file : Option File) (written : Stat)
    (now : Int) : Option (TokensStore × File) :=
  if store.expiredIds now = [] then none
  else some ((store.dropExpired now).saveAtomicLocked file written)

end TokensStore

/-- `"revoked": true` for the tokens that satisfy `chosen`. -/
def revokeTokens (chosen : Text → Bool) (map : TokenMap) : TokenMap :=
  map.foldl (fun revoked tid token =>
    if chosen tid then revoked.insert tid { token with revoked := true }
    else revoked) map

/-- The new content that `json_set.sh token_revoke` writes.  An absent file is
first created with an empty `tokens`; nothing is written for an unknown id. -/
def tokenRevoke (content : Option Content) (tid : Text) : Option Content :=
  match content with
  | none => some (.tokens ∅)
  | some (.tokens map) =>
      if tid ∈ map.keys then some (.tokens (revokeTokens (· == tid) map))
      else none
  | some _ => none

/-- The new content that `json_set.sh token_revoke_all` writes; an invalid file
is refused. -/
def tokenRevokeAll (content : Option Content) : Option Content :=
  match content with
  | none => some (.tokens ∅)
  | some .malformed => none
  | some .noTokens => some .noTokens
  | some (.tokens map) => some (.tokens (revokeTokens (fun _ => true) map))

end Httpd
