import Hnc.Httpd.TokensStore
import Hnc.Lib.Runs

/-!
# Reloading a file that nobody writes meanwhile

`SyncIfChanged` decides to reload by `!=`, and the double check of `reload`
skips the commit by `>=`.  Over a file that stays as it is, the two agree unless
the modification time of the file is older than the remembered one.
-/

namespace Httpd

open KeyMap

/-- The map of the tokens in a file that parses. -/
def File.tokens (file : File) : Option TokenMap :=
  file.content.parsed

/-- The first attempt reads the file. -/
theorem attempt_unchanged (file : Option File) (left moment : Nat) :
    attempt (fun _ => file) left moment =
      match file with
      | none => .absent
      | some file => .done file.content file.stat.mtime := by
  cases file <;> simp [attempt]

namespace TokensStore

theorem reload_absent (store : TokensStore) :
    store.reload (fun _ => none) = .ok store.forget := by
  unfold reload
  rw [attempt_unchanged]

variable {file : File}

theorem reload_unchanged (store : TokensStore) {tokens : TokenMap}
    (parsed : file.tokens = some tokens) :
    store.reload (fun _ => some file) =
      .ok (store.commit tokens file.stat.mtime) := by
  unfold reload
  rw [attempt_unchanged]
  simp only [File.tokens] at parsed
  simp only [parsed]

theorem reload_malformed (store : TokensStore) (malformed : file.tokens = none) :
    store.reload (fun _ => some file) = .error .parse := by
  unfold reload
  rw [attempt_unchanged]
  simp only [File.tokens] at malformed
  simp only [malformed]

/-- After `SyncIfChanged` has returned nil, a changed file is in memory together
with its modification time, and without a file the memory is empty. -/
def Converges (store : TokensStore) (file : Option File) : Prop :=
  ∃ synced, store.syncIfChanged (fun _ => file) = .ok synced ∧
    match file with
    | none => synced.tokens = ∅
    | some file => file.stat.mtime ≠ store.lastRead →
        file.tokens = some synced.tokens ∧
          synced.lastRead = file.stat.mtime

theorem syncIfChanged_newer (store : TokensStore) {tokens : TokenMap}
    (parsed : file.tokens = some tokens)
    (newer : store.lastRead < file.stat.mtime) :
    store.syncIfChanged (fun _ => some file) =
      .ok { tokens := tokens, lastRead := file.stat.mtime, dirty := ∅ } := by
  have changed : file.stat.mtime ≠ store.lastRead := by omega
  have notSkipped : ¬file.stat.mtime ≤ store.lastRead := by omega
  simp only [syncIfChanged]
  rw [if_pos changed, store.reload_unchanged parsed, commit,
    if_neg notSkipped]

theorem syncIfChanged_older (store : TokensStore) {tokens : TokenMap}
    (parsed : file.tokens = some tokens)
    (older : file.stat.mtime ≤ store.lastRead) :
    store.syncIfChanged (fun _ => some file) = .ok store := by
  simp only [syncIfChanged]
  split
  · rw [store.reload_unchanged parsed, commit, if_pos older]
  · rfl

/-- The store converges to a file that parses, or to no file, exactly when the
file is not older than what the store has read. -/
theorem syncIfChanged_converges_iff (store : TokensStore)
    (file : Option File)
    (parses : ∀ present, file = some present → present.tokens ≠ none) :
    store.Converges file ↔
      ∀ present, file = some present →
        store.lastRead ≤ present.stat.mtime := by
  cases file with
  | none =>
      constructor
      · intro _ present here
        cases here
      · intro _
        exact ⟨store.forget, rfl, rfl⟩
  | some file =>
      obtain ⟨tokens, parsed⟩ :=
        Option.ne_none_iff_exists'.mp (parses file rfl)
      rcases lt_trichotomy store.lastRead file.stat.mtime with
        newer | same | older
      · refine ⟨fun _ present here => ?_, fun _ => ?_⟩
        · cases here
          exact newer.le
        · exact ⟨_, store.syncIfChanged_newer parsed newer,
            fun _ => ⟨parsed, rfl⟩⟩
      · refine ⟨fun _ present here => ?_, fun _ => ?_⟩
        · cases here
          exact same.le
        · exact ⟨store, store.syncIfChanged_older parsed same.ge,
            fun changed => absurd same.symm changed⟩
      · refine ⟨fun converges => ?_, fun notOlder => ?_⟩
        · obtain ⟨synced, returned, converged⟩ := converges
          rw [store.syncIfChanged_older parsed older.le] at returned
          cases returned
          have same := (converged (by omega)).2
          omega
        · have := notOlder file rfl
          omega

/-- A file restored from a backup keeps its old modification time. -/
def restored : File :=
  { stat := { mtime := 5, size := 33 }, content := .tokens ∅ }

def issued : Token :=
  { hash := "h".toList, created := 7, lastSeen := 7, label := [],
    ipHint := [], revoked := false }

def ahead : TokensStore :=
  { tokens := AList.singleton "a".toList issued, lastRead := 9, dirty := ∅ }

theorem syncIfChanged_converges_iff_ahead :
    (∀ present, some restored = some present → present.tokens ≠ none) ∧
      ¬ahead.Converges (some restored) := by
  have parses : ∀ present, some restored = some present →
      present.tokens ≠ none := by
    rintro present ⟨⟩
    simp [File.tokens, restored, Content.parsed]
  refine ⟨parses, ?_⟩
  rw [syncIfChanged_converges_iff ahead (some restored) parses]
  intro notOlder
  exact absurd (notOlder restored rfl) (by decide)

/-- The restored file has another modification time than the remembered one and
no token, but the token stays in memory. -/
theorem backup_not_loaded :
    restored.stat.mtime ≠ ahead.lastRead ∧
      restored.tokens = some ∅ ∧
      ahead.syncIfChanged (fun _ => some restored) = .ok ahead ∧
      ahead.get "a".toList = some issued := by
  refine ⟨by decide, rfl, ?_, rfl⟩
  exact ahead.syncIfChanged_older rfl (by decide)

end TokensStore

end Httpd

/-!
## The token file and its two writers

The httpd runs requests in parallel and `json_set.sh` writes the same file
without a common lock.  Each step below is one acquisition of the store's lock,
one unlocked read of the file by `SyncIfChanged`, or one write of the file by
another process.  A save is atomic, and every write of the file gets a later
modification time than all the writes before it.
-/

namespace Httpd

open Posix
open KeyMap

/-- How much later than all earlier writes a write is stamped, and its size. -/
structure Stamp where
  delay : Nat
  size : Nat
deriving DecidableEq

/-- The two writers' common state.  `clock` is the latest modification time
given so far and `now` is the time in seconds.  `reads` are the reads of
`SyncIfChanged` that wait for the lock, and `logouts` are the copies that
`handleLogout` holds between its `Get` and its `Put`. -/
structure System where
  file : Option File
  store : TokensStore
  clock : Int
  now : Int
  reads : List (TokenMap × Int)
  logouts : List (Text × Token)

inductive Step where
  | write (stamp : Stamp) (content : Content)
  | tokenRevoke (stamp : Stamp) (tid : Text)
  | tokenRevokeAll (stamp : Stamp)
  | syncRead
  | syncCommit (index : Nat)
  | putIfAbsent (stamp : Stamp) (tokenID : Text) (token : Token)
  | updateLastSeen (tokenID : Text)
  | flush (stamp : Stamp)
  | prune (stamp : Stamp)
  | logoutGet (tid : Text)
  | logoutPut (stamp : Stamp) (index : Nat)
  | tick (seconds : Nat)

namespace System

def stat (system : System) (stamp : Stamp) : Stat :=
  { mtime := system.clock + 1 + stamp.delay, size := stamp.size }

/-- The httpd starts on a file written after the epoch, or on none. -/
def start (content : Option Content) (stamp : Stamp) (now : Int) : System :=
  let stat : Stat := { mtime := 1 + stamp.delay, size := stamp.size }
  let file := content.map fun content => { stat := stat, content := content }
  { file := file
    store := .newTokensStore fun _ => file
    clock := stat.mtime
    now := now
    reads := []
    logouts := [] }

def written (system : System) (file : File) : System :=
  { system with file := some file, clock := file.stat.mtime }

def saved (system : System) (result : TokensStore × File) : System :=
  { system.written result.2 with store := result.1 }

/-- Another process writes the file, or leaves it alone. -/
def external (system : System) (stamp : Stamp) (content : Option Content) :
    System :=
  match content with
  | none => system
  | some content =>
      system.written { stat := system.stat stamp, content := content }

/-- The unlocked part of `SyncIfChanged`, at one moment. -/
def syncRead (system : System) : System :=
  match system.file with
  | none => { system with store := system.store.forget }
  | some file =>
      if file.stat.mtime ≠ system.store.lastRead then
        match attempt (fun _ => system.file) (maxRetry - 1) 0 with
        | .absent => { system with store := system.store.forget }
        | .failed => system
        | .done content newMtime =>
            match content.parsed with
            | none => system
            | some tokens =>
                { system with reads := (tokens, newMtime) :: system.reads }
      else system

def syncCommit (system : System) (index : Nat) : System :=
  match system.reads[index]? with
  | none => system
  | some (tokens, newMtime) =>
      { system with
        store := system.store.commit tokens newMtime
        reads := system.reads.eraseIdx index }

def putIfAbsent (system : System) (stamp : Stamp) (tokenID : Text)
    (token : Token) : System :=
  match system.store.putIfAbsent system.file (system.stat stamp) tokenID
      token with
  | none => system
  | some result => system.saved result

def prune (system : System) (stamp : Stamp) : System :=
  match system.store.prune system.file (system.stat stamp) system.now with
  | none => system
  | some result => system.saved result

def logoutGet (system : System) (tid : Text) : System :=
  match system.store.get tid with
  | none => system
  | some token =>
      { system with logouts := (tid, token) :: system.logouts }

def logoutPut (system : System) (stamp : Stamp) (index : Nat) : System :=
  match system.logouts[index]? with
  | none => system
  | some (tid, token) =>
      let rest := { system with logouts := system.logouts.eraseIdx index }
      rest.saved (system.store.put system.file (system.stat stamp) tid
        { token with revoked := true })

def step (system : System) : Step → System
  | .write stamp content => system.external stamp (some content)
  | .tokenRevoke stamp tid =>
      system.external stamp
        (Httpd.tokenRevoke (system.file.map File.content) tid)
  | .tokenRevokeAll stamp =>
      system.external stamp
        (Httpd.tokenRevokeAll (system.file.map File.content))
  | .syncRead => system.syncRead
  | .syncCommit index => system.syncCommit index
  | .putIfAbsent stamp tokenID token =>
      system.putIfAbsent stamp tokenID token
  | .updateLastSeen tokenID =>
      { system with
        store := system.store.updateLastSeen system.now tokenID }
  | .flush stamp =>
      system.saved (system.store.flush system.file (system.stat stamp))
  | .prune stamp => system.prune stamp
  | .logoutGet tid => system.logoutGet tid
  | .logoutPut stamp index => system.logoutPut stamp index
  | .tick seconds => { system with now := system.now + seconds }

def run (system : System) (steps : List Step) : System :=
  steps.foldl step system

end System

end Httpd
