import Hnc.Httpd.TokensCoherence

/-!
# Token writes that fail

`saveAtomicLocked` makes the directory, writes a temporary file, sets its mode
and renames it.  A step that fails ends it with an error; the file that is read
is then the old one.  `Put` and `PutIfAbsent` change the map before they save,
and nothing changes it back.
-/

namespace Httpd

open Posix
open KeyMap

/-- The steps of `saveAtomicLocked` that end it when they fail. -/
inductive SaveStep where
  | mkdir
  | write
  | chmod
  | rename
deriving DecidableEq, Repr

/-- What the steps come to: the first one that fails, or the stat of the renamed
file. -/
abbrev Disk := Except SaveStep Stat

inductive PutError where
  | collision
  | save (step : SaveStep)
deriving DecidableEq, Repr

/-- Both stores behind a call, with the error that the call returned. -/
structure Written where
  error : Option PutError
  store : TokensStore
  file : Option File

namespace TokensStore

/-- `saveAtomicLocked` with its error paths.  The merge is done by then; only
the success path touches `lastRead` and `dirty`. -/
def trySave (store : TokensStore) (file : Option File) (disk : Disk) :
    Written :=
  match disk with
  | .error step =>
      ⟨some (.save step), { store with tokens := store.toSave file }, file⟩
  | .ok written =>
      let saved := store.saveAtomicLocked file written
      ⟨none, saved.1, some saved.2⟩

/-- `Put`. -/
def tryPut (store : TokensStore) (file : Option File) (disk : Disk)
    (tokenID : Text) (token : Token) : Written :=
  (store.place tokenID token).trySave file disk

/-- `PutIfAbsent`. -/
def tryPutIfAbsent (store : TokensStore) (file : Option File) (disk : Disk)
    (tokenID : Text) (token : Token) : Written :=
  match store.tokens.lookup tokenID with
  | some _ => ⟨some .collision, store, file⟩
  | none => store.tryPut file disk tokenID token

/-- `Flush`. -/
def tryFlush (store : TokensStore) (file : Option File) (disk : Disk) :
    Written :=
  store.trySave file disk

/-- The file holds tokens that the store has not read. -/
def newerDisk (store : TokensStore) (file : Option File) : Option TokenMap :=
  match file with
  | none => none
  | some file =>
      if store.lastRead < file.stat.mtime then
        match file.content with
        | .tokens diskTokens => some diskTokens
        | _ => none
      else none

theorem toSave_of_newerDisk (store : TokensStore) (file : Option File) :
    store.toSave file =
      match store.newerDisk file with
      | none => store.tokens
      | some diskTokens => merge store.tokens diskTokens store.dirty := by
  unfold toSave newerDisk
  cases file with
  | none => rfl
  | some file =>
      dsimp only
      split
      · cases file.content <;> rfl
      · rfl

/-- What the merge makes of a token that was just put. -/
def settled (store : TokensStore) (file : Option File) (tokenID : Text)
    (token : Token) : Token :=
  match store.newerDisk file with
  | none => token
  | some diskTokens =>
      match diskTokens.lookup tokenID with
      | none => token
      | some onDisk => joinToken onDisk (some token)

/-- The memory behind a put and the merge. -/
theorem lookup_toSave_place (store : TokensStore) (file : Option File)
    (placed : Text) (token : Token) (tid : Text) :
    ((store.place placed token).toSave file).lookup tid =
      if tid = placed then some (store.settled file placed token)
      else (store.toSave file).lookup tid := by
  have same : (store.place placed token).newerDisk file =
      store.newerDisk file := rfl
  rw [toSave_of_newerDisk, toSave_of_newerDisk, same, settled]
  cases newer : store.newerDisk file with
  | none => exact lookup_place store placed token tid
  | some diskTokens =>
      dsimp only
      rw [lookup_merge, lookup_merge, lookup_place]
      by_cases here : tid = placed
      · subst here
        rw [if_pos rfl, if_pos rfl]
        cases diskTokens.lookup tid with
        | none => exact if_pos (Finset.mem_insert_self _ _)
        | some onDisk => rfl
      · rw [if_neg here, if_neg here]
        have dirty : tid ∈ (store.place placed token).dirty ↔
            tid ∈ store.dirty := by
          simp [place, here]
        cases diskTokens.lookup tid with
        | none => simp only [dirty]
        | some onDisk => rfl

/-- The file is the old one, and each token is as it was or as the merge of
newer disk data leaves it. -/
structure UpToMerge (store : TokensStore) (file : Option File)
    (after : Written) : Prop where
  sameFile : after.file = file
  tokens : ∀ tid,
    after.store.tokens.lookup tid = store.tokens.lookup tid ∨
      after.store.tokens.lookup tid = (store.toSave file).lookup tid

/-- The store holds that very token already, or gets it from the file. -/
def Holds (store : TokensStore) (file : Option File) (tokenID : Text)
    (token : Token) : Prop :=
  store.tokens.lookup tokenID = some (store.settled file tokenID token) ∨
    (store.toSave file).lookup tokenID =
      some (store.settled file tokenID token)

theorem upToMerge_tryPut_iff (store : TokensStore) (file : Option File)
    (step : SaveStep) (tokenID : Text) (token : Token) :
    UpToMerge store file (store.tryPut file (.error step) tokenID token) ↔
      store.Holds file tokenID token := by
  have after := lookup_toSave_place store file tokenID token
  constructor
  · intro kept
    have here := kept.tokens tokenID
    change ((store.place tokenID token).toSave file).lookup tokenID = _ ∨
      ((store.place tokenID token).toSave file).lookup tokenID = _ at here
    rw [after tokenID, if_pos rfl] at here
    exact here.imp Eq.symm Eq.symm
  · intro holds
    refine ⟨rfl, ?_⟩
    intro tid
    change ((store.place tokenID token).toSave file).lookup tid = _ ∨
      ((store.place tokenID token).toSave file).lookup tid = _
    rw [after tid]
    by_cases here : tid = tokenID
    · rw [if_pos here, here]
      exact holds.imp Eq.symm Eq.symm
    · rw [if_neg here]
      exact .inr rfl

theorem upToMerge_tryPutIfAbsent_iff (store : TokensStore)
    (file : Option File) (disk : Disk) (tokenID : Text) (token : Token)
    (failed : (store.tryPutIfAbsent file disk tokenID token).error ≠ none) :
    UpToMerge store file (store.tryPutIfAbsent file disk tokenID token) ↔
      tokenID ∈ store.tokens ∨ store.Holds file tokenID token := by
  rw [tryPutIfAbsent] at failed ⊢
  cases found : store.tokens.lookup tokenID with
  | some taken =>
      have present : tokenID ∈ store.tokens := by
        apply AList.lookup_isSome.mp
        rw [found]
        rfl
      have kept : UpToMerge store file ⟨some .collision, store, file⟩ :=
        ⟨rfl, fun _ => .inl rfl⟩
      exact iff_of_true kept (.inl present)
  | none =>
      have absent : tokenID ∉ store.tokens := AList.lookup_eq_none.mp found
      rw [found] at failed
      cases disk with
      | ok written => exact absurd rfl failed
      | error step =>
          rw [or_iff_right absent]
          exact upToMerge_tryPut_iff store file step tokenID token

end TokensStore

/-- A turn of the loop: the random id, if there was one, and what the save of
`PutIfAbsent` comes to. -/
structure Try where
  tokenID : Option Text
  disk : Disk

inductive IssueError where
  | random
  | put (step : SaveStep)
  | retries
deriving DecidableEq, Repr

/-- The loop of `IssueToken` over the turns that it may still take. -/
def issueLoop (file : Option File) (token : Token) :
    List Try → TokensStore → Except IssueError Text × Written
  | [], store => (.error .retries, ⟨some .collision, store, file⟩)
  | turn :: turns, store =>
      match turn.tokenID with
      | none => (.error .random, ⟨none, store, file⟩)
      | some tokenID =>
          let after := store.tryPutIfAbsent file turn.disk tokenID token
          match after.error with
          | none => (.ok tokenID, after)
          | some .collision => issueLoop file token turns after.store
          | some (.save step) => (.error (.put step), after)

/-- `IssueToken` behind the hashing of the secret, for any sequence of random
ids. -/
def TokensStore.tryIssueToken (store : TokensStore) (file : Option File)
    (turns : Nat → Try) (token : Token) : Except IssueError Text × Written :=
  issueLoop file token ((List.range collisionRetryMax).map turns) store

/-- The first random id that is not taken. -/
def freshId (store : TokensStore) : List Try → Option Text
  | [] => none
  | turn :: turns =>
      match turn.tokenID with
      | none => none
      | some tokenID =>
          if tokenID ∈ store.tokens then freshId store turns else some tokenID

open TokensStore

theorem upToMerge_issueLoop_iff (file : Option File) (token : Token)
    (turns : List Try) (store : TokensStore)
    (failed : ∀ tokenID, (issueLoop file token turns store).1 ≠ .ok tokenID) :
    UpToMerge store file (issueLoop file token turns store).2 ↔
      ∀ tokenID, freshId store turns = some tokenID →
        store.Holds file tokenID token := by
  have unchanged : ∀ error, UpToMerge store file ⟨error, store, file⟩ :=
    fun _ => ⟨rfl, fun _ => .inl rfl⟩
  induction turns with
  | nil =>
      apply iff_of_true (unchanged _)
      intro tokenID none
      cases none
  | cons turn turns induction =>
      obtain ⟨drawn, disk⟩ := turn
      cases drawn with
      | none =>
          apply iff_of_true (unchanged _)
          intro tokenID none
          cases none
      | some tokenID =>
          rw [issueLoop] at failed ⊢
          rw [freshId]
          dsimp only at failed ⊢
          by_cases taken : tokenID ∈ store.tokens
          · -- a collision leaves the store alone, so the next turn decides
            obtain ⟨old, found⟩ := Option.isSome_iff_exists.mp
              (AList.lookup_isSome.mpr taken)
            have collides : store.tryPutIfAbsent file disk tokenID token =
                ⟨some .collision, store, file⟩ := by
              rw [tryPutIfAbsent, found]
            rw [collides] at failed ⊢
            rw [if_pos taken]
            exact induction failed
          · have put : store.tryPutIfAbsent file disk tokenID token =
                store.tryPut file disk tokenID token := by
              rw [tryPutIfAbsent, AList.lookup_eq_none.mpr taken]
            rw [put] at failed ⊢
            rw [if_neg taken]
            cases disk with
            | ok written => exact absurd rfl (failed tokenID)
            | error step =>
                have here := upToMerge_tryPut_iff store file step tokenID token
                change UpToMerge store file
                  (store.tryPut file (.error step) tokenID token) ↔ _
                rw [here]
                constructor
                · intro holds other same
                  cases same
                  exact holds
                · intro holds
                  exact holds tokenID rfl

/-- When a put reports an error, the store is as before up to the merge exactly
when the id was taken or the store held that token anyway. -/
theorem failed_put_upToMerge_iff (store : TokensStore) (file : Option File)
    (token : Token) :
    (∀ disk tokenID,
      (store.tryPut file disk tokenID token).error ≠ none →
        (UpToMerge store file (store.tryPut file disk tokenID token) ↔
          store.Holds file tokenID token)) ∧
    (∀ disk tokenID,
      (store.tryPutIfAbsent file disk tokenID token).error ≠ none →
        (UpToMerge store file
            (store.tryPutIfAbsent file disk tokenID token) ↔
          tokenID ∈ store.tokens ∨ store.Holds file tokenID token)) ∧
    (∀ turns,
      (∀ tokenID, (store.tryIssueToken file turns token).1 ≠ .ok tokenID) →
        (UpToMerge store file (store.tryIssueToken file turns token).2 ↔
          ∀ tokenID,
            freshId store ((List.range collisionRetryMax).map turns) =
                some tokenID →
              store.Holds file tokenID token)) := by
  refine ⟨?_, ?_, ?_⟩
  · intro disk tokenID failed
    cases disk with
    | ok written => exact absurd rfl failed
    | error step => exact upToMerge_tryPut_iff store file step tokenID token
  · intro disk tokenID failed
    exact upToMerge_tryPutIfAbsent_iff store file disk tokenID token failed
  · intro turns failed
    exact upToMerge_issueLoop_iff file token _ store failed

def issuedToken : Token :=
  ⟨"hash".toList, 1700000000, 1700000000, "phone".toList, [], false⟩

def noTokensYet : TokensStore :=
  ⟨∅, 0, ∅⟩

theorem failed_rename_of_put :
    ¬UpToMerge noTokensYet none
      (noTokensYet.tryPut none (.error .rename) "id".toList issuedToken) := by
  intro kept
  have failed : (noTokensYet.tryPut none (.error .rename) "id".toList
      issuedToken).error ≠ none := by
    intro fine
    cases fine
  have exactly := failed_put_upToMerge_iff noTokensYet none issuedToken
  have holds := (exactly.1 (.error .rename) "id".toList failed).mp kept
  rcases holds with same | same
  · cases same
  · cases same

/-- The rename fails: `IssueToken` reports it, the token is found all the same,
and the next `Flush` writes it. -/
theorem failed_issue_stays :
    let turns : Nat → Try := fun _ => ⟨some "id".toList, .error .rename⟩
    let after := noTokensYet.tryIssueToken none turns issuedToken
    let flushed := after.2.store.tryFlush after.2.file (.ok ⟨5, 100⟩)
    after.1 = .error (.put .rename) ∧
      after.2.store.get "id".toList = some issuedToken ∧
      ¬UpToMerge noTokensYet none after.2 ∧
      (flushed.file.map fun file => file.content) =
        some (.tokens (AList.insert "id".toList issuedToken ∅)) := by
  refine ⟨rfl, rfl, ?_, rfl⟩
  intro kept
  rcases kept.tokens "id".toList with same | same
  · cases same
  · cases same

end Httpd
