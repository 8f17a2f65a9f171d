import Hnc.Httpd.TokensCoherence

/-!
# Revocations survive the store

`token_revoke` and `token_revoke_all` set `revoked` in the file while the store
holds an older copy of it.  Either the store saves over a file it has not seen,
and then the merge copies the bit, or it saves over the file it knows, and then
the bit is in its memory already.
-/

namespace Httpd

open Posix
open KeyMap

variable {tid : Text} {token : Token}

namespace System

/-- The token under an id in the file. -/
def fileToken (system : System) (tid : Text) : Option Token :=
  system.fileTokens.bind fun map => map.lookup tid

def RevokedInFile (system : System) (tid : Text) : Prop :=
  ∃ token, system.fileToken tid = some token ∧ token.revoked = true

theorem fileToken_some {system : System}
    (found : system.fileToken tid = some token) :
    ∃ stat map, system.file = some ⟨stat, .tokens map⟩ ∧
      map.lookup tid = some token := by
  cases present : system.file with
  | none => simp [fileToken, fileTokens, present] at found
  | some file =>
      obtain ⟨stat, content⟩ := file
      cases content with
      | malformed =>
          simp [fileToken, fileTokens, present, File.tokens, Content.parsed]
            at found
      | noTokens =>
          simp [fileToken, fileTokens, present, File.tokens, Content.parsed]
            at found
      | tokens map =>
          refine ⟨stat, map, rfl, ?_⟩
          simpa [fileToken, fileTokens, present, File.tokens, Content.parsed]
            using found

section

variable {system : System} {next : Step} {stamp : Stamp} {store : TokensStore}
  (saves : system.saving next = some (stamp, store))
include saves

theorem saving_lastRead :
    store.lastRead = system.store.lastRead := by
  cases next with
  | putIfAbsent _ tokenID token =>
      simp only [saving] at saves
      split at saves
      · cases saves
      · cases saves
        rfl
  | flush _ =>
      cases saves
      rfl
  | prune _ =>
      simp only [saving] at saves
      split at saves
      · cases saves
      · cases saves
        rfl
  | logoutPut _ index =>
      simp only [saving, Option.map_eq_some_iff] at saves
      obtain ⟨copy, _, _, rfl⟩ := saves
      rfl
  | _ => cases saves

/-- A token that is revoked in memory is not saved unrevoked: an insert of its
id collides, and a logout revokes. -/
theorem saving_revoked {known : Token}
    (inMemory : system.store.tokens.lookup tid = some known)
    (revoked : known.revoked = true)
    (found : store.tokens.lookup tid = some token) : token.revoked = true := by
  have unchanged : store.tokens.lookup tid = system.store.tokens.lookup tid →
      token.revoked = true := by
    intro same
    rw [found, inMemory] at same
    cases same
    exact revoked
  cases next with
  | putIfAbsent _ tokenID inserted =>
      simp only [saving] at saves
      split at saves
      · cases saves
      · rename_i absent
        cases saves
        apply unchanged
        have different : tid ≠ tokenID := by
          intro same
          rw [← same, inMemory] at absent
          cases absent
        rw [TokensStore.lookup_place, if_neg different]
  | flush _ =>
      cases saves
      exact unchanged rfl
  | prune _ =>
      simp only [saving] at saves
      split at saves
      · cases saves
      · cases saves
        apply unchanged
        rw [TokensStore.lookup_dropExpired] at found ⊢
        rw [found]
        exact (Option.filter_eq_some_iff.mp found).1.symm
  | logoutPut _ index =>
      simp only [saving, Option.map_eq_some_iff] at saves
      obtain ⟨copy, _, _, rfl⟩ := saves
      rw [TokensStore.lookup_place] at found
      split at found
      · cases found
        rfl
      · rename_i different
        apply unchanged
        rw [TokensStore.lookup_place, if_neg different]
  | _ => cases saves

end

theorem Coherent.revoked_in_memory {system : System} (coherent : system.Coherent)
    (seen : system.store.lastRead = system.clock)
    (revoked : system.RevokedInFile tid) :
    ∃ known, system.store.tokens.lookup tid = some known ∧
      known.revoked = true := by
  obtain ⟨token, found, isRevoked⟩ := revoked
  obtain ⟨map, parsed, agrees⟩ := coherent.current seen
  have onDisk : map.lookup tid = some token := by
    simpa [fileToken, parsed] using found
  have same := (agrees tid).1
  rw [onDisk, Option.map_some, isRevoked, Option.map_eq_some_iff] at same
  exact same

theorem save_revoked {system : System} (coherent : system.Coherent) {next : Step}
    {stamp : Stamp} {store : TokensStore}
    (saves : system.saving next = some (stamp, store))
    (revoked : system.RevokedInFile tid)
    (found : (store.toSave system.file).lookup tid = some token) :
    token.revoked = true := by
  obtain ⟨onDisk, foundOnDisk, revokedOnDisk⟩ := revoked
  obtain ⟨stat, map, present, inMap⟩ := fileToken_some foundOnDisk
  have stamped := coherent.stamped _ present
  have lastRead := saving_lastRead saves
  rw [present] at found
  simp only [TokensStore.toSave] at found
  split at found
  · rw [TokensStore.lookup_merge, inMap] at found
    cases found
    cases inMemory : store.tokens.lookup tid <;>
      simp [joinToken, revokedOnDisk]
  · have seen : system.store.lastRead = system.clock := by
      have := coherent.lastRead_le
      dsimp only at stamped
      omega
    obtain ⟨known, inMemory, revokedInMemory⟩ :=
      coherent.revoked_in_memory seen ⟨onDisk, foundOnDisk, revokedOnDisk⟩
    exact saving_revoked saves inMemory revokedInMemory found

end System

/-- A rewrite of the file other than by the revoking commands. -/
def Step.isRewrite : Step → Bool
  | .write _ _ => true
  | _ => false

/-- A token after a revoking command. -/
def revokeIf (chosen : Bool) (token : Token) : Token :=
  if chosen then { token with revoked := true } else token

theorem revokeIf_revoked {chosen : Bool} (revoked : token.revoked = true) :
    (revokeIf chosen token).revoked = true := by
  cases chosen
  · exact revoked
  · rfl

@[simp] theorem revokeIf_lastSeen (chosen : Bool) (token : Token) :
    (revokeIf chosen token).lastSeen = token.lastSeen := by
  cases chosen <;> rfl

namespace System

variable {system : System}

theorem fileToken_eq {file : File} (present : system.file = some file)
    (tid : Text) :
    system.fileToken tid =
      file.content.parsed.bind fun map => map.lookup tid := by
  simp [fileToken, fileTokens, present, File.tokens]

theorem fileToken_absent (absent : system.file = none) (tid : Text) :
    system.fileToken tid = none := by
  simp [fileToken, fileTokens, absent]

/-- The revoking commands keep all ids and set `revoked` on some of them. -/
theorem external_revokes {next : Step} {stamp : Stamp} {content : Content}
    (writes : system.externalWrite next = some (stamp, content))
    (shell : next.isRewrite = false) :
    ∃ chosen : Text → Bool, ∀ tid,
      (system.external stamp (some content)).fileToken tid =
        (system.fileToken tid).map (revokeIf (chosen tid)) := by
  have onMap : ∀ (chosen : Text → Bool) (map : TokenMap) (tid : Text),
      (revokeTokens chosen map).lookup tid =
        (map.lookup tid).map (revokeIf (chosen tid)) :=
    fun chosen map tid => lookup_revokeTokens chosen map tid
  cases present : system.file with
  | none =>
      refine ⟨fun _ => false, fun tid => ?_⟩
      rw [fileToken_absent present]
      cases next with
      | write _ _ => cases shell
      | tokenRevoke _ _ | tokenRevokeAll _ =>
          simp only [externalWrite, present] at writes
          cases writes
          rfl
      | _ => cases writes
  | some file =>
      obtain ⟨stat, old⟩ := file
      simp only [fileToken_eq present]
      cases next with
      | write _ _ => cases shell
      | tokenRevoke _ revokedId =>
          cases old with
          | malformed | noTokens =>
              simp [externalWrite, present, Httpd.tokenRevoke] at writes
          | tokens map =>
              simp only [externalWrite, present, Option.map_some,
                Httpd.tokenRevoke] at writes
              split at writes
              · cases writes
                exact ⟨_, onMap _ map⟩
              · cases writes
      | tokenRevokeAll _ =>
          cases old with
          | malformed =>
              simp [externalWrite, present, Httpd.tokenRevokeAll] at writes
          | noTokens =>
              simp only [externalWrite, present] at writes
              cases writes
              exact ⟨fun _ => false, fun _ => rfl⟩
          | tokens map =>
              simp only [externalWrite, present] at writes
              cases writes
              exact ⟨_, onMap _ map⟩
      | _ => cases writes

/-- Steps that leave the file as it is keep its revocations. -/
theorem revoked_of_same_file {other : System} (same : other.file = system.file)
    (revoked : system.RevokedInFile tid) : other.RevokedInFile tid := by
  unfold RevokedInFile fileToken fileTokens at revoked ⊢
  rw [same]
  exact revoked

theorem syncRead_file (system : System) :
    system.syncRead.file = system.file := by
  apply syncRead_rule (motive := fun after => after.file = system.file)
  · exact fun _ => rfl
  · rfl
  · exact fun _ _ _ _ => rfl

theorem syncCommit_file (system : System) (index : Nat) :
    (system.syncCommit index).file = system.file := by
  apply syncCommit_rule (motive := fun after => after.file = system.file)
  · rfl
  · exact fun _ _ _ _ => rfl
  · exact fun _ _ _ _ => rfl

theorem logoutGet_file (system : System) (tid : Text) :
    (system.logoutGet tid).file = system.file := by
  unfold logoutGet
  split <;> rfl

theorem step_revoked (system : System) (next : Step)
    (coherent : system.Coherent) (shell : next.isRewrite = false) (tid : Text)
    (revoked : system.RevokedInFile tid)
    (kept : (system.step next).fileToken tid ≠ none) :
    (system.step next).RevokedInFile tid := by
  revert kept
  apply step_rule (motive := fun after =>
    after.fileToken tid ≠ none → after.RevokedInFile tid)
  case saves =>
    intro stamp store saves kept
    obtain ⟨token, found⟩ := Option.ne_none_iff_exists'.mp kept
    exact ⟨token, found, save_revoked coherent saves revoked found⟩
  case writes =>
    intro stamp content writes _
    obtain ⟨chosen, revokes⟩ := external_revokes writes shell
    obtain ⟨token, found, isRevoked⟩ := revoked
    refine ⟨revokeIf (chosen tid) token, ?_, revokeIf_revoked isRevoked⟩
    rw [revokes tid, found]
    rfl
  case quiet => exact fun _ => revoked
  case reads =>
    exact fun _ _ => revoked_of_same_file system.syncRead_file revoked
  case commits =>
    exact fun index _ _ =>
      revoked_of_same_file (system.syncCommit_file index) revoked
  case seen => exact fun _ _ _ => revoked
  case gets =>
    exact fun tid _ _ =>
      revoked_of_same_file (system.logoutGet_file tid) revoked
  case ticks => exact fun _ _ _ => revoked

/-- Once a token is revoked in the file, it is revoked in every later file until
some step removes its id, whatever the order of the revoking commands and of the
steps of the store. -/
theorem revoked_until_removed (content : Option Content) (stamp : Stamp)
    (now : Int) (before later : List Step) (tid : Text)
    (shell : ∀ next ∈ later, next.isRewrite = false)
    (revoked : ((start content stamp now).run before).RevokedInFile tid)
    (kept : ∀ state ∈ Runs.visited step
      ((start content stamp now).run before) later,
      state.fileToken tid ≠ none) :
    ∀ state ∈ Runs.visited step ((start content stamp now).run before) later,
      state.RevokedInFile tid := by
  have guarded : Runs.Guarded step (fun _ next => next.isRewrite = false)
      ((start content stamp now).run before) later :=
    Runs.guarded_of_steps _ shell
  have both := guarded.induction_while
    (fun state => state.Coherent ∧ state.RevokedInFile tid)
    (fun state => state.fileToken tid ≠ none)
    (fun state next holds isShell kept =>
      ⟨step_coherent state next holds.1,
        step_revoked state next holds.1 isShell tid holds.2 kept⟩)
    ⟨run_coherent content stamp now before, revoked⟩ kept
  exact fun state member => (both state member).2

def paired : Token :=
  { hash := "h".toList, created := 3, lastSeen := 3, label := [],
    ipHint := [], revoked := false }

/-- The file before the httpd starts: one token. -/
def onePaired : Content :=
  .tokens (AList.singleton "a".toList paired)

/-- The owner revokes the token while the store holds an older copy. -/
def ownerRevokes : List Step :=
  [.tokenRevoke ⟨0, 200⟩ "a".toList]

def storeGoesOn : List Step :=
  [.updateLastSeen "a".toList, .flush ⟨0, 200⟩, .syncRead, .flush ⟨4, 200⟩,
    .syncCommit 0]

theorem storeGoesOn_keeps_revocation :
    ((start onePaired ⟨0, 200⟩ 5).run (ownerRevokes ++
      storeGoesOn)).RevokedInFile "a".toList := by
  have all := revoked_until_removed onePaired ⟨0, 200⟩ 5 ownerRevokes
    storeGoesOn "a".toList (by decide) ⟨_, rfl, rfl⟩ (by decide +kernel)
  exact all _ (by simp [Runs.visited, run, storeGoesOn, ownerRevokes])

end System

end Httpd
