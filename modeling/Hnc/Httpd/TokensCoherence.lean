import Hnc.Httpd.TokensSystem

/-!
# What the store knows about the file

When the remembered modification time is that of the file, memory and file hold
the same tokens with the same revocations, and they differ at most in what
`UpdateLastSeen` has changed since.  A read that waits for the lock is either
older than the file or the file itself.  This holds in every order of steps.
-/

namespace Httpd

open Posix
open KeyMap

/-- What the merge makes of a token on disk and the one in memory. -/
def joinToken (onDisk : Token) : Option Token → Token
  | none => onDisk
  | some inMemory =>
      { inMemory with revoked := inMemory.revoked || onDisk.revoked }

namespace TokensStore

theorem joinToken_of_learns {onDisk inMemory : Token}
    (learns : (onDisk.revoked && !inMemory.revoked) = true) :
    joinToken onDisk (some inMemory) = { inMemory with revoked := true } := by
  rw [Bool.and_eq_true] at learns
  simp [joinToken, learns.1]

theorem joinToken_of_known {onDisk inMemory : Token}
    (known : ¬(onDisk.revoked && !inMemory.revoked) = true) :
    joinToken onDisk (some inMemory) = inMemory := by
  obtain ⟨hash, created, lastSeen, label, ipHint, revoked⟩ := inMemory
  cases disk : onDisk.revoked <;> cases revoked <;>
    simp_all [joinToken]

theorem lookup_mergeOne (memory : TokenMap) (visited : Text) (onDisk : Token)
    (tid : Text) :
    (mergeOne memory visited onDisk).lookup tid =
      if tid = visited then some (joinToken onDisk (memory.lookup visited))
      else memory.lookup tid := by
  unfold mergeOne
  cases found : memory.lookup visited with
  | none => exact lookup_insert_eq memory tid visited onDisk
  | some inMemory =>
      by_cases learns : (onDisk.revoked && !inMemory.revoked) = true
      · rw [joinToken_of_learns learns]
        dsimp only
        rw [if_pos learns]
        exact lookup_insert_eq memory tid visited _
      · rw [joinToken_of_known learns]
        dsimp only
        rw [if_neg learns]
        by_cases same : tid = visited
        · rw [if_pos same, same, found]
        · rw [if_neg same]

theorem lookup_merge (memory diskTokens : TokenMap) (dirty : Finset Text)
    (tid : Text) :
    (merge memory diskTokens dirty).lookup tid =
      match diskTokens.lookup tid with
      | some onDisk => some (joinToken onDisk (memory.lookup tid))
      | none => if tid ∈ dirty then memory.lookup tid else none := by
  have joined := lookup_foldl mergeOne
    (fun _ onDisk inMemory => some (joinToken onDisk inMemory))
    (fun map visited onDisk tid => lookup_mergeOne map visited onDisk tid)
    memory diskTokens tid
  unfold merge
  rw [lookup_eraseAll, joined]
  cases onDisk : diskTokens.lookup tid with
  | some token =>
      have present : tid ∈ diskTokens := by
        rw [← AList.lookup_isSome, onDisk]
        rfl
      have kept : tid ∉ toDelete (diskTokens.foldl mergeOne memory)
          diskTokens dirty := by
        simp [toDelete, AList.mem_keys.mp present]
      simp [kept]
  | none =>
      have absent : tid ∉ diskTokens.keys :=
        fun member => AList.lookup_eq_none.mp onDisk (AList.mem_keys.mpr member)
      by_cases isDirty : tid ∈ dirty
      · simp [toDelete, isDirty]
      · cases inMemory : memory.lookup tid with
        | none => simp
        | some token =>
            have present : tid ∈ (diskTokens.foldl mergeOne memory).keys := by
              rw [← AList.mem_keys, ← AList.lookup_isSome, joined, onDisk]
              simp [inMemory]
            simp [toDelete, present, absent]

theorem lookup_place (store : TokensStore) (placed : Text) (token : Token)
    (tid : Text) :
    (store.place placed token).tokens.lookup tid =
      if tid = placed then some token else store.tokens.lookup tid :=
  lookup_insert_eq store.tokens tid placed token

theorem lookup_dropExpired (store : TokensStore) (now : Int) (tid : Text) :
    (store.dropExpired now).tokens.lookup tid =
      (store.tokens.lookup tid).filter fun token => !expired now token := by
  unfold dropExpired
  rw [lookup_eraseAll]
  cases found : store.tokens.lookup tid with
  | none => simp
  | some token =>
      have present : tid ∈ store.tokens.keys := by
        rw [← AList.mem_keys, ← AList.lookup_isSome, found]
        rfl
      cases old : expired now token <;>
        simp [expiredIds, present, found, old, Option.filter]

end TokensStore

theorem lookup_revokeTokens (chosen : Text → Bool) (map : TokenMap)
    (tid : Text) :
    (revokeTokens chosen map).lookup tid =
      (map.lookup tid).map fun token =>
        if chosen tid then { token with revoked := true } else token := by
  have visits := lookup_foldl
    (fun (revoked : TokenMap) tid token =>
      if chosen tid then revoked.insert tid { token with revoked := true }
      else revoked)
    (fun tid token old =>
      if chosen tid then some { token with revoked := true } else old)
    (by
      intro map visited token tid
      cases picked : chosen visited with
      | true => simpa [picked] using lookup_insert_eq map tid visited _
      | false =>
          by_cases same : tid = visited
          · subst same
            simp
          · simp [same])
    map map tid
  unfold revokeTokens
  rw [visits]
  cases map.lookup tid with
  | none => rfl
  | some token => cases chosen tid <;> simp

/-- Memory and file hold the same ids with the same revocations, and the same
tokens apart from the dirty ones. -/
def Agrees (store : TokensStore) (map : TokenMap) : Prop :=
  ∀ tid, (store.tokens.lookup tid).map Token.revoked =
      (map.lookup tid).map Token.revoked ∧
    (tid ∉ store.dirty → store.tokens.lookup tid = map.lookup tid)

variable {store : TokensStore}

namespace System

/-- The map of the tokens in the file, if there is a file and it parses. -/
def fileTokens (system : System) : Option TokenMap :=
  system.file.bind File.tokens

structure Coherent (system : System) : Prop where
  positive : 0 < system.clock
  stamped : ∀ file, system.file = some file →
    file.stat.mtime = system.clock
  lastRead_le : system.store.lastRead ≤ system.clock
  current : system.store.lastRead = system.clock →
    ∃ map, system.fileTokens = some map ∧ Agrees system.store map
  reads_le : ∀ read ∈ system.reads, read.2 ≤ system.clock
  reads_current : ∀ read ∈ system.reads, read.2 = system.clock →
    system.fileTokens = some read.1

/-- The store that a step hands to `saveAtomicLocked`. -/
def saving (system : System) : Step → Option (Stamp × TokensStore)
  | .flush stamp => some (stamp, system.store)
  | .putIfAbsent stamp tokenID token =>
      match system.store.tokens.lookup tokenID with
      | some _ => none
      | none => some (stamp, system.store.place tokenID token)
  | .prune stamp =>
      if system.store.expiredIds system.now = [] then none
      else some (stamp, system.store.dropExpired system.now)
  | .logoutPut stamp index =>
      system.logouts[index]?.map fun copy =>
        (stamp, system.store.place copy.1 { copy.2 with revoked := true })
  | _ => none

/-- The logouts that are still between `Get` and `Put` after a step. -/
def waiting (system : System) : Step → List (Text × Token)
  | .logoutPut _ index => system.logouts.eraseIdx index
  | _ => system.logouts

/-- `store` is saved over the file. -/
def save (system : System) (stamp : Stamp) (store : TokensStore)
    (logouts : List (Text × Token)) : System :=
  { system with logouts := logouts }.saved
    (store.saveAtomicLocked system.file (system.stat stamp))

/-- All steps that write the file write it in the same way. -/
theorem step_of_saving {system : System} {next : Step} {stamp : Stamp}
    (saves : system.saving next = some (stamp, store)) :
    system.step next = system.save stamp store (system.waiting next) := by
  cases next with
  | putIfAbsent _ tokenID token =>
      simp only [saving] at saves
      split at saves
      · cases saves
      · rename_i absent
        cases saves
        simp [step, putIfAbsent, TokensStore.putIfAbsent, absent,
          TokensStore.put, save, waiting]
  | flush _ =>
      cases saves
      rfl
  | prune _ =>
      simp only [saving] at saves
      split at saves
      · cases saves
      · rename_i some_expired
        cases saves
        simp [step, prune, TokensStore.prune, some_expired, save, waiting]
  | logoutPut _ index =>
      cases copy : system.logouts[index]? with
      | none => simp [saving, copy] at saves
      | some entry =>
          simp only [saving, copy] at saves
          obtain ⟨rfl, rfl⟩ := saves
          simp [step, logoutPut, copy, TokensStore.put, save, waiting]
  | _ => cases saves

/-- What another process writes in a step. -/
def externalWrite (system : System) : Step → Option (Stamp × Content)
  | .write stamp content => some (stamp, content)
  | .tokenRevoke stamp tid =>
      (Httpd.tokenRevoke (system.file.map File.content) tid).map (stamp, ·)
  | .tokenRevokeAll stamp =>
      (Httpd.tokenRevokeAll (system.file.map File.content)).map (stamp, ·)
  | _ => none

/-- The kinds of steps: a save, a write by another process, nothing at all, and
the steps of the store that touch the memory only. -/
theorem step_rule {system : System} {next : Step} {motive : System → Prop}
    (saves : ∀ stamp store, system.saving next = some (stamp, store) →
      motive (system.save stamp store (system.waiting next)))
    (writes : ∀ stamp content,
      system.externalWrite next = some (stamp, content) →
      motive (system.external stamp (some content)))
    (quiet : motive system)
    (reads : next = .syncRead → motive system.syncRead)
    (commits : ∀ index, next = .syncCommit index →
      motive (system.syncCommit index))
    (seen : ∀ tokenID, next = .updateLastSeen tokenID →
      motive { system with
        store := system.store.updateLastSeen system.now tokenID })
    (gets : ∀ tid, next = .logoutGet tid → motive (system.logoutGet tid))
    (ticks : ∀ seconds : Nat, next = .tick seconds →
      motive { system with now := system.now + seconds }) :
    motive (system.step next) := by
  cases saved : system.saving next with
  | some result =>
      rw [step_of_saving saved]
      exact saves _ _ saved
  | none =>
      cases next with
      | write stamp content => exact writes stamp content rfl
      | tokenRevoke stamp tid =>
          cases content : Httpd.tokenRevoke (system.file.map File.content) tid
            with
          | none => simpa [step, external, content] using quiet
          | some new =>
              simp only [step, content]
              exact writes stamp new (by simp [externalWrite, content])
      | tokenRevokeAll stamp =>
          cases content : Httpd.tokenRevokeAll (system.file.map File.content)
            with
          | none => simpa [step, external, content] using quiet
          | some new =>
              simp only [step, content]
              exact writes stamp new (by simp [externalWrite, content])
      | syncRead => exact reads rfl
      | syncCommit index => exact commits index rfl
      | putIfAbsent stamp tokenID token =>
          cases present : system.store.tokens.lookup tokenID with
          | none => simp [saving, present] at saved
          | some old =>
              simpa [step, putIfAbsent, TokensStore.putIfAbsent, present]
                using quiet
      | updateLastSeen tokenID => exact seen tokenID rfl
      | flush stamp => cases saved
      | prune stamp =>
          by_cases none_expired : system.store.expiredIds system.now = []
          · simpa [step, prune, TokensStore.prune, none_expired] using quiet
          · simp [saving, none_expired] at saved
      | logoutGet tid => exact gets tid rfl
      | logoutPut stamp index =>
          cases copy : system.logouts[index]? with
          | none => simpa [step, logoutPut, copy] using quiet
          | some entry => simp [saving, copy] at saved
      | tick seconds => exact ticks seconds rfl

end System

namespace System

theorem syncRead_rule {system : System} {motive : System → Prop}
    (absent : system.file = none →
      motive { system with store := system.store.forget })
    (quiet : motive system)
    (reads : ∀ file tokens, system.file = some file →
      system.fileTokens = some tokens →
      motive { system with
        reads := (tokens, file.stat.mtime) :: system.reads }) :
    motive system.syncRead := by
  unfold syncRead
  rw [attempt_unchanged]
  cases present : system.file with
  | none =>
      have forgotten := absent present
      rw [present] at forgotten
      exact forgotten
  | some file =>
      dsimp only
      split
      · cases parsed : file.content.parsed with
        | none => exact quiet
        | some tokens =>
            have read := reads file tokens present
              (by simp [fileTokens, present, File.tokens, parsed])
            rw [present] at read
            exact read
      · exact quiet

theorem syncCommit_rule {system : System} {index : Nat}
    {motive : System → Prop} (quiet : motive system)
    (stale : ∀ tokens newMtime, (tokens, newMtime) ∈ system.reads →
      newMtime ≤ system.store.lastRead →
      motive { system with reads := system.reads.eraseIdx index })
    (commits : ∀ tokens newMtime, (tokens, newMtime) ∈ system.reads →
      system.store.lastRead < newMtime →
      motive { system with
        store := { tokens := tokens, lastRead := newMtime, dirty := ∅ }
        reads := system.reads.eraseIdx index }) :
    motive (system.syncCommit index) := by
  unfold syncCommit
  cases read : system.reads[index]? with
  | none => exact quiet
  | some entry =>
      obtain ⟨tokens, newMtime⟩ := entry
      have member := List.mem_of_getElem? read
      simp only [TokensStore.commit]
      split
      · rename_i old
        exact stale tokens newMtime member old
      · exact commits tokens newMtime member (by omega)

end System

theorem agrees_of_eq (map : TokenMap) (same : store.tokens = map) :
    Agrees store map := by
  intro tid
  rw [same]
  exact ⟨rfl, fun _ => rfl⟩

/-- `UpdateLastSeen` keeps the revocations and marks what it changes. -/
theorem updateLastSeen_agrees {map : TokenMap} (agrees : Agrees store map)
    (now : Int) (tokenID : Text) :
    Agrees (store.updateLastSeen now tokenID) map := by
  unfold TokensStore.updateLastSeen
  cases found : store.tokens.lookup tokenID with
  | none => exact agrees
  | some token =>
      intro tid
      obtain ⟨sameRevoked, clean⟩ := agrees tid
      rw [TokensStore.lookup_place]
      by_cases same : tid = tokenID
      · subst same
        rw [if_pos rfl]
        refine ⟨?_, ?_⟩
        · rw [found] at sameRevoked
          exact sameRevoked
        · intro notDirty
          exact absurd (Finset.mem_insert_self _ _) notDirty
      · rw [if_neg same]
        refine ⟨sameRevoked, ?_⟩
        intro notDirty
        exact clean fun dirty =>
          notDirty (Finset.mem_insert_of_mem dirty)

@[simp] theorem updateLastSeen_lastRead (store : TokensStore) (now : Int)
    (tokenID : Text) :
    (store.updateLastSeen now tokenID).lastRead = store.lastRead := by
  unfold TokensStore.updateLastSeen
  split <;> rfl

namespace System

theorem stat_later (system : System) (stamp : Stamp) :
    system.clock < (system.stat stamp).mtime := by
  simp only [stat]
  omega

section

variable {system : System} (coherent : system.Coherent)
include coherent

/-- Whoever writes the file, what the store and the waiting reads know of it is
then older than the file. -/
theorem Coherent.written (stamp : Stamp) (content : Content) :
    (system.written
      { stat := system.stat stamp, content := content }).Coherent := by
  have later := system.stat_later stamp
  have positive := coherent.positive
  constructor
  case positive =>
    simp only [System.written]
    omega
  case stamped =>
    intro file present
    cases present
    rfl
  case lastRead_le =>
    have old := coherent.lastRead_le
    simp only [System.written]
    omega
  case current =>
    intro same
    have old := coherent.lastRead_le
    simp only [System.written] at same
    omega
  case reads_le =>
    intro read member
    have old := coherent.reads_le read member
    simp only [System.written]
    omega
  case reads_current =>
    intro read member same
    have old := coherent.reads_le read member
    simp only [System.written] at same
    omega

theorem Coherent.save (stamp : Stamp) (store : TokensStore)
    (logouts : List (Text × Token)) :
    (system.save stamp store logouts).Coherent := by
  have written := coherent.written stamp
    (.tokens (store.toSave system.file))
  constructor
  case positive => exact written.positive
  case stamped => exact written.stamped
  case lastRead_le => exact le_refl _
  case current =>
    intro _
    exact ⟨store.toSave system.file, rfl, agrees_of_eq _ rfl⟩
  case reads_le => exact written.reads_le
  case reads_current => exact written.reads_current

theorem Coherent.syncRead :
    system.syncRead.Coherent := by
  apply syncRead_rule
  · intro _
    have positive := coherent.positive
    constructor
    case positive => exact coherent.positive
    case stamped => exact coherent.stamped
    case lastRead_le =>
      simp only [TokensStore.forget]
      omega
    case current =>
      intro same
      simp only [TokensStore.forget] at same
      omega
    case reads_le => exact coherent.reads_le
    case reads_current => exact coherent.reads_current
  · exact coherent
  · intro file tokens present parsed
    constructor
    case positive => exact coherent.positive
    case stamped => exact coherent.stamped
    case lastRead_le => exact coherent.lastRead_le
    case current => exact coherent.current
    case reads_le =>
      intro read member
      rcases List.mem_cons.mp member with rfl | old
      · exact (coherent.stamped file present).le
      · exact coherent.reads_le read old
    case reads_current =>
      intro read member
      rcases List.mem_cons.mp member with rfl | old
      · exact fun _ => parsed
      · exact coherent.reads_current read old

theorem Coherent.syncCommit (index : Nat) :
    (system.syncCommit index).Coherent := by
  have kept : ∀ read ∈ system.reads.eraseIdx index, read ∈ system.reads :=
    fun read member => List.mem_of_mem_eraseIdx member
  apply syncCommit_rule
  · exact coherent
  · intro _ _ _ _
    constructor
    case positive => exact coherent.positive
    case stamped => exact coherent.stamped
    case lastRead_le => exact coherent.lastRead_le
    case current => exact coherent.current
    case reads_le => exact fun read member =>
      coherent.reads_le read (kept read member)
    case reads_current => exact fun read member =>
      coherent.reads_current read (kept read member)
  · intro tokens newMtime member _
    constructor
    case positive => exact coherent.positive
    case stamped => exact coherent.stamped
    case lastRead_le => exact coherent.reads_le _ member
    case current =>
      intro same
      exact ⟨tokens, coherent.reads_current _ member same, agrees_of_eq _ rfl⟩
    case reads_le => exact fun read member =>
      coherent.reads_le read (kept read member)
    case reads_current => exact fun read member =>
      coherent.reads_current read (kept read member)

end

theorem step_coherent (system : System) (next : Step)
    (coherent : system.Coherent) : (system.step next).Coherent := by
  apply step_rule
  case saves =>
    intro stamp store _
    exact coherent.save stamp store _
  case writes =>
    intro stamp content _
    exact coherent.written stamp content
  case quiet => exact coherent
  case reads => exact fun _ => coherent.syncRead
  case commits => exact fun index _ => coherent.syncCommit index
  case seen =>
    intro tokenID _
    constructor
    case positive => exact coherent.positive
    case stamped => exact coherent.stamped
    case lastRead_le => simpa using coherent.lastRead_le
    case current =>
      intro same
      rw [updateLastSeen_lastRead] at same
      obtain ⟨map, parsed, agrees⟩ := coherent.current same
      exact ⟨map, parsed, updateLastSeen_agrees agrees system.now tokenID⟩
    case reads_le => exact coherent.reads_le
    case reads_current => exact coherent.reads_current
  case gets =>
    intro tid _
    unfold logoutGet
    split
    · exact coherent
    · exact ⟨coherent.positive, coherent.stamped, coherent.lastRead_le,
        coherent.current, coherent.reads_le, coherent.reads_current⟩
  case ticks =>
    intro seconds _
    exact ⟨coherent.positive, coherent.stamped, coherent.lastRead_le,
      coherent.current, coherent.reads_le, coherent.reads_current⟩

/-- The first load brings the file into memory, or leaves the store empty when
there is nothing to load. -/
theorem newTokensStore_loads (file : Option File)
    (positive : ∀ present, file = some present → 0 < present.stat.mtime) :
    let store := TokensStore.newTokensStore fun _ => file
    (store.lastRead = 0 ∧ store.tokens = ∅ ∧ file.bind File.tokens = none) ∨
      ∃ present, file = some present ∧
        store.lastRead = present.stat.mtime ∧
        present.tokens = some store.tokens := by
  simp only [TokensStore.newTokensStore]
  cases file with
  | none =>
      left
      exact ⟨rfl, rfl, rfl⟩
  | some file =>
      cases parsed : file.tokens with
      | none =>
          left
          rw [TokensStore.reload_malformed _ parsed]
          exact ⟨rfl, rfl, parsed⟩
      | some tokens =>
          right
          have notSkipped : ¬file.stat.mtime ≤ 0 := by
            have := positive file rfl
            omega
          rw [TokensStore.reload_unchanged _ parsed]
          simp [TokensStore.commit, notSkipped, parsed]

section

variable (content : Option Content) (stamp : Stamp) (now : Int)
include content stamp now

theorem start_stamped (file : File)
    (present : (start content stamp now).file = some file) :
    file.stat.mtime = 1 + stamp.delay := by
  cases content with
  | none => cases present
  | some content =>
      cases present
      rfl

theorem start_loads :
    ((start content stamp now).store.lastRead = 0 ∧
      (start content stamp now).store.tokens = ∅ ∧
      (start content stamp now).fileTokens = none) ∨
    ∃ file, (start content stamp now).file = some file ∧
      (start content stamp now).store.lastRead = file.stat.mtime ∧
      file.tokens = some (start content stamp now).store.tokens := by
  refine newTokensStore_loads (start content stamp now).file ?_
  intro present here
  rw [start_stamped content stamp now present here]
  omega

theorem start_coherent : (start content stamp now).Coherent := by
  have positive : (0 : Int) < 1 + stamp.delay := by omega
  have stamped := start_stamped content stamp now
  have loaded := start_loads content stamp now
  constructor
  case positive => exact positive
  case stamped => exact stamped
  case lastRead_le =>
    rcases loaded with ⟨never, _⟩ | ⟨file, present, same, _⟩
    · rw [never]
      exact positive.le
    · rw [same, stamped file present]
      exact le_refl _
  case current =>
    intro same
    rcases loaded with ⟨never, _⟩ | ⟨file, present, _, parsed⟩
    · rw [never] at same
      exact absurd same positive.ne
    · refine ⟨_, ?_, agrees_of_eq _ rfl⟩
      rw [fileTokens, present]
      exact parsed
  case reads_le =>
    intro read member
    cases member
  case reads_current =>
    intro read member
    cases member

/-- The store and the file are coherent in every reachable state. -/
theorem run_coherent (steps : List Step) :
    ((start content stamp now).run steps).Coherent :=
  Runs.foldl_induction Coherent step_coherent (start_coherent ..) steps

end

end System

end Httpd
