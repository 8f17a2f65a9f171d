import Hnc.Httpd.TokensDeletion

/-!
# The last request of a token

`UpdateLastSeen` stamps a token in memory only.  A save keeps the stamp, also
when it merges, but a reload replaces the whole memory, `Prune` may bring back
the copy on disk, and a logout puts back the copy it took before.  When none of
these meets a stamp that is not on disk yet, `LastSeen` never decreases.
-/

namespace Httpd

open Posix
open KeyMap

/-- The steps that `LastSeen` of `tid` has to survive: everything but a foreign
rewrite of the file and the issue of another token under the same id. -/
def Step.keepsIdentity (tid : Text) : Step → Bool
  | .write _ _ => false
  | .putIfAbsent _ tokenID _ => tokenID != tid
  | _ => true

namespace System

def memSeen (system : System) (tid : Text) : Option Int :=
  (system.store.tokens.lookup tid).map Token.lastSeen

def fileSeen (system : System) (tid : Text) : Option Int :=
  (system.fileToken tid).map Token.lastSeen

/-- The file on disk is newer than what the store has read. -/
def fileIsNewer (system : System) : Bool :=
  system.file.any fun file => decide (system.store.lastRead < file.stat.mtime)

/-- No reload and no expiry meets an unsaved change of `tid`, and `tid` is not
stamped while a logout of it is between `Get` and `Put`. -/
def Undisturbed (tid : Text) (system : System) : Step → Prop
  | .syncCommit index => ∀ read, system.reads[index]? = some read →
      system.store.lastRead < read.2 → tid ∉ system.store.dirty
  | .prune _ => system.fileIsNewer = true → tid ∈ system.store.dirty →
      tid ∉ system.store.expiredIds system.now
  | .updateLastSeen tokenID =>
      tokenID = tid → ∀ copy ∈ system.logouts, copy.1 ≠ tid
  | _ => True

structure Steady (tid : Text) (system : System) : Prop where
  coherent : system.Coherent
  noReads : system.file = none → system.reads = []
  clean : tid ∉ system.store.dirty →
    system.memSeen tid = system.fileSeen tid
  present : system.memSeen tid = none ↔ system.fileSeen tid = none
  reads : ∀ read ∈ system.reads, system.store.lastRead < read.2 →
    (read.1.lookup tid).map Token.lastSeen = system.fileSeen tid
  copies : ∀ copy ∈ system.logouts, copy.1 = tid →
    copy.2.lastSeen ≤ system.now ∧
      (∀ other ∈ system.logouts, other.1 = tid →
        other.2.lastSeen = copy.2.lastSeen) ∧
      ∀ seen, system.memSeen tid = some seen → seen = copy.2.lastSeen
  past : ∀ seen, system.memSeen tid = some seen → seen ≤ system.now

/-- What a save leaves of the stamp of `tid`: it is gone, it is the one in
memory, or it is the one that a logout puts back. -/
inductive SavedSeen (tid : Text) (system : System) (next : Step) :
    Option Int → Prop where
  | gone : SavedSeen tid system next none
  | kept : SavedSeen tid system next (system.memSeen tid)
  | putBack (stamp : Stamp) (index : Nat) (copy : Text × Token)
      (isPut : next = .logoutPut stamp index)
      (waiting : system.logouts[index]? = some copy) (own : copy.1 = tid) :
      SavedSeen tid system next (some copy.2.lastSeen)

variable {store : TokensStore} {tid : Text}

/-- A token in the saved memory keeps its stamp. -/
theorem toSave_seen_of_present (file : Option File) {token : Token}
    (inMemory : store.tokens.lookup tid = some token) :
    ((store.toSave file).lookup tid).map Token.lastSeen = none ∨
      ((store.toSave file).lookup tid).map Token.lastSeen =
        some token.lastSeen := by
  unfold TokensStore.toSave
  split
  · right
    rw [inMemory]
    rfl
  · split
    · split
      · rw [TokensStore.lookup_merge, inMemory]
        split
        · right
          rfl
        · split
          · right
            rfl
          · left
            rfl
      · right
        rw [inMemory]
        rfl
    · right
      rw [inMemory]
      rfl

/-- A token that is not in the saved memory is at most brought back from a newer
file. -/
theorem toSave_seen_of_absent {system : System}
    (sameLastRead : store.lastRead = system.store.lastRead)
    (absent : store.tokens.lookup tid = none) :
    ((store.toSave system.file).lookup tid).map Token.lastSeen = none ∨
      system.fileIsNewer = true ∧
        ((store.toSave system.file).lookup tid).map Token.lastSeen =
          system.fileSeen tid := by
  unfold TokensStore.toSave
  cases present : system.file with
  | none =>
      left
      simp [absent]
  | some file =>
      dsimp only
      split
      · rename_i newer
        have isNewer : system.fileIsNewer = true := by
          simp [fileIsNewer, present, ← sameLastRead, newer]
        cases content : file.content with
        | malformed | noTokens =>
            left
            simp [absent]
        | tokens map =>
            refine .inr ⟨isNewer, ?_⟩
            have onDisk : system.fileToken tid = map.lookup tid := by
              simp [fileToken, fileTokens, present, File.tokens, content,
                Content.parsed]
            rw [TokensStore.lookup_merge, absent, fileSeen, onDisk]
            cases map.lookup tid with
            | none => simp
            | some token => rfl
      · left
        simp [absent]

theorem savedSeen_of_same {system : System} (next : Step)
    (steady : Steady tid system)
    (sameLastRead : store.lastRead = system.store.lastRead)
    (same : store.tokens.lookup tid = system.store.tokens.lookup tid) :
    SavedSeen tid system next
      (((store.toSave system.file).lookup tid).map Token.lastSeen) := by
  cases inMemory : system.store.tokens.lookup tid with
  | some token =>
      rw [inMemory] at same
      rcases toSave_seen_of_present system.file same with gone | kept
      · rw [gone]
        exact .gone
      · have unchanged : some token.lastSeen = system.memSeen tid := by
          simp [memSeen, inMemory]
        rw [kept, unchanged]
        exact .kept
  | none =>
      rw [inMemory] at same
      have notOnDisk : system.fileSeen tid = none :=
        steady.present.mp (by simp [memSeen, inMemory])
      rcases toSave_seen_of_absent sameLastRead same with
        gone | ⟨_, fromDisk⟩
      · rw [gone]
        exact .gone
      · rw [fromDisk, notOnDisk]
        exact .gone

theorem mem_expiredIds {now : Int} {token : Token}
    (found : store.tokens.lookup tid = some token)
    (old : TokensStore.expired now token = true) :
    tid ∈ store.expiredIds now := by
  have present : tid ∈ store.tokens.keys := by
    rw [← AList.mem_keys, ← AList.lookup_isSome, found]
    rfl
  simp [TokensStore.expiredIds, present, found, old]

variable {stamp : Stamp}

/-- `Prune` deletes an expired stamp or leaves it, and brings nothing older
back. -/
theorem savedSeen_of_prune {system : System} (steady : Steady tid system)
    (undisturbed : system.Undisturbed tid (.prune stamp)) :
    SavedSeen tid system (.prune stamp)
      ((((system.store.dropExpired system.now).toSave
        system.file).lookup tid).map Token.lastSeen) := by
  have lookup := system.store.lookup_dropExpired system.now tid
  cases inMemory : system.store.tokens.lookup tid with
  | none =>
      refine savedSeen_of_same _ steady rfl ?_
      rw [lookup, inMemory]
      rfl
  | some token =>
      cases old : TokensStore.expired system.now token with
      | false =>
          refine savedSeen_of_same _ steady rfl ?_
          rw [lookup, inMemory]
          simp [old]
      | true =>
          have absent : (system.store.dropExpired
              system.now).tokens.lookup tid = none := by
            rw [lookup, inMemory]
            simp [old]
          have sameLastRead : (system.store.dropExpired
              system.now).lastRead = system.store.lastRead := rfl
          rcases toSave_seen_of_absent sameLastRead absent with
            gone | ⟨newer, fromDisk⟩
          · rw [gone]
            exact .gone
          · have notDirty : tid ∉ system.store.dirty := fun dirty =>
              undisturbed newer dirty (mem_expiredIds inMemory old)
            rw [fromDisk, ← steady.clean notDirty]
            exact .kept

variable {next : Step}

theorem savedSeen_of_saving {system : System} (steady : Steady tid system)
    (saves : system.saving next = some (stamp, store))
    (sameToken : next.keepsIdentity tid = true)
    (undisturbed : system.Undisturbed tid next) :
    SavedSeen tid system next
      (((store.toSave system.file).lookup tid).map Token.lastSeen) := by
  have sameLastRead := saving_lastRead saves
  cases next with
  | putIfAbsent _ tokenID token =>
      simp only [saving] at saves
      split at saves
      · cases saves
      · cases saves
        have different : tid ≠ tokenID := by
          intro same
          simp [Step.keepsIdentity, same] at sameToken
        refine savedSeen_of_same _ steady sameLastRead ?_
        rw [TokensStore.lookup_place, if_neg different]
  | flush _ =>
      cases saves
      exact savedSeen_of_same _ steady rfl rfl
  | prune _ =>
      simp only [saving] at saves
      split at saves
      · cases saves
      · cases saves
        exact savedSeen_of_prune steady undisturbed
  | logoutPut _ index =>
      simp only [saving, Option.map_eq_some_iff] at saves
      obtain ⟨copy, waiting, _, rfl⟩ := saves
      by_cases own : copy.1 = tid
      · have placed : (system.store.place copy.1
            { copy.2 with revoked := true }).tokens.lookup tid =
            some { copy.2 with revoked := true } := by
          rw [TokensStore.lookup_place, if_pos own.symm]
        rcases toSave_seen_of_present system.file placed with gone | put
        · rw [gone]
          exact .gone
        · rw [put]
          exact .putBack _ index copy rfl waiting own
      · refine savedSeen_of_same _ steady sameLastRead ?_
        rw [TokensStore.lookup_place, if_neg fun same => own same.symm]
  | _ => cases saves

/-- What a step may do to the stamp of `tid`: nothing, or a later one. -/
def NotEarlier (tid : Text) (system after : System) : Prop :=
  ∀ seen later, system.memSeen tid = some seen →
    after.memSeen tid = some later → seen ≤ later

theorem notEarlier_of_same {system after : System}
    (same : after.memSeen tid = system.memSeen tid) :
    NotEarlier tid system after := by
  intro seen later before now
  rw [same, before] at now
  cases now
  exact le_refl _

theorem waiting_subset (system : System) (next : Step) :
    ∀ copy ∈ system.waiting next, copy ∈ system.logouts := by
  intro copy member
  cases next with
  | logoutPut _ index => exact List.mem_of_mem_eraseIdx member
  | _ => exact member

section

variable {system : System}

theorem save_steady (steady : Steady tid system)
    (saves : system.saving next = some (stamp, store))
    (sameToken : next.keepsIdentity tid = true)
    (undisturbed : system.Undisturbed tid next) :
    Steady tid (system.save stamp store (system.waiting next)) ∧
      NotEarlier tid system
        (system.save stamp store (system.waiting next)) := by
  have result := savedSeen_of_saving steady saves sameToken undisturbed
  have coherent := steady.coherent.save stamp store (system.waiting next)
  have seenEq : (system.save stamp store (system.waiting next)).memSeen tid =
      ((store.toSave system.file).lookup tid).map Token.lastSeen := rfl
  have fileEq : (system.save stamp store (system.waiting next)).fileSeen tid =
      ((store.toSave system.file).lookup tid).map Token.lastSeen := rfl
  have subset := system.waiting_subset next
  -- The saved stamp agrees with all copies that still wait.
  have agrees : ∀ seen, ((store.toSave system.file).lookup tid).map
      Token.lastSeen = some seen → seen ≤ system.now ∧
        (∀ copy ∈ system.logouts, copy.1 = tid →
          seen = copy.2.lastSeen) ∧
        ∀ old, system.memSeen tid = some old → old = seen := by
    intro seen saved
    generalize ((store.toSave system.file).lookup tid).map Token.lastSeen =
      stampSeen at result saved
    cases result with
    | gone => cases saved
    | kept =>
        refine ⟨steady.past seen saved, ?_, ?_⟩
        · intro copy member own
          exact (steady.copies copy member own).2.2 seen saved
        · intro old before
          rw [saved] at before
          cases before
          rfl
    | putBack _ index copy _ waiting own =>
        cases saved
        have member := List.mem_of_getElem? waiting
        obtain ⟨past, others, memory⟩ := steady.copies copy member own
        refine ⟨past, ?_, memory⟩
        intro other otherMember otherOwn
        exact (others other otherMember otherOwn).symm
  refine ⟨?_, ?_⟩
  · constructor
    case coherent => exact coherent
    case noReads => intro absent; cases absent
    case clean =>
      intro _
      rw [seenEq, fileEq]
    case present => rw [seenEq, fileEq]
    case reads =>
      intro read member newer
      have old := steady.coherent.reads_le read member
      have later := system.stat_later stamp
      have newer : (system.stat stamp).mtime < read.2 := newer
      omega
    case copies =>
      intro copy member own
      obtain ⟨past, others, _⟩ := steady.copies copy (subset copy member) own
      refine ⟨past, ?_, ?_⟩
      · intro other otherMember otherOwn
        exact others other (subset other otherMember) otherOwn
      · intro seen saved
        exact (agrees seen saved).2.1 copy (subset copy member) own
    case past =>
      intro seen saved
      exact (agrees seen saved).1
  · intro seen later before saved
    exact ((agrees later saved).2.2 seen before).le

/-- The revoking commands keep all stamps. -/
theorem external_seen {content : Content}
    (writes : system.externalWrite next = some (stamp, content))
    (sameToken : next.keepsIdentity tid = true) :
    (system.external stamp (some content)).fileSeen tid =
      system.fileSeen tid := by
  have shell : next.isRewrite = false := by
    cases next with
    | write _ _ => cases sameToken
    | _ => rfl
  obtain ⟨chosen, revokes⟩ := external_revokes writes shell
  rw [fileSeen, revokes tid, Option.map_map]
  congr 1
  funext token
  exact revokeIf_lastSeen _ token

theorem external_steady {content : Content} (steady : Steady tid system)
    (writes : system.externalWrite next = some (stamp, content))
    (sameToken : next.keepsIdentity tid = true) :
    Steady tid (system.external stamp (some content)) := by
  have sameFile := external_seen writes sameToken
  have sameMemory : (system.external stamp (some content)).memSeen tid =
      system.memSeen tid := rfl
  constructor
  case coherent => exact steady.coherent.written stamp content
  case noReads => intro absent; cases absent
  case clean =>
    intro notDirty
    rw [sameFile]
    exact steady.clean notDirty
  case present =>
    rw [sameFile]
    exact steady.present
  case reads =>
    rw [sameFile]
    exact steady.reads
  case copies => exact steady.copies
  case past => exact steady.past

theorem syncRead_memSeen (steady : Steady tid system) :
    Steady tid system.syncRead ∧
      system.syncRead.memSeen tid = system.memSeen tid := by
  have coherent := steady.coherent.syncRead
  revert coherent
  apply syncRead_rule (motive := fun after => after.Coherent →
    Steady tid after ∧ after.memSeen tid = system.memSeen tid)
  · intro absent coherent
    have noFile : system.fileSeen tid = none := by
      rw [fileSeen, fileToken_absent absent]
      rfl
    have noMemory : system.memSeen tid = none := steady.present.mpr noFile
    have after : ({ system with
        store := system.store.forget } : System).memSeen tid = none := rfl
    refine ⟨?_, by rw [after, noMemory]⟩
    constructor
    case coherent => exact coherent
    case noReads => exact steady.noReads
    case clean =>
      intro _
      exact noFile.symm
    case present =>
      exact ⟨fun _ => noFile, fun _ => rfl⟩
    case reads =>
      intro read member _
      have none := steady.noReads absent
      simp [none] at member
    case copies =>
      intro copy member own
      obtain ⟨past, others, _⟩ := steady.copies copy member own
      refine ⟨past, others, ?_⟩
      intro seen found
      cases found
    case past =>
      intro seen found
      cases found
  · intro _
    exact ⟨steady, rfl⟩
  · intro file tokens present parsed coherent
    refine ⟨?_, rfl⟩
    constructor
    case coherent => exact coherent
    case noReads => intro absent; rw [absent] at present; cases present
    case clean => exact steady.clean
    case present => exact steady.present
    case reads =>
      intro read member newer
      rcases List.mem_cons.mp member with rfl | old
      · have found : system.fileToken tid = tokens.lookup tid := by
          simp [fileToken, parsed]
        rw [← found]
        rfl
      · exact steady.reads read old newer
    case copies => exact steady.copies
    case past => exact steady.past

theorem syncCommit_memSeen {index : Nat} (steady : Steady tid system)
    (undisturbed : system.Undisturbed tid (.syncCommit index)) :
    Steady tid (system.syncCommit index) ∧
      (system.syncCommit index).memSeen tid = system.memSeen tid := by
  have coherent := steady.coherent.syncCommit index
  have kept : ∀ read ∈ system.reads.eraseIdx index, read ∈ system.reads :=
    fun read member => List.mem_of_mem_eraseIdx member
  have stillNone : system.file = none → system.reads.eraseIdx index = [] := by
    intro absent
    rw [steady.noReads absent]
    rfl
  unfold syncCommit at coherent ⊢
  cases found : system.reads[index]? with
  | none => exact ⟨steady, rfl⟩
  | some read =>
      obtain ⟨tokens, newMtime⟩ := read
      have member := List.mem_of_getElem? found
      rw [found] at coherent
      simp only [TokensStore.commit] at coherent ⊢
      by_cases old : newMtime ≤ system.store.lastRead
      · rw [if_pos old] at coherent ⊢
        refine ⟨?_, rfl⟩
        constructor
        case coherent => exact coherent
        case noReads => exact stillNone
        case clean => exact steady.clean
        case present => exact steady.present
        case reads => exact fun read member =>
          steady.reads read (kept read member)
        case copies => exact steady.copies
        case past => exact steady.past
      · rw [if_neg old] at coherent ⊢
        have newer : system.store.lastRead < newMtime := by omega
        have notDirty := undisturbed _ found newer
        have inRead : (tokens.lookup tid).map Token.lastSeen =
            system.fileSeen tid := steady.reads _ member newer
        have same : (tokens.lookup tid).map Token.lastSeen =
            system.memSeen tid := inRead.trans (steady.clean notDirty).symm
        refine ⟨?_, same⟩
        constructor
        case coherent => exact coherent
        case noReads => exact stillNone
        case clean => exact fun _ => inRead
        case present =>
          simp only [memSeen, inRead]
          exact Iff.rfl
        case reads =>
          intro read readMember later
          have later : newMtime < read.2 := later
          exact steady.reads read (kept read readMember) (by omega)
        case copies =>
          intro copy copyMember own
          obtain ⟨past, others, memory⟩ := steady.copies copy copyMember own
          refine ⟨past, others, ?_⟩
          intro seen isSeen
          exact memory seen (same ▸ isSeen)
        case past =>
          intro seen isSeen
          exact steady.past seen (same ▸ isSeen)

/-- A request stamps its token with the present, which is not before any stamp
so far. -/
theorem updateLastSeen_steady {tokenID : Text} (steady : Steady tid system)
    (undisturbed : system.Undisturbed tid (.updateLastSeen tokenID)) :
    let after : System := { system with
      store := system.store.updateLastSeen system.now tokenID }
    Steady tid after ∧ NotEarlier tid system after := by
  intro after
  have coherent : after.Coherent :=
    step_coherent system (.updateLastSeen tokenID) steady.coherent
  have storeEq : after.store = system.store.updateLastSeen system.now tokenID :=
    rfl
  have lastReadEq : after.store.lastRead = system.store.lastRead := by
    rw [updateLastSeen_lastRead]
  have fileEq : after.fileSeen tid = system.fileSeen tid := rfl
  by_cases stamped : tokenID = tid ∧ system.memSeen tid ≠ none
  · obtain ⟨rfl, present⟩ := stamped
    have noCopies := undisturbed rfl
    have isSome : ∃ token, system.store.tokens.lookup tokenID = some token := by
      simpa [memSeen, Option.ne_none_iff_exists'] using present
    obtain ⟨token, inMemory⟩ := isSome
    have placed : after.store =
        system.store.place tokenID { token with lastSeen := system.now } := by
      rw [storeEq, TokensStore.updateLastSeen, inMemory]
    have seenEq : after.memSeen tokenID = some system.now := by
      rw [memSeen, placed, TokensStore.lookup_place]
      simp
    refine ⟨?_, ?_⟩
    · constructor
      case coherent => exact coherent
      case noReads => exact steady.noReads
      case clean =>
        intro notDirty
        rw [placed] at notDirty
        exact absurd (Finset.mem_insert_self _ _) notDirty
      case present =>
        rw [seenEq, fileEq, ← steady.present]
        constructor
        · intro absent
          cases absent
        · intro absent
          exact absurd absent present
      case reads =>
        rw [lastReadEq]
        exact steady.reads
      case copies =>
        intro copy member own
        exact absurd own (noCopies copy member)
      case past =>
        intro seen isSeen
        rw [seenEq] at isSeen
        cases isSeen
        exact le_refl _
    · intro seen later before isLater
      rw [seenEq] at isLater
      cases isLater
      exact steady.past seen before
  · have sameToken : after.store.tokens.lookup tid =
        system.store.tokens.lookup tid := by
      rw [storeEq, TokensStore.updateLastSeen]
      split
      · rfl
      · rename_i token inMemory
        have different : tid ≠ tokenID := by
          intro same
          subst same
          exact stamped ⟨rfl, by simp [memSeen, inMemory]⟩
        rw [TokensStore.lookup_place, if_neg different]
    have seenEq : after.memSeen tid = system.memSeen tid := by
      rw [memSeen, sameToken, memSeen]
    have dirtyGrows : tid ∉ after.store.dirty → tid ∉ system.store.dirty := by
      intro notDirty dirty
      apply notDirty
      rw [storeEq, TokensStore.updateLastSeen]
      split
      · exact dirty
      · exact Finset.mem_insert_of_mem dirty
    refine ⟨?_, notEarlier_of_same seenEq⟩
    constructor
    case coherent => exact coherent
    case noReads => exact steady.noReads
    case clean =>
      intro notDirty
      rw [seenEq]
      exact steady.clean (dirtyGrows notDirty)
    case present =>
      rw [seenEq]
      exact steady.present
    case reads =>
      rw [lastReadEq]
      exact steady.reads
    case copies =>
      rw [seenEq]
      exact steady.copies
    case past =>
      rw [seenEq]
      exact steady.past

theorem logoutGet_steady (steady : Steady tid system) (chosen : Text) :
    Steady tid (system.logoutGet chosen) ∧
      (system.logoutGet chosen).memSeen tid = system.memSeen tid := by
  have coherent := step_coherent system (.logoutGet chosen) steady.coherent
  simp only [step, logoutGet, TokensStore.get] at coherent ⊢
  cases inMemory : system.store.tokens.lookup chosen with
  | none => exact ⟨steady, rfl⟩
  | some token =>
      rw [inMemory] at coherent
      refine ⟨?_, rfl⟩
      have own : chosen = tid → system.memSeen tid = some token.lastSeen := by
        rintro rfl
        simp [memSeen, inMemory]
      constructor
      case coherent => exact coherent
      case noReads => exact steady.noReads
      case clean => exact steady.clean
      case present => exact steady.present
      case reads => exact steady.reads
      case copies =>
        intro copy member isOwn
        have matching : ∀ other ∈ (chosen, token) :: system.logouts,
            other.1 = tid → other.2.lastSeen ≤ system.now ∧
              (∀ seen, system.memSeen tid = some seen →
                seen = other.2.lastSeen) := by
          intro other otherMember otherOwn
          rcases List.mem_cons.mp otherMember with rfl | old
          · have seen := own otherOwn
            refine ⟨steady.past _ seen, ?_⟩
            intro other isSeen
            rw [seen] at isSeen
            cases isSeen
            rfl
          · obtain ⟨past, _, memory⟩ := steady.copies other old otherOwn
            exact ⟨past, memory⟩
        have alike : ∀ other ∈ (chosen, token) :: system.logouts,
            other.1 = tid → other.2.lastSeen = copy.2.lastSeen := by
          intro other otherMember otherOwn
          rcases List.mem_cons.mp otherMember with rfl | otherOld
          · exact (matching copy member isOwn).2 _ (own otherOwn)
          · rcases List.mem_cons.mp member with rfl | old
            · exact ((matching other otherMember otherOwn).2 _
                (own isOwn)).symm
            · exact (steady.copies copy old isOwn).2.1 other otherOld
                otherOwn
        obtain ⟨past, memory⟩ := matching copy member isOwn
        exact ⟨past, alike, memory⟩
      case past => exact steady.past

end

theorem step_steady (system : System) (next : Step) (tid : Text)
    (steady : Steady tid system)
    (sameToken : next.keepsIdentity tid = true)
    (undisturbed : system.Undisturbed tid next) :
    Steady tid (system.step next) ∧
      NotEarlier tid system (system.step next) := by
  apply step_rule (motive := fun after =>
    Steady tid after ∧ NotEarlier tid system after)
  case saves =>
    intro stamp store saves
    exact save_steady steady saves sameToken undisturbed
  case writes =>
    intro stamp content writes
    exact ⟨external_steady steady writes sameToken, notEarlier_of_same rfl⟩
  case quiet => exact ⟨steady, notEarlier_of_same rfl⟩
  case reads =>
    intro _
    obtain ⟨after, same⟩ := syncRead_memSeen steady
    exact ⟨after, notEarlier_of_same same⟩
  case commits =>
    rintro index rfl
    obtain ⟨after, same⟩ := syncCommit_memSeen steady undisturbed
    exact ⟨after, notEarlier_of_same same⟩
  case seen =>
    rintro tokenID rfl
    exact updateLastSeen_steady steady undisturbed
  case gets =>
    intro chosen _
    obtain ⟨after, same⟩ := logoutGet_steady steady chosen
    exact ⟨after, notEarlier_of_same same⟩
  case ticks =>
    intro seconds _
    refine ⟨?_, notEarlier_of_same rfl⟩
    have coherent := step_coherent system (.tick seconds) steady.coherent
    constructor
    case coherent => exact coherent
    case noReads => exact steady.noReads
    case clean => exact steady.clean
    case present => exact steady.present
    case reads => exact steady.reads
    case copies =>
      intro copy member own
      obtain ⟨past, others, memory⟩ := steady.copies copy member own
      exact ⟨by dsimp only; omega, others, memory⟩
    case past =>
      intro seen isSeen
      have := steady.past seen isSeen
      dsimp only
      omega

theorem start_seen (content : Option Content) (stamp : Stamp) (now : Int)
    (tid : Text) :
    (start content stamp now).memSeen tid =
      (start content stamp now).fileSeen tid := by
  rcases start_loads content stamp now with
    ⟨_, empty, nothing⟩ | ⟨file, present, _, parsed⟩
  · rw [memSeen, empty, fileSeen, fileToken, nothing]
    rfl
  · simp [memSeen, fileSeen, fileToken, fileTokens, present, parsed]

theorem start_steady (content : Option Content) (stamp : Stamp) (now : Int)
    (tid : Text)
    (past : ∀ seen, (start content stamp now).fileSeen tid = some seen →
      seen ≤ now) :
    Steady tid (start content stamp now) := by
  have same := start_seen content stamp now tid
  constructor
  case coherent => exact start_coherent content stamp now
  case noReads => exact fun _ => rfl
  case clean => exact fun _ => same
  case present => rw [same]
  case reads =>
    intro read member
    cases member
  case copies =>
    intro copy member
    cases member
  case past =>
    intro seen isSeen
    rw [same] at isSeen
    exact past seen isSeen

/-- The steps of a run keep the identity of `tid` and do not disturb it. -/
def Calm (tid : Text) (system : System) (next : Step) : Prop :=
  next.keepsIdentity tid = true ∧ system.Undisturbed tid next

/-- While a token stays in memory its stamp never decreases, in every order of
steps in which no reload and no expiry meets an unsaved stamp and no request
falls between the two halves of a logout. -/
theorem lastSeen_never_decreases (content : Option Content) (stamp : Stamp)
    (now : Int) (before later : List Step) (tid : Text)
    (past : ∀ seen, (start content stamp now).fileSeen tid = some seen →
      seen ≤ now)
    (calm : Runs.Guarded step (Calm tid) (start content stamp now)
      (before ++ later))
    (stays : ∀ state ∈ Runs.visited step
      ((start content stamp now).run before) later,
      state.memSeen tid ≠ none) :
    ∀ state ∈ Runs.visited step ((start content stamp now).run before) later,
      NotEarlier tid ((start content stamp now).run before) state := by
  obtain ⟨calmBefore, calmLater⟩ := Runs.guarded_append.mp calm
  have steady : Steady tid ((start content stamp now).run before) :=
    calmBefore.final_induction (Steady tid)
      (fun state next holds ok =>
        (step_steady state next tid holds ok.1 ok.2).1)
      (start_steady content stamp now tid past)
  have both := calmLater.induction_while
    (fun state => Steady tid state ∧ state.memSeen tid ≠ none ∧
      NotEarlier tid ((start content stamp now).run before) state)
    (fun state => state.memSeen tid ≠ none)
    (by
      intro state next ⟨holds, present, sofar⟩ ok present'
      obtain ⟨holds', grows⟩ := step_steady state next tid holds ok.1 ok.2
      refine ⟨holds', present', ?_⟩
      intro seen last first isLast
      obtain ⟨middle, isMiddle⟩ := Option.ne_none_iff_exists'.mp present
      exact (sofar seen middle first isMiddle).trans
        (grows middle last isMiddle isLast))
    ⟨steady, stays _ (Runs.mem_visited_start _ _), notEarlier_of_same rfl⟩
    stays
  exact fun state member => (both state member).2.2

def twoPaired : Content :=
  .tokens ((AList.singleton "a".toList paired).insert "b".toList paired)

/-- A request of `a`, a revocation of `b` by the owner, and the reload that
notices it. -/
def requestThenReload : List Step :=
  [.updateLastSeen "a".toList, .tokenRevoke ⟨0, 300⟩ "b".toList, .syncRead,
    .syncCommit 0]

/-- The reload puts the older stamp of `a` back. -/
theorem reload_drops_stamp :
    ((start twoPaired ⟨0, 300⟩ 9).run
        (requestThenReload.take 1)).memSeen "a".toList = some 9 ∧
      ((start twoPaired ⟨0, 300⟩ 9).run
        requestThenReload).memSeen "a".toList = some 3 := by
  decide +kernel

/-- The same with a flush between the request and the reload. -/
def requestFlushReload : List Step :=
  [.updateLastSeen "a".toList, .flush ⟨0, 300⟩,
    .tokenRevoke ⟨0, 300⟩ "b".toList, .syncRead, .syncCommit 0]

theorem flushed_stamp_survives :
    NotEarlier "a".toList ((start twoPaired ⟨0, 300⟩ 9).run [])
      ((start twoPaired ⟨0, 300⟩ 9).run requestFlushReload) := by
  have all := lastSeen_never_decreases twoPaired ⟨0, 300⟩ 9 []
    requestFlushReload "a".toList
    (by
      intro seen isSeen
      have three : (start twoPaired ⟨0, 300⟩ 9).fileSeen "a".toList =
          some 3 := by decide +kernel
      rw [three] at isSeen
      cases isSeen
      decide)
    (by
      refine ⟨⟨rfl, ?_⟩, ⟨rfl, trivial⟩, ⟨rfl, trivial⟩, ⟨rfl, trivial⟩,
        ⟨rfl, ?_⟩, trivial⟩
      · intro _ copy member
        cases member
      · intro read _ _
        decide +kernel)
    (by decide +kernel)
  exact all _ (by simp [Runs.visited, run, requestFlushReload])

end System

end Httpd
