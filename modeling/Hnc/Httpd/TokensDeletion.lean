import Hnc.Httpd.TokensRevocation

/-!
# Tokens deleted by another process

The second loop of the merge takes a token that is in memory but not on disk for
deleted by another process, unless it is dirty.  Dirty should mean a token that
has not been on disk yet, but `UpdateLastSeen` marks every token of a request as
dirty, and a file without a `tokens` object is not merged at all.  The results
below say exactly when a deleted token comes back.
-/

namespace Httpd

open Posix
open KeyMap

/-- A token under `tid` is in what another process writes. -/
def Content.holds (content : Content) (tid : Text) : Bool :=
  (content.parsed.bind fun map => map.lookup tid).isSome

def Content.hasTokens : Content → Bool
  | .tokens _ => true
  | _ => false

namespace System

/-- The step itself brings a token under `tid`. -/
def inserts (tid : Text) (system : System) : Step → Bool
  | .write _ content => content.holds tid
  | .putIfAbsent _ tokenID _ => tokenID == tid
  | .logoutPut _ index => system.logouts[index]?.any fun copy => copy.1 == tid
  | _ => false

/-- If the step saves while `tid` is in memory, then `tid` is not dirty and the
file on disk has a `tokens` object to compare with. -/
def Releases (tid : Text) (system : System) (next : Step) : Prop :=
  ∀ stamp store, system.saving next = some (stamp, store) →
    store.tokens.lookup tid ≠ none →
      tid ∉ store.dirty ∧ ∃ file, system.file = some file ∧
        file.content.hasTokens = true

/-- The file is there and does not hold `tid`. -/
def Deleted (tid : Text) (system : System) : Prop :=
  system.file ≠ none ∧ system.fileToken tid = none

variable {system : System} {next : Step} {stamp : Stamp} {tid : Text}

theorem saving_absent {store : TokensStore}
    (saves : system.saving next = some (stamp, store))
    (notInserted : system.inserts tid next = false)
    (absent : system.store.tokens.lookup tid = none) :
    store.tokens.lookup tid = none := by
  cases next with
  | putIfAbsent _ tokenID inserted =>
      simp only [saving] at saves
      split at saves
      · cases saves
      · cases saves
        have different : tid ≠ tokenID := by
          intro same
          simp [inserts, same] at notInserted
        rw [TokensStore.lookup_place, if_neg different]
        exact absent
  | flush _ =>
      cases saves
      exact absent
  | prune _ =>
      simp only [saving] at saves
      split at saves
      · cases saves
      · cases saves
        rw [TokensStore.lookup_dropExpired, absent]
        rfl
  | logoutPut _ index =>
      simp only [saving, Option.map_eq_some_iff] at saves
      obtain ⟨copy, waiting, _, rfl⟩ := saves
      have different : tid ≠ copy.1 := by
        intro same
        simp [inserts, waiting, same] at notInserted
      rw [TokensStore.lookup_place, if_neg different]
      exact absent
  | _ => cases saves

/-- What the store knows to be the file does not hold a deleted token. -/
theorem Coherent.absent_in_memory (coherent : system.Coherent)
    (seen : system.store.lastRead = system.clock)
    (absent : system.fileToken tid = none) :
    system.store.tokens.lookup tid = none := by
  obtain ⟨map, parsed, agrees⟩ := coherent.current seen
  have notInMap : map.lookup tid = none := by
    simpa [fileToken, parsed] using absent
  have same := (agrees tid).1
  rw [notInMap, Option.map_none, Option.map_eq_none_iff] at same
  exact same

theorem toSave_none_iff (coherent : system.Coherent) {store : TokensStore}
    (saves : system.saving next = some (stamp, store))
    (notInserted : system.inserts tid next = false) (deleted : system.Deleted tid) :
    (store.toSave system.file).lookup tid = none ↔
      (store.tokens.lookup tid ≠ none →
        tid ∉ store.dirty ∧ ∃ file, system.file = some file ∧
          file.content.hasTokens = true) := by
  obtain ⟨notAbsent, absent⟩ := deleted
  obtain ⟨⟨stat, content⟩, present⟩ := Option.ne_none_iff_exists'.mp notAbsent
  have stamped := coherent.stamped _ present
  have lastRead := saving_lastRead saves
  simp only [present, TokensStore.toSave]
  split
  · cases content with
    | malformed | noTokens => simp [Content.hasTokens]
    | tokens map =>
        have notInMap : map.lookup tid = none := by
          simpa [fileToken, fileTokens, present, File.tokens, Content.parsed]
            using absent
        simp only [TokensStore.lookup_merge, notInMap, Content.hasTokens]
        by_cases dirty : tid ∈ store.dirty
        · simp [dirty]
        · simp [dirty]
  · have seen : system.store.lastRead = system.clock := by
      have := coherent.lastRead_le
      dsimp only at stamped
      omega
    have notSaved := saving_absent saves notInserted
      (coherent.absent_in_memory seen absent)
    simp [notSaved]

theorem external_deleted {content : Content}
    (writes : system.externalWrite next = some (stamp, content))
    (notInserted : system.inserts tid next = false) (deleted : system.Deleted tid) :
    (system.external stamp (some content)).fileToken tid = none := by
  cases shell : next.isRewrite with
  | false =>
      obtain ⟨chosen, revokes⟩ := external_revokes writes shell
      rw [revokes tid, deleted.2]
      rfl
  | true =>
      cases next with
      | write _ _ =>
          cases writes
          have absent : (content.parsed.bind fun map => map.lookup tid) =
              none := by
            simpa [inserts, Content.holds] using notInserted
          exact absent
      | _ => cases shell

theorem deleted_of_same_file {other : System} (same : other.file = system.file)
    (deleted : system.Deleted tid) : other.Deleted tid := by
  unfold Deleted fileToken fileTokens at deleted ⊢
  rw [same]
  exact deleted

theorem releases_of_not_saving (quiet : system.saving next = none) :
    system.Releases tid next := by
  intro stamp store saves
  rw [quiet] at saves
  cases saves

/-- One step brings a deleted token back exactly when it saves it as dirty or
over a file without `tokens`. -/
theorem step_deleted_iff (system : System) (next : Step)
    (coherent : system.Coherent) (tid : Text)
    (deleted : system.Deleted tid)
    (notInserted : system.inserts tid next = false) :
    (system.step next).Deleted tid ↔ system.Releases tid next := by
  cases saved : system.saving next with
  | some result =>
      obtain ⟨stamp, store⟩ := result
      rw [step_of_saving saved]
      have lookup := toSave_none_iff coherent saved notInserted deleted
      constructor
      · intro ⟨_, absent⟩ stamp' store' saves'
        rw [saved] at saves'
        cases saves'
        exact lookup.mp absent
      · intro releases
        refine ⟨by simp [save, System.saved, written], ?_⟩
        exact lookup.mpr (releases stamp store saved)
  | none =>
      refine ⟨fun _ => releases_of_not_saving saved, fun _ => ?_⟩
      apply step_rule (motive := fun after => after.Deleted tid)
      case saves =>
        intro stamp store saves
        rw [saved] at saves
        cases saves
      case writes =>
        intro stamp content writes
        refine ⟨by simp [external, written], ?_⟩
        exact external_deleted writes notInserted deleted
      case quiet => exact deleted
      case reads =>
        exact fun _ => deleted_of_same_file system.syncRead_file deleted
      case commits =>
        exact fun index _ =>
          deleted_of_same_file (system.syncCommit_file index) deleted
      case seen => exact fun _ _ => deleted
      case gets =>
        exact fun tid _ =>
          deleted_of_same_file (system.logoutGet_file tid) deleted
      case ticks => exact fun _ _ => deleted

/-- After another process has deleted a token, and as long as no step inserts it
again, the token stays out of the file exactly when no save finds it in memory
as dirty or over a file without a `tokens` object. -/
theorem deleted_stays_deleted_iff (content : Option Content) (stamp : Stamp)
    (now : Int) (before : List Step) (removal : Stamp) (remaining : Content)
    (tid : Text) (removed : remaining.holds tid = false) (later : List Step)
    (notInserted : Runs.Guarded step
      (fun state next => state.inserts tid next = false)
      (((start content stamp now).run before).step (.write removal remaining))
      later) :
    (∀ state ∈ Runs.visited step
      (((start content stamp now).run before).step (.write removal remaining))
      later, state.Deleted tid) ↔
    Runs.Guarded step (Releases tid)
      (((start content stamp now).run before).step (.write removal remaining))
      later := by
  have reached := run_coherent content stamp now before
  apply Runs.forall_visited_iff_guarded Coherent (Deleted tid)
    (fun state next coherent _ => step_coherent state next coherent)
    (fun state next coherent deleted notInserted =>
      step_deleted_iff state next coherent tid deleted notInserted)
    (step_coherent _ _ reached) ?_ notInserted
  have absent : (remaining.parsed.bind fun map => map.lookup tid) = none := by
    simpa [Content.holds] using removed
  exact ⟨by simp [step, external, written], absent⟩

/-- A paired device makes a request, and the owner then deletes its token. -/
def requestThenDelete : System :=
  ((start none ⟨0, 0⟩ 5).run
    [.putIfAbsent ⟨0, 200⟩ "a".toList paired, .updateLastSeen "a".toList]).step
    (.write ⟨0, 33⟩ (.tokens ∅))

/-- The flush of the save loop writes the deleted token again. -/
theorem flush_restores_deleted :
    requestThenDelete.fileToken "a".toList = none ∧
      (requestThenDelete.step (.flush ⟨0, 200⟩)).fileToken "a".toList =
        some { paired with lastSeen := 5 } := by
  decide +kernel

/-- Without the request the deletion stands. -/
theorem flush_after_delete :
    (Content.tokens ∅).holds "a".toList = false ∧
    ∀ state ∈ Runs.visited step
      (((start none ⟨0, 0⟩ 5).run
        [.putIfAbsent ⟨0, 200⟩ "a".toList paired]).step
        (.write ⟨0, 33⟩ (.tokens ∅))) [.flush ⟨0, 200⟩],
      state.Deleted "a".toList := by
  have removed : (Content.tokens ∅).holds "a".toList = false := by decide
  refine ⟨removed, (deleted_stays_deleted_iff none ⟨0, 0⟩ 5
    [.putIfAbsent ⟨0, 200⟩ "a".toList paired] ⟨0, 33⟩ (.tokens ∅)
    "a".toList removed [.flush ⟨0, 200⟩] (by decide +kernel)).mpr ?_⟩
  refine ⟨?_, trivial⟩
  intro stamp store saves _
  cases saves
  refine ⟨by decide +kernel, _, rfl, rfl⟩

end System

end Httpd
