import Hnc.Httpd.TokensDeletion
import Hnc.Httpd.TokensLastSeen

/-!
# What a prune removes

`Prune` deletes the expired tokens from memory and then saves, and the save
merges a newer file first.  An id that the merge finds on disk and not in memory
is an unseen token for it, so a deleted id that the newer file holds comes back.
-/

namespace Httpd

open Posix
open KeyMap

namespace TokensStore

/-- The tokens that the merge in `saveAtomicLocked` takes from the file. -/
def newer (store : TokensStore) (file : Option File) : Option TokenMap :=
  match file with
  | none => none
  | some file =>
      if store.lastRead < file.stat.mtime then
        match file.content with
        | .tokens diskTokens => some diskTokens
        | _ => none
      else none

/-- The number that `Prune` returns. -/
def removed (store : TokensStore) (now : Int) : Nat :=
  (store.expiredIds now).length

/-- Neither the memory nor the file holds the id. -/
def Gone (tid : Text) (result : TokensStore × File) : Prop :=
  result.1.tokens.lookup tid = none ∧ result.2.content.holds tid = false

/-- Both the memory and the file hold the id. -/
def Kept (tid : Text) (result : TokensStore × File) : Prop :=
  result.1.tokens.lookup tid ≠ none ∧ result.2.content.holds tid = true

/-- The id has a token in the map that the prune does not select. -/
def Fresh (now : Int) (map : TokenMap) (tid : Text) : Prop :=
  ∃ token, map.lookup tid = some token ∧ expired now token = false

/-- A prune that reports deletions has deleted the ids it selected and nothing
else, apart from what the newer file had deleted. -/
def PruneRemoves (store : TokensStore) (file : Option File) (written : Stat)
    (now : Int) : Prop :=
  ∀ result, store.prune file written now = some result →
    (∀ tid ∈ store.expiredIds now, Gone tid result) ∧
    ∀ tid, Fresh now store.tokens tid ∨
        (∃ diskTokens, store.newer file = some diskTokens ∧
          Fresh now diskTokens tid) →
      (∀ diskTokens, store.newer file = some diskTokens →
        tid ∈ diskTokens.keys) →
      Kept tid result

theorem mem_expiredIds_iff (store : TokensStore) (now : Int) (tid : Text) :
    tid ∈ store.expiredIds now ↔
      ∃ token, store.tokens.lookup tid = some token ∧
        expired now token = true := by
  constructor
  · intro selected
    have old := (List.mem_filter.mp selected).2
    simpa [Option.any_eq_true] using old
  · rintro ⟨token, found, old⟩
    exact System.mem_expiredIds found old

theorem removed_pos_iff (store : TokensStore) (file : Option File)
    (written : Stat) (now : Int) :
    0 < store.removed now ↔ (store.prune file written now).isSome := by
  unfold removed prune
  rw [List.length_pos_iff]
  split <;> simp [*]

theorem prune_eq {store : TokensStore} {file : Option File} {written : Stat}
    {now : Int} {result : TokensStore × File}
    (pruned : store.prune file written now = some result) :
    result = (store.dropExpired now).saveAtomicLocked file written := by
  unfold prune at pruned
  split at pruned
  · cases pruned
  · exact (Option.some.inj pruned).symm

section

variable (store : TokensStore) (file : Option File)
include store file

theorem gone_save_iff (written : Stat) (tid : Text) :
    Gone tid (store.saveAtomicLocked file written) ↔
      (store.toSave file).lookup tid = none := by
  simp [Gone, saveAtomicLocked, Content.holds, Content.parsed]

theorem kept_save_iff (written : Stat) (tid : Text) :
    Kept tid (store.saveAtomicLocked file written) ↔
      (store.toSave file).lookup tid ≠ none := by
  simp [Kept, saveAtomicLocked, Content.holds, Content.parsed,
    Option.isSome_iff_ne_none]

/-- The save merges exactly when `newer` finds tokens. -/
theorem toSave_eq :
    store.toSave file =
      match store.newer file with
      | none => store.tokens
      | some diskTokens => merge store.tokens diskTokens store.dirty := by
  cases file with
  | none => rfl
  | some file =>
      by_cases later : store.lastRead < file.stat.mtime
      · cases content : file.content with
        | malformed | noTokens | tokens _ => simp [toSave, newer, later, content]
      · simp [toSave, newer, later]

theorem newer_dropExpired (now : Int) :
    (store.dropExpired now).newer file = store.newer file :=
  rfl

end

theorem lookup_eq_none_iff (map : TokenMap) (tid : Text) :
    map.lookup tid = none ↔ tid ∉ map.keys := by
  rw [← AList.mem_keys, AList.lookup_eq_none]

/-- What the save leaves under an id that the newer file holds, if there is
one. -/
theorem lookup_toSave_of_held (store : TokensStore) (file : Option File)
    (tid : Text)
    (held : ∀ diskTokens, store.newer file = some diskTokens →
      tid ∈ diskTokens.keys) :
    (store.toSave file).lookup tid = none ↔
      store.newer file = none ∧ store.tokens.lookup tid = none := by
  rw [toSave_eq]
  cases found : store.newer file with
  | none => simp
  | some diskTokens =>
      have present := held diskTokens found
      cases onDisk : diskTokens.lookup tid with
      | none =>
          exact absurd present ((lookup_eq_none_iff diskTokens tid).mp onDisk)
      | some token => simp [lookup_merge, onDisk]

theorem lookup_selected {store : TokensStore} {now : Int} {tid : Text}
    (selected : tid ∈ store.expiredIds now) :
    (store.dropExpired now).tokens.lookup tid = none := by
  obtain ⟨token, found, old⟩ := (mem_expiredIds_iff store now tid).mp selected
  rw [lookup_dropExpired, found]
  simp [old]

section

variable {store : TokensStore} {file : Option File} {written : Stat} {now : Int}
  {result : TokensStore × File}
  (pruned : store.prune file written now = some result) {tid : Text}
include pruned

/-- A selected id is gone unless the newer file holds it. -/
theorem gone_iff (selected : tid ∈ store.expiredIds now) :
    Gone tid result ↔
      ∀ diskTokens, store.newer file = some diskTokens →
        tid ∉ diskTokens.keys := by
  have dropped := lookup_selected selected
  rw [prune_eq pruned, gone_save_iff, toSave_eq, newer_dropExpired]
  cases found : store.newer file with
  | none => simp [dropped]
  | some diskTokens =>
      simp only [Option.some.injEq, forall_eq', ← lookup_eq_none_iff,
        lookup_merge, dropped]
      cases diskTokens.lookup tid with
      | none => simp
      | some onDisk => simp

/-- What is not selected stays, whatever the file is. -/
theorem kept_of_fresh
    (fresh : Fresh now store.tokens tid ∨
      ∃ diskTokens, store.newer file = some diskTokens ∧
        Fresh now diskTokens tid)
    (held : ∀ diskTokens, store.newer file = some diskTokens →
      tid ∈ diskTokens.keys) : Kept tid result := by
  rw [prune_eq pruned, kept_save_iff]
  intro lost
  obtain ⟨notNewer, notInMemory⟩ :=
    (lookup_toSave_of_held (store.dropExpired now) file tid held).mp lost
  rcases fresh with ⟨token, found, young⟩ | ⟨diskTokens, found, _⟩
  · rw [lookup_dropExpired, found] at notInMemory
    simp [young] at notInMemory
  · rw [newer_dropExpired, found] at notNewer
    cases notNewer

end

/-- A prune removes what it reports exactly when no newer file holds an id that
it selects. -/
theorem prune_removes_iff (store : TokensStore) (file : Option File)
    (written : Stat) (now : Int) :
    store.PruneRemoves file written now ↔
      ∀ diskTokens, store.newer file = some diskTokens →
        ∀ tid ∈ store.expiredIds now, tid ∉ diskTokens.keys := by
  constructor
  · intro removes diskTokens found tid selected
    have reported : 0 < store.removed now := List.length_pos_of_mem selected
    obtain ⟨result, pruned⟩ := Option.isSome_iff_exists.mp
      ((removed_pos_iff store file written now).mp reported)
    have gone := (removes result pruned).1 tid selected
    exact (gone_iff pruned selected).mp gone diskTokens found
  · intro unheld result pruned
    refine ⟨fun tid selected => ?_, fun tid fresh held => ?_⟩
    · exact (gone_iff pruned selected).mpr fun diskTokens found =>
        unheld diskTokens found tid selected
    · exact kept_of_fresh pruned fresh held

/-- A token that was last seen on the first day. -/
def longUnused : Token :=
  { hash := [], created := 1, lastSeen := 1, label := [], ipHint := [],
    revoked := false }

/-- The store holds one old token, and the shell has rewritten the file since
the store read it. -/
def staleStore : TokensStore :=
  { tokens := (∅ : TokenMap).insert "a".toList longUnused
    lastRead := 1
    dirty := ∅ }

def rewrittenFile : File :=
  { stat := ⟨2, 200⟩
    content := .tokens ((∅ : TokenMap).insert "a".toList longUnused) }

/-- The prune reports one deletion and writes the token back. -/
theorem prune_restores_expired :
    staleStore.removed 8000000 = 1 ∧
      ¬ staleStore.PruneRemoves (some rewrittenFile) ⟨3, 200⟩ 8000000 := by
  refine ⟨by decide +kernel, fun removes => ?_⟩
  have selected : "a".toList ∈ staleStore.expiredIds 8000000 := by
    decide +kernel
  have gone := (removes _ rfl).1 "a".toList selected
  have restored : ((staleStore.dropExpired 8000000).toSave
      (some rewrittenFile)).lookup "a".toList ≠ none := by decide +kernel
  exact restored gone.1

end TokensStore

end Httpd
