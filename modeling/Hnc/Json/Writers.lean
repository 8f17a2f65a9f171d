import Hnc.Json.Commands
import Hnc.Json.Defaults
import Hnc.Lib.ReadModifyWrite

/-!
# Concurrent writers of `rules.json`

`json_set.sh` works under `run/json.lock` and writes its candidate to
`data/rules.tmp`; `hnc_json`, which `json_set_batch.sh` calls, works under
`run/hnc_json.lock` and names its candidate after its process.  A lock is held
until its owner gives it back.
-/

namespace Hnc.Writers

open Posix ReadModifyWrite

/-- A call of one of the two writers. -/
inductive Invocation where
  | jsonSet (mac field value : Text)
  | jsonSetBatch (mac : Text) (pairs : List (Text × Text))

inductive LockDir where
  | jsonLock
  | hncJsonLock
deriving DecidableEq

inductive Candidate where
  | rulesTmp
  | batchTmp (pid : Nat)
deriving DecidableEq

/-- What the call makes of the file it reads. -/
def Invocation.edit (file : Text) : Invocation → Option Text
  | jsonSet mac field value => JsonSet.device file mac field value
  | jsonSetBatch mac pairs => JsonSetBatch.device file mac pairs

def Invocation.job (pid : Nat) (invocation : Invocation) :
    Job Text LockDir Candidate where
  lock :=
    match invocation with
    | jsonSet _ _ _ => .jsonLock
    | jsonSetBatch _ _ => .hncJsonLock
  tmp :=
    match invocation with
    | jsonSet _ _ _ => .rulesTmp
    | jsonSetBatch _ _ => .batchTmp pid
  edit file := invocation.edit file

section Calls

variable {n : Nat} (invocations : Fin n → Invocation)

def jobs (pid : Fin n) : Job Text LockDir Candidate :=
  (invocations pid).job pid

/-- The calls after a schedule of their steps. -/
def final (file : Text) (schedule : List (Fin n)) :
    State Text LockDir Candidate (Fin n) :=
  schedule.foldl (step (jobs invocations)) (State.start file)

/-- The file is what the calls make of it one after another, in some order. -/
def LosesNoUpdate (file : Text) (schedule : List (Fin n)) : Prop :=
  ∃ order : List (Fin n), order.Perm (List.finRange n) ∧
    serial (jobs invocations) file order =
      some (final invocations file schedule).file

/-- If no writer reads the file while a writer of the other kind is between its
read and its rename, no update is lost. -/
theorem undisturbed_writers_lose_no_update
    (file : Text) (schedule : List (Fin n))
    (undisturbed : Runs.Guarded (step (jobs invocations))
      (Undisturbed (jobs invocations)) (State.start file) schedule)
    (finished : ∀ pid,
      ((final invocations file schedule).phase pid).isFinished = true) :
    LosesNoUpdate invocations file schedule := by
  obtain ⟨order, nodup, complete, ordered⟩ := run_serial undisturbed finished
  refine ⟨order, ?_, ordered⟩
  apply (List.perm_ext_iff_of_nodup nodup (List.nodup_finRange _)).mpr
  intro pid
  simp [complete pid]

end Calls

def phoneEntry : Text :=
  "\"aa:bb:cc:dd:ee:01\": \x7b\"ip\": \"192.168.43.5\"\x7d".toList

def tabletEntry : Text :=
  "\n  \"aa:bb:cc:dd:ee:02\": \x7b\"ip\": \"192.168.43.6\"\x7d".toList

def setPhone (file : Text) : Option Text :=
  JsonSet.device file "aa:bb:cc:dd:ee:01".toList "ip".toList
    "192.168.43.5".toList

def setTablet (file : Text) : Option Text :=
  JsonSetBatch.device file "aa:bb:cc:dd:ee:02".toList
    [("ip".toList, "192.168.43.6".toList)]

theorem setPhone_default :
    setPhone (defaultRules []) = some (defaultRules phoneEntry) := by
  repeat rw [String.toList_ofList]
  decide +kernel

theorem setTablet_default :
    setTablet (defaultRules []) = some (defaultRules tabletEntry) := by
  repeat rw [String.toList_ofList]
  decide +kernel

theorem setTablet_phone :
    setTablet (defaultRules phoneEntry) =
      some (defaultRules (phoneEntry ++ ',' :: tabletEntry)) := by
  repeat rw [String.toList_ofList]
  decide +kernel

theorem setPhone_tablet :
    setPhone (defaultRules tabletEntry) =
      some (defaultRules (phoneEntry ++ ',' :: tabletEntry)) := by
  repeat rw [String.toList_ofList]
  decide +kernel

def sampleInvocations (pid : Fin 2) : Invocation :=
  if pid = 0 then
    .jsonSet "aa:bb:cc:dd:ee:01".toList "ip".toList "192.168.43.5".toList
  else
    .jsonSetBatch "aa:bb:cc:dd:ee:02".toList
      [("ip".toList, "192.168.43.6".toList)]

theorem sample_locks :
    (jobs sampleInvocations 1).lock ≠ (jobs sampleInvocations 0).lock := by
  decide

theorem sample_edits (file : Text) :
    (jobs sampleInvocations 0).edit file = setPhone file ∧
      (jobs sampleInvocations 1).edit file = setTablet file :=
  ⟨rfl, rfl⟩

section TwoWriters

variable {invocations : Fin 2 → Invocation} {file first second : Text}

/-- The second writer reads after the first one has renamed. -/
def apart : List (Fin 2) :=
  [0, 1, 0, 0, 0, 1, 0, 1, 1, 1]

/-- The second writer reads before the first one has renamed. -/
def overlapping : List (Fin 2) :=
  [0, 1, 0, 1, 0, 0, 0, 1, 1, 1]

section

variable (locks : (jobs invocations 1).lock ≠ (jobs invocations 0).lock)
  (firstEdit : (jobs invocations 0).edit file = some first)
include locks firstEdit

theorem apart_finishes
    (secondEdit : (jobs invocations 1).edit first = some second) :
    Runs.Guarded (step (jobs invocations)) (Undisturbed (jobs invocations))
      (State.start file) apart ∧
    ∀ pid, ((final invocations file apart).phase pid).isFinished = true := by
  constructor
  · simp [apart, Runs.Guarded, Undisturbed, step, enter, release, State.start,
      firstEdit, secondEdit, locks, Phase.aboutToRead, Phase.inWindow]
  · simp [final, apart, step, enter, release, State.start, firstEdit, secondEdit,
      locks, Phase.isFinished]

theorem overlapping_finishes
    (secondEdit : (jobs invocations 1).edit file = some second) :
    (∀ pid, ((final invocations file overlapping).phase
      pid).isFinished = true) ∧
    (final invocations file overlapping).file = second := by
  constructor
  · simp [final, overlapping, step, enter, release, State.start, firstEdit,
      secondEdit, locks, Phase.isFinished]
  · simp [final, overlapping, step, enter, release, State.start,
      firstEdit, secondEdit, locks]

end

end TwoWriters

theorem sampleInvocations_apart :
    Runs.Guarded (step (jobs sampleInvocations))
      (Undisturbed (jobs sampleInvocations)) (State.start (defaultRules []))
      apart ∧
    (∀ pid, ((final sampleInvocations (defaultRules []) apart).phase
      pid).isFinished = true) ∧
    LosesNoUpdate sampleInvocations (defaultRules []) apart := by
  have firstEdit := (sample_edits _).1.trans setPhone_default
  have secondEdit := (sample_edits _).2.trans setTablet_phone
  obtain ⟨undisturbed, finished⟩ :=
    apart_finishes sample_locks firstEdit secondEdit
  exact ⟨undisturbed, finished, undisturbed_writers_lose_no_update
    sampleInvocations (defaultRules []) apart undisturbed finished⟩

theorem sample_serial {order : List (Fin 2)}
    (permuted : order.Perm (List.finRange 2)) :
    serial (jobs sampleInvocations) (defaultRules []) order =
      some (defaultRules (phoneEntry ++ ',' :: tabletEntry)) := by
  have orders : ∀ left right : Fin 2, [left, right].Nodup →
      [left, right] = [0, 1] ∨ [left, right] = [1, 0] := by
    decide
  have nodup : order.Nodup := permuted.nodup_iff.mpr (List.nodup_finRange 2)
  have length : order.length = 2 := permuted.length_eq
  obtain ⟨left, right, rfl⟩ := List.length_eq_two.mp length
  rcases orders left right nodup with same | same <;> rw [same]
  · simp [serial, sample_edits, setPhone_default, setTablet_phone]
  · simp [serial, sample_edits, setTablet_default, setPhone_tablet]

/-- Both writers read the file before either of them renames its candidate:
the first update is lost. -/
theorem overlapping_writers_lose_update :
    ¬ ∀ (n : Nat) (invocations : Fin n → Invocation) (file : Text)
        (schedule : List (Fin n)),
      (∀ pid,
        ((final invocations file schedule).phase pid).isFinished = true) →
      LosesNoUpdate invocations file schedule := by
  intro always
  have firstEdit := (sample_edits _).1.trans setPhone_default
  have secondEdit := (sample_edits _).2.trans setTablet_default
  obtain ⟨finished, lost⟩ :=
    overlapping_finishes sample_locks firstEdit secondEdit
  obtain ⟨order, permuted, result⟩ :=
    always 2 sampleInvocations (defaultRules []) overlapping finished
  have ordered := sample_serial permuted
  have different : defaultRules (phoneEntry ++ ',' :: tabletEntry) ≠
      defaultRules tabletEntry := by
    decide +kernel
  apply different
  apply Option.some.inj
  exact ordered.symm.trans (result.trans (congrArg some lost))

end Hnc.Writers
