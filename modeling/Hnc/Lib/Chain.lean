import Mathlib.Data.List.Basic
import Mathlib.Tactic.Common

/-!
# Rule chains

A chain of a packet filter is a list of entries.  `-D` removes the first entry
with a given specification and fails when there is none, so a script that
repeats it until it fails removes them all.  The counters of an entry are not
part of its specification.
-/

namespace Chain

variable {Entry Spec : Type} [DecidableEq Spec] (specOf : Entry → Spec)

/-- `-D`: the chain without the first entry of that specification. -/
def delete (spec : Spec) : List Entry → Option (List Entry)
  | [] => none
  | entry :: rest =>
      if specOf entry = spec then some rest
      else (delete spec rest).map (entry :: ·)

/-- `while $cmd -D ...; do :; done`, with the length of the chain as the bound
on its rounds. -/
def deleteLoop (spec : Spec) : Nat → List Entry → List Entry
  | 0, chain => chain
  | rounds + 1, chain =>
      match delete specOf spec chain with
      | none => chain
      | some shorter => deleteLoop spec rounds shorter

def deleteAll (spec : Spec) (chain : List Entry) : List Entry :=
  deleteLoop specOf spec chain.length chain

/-- What the loop leaves: every entry of another specification, in order. -/
def without (spec : Spec) (chain : List Entry) : List Entry :=
  chain.filter fun entry => specOf entry ≠ spec

variable {specOf} {spec : Spec}

variable {chain : List Entry}

theorem delete_eq_none (failed : delete specOf spec chain = none) :
    without specOf spec chain = chain := by
  induction chain with
  | nil => rfl
  | cons entry rest induction =>
      by_cases same : specOf entry = spec
      · simp [delete, same] at failed
      · simp only [delete, same, if_false, Option.map_eq_none_iff] at failed
        have tail := induction failed
        simpa [without, same] using tail

theorem delete_eq_some {shorter : List Entry}
    (deleted : delete specOf spec chain = some shorter) :
    without specOf spec shorter = without specOf spec chain ∧
      shorter.length < chain.length := by
  induction chain generalizing shorter with
  | nil => simp [delete] at deleted
  | cons entry rest induction =>
      by_cases same : specOf entry = spec
      · simp only [delete, same, if_true, Option.some.injEq] at deleted
        subst deleted
        simp [without, same]
      · simp only [delete, same, if_false, Option.map_eq_some_iff] at deleted
        obtain ⟨tail, tailDeleted, rfl⟩ := deleted
        obtain ⟨sameRest, shorterRest⟩ := induction tailDeleted
        refine ⟨?_, by simpa using shorterRest⟩
        simpa [without, same] using sameRest

/-- Where entries have no counters, `-D` with its failure ignored is `erase`. -/
theorem delete_getD_eq_erase {Entry : Type} [DecidableEq Entry] (entry : Entry)
    (chain : List Entry) :
    (delete id entry chain).getD chain = chain.erase entry := by
  induction chain with
  | nil => rfl
  | cons first rest induction =>
      by_cases same : first = entry
      · simp [delete, same]
      · rw [List.erase_cons_tail (by simpa using same), ← induction]
        cases deleted : delete id entry rest <;> simp [delete, same, deleted]

theorem deleteLoop_eq_without (rounds : Nat) (chain : List Entry)
    (enough : chain.length ≤ rounds) :
    deleteLoop specOf spec rounds chain = without specOf spec chain := by
  induction rounds generalizing chain with
  | zero =>
      have empty : chain = [] := by simpa using enough
      simp [empty, deleteLoop, without]
  | succ rounds induction =>
      rw [deleteLoop]
      cases result : delete specOf spec chain with
      | none => exact (delete_eq_none result).symm
      | some shorter =>
          obtain ⟨sameRest, shorterLength⟩ := delete_eq_some result
          exact (induction shorter (by omega)).trans sameRest

/-- The deletion loop of a script keeps exactly the other entries. -/
@[simp] theorem deleteAll_eq_without (chain : List Entry) :
    deleteAll specOf spec chain = without specOf spec chain :=
  deleteLoop_eq_without chain.length chain (Nat.le_refl _)

theorem mem_without {entry : Entry} :
    entry ∈ without specOf spec chain ↔ entry ∈ chain ∧ specOf entry ≠ spec := by
  simp [without]

end Chain
