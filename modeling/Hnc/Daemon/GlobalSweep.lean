import Hnc.Daemon.AdapterBpf

/-!
# Writing every entry of the limit map

`bpf_disable_global` and `bpf_restore_global` count the entries that they wrote
and the calls that failed.  The course of such a loop is what its calls come to:
the entries that were enumerated, each with the outcome of its update, and the
failure that ended the enumeration, if it did not reach the end.
-/

namespace Hnc.AdapterBpf

open KeyMap

structure Course where
  visits : List (Nat × Option Errno)
  stop : Option Errno
deriving DecidableEq, Repr

/-- `ENOENT` from `bpf_map_get_next_key` is the end of the map. -/
def stopOf : Option Errno → Option Errno
  | none | some .enoent => none
  | some errno => some errno

/-- The course over the keys of the map when these system calls fail. -/
def course : List Nat → List (Option Errno) → Course
  | [], faults => ⟨[], stopOf (faults.headD none)⟩
  | key :: rest, faults =>
      match faults.headD none with
      | some errno => ⟨[], stopOf (some errno)⟩
      | none =>
          let later := course rest faults.tail.tail
          ⟨(key, faults.tail.headD none) :: later.visits, later.stop⟩

namespace Course

/-- The entries whose update succeeded. -/
def written (c : Course) : List Nat :=
  (c.visits.filter fun visit => visit.2 = none).map Prod.fst

/-- The entries whose update failed. -/
def missed (c : Course) : List Nat :=
  (c.visits.filter fun visit => visit.2 ≠ none).map Prod.fst

/-- Every entry that was enumerated is written, and the enumeration reached the
end. -/
def Complete (c : Course) : Prop :=
  (∀ visit ∈ c.visits, visit.2 = none) ∧ c.stop = none

/-- The counters of the loop. -/
def sweep (c : Course) : Sweep :=
  ⟨c.written.length, c.missed.length + if c.stop = none then 0 else 1, c.stop⟩

end Course

theorem syscall_eq (s : Bpf) :
    syscall s = (s.faults.headD none, { s with faults := s.faults.tail }) := by
  obtain ⟨fdOpen, limitMap, disabled, globally, faults⟩ := s
  cases faults <;> rfl

/-- What the loops do to the set of disabled upstreams leaves the map and the
kernel alone. -/
structure Bookkeeping (touch : Bpf → Int → Bpf) : Prop where
  limitMap : ∀ s ifindex, (touch s ifindex).limitMap = s.limitMap
  faults : ∀ s ifindex, (touch s ifindex).faults = s.faults

theorem bookkeeping_add : Bookkeeping disabledSetAdd :=
  ⟨fun _ _ => rfl, fun _ _ => rfl⟩

theorem bookkeeping_remove : Bookkeeping disabledSetRemove :=
  ⟨fun _ _ => rfl, fun _ _ => rfl⟩

/-- The counters of two loops, one after the other. -/
def Sweep.add (first later : Sweep) : Sweep :=
  ⟨first.touched + later.touched, first.errs + later.errs,
    later.iterErrno.or first.iterErrno⟩

/-- The update of an entry that exists fails only when the kernel says so. -/
theorem mapUpdateElem_present {s : Bpf} {key : Nat}
    (present : key ∈ s.limitMap) (value : Nat) :
    mapUpdateElem s key value true =
      match s.faults.headD none with
      | some errno => (some errno, { s with faults := s.faults.tail })
      | none =>
          (none, { s with
            limitMap := s.limitMap.insert key value
            faults := s.faults.tail }) := by
  have found : (s.limitMap.lookup key).isNone = false := by
    rw [← Option.not_isSome, AList.lookup_isSome.mpr present]
    rfl
  rw [mapUpdateElem, syscall_eq]
  cases s.faults.headD none with
  | some errno => rfl
  | none => simp [found]

theorem sweepLoop_eq {touch : Bpf → Int → Bpf} (book : Bookkeeping touch)
    (value : Nat) {keys : List Nat} (sweep : Sweep) {s : Bpf}
    (present : ∀ key ∈ keys, key ∈ s.limitMap) :
    (sweepLoop value touch keys sweep s).1 =
        sweep.add (course keys s.faults).sweep ∧
      ∀ key,
        (sweepLoop value touch keys sweep s).2.limitMap.lookup key =
          if key ∈ (course keys s.faults).written then some value
          else s.limitMap.lookup key := by
  induction keys generalizing sweep s with
  | nil =>
      rw [sweepLoop, syscall_eq, course]
      cases s.faults.headD none with
      | none => simp [Course.sweep, Course.written, Course.missed, stopOf,
          Sweep.add]
      | some errno =>
          cases errno <;> simp [Course.sweep, Course.written, Course.missed,
            stopOf, Sweep.add]
  | cons key rest induction =>
      rw [sweepLoop, syscall_eq, course]
      cases s.faults.headD none with
      | some errno =>
          cases errno <;> simp [Course.sweep, Course.written, Course.missed,
            stopOf, Sweep.add]
      | none =>
          dsimp only
          have here : key ∈ s.limitMap := present key (by simp)
          have others : ∀ other ∈ rest, other ∈ s.limitMap := by
            intro other member
            exact present other (by simp [member])
          rw [mapUpdateElem_present (s := { s with faults := s.faults.tail })
            here]
          cases update : s.faults.tail.headD none with
          | some errno =>
              have tail := @induction { sweep with errs := sweep.errs + 1 }
                { s with faults := s.faults.tail.tail } others
              refine ⟨tail.1.trans ?_, ?_⟩
              · simp only [Course.sweep, Course.written, Course.missed, Sweep.add]
                simp
                omega
              · intro other
                simp only [tail.2, Course.written]
                simp
          | none =>
              have written : ∀ other ∈ rest,
                  other ∈ s.limitMap.insert key value := by
                intro other member
                exact AList.mem_insert _ |>.mpr (.inr (others other member))
              have tail := @induction
                { sweep with touched := sweep.touched + 1 }
                (touch
                  { s with
                    limitMap := s.limitMap.insert key value
                    faults := s.faults.tail.tail } (ifindexOf key))
                (by rw [book.limitMap]; exact written)
              rw [book.faults, book.limitMap] at tail
              refine ⟨tail.1.trans ?_, ?_⟩
              · simp only [Course.sweep, Course.written, Course.missed, Sweep.add]
                simp
                omega
              · intro other
                rw [tail.2 other, lookup_insert_eq]
                simp only [Course.written]
                by_cases same : other = key
                · simp [same]
                · simp [same]

/-- `OFFLOAD_OK` also stands for a loop that wrote something. -/
theorem sweepResult_ok_iff (c : Course) :
    sweepResult c.sweep = .ok ↔ c.Complete ∨ c.written ≠ [] := by
  have missed : c.missed = [] ↔ ∀ visit ∈ c.visits, visit.2 = none := by
    simp [Course.missed]
  rw [sweepResult, Course.sweep, Course.Complete, ← missed]
  cases c.stop with
  | none =>
      cases c.missed <;> cases c.written <;> simp
  | some errno =>
      cases c.written with
      | nil => simp [errnoToOffload_ne_ok]
      | cons key keys => simp

/-! ## The two functions -/

/-- One of `bpf_disable_global` and `bpf_restore_global`. -/
inductive GlobalWrite where
  | disable
  | restore
deriving DecidableEq, Repr

namespace GlobalWrite

def run : GlobalWrite → Bpf → OffloadErr × Bpf
  | disable, s => bpfDisableGlobal s
  | restore, s => bpfRestoreGlobal s

/-- The value that goes into every entry. -/
def value : GlobalWrite → Nat
  | disable => limitZero
  | restore => limitNone

end GlobalWrite

/-- The course of the loop, if the descriptor of the map can be opened. -/
def globalCourse (s : Bpf) : Option Course :=
  match ensureLimitFd s with
  | (some _, _) => none
  | (none, opened) => some (course s.limitMap.keys opened.faults)

theorem run_eq (write : GlobalWrite) (s : Bpf) :
    match globalCourse s with
    | none => (write.run s).1 ≠ .ok ∧ (write.run s).2.limitMap = s.limitMap
    | some c =>
        (write.run s).1 = sweepResult c.sweep ∧
          ∀ key, (write.run s).2.limitMap.lookup key =
            if key ∈ c.written then some write.value
            else s.limitMap.lookup key := by
  have same := limitMap_ensureLimitFd s
  rw [globalCourse]
  cases outcome : ensureLimitFd s with
  | mk fault opened =>
      rw [outcome] at same
      change opened.limitMap = s.limitMap at same
      cases fault with
      | some errno =>
          cases write
          all_goals
            simp only [GlobalWrite.run, bpfDisableGlobal, bpfRestoreGlobal,
              outcome]
            exact ⟨errnoToOffload_ne_ok errno, same⟩
      | none =>
          have present : ∀ key ∈ s.limitMap.keys, key ∈ opened.limitMap := by
            intro key member
            rw [same]
            exact AList.mem_keys.mpr member
          have empty : ∀ c : Course, (Sweep.add ⟨0, 0, none⟩ c.sweep) =
              c.sweep := by
            intro c
            simp [Sweep.add]
          cases write with
          | disable =>
              have loop := sweepLoop_eq bookkeeping_add limitZero
                ⟨0, 0, none⟩ present
              rw [empty, same] at loop
              simp only [GlobalWrite.run, bpfDisableGlobal, outcome, same,
                loop.1]
              exact ⟨trivial, loop.2⟩
          | restore =>
              have loop := sweepLoop_eq bookkeeping_remove limitNone
                ⟨0, 0, none⟩ present
              rw [empty, same] at loop
              simp only [GlobalWrite.run, bpfRestoreGlobal, outcome, same,
                loop.1]
              refine ⟨trivial, ?_⟩
              intro key
              rw [GlobalWrite.value, ← loop.2 key]
              split <;> rfl

/-- Success is reported only if every entry that was enumerated has the new
value and the enumeration reached the end. -/
def ReportsFaithfully (write : GlobalWrite) (s : Bpf) : Prop :=
  (write.run s).1 = .ok →
    ∃ c, globalCourse s = some c ∧ c.Complete ∧
      ∀ visit ∈ c.visits,
        (write.run s).2.limitMap.lookup visit.1 = some write.value

/-- No failure follows or precedes a written entry. -/
def NoPartialWrite (s : Bpf) : Prop :=
  ∀ c, globalCourse s = some c → c.written ≠ [] → c.Complete

/-- A global write reports success faithfully exactly when it is not the case
that one entry is written and another call fails. -/
theorem reportsFaithfully_iff (write : GlobalWrite) (s : Bpf) :
    ReportsFaithfully write s ↔ NoPartialWrite s := by
  have run := run_eq write s
  rw [ReportsFaithfully, NoPartialWrite]
  cases sweep : globalCourse s with
  | none =>
      rw [sweep] at run
      apply iff_of_true
      · intro ok
        exact absurd ok run.1
      · intro c found
        cases found
  | some c =>
      rw [sweep] at run
      obtain ⟨result, entries⟩ := run
      rw [result, sweepResult_ok_iff]
      constructor
      · intro faithful other found solid
        cases found
        obtain ⟨_, found, complete, _⟩ := faithful (.inr solid)
        cases found
        exact complete
      · intro whole ok
        have complete : c.Complete := ok.elim id (whole c rfl)
        refine ⟨c, rfl, complete, ?_⟩
        intro visit member
        have written : visit.1 ∈ c.written := by
          apply List.mem_map.mpr
          exact ⟨visit, List.mem_filter.mpr ⟨member,
            decide_eq_true (complete.1 visit member)⟩, rfl⟩
        rw [entries, if_pos written]

/-- Two upstreams, of which the second update fails. -/
def secondUpdateFails : Bpf where
  fdOpen := true
  limitMap := AList.insert 7 limitNone (AList.insert 9 limitNone ∅)
  disabledUpstreams := []
  globallyDisabled := false
  faults := [none, none, none, some .eperm]

theorem partial_write_reports_ok :
    (bpfDisableGlobal secondUpdateFails).1 = .ok ∧
      quota (bpfDisableGlobal secondUpdateFails).2 7 = some limitZero ∧
      quota (bpfDisableGlobal secondUpdateFails).2 9 = some limitNone ∧
      ¬ReportsFaithfully .disable secondUpdateFails := by
  refine ⟨by decide, by decide, by decide, ?_⟩
  intro faithful
  obtain ⟨c, found, _, entries⟩ := faithful (by decide)
  cases found
  exact absurd (entries (9, some .eperm) (by decide)) (by decide)

end Hnc.AdapterBpf
