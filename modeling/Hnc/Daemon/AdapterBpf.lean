import Hnc.Lib.KeyMap
import Hnc.Lib.SlotSet
import Mathlib.Algebra.Group.Int.Defs
import Mathlib.Algebra.Group.Nat.Defs

/-!
# The BPF adapter of the offload scheduler

`daemon/hotspotd/offload/adapter_bpf.c` turns the offload of an upstream off by
a zero in `limit_map` and on by the largest number.  A system call fails when
the kernel says so; which of them do is the input `faults`, in the order of the
calls.  The functions hold `s_lock` from start to end.
-/

namespace Hnc.AdapterBpf

open KeyMap

/-- The values of `errno` that the adapter tells apart. -/
inductive Errno where
  | eperm
  | eacces
  | enoent
  | einval
  | eagain
  | ebusy
  | ebadf
  | other
deriving DecidableEq, Repr

inductive OffloadErr where
  | ok
  | eperm
  | enoent
  | einval
  | eagain
  | einternal
deriving DecidableEq, Repr

def errnoToOffload : Errno → OffloadErr
  | .eperm | .eacces => .eperm
  | .enoent => .enoent
  | .einval => .einval
  | .eagain | .ebusy => .eagain
  | .ebadf | .other => .einternal

/-- `BPF_LIMIT_NONE`. -/
def limitNone : Nat := 2 ^ 64 - 1

/-- `BPF_LIMIT_ZERO`. -/
def limitZero : Nat := 0

/-- `MAX_DISABLED_UPSTREAMS`. -/
def maxDisabledUpstreams : Nat := 8

/-- The static state `s` as far as the limit map goes, the map itself, and the
failures that the next system calls meet. -/
structure Bpf where
  fdOpen : Bool
  limitMap : Map Nat Nat
  disabledUpstreams : List Int
  globallyDisabled : Bool
  faults : List (Option Errno)

/-- The key of an interface, `(uint32_t)ifindex`. -/
def mapKey (ifindex : Int) : Nat :=
  (ifindex % 2 ^ 32).toNat

/-- `(int)next_key`. -/
def ifindexOf (key : Nat) : Int :=
  if key < 2 ^ 31 then key else key - 2 ^ 32

/-- The failure of the next system call, if the kernel lets it fail. -/
def syscall (s : Bpf) : Option Errno × Bpf :=
  match s.faults with
  | [] => (none, s)
  | fault :: rest => (fault, { s with faults := rest })

/-- `reopen_fd`: the old descriptor is closed first. -/
def reopenFd (s : Bpf) : Option Errno × Bpf :=
  match syscall { s with fdOpen := false } with
  | (some errno, s) => (some errno, s)
  | (none, s) => (none, { s with fdOpen := true })

def ensureLimitFd (s : Bpf) : Option Errno × Bpf :=
  if s.fdOpen then (none, s) else reopenFd s

/-- `bpf_map_update_elem`, with `BPF_EXIST` or with `BPF_ANY`. -/
def mapUpdateElem (s : Bpf) (key value : Nat) (mustExist : Bool) :
    Option Errno × Bpf :=
  match syscall s with
  | (some errno, s) => (some errno, s)
  | (none, s) =>
      if mustExist ∧ (s.limitMap.lookup key).isNone then (some .enoent, s)
      else (none, { s with limitMap := s.limitMap.insert key value })

def disabledSetAdd (s : Bpf) (ifindex : Int) : Bpf :=
  { s with
    disabledUpstreams :=
      (SlotSet.add maxDisabledUpstreams s.disabledUpstreams ifindex).getD
        s.disabledUpstreams }

def disabledSetRemove (s : Bpf) (ifindex : Int) : Bpf :=
  { s with
    disabledUpstreams :=
      (SlotSet.remove s.disabledUpstreams ifindex).getD s.disabledUpstreams }

/-- The part of `bpf_disable_upstream` behind the failure `errno` of the
update. -/
def createEntry (s : Bpf) (ifindex : Int) (errno : Errno) :
    OffloadErr × Bpf :=
  if errno = .enoent then
    match mapUpdateElem s (mapKey ifindex) limitZero false with
    | (none, s) => (.ok, disabledSetAdd s ifindex)
    | (some errno, s) => (errnoToOffload errno, s)
  else (errnoToOffload errno, s)

def bpfDisableUpstream (s : Bpf) (ifindex : Int) : OffloadErr × Bpf :=
  if ifindex ≤ 0 then (.einval, s)
  else
    match ensureLimitFd s with
    | (some errno, s) => (errnoToOffload errno, s)
    | (none, s) =>
        match mapUpdateElem s (mapKey ifindex) limitZero true with
        | (none, s) => (.ok, disabledSetAdd s ifindex)
        | (some .ebadf, s) =>
            match reopenFd s with
            | (some errno, s) => (errnoToOffload errno, s)
            | (none, s) =>
                match mapUpdateElem s (mapKey ifindex) limitZero true with
                | (none, s) => (.ok, disabledSetAdd s ifindex)
                | (some errno, s) => createEntry s ifindex errno
        | (some errno, s) => createEntry s ifindex errno

/-- The counters of a loop over all entries. -/
structure Sweep where
  touched : Nat
  errs : Nat
  iterErrno : Option Errno
deriving DecidableEq, Repr

/-- The loop of `bpf_disable_global` and `bpf_restore_global` over the keys
that are left, which nothing adds to meanwhile: `touch` notes a written entry
in the set of disabled upstreams. -/
def sweepLoop (value : Nat) (touch : Bpf → Int → Bpf) :
    List Nat → Sweep → Bpf → Sweep × Bpf
  | [], sweep, s =>
      match syscall s with
      | (none, s) | (some .enoent, s) => (sweep, s)
      | (some errno, s) =>
          ({ sweep with errs := sweep.errs + 1, iterErrno := some errno }, s)
  | key :: rest, sweep, s =>
      match syscall s with
      | (some .enoent, s) => (sweep, s)
      | (some errno, s) =>
          ({ sweep with errs := sweep.errs + 1, iterErrno := some errno }, s)
      | (none, s) =>
          match mapUpdateElem s key value true with
          | (none, s) =>
              sweepLoop value touch rest
                { sweep with touched := sweep.touched + 1 }
                (touch s (ifindexOf key))
          | (some _, s) =>
              sweepLoop value touch rest
                { sweep with errs := sweep.errs + 1 } s

def sweepResult (sweep : Sweep) : OffloadErr :=
  if sweep.errs = 0 then .ok
  else
    match sweep.iterErrno with
    | some errno => if sweep.touched = 0 then errnoToOffload errno else .ok
    | none => if sweep.touched > 0 then .ok else .einternal

def bpfDisableGlobal (s : Bpf) : OffloadErr × Bpf :=
  match ensureLimitFd s with
  | (some errno, s) => (errnoToOffload errno, s)
  | (none, s) =>
      let (sweep, s) :=
        sweepLoop limitZero disabledSetAdd s.limitMap.keys ⟨0, 0, none⟩ s
      (sweepResult sweep,
        { s with
          globallyDisabled :=
            if sweep.touched > 0 ∧ sweep.errs = 0 then true
            else s.globallyDisabled })

def bpfRestoreGlobal (s : Bpf) : OffloadErr × Bpf :=
  match ensureLimitFd s with
  | (some errno, s) => (errnoToOffload errno, s)
  | (none, s) =>
      let (sweep, s) :=
        sweepLoop limitNone disabledSetRemove s.limitMap.keys ⟨0, 0, none⟩ s
      (sweepResult sweep,
        if sweep.errs = 0 then
          { s with globallyDisabled := false, disabledUpstreams := [] }
        else s)

/-- The quota of an interface in the limit map. -/
def quota (s : Bpf) (ifindex : Int) : Option Nat :=
  s.limitMap.lookup (mapKey ifindex)

@[simp] theorem quota_disabledSetAdd (s : Bpf) (added ifindex : Int) :
    quota (disabledSetAdd s added) ifindex = quota s ifindex := rfl

/-- An update that succeeds has written its value. -/
theorem quota_mapUpdateElem {s later : Bpf} {ifindex : Int} {value : Nat}
    {mustExist : Bool}
    (done : mapUpdateElem s (mapKey ifindex) value mustExist = (none, later)) :
    quota later ifindex = some value := by
  rw [mapUpdateElem] at done
  split at done
  · cases done
  · split at done
    · cases done
    · obtain rfl := (Prod.mk.inj done).2
      simp [quota]

theorem errnoToOffload_ne_ok (errno : Errno) : errnoToOffload errno ≠ .ok := by
  cases errno <;> simp [errnoToOffload]

theorem createEntry_ok {s : Bpf} {ifindex : Int} {errno : Errno}
    (ok : (createEntry s ifindex errno).1 = .ok) :
    quota (createEntry s ifindex errno).2 ifindex = some limitZero := by
  rw [createEntry] at ok ⊢
  split at ok
  · rename_i absent
    rw [if_pos absent]
    split at ok
    · rename_i later done
      exact (quota_disabledSetAdd _ _ _).trans (quota_mapUpdateElem done)
    · exact absurd ok (errnoToOffload_ne_ok _)
  · exact absurd ok (errnoToOffload_ne_ok _)

theorem bpfDisableUpstream_ok {s : Bpf} {ifindex : Int}
    (ok : (bpfDisableUpstream s ifindex).1 = .ok) :
    quota (bpfDisableUpstream s ifindex).2 ifindex = some limitZero := by
  rw [bpfDisableUpstream] at ok ⊢
  split at ok
  · cases ok
  · rename_i positive
    rw [if_neg positive]
    split at ok
    · exact absurd ok (errnoToOffload_ne_ok _)
    · split at ok
      · rename_i done
        exact (quota_disabledSetAdd _ _ _).trans (quota_mapUpdateElem done)
      · split at ok
        · exact absurd ok (errnoToOffload_ne_ok _)
        · split at ok
          · rename_i done
            exact (quota_disabledSetAdd _ _ _).trans (quota_mapUpdateElem done)
          · exact createEntry_ok ok
      · exact createEntry_ok ok

theorem limitMap_syscall (s : Bpf) : (syscall s).2.limitMap = s.limitMap := by
  rw [syscall]
  split <;> rfl

theorem limitMap_reopenFd (s : Bpf) : (reopenFd s).2.limitMap = s.limitMap := by
  have same := limitMap_syscall { s with fdOpen := false }
  rw [reopenFd]
  split
  · rename_i outcome
    rw [outcome] at same
    exact same
  · rename_i outcome
    rw [outcome] at same
    exact same

theorem limitMap_ensureLimitFd (s : Bpf) :
    (ensureLimitFd s).2.limitMap = s.limitMap := by
  rw [ensureLimitFd]
  split
  · rfl
  · exact limitMap_reopenFd s

section

variable {s : Bpf} {ifindex : Int} (zero : quota s ifindex = some limitZero)
include zero

theorem mapUpdateElem_zero (mustExist : Bool) :
    quota (mapUpdateElem s (mapKey ifindex) limitZero mustExist).2 ifindex =
      some limitZero := by
  have same := limitMap_syscall s
  have kept : quota (syscall s).2 ifindex = some limitZero := by
    rw [quota, same]
    exact zero
  rw [mapUpdateElem]
  split
  · rename_i outcome
    rw [outcome] at kept
    exact kept
  · rename_i outcome
    rw [outcome] at kept
    split
    · exact kept
    · simp [quota]

theorem createEntry_zero (errno : Errno) :
    quota (createEntry s ifindex errno).2 ifindex = some limitZero := by
  have kept := mapUpdateElem_zero zero false
  rw [createEntry]
  split
  · split
    · rename_i outcome
      rw [outcome] at kept
      exact kept
    · rename_i outcome
      rw [outcome] at kept
      exact kept
  · exact zero

/-- Whatever fails, `bpf_disable_upstream` leaves a zero a zero. -/
theorem bpfDisableUpstream_zero :
    quota (bpfDisableUpstream s ifindex).2 ifindex = some limitZero := by
  have opened : quota (ensureLimitFd s).2 ifindex = some limitZero := by
    rw [quota, limitMap_ensureLimitFd]
    exact zero
  rw [bpfDisableUpstream]
  split
  · exact zero
  · split
    · rename_i outcome
      rw [outcome] at opened
      exact opened
    · rename_i first outcome
      rw [outcome] at opened
      have written := mapUpdateElem_zero opened true
      split
      · rename_i outcome
        rw [outcome] at written
        exact written
      · rename_i second outcome
        rw [outcome] at written
        have again : quota (reopenFd second).2 ifindex = some limitZero := by
          rw [quota, limitMap_reopenFd]
          exact written
        split
        · rename_i outcome
          rw [outcome] at again
          exact again
        · rename_i outcome
          rw [outcome] at again
          have rewritten := mapUpdateElem_zero again true
          split
          · rename_i outcome
            rw [outcome] at rewritten
            exact rewritten
          · rename_i outcome
            rw [outcome] at rewritten
            exact createEntry_zero rewritten _
      · rename_i outcome
        rw [outcome] at written
        exact createEntry_zero written _

end

end Hnc.AdapterBpf
