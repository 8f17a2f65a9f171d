import Hnc.Daemon.AdapterBpf
import Hnc.Daemon.Scheduler
import Hnc.Lib.Runs

/-!
# The scheduler and its BPF adapter under any interleaving

A notification and an iteration of the worker hold `sched.lock` while they
change the set or the upstream and run their trigger; the second half of a
forced restore runs without it.  An event that has to wait for a lock is no
step.
-/

namespace Hnc.Scheduler

open Posix AdapterBpf Runs

/-- `trigger_adapter_disable_locked`, with what the adapter returned if it was
called. -/
def triggerAdapterDisable (sched : Sched) (bpf : Bpf) :
    Option OffloadErr × Bpf :=
  match sched.adapter.granularity with
  | .perUpstream =>
      let result :=
        if sched.primaryUpstreamIfindex ≤ 0 then bpfDisableGlobal bpf
        else bpfDisableUpstream bpf sched.primaryUpstreamIfindex
      (some result.1, result.2)
  | .none => (none, bpf)

/-- `trigger_adapter_restore_locked`; the adapter has a `restore_global`. -/
def triggerAdapterRestore (sched : Sched) (bpf : Bpf) :
    Option OffloadErr × Bpf :=
  match sched.adapter.granularity with
  | .perUpstream =>
      let result := bpfRestoreGlobal bpf
      (some result.1, result.2)
  | .none => (none, bpf)

def runTrigger (sched : Sched) (bpf : Bpf) : Trigger → Option OffloadErr × Bpf
  | .disable => triggerAdapterDisable sched bpf
  | .restore => triggerAdapterRestore sched bpf

/-- `need_retrigger` of `worker_main`. -/
def needRetrigger (prevIfindex nowIfindex : Int) (limitedCount : Nat) : Bool :=
  (prevIfindex = 0 ∧ nowIfindex > 0 ∧ limitedCount > 0) ∨
    (prevIfindex > 0 ∧ nowIfindex > 0 ∧ prevIfindex ≠ nowIfindex ∧
      limitedCount > 0)

/-- Who holds `sched.lock`. -/
inductive Party where
  | notify
  | worker
deriving DecidableEq, Repr

structure System where
  sched : Sched
  bpf : Bpf
  /-- The holder of `sched.lock`, with the trigger it is about to run. -/
  lock : Option (Party × Trigger)
  /-- The worker is past its probe and not yet through `refresh_active`. -/
  refreshing : Bool
  /-- The forced restores that have cleared the set and not yet written. -/
  restoring : Nat

namespace System

def primary (s : System) : Int :=
  s.sched.primaryUpstreamIfindex

def limited (s : System) : List Text :=
  s.sched.limitedMacs

/-- The holder of the lock is about to disable the offload. -/
def disabling (s : System) : Bool :=
  s.lock.any fun holder => holder.2 = .disable

/-- No call and no iteration is under way. -/
def Quiet (s : System) : Prop :=
  s.lock = none ∧ s.refreshing = false ∧ s.restoring = 0

/-- The offload of the active upstream is off if any device is limited. -/
def OffloadOff (s : System) : Prop :=
  s.limited ≠ [] → s.primary > 0 → quota s.bpf s.primary = some limitZero

end System

inductive Event where
  /-- A notification up to its trigger. -/
  | notify (mac : Option Text) (isLimited : Int) (detected : Detected)
  /-- The trigger of the holder of the lock, which then unlocks. -/
  | trigger (faults : List (Option Errno))
  /-- The probe of a worker iteration. -/
  | probe (detected : Detected)
  /-- `refresh_active`, with what it returns. -/
  | refresh (result : OffloadErr)
  /-- The first half of a forced restore. -/
  | clear
  /-- Its `restore_global`. -/
  | restore (faults : List (Option Errno))

def withFaults (bpf : Bpf) (faults : List (Option Errno)) : Bpf :=
  { bpf with faults := faults }

/-- What the holder of the lock gets from the adapter. -/
def triggered (s : System) (faults : List (Option Errno)) :
    Option OffloadErr × Bpf :=
  match s.lock with
  | none => (none, s.bpf)
  | some (_, trigger) => runTrigger s.sched (withFaults s.bpf faults) trigger

def step (s : System) : Event → System
  | .notify mac isLimited detected =>
      if s.lock = none then
        let result := notifyDeviceLimitChanged s.sched mac isLimited detected
        { s with
          sched := result.1
          lock := result.2.map fun trigger => (.notify, trigger) }
      else s
  | .trigger faults =>
      { s with bpf := (triggered s faults).2, lock := none }
  | .probe detected =>
      if s.lock = none ∧ s.refreshing = false then
        let sched := refreshPrimaryUpstream s.sched detected
        { s with
          sched := sched
          lock :=
            if needRetrigger s.primary sched.primaryUpstreamIfindex
                sched.limitedMacs.length then
              some (.worker, .disable)
            else none
          refreshing := true }
      else s
  | .refresh _ =>
      if s.lock.any fun holder => holder.1 = .worker then s
      else { s with refreshing := false }
  | .clear =>
      if s.lock = none then
        { s with
          sched := forceRestoreClear s.sched
          restoring := s.restoring + 1 }
      else s
  | .restore faults =>
      if 0 < s.restoring then
        { s with
          bpf := (bpfRestoreGlobal (withFaults s.bpf faults)).2
          restoring := s.restoring - 1 }
      else s

/-- A whole iteration of the worker that nothing comes between. -/
def iteration (detected : Detected) (faults : List (Option Errno))
    (result : OffloadErr) : List Event :=
  [.probe detected, .trigger faults, .refresh result]

/-- All adapter calls of an iteration from `s` return `OFFLOAD_OK`. -/
def IterationOk (s : System) (detected : Detected)
    (faults : List (Option Errno)) (result : OffloadErr) : Prop :=
  (∀ err, (triggered (step s (.probe detected)) faults).1 = some err →
    err = .ok) ∧ result = .ok

/-- The daemon behind `hnc_scheduler_init` with no limited device. -/
structure Fresh (s : System) : Prop where
  initialized : s.sched.initialized = true
  adapter : s.sched.adapter = .bpf
  empty : s.limited = []
  quiet : s.Quiet

/-- The steps that keep the offload off: a disabling write succeeds or finds a
zero, the write of a forced restore finds the set still empty or comes before
the write that disables, and the upstream does not change from a negative
index. -/
def Keeps (s : System) : Event → Prop
  | .trigger faults =>
      s.disabling = true → s.primary > 0 →
        (bpfDisableUpstream (withFaults s.bpf faults) s.primary).1 = .ok ∨
          quota s.bpf s.primary = some limitZero
  | .probe detected =>
      s.limited ≠ [] → s.primary < 0 →
        (refreshPrimaryUpstream s.sched detected).primaryUpstreamIfindex ≤ 0
  | .restore _ => s.restoring > 0 → s.limited = [] ∨ s.disabling = true
  | .notify .. | .refresh _ | .clear => True

/-- What every step of such a run keeps. -/
structure Safe (s : System) : Prop where
  initialized : s.sched.initialized = true
  adapter : s.sched.adapter = .bpf
  off : s.limited ≠ [] → s.primary > 0 → s.disabling = true ∨
    quota s.bpf s.primary = some limitZero
  restoring : ∀ party, s.lock = some (party, .restore) → s.limited = []

variable {s : System}

theorem Fresh.safe (fresh : Fresh s) : Safe s where
  initialized := fresh.initialized
  adapter := fresh.adapter
  off := fun limited => absurd fresh.empty limited
  restoring := fun _ _ => fresh.empty

theorem refreshPrimaryUpstream_adapter (sched : Sched) (detected : Detected) :
    (refreshPrimaryUpstream sched detected).adapter = sched.adapter := by
  cases detected with
  | some found => rfl
  | none =>
      simp only [refreshPrimaryUpstream]
      split <;> rfl

theorem changeLimited_frame (sched : Sched) (norm : Text) (isLimited : Int) :
    (changeLimited sched norm isLimited).adapter = sched.adapter ∧
      (changeLimited sched norm isLimited).primaryUpstreamIfindex =
        sched.primaryUpstreamIfindex := by
  rw [changeLimited]
  split <;> exact ⟨rfl, rfl⟩

/-- A probe that runs no trigger leaves a positive upstream where it was,
unless that was negative before. -/
theorem primary_of_not_needRetrigger {prev now : Int} {count : Nat}
    (no : needRetrigger prev now count = false) (limited : 0 < count)
    (positive : 0 < now) (notNegative : ¬prev < 0) : now = prev := by
  simp only [needRetrigger, decide_eq_false_iff_not, not_or, not_and] at no
  by_contra moved
  by_cases zero : prev = 0
  · exact no.1 zero positive limited
  · exact no.2 (by omega) positive (Ne.symm moved) limited

theorem safe_notify (safe : Safe s) (mac : Option Text) (isLimited : Int)
    (detected : Detected) : Safe (step s (.notify mac isLimited detected)) := by
  rw [step]
  split
  · rename_i free
    cases valid : normalizeMac mac with
    | none =>
        have ignored : notifyDeviceLimitChanged s.sched mac isLimited detected =
            (s.sched, none) := by
          simp [notifyDeviceLimitChanged, valid]
        simp only [ignored, Option.map_none]
        rw [← free]
        exact safe
    | some norm =>
        obtain ⟨adapter, primary⟩ := changeLimited_frame s.sched norm isLimited
        have ready := changeLimited_initialized s.sched norm isLimited
        obtain ⟨_, _, result⟩ | ⟨_, gone, result⟩ | ⟨same, result⟩ :=
          notify_cases safe.initialized valid isLimited detected
        · rw [result]
          refine ⟨?_, ?_, fun _ _ => Or.inl rfl, by simp⟩
          · exact (refreshPrimaryUpstream_initialized _ _).trans
              (ready.trans safe.initialized)
          · exact (refreshPrimaryUpstream_adapter _ _).trans
              (adapter.trans safe.adapter)
        · rw [result]
          exact ⟨ready.trans safe.initialized, adapter.trans safe.adapter,
            fun limited => absurd gone limited, fun _ _ => gone⟩
        · rw [result]
          refine ⟨ready.trans safe.initialized, adapter.trans safe.adapter,
            ?_, by simp⟩
          intro limited positive
          have before : s.limited ≠ [] := by
            intro none
            exact limited (same.mp none)
          have positiveBefore : s.primary > 0 := by
            have moved : (changeLimited s.sched norm
              isLimited).primaryUpstreamIfindex > 0 := positive
            rw [primary] at moved
            exact moved
          have off := safe.off before positiveBefore
          rw [System.disabling, free] at off
          refine Or.inr ?_
          change quota s.bpf (changeLimited s.sched norm
            isLimited).primaryUpstreamIfindex = some limitZero
          rw [primary]
          exact off.resolve_left (by simp)
  · exact safe

theorem safe_trigger (safe : Safe s) (faults : List (Option Errno))
    (keeps : Keeps s (.trigger faults)) : Safe (step s (.trigger faults)) := by
  refine ⟨safe.initialized, safe.adapter, ?_, nofun⟩
  intro limited positive
  refine Or.inr ?_
  change quota (triggered s faults).2 s.primary = some limitZero
  have off := safe.off limited positive
  rw [triggered]
  split
  · rename_i free
    rw [System.disabling, free] at off
    exact off.resolve_left (by simp)
  · rename_i party trigger held
    cases trigger with
    | restore => exact absurd (safe.restoring party held) limited
    | disable =>
        have now : s.disabling = true := by
          simp [System.disabling, held]
        have ok := keeps now positive
        have upstream : triggerAdapterDisable s.sched
            (withFaults s.bpf faults) =
            (some (bpfDisableUpstream (withFaults s.bpf faults) s.primary).1,
              (bpfDisableUpstream (withFaults s.bpf faults) s.primary).2) := by
          have notZero : ¬ s.sched.primaryUpstreamIfindex ≤ 0 :=
            not_le.mpr positive
          simp only [triggerAdapterDisable, safe.adapter, if_neg notZero]
          rfl
        rw [runTrigger, upstream]
        rcases ok with written | zero
        · exact bpfDisableUpstream_ok written
        · exact @bpfDisableUpstream_zero (withFaults s.bpf faults) _ zero

theorem safe_probe (safe : Safe s) (detected : Detected)
    (keeps : Keeps s (.probe detected)) : Safe (step s (.probe detected)) := by
  rw [step]
  split
  · rename_i free
    have sameSet := refreshPrimaryUpstream_limitedMacs s.sched detected
    refine ⟨?_, ?_, ?_, ?_⟩
    · exact (refreshPrimaryUpstream_initialized _ _).trans safe.initialized
    · exact (refreshPrimaryUpstream_adapter _ _).trans safe.adapter
    · intro limited positive
      change (refreshPrimaryUpstream s.sched detected).limitedMacs ≠ []
        at limited
      change (refreshPrimaryUpstream s.sched detected).primaryUpstreamIfindex > 0
        at positive
      cases needed : needRetrigger s.primary
          (refreshPrimaryUpstream s.sched detected).primaryUpstreamIfindex
          (refreshPrimaryUpstream s.sched detected).limitedMacs.length with
      | true =>
          left
          simp only [System.disabling, needed, if_true, Option.any_some,
            decide_true]
      | false =>
          have before : s.limited ≠ [] := by
            intro none
            exact limited (sameSet.trans none)
          have notNegative : ¬ s.primary < 0 := by
            intro negative
            have stays := keeps before negative
            omega
          have count := List.length_pos_of_ne_nil limited
          have same := primary_of_not_needRetrigger needed count positive
            notNegative
          have off := safe.off before (same ▸ positive)
          rw [System.disabling, free.1] at off
          refine Or.inr ?_
          change quota s.bpf (refreshPrimaryUpstream s.sched
            detected).primaryUpstreamIfindex = some limitZero
          rw [same]
          exact off.resolve_left (by simp)
    · intro party held
      change (if _ then some (Party.worker, Trigger.disable) else none) =
        some (party, .restore) at held
      split at held
      · cases held
      · cases held
  · exact safe

theorem safe_step (safe : Safe s) (event : Event) (keeps : Keeps s event) :
    Safe (step s event) := by
  cases event with
  | notify mac isLimited detected =>
      exact safe_notify safe mac isLimited detected
  | trigger faults => exact safe_trigger safe faults keeps
  | probe detected => exact safe_probe safe detected keeps
  | refresh result =>
      rw [step]
      split
      · exact safe
      · exact ⟨safe.initialized, safe.adapter, safe.off, safe.restoring⟩
  | clear =>
      rw [step]
      split
      · have cleared : forceRestoreClear s.sched =
            { s.sched with limitedMacs := [] } := by
          simp [forceRestoreClear, safe.initialized]
        rw [cleared]
        exact ⟨safe.initialized, safe.adapter, fun limited => absurd rfl limited,
          fun _ _ => rfl⟩
      · exact safe
  | restore faults =>
      rw [step]
      split
      · rename_i due
        refine ⟨safe.initialized, safe.adapter, ?_, safe.restoring⟩
        intro limited _
        exact Or.inl ((keeps due).resolve_left limited)
      · exact safe

theorem lock_refresh (free : s.lock = none) (result : OffloadErr) :
    (step s (.refresh result)).lock = none := by
  simp [step, free]

/-- After a run that `Keeps` at every step, the probe of a last iteration
included, an iteration whose adapter calls succeed leaves the offload of the
active upstream off while a device is limited. -/
theorem offload_stays_off (start : System) (fresh : Fresh start)
    (events : List Event) (detected : Detected) (faults : List (Option Errno))
    (result : OffloadErr)
    (keeps : Guarded step Keeps start (events ++ [.probe detected]))
    (ok : IterationOk (events.foldl step start) detected faults result) :
    ((iteration detected faults result).foldl step
      (events.foldl step start)).OffloadOff := by
  have probed : Safe (step (events.foldl step start) (.probe detected)) := by
    have run := keeps.final_induction Safe
      (fun s event safe keeps => safe_step safe event keeps) fresh.safe
    rwa [List.foldl_append] at run
  generalize events.foldl step start = s at *
  have writes : Keeps (step s (.probe detected)) (.trigger faults) := by
    intro disabling positive
    have ran := ok.1
    rw [triggered] at ran
    rw [System.disabling] at disabling
    cases held : (step s (.probe detected)).lock with
    | none =>
        rw [held] at disabling
        cases disabling
    | some holder =>
        obtain ⟨party, trigger⟩ := holder
        rw [held] at ran disabling
        have same : trigger = .disable := by simpa using disabling
        rw [same] at ran
        have notZero : ¬ (step s (.probe detected)).sched.primaryUpstreamIfindex
            ≤ 0 := not_le.mpr positive
        simp only [runTrigger, triggerAdapterDisable, probed.adapter,
          Adapter.granularity, if_neg notZero, Option.some.injEq] at ran
        exact Or.inl (ran _ rfl)
  have last := safe_step (safe_trigger probed faults writes) (.refresh result)
    trivial
  intro limited positive
  have unlocked : (step (step (step s (.probe detected)) (.trigger faults))
      (.refresh result)).lock = none := lock_refresh rfl result
  have off := last.off limited positive
  rw [System.disabling, unlocked] at off
  exact off.resolve_left (by simp)

instance keepsDecidable (s : System) : ∀ event, Decidable (Keeps s event)
  | .trigger _ => inferInstanceAs (Decidable (_ → _ → _))
  | .probe _ => inferInstanceAs (Decidable (_ → _ → _))
  | .restore _ => inferInstanceAs (Decidable (_ → _))
  | .notify .. | .refresh _ | .clear => inferInstanceAs (Decidable True)

/-- Interface 5 has all the quota it wants. -/
def idleSystem : System where
  sched := readySched
  bpf := ⟨true, (∅ : KeyMap.Map Nat Nat).insert 5 limitNone, [], false, []⟩
  lock := none
  refreshing := false
  restoring := 0

theorem fresh_idleSystem : Fresh idleSystem :=
  ⟨rfl, rfl, rfl, rfl, rfl, rfl⟩

def mobile : Detected :=
  some (5, "rmnet0".toList)

/-- The upstream changes, a restore is forced and its write fails, then a
device is limited again. -/
def sampleEvents : List Event :=
  [.notify (some "aa:bb:cc:dd:ee:01".toList) 1 none, .trigger [],
    .probe mobile, .trigger [], .refresh .ok, .clear, .restore [some .eperm],
    .notify (some "aa:bb:cc:dd:ee:02".toList) 1 (some (7, "wlan0".toList)),
    .trigger []]

theorem sampleEvents_offload_off :
    ((iteration mobile [] .ok).foldl step
      (sampleEvents.foldl step idleSystem)).OffloadOff := by
  have ran : (triggered (step (sampleEvents.foldl step idleSystem)
      (.probe mobile)) []).1 = some .ok := by
    decide +kernel
  apply offload_stays_off idleSystem fresh_idleSystem sampleEvents mobile []
  · decide +kernel
  · refine ⟨?_, rfl⟩
    intro err got
    rw [ran] at got
    exact (Option.some.inj got).symm

/-- The write that should disable the offload fails once; no iteration makes
up for it. -/
def failedWrite : List Event :=
  [.notify (some "aa:bb:cc:dd:ee:01".toList) 1 mobile, .trigger [some .eperm]]

theorem failed_write_is_not_retried :
    ¬ ∀ start : System, Fresh start →
      ∀ (events : List Event) (detected : Detected)
        (faults : List (Option Errno)) (result : OffloadErr),
      (events.foldl step start).Quiet →
      IterationOk (events.foldl step start) detected faults result →
      ((iteration detected faults result).foldl step
        (events.foldl step start)).OffloadOff := by
  intro always
  have ran : (triggered (step (failedWrite.foldl step idleSystem)
      (.probe mobile)) []).1 = none := by
    decide +kernel
  have quiet : (failedWrite.foldl step idleSystem).Quiet := by
    refine ⟨?_, ?_, ?_⟩ <;> decide +kernel
  have ok : IterationOk (failedWrite.foldl step idleSystem) mobile [] .ok := by
    refine ⟨?_, rfl⟩
    intro err got
    rw [ran] at got
    cases got
  have broken : ¬((iteration mobile [] .ok).foldl step
      (failedWrite.foldl step idleSystem)).OffloadOff := by
    rw [System.OffloadOff]
    decide +kernel
  exact broken (always idleSystem fresh_idleSystem failedWrite mobile [] .ok
    quiet ok)

end Hnc.Scheduler
