import Hnc.Daemon.Hotspotd
import Hnc.Lib.Runs

/-!
# What becomes of an mDNS answer

The label of a pending device means two things: that its name was not looked
for yet, or that the worker is looking for it.  An answer is kept as long as
the first meaning never gets in the way of the second.
-/

namespace Hnc.Hotspotd

open Posix Runs

/-- The addresses whose lookup is on its way: queued, with the worker or not
yet drained. -/
def underWay (s : Daemon) : List Text :=
  (s.tasks.map fun task => macKey task.mac) ++
    ((s.working.map fun task => macKey task.mac).toList ++
      s.results.map fun r => macKey r.mac)

/-- The two labels of a device that got its name from no other source. -/
def Source.isLost : Source → Bool
  | .mac | .mdns => true
  | _ => false

/-- A name that is not manual, from DHCP, from the cache or from the vendor
table. -/
def Source.isOpen : Source → Bool
  | .mac | .mdns | .pending => true
  | _ => false

theorem Source.eq_pending {src : Source} (noName : src.isOpen = true)
    (waits : src.isLost = false) : src = .pending := by
  cases src with
  | pending => rfl
  | mac => cases waits
  | mdns => cases waits
  | manual => cases noName
  | dhcp => cases noName
  | cached => cases noName
  | oui => cases noName

/-- No two active slots hold one device. -/
def Unique (devs : List Device) : Prop :=
  ∀ (i j : Nat) (d e : Device), devs[i]? = some d → devs[j]? = some e →
    d.active = true → e.active = true → macKey d.mac = macKey e.mac → i = j

/-- A device whose lookup is among `keys` waits for it, or has a name. -/
def Waiting (devs : List Device) (keys : List Text) : Prop :=
  ∀ (i : Nat) (d : Device), devs[i]? = some d → d.active = true →
    macKey d.mac ∈ keys → d.hostnameSrc.isLost = false

/-- What a run keeps in which no lookup under way is given up. -/
structure Attended (s : Daemon) : Prop where
  unique : Unique s.devs
  once : (underWay s).Nodup
  waiting : Waiting s.devs (underWay s)

/-- The steps that give up no lookup under way: a device whose lookup is under
way is not resolved down to its address, neither when it is seen again nor when
its turn among the pending devices comes. -/
def Attends (s : Daemon) : Event → Prop
  | .sight seen =>
      ∀ i ∈ findDevice s.devs seen.mac, ∀ d ∈ s.devs[i]?,
        shouldReResolve d.hostnameSrc d.lastResolve seen.now = true →
        macKey d.mac ∈ underWay s →
        (resolveHostnameDhcpOnly seen.lookups seen.mac).2 ≠ .mac
  | .processPendingMdns now _ =>
      ∀ i ∈ oldestPending s.devs now, ∀ d ∈ s.devs[i]?,
        macKey d.mac ∉ underWay s
  | _ => True

/-- The steps that give the device in a slot no other name and the slot no
other device. -/
def Spares (slot : Nat) (s : Daemon) : Event → Prop
  | .sight seen =>
      match findDevice s.devs seen.mac with
      | none => (allocDevice s.devs).1 ≠ slot
      | some i => i = slot → ∀ d ∈ s.devs[i]?,
          shouldReResolve d.hostnameSrc d.lastResolve seen.now = false
  | .processPendingMdns .. | .drainResults => False
  | .takeTask | .finishTask _ | .lose _ | .offlineCheck _ => True

variable {i slot : Nat}

theorem spares_found {s : Daemon} {seen : Sighting}
    (found : findDevice s.devs seen.mac = some i) :
    Spares slot s (.sight seen) ↔
      (i = slot → ∀ d ∈ s.devs[i]?,
        shouldReResolve d.hostnameSrc d.lastResolve seen.now = false) := by
  simp only [Spares, found]

variable {mac : Text}

theorem findDevice_eq_some {devs : List Device}
    (found : findDevice devs mac = some i) :
    ∃ d, devs[i]? = some d ∧ d.active = true ∧ macKey d.mac = macKey mac := by
  obtain ⟨bound, here, _⟩ := List.findIdx?_eq_some_iff_getElem.mp found
  simp only [Bool.and_eq_true, decide_eq_true_eq] at here
  exact ⟨devs[i], List.getElem?_eq_getElem bound, here.1, here.2⟩

theorem findDevice_eq_none {devs : List Device}
    (missing : findDevice devs mac = none) :
    ∀ (i : Nat) (d : Device), devs[i]? = some d → d.active = true →
      macKey d.mac ≠ macKey mac := by
  intro i d here active same
  have none := List.findIdx?_eq_none_iff.mp missing d
    (List.mem_of_getElem? here)
  simp [active, same] at none

/-- A change that keeps the address of a device and does not bring it back. -/
def Keeps (change : Device → Device) : Prop :=
  ∀ d, (change d).mac = d.mac ∧ ((change d).active = true → d.active = true)

variable {keys : List Text} {new : Device}

section

variable {devs : List Device}

variable {change : Device → Device}

theorem getElem?_modify_cases {j : Nat} {e : Device}
    (here : (devs.modify i change)[j]? = some e) :
    ∃ d, devs[j]? = some d ∧ (e = d ∧ i ≠ j ∨ e = change d ∧ i = j) := by
  rw [List.getElem?_modify] at here
  obtain ⟨d, old, result⟩ := Option.map_eq_some_iff.mp here
  refine ⟨d, old, ?_⟩
  by_cases same : i = j
  · exact Or.inr ⟨by simpa [same] using result.symm, same⟩
  · exact Or.inl ⟨by simpa [same] using result.symm, same⟩

theorem Unique.modify (unique : Unique devs) (keeps : Keeps change) (slot : Nat) :
    Unique (devs.modify slot change) := by
  intro i j d e first second activeFirst activeSecond same
  obtain ⟨d', oldFirst, first⟩ := getElem?_modify_cases first
  obtain ⟨e', oldSecond, second⟩ := getElem?_modify_cases second
  have facts : ∀ old new, (new = old ∨ new = change old) →
      new.mac = old.mac ∧ (new.active = true → old.active = true) := by
    intro old new either
    rcases either with rfl | rfl
    · exact ⟨rfl, id⟩
    · exact keeps old
  have left := facts d' d (first.imp And.left And.left)
  have right := facts e' e (second.imp And.left And.left)
  rw [left.1, right.1] at same
  exact unique i j d' e' oldFirst oldSecond (left.2 activeFirst)
    (right.2 activeSecond) same

/-- Changing one slot keeps the others waiting. -/
theorem Waiting.modify (waiting : Waiting devs keys) (keeps : Keeps change)
    (changed : ∀ d, devs[slot]? = some d → (change d).active = true → macKey d.mac ∈ keys → (change d).hostnameSrc.isLost = false) :
    Waiting (devs.modify slot change) keys := by
  intro i e here active member
  obtain ⟨d, old, ⟨rfl, _⟩ | ⟨rfl, rfl⟩⟩ := getElem?_modify_cases here
  · exact waiting i e old active member
  · rw [(keeps d).1] at member
    exact changed d old active member

theorem Waiting.mono {fewer : List Text} (waiting : Waiting devs keys)
    (subset : fewer ⊆ keys) : Waiting devs fewer :=
  fun i d here active member => waiting i d here active (subset member)

theorem getElem?_set_cases {j : Nat} {e : Device}
    (here : (devs.set i new)[j]? = some e) :
    e = new ∧ i = j ∨ devs[j]? = some e ∧ i ≠ j := by
  rw [List.getElem?_set] at here
  split at here
  · rename_i same
    split at here
    · exact Or.inl ⟨(Option.some.inj here).symm, same⟩
    · cases here
  · rename_i other
    exact Or.inr ⟨here, other⟩

theorem Unique.set (unique : Unique devs)
    (fresh : ∀ (i : Nat) (d : Device), devs[i]? = some d → d.active = true → i ≠ slot → macKey d.mac ≠ macKey new.mac) :
    Unique (devs.set slot new) := by
  intro i j d e first second activeFirst activeSecond same
  rcases getElem?_set_cases first with ⟨rfl, here⟩ | ⟨oldFirst, other⟩
  · rcases getElem?_set_cases second with ⟨rfl, there⟩ | ⟨oldSecond, other⟩
    · exact here.symm.trans there
    · exact absurd same.symm
        (fresh j e oldSecond activeSecond (Ne.symm other))
  · rcases getElem?_set_cases second with ⟨rfl, there⟩ | ⟨oldSecond, _⟩
    · exact absurd same (fresh i d oldFirst activeFirst (Ne.symm other))
    · exact unique i j d e oldFirst oldSecond activeFirst activeSecond same

theorem Waiting.set (waiting : Waiting devs keys)
    (fine : macKey new.mac ∈ keys → new.hostnameSrc.isLost = false) :
    Waiting (devs.set slot new) keys := by
  intro i d here active member
  rcases getElem?_set_cases here with ⟨rfl, _⟩ | ⟨old, _⟩
  · exact fine member
  · exact waiting i d old active member

end

theorem underWay_takeTask (s : Daemon) :
    (underWay (takeTask s)).Perm (underWay s) := by
  obtain ⟨devs, tasks, working, results, check⟩ := s
  cases working with
  | some task => exact List.Perm.refl _
  | none =>
      cases tasks with
      | nil => exact List.Perm.refl _
      | cons task rest =>
          exact List.perm_middle

theorem underWay_finishTask (s : Daemon) (found : Option Text) :
    (underWay (finishTask s found)).Subperm (underWay s) := by
  obtain ⟨devs, tasks, working, results, check⟩ := s
  cases working with
  | none => exact List.Subperm.refl _
  | some task =>
      have pushed : ∀ r : Result, r.mac = task.mac →
          (underWay (pushResult ⟨devs, tasks, none, results, check⟩ r)).Subperm
            (underWay ⟨devs, tasks, some task, results, check⟩) := by
        intro r same
        rw [pushResult]
        split
        · apply List.Sublist.subperm
          simp [underWay]
        · apply List.Perm.subperm
          simp only [underWay, List.map_append, List.map_cons, same]
          exact List.Perm.append_left _ (List.perm_append_singleton _ _)
      cases found with
      | none => exact pushed _ rfl
      | some name => exact pushed _ rfl

theorem Attended.of_underWay {s later : Daemon} (attended : Attended s)
    (devs : later.devs = s.devs)
    (fewer : (underWay later).Subperm (underWay s)) : Attended later := by
  refine ⟨?_, ?_, ?_⟩
  · rw [devs]
    exact attended.unique
  · obtain ⟨kept, perm, sublist⟩ := fewer
    exact perm.nodup_iff.mp (attended.once.sublist sublist)
  · rw [devs]
    exact attended.waiting.mono fewer.subset

section

variable {s : Daemon} (attended : Attended s)
include attended

theorem attended_takeTask :
    Attended (takeTask s) := by
  apply attended.of_underWay ?_ (underWay_takeTask s).subperm
  rw [takeTask]
  split <;> rfl

theorem attended_finishTask (found : Option Text) :
    Attended (finishTask s found) := by
  apply attended.of_underWay ?_ (underWay_finishTask s found)
  rw [finishTask]
  split
  · rfl
  · split
    · rw [pushResult]
      split <;> rfl
    · rw [pushResult]
      split <;> rfl

theorem attended_lose (mac : Text) :
    Attended (lose s mac) := by
  rw [lose]
  split
  · exact attended
  · have keeps : Keeps fun d => { d with active := false } :=
      fun d => ⟨rfl, nofun⟩
    refine ⟨attended.unique.modify keeps _, attended.once, ?_⟩
    apply attended.waiting.modify keeps
    intro d _ active
    cases active

theorem attended_offlineCheck (now : Int) :
    Attended (offlineCheck s now) := by
  rw [offlineCheck]
  split
  · have before : ∀ (i : Nat) (e : Device),
        (s.devs.map fun d =>
          if d.active && now - d.lastSeen > 90 then { d with active := false }
          else d)[i]? = some e → e.active = true → s.devs[i]? = some e := by
      intro i e here active
      rw [List.getElem?_map] at here
      obtain ⟨d, old, rfl⟩ := Option.map_eq_some_iff.mp here
      split at active
      · cases active
      · rename_i stays
        rw [if_neg stays]
        exact old
    refine ⟨?_, attended.once, ?_⟩
    · intro i j d e first second activeFirst activeSecond same
      exact attended.unique i j d e (before i d first activeFirst)
        (before j e second activeSecond) activeFirst activeSecond same
    · intro i d here active member
      exact attended.waiting i d (before i d here active) active member
  · exact attended

theorem attended_processPendingMdns (now : Int) (lookups : Lookups)
    (attends : Attends s (.processPendingMdns now lookups)) :
    Attended (processPendingMdns s now lookups) := by
  rw [processPendingMdns]
  split
  · exact attended
  · rename_i slot chosen
    have keeps : Keeps fun d =>
        let name := resolveHostnameDhcpOnly lookups d.mac
        { d with
          hostname := name.1
          hostnameSrc := name.2
          lastResolve := now
          pendingSince := 0 } := fun d => ⟨rfl, id⟩
    refine ⟨attended.unique.modify keeps _, attended.once, ?_⟩
    apply attended.waiting.modify keeps
    intro d here _ member
    exact absurd member (attends slot chosen d here)

end

theorem newDevice_isLost (left : Device) (seen : Sighting) :
    (newDevice left seen).hostnameSrc.isLost = false := by
  have source : (resolveHostnameFast seen.lookups seen.mac).2 = .manual ∨
      (resolveHostnameFast seen.lookups seen.mac).2 = .mac := by
    rw [resolveHostnameFast]
    split
    · exact Or.inl rfl
    · exact Or.inr rfl
  rcases source with manual | fallback
  · simp [newDevice, manual, Source.isLost]
  · simp [newDevice, fallback, Source.isLost]

theorem resolveHostnameDhcpOnly_isLost {lookups : Lookups}
    (named : (resolveHostnameDhcpOnly lookups mac).2 ≠ .mac) :
    (resolveHostnameDhcpOnly lookups mac).2.isLost = false := by
  rw [resolveHostnameDhcpOnly] at named ⊢
  split
  · rfl
  · split
    · rfl
    · split
      · rfl
      · split
        · rfl
        · simp_all

variable {d : Device}

theorem attended_setDevice {s : Daemon} (attended : Attended s)
    (here : s.devs[slot]? = some d) (active : d.active = true)
    (mac : macKey new.mac = macKey d.mac)
    (fine : macKey d.mac ∈ underWay s → new.hostnameSrc.isLost = false) :
    Attended (setDevice s slot new) := by
  refine ⟨?_, attended.once, ?_⟩
  · apply attended.unique.set
    intro i e there activeThere other same
    rw [mac] at same
    exact other (attended.unique i slot e d there here activeThere active same)
  · apply attended.waiting.set
    rw [mac]
    exact fine

theorem attended_newDevice {s : Daemon} (attended : Attended s)
    {seen : Sighting} (missing : findDevice s.devs seen.mac = none) :
    Attended (setDevice s (allocDevice s.devs).1
      (newDevice (allocDevice s.devs).2 seen)) := by
  refine ⟨?_, attended.once, ?_⟩
  · apply attended.unique.set
    intro i d here active _
    exact findDevice_eq_none missing i d here active
  · apply attended.waiting.set
    intro _
    exact newDevice_isLost _ seen

theorem attended_enqueue {s queued : Daemon} (attended : Attended s) {task : Task}
    (done : enqueue s task = some queued) (here : s.devs[slot]? = some d)
    (active : d.active = true) (mac : macKey new.mac = macKey d.mac)
    (about : macKey task.mac = macKey d.mac) (idle : macKey d.mac ∉ underWay s)
    (fine : new.hostnameSrc.isLost = false) :
    Attended (setDevice queued slot new) := by
  rw [enqueue] at done
  split at done
  · cases done
  · obtain rfl := Option.some.inj done
    have added : (underWay (setDevice { s with tasks := s.tasks ++ [task] }
        slot new)).Perm (macKey d.mac :: underWay s) := by
      simp only [underWay, setDevice, List.map_append, List.map_cons, about,
        List.append_assoc]
      exact List.perm_middle
    refine ⟨?_, ?_, ?_⟩
    · apply attended.unique.set
      intro i e there activeThere other same
      rw [mac] at same
      exact other (attended.unique i slot e d there here activeThere active same)
    · exact added.nodup_iff.mpr (attended.once.cons idle)
    · intro i e there activeThere member
      rcases getElem?_set_cases there with ⟨rfl, _⟩ | ⟨old, other⟩
      · exact fine
      · rcases List.mem_cons.mp (added.mem_iff.mp member) with same | before
        · exact absurd (attended.unique i slot e d old here activeThere active
            same) (Ne.symm other)
        · exact attended.waiting i e old activeThere before

theorem attended_sight {s : Daemon} (attended : Attended s) (seen : Sighting)
    (attends : Attends s (.sight seen)) : Attended (sight s seen) := by
  rw [sight]
  split
  · rename_i missing
    exact attended_newDevice attended missing
  · rename_i slot found
    obtain ⟨d, here, active, mac⟩ := findDevice_eq_some found
    rw [here]
    have named : shouldReResolve d.hostnameSrc d.lastResolve seen.now = true →
        macKey d.mac ∈ underWay s →
        (renamed d seen).hostnameSrc.isLost = false := by
      intro due member
      exact resolveHostnameDhcpOnly_isLost
        (attends slot found d here due member)
    simp only
    split
    · rename_i due
      split
      · rename_i bare
        have idle : macKey d.mac ∉ underWay s := by
          intro member
          have fine := named due member
          rw [bare.1] at fine
          cases fine
        split
        · rename_i queued done
          exact attended_enqueue attended done here active rfl mac.symm idle rfl
        · exact attended_setDevice attended here active rfl (named due)
      · exact attended_setDevice attended here active rfl (named due)
    · exact attended_setDevice attended here active rfl
        (attended.waiting slot d here active)

/-! ### The answers -/

theorem applyResult_slot {devs : List Device} {r : Result} {i : Nat}
    {d : Device} (here : devs[i]? = some d) :
    ∃ e, (applyResult devs r)[i]? = some e ∧ e.mac = d.mac ∧
      e.active = d.active ∧
      (macKey r.mac ≠ macKey d.mac → e = d) := by
  rw [applyResult]
  split
  · exact ⟨d, here, rfl, rfl, fun _ => rfl⟩
  · rename_i slot found
    obtain ⟨target, there, _, mac⟩ := findDevice_eq_some found
    by_cases same : slot = i
    · subst same
      obtain rfl := Option.some.inj (here.symm.trans there)
      refine ⟨answered r d, ?_, ?_, ?_, ?_⟩
      · simp [here]
      · rw [answered]
        split
        · rfl
        · split <;> rfl
      · rw [answered]
        split
        · rfl
        · split <;> rfl
      · intro other
        exact absurd mac.symm other
    · refine ⟨d, ?_, rfl, rfl, fun _ => rfl⟩
      simp [here, same]

theorem keeps_answered (r : Result) : Keeps (answered r) := by
  intro d
  rw [answered]
  split
  · exact ⟨rfl, id⟩
  · split <;> exact ⟨rfl, id⟩

theorem Unique.applyResult {devs : List Device} (unique : Unique devs)
    (r : Result) : Unique (applyResult devs r) := by
  rw [Hotspotd.applyResult]
  split
  · exact unique
  · exact unique.modify (keeps_answered r) _

theorem Waiting.applyResult {devs : List Device} {r : Result}
    (waiting : Waiting devs (macKey r.mac :: keys)) (fresh : macKey r.mac ∉ keys) :
    Waiting (applyResult devs r) keys := by
  have fewer : Waiting devs keys :=
    waiting.mono (List.subset_cons_self _ _)
  rw [Hotspotd.applyResult]
  split
  · exact fewer
  · rename_i slot found
    apply fewer.modify (keeps_answered r)
    intro d here _ member
    obtain ⟨target, there, _, mac⟩ := findDevice_eq_some found
    obtain rfl := Option.some.inj (here.symm.trans there)
    rw [mac] at member
    exact absurd member fresh

theorem foldl_applyResult {devs : List Device} {rs : List Result}
    (unique : Unique devs) (once : (rs.map (fun r => macKey r.mac) ++ keys).Nodup)
    (waiting : Waiting devs (rs.map (fun r => macKey r.mac) ++ keys)) :
    Unique (rs.foldl applyResult devs) ∧
      Waiting (rs.foldl applyResult devs) keys := by
  induction rs generalizing devs with
  | nil => exact ⟨unique, waiting⟩
  | cons r rs induction =>
      obtain ⟨fresh, once⟩ := List.nodup_cons.mp once
      exact induction (unique.applyResult r) once (waiting.applyResult fresh)

theorem underWay_drained (s : Daemon) :
    (underWay s).Perm
      ((s.results.take queueSize).map (fun r => macKey r.mac) ++
        underWay (drainResults s)) := by
  have split : s.results.map (fun r => macKey r.mac) =
      (s.results.take queueSize).map (fun r => macKey r.mac) ++
        (s.results.drop queueSize).map fun r => macKey r.mac := by
    rw [← List.map_append, List.take_append_drop]
  simp only [underWay, drainResults]
  grind

theorem attended_drainResults {s : Daemon} (attended : Attended s) :
    Attended (drainResults s) := by
  have split := underWay_drained s
  have once := split.nodup_iff.mp attended.once
  have waiting := attended.waiting.mono split.symm.subset
  obtain ⟨unique, kept⟩ := foldl_applyResult attended.unique once waiting
  exact ⟨unique, once.of_append_right, kept⟩

theorem attended_act {s : Daemon} (attended : Attended s) (event : Event)
    (attends : Attends s event) : Attended (act s event) := by
  cases event with
  | takeTask => exact attended_takeTask attended
  | finishTask found => exact attended_finishTask attended found
  | sight seen => exact attended_sight attended seen attends
  | lose mac => exact attended_lose attended mac
  | processPendingMdns now lookups =>
      exact attended_processPendingMdns attended now lookups attends
  | drainResults => exact attended_drainResults attended
  | offlineCheck now => exact attended_offlineCheck attended now

/-- The table when the result at `k` has its turn. -/
def turn (s : Daemon) (k : Nat) : List Device :=
  ((s.results.take queueSize).take k).foldl applyResult s.devs

theorem foldl_applyResult_other {devs : List Device} {rs : List Result}
    (here : devs[i]? = some d)
    (others : macKey d.mac ∉ rs.map fun r => macKey r.mac) :
    (rs.foldl applyResult devs)[i]? = some d := by
  induction rs generalizing devs with
  | nil => exact here
  | cons r rs induction =>
      simp only [List.map_cons, List.mem_cons, not_or] at others
      obtain ⟨e, later, _, _, same⟩ := @applyResult_slot devs r i d here
      rw [same (Ne.symm others.1)] at later
      exact induction later others.2

/-- An answer for a device with no better name is written when it has its turn,
and no other answer is for that device. -/
theorem drained_answer {s : Daemon} (attended : Attended s) {k : Nat} {r : Result}
    (drained : (s.results.take queueSize)[k]? = some r)
    (success : r.success = true) (found : findDevice (turn s k) r.mac = some i)
    (here : (turn s k)[i]? = some d) (noName : d.hostnameSrc.isOpen = true) :
    ∃ e, (drainResults s).devs[i]? = some e ∧ macKey e.mac = macKey r.mac ∧
      e.hostnameSrc = .mdns ∧ e.hostname = r.hostname := by
  obtain ⟨target, there, active, mac⟩ := findDevice_eq_some found
  obtain rfl := Option.some.inj (here.symm.trans there)
  obtain ⟨bound, value⟩ := List.getElem?_eq_some_iff.mp drained
  have split : s.results.take queueSize =
      (s.results.take queueSize).take k ++
        r :: (s.results.take queueSize).drop (k + 1) := by
    rw [← value, ← List.drop_eq_getElem_cons bound, List.take_append_drop]
  have perm := underWay_drained s
  rw [split, List.map_append, List.map_cons, List.append_assoc] at perm
  have once := perm.nodup_iff.mp attended.once
  have waiting := attended.waiting.mono perm.symm.subset
  obtain ⟨_, waitingNow⟩ := foldl_applyResult attended.unique once waiting
  have pending : d.hostnameSrc = .pending := by
    apply Source.eq_pending noName
    exact waitingNow i d here active (by simp [mac])
  have others : macKey d.mac ∉
      ((s.results.take queueSize).drop (k + 1)).map fun r => macKey r.mac := by
    have tail := once.of_append_right
    rw [mac]
    intro member
    exact (List.nodup_cons.mp tail).1 (List.mem_append_left _ member)
  have written : (applyResult (turn s k) r)[i]? = some (answered r d) := by
    rw [applyResult, found]
    simp [here]
  have kept : macKey (answered r d).mac ∉
      ((s.results.take queueSize).drop (k + 1)).map fun r => macKey r.mac := by
    rw [(keeps_answered r d).1]
    exact others
  refine ⟨answered r d, ?_, ?_, ?_, ?_⟩
  · have last := foldl_applyResult_other written kept
    rw [drainResults]
    rw [split, List.foldl_append]
    exact last
  · rw [(keeps_answered r d).1]
    exact mac
  · simp [answered, pending, success]
  · simp [answered, pending, success]

/-- A slot keeps its device and the device its name. -/
theorem spares_act {s : Daemon} (event : Event) (here : s.devs[i]? = some d)
    (spares : Spares i s event) :
    ∃ e, (act s event).devs[i]? = some e ∧ e.mac = d.mac ∧
      e.hostnameSrc = d.hostnameSrc ∧ e.hostname = d.hostname := by
  cases event with
  | takeTask =>
      refine ⟨d, ?_, rfl, rfl, rfl⟩
      rw [act, takeTask]
      split <;> exact here
  | finishTask found =>
      refine ⟨d, ?_, rfl, rfl, rfl⟩
      rw [act, finishTask]
      split
      · exact here
      · split <;> rw [pushResult] <;> split <;> exact here
  | processPendingMdns now lookups => exact absurd spares id
  | drainResults => exact absurd spares id
  | offlineCheck now =>
      rw [act, offlineCheck]
      split
      · refine ⟨if d.active && now - d.lastSeen > 90 then
            { d with active := false } else d, ?_, ?_⟩
        · simp [here]
        · split <;> exact ⟨rfl, rfl, rfl⟩
      · exact ⟨d, here, rfl, rfl, rfl⟩
  | lose mac =>
      rw [act, lose]
      split
      · exact ⟨d, here, rfl, rfl, rfl⟩
      · rename_i slot _
        by_cases same : slot = i
        · exact ⟨{ d with active := false }, by simp [here, same], rfl, rfl, rfl⟩
        · exact ⟨d, by simp [here, same], rfl, rfl, rfl⟩
  | sight seen =>
      rw [Spares] at spares
      rw [act, sight]
      cases found : findDevice s.devs seen.mac with
      | none =>
          rw [found] at spares
          refine ⟨d, ?_, rfl, rfl, rfl⟩
          simp only [setDevice]
          rw [List.getElem?_set_ne spares]
          exact here
      | some slot =>
          rw [found] at spares
          obtain ⟨target, there, _, _⟩ := findDevice_eq_some found
          simp only [there]
          by_cases same : slot = i
          · subst same
            obtain rfl := Option.some.inj (here.symm.trans there)
            have fresh := spares rfl d here
            rw [fresh]
            refine ⟨seenAgain d seen, ?_, rfl, rfl, rfl⟩
            have bound := (List.getElem?_eq_some_iff.mp here).1
            simp [setDevice, bound]
          · have set : ∀ (t : Daemon) (new : Device), t.devs = s.devs →
                (setDevice t slot new).devs[i]? = some d := by
              intro t new devs
              rw [setDevice, List.getElem?_set_ne same, devs]
              exact here
            refine ⟨d, ?_, rfl, rfl, rfl⟩
            split
            · split
              · split
                · rename_i queued done
                  apply set
                  rw [enqueue] at done
                  split at done
                  · cases done
                  · rw [← Option.some.inj done]
                · exact set s _ rfl
              · exact set s _ rfl
            · exact set s _ rfl

theorem spares_run {s : Daemon} {events : List Event} (here : s.devs[i]? = some d)
    (spares : Guarded act (Spares i) s events) :
    ∃ e, (events.foldl act s).devs[i]? = some e ∧ e.mac = d.mac ∧
      e.hostnameSrc = d.hostnameSrc ∧ e.hostname = d.hostname := by
  apply spares.final_induction
    (fun t => ∃ e, t.devs[i]? = some e ∧ e.mac = d.mac ∧
      e.hostnameSrc = d.hostnameSrc ∧ e.hostname = d.hostname) ?_
    ⟨d, here, rfl, rfl, rfl⟩
  intro t event kept spares
  obtain ⟨e, there, mac, src, name⟩ := kept
  obtain ⟨f, later, mac', src', name'⟩ := spares_act event there spares
  exact ⟨f, later, mac'.trans mac, src'.trans src, name'.trans name⟩

/-- The daemon before it has seen a device. -/
structure Fresh (s : Daemon) : Prop where
  size : s.devs.length = maxDevices
  inactive : ∀ d ∈ s.devs, d.active = false
  idle : s.tasks = [] ∧ s.working = none ∧ s.results = []

theorem Fresh.attended {s : Daemon} (fresh : Fresh s) : Attended s := by
  have none : ∀ (i : Nat) (d : Device), s.devs[i]? = some d →
      d.active ≠ true := by
    intro i d here active
    rw [fresh.inactive d (List.mem_of_getElem? here)] at active
    cases active
  refine ⟨?_, ?_, ?_⟩
  · intro i _ d _ here _ active
    exact absurd active (none i d here)
  · obtain ⟨tasks, working, results⟩ := fresh.idle
    simp [underWay, tasks, working, results]
  · intro i d here active
    exact absurd active (none i d here)

/-- The state in which the last of some iterations drains the results. -/
def atDrain (start : Daemon) (its : List Iteration) (last : Iteration) :
    Daemon :=
  (its.flatMap Iteration.events ++ last.front).foldl act start

/-- Every successful answer that the last iteration drains for a device with
no better name is the name of the device when the iteration ends. -/
def AnswersKept (start : Daemon) (its : List Iteration) (last : Iteration) :
    Prop :=
  ∀ (k i : Nat) (r : Result) (d : Device),
    ((atDrain start its last).results.take queueSize)[k]? = some r →
    r.success = true →
    findDevice (turn (atDrain start its last) k) r.mac = some i →
    (turn (atDrain start its last) k)[i]? = some d →
    d.hostnameSrc.isOpen = true →
    ∃ e, ((its.flatMap Iteration.events ++ last.events).foldl act
        start).devs[i]? = some e ∧
      macKey e.mac = macKey r.mac ∧ e.hostnameSrc = .mdns ∧
      e.hostname = r.hostname

/-- In a run that gives up no lookup under way, every answer is kept whose
device the rest of the iteration leaves alone. -/
theorem answers_are_kept (start : Daemon) (fresh : Fresh start)
    (its : List Iteration) (last : Iteration)
    (attends : Guarded act Attends start
      (its.flatMap Iteration.events ++ last.front))
    (spares : ∀ r ∈ (atDrain start its last).results,
      ∀ k, ∀ i ∈ findDevice (turn (atDrain start its last) k) r.mac,
        Guarded act (Spares i) (drainResults (atDrain start its last))
          last.back) :
    AnswersKept start its last := by
  intro k i r d drained success found here noName
  have attended : Attended (atDrain start its last) :=
    attends.final_induction Attended
      (fun s event attended attends => attended_act attended event attends)
      fresh.attended
  obtain ⟨e, there, mac, src, name⟩ :=
    drained_answer attended drained success found here noName
  have member : r ∈ (atDrain start its last).results :=
    List.mem_of_mem_take (List.mem_of_getElem? drained)
  obtain ⟨f, later, mac', src', name'⟩ :=
    spares_run there (spares r member k i found)
  refine ⟨f, ?_, ?_, src'.trans src, name'.trans name⟩
  · rw [Iteration.events, ← List.append_assoc, List.foldl_append,
      List.foldl_cons]
    exact later
  · rw [mac']
    exact mac

instance attendsDecidable (s : Daemon) : ∀ event, Decidable (Attends s event)
  | .sight seen =>
      inferInstanceAs (Decidable (∀ i ∈ findDevice s.devs seen.mac,
        ∀ d ∈ s.devs[i]?,
          shouldReResolve d.hostnameSrc d.lastResolve seen.now = true →
          macKey d.mac ∈ underWay s →
          (resolveHostnameDhcpOnly seen.lookups seen.mac).2 ≠ .mac))
  | .processPendingMdns now _ =>
      inferInstanceAs (Decidable (∀ i ∈ oldestPending s.devs now,
        ∀ d ∈ s.devs[i]?, macKey d.mac ∉ underWay s))
  | .takeTask | .finishTask _ | .lose _ | .drainResults | .offlineCheck _ =>
      inferInstanceAs (Decidable True)

def emptyDaemon : Daemon :=
  ⟨List.replicate maxDevices blankDevice, [], none, [], 0⟩

theorem fresh_emptyDaemon : Fresh emptyDaemon where
  size := List.length_replicate
  inactive := by
    intro d member
    rw [List.eq_of_mem_replicate member]
    rfl
  idle := ⟨rfl, rfl, rfl⟩

def noNames : Lookups :=
  ⟨none, none, none, none⟩

def phoneSeen (now : Int) : Sighting :=
  ⟨"3a:bb:cc:dd:ee:01".toList, "192.168.43.5".toList, now, noNames⟩

/-- The phone is new; a second later its turn among the pending comes. -/
def arrival : List Iteration :=
  [⟨[.entry (phoneSeen 0)], 0, noNames, [], 0, []⟩,
    ⟨[], 1, noNames, [], 1, []⟩]

/-- The phone is seen again, and the worker is done within the second. -/
def quickAnswer : Iteration :=
  ⟨[.entry (phoneSeen 10)], 10, noNames,
    [.takeTask, .finishTask (some "Pixel-9".toList)], 10,
    [.entry (phoneSeen 11)]⟩

theorem quickAnswer_is_kept : AnswersKept emptyDaemon arrival quickAnswer := by
  apply answers_are_kept emptyDaemon fresh_emptyDaemon arrival quickAnswer
  · decide +kernel
  · intro r _ k i _
    have back : ∀ s : Daemon,
        findDevice (act s (.offlineCheck 10)).devs (phoneSeen 11).mac =
          some 0 →
        (∀ d ∈ (act s (.offlineCheck 10)).devs[0]?, shouldReResolve
          d.hostnameSrc d.lastResolve (phoneSeen 11).now = false) →
        Guarded act (Spares i) s quickAnswer.back :=
      fun s found settled =>
        ⟨trivial, (spares_found found).mpr fun _ => settled, trivial⟩
    apply back
    · decide +kernel
    · decide +kernel

/-- The phone is seen again. -/
def lookupStarts : Iteration :=
  ⟨[.entry (phoneSeen 10)], 10, noNames, [.takeTask], 10, []⟩

/-- The answer comes a second later. -/
def slowAnswer : Iteration :=
  ⟨[.worker (.finishTask (some "Pixel-9".toList))], 11, noNames, [], 11, []⟩

/-- The turn of the phone among the pending devices comes before its answer is
drained, and takes the label off. -/
theorem slow_answer_is_dropped :
    ¬ ∀ start : Daemon, Fresh start →
      ∀ (its : List Iteration) (last : Iteration),
        AnswersKept start its last := by
  intro always
  let s := atDrain emptyDaemon (arrival ++ [lookupStarts]) slowAnswer
  have facts : (s.results.take queueSize)[0]? =
        some ⟨(phoneSeen 0).mac, "Pixel-9".toList, true⟩ ∧
      findDevice (turn s 0) (phoneSeen 0).mac = some 0 ∧
      ((turn s 0)[0]?).any (fun d => d.hostnameSrc.isOpen) = true ∧
      ((((arrival ++ [lookupStarts]).flatMap Iteration.events ++
        slowAnswer.events).foldl act emptyDaemon).devs[0]?).all
          (fun e => e.hostnameSrc = .mac) = true := by
    decide +kernel
  obtain ⟨drained, found, noName, ends⟩ := facts
  obtain ⟨d, here, isOpen⟩ := (Option.any_eq_true _ _).mp noName
  obtain ⟨e, there, _, mdns, _⟩ := always emptyDaemon fresh_emptyDaemon
    (arrival ++ [lookupStarts]) slowAnswer 0 0 _ d drained rfl found here isOpen
  have mac := (Option.all_eq_true _ _).mp ends e there
  rw [mdns] at mac
  exact absurd mac (by decide)

end Hnc.Hotspotd
