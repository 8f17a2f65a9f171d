import Hnc.Dpid.Flush
import Hnc.Lib.Runs

/-!
# Whose traffic a profile shows

A profile is found under the address of the packet, but the MAC it is labelled
with is that of the first call.  Beside the writer runs a log of the calls that
each profile counted; the profiles are of one client exactly as long as no call
finds a profile that another MAC made.
-/

namespace Dpid

open KeyMap OldestFirst SortSlice

variable {n : Nat}

theorem mem_of_cut {α : Type} {out : List α} {a : α} (member : a ∈ cut out n) :
    a ∈ out := by
  rw [cut] at member
  split at member
  · exact List.mem_of_mem_take member
  · exact member

variable {visit : Visit Bytes}

theorem mem_of_visited {Value : Type} {m : Map Bytes Value} {e : Bytes × Value}
    (member : e ∈ visited visit m) : e.1 ∈ m := by
  rw [← AList.lookup_isSome,
    mem_pairs.mp ((visited_perm visit m).mem_iff.mp member)]
  rfl

theorem mem_of_topNames {sort : Sorting} {m : Map Bytes NameStat}
    {stat : NameCount} (listed : stat ∈ topNames sort visit m n) :
    stat.name ∈ m := by
  have sorted := mem_of_cut listed
  obtain ⟨e, member, rfl⟩ :=
    List.mem_map.mp ((sort.perm nameLess _).mem_iff.mp sorted)
  exact mem_of_visited member

theorem mem_of_recentRemoteIPs {sort : Sorting} {m : Map Bytes Int} {ip : Bytes}
    (listed : ip ∈ recentRemoteIPs sort visit m n) : ip ∈ m := by
  obtain ⟨e, kept, rfl⟩ := List.mem_map.mp listed
  exact mem_of_visited ((sort.perm _ _).mem_iff.mp (mem_of_cut kept))

def ClientAgg.lastName (c : ClientAgg) : Kind → Bytes
  | .dns => c.lastHostname
  | .tls => c.lastSNI

def ClientAgg.events (c : ClientAgg) : Kind → UInt64
  | .dns => c.dnsEvents
  | .tls => c.tlsEvents

def ClientProfile.names (cp : ClientProfile) : Kind → List NameCount
  | .dns => cp.topHostnames
  | .tls => cp.topSNI

def ClientProfile.lastName (cp : ClientProfile) : Kind → Bytes
  | .dns => cp.lastHostname
  | .tls => cp.lastSNI

def ClientProfile.events (cp : ClientProfile) : Kind → UInt64
  | .dns => cp.dnsEvents
  | .tls => cp.tlsEvents

/-- The writer with the calls that each profile has counted since it was
made. -/
structure Traced where
  writer : Writer := {}
  log : Bytes → List Call := fun _ => []

section

variable (toLower trimSpace : Bytes → Bytes)

/-- The log of a profile as it is found by a call: empty for a new one. -/
def Traced.found (t : Traced) (call : Call) : List Call :=
  if call.key trimSpace ∈ t.writer.clients then t.log (call.key trimSpace)
  else []

def Traced.record (t : Traced) (call : Call) : Traced where
  writer := t.writer.record toLower trimSpace call
  log :=
    if call.Accepted then
      Function.update t.log (call.key trimSpace) (t.found trimSpace call ++ [call])
    else t.log

/-- All that a profile shows comes from the log, and the log is of its MAC. -/
structure ClientProfile.Owned (log : List Call) (cp : ClientProfile) :
    Prop where
  names : ∀ kind, ∀ stat ∈ cp.names kind, ∃ call ∈ log, call.kind = kind ∧
    call.host toLower trimSpace = stat.name ∧ call.clientMAC = cp.clientMAC
  lastName : ∀ kind, cp.lastName kind ≠ [] → ∃ call ∈ log, call.kind = kind ∧
    call.host toLower trimSpace = cp.lastName kind ∧
      call.clientMAC = cp.clientMAC
  remoteIPs : ∀ ip ∈ cp.remoteIPs, ∃ call ∈ log,
    call.remoteIP = ip ∧ call.clientMAC = cp.clientMAC
  events : ∀ kind,
    cp.events kind = UInt64.ofNat (log.countP fun call => call.kind = kind)
  counted : ∀ call ∈ log, call.clientMAC = cp.clientMAC

/-- Every profile that a flush writes shows the traffic of its MAC. -/
def Traced.Attributed (t : Traced) : Prop :=
  ∀ sort visits key cp,
    (t.writer.flush sort visits).clients.lookup key = some cp →
      cp.Owned toLower trimSpace (t.log key)

/-- The profile that the call finds has its MAC. -/
def Writer.SameClient (w : Writer) (call : Call) : Prop :=
  ∀ c, w.clients.lookup (call.key trimSpace) = some c →
    c.clientMAC = call.clientMAC

/-- What a profile holds comes from the log. -/
structure ClientAgg.Covered (log : List Call) (c : ClientAgg) : Prop where
  names : ∀ kind, ∀ name ∈ c.names kind, ∃ call ∈ log,
    call.kind = kind ∧ call.host toLower trimSpace = name
  lastName : ∀ kind, c.lastName kind ≠ [] → ∃ call ∈ log,
    call.kind = kind ∧ call.host toLower trimSpace = c.lastName kind
  remoteIPs : ∀ ip ∈ c.remoteIPs, ∃ call ∈ log, call.remoteIP = ip
  events : ∀ kind,
    c.events kind = UInt64.ofNat (log.countP fun call => call.kind = kind)

variable {toLower trimSpace}

theorem covered_new (call : Call) :
    ClientAgg.Covered toLower trimSpace []
      { clientIP := call.clientIP
        clientMAC := call.clientMAC
        firstSeen := call.now
        lastSeen := call.now } where
  names := by
    intro kind name member
    cases kind <;> exact absurd member (AList.notMem_empty name)
  lastName := by
    intro kind named
    cases kind <;> exact absurd rfl named
  remoteIPs := by
    intro ip member
    exact absurd member (AList.notMem_empty ip)
  events := by
    intro kind
    cases kind <;> rfl

theorem lastName_label (c : ClientAgg) (mac ip : Bytes) (kind : Kind) :
    (c.label mac ip).lastName kind = c.lastName kind := by
  unfold ClientAgg.label
  cases kind with
  | dns => split <;> dsimp only <;> split <;> rfl
  | tls => split <;> dsimp only <;> split <;> rfl

theorem events_label (c : ClientAgg) (mac ip : Bytes) (kind : Kind) :
    (c.label mac ip).events kind = c.events kind := by
  unfold ClientAgg.label
  cases kind with
  | dns => split <;> dsimp only <;> split <;> rfl
  | tls => split <;> dsimp only <;> split <;> rfl

variable {c : ClientAgg}

theorem clientMAC_label (labelled : c.clientMAC ≠ []) (mac ip : Bytes) :
    (c.label mac ip).clientMAC = c.clientMAC := by
  unfold ClientAgg.label
  split
  · rw [if_neg (not_and_of_not_left _ labelled)]
  · rw [if_neg (not_and_of_not_left _ labelled)]

theorem ClientAgg.Covered.label {log : List Call} {c : ClientAgg}
    (covered : c.Covered toLower trimSpace log) (mac ip : Bytes) :
    (c.label mac ip).Covered toLower trimSpace log where
  names := by
    intro kind
    rw [names_label]
    exact covered.names kind
  lastName := by
    intro kind
    rw [lastName_label]
    exact covered.lastName kind
  remoteIPs := by
    rw [remoteIPs_label]
    exact covered.remoteIPs
  events := by
    intro kind
    rw [events_label]
    exact covered.events kind

theorem clientMAC_counted (c : ClientAgg) (call : Call) (host : Bytes) :
    (c.counted call host).clientMAC = c.clientMAC := by
  rw [counted_eq, ClientAgg.touched]
  split
  · cases call.kind <;> rfl
  · cases call.kind <;> rfl

theorem lastName_counted (c : ClientAgg) (call : Call) (host : Bytes)
    (kind : Kind) :
    (c.counted call host).lastName kind =
      if host ≠ [] ∧ call.kind = kind then host else c.lastName kind := by
  rw [counted_eq, ClientAgg.touched, ite_and]
  split
  · cases call.kind with
    | dns => cases kind <;> rfl
    | tls => cases kind <;> rfl
  · cases call.kind with
    | dns => cases kind <;> rfl
    | tls => cases kind <;> rfl

theorem events_counted (c : ClientAgg) (call : Call) (host : Bytes)
    (kind : Kind) :
    (c.counted call host).events kind =
      if call.kind = kind then c.events kind + 1 else c.events kind := by
  rw [counted_eq, ClientAgg.touched]
  split
  · cases call.kind with
    | dns => cases kind <;> rfl
    | tls => cases kind <;> rfl
  · cases call.kind with
    | dns => cases kind <;> rfl
    | tls => cases kind <;> rfl

/-- A call is the last of the log of the profile that counts it. -/
theorem ClientAgg.Covered.counted {log : List Call}
    (covered : c.Covered toLower trimSpace log)
    (fits : ∀ kind, Fits [] maxNamesPerClient (c.names kind)) (call : Call) :
    (c.counted call (call.host toLower trimSpace)).Covered toLower trimSpace
      (log ++ [call]) where
  names := by
    intro kind name member
    have earlier (known : name ∈ c.names kind) : ∃ call' ∈ log ++ [call],
        call'.kind = kind ∧ call'.host toLower trimSpace = name := by
      obtain ⟨call', logged, here⟩ := covered.names kind name known
      exact ⟨call', List.mem_append_left _ logged, here⟩
    rw [names_counted] at member
    split at member
    · rename_i same
      by_cases here : call.host toLower trimSpace = name
      · exact ⟨call, List.mem_append_right _ (List.mem_singleton_self call),
          same, here⟩
      · apply earlier
        rw [← AList.lookup_isSome] at member ⊢
        rcases lookup_bumpName_other (fits kind) (by decide) call.visitNames here
          call.now with kept | gone
        · rw [kept] at member
          exact member
        · rw [gone] at member
          cases member
    · exact earlier member
  lastName := by
    intro kind named
    rw [lastName_counted] at named ⊢
    split
    · rename_i here
      exact ⟨call, List.mem_append_right _ (List.mem_singleton_self call),
        here.2, rfl⟩
    · rename_i other
      rw [if_neg other] at named
      obtain ⟨call', logged, here⟩ := covered.lastName kind named
      exact ⟨call', List.mem_append_left _ logged, here⟩
  remoteIPs := by
    intro ip member
    have earlier (known : ip ∈ c.remoteIPs) :
        ∃ call' ∈ log ++ [call], call'.remoteIP = ip := by
      obtain ⟨call', logged, here⟩ := covered.remoteIPs ip known
      exact ⟨call', List.mem_append_left _ logged, here⟩
    rw [remoteIPs_counted] at member
    split at member
    · rcases (AList.mem_insert _).mp member with here | known
      · exact ⟨call, List.mem_append_right _ (List.mem_singleton_self call),
          here.symm⟩
      · exact earlier known
    · exact earlier member
  events := by
    intro kind
    rw [events_counted, covered.events kind, List.countP_append,
      List.countP_singleton]
    by_cases same : call.kind = kind
    · rw [if_pos same, if_pos (decide_eq_true same), UInt64.ofNat_add]
      rfl
    · rw [if_neg same, if_neg (by simpa using same), Nat.add_zero]

/-- What every reached state keeps: all that is in the profiles is in the log,
and they have a label. -/
structure Traced.Coherent (toLower trimSpace : Bytes → Bytes) (t : Traced) :
    Prop where
  bounded : t.writer.Bounded
  covered : ∀ key c, t.writer.clients.lookup key = some c →
    c.Covered toLower trimSpace (t.log key)
  labelled : ∀ key c, t.writer.clients.lookup key = some c → c.clientMAC ≠ []

theorem coherent_empty : Traced.Coherent toLower trimSpace {} where
  bounded := bounded_empty
  covered := by
    intro key c found
    cases found
  labelled := by
    intro key c found
    cases found

variable {t : Traced} {call : Call}

/-- The log of the profile that a call goes to. -/
theorem found_of_lookup
    (found : t.writer.clients.lookup (call.key trimSpace) = some c) :
    t.found trimSpace call = t.log (call.key trimSpace) := by
  rw [Traced.found, if_pos]
  apply AList.lookup_isSome.mp
  rw [found]
  rfl

theorem found_of_lookup_none
    (missing : t.writer.clients.lookup (call.key trimSpace) = none) :
    t.found trimSpace call = [] := by
  rw [Traced.found, if_neg (AList.lookup_eq_none.mp missing)]

theorem Traced.Coherent.covered_profile (coherent : t.Coherent toLower trimSpace)
    (call : Call) :
    (t.writer.profile trimSpace call).Covered toLower trimSpace
      (t.found trimSpace call) := by
  apply ClientAgg.Covered.label
  cases found : t.writer.clients.lookup (call.key trimSpace) with
  | none =>
      rw [found_of_lookup_none found]
      exact covered_new call
  | some c =>
      rw [found_of_lookup found]
      exact coherent.covered _ c found

theorem Traced.Coherent.clientMAC_profile
    (coherent : t.Coherent toLower trimSpace) (known : call.clientMAC ≠ []) :
    (t.writer.profile trimSpace call).clientMAC =
      (t.writer.clients.lookup (call.key trimSpace)).elim call.clientMAC
        (·.clientMAC) := by
  rw [Writer.profile]
  cases found : t.writer.clients.lookup (call.key trimSpace) with
  | none => exact clientMAC_label known _ _
  | some c => exact clientMAC_label (coherent.labelled _ c found) _ _

theorem log_record_self (t : Traced) (accepted : call.Accepted) :
    (t.record toLower trimSpace call).log (call.key trimSpace) =
      t.found trimSpace call ++ [call] := by
  rw [Traced.record, if_pos accepted]
  exact Function.update_self _ _ _

theorem log_record_other (t : Traced) (accepted : call.Accepted) {key : Bytes}
    (other : key ≠ call.key trimSpace) :
    (t.record toLower trimSpace call).log key = t.log key := by
  rw [Traced.record, if_pos accepted]
  exact Function.update_of_ne other _ _

/-- A profile that the call does not go to is kept or dropped. -/
theorem Traced.Coherent.lookup_other (coherent : t.Coherent toLower trimSpace)
    (accepted : call.Accepted) {key : Bytes} (other : key ≠ call.key trimSpace)
    (found : (t.record toLower trimSpace call).writer.clients.lookup key = some c) :
    t.writer.clients.lookup key = some c := by
  rcases coherent.bounded.clients_record_other accepted other with same | gone
  · exact same.symm.trans found
  · exact absurd (found.symm.trans gone.1) (Option.some_ne_none c)

theorem accepted_of_mac (known : call.clientMAC ≠ []) : call.Accepted :=
  fun empty => known empty.2

theorem Traced.Coherent.record (coherent : t.Coherent toLower trimSpace)
    (known : call.clientMAC ≠ []) :
    (t.record toLower trimSpace call).Coherent toLower trimSpace := by
  have accepted := accepted_of_mac known
  have here := @clients_record_self toLower trimSpace t.writer call accepted
  refine ⟨coherent.bounded.record call, ?_, ?_⟩
  · intro key c found
    by_cases same : key = call.key trimSpace
    · subst same
      cases here.symm.trans found
      rw [log_record_self t accepted]
      exact (coherent.covered_profile call).counted
        (coherent.bounded.profile call) call
    · rw [log_record_other t accepted same]
      exact coherent.covered key c (coherent.lookup_other accepted same found)
  · intro key c found
    by_cases same : key = call.key trimSpace
    · subst same
      cases here.symm.trans found
      rw [clientMAC_counted, coherent.clientMAC_profile known]
      cases before : t.writer.clients.lookup (call.key trimSpace) with
      | none => exact known
      | some c => exact coherent.labelled _ c before
    · exact coherent.labelled key c (coherent.lookup_other accepted same found)

theorem ClientAgg.Covered.owned {log : List Call}
    (covered : c.Covered toLower trimSpace log)
    (counted : ∀ call ∈ log, call.clientMAC = c.clientMAC) (sort : Sorting)
    (visits : FlushVisits) (key : Bytes) :
    (clientProfile sort visits key c).Owned toLower trimSpace log where
  names := by
    intro kind stat listed
    have held : stat.name ∈ c.names kind := by
      cases kind with
      | dns => exact mem_of_topNames listed
      | tls => exact mem_of_topNames listed
    obtain ⟨call, logged, same, host⟩ := covered.names kind stat.name held
    exact ⟨call, logged, same, host, counted call logged⟩
  lastName := by
    intro kind named
    have last : (clientProfile sort visits key c).lastName kind =
        c.lastName kind := by
      cases kind <;> rfl
    obtain ⟨call, logged, same, host⟩ := covered.lastName kind named
    exact ⟨call, logged, same, host, counted call logged⟩
  remoteIPs := by
    intro ip listed
    obtain ⟨call, logged, same⟩ :=
      covered.remoteIPs ip (mem_of_recentRemoteIPs listed)
    exact ⟨call, logged, same, counted call logged⟩
  events := by
    intro kind
    rw [← covered.events kind]
    cases kind <;> rfl
  counted := counted

/-- Every profile is of the client that its log is of. -/
def Traced.OneClient (t : Traced) : Prop :=
  ∀ key c, t.writer.clients.lookup key = some c →
    ∀ call ∈ t.log key, call.clientMAC = c.clientMAC

theorem Traced.Coherent.attributed_iff (coherent : t.Coherent toLower trimSpace) :
    t.Attributed toLower trimSpace ↔ t.OneClient := by
  constructor
  · intro attributed key c found
    have visit : Visit Bytes := ⟨id, fun _ => .refl _⟩
    have owned := attributed stable (allVisits visit) key
      (clientProfile stable (allVisits visit) key c)
    rw [lookup_flush, found] at owned
    exact (owned rfl).counted
  · intro oneClient sort visits key cp written
    rw [lookup_flush] at written
    obtain ⟨c, found, rfl⟩ := Option.map_eq_some_iff.mp written
    exact (coherent.covered key c found).owned (oneClient key c found) sort
      visits key

/-- One call keeps the profiles of one client each exactly when it finds one of
its own MAC or none. -/
theorem Traced.Coherent.oneClient_record (coherent : t.Coherent toLower trimSpace)
    (oneClient : t.OneClient) (known : call.clientMAC ≠ []) :
    (t.record toLower trimSpace call).OneClient ↔
      t.writer.SameClient trimSpace call := by
  have accepted := accepted_of_mac known
  have here := @clients_record_self toLower trimSpace t.writer call accepted
  have label := coherent.clientMAC_profile known
  constructor
  · intro after c found
    have last := after _ _ here call (by
      rw [log_record_self t accepted]
      exact List.mem_append_right _ (List.mem_singleton_self call))
    rw [clientMAC_counted, label, found] at last
    exact last.symm
  · intro same key c found call' logged
    by_cases at_ : key = call.key trimSpace
    · subst at_
      cases here.symm.trans found
      rw [log_record_self t accepted] at logged
      rw [clientMAC_counted, label]
      cases before : t.writer.clients.lookup (call.key trimSpace) with
      | none =>
          rw [found_of_lookup_none before] at logged
          rw [List.mem_singleton.mp logged]
          rfl
      | some c =>
          rw [found_of_lookup before] at logged
          rcases List.mem_append.mp logged with earlier | last
          · exact oneClient _ c before call' earlier
          · rw [List.mem_singleton.mp last]
            exact (same c before).symm
    · rw [log_record_other t accepted at_] at logged
      exact oneClient key c (coherent.lookup_other accepted at_ found) call'
        logged

/-- The profiles that a flush writes show the traffic of their MAC, in all
states of a run, exactly when no call of the run finds a profile of another
MAC under its address. -/
theorem profiles_attributed_iff (toLower trimSpace : Bytes → Bytes)
    (calls : List Call) (macs : ∀ call ∈ calls, call.clientMAC ≠ []) :
    (∀ t ∈ Runs.visited (Traced.record toLower trimSpace) {} calls,
      t.Attributed toLower trimSpace) ↔
    Runs.Guarded (Writer.record toLower trimSpace)
      (Writer.SameClient trimSpace) {} calls := by
  have view := @Runs.guarded_map _ _ (Traced.record toLower trimSpace) _
    (Writer.record toLower trimSpace) Traced.writer (fun _ _ => rfl)
    (Writer.SameClient trimSpace) {} calls
  refine Iff.trans ?_ view
  refine Runs.forall_visited_iff_guarded (Traced.Coherent toLower trimSpace)
    (Traced.Attributed toLower trimSpace)
    (fun t call coherent known => coherent.record known) ?_ coherent_empty ?_
    (Runs.guarded_of_steps _ macs)
  · intro t call coherent attributed known
    rw [(coherent.record known).attributed_iff]
    exact coherent.oneClient_record (coherent.attributed_iff.mp attributed) known
  · rw [coherent_empty.attributed_iff]
    intro key c found
    cases found

end

theorem listed_perm (keys : List Bytes) : (id keys).Perm keys :=
  .refl keys

/-- A call with a MAC for a name, from one address. -/
def callOf (mac name : Bytes) : Call where
  kind := .dns
  clientMAC := mac
  clientIP := [49]
  remoteIP := []
  name := name
  now := 0
  visitClients := ⟨id, listed_perm⟩
  visitNames := ⟨id, listed_perm⟩
  visitGlobal := ⟨id, listed_perm⟩

/-- With one client under the address the profile is right. -/
theorem profiles_of_oneClient :
    ([callOf [97] [120], callOf [97] [121]].foldl (Traced.record id id)
      {}).Attributed id id := by
  refine (profiles_attributed_iff id id _ ?_).mpr ?_ _
    (Runs.mem_visited_final _ _)
  · intro call member
    rcases List.mem_pair.mp member with rfl | rfl
    · exact List.cons_ne_nil _ _
    · exact List.cons_ne_nil _ _
  · refine ⟨?_, ?_, trivial⟩
    · intro c found
      cases found
    · intro c found
      cases found
      rfl

/-- When the address goes to another client, its names are written under the
MAC of the first. -/
theorem leased_address_mixes : ¬ ∀ calls : List Call,
    (∀ call ∈ calls, call.clientMAC ≠ []) →
      ∀ t ∈ Runs.visited (Traced.record id id) {} calls,
        t.Attributed id id := by
  intro always
  have final := always [callOf [97] [120], callOf [98] [121]] (by
    intro call member
    rcases List.mem_pair.mp member with rfl | rfl
    · exact List.cons_ne_nil _ _
    · exact List.cons_ne_nil _ _) _ (Runs.mem_visited_final _ _)
  have owned := final stable (allVisits ⟨id, fun _ => .refl _⟩) [49] _ rfl
  have other := owned.counted (callOf [98] [121])
    (List.mem_append_right _ (List.mem_singleton_self _))
  exact absurd other (by decide)

end Dpid
