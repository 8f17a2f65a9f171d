import Hnc.Dpid.WriterTables
import Mathlib.Data.Set.Finite.Basic
import Mathlib.Algebra.Order.BigOperators.Group.List
import Mathlib.Algebra.Order.Ring.Nat

/-!
# The memory of the writer

The tables of names and of clients have limits, but the remote addresses of a
profile are only added to.  The writer stays within a bound exactly when finitely
many of them ever occur.
-/

namespace Dpid

open KeyMap OldestFirst

/-- The entries of the maps of a profile. -/
def ClientAgg.entries (c : ClientAgg) : Nat :=
  size c.hostnames + size c.sni + size c.remoteIPs

/-- The entries of all maps that can be reached from the writer. -/
def Writer.entries (w : Writer) : Nat :=
  size w.clients + (w.clients.entries.map fun e => e.2.entries).sum +
    size w.globalDNS + size w.globalSNI

theorem remoteIPs_counted (c : ClientAgg) (call : Call) (host : Bytes) :
    (c.counted call host).remoteIPs =
      if call.remoteIP ≠ [] then c.remoteIPs.insert call.remoteIP call.now
      else c.remoteIPs := by
  rw [counted_eq]
  split
  · cases call.kind <;> rfl
  · rfl

theorem remoteIPs_label (c : ClientAgg) (mac ip : Bytes) :
    (c.label mac ip).remoteIPs = c.remoteIPs := by
  unfold ClientAgg.label
  split <;> dsimp only <;> split <;> rfl

section

variable {toLower trimSpace : Bytes → Bytes}

theorem remoteIPs_profile (w : Writer) (call : Call) :
    (w.profile trimSpace call).remoteIPs =
      (w.clients.lookup (call.key trimSpace)).elim ∅ (·.remoteIPs) := by
  rw [Writer.profile, remoteIPs_label]
  cases w.clients.lookup (call.key trimSpace) with
  | some c => rfl
  | none => rfl

/-- The remote addresses of a profile come from a set. -/
def ClientAgg.Within (remotes : Set Bytes) (c : ClientAgg) : Prop :=
  ∀ ip ∈ c.remoteIPs, ip ∈ remotes ∧ ip ≠ []

def Writer.Within (remotes : Set Bytes) (w : Writer) : Prop :=
  ∀ key c, w.clients.lookup key = some c → c.Within remotes

theorem within_record {remotes : Set Bytes} {w : Writer} (bounded : w.Bounded)
    (within : w.Within remotes) {call : Call} (member : call.remoteIP ∈ remotes) :
    (w.record toLower trimSpace call).Within remotes := by
  by_cases accepted : call.Accepted
  · intro key c found
    by_cases here : key = call.key trimSpace
    · rw [here, clients_record_self w accepted] at found
      cases found
      have before : (w.profile trimSpace call).Within remotes := by
        intro ip known
        rw [remoteIPs_profile] at known
        cases client : w.clients.lookup (call.key trimSpace) with
        | none =>
            rw [client] at known
            exact absurd known (AList.notMem_empty ip)
        | some c =>
            rw [client] at known
            exact within _ c client ip known
      intro ip known
      rw [remoteIPs_counted] at known
      split at known
      · rename_i named
        rcases (AList.mem_insert _).mp known with same | earlier
        · rw [same]
          exact ⟨member, named⟩
        · exact before ip earlier
      · exact before ip known
    · rcases bounded.clients_record_other accepted here with same | gone
      · rw [same] at found
        exact within key c found
      · rw [gone.1] at found
        cases found
  · rw [record_ignored w accepted]
    exact within

theorem size_remoteIPs_le {remotes : Set Bytes}
    (finite : (remotes \ {[]}).Finite) {c : ClientAgg}
    (within : c.Within remotes) :
    size c.remoteIPs ≤ finite.toFinset.card := by
  rw [size, ← List.toFinset_card_of_nodup c.remoteIPs.keys_nodup]
  apply Finset.card_le_card
  intro ip known
  rw [Set.Finite.mem_toFinset]
  exact within ip (List.mem_toFinset.mp known)

/-- With limits on everything in a profile there is one on all maps. -/
theorem entries_le {w : Writer} (bounded : w.Bounded) {most : Nat}
    (remotes : ∀ key c, w.clients.lookup key = some c →
      size c.remoteIPs ≤ most) :
    w.entries ≤ maxClients + maxClients *
      (maxNamesPerClient + maxNamesPerClient + most) + maxGlobalNames +
        maxGlobalNames := by
  have clients := bounded.clients.bounded
  have dns := (bounded.global .dns).bounded
  have tls := (bounded.global .tls).bounded
  have each : ∀ e ∈ w.clients.entries.map fun e => e.2.entries,
      e ≤ maxNamesPerClient + maxNamesPerClient + most := by
    intro total member
    obtain ⟨e, known, rfl⟩ := List.mem_map.mp member
    have found : w.clients.lookup e.1 = some e.2 :=
      AList.mem_lookup_iff.mpr known
    have hostnames := (bounded.names _ _ found .dns).bounded
    have sni := (bounded.names _ _ found .tls).bounded
    have ips := remotes _ _ found
    rw [ClientAgg.entries]
    simp only [ClientAgg.names] at hostnames sni
    omega
  have sum := List.sum_le_card_nsmul _ _ each
  have length : w.clients.entries.length = size w.clients :=
    (List.length_map _).symm
  rw [List.length_map, length, Nat.nsmul_eq_mul] at sum
  have product := Nat.mul_le_mul_right
    (maxNamesPerClient + maxNamesPerClient + most) clients
  rw [Writer.entries]
  simp only [Writer.global] at dns tls
  omega

/-- A call of a client with one remote address. -/
def callTo (remote : Bytes) : Call where
  kind := .dns
  clientMAC := []
  clientIP := [49]
  remoteIP := remote
  name := []
  now := 0
  visitClients := ⟨id, fun _ => .refl _⟩
  visitNames := ⟨id, fun _ => .refl _⟩
  visitGlobal := ⟨id, fun _ => .refl _⟩

theorem callTo_accepted (remote : Bytes) : (callTo remote).Accepted :=
  fun empty => List.cons_ne_nil _ _ empty.1

theorem key_callTo (remote : Bytes) :
    (callTo remote).key trimSpace = (callTo []).key trimSpace :=
  rfl

/-- All remote addresses of the client are kept. -/
theorem remotes_kept {remotes : List Bytes} (named : [] ∉ remotes) :
    ∀ remote ∈ remotes,
      remote ∈ (((remotes.map callTo).foldl (Writer.record toLower trimSpace)
        {}).profile trimSpace (callTo [])).remoteIPs := by
  induction remotes using List.reverseRecOn with
  | nil =>
      intro remote member
      cases member
  | append_singleton remotes last induction =>
      rw [List.mem_append, not_or] at named
      have lastNamed : (callTo last).remoteIP ≠ [] :=
        fun empty => named.2 (List.mem_singleton.mpr empty.symm)
      rw [List.map_append, List.foldl_append, List.map_singleton,
        List.foldl_cons, List.foldl_nil]
      generalize (remotes.map callTo).foldl (Writer.record toLower trimSpace)
        {} = w at induction
      have kept : ((w.record toLower trimSpace (callTo last)).profile trimSpace
          (callTo [])).remoteIPs =
            (w.profile trimSpace (callTo [])).remoteIPs.insert last 0 := by
        rw [remoteIPs_profile, ← key_callTo last,
          clients_record_self w (callTo_accepted last), Option.elim_some,
          remoteIPs_counted, if_pos lastNamed]
        rfl
      intro remote member
      rw [kept, AList.mem_insert]
      rcases List.mem_append.mp member with earlier | here
      · exact .inr (induction named.1 remote earlier)
      · exact .inl (List.mem_singleton.mp here)

theorem size_remoteIPs_le_entries (w : Writer) (call : Call) :
    size (w.profile trimSpace call).remoteIPs ≤ w.entries := by
  rw [remoteIPs_profile]
  cases found : w.clients.lookup (call.key trimSpace) with
  | none => exact Nat.zero_le _
  | some c =>
      have known : (⟨call.key trimSpace, c⟩ : Sigma fun _ => ClientAgg) ∈
          w.clients.entries := AList.mem_lookup_iff.mp found
      have part : c.entries ≤ (w.clients.entries.map fun e => e.2.entries).sum :=
        List.le_sum_of_mem (List.mem_map_of_mem (f := fun e => e.2.entries) known)
      rw [Writer.entries, Option.elim_some]
      rw [ClientAgg.entries] at part
      omega

/-- Of infinitely many remote addresses the client can have any number. -/
theorem entries_unbounded {remotes : Set Bytes}
    (infinite : ¬(remotes \ {[]}).Finite) (bound : Nat) :
    ∃ calls : List Call, (∀ call ∈ calls, call.remoteIP ∈ remotes) ∧
      bound < (calls.foldl (Writer.record toLower trimSpace) {}).entries := by
  obtain ⟨some_, within, card⟩ :=
    Set.Infinite.exists_subset_card_eq infinite (bound + 1)
  have named : [] ∉ some_.toList := by
    intro member
    exact (within (Finset.mem_toList.mp member)).2 rfl
  refine ⟨some_.toList.map callTo, ?_, ?_⟩
  · intro call member
    obtain ⟨remote, known, rfl⟩ := List.mem_map.mp member
    exact (within (Finset.mem_toList.mp known)).1
  · have kept := @remotes_kept toLower trimSpace _ named
    have parts := (some_.nodup_toList.subperm kept).length_le
    rw [Finset.length_toList, card] at parts
    exact Nat.lt_of_lt_of_le parts (size_remoteIPs_le_entries _ (callTo []))

/-- The writer stays within a bound over all runs with remote addresses from a
set exactly when only finitely many of them can be stored. -/
theorem writer_memory_bounded_iff (toLower trimSpace : Bytes → Bytes)
    (remotes : Set Bytes) :
    (∃ bound, ∀ calls : List Call, (∀ call ∈ calls, call.remoteIP ∈ remotes) →
      (calls.foldl (Writer.record toLower trimSpace) {}).entries ≤ bound) ↔
      (remotes \ {[]}).Finite := by
  constructor
  · rintro ⟨bound, bounded⟩
    by_contra infinite
    obtain ⟨calls, within, more⟩ :=
      @entries_unbounded toLower trimSpace _ infinite bound
    have := bounded calls within
    omega
  · intro finite
    refine ⟨maxClients + maxClients * (maxNamesPerClient + maxNamesPerClient +
      finite.toFinset.card) + maxGlobalNames + maxGlobalNames, ?_⟩
    intro calls within
    have kept := @Runs.guarded_of_steps _ _ (Writer.record toLower trimSpace)
      _ {} _ within
    obtain ⟨bounded, inside⟩ := kept.final_induction
      (fun w => w.Bounded ∧ w.Within remotes)
      (fun w call holds member =>
        ⟨holds.1.record call, within_record holds.1 holds.2 member⟩)
      ⟨bounded_empty, fun key c found => by cases found⟩
    exact entries_le bounded fun key c found =>
      size_remoteIPs_le finite (inside key c found)

/-- No bound holds over all runs. -/
theorem writer_memory_grows :
    ¬ ∃ bound, ∀ calls : List Call,
      (calls.foldl (Writer.record id id) {}).entries ≤ bound := by
  rintro ⟨bound, bounded⟩
  have infinite : ¬((Set.univ : Set Bytes) \ {[]}).Finite :=
    Set.Infinite.sdiff Set.infinite_univ (Set.finite_singleton [])
  obtain ⟨calls, -, more⟩ :=
    @entries_unbounded id id _ infinite bound
  have := bounded calls
  omega

end

end Dpid
