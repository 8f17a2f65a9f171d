import Hnc.Dpid.WriterMemory
import Hnc.Lib.SortSlice
import Mathlib.Data.List.Lex

/-!
# The published state

`Flush` turns the maps of the writer into sorted lists of a few entries.  The
names are sorted by a total order; the remote addresses only by the time they
were last seen, so that addresses of one second may change places.
-/

namespace Dpid

open KeyMap OldestFirst SortSlice

/-- The loop over a map appends its entries in the order of the visit. -/
def visited {Value : Type} (visit : Visit Bytes) (m : Map Bytes Value) :
    List (Bytes × Value) :=
  (visit.order m.keys).filterMap fun key =>
    (m.lookup key).map fun value => (key, value)

structure NameCount where
  name : Bytes
  count : UInt64
  lastSeen : Int
deriving DecidableEq

structure ClientProfile where
  clientIP : Bytes
  clientMAC : Bytes
  remoteIPs : List Bytes
  firstSeen : Int
  lastSeen : Int
  dnsEvents : UInt64
  tlsEvents : UInt64
  lastHostname : Bytes
  lastSNI : Bytes
  topHostnames : List NameCount
  topSNI : List NameCount
deriving DecidableEq

/-- The part of the state that comes from the tables. -/
structure Snapshot where
  clients : Map Bytes ClientProfile
  clientCount : Nat
  topHostnames : List NameCount
  topSNI : List NameCount
  uniqueHostnames : Nat
  uniqueSNI : Nat

/-- The orders in which `Flush` visits the maps. -/
structure FlushVisits where
  clients : Visit Bytes
  remoteIPs : Bytes → Visit Bytes
  hostnames : Bytes → Visit Bytes
  sni : Bytes → Visit Bytes
  globalDNS : Visit Bytes
  globalSNI : Visit Bytes

/-- The comparison of `topNames`. -/
def nameLess (a b : NameCount) : Bool :=
  if a.count ≠ b.count then b.count < a.count
  else if a.lastSeen ≠ b.lastSeen then b.lastSeen < a.lastSeen
  else a.name < b.name

/-- `if n > 0 && len(out) > n { out = out[:n] }`. -/
def cut {α : Type} (out : List α) (n : Nat) : List α :=
  if 0 < n ∧ n < out.length then out.take n else out

section

variable (sort : Sorting)

def topNames (visit : Visit Bytes) (m : Map Bytes NameStat) (n : Nat) :
    List NameCount :=
  cut (sort.run nameLess
    ((visited visit m).map fun e => ⟨e.1, e.2.count, e.2.lastSeen⟩)) n

def recentRemoteIPs (visit : Visit Bytes) (m : Map Bytes Int) (n : Nat) :
    List Bytes :=
  (cut (sort.run (fun a b => b.2 < a.2) (visited visit m)) n).map Prod.fst

def clientProfile (visits : FlushVisits) (key : Bytes) (c : ClientAgg) :
    ClientProfile where
  clientIP := c.clientIP
  clientMAC := c.clientMAC
  remoteIPs := recentRemoteIPs sort (visits.remoteIPs key) c.remoteIPs 6
  firstSeen := c.firstSeen
  lastSeen := c.lastSeen
  dnsEvents := c.dnsEvents
  tlsEvents := c.tlsEvents
  lastHostname := c.lastHostname
  lastSNI := c.lastSNI
  topHostnames := topNames sort (visits.hostnames key) c.hostnames topN
  topSNI := topNames sort (visits.sni key) c.sni topN

def Writer.flush (visits : FlushVisits) (w : Writer) : Snapshot where
  clients := (visited visits.clients w.clients).foldl (fun clients e =>
    clients.insert e.1 (clientProfile sort visits e.1 e.2)) ∅
  clientCount := size w.clients
  topHostnames := topNames sort visits.globalDNS w.globalDNS topN
  topSNI := topNames sort visits.globalSNI w.globalSNI topN
  uniqueHostnames := size w.globalDNS
  uniqueSNI := size w.globalSNI

end

/-- The entries of a map. -/
def pairs {Value : Type} (m : Map Bytes Value) : List (Bytes × Value) :=
  m.entries.map fun e => (e.1, e.2)

section

variable {Value : Type}

variable {m : Map Bytes Value}

theorem mem_pairs {e : Bytes × Value} :
    e ∈ pairs m ↔ m.lookup e.1 = some e.2 := by
  rw [pairs, List.mem_map]
  constructor
  · rintro ⟨entry, known, rfl⟩
    exact AList.mem_lookup_iff.mpr known
  · intro found
    exact ⟨⟨e.1, e.2⟩, AList.mem_lookup_iff.mp found, rfl⟩

theorem pairs_keys (m : Map Bytes Value) : (pairs m).map Prod.fst = m.keys := by
  rw [pairs, List.map_map]
  rfl

theorem nodup_pairs (m : Map Bytes Value) : (pairs m).Nodup := by
  apply List.Nodup.of_map Prod.fst
  rw [pairs_keys]
  exact m.keys_nodup

/-- Keys looked up again give the entries that they are from. -/
theorem filterMap_lookup {l : List (Bytes × Value)} (known : ∀ e ∈ l, e ∈ pairs m) :
    ((l.map Prod.fst).filterMap fun key =>
      (m.lookup key).map fun value => (key, value)) = l := by
  induction l with
  | nil => rfl
  | cons e l induction =>
      have found := mem_pairs.mp (known e List.mem_cons_self)
      rw [List.map_cons, List.filterMap_cons_some (by rw [found]; rfl),
        induction fun other member => known other (List.mem_cons_of_mem e member)]

theorem visited_perm (visit : Visit Bytes) (m : Map Bytes Value) :
    (visited visit m).Perm (pairs m) := by
  have perm := (visit.perm m.keys).filterMap fun key =>
    (m.lookup key).map fun value => (key, value)
  rw [← pairs_keys, filterMap_lookup fun e member => member, pairs_keys] at perm
  exact perm

/-- Every order of the entries is one of a visit. -/
theorem exists_visit {l : List (Bytes × Value)} (perm : l.Perm (pairs m)) :
    ∃ visit, visited visit m = l := by
  have order : (l.map Prod.fst).Perm m.keys := by
    rw [← pairs_keys]
    exact perm.map Prod.fst
  classical
  refine ⟨⟨fun keys => if (l.map Prod.fst).Perm keys then l.map Prod.fst
    else keys, ?_⟩, ?_⟩
  · intro keys
    split
    · assumption
    · exact .refl keys
  · rw [visited]
    simp only [if_pos order]
    exact filterMap_lookup fun e member => perm.mem_iff.mp member

end

theorem cut_eq_take {α : Type} (out : List α) {n : Nat} (some_ : 0 < n) :
    cut out n = out.take n := by
  rw [cut]
  split
  · rfl
  · rw [List.take_of_length_le (by omega)]

theorem recency_weak :
    Weak fun a b : Bytes × Int => decide (b.2 < a.2) where
  asymm := by
    intro a b before
    rw [decide_eq_true_iff] at before
    rw [decide_eq_false_iff_not]
    omega
  notLessTrans := by
    intro a b c ab bc
    rw [decide_eq_false_iff_not] at ab bc ⊢
    omega

theorem nameLess_false {a b : NameCount} :
    nameLess a b = false ↔
      a.count.toNat < b.count.toNat ∨ a.count.toNat = b.count.toNat ∧
        (a.lastSeen < b.lastSeen ∨ a.lastSeen = b.lastSeen ∧
          ¬ a.name < b.name) := by
  have counts : a.count = b.count ↔ a.count.toNat = b.count.toNat :=
    UInt64.toNat_inj.symm
  unfold nameLess
  simp only [ne_eq, counts, UInt64.lt_iff_toNat_lt]
  by_cases sameCount : a.count.toNat = b.count.toNat
  · rw [if_neg (not_not.mpr sameCount)]
    by_cases sameTime : a.lastSeen = b.lastSeen
    · simp [sameCount, sameTime]
    · rw [if_pos sameTime, decide_eq_false_iff_not]
      omega
  · rw [if_pos sameCount, decide_eq_false_iff_not]
    omega

theorem nameLess_weak : Weak nameLess where
  asymm := by
    intro a b before
    by_contra after
    have notBefore := mt nameLess_false.mpr after
    have notAfter := mt nameLess_false.mpr
      (Bool.eq_false_iff.not.mpr (not_not.mpr before))
    simp only [not_or, not_and, not_not] at notAfter notBefore
    have sameCount : a.count.toNat = b.count.toNat := by omega
    have times := notAfter.2 sameCount
    have times' := notBefore.2 sameCount.symm
    have sameTime : a.lastSeen = b.lastSeen := by omega
    exact List.lt_asymm (times.2 sameTime) (times'.2 sameTime.symm)
  notLessTrans := by
    intro a b c ab bc
    rw [nameLess_false] at ab bc ⊢
    rcases ab with count | ⟨count, time | ⟨time, name⟩⟩
    · left
      omega
    · rcases bc with count' | ⟨count', time' | ⟨time', name'⟩⟩
      · left
        omega
      · exact .inr ⟨count.trans count', .inl (by omega)⟩
      · exact .inr ⟨count.trans count', .inl (by omega)⟩
    · rcases bc with count' | ⟨count', time' | ⟨time', name'⟩⟩
      · left
        omega
      · exact .inr ⟨count.trans count', .inl (by omega)⟩
      · refine .inr ⟨count.trans count', .inr ⟨time.trans time', ?_⟩⟩
        exact List.le_trans name' name

theorem nameLess_ties {a b : NameCount} (ab : nameLess a b = false)
    (ba : nameLess b a = false) : a.name = b.name := by
  rw [nameLess_false] at ab ba
  rcases ab with count | ⟨count, time | ⟨time, name⟩⟩
  · omega
  · omega
  · rcases ba with count' | ⟨count', time' | ⟨time', name'⟩⟩
    · omega
    · omega
    · exact List.le_antisymm name' name

section

variable (sort : Sorting)

/-- The names do not depend on the order of the visit. -/
theorem topNames_visit (visit visit' : Visit Bytes) (m : Map Bytes NameStat)
    (n : Nat) : topNames sort visit m n = topNames sort visit' m n := by
  have perm := (visited_perm visit m).trans (visited_perm visit' m).symm
  rw [topNames]
  congr 1
  apply run_eq_of_perm sort nameLess_weak (perm.map _)
  intro a here b there ab ba
  obtain ⟨e, known, rfl⟩ := List.mem_map.mp here
  obtain ⟨e', known', rfl⟩ := List.mem_map.mp there
  have name : e.1 = e'.1 := nameLess_ties ab ba
  have found := mem_pairs.mp ((visited_perm visit m).mem_iff.mp known)
  have found' := mem_pairs.mp ((visited_perm visit m).mem_iff.mp known')
  rw [name, found'] at found
  rw [name, Option.some.inj found]

/-- Of addresses that were last seen in one second, none is among the six that
are listed: six others were seen later. -/
def RecencyDecided (m : Map Bytes Int) : Prop :=
  ∀ ip ip' last, ip ≠ ip' → m.lookup ip = some last →
    m.lookup ip' = some last → 6 ≤ (pairs m).countP fun e => last < e.2

theorem recentRemoteIPs_visit {m : Map Bytes Int} (decided : RecencyDecided m)
    (visit visit' : Visit Bytes) :
    recentRemoteIPs sort visit m 6 = recentRemoteIPs sort visit' m 6 := by
  have perm := (visited_perm visit m).trans (visited_perm visit' m).symm
  rw [recentRemoteIPs, recentRemoteIPs, cut_eq_take _ (by decide),
    cut_eq_take _ (by decide)]
  congr 1
  apply take_run_eq_of_perm sort recency_weak perm
  intro a here b there different ab ba
  rw [decide_eq_false_iff_not] at ab ba
  have found := mem_pairs.mp ((visited_perm visit m).mem_iff.mp here)
  have found' := mem_pairs.mp ((visited_perm visit m).mem_iff.mp there)
  have time : b.2 = a.2 := by omega
  rw [(visited_perm visit m).countP_eq]
  apply decided a.1 b.1 a.2 _ found
  · rw [found', time]
  · intro name
    exact different (Prod.ext name time.symm)

/-- Ties among the six addresses depend on the order of the visit. -/
theorem recencyDecided_of_visit {sort : Sorting} (natural : sort.Natural)
    {m : Map Bytes Int} (same : ∀ visit visit' : Visit Bytes,
      recentRemoteIPs sort visit m 6 = recentRemoteIPs sort visit' m 6) :
    RecencyDecided m := by
  intro ip ip' last different found found'
  by_contra few
  have here : (ip, last) ∈ pairs m := mem_pairs.mpr found
  have there : (ip', last) ∈ pairs m := mem_pairs.mpr found'
  obtain ⟨x, known, y, known', changed⟩ := exists_swap_of_tie sort natural
    recency_weak here there (fun equal => different (congrArg Prod.fst equal))
    (by simp) (by simp) (Nat.lt_of_not_le few)
  have swapped := map_swap_perm (nodup_pairs m) known known'
  obtain ⟨visit, listed⟩ := exists_visit (List.Perm.refl (pairs m))
  obtain ⟨visit', listed'⟩ := exists_visit swapped
  have equal := same visit' visit
  rw [recentRemoteIPs, recentRemoteIPs, cut_eq_take _ (by decide),
    cut_eq_take _ (by decide), listed, listed'] at equal
  apply changed
  have ofKeys (l : List (Bytes × Int)) (perm : l.Perm (pairs m)) :
      (((sort.run (fun a b => decide (b.2 < a.2)) l).take 6).map
        Prod.fst).filterMap (fun key => (m.lookup key).map fun value =>
          (key, value)) =
        (sort.run (fun a b => decide (b.2 < a.2)) l).take 6 := by
    apply filterMap_lookup
    intro e member
    exact ((sort.perm _ l).trans perm).mem_iff.mp (List.mem_of_mem_take member)
  rw [← ofKeys _ swapped, equal, ofKeys _ (.refl _)]

/-- The lists of a profile. -/
def ClientProfile.lists (cp : ClientProfile) :
    List NameCount × List NameCount × List Bytes :=
  (cp.topHostnames, cp.topSNI, cp.remoteIPs)

/-- Two snapshots have the same lists, for every client and for all. -/
structure Snapshot.SameLists (s s' : Snapshot) : Prop where
  topHostnames : s.topHostnames = s'.topHostnames
  topSNI : s.topSNI = s'.topSNI
  clients : ∀ key, (s.clients.lookup key).map ClientProfile.lists =
    (s'.clients.lookup key).map ClientProfile.lists

/-- The profile of a client in the snapshot. -/
theorem lookup_flush (visits : FlushVisits) (w : Writer) (key : Bytes) :
    (w.flush sort visits).clients.lookup key =
      (w.clients.lookup key).map (clientProfile sort visits key) := by
  have perm := visited_perm visits.clients w.clients
  have keys : ((visited visits.clients w.clients).map Prod.fst).Perm
      w.clients.keys := by
    rw [← pairs_keys]
    exact perm.map Prod.fst
  cases found : w.clients.lookup key with
  | none =>
      have fresh : key ∉ (visited visits.clients w.clients).map Prod.fst := by
        rw [keys.mem_iff]
        exact AList.lookup_eq_none.mp found
      exact lookup_foldl_insert_of_not_mem Prod.fst
        (fun e => clientProfile sort visits e.1 e.2) fresh ∅
  | some c =>
      have member : (key, c) ∈ visited visits.clients w.clients :=
        perm.mem_iff.mpr (mem_pairs.mpr found)
      exact lookup_foldl_insert Prod.fst
        (fun e => clientProfile sort visits e.1 e.2)
        (keys.nodup_iff.mpr w.clients.keys_nodup) member ∅

theorem recencyDecided_of_sameLists {sort : Sorting}
    (natural : sort.Natural) {w : Writer} (same : ∀ visits visits',
      (w.flush sort visits).SameLists (w.flush sort visits')) {key : Bytes}
    {c : ClientAgg} (found : w.clients.lookup key = some c) :
    RecencyDecided c.remoteIPs := by
  apply recencyDecided_of_visit natural
  intro visit visit'
  have lists := (same ⟨visit, fun _ => visit, fun _ => visit, fun _ => visit,
    visit, visit⟩ ⟨visit, fun _ => visit', fun _ => visit, fun _ => visit,
    visit, visit⟩).clients key
  rw [lookup_flush, lookup_flush, found] at lists
  exact congrArg (fun lists => lists.2.2) (Option.some.inj lists)

/-- The published lists do not depend on the order in which the maps are
visited exactly when the times of all clients decide which addresses are
listed. -/
theorem flush_visit_iff {sort : Sorting} (natural : sort.Natural) (w : Writer) :
    (∀ visits visits',
      (w.flush sort visits).SameLists (w.flush sort visits')) ↔
      ∀ key c, w.clients.lookup key = some c → RecencyDecided c.remoteIPs := by
  constructor
  · intro same key c found
    exact recencyDecided_of_sameLists natural same found
  · intro decided visits visits'
    refine ⟨topNames_visit sort _ _ _ _, topNames_visit sort _ _ _ _, ?_⟩
    intro key
    rw [lookup_flush, lookup_flush]
    cases found : w.clients.lookup key with
    | none => rfl
    | some c =>
        rw [Option.map_some, Option.map_some, Option.map_some, Option.map_some]
        congr 1
        rw [ClientProfile.lists, ClientProfile.lists]
        refine Prod.ext ?_ (Prod.ext ?_ ?_)
        · exact topNames_visit sort _ _ _ _
        · exact topNames_visit sort _ _ _ _
        · exact recentRemoteIPs_visit sort (decided key c found) _ _

end

/-- The visits in one order. -/
def allVisits (visit : Visit Bytes) : FlushVisits :=
  ⟨visit, fun _ => visit, fun _ => visit, fun _ => visit, visit, visit⟩

/-- A client with one remote address. -/
def oneAddress : Writer :=
  ({} : Writer).record id id (callTo [49])

theorem flush_oneAddress :
    (oneAddress.flush stable (allVisits ⟨id, fun _ => .refl _⟩)).SameLists
      (oneAddress.flush stable
        (allVisits ⟨List.reverse, List.reverse_perm⟩)) := by
  apply (flush_visit_iff stable_natural oneAddress).mpr
  intro key c found ip ip' last different here there
  have clients : oneAddress.clients = (∅ : Map Bytes ClientAgg).insert [49]
      { clientIP := [49]
        clientMAC := []
        firstSeen := 0
        lastSeen := 0
        dnsEvents := 1
        remoteIPs := (∅ : Map Bytes Int).insert [49] 0 } := rfl
  rw [clients, lookup_insert_eq] at found
  split at found
  · cases found
    rw [lookup_insert_eq] at here there
    split at here
    · split at there
      · rename_i first second
        exact absurd (first.trans second.symm) different
      · cases there
    · cases here
  · cases found

/-- A client with two remote addresses that were seen in one second. -/
def tiedWriter : Writer :=
  [callTo [49], callTo [50]].foldl (Writer.record id id) {}

/-- With two addresses of one second the list is in the order of the visit. -/
theorem tied_addresses_swap : ¬ ∀ (sort : Sorting) (w : Writer)
    (visits visits' : FlushVisits),
    (w.flush sort visits).SameLists (w.flush sort visits') := by
  intro same
  obtain ⟨c, found, first, second, two⟩ : ∃ c,
      tiedWriter.clients.lookup [49] = some c ∧
        c.remoteIPs.lookup [49] = some 0 ∧ c.remoteIPs.lookup [50] = some 0 ∧
        (pairs c.remoteIPs).length = 2 := ⟨_, rfl, rfl, rfl, rfl⟩
  have many := recencyDecided_of_sameLists stable_natural
    (same stable tiedWriter) found [49] [50] 0 (by decide) first second
  have few := @List.countP_le_length _ (fun e : Bytes × Int => decide (0 < e.2))
    (pairs c.remoteIPs)
  omega

end Dpid
