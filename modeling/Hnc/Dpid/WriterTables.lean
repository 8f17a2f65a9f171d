import Hnc.Dpid.Writer
import Hnc.Lib.Tallies

/-!
# The tables of the writer are bounded

Both operations change the tables in one way: room is made for the profile and
for the name, and an entry with the new time is put there.  Over any run the
tables keep their limits and lose only their oldest entries.
-/

namespace Dpid

open KeyMap OldestFirst

/-- The call has an address of a client; others are ignored. -/
def Call.Accepted (call : Call) : Prop :=
  ¬(call.clientIP = [] ∧ call.clientMAC = [])

instance (call : Call) : Decidable call.Accepted :=
  inferInstanceAs (Decidable (¬_))

variable {name : Bytes} {limit : Nat}

/-- A name in a table is put there again, or room is made for it. -/
theorem bumpName_eq (visit : Visit Bytes) (m : Map Bytes NameStat)
    (named : name ≠ []) (now : Int) (some_ : 0 < limit) :
    bumpName visit m name now limit =
      put [] NameStat.lastSeen visit limit m name
        ⟨(m.lookup name).elim 1 fun st => st.count + 1, now⟩ := by
  rw [bumpName, if_neg named, put, makeRoom]
  cases found : m.lookup name with
  | some st =>
      have member : name ∈ m := by
        apply AList.lookup_isSome.mp
        rw [found]
        rfl
      have kept : ¬(limit ≤ size m ∧ name ∉ m) :=
        fun needed => needed.2 member
      rw [if_neg kept]
      rfl
  | none =>
      have fresh := AList.lookup_eq_none.mp found
      by_cases full : limit ≤ size m
      · have needed : limit ≤ size m ∧ name ∉ m := ⟨full, fresh⟩
        have evicts : 0 < limit ∧ limit ≤ size m := ⟨some_, full⟩
        rw [if_pos needed, if_pos evicts]
        rfl
      · have kept : ¬(limit ≤ size m ∧ name ∉ m) := fun needed => full needed.1
        have keeps : ¬(0 < limit ∧ limit ≤ size m) := fun needed => full needed.2
        rw [if_neg kept, if_neg keeps]
        rfl

theorem bumpName_nil (visit : Visit Bytes) (m : Map Bytes NameStat)
    (now : Int) (limit : Nat) : bumpName visit m [] now limit = m :=
  if_pos rfl

section

variable (toLower trimSpace : Bytes → Bytes)

def Call.host (call : Call) : Bytes :=
  normalizeName toLower trimSpace call.name

def Call.key (call : Call) : Bytes :=
  clientKey trimSpace call.clientMAC call.clientIP

/-- The profile that a call goes to, as it is before the call is counted. -/
def Writer.profile (w : Writer) (call : Call) : ClientAgg :=
  ((w.clients.lookup (call.key trimSpace)).getD
    { clientIP := call.clientIP
      clientMAC := call.clientMAC
      firstSeen := call.now
      lastSeen := call.now }).label call.clientMAC call.clientIP

/-- The profile with a call in it. -/
def ClientAgg.counted (c : ClientAgg) (call : Call) (host : Bytes) :
    ClientAgg :=
  let c := { c.countEvent call.kind with lastSeen := call.now }
  let c :=
    if call.remoteIP ≠ [] then
      { c with remoteIPs := c.remoteIPs.insert call.remoteIP call.now }
    else c
  if host ≠ [] then
    c.named host (bumpName call.visitNames (c.names call.kind) host call.now
      maxNamesPerClient) call.kind
  else c

/-- The names of all clients behind a call. -/
def Call.bumpGlobal (call : Call) (kind : Kind) (m : Map Bytes NameStat) :
    Map Bytes NameStat :=
  if call.kind = kind then
    bumpName call.visitGlobal m (call.host toLower trimSpace) call.now
      maxGlobalNames
  else m

/-- What an accepted call leaves in the tables. -/
structure Writer.Holds (w : Writer) (call : Call) : Prop where
  client : ∃ c, w.clients.lookup (call.key trimSpace) = some c ∧
    (call.host toLower trimSpace ≠ [] →
      call.host toLower trimSpace ∈ c.names call.kind)
  global : call.host toLower trimSpace ≠ [] →
    call.host toLower trimSpace ∈ w.global call.kind

variable {toLower trimSpace}

theorem makeClient_snd (clients : Map Bytes ClientAgg) (key mac ip : Bytes)
    (now : Int) :
    (Writer.makeClient clients key mac ip now).2 =
      (clients.lookup key).getD
        { clientIP := ip, clientMAC := mac, firstSeen := now, lastSeen := now } := by
  unfold Writer.makeClient
  cases clients.lookup key with
  | some c => rfl
  | none => rfl

theorem insert_makeClient (clients : Map Bytes ClientAgg)
    (key mac ip : Bytes) (now : Int) (c : ClientAgg) :
    (Writer.makeClient clients key mac ip now).1.insert key c =
      clients.insert key c := by
  unfold Writer.makeClient
  cases clients.lookup key with
  | some found => rfl
  | none => exact AList.insert_insert _

theorem clientLocked_eq (w : Writer) (call : Call) :
    w.clientLocked trimSpace call.visitClients call.clientMAC call.clientIP
        call.now =
      ({ w with
          clients := put [] ClientAgg.lastSeen call.visitClients maxClients
            w.clients (call.key trimSpace) (w.profile trimSpace call) },
        call.key trimSpace, w.profile trimSpace call) := by
  have room : (if maxClients ≤ size w.clients then
        if call.key trimSpace ∉ w.clients then
          w.evictOldestClientLocked call.visitClients
        else w
      else w) = { w with
        clients := makeRoom [] ClientAgg.lastSeen call.visitClients maxClients
          w.clients (call.key trimSpace) } := by
    rw [makeRoom, ite_and]
    split
    · split
      · rfl
      · rfl
    · rfl
  rw [Call.key] at room
  rw [Writer.clientLocked]
  simp only [room, makeClient_snd, insert_makeClient, lookup_makeRoom]
  rfl

variable {call : Call}

/-- What an accepted call does, whichever operation it is. -/
theorem record_accepted (w : Writer) (accepted : call.Accepted) :
    w.record toLower trimSpace call =
      { clients := put [] ClientAgg.lastSeen call.visitClients maxClients
          w.clients (call.key trimSpace)
          ((w.profile trimSpace call).counted call
            (call.host toLower trimSpace))
        globalDNS := call.bumpGlobal toLower trimSpace .dns w.globalDNS
        globalSNI := call.bumpGlobal toLower trimSpace .tls w.globalSNI } := by
  have named : w.record toLower trimSpace call =
      Writer.recordName toLower trimSpace call.kind w call := by
    unfold Writer.record
    cases call.kind with
    | dns => rfl
    | tls => rfl
  rw [named, Writer.recordName, if_neg accepted, clientLocked_eq]
  simp only [insert_put, ← Call.host.eq_1, ClientAgg.counted]
  by_cases empty : call.host toLower trimSpace = []
  · rw [if_neg (not_not.mpr empty), if_neg (not_not.mpr empty)]
    simp only [Call.bumpGlobal, empty, bumpName_nil, ite_self]
  · rw [if_pos empty, if_pos empty]
    cases kind : call.kind with
    | dns =>
        simp only [Call.bumpGlobal, kind]
        rfl
    | tls =>
        simp only [Call.bumpGlobal, kind]
        rfl

theorem record_ignored (w : Writer) {call : Call}
    (ignored : ¬call.Accepted) : w.record toLower trimSpace call = w := by
  have empty := not_not.mp ignored
  unfold Writer.record
  cases call.kind with
  | dns => exact if_pos empty
  | tls => exact if_pos empty

theorem clientKey_ne_nil (mac ip : Bytes) : clientKey trimSpace mac ip ≠ [] := by
  unfold clientKey
  split
  · assumption
  · split
    · assumption
    · decide

/-- The profile with a call in it, but for the name. -/
def ClientAgg.touched (c : ClientAgg) (call : Call) : ClientAgg :=
  { c.countEvent call.kind with
    lastSeen := call.now
    remoteIPs :=
      if call.remoteIP ≠ [] then c.remoteIPs.insert call.remoteIP call.now
      else c.remoteIPs }

theorem counted_eq (c : ClientAgg) (call : Call) (host : Bytes) :
    c.counted call host =
      if host ≠ [] then
        (c.touched call).named host (bumpName call.visitNames
          (c.names call.kind) host call.now maxNamesPerClient) call.kind
      else c.touched call := by
  unfold ClientAgg.counted ClientAgg.touched
  cases call.kind with
  | dns =>
      by_cases remote : call.remoteIP ≠ []
      · simp only [if_pos remote]
        rfl
      · simp only [if_neg remote]
        rfl
  | tls =>
      by_cases remote : call.remoteIP ≠ []
      · simp only [if_pos remote]
        rfl
      · simp only [if_neg remote]
        rfl

@[simp] theorem names_touched (c : ClientAgg) (call : Call) (kind : Kind) :
    (c.touched call).names kind = c.names kind := by
  unfold ClientAgg.touched
  cases call.kind with
  | dns => cases kind <;> rfl
  | tls => cases kind <;> rfl

@[simp] theorem names_named (c : ClientAgg) (host : Bytes)
    (names : Map Bytes NameStat) (of kind : Kind) :
    (c.named host names of).names kind =
      if of = kind then names else c.names kind := by
  cases of with
  | dns => cases kind <;> rfl
  | tls => cases kind <;> rfl

theorem names_counted (c : ClientAgg) (call : Call) (host : Bytes)
    (kind : Kind) :
    (c.counted call host).names kind =
      if call.kind = kind then
        bumpName call.visitNames (c.names kind) host call.now maxNamesPerClient
      else c.names kind := by
  rw [counted_eq]
  by_cases named : host ≠ []
  · rw [if_pos named, names_named, names_touched]
    by_cases same : call.kind = kind
    · rw [if_pos same, if_pos same, same]
    · rw [if_neg same, if_neg same]
  · rw [if_neg named, names_touched, not_not.mp named, bumpName_nil, ite_self]

@[simp] theorem names_label (c : ClientAgg) (mac ip : Bytes) (kind : Kind) :
    (c.label mac ip).names kind = c.names kind := by
  unfold ClientAgg.label
  cases kind with
  | dns => split <;> dsimp only <;> split <;> rfl
  | tls => split <;> dsimp only <;> split <;> rfl

theorem names_profile (w : Writer) (call : Call) (kind : Kind) :
    (w.profile trimSpace call).names kind =
      (w.clients.lookup (call.key trimSpace)).elim ∅ (·.names kind) := by
  rw [Writer.profile, names_label]
  cases w.clients.lookup (call.key trimSpace) with
  | some c => rfl
  | none => cases kind <;> rfl

/-- What every reached state of the writer keeps. -/
structure Writer.Bounded (w : Writer) : Prop where
  clients : Fits [] maxClients w.clients
  names : ∀ key c, w.clients.lookup key = some c →
    ∀ kind, Fits [] maxNamesPerClient (c.names kind)
  global : ∀ kind, Fits [] maxGlobalNames (w.global kind)

theorem bounded_empty : Writer.Bounded {} where
  clients := fits_empty [] maxClients
  names := by
    intro key c found
    cases found
  global := by
    intro kind
    cases kind <;> exact fits_empty [] maxGlobalNames

variable {m : Map Bytes NameStat}

theorem fits_bumpName (fits : Fits [] limit m) (some_ : 0 < limit)
    (visit : Visit Bytes) (name : Bytes) (now : Int) :
    Fits [] limit (bumpName visit m name now limit) := by
  by_cases named : name = []
  · rw [named]
    exact fits
  · rw [bumpName_eq visit m named now some_]
    exact fits.put some_ visit named _

variable {w : Writer}

theorem Writer.Bounded.profile (bounded : w.Bounded) (call : Call) (kind : Kind) :
    Fits [] maxNamesPerClient ((w.profile trimSpace call).names kind) := by
  rw [names_profile]
  cases found : w.clients.lookup (call.key trimSpace) with
  | none => exact fits_empty [] maxNamesPerClient
  | some c => exact bounded.names _ c found kind

/-- The names of all clients behind an accepted call. -/
theorem global_record (w : Writer) (accepted : call.Accepted) (kind : Kind) :
    (w.record toLower trimSpace call).global kind =
      call.bumpGlobal toLower trimSpace kind (w.global kind) := by
  rw [record_accepted w accepted]
  cases kind <;> rfl

theorem Writer.Bounded.record (bounded : w.Bounded) (call : Call) :
    (w.record toLower trimSpace call).Bounded := by
  by_cases accepted : call.Accepted
  · refine ⟨?_, ?_, ?_⟩
    · rw [record_accepted w accepted]
      exact bounded.clients.put (by decide) _ (clientKey_ne_nil _ _) _
    · intro key c found kind
      rw [record_accepted w accepted] at found
      by_cases here : key = call.key trimSpace
      · rw [here, lookup_put_self] at found
        cases found
        rw [names_counted]
        split
        · exact fits_bumpName (bounded.profile call kind) (by decide) _ _ _
        · exact bounded.profile call kind
      · rcases lookup_put_other bounded.clients.usable
          (by decide : 0 < maxClients) here with same | gone
        · rw [same] at found
          exact bounded.names key c found kind
        · rw [gone.1] at found
          cases found
    · intro kind
      rw [global_record w accepted, Call.bumpGlobal]
      split
      · exact fits_bumpName (bounded.global kind) (by decide) _ _ _
      · exact bounded.global kind
  · rw [record_ignored w accepted]
    exact bounded

theorem host_mem_bumpName (visit : Visit Bytes) (m : Map Bytes NameStat)
    {host : Bytes} (named : host ≠ []) (now : Int) (some_ : 0 < limit) :
    host ∈ bumpName visit m host now limit := by
  rw [bumpName_eq visit m named now some_]
  apply AList.lookup_isSome.mp
  rw [lookup_put_self]
  rfl

theorem clients_record_self (w : Writer) {call : Call}
    (accepted : call.Accepted) :
    (w.record toLower trimSpace call).clients.lookup (call.key trimSpace) =
      some ((w.profile trimSpace call).counted call
        (call.host toLower trimSpace)) := by
  rw [record_accepted w accepted]
  exact lookup_put_self

theorem Writer.Bounded.clients_record_other (bounded : w.Bounded)
    (accepted : call.Accepted) {key : Bytes} (other : key ≠ call.key trimSpace) :
    (w.record toLower trimSpace call).clients.lookup key =
        w.clients.lookup key ∨
      (w.record toLower trimSpace call).clients.lookup key = none ∧
        Displaced ClientAgg.lastSeen maxClients w.clients
          (call.key trimSpace) key := by
  rw [record_accepted w accepted]
  exact lookup_put_other bounded.clients.usable (by decide) other

theorem record_holds (w : Writer) (accepted : call.Accepted) :
    (w.record toLower trimSpace call).Holds toLower trimSpace call := by
  refine ⟨⟨_, clients_record_self w accepted, ?_⟩, ?_⟩
  · intro named
    rw [names_counted, if_pos rfl]
    exact host_mem_bumpName _ _ named _ (by decide)
  · intro named
    rw [global_record w accepted, Call.bumpGlobal, if_pos rfl]
    exact host_mem_bumpName _ _ named _ (by decide)

theorem bumpName_drops (fits : Fits [] limit m) (some_ : 0 < limit)
    {visit : Visit Bytes} {host : Bytes} {now : Int} (before : name ∈ m)
    (after : name ∉ bumpName visit m host now limit) :
    Displaced NameStat.lastSeen limit m host name := by
  by_cases named : host = []
  · rw [named] at after
    exact absurd before after
  · have here : name ≠ host := by
      intro same
      rw [same] at after
      exact after (host_mem_bumpName visit m named now some_)
    rw [bumpName_eq visit m named now some_] at after
    rcases lookup_put_other fits.usable some_ here with same | gone
    · have missing := AList.lookup_eq_none.mpr after
      rw [same] at missing
      exact absurd before (AList.lookup_eq_none.mp missing)
    · exact gone.2

variable (toLower trimSpace)

/-- What a call drops from the tables: the oldest entry of one that is full,
for a key that is new in it. -/
structure DropsOldest (w : Writer) (call : Call) : Prop where
  client : ∀ key, key ∈ w.clients →
    key ∉ (w.record toLower trimSpace call).clients →
      Displaced ClientAgg.lastSeen maxClients w.clients (call.key trimSpace) key
  name : ∀ key c c', w.clients.lookup key = some c →
    (w.record toLower trimSpace call).clients.lookup key = some c' →
    ∀ kind name, name ∈ c.names kind → name ∉ c'.names kind →
      key = call.key trimSpace ∧ kind = call.kind ∧
        Displaced NameStat.lastSeen maxNamesPerClient (c.names kind)
          (call.host toLower trimSpace) name
  global : ∀ kind name, name ∈ w.global kind →
    name ∉ (w.record toLower trimSpace call).global kind →
      kind = call.kind ∧
        Displaced NameStat.lastSeen maxGlobalNames (w.global kind)
          (call.host toLower trimSpace) name

variable {toLower trimSpace}

theorem Writer.Bounded.dropsOldest (bounded : w.Bounded) (call : Call) :
    DropsOldest toLower trimSpace w call := by
  by_cases accepted : call.Accepted
  · refine ⟨?_, ?_, ?_⟩
    · intro key before after
      have missing := AList.lookup_eq_none.mpr after
      have here : key ≠ call.key trimSpace := by
        intro same
        rw [same, clients_record_self w accepted] at missing
        cases missing
      rcases bounded.clients_record_other accepted here with same | gone
      · rw [same] at missing
        exact absurd before (AList.lookup_eq_none.mp missing)
      · exact gone.2
    · intro key c c' found found' kind name before after
      by_cases here : key = call.key trimSpace
      · rw [here] at found found'
        rw [clients_record_self w accepted] at found'
        cases found'
        have names : (w.profile trimSpace call).names kind = c.names kind := by
          rw [names_profile, found]
          rfl
        rw [names_counted, names] at after
        by_cases same : call.kind = kind
        · rw [if_pos same] at after
          exact ⟨here, same.symm,
            bumpName_drops (bounded.names _ c found kind) (by decide) before
              after⟩
        · rw [if_neg same] at after
          exact absurd before after
      · rcases bounded.clients_record_other accepted here with same | gone
        · rw [same, found] at found'
          cases found'
          exact absurd before after
        · rw [gone.1] at found'
          cases found'
    · intro kind name before after
      rw [global_record w accepted, Call.bumpGlobal] at after
      by_cases same : call.kind = kind
      · rw [if_pos same] at after
        exact ⟨same.symm,
          bumpName_drops (bounded.global kind) (by decide) before after⟩
      · rw [if_neg same] at after
        exact absurd before after
  · have same := @record_ignored toLower trimSpace w call accepted
    refine ⟨?_, ?_, ?_⟩
    · intro key before after
      rw [same] at after
      exact absurd before after
    · intro key c c' found found' kind name before after
      rw [same, found] at found'
      cases found'
      exact absurd before after
    · intro kind name before after
      rw [same] at after
      exact absurd before after

/-- The entry of a name in a profile. -/
def Writer.clientName (key : Bytes) (kind : Kind) (name : Bytes) (w : Writer) :
    Option NameStat :=
  (w.clients.lookup key).bind fun c => (c.names kind).lookup name

/-- The entry of a name in the names of all clients. -/
def Writer.globalName (kind : Kind) (name : Bytes) (w : Writer) :
    Option NameStat :=
  (w.global kind).lookup name

variable (toLower trimSpace)

/-- The call is a record of a name. -/
def Call.recordsName (kind : Kind) (name : Bytes) (call : Call) : Bool :=
  call.Accepted ∧ call.kind = kind ∧ call.host toLower trimSpace = name

/-- The call is a record of a name for the client under a key. -/
def Call.recordsFor (key : Bytes) (kind : Kind) (name : Bytes) (call : Call) :
    Bool :=
  call.recordsName toLower trimSpace kind name ∧ call.key trimSpace = key

variable {toLower trimSpace}

theorem lookup_bumpName_self (visit : Visit Bytes) (m : Map Bytes NameStat)
    {host : Bytes} (named : host ≠ []) (now : Int) (some_ : 0 < limit) :
    (bumpName visit m host now limit).lookup host =
      some ⟨(m.lookup host).elim 1 fun st => st.count + 1, now⟩ := by
  rw [bumpName_eq visit m named now some_]
  exact lookup_put_self

theorem lookup_bumpName_other (fits : Fits [] limit m) (some_ : 0 < limit)
    (visit : Visit Bytes) {host : Bytes} (other : host ≠ name) (now : Int) :
    (bumpName visit m host now limit).lookup name = m.lookup name ∨
      (bumpName visit m host now limit).lookup name = none := by
  by_cases named : host = []
  · rw [named]
    exact .inl rfl
  · rw [bumpName_eq visit m named now some_]
    exact (lookup_put_other fits.usable some_ other.symm).imp_right And.left

theorem Writer.Bounded.counted_global (bounded : w.Bounded) {kind : Kind}
    (named : name ≠ []) (call : Call) :
    Tallies.Counted (Writer.record toLower trimSpace)
      (Writer.globalName kind name) (Call.recordsName toLower trimSpace kind name)
      NameStat.count w call where
  hit := by
    intro hit
    obtain ⟨accepted, rfl, rfl⟩ := of_decide_eq_true hit
    refine ⟨⟨(w.globalName call.kind (call.host toLower trimSpace)).elim 1
      fun st => st.count + 1, call.now⟩, ?_, rfl⟩
    rw [Writer.globalName, global_record w accepted, Call.bumpGlobal,
      if_pos rfl]
    exact lookup_bumpName_self _ _ named _ (by decide)
  miss := by
    intro miss
    rw [Writer.globalName]
    by_cases accepted : call.Accepted
    · rw [global_record w accepted, Call.bumpGlobal]
      split
      · rename_i same
        have other : call.host toLower trimSpace ≠ name :=
          fun here => of_decide_eq_false miss ⟨accepted, same, here⟩
        exact lookup_bumpName_other (bounded.global kind) (by decide) _ other _
      · exact .inl rfl
    · rw [record_ignored w accepted]
      exact .inl rfl

theorem Writer.Bounded.counted_client (bounded : w.Bounded) {key : Bytes}
    {kind : Kind} (named : name ≠ []) (call : Call) :
    Tallies.Counted (Writer.record toLower trimSpace)
      (Writer.clientName key kind name)
      (Call.recordsFor toLower trimSpace key kind name)
      NameStat.count w call where
  hit := by
    intro hit
    obtain ⟨recorded, rfl⟩ := of_decide_eq_true hit
    obtain ⟨accepted, rfl, rfl⟩ := of_decide_eq_true recorded
    have before : ((w.profile trimSpace call).names call.kind).lookup
        (call.host toLower trimSpace) = w.clientName (call.key trimSpace)
          call.kind (call.host toLower trimSpace) := by
      rw [names_profile, Writer.clientName]
      cases w.clients.lookup (call.key trimSpace) with
      | some c => rfl
      | none => rfl
    refine ⟨⟨(w.clientName (call.key trimSpace) call.kind
      (call.host toLower trimSpace)).elim 1 fun st => st.count + 1, call.now⟩,
      ?_, rfl⟩
    rw [Writer.clientName, clients_record_self w accepted, Option.bind_some,
      names_counted, if_pos rfl, ← before]
    exact lookup_bumpName_self _ _ named _ (by decide)
  miss := by
    intro miss
    by_cases accepted : call.Accepted
    · by_cases here : call.key trimSpace = key
      · subst here
        have before : ((w.profile trimSpace call).names kind).lookup name =
            w.clientName (call.key trimSpace) kind name := by
          rw [names_profile, Writer.clientName]
          cases w.clients.lookup (call.key trimSpace) with
          | some c => rfl
          | none => rfl
        rw [← before, Writer.clientName, clients_record_self w accepted,
          Option.bind_some, names_counted]
        split
        · rename_i same
          have other : call.host toLower trimSpace ≠ name :=
            fun hit => of_decide_eq_false miss
              ⟨decide_eq_true ⟨accepted, same, hit⟩, rfl⟩
          exact lookup_bumpName_other (bounded.profile call kind) (by decide) _
            other _
        · exact .inl rfl
      · rw [Writer.clientName]
        rcases bounded.clients_record_other accepted (Ne.symm here) with
          same | gone
        · rw [same]
          exact .inl rfl
        · rw [gone.1]
          exact .inr rfl
    · rw [record_ignored w accepted]
      exact .inl rfl

/-- Over every run, with any arguments, times and orders of visit: the tables
keep their limits, an accepted call leaves its client and its name in them and
drops only the oldest entry of a table that is full, and the counter of a name
is the number of its records since it came into its table. -/
theorem writer_tables (toLower trimSpace : Bytes → Bytes) (calls : List Call) :
    (∀ w ∈ Runs.visited (Writer.record toLower trimSpace) {} calls,
      w.Bounded ∧ ∀ call,
        (call.Accepted →
          (w.record toLower trimSpace call).Holds toLower trimSpace call) ∧
        DropsOldest toLower trimSpace w call) ∧
    (∀ key kind name stat,
      (calls.foldl (Writer.record toLower trimSpace) {}).clientName key kind
          name = some stat →
        ∃ n, Tallies.HitsSince (Writer.record toLower trimSpace)
            (Writer.clientName key kind name)
            (Call.recordsFor toLower trimSpace key kind name) {} calls n ∧
          stat.count = UInt64.ofNat n) ∧
    ∀ kind name stat,
      (calls.foldl (Writer.record toLower trimSpace) {}).globalName kind name =
          some stat →
        ∃ n, Tallies.HitsSince (Writer.record toLower trimSpace)
            (Writer.globalName kind name)
            (Call.recordsName toLower trimSpace kind name) {} calls n ∧
          stat.count = UInt64.ofNat n := by
  have always := @Runs.visited_induction _ _ (Writer.record toLower trimSpace)
    Writer.Bounded (fun w call bounded => bounded.record call) _ bounded_empty
    calls
  have final := always _ (Runs.mem_visited_final _ _)
  refine ⟨?_, ?_, ?_⟩
  · intro w member
    have bounded := always w member
    exact ⟨bounded, fun call =>
      ⟨record_holds w, bounded.dropsOldest call⟩⟩
  · intro key kind name stat found
    have named : name ≠ [] := by
      rintro rfl
      obtain ⟨c, client, here⟩ := Option.bind_eq_some_iff.mp found
      rw [AList.lookup_eq_none.mpr (final.names key c client kind).usable]
        at here
      cases here
    exact Tallies.count_hitsSince Writer.Bounded
      (fun w call bounded => bounded.record call)
      (fun w call bounded => bounded.counted_client named call) bounded_empty
      rfl found
  · intro kind name stat found
    have named : name ≠ [] := by
      rintro rfl
      rw [Writer.globalName, AList.lookup_eq_none.mpr (final.global kind).usable]
        at found
      cases found
    have absent : Writer.globalName kind name {} = none := by
      cases kind with
      | dns => rfl
      | tls => rfl
    exact Tallies.count_hitsSince Writer.Bounded
      (fun w call bounded => bounded.record call)
      (fun w call bounded => bounded.counted_global named call) bounded_empty
      absent found

end

end Dpid
