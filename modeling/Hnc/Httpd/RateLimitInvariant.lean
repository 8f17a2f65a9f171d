import Hnc.Httpd.RateLimitList

/-!
# The representation invariant of the rate limiter

The invariant holds after every call, and a locked entry goes neither by
eviction nor by `gc`.
-/

namespace Httpd.Linked

open Posix
open KeyMap

/-- The representation invariant in the form the calls keep it, at a time of
the clock. -/
structure Coherent (rl : RateLimiter) (now : Int) : Prop where
  mapped : ∀ elem ∈ rl.lru, rl.entries.lookup (rl.ipOf elem) = some elem
  listed : ∀ ip elem, rl.entries.lookup ip = some elem →
    elem ∈ rl.lru ∧ rl.ipOf elem = ip
  nodup : rl.lru.Nodup
  allocated : ∀ elem ∈ rl.lru, elem < rl.allocated
  capacity : rl.lru.length ≤ rlMaxEntries
  ordered : rl.lru.Pairwise fun front behind =>
    (rl.entryOf behind).lastSeen ≤ (rl.entryOf front).lastSeen
  seen : ∀ elem ∈ rl.lru, (rl.entryOf elem).lastSeen ≤ now
  buckets : ∀ elem ∈ rl.lru, 0 ≤ (rl.entryOf elem).unauthTokens ∧
    (rl.entryOf elem).unauthTokens ≤ rlUnauthCapacity
  global : 0 ≤ rl.globalTokens ∧ rl.globalTokens ≤ rlGlobalCapacity

namespace RateLimiter

open Httpd.RateLimiter (newEntry countFail refill)

@[simp] theorem lru_setEntry (rl : RateLimiter) (elem : Element)
    (entry : RlEntry) : (rl.setEntry elem entry).lru = rl.lru :=
  rfl

@[simp] theorem entries_setEntry (rl : RateLimiter) (elem : Element)
    (entry : RlEntry) : (rl.setEntry elem entry).entries = rl.entries :=
  rfl

@[simp] theorem ipOf_setEntry (rl : RateLimiter) (elem other : Element)
    (entry : RlEntry) : (rl.setEntry elem entry).ipOf other = rl.ipOf other := by
  by_cases same : other = elem
  · subst same
    simp [setEntry, ipOf]
  · simp [setEntry, ipOf, same]

@[simp] theorem entryOf_setEntry (rl : RateLimiter) (elem other : Element)
    (entry : RlEntry) :
    (rl.setEntry elem entry).entryOf other =
      if other = elem then entry else rl.entryOf other := by
  by_cases same : other = elem
  · subst same
    simp [setEntry, entryOf]
  · simp [setEntry, entryOf, same]

/-- A new node is at an address that no element of the list has. -/
theorem nodes_pushFront (rl : RateLimiter) (node : Node) (elem : Element) :
    (rl.pushFront node).nodes elem =
      if elem = rl.allocated then node else rl.nodes elem := by
  by_cases same : elem = rl.allocated
  · subst same
    simp [pushFront]
  · simp [pushFront, same]

end RateLimiter

variable {elem : Element}

namespace Coherent

open Httpd.RateLimiter (newEntry countFail refill)

variable {rl : RateLimiter} {now : Int}

theorem later (coherent : Coherent rl now) {next : Int} (le : now ≤ next) :
    Coherent rl next :=
  { coherent with
    seen := fun elem member => Int.le_trans (coherent.seen elem member) le }

theorem elem_eq (coherent : Coherent rl now) {left right : Element}
    (member : left ∈ rl.lru) (other : right ∈ rl.lru)
    (same : rl.ipOf left = rl.ipOf right) : left = right := by
  have found := coherent.mapped left member
  rw [same, coherent.mapped right other] at found
  exact (Option.some.inj found).symm

theorem keys_perm (coherent : Coherent rl now) :
    rl.entries.keys.Perm (rl.lru.map rl.ipOf) := by
  have distinct : (rl.lru.map rl.ipOf).Nodup :=
    coherent.nodup.map_on fun left member right other =>
      coherent.elem_eq member other
  refine (List.perm_ext_iff_of_nodup rl.entries.nodupKeys distinct).mpr ?_
  intro ip
  constructor
  · intro known
    obtain ⟨elem, found⟩ := Option.isSome_iff_exists.mp
      (AList.lookup_isSome.mpr (AList.mem_keys.mp known))
    obtain ⟨member, same⟩ := coherent.listed ip elem found
    exact List.mem_map.mpr ⟨elem, member, same⟩
  · intro listed
    obtain ⟨elem, member, rfl⟩ := List.mem_map.mp listed
    apply AList.mem_keys.mpr
    apply AList.lookup_isSome.mp
    rw [coherent.mapped elem member]
    rfl

theorem representationInvariant (coherent : Coherent rl now) :
    RepresentationInvariant rl where
  mapped := coherent.mapped
  listed := coherent.listed
  distinct := coherent.keys_perm.nodup_iff.mp rl.entries.nodupKeys
  sameSize := by
    rw [coherent.keys_perm.length_eq, List.length_map]
  capacity := coherent.capacity
  ordered := coherent.ordered
  buckets := coherent.buckets
  global := coherent.global

theorem new (now : Int) : Coherent (.newRateLimiter now) now where
  mapped := by simp [RateLimiter.newRateLimiter]
  listed := by simp [RateLimiter.newRateLimiter]
  nodup := List.nodup_nil
  allocated := by simp [RateLimiter.newRateLimiter]
  capacity := by simp [RateLimiter.newRateLimiter]
  ordered := List.Pairwise.nil
  seen := by simp [RateLimiter.newRateLimiter]
  buckets := by simp [RateLimiter.newRateLimiter]
  global := by simp [RateLimiter.newRateLimiter, rlGlobalCapacity]

theorem setEntry (coherent : Coherent rl now) (elem : Element)
    {entry : RlEntry} (sameSeen : entry.lastSeen = (rl.entryOf elem).lastSeen)
    (bucket : 0 ≤ entry.unauthTokens ∧ entry.unauthTokens ≤ rlUnauthCapacity) :
    Coherent (rl.setEntry elem entry) now := by
  have lastSeen : ∀ other, ((rl.setEntry elem entry).entryOf other).lastSeen =
      (rl.entryOf other).lastSeen := by
    intro other
    rw [RateLimiter.entryOf_setEntry]
    split
    · rename_i same
      rw [same, sameSeen]
    · rfl
  constructor
  case mapped =>
    intro other member
    rw [RateLimiter.ipOf_setEntry]
    exact coherent.mapped other member
  case listed =>
    intro ip other found
    rw [RateLimiter.ipOf_setEntry]
    exact coherent.listed ip other found
  case nodup => exact coherent.nodup
  case allocated => exact coherent.allocated
  case capacity => exact coherent.capacity
  case ordered =>
    simpa only [lastSeen, RateLimiter.lru_setEntry] using coherent.ordered
  case seen =>
    simpa only [lastSeen, RateLimiter.lru_setEntry] using coherent.seen
  case buckets =>
    intro other member
    rw [RateLimiter.entryOf_setEntry]
    split
    · exact bucket
    · exact coherent.buckets other member
  case global => exact coherent.global

theorem touch (coherent : Coherent rl now) (member : elem ∈ rl.lru) :
    Coherent ((rl.moveToFront elem).setEntry elem
      { rl.entryOf elem with lastSeen := now }) now := by
  have moved : (rl.moveToFront elem).lru = elem :: rl.lru.erase elem :=
    if_pos member
  have entryOf : ∀ other, (rl.moveToFront elem).entryOf other =
      rl.entryOf other := fun _ => rfl
  have others : ∀ other ∈ rl.lru.erase elem, other ≠ elem ∧ other ∈ rl.lru := by
    intro other behind
    exact ⟨fun same => coherent.nodup.not_mem_erase (same ▸ behind),
      List.mem_of_mem_erase behind⟩
  have members : ∀ other, other ∈ (rl.moveToFront elem).lru ↔
      other ∈ rl.lru := by
    intro other
    rw [moved, List.mem_cons]
    by_cases same : other = elem
    · simp [same, member]
    · simp [same]
  constructor
  case mapped =>
    intro other inside
    rw [RateLimiter.ipOf_setEntry]
    exact coherent.mapped other ((members other).mp inside)
  case listed =>
    intro ip other found
    rw [RateLimiter.ipOf_setEntry]
    obtain ⟨inside, same⟩ := coherent.listed ip other found
    exact ⟨(members other).mpr inside, same⟩
  case nodup =>
    rw [RateLimiter.lru_setEntry, moved]
    exact List.nodup_cons.mpr
      ⟨coherent.nodup.not_mem_erase, coherent.nodup.erase elem⟩
  case allocated =>
    intro other inside
    exact coherent.allocated other ((members other).mp inside)
  case capacity =>
    rw [RateLimiter.lru_setEntry, moved, List.length_cons,
      List.length_erase_of_mem member]
    have nonempty := List.length_pos_of_mem member
    have bound := coherent.capacity
    omega
  case ordered =>
    rw [RateLimiter.lru_setEntry, moved]
    refine List.pairwise_cons.mpr ⟨?_, ?_⟩
    · intro other behind
      simp only [RateLimiter.entryOf_setEntry, (others other behind).1]
      exact coherent.seen other (others other behind).2
    · refine (coherent.ordered.sublist
        (List.erase_sublist ..)).imp_of_mem ?_
      intro front behind frontMember behindMember older
      simpa [(others front frontMember).1, (others behind behindMember).1,
        entryOf] using older
  case seen =>
    intro other inside
    rw [RateLimiter.entryOf_setEntry]
    split
    · exact Int.le_refl now
    · exact coherent.seen other ((members other).mp inside)
  case buckets =>
    intro other inside
    rw [RateLimiter.entryOf_setEntry]
    split
    · exact coherent.buckets elem member
    · exact coherent.buckets other ((members other).mp inside)
  case global => exact coherent.global

theorem remove (coherent : Coherent rl now) (member : elem ∈ rl.lru) :
    Coherent (rl.remove elem) now := by
  have inside : ∀ other, other ∈ (rl.remove elem).lru ↔
      other ≠ elem ∧ other ∈ rl.lru := by
    intro other
    exact coherent.nodup.mem_erase_iff
  constructor
  case mapped =>
    intro other remaining
    obtain ⟨different, known⟩ := (inside other).mp remaining
    have otherIp : rl.ipOf other ≠ rl.ipOf elem := fun same =>
      different (coherent.elem_eq known member same)
    show (rl.entries.erase (rl.ipOf elem)).lookup (rl.ipOf other) = _
    rw [lookup_erase_eq, if_neg otherIp]
    exact coherent.mapped other known
  case listed =>
    intro ip other found
    have stored : (rl.entries.erase (rl.ipOf elem)).lookup ip = some other :=
      found
    rw [lookup_erase_eq] at stored
    split at stored
    · cases stored
    · rename_i otherIp
      obtain ⟨known, same⟩ := coherent.listed ip other stored
      refine ⟨(inside other).mpr ⟨?_, known⟩, same⟩
      intro removed
      exact otherIp (by rw [← same, removed])
  case nodup => exact coherent.nodup.erase elem
  case allocated =>
    intro other remaining
    exact coherent.allocated other ((inside other).mp remaining).2
  case capacity =>
    exact (List.length_erase_le ..).trans coherent.capacity
  case ordered => exact coherent.ordered.sublist (List.erase_sublist ..)
  case seen =>
    intro other remaining
    exact coherent.seen other ((inside other).mp remaining).2
  case buckets =>
    intro other remaining
    exact coherent.buckets other ((inside other).mp remaining).2
  case global => exact coherent.global

theorem pushFront (coherent : Coherent rl now) {ip : Text}
    (unknown : rl.entries.lookup ip = none)
    (space : rl.lru.length < rlMaxEntries) :
    Coherent (rl.pushFront ⟨ip, newEntry now⟩) now := by
  have old : ∀ elem ∈ rl.lru, (rl.pushFront ⟨ip, newEntry now⟩).nodes elem =
      rl.nodes elem := by
    intro elem member
    have below := coherent.allocated elem member
    rw [RateLimiter.nodes_pushFront, if_neg (Nat.ne_of_lt below)]
  have new : (rl.pushFront ⟨ip, newEntry now⟩).nodes rl.allocated =
      ⟨ip, newEntry now⟩ := by
    rw [RateLimiter.nodes_pushFront, if_pos rfl]
  have oldIp : ∀ elem ∈ rl.lru, rl.ipOf elem ≠ ip := by
    intro elem member same
    have found := coherent.mapped elem member
    rw [same, unknown] at found
    cases found
  have oldSeen : ∀ elem ∈ rl.lru,
      ((rl.pushFront ⟨ip, newEntry now⟩).entryOf elem) = rl.entryOf elem := by
    intro elem member
    rw [RateLimiter.entryOf, old elem member]
    rfl
  have newSeen : (rl.pushFront ⟨ip, newEntry now⟩).entryOf rl.allocated =
      newEntry now := by
    rw [RateLimiter.entryOf, new]
  have lookup : ∀ key, (rl.pushFront ⟨ip, newEntry now⟩).entries.lookup key =
      if key = ip then some rl.allocated else rl.entries.lookup key :=
    fun key => lookup_insert_eq rl.entries key ip rl.allocated
  constructor
  case mapped =>
    intro elem member
    rw [lookup, RateLimiter.ipOf]
    rcases List.mem_cons.mp member with rfl | known
    · rw [new, if_pos rfl]
    · rw [old elem known]
      exact (if_neg (oldIp elem known)).trans (coherent.mapped elem known)
  case listed =>
    intro key elem found
    rw [lookup] at found
    split at found
    · rename_i same
      cases found
      refine ⟨List.mem_cons_self, ?_⟩
      rw [RateLimiter.ipOf, new, same]
    · obtain ⟨known, same⟩ := coherent.listed key elem found
      refine ⟨List.mem_cons_of_mem _ known, ?_⟩
      rw [RateLimiter.ipOf, old elem known]
      exact same
  case nodup =>
    refine List.nodup_cons.mpr ⟨?_, coherent.nodup⟩
    intro member
    exact Nat.lt_irrefl _ (coherent.allocated _ member)
  case allocated =>
    intro elem member
    rcases List.mem_cons.mp member with rfl | known
    · exact Nat.lt_succ_self _
    · exact Nat.lt_succ_of_lt (coherent.allocated elem known)
  case capacity => exact space
  case ordered =>
    refine List.pairwise_cons.mpr ⟨?_, ?_⟩
    · intro elem member
      rw [oldSeen elem member, newSeen]
      exact coherent.seen elem member
    · refine coherent.ordered.imp_of_mem ?_
      intro front behind frontMember behindMember older
      rw [oldSeen front frontMember, oldSeen behind behindMember]
      exact older
  case seen =>
    intro elem member
    rcases List.mem_cons.mp member with rfl | known
    · rw [newSeen]
      exact Int.le_refl now
    · rw [oldSeen elem known]
      exact coherent.seen elem known
  case buckets =>
    intro elem member
    rcases List.mem_cons.mp member with rfl | known
    · rw [newSeen]
      simp [newEntry, rlUnauthCapacity]
    · rw [oldSeen elem known]
      exact coherent.buckets elem known
  case global => exact coherent.global

end Coherent

/-! ### What a call keeps -/

/-- The locked elements of `old` are elements of `new`, with their IPs. -/
def KeepsElements (old new : RateLimiter) (now : Int) : Prop :=
  ∀ elem ∈ old.lru, (old.entryOf elem).pinLockTS > now →
    elem ∈ new.lru ∧ new.ipOf elem = old.ipOf elem

theorem Coherent.keepsLocked {old new : RateLimiter} {now : Int}
    (coherent : Coherent new now) (keeps : KeepsElements old new now) :
    KeepsLocked old new now := by
  intro elem member locked
  obtain ⟨kept, sameIp⟩ := keeps elem member locked
  refine ⟨kept, ?_⟩
  rw [← sameIp]
  exact coherent.mapped elem kept

namespace RateLimiter

open Httpd.RateLimiter (newEntry countFail refill)

variable {rl : RateLimiter} {now : Int}

/-- Removing elements of the list one after another. -/
theorem coherent_foldl_remove (coherent : Coherent rl now)
    {elems : List Element} (nodup : elems.Nodup)
    (members : ∀ elem ∈ elems, elem ∈ rl.lru) :
    Coherent (elems.foldl remove rl) now ∧
      ∀ elem ∈ rl.lru, elem ∉ elems → elem ∈ (elems.foldl remove rl).lru := by
  induction elems generalizing rl with
  | nil => exact ⟨coherent, fun elem member _ => member⟩
  | cons first rest induction =>
      obtain ⟨fresh, restNodup⟩ := List.nodup_cons.mp nodup
      have removed := coherent.remove (members first (by simp))
      have inside : ∀ elem, elem ≠ first → elem ∈ rl.lru →
          elem ∈ (rl.remove first).lru := fun elem different member =>
        coherent.nodup.mem_erase_iff.mpr ⟨different, member⟩
      obtain ⟨final, kept⟩ := induction removed restNodup (by
        intro elem member
        apply inside elem
        · rintro rfl
          exact fresh member
        · exact members elem (by simp [member]))
      refine ⟨final, ?_⟩
      intro elem member absent
      obtain ⟨different, later⟩ := not_or.mp (mt List.mem_cons.mpr absent)
      exact kept elem (inside elem different member) later

theorem ipOf_foldl_remove (elems : List Element) (elem : Element) :
    (elems.foldl remove rl).ipOf elem = rl.ipOf elem := by
  induction elems generalizing rl with
  | nil => rfl
  | cons first rest induction =>
      rw [List.foldl_cons, induction]
      rfl

theorem gc_keeps (coherent : Coherent rl now) :
    Coherent (rl.gc now) now ∧ KeepsElements rl (rl.gc now) now := by
  have nodup : (rl.victims now).Nodup :=
    (List.nodup_reverse.mpr coherent.nodup).filter _
  have members : ∀ elem ∈ rl.victims now, elem ∈ rl.lru := fun elem victim =>
    List.mem_reverse.mp (List.mem_filter.mp victim).1
  obtain ⟨final, kept⟩ := coherent_foldl_remove coherent nodup members
  refine ⟨final, ?_⟩
  intro elem member locked
  refine ⟨kept elem member ?_, ipOf_foldl_remove _ elem⟩
  intro victim
  have unlocked := (List.mem_filter.mp victim).2
  simp [locked] at unlocked

/-- Room for one more entry is made at the cost of an unlocked one. -/
theorem room_keeps (coherent : Coherent rl now) {roomy : RateLimiter}
    (made : rl.room now = some roomy) :
    Coherent roomy now ∧ roomy.lru.length < rlMaxEntries ∧
      (∀ ip, rl.entries.lookup ip = none → roomy.entries.lookup ip = none) ∧
      KeepsElements rl roomy now := by
  unfold room at made
  split at made
  · simp only [evictOldestLocked, Option.map_eq_some_iff] at made
    obtain ⟨victim, oldest, rfl⟩ := made
    have member : victim ∈ rl.lru :=
      List.mem_reverse.mp (List.mem_of_find?_eq_some oldest)
    have unlocked : (rl.entryOf victim).pinLockTS ≤ now := by
      simpa using List.find?_some oldest
    refine ⟨coherent.remove member, ?_, ?_, ?_⟩
    · have shorter : (rl.remove victim).lru.length = rl.lru.length - 1 :=
        List.length_erase_of_mem member
      have nonempty := List.length_pos_of_mem member
      have bound := coherent.capacity
      omega
    · intro ip unknown
      show (rl.entries.erase (rl.ipOf victim)).lookup ip = none
      rw [lookup_erase_eq, unknown, ite_self]
    · intro elem known locked
      refine ⟨coherent.nodup.mem_erase_iff.mpr ⟨?_, known⟩, rfl⟩
      rintro rfl
      omega
  · cases made
    exact ⟨coherent, by omega, fun _ unknown => unknown,
      fun elem member _ => ⟨member, rfl⟩⟩

theorem getOrCreate_keeps (coherent : Coherent rl now) {ip : Text}
    {rl' : RateLimiter} (got : rl.getOrCreate ip now = some (rl', elem)) :
    Coherent rl' now ∧ elem ∈ rl'.lru ∧ KeepsElements rl rl' now := by
  unfold getOrCreate at got
  split at got
  · rename_i found known
    cases got
    obtain ⟨member, _⟩ := coherent.listed ip elem known
    have moved : (rl.moveToFront elem).lru = elem :: rl.lru.erase elem :=
      if_pos member
    refine ⟨coherent.touch member, ?_, ?_⟩
    · rw [lru_setEntry, moved]
      exact List.mem_cons_self
    · intro other inside _
      refine ⟨?_, ipOf_setEntry ..⟩
      rw [lru_setEntry, moved, List.mem_cons, coherent.nodup.mem_erase_iff]
      by_cases same : other = elem
      · exact .inl same
      · exact .inr ⟨same, inside⟩
  · rename_i unknown
    simp only [Option.map_eq_some_iff] at got
    obtain ⟨roomy, made, same⟩ := got
    cases same
    obtain ⟨roomyCoherent, space, absent, keeps⟩ := room_keeps coherent made
    refine ⟨roomyCoherent.pushFront (absent ip unknown) space,
      List.mem_cons_self, ?_⟩
    intro other inside locked
    obtain ⟨kept, sameIp⟩ := keeps other inside locked
    refine ⟨List.mem_cons_of_mem _ kept, ?_⟩
    have below := roomyCoherent.allocated other kept
    rw [ipOf, nodes_pushFront, if_neg (Nat.ne_of_lt below)]
    exact sameIp

theorem refill_bounds {tokens capacity : Int} (rate elapsed : Int)
    (bounds : 0 ≤ tokens ∧ tokens ≤ capacity) (positive : 0 ≤ rate) :
    0 ≤ refill tokens elapsed rate capacity ∧
      refill tokens elapsed rate capacity ≤ capacity := by
  unfold refill
  split
  · have gain : 0 ≤ elapsed * rate := Int.mul_nonneg (by omega) positive
    omega
  · exact bounds

theorem lastSeen_countFail (entry : RlEntry) :
    (countFail entry now).lastSeen = entry.lastSeen := by
  unfold countFail
  dsimp only
  repeat' split
  all_goals rfl

theorem unauthTokens_countFail (entry : RlEntry) :
    (countFail entry now).unauthTokens = entry.unauthTokens := by
  unfold countFail
  dsimp only
  repeat' split
  all_goals rfl

end RateLimiter

theorem KeepsElements.setEntry {rl rl' : RateLimiter} {now : Int}
    (keeps : KeepsElements rl rl' now) (elem : Element) (entry : RlEntry) :
    KeepsElements rl (rl'.setEntry elem entry) now := by
  intro other member locked
  obtain ⟨kept, sameIp⟩ := keeps other member locked
  exact ⟨kept, (RateLimiter.ipOf_setEntry ..).trans sameIp⟩

theorem KeepsElements.refl (rl : RateLimiter) (now : Int) :
    KeepsElements rl rl now :=
  fun _ member _ => ⟨member, rfl⟩

namespace RateLimiter

open Httpd.RateLimiter (newEntry countFail refill)

variable {rl : RateLimiter} {now : Int}

section

variable (coherent : Coherent rl now) (ip : Text)
include coherent ip

theorem checkPinVerify_keeps :
    Coherent (rl.checkPinVerify ip now).1 now ∧
      KeepsElements rl (rl.checkPinVerify ip now).1 now := by
  unfold checkPinVerify
  cases got : rl.getOrCreate ip now with
  | none => exact ⟨coherent, .refl rl now⟩
  | some result =>
      obtain ⟨final, _, keeps⟩ := getOrCreate_keeps coherent got
      dsimp only
      split <;> exact ⟨final, keeps⟩

theorem registerPinFail_keeps :
    Coherent (rl.registerPinFail ip now).1 now ∧
      KeepsElements rl (rl.registerPinFail ip now).1 now := by
  unfold registerPinFail
  cases got : rl.getOrCreate ip now with
  | none => exact ⟨coherent, .refl rl now⟩
  | some result =>
      obtain ⟨final, member, keeps⟩ := getOrCreate_keeps coherent got
      refine ⟨final.setEntry result.2 (lastSeen_countFail _) ?_,
        keeps.setEntry _ _⟩
      rw [unauthTokens_countFail]
      exact final.buckets result.2 member

theorem resetPin_keeps :
    Coherent (rl.resetPin ip) now ∧
      KeepsElements rl (rl.resetPin ip) now := by
  unfold resetPin
  split
  · exact ⟨coherent, .refl rl now⟩
  · rename_i elem known
    obtain ⟨member, _⟩ := coherent.listed ip elem known
    exact ⟨coherent.setEntry elem rfl (coherent.buckets elem member),
      (KeepsElements.refl rl now).setEntry _ _⟩

theorem checkUnauth_keeps :
    Coherent (rl.checkUnauth ip now).1 now ∧
      KeepsElements rl (rl.checkUnauth ip now).1 now := by
  unfold checkUnauth
  cases got : rl.getOrCreate ip now with
  | none =>
      have filled := refill_bounds rlGlobalRefillRate
        (now - rl.globalLastRefill) coherent.global (by decide)
      dsimp only
      split
      · exact ⟨{ coherent with global := filled }, .refl rl now⟩
      · refine ⟨{ coherent with global := ⟨?_, ?_⟩ }, .refl rl now⟩
        all_goals
          dsimp only
          omega
  | some result =>
      obtain ⟨final, member, keeps⟩ := getOrCreate_keeps coherent got
      have filled := refill_bounds rlUnauthRefillRate
        (now - (result.1.entryOf result.2).unauthLastRefill)
        (final.buckets result.2 member) (by decide)
      dsimp only
      split
      · exact ⟨final.setEntry result.2 rfl filled, keeps.setEntry _ _⟩
      · refine ⟨final.setEntry result.2 rfl ⟨?_, ?_⟩, keeps.setEntry _ _⟩
        all_goals
          dsimp only
          omega

end

end RateLimiter

theorem apply_keeps {rl : RateLimiter} {now : Int}
    (coherent : Coherent rl now) (call : Call) :
    Coherent (apply rl now call).1 now ∧
      KeepsElements rl (apply rl now call).1 now := by
  cases call with
  | checkPinVerify ip => exact RateLimiter.checkPinVerify_keeps coherent ip
  | registerPinFail ip => exact RateLimiter.registerPinFail_keeps coherent ip
  | resetPin ip => exact RateLimiter.resetPin_keeps coherent ip
  | checkUnauth ip => exact RateLimiter.checkUnauth_keeps coherent ip
  | gc => exact RateLimiter.gc_keeps coherent

namespace Limiter

theorem step_keeps {limiter : Limiter} (timed : TimedCall)
    (coherent : Coherent limiter.rl limiter.now) :
    Coherent (limiter.step timed).rl (limiter.step timed).now ∧
      KeepsLocked limiter.rl (limiter.step timed).rl
        (limiter.step timed).now := by
  have le : limiter.now ≤ limiter.now + timed.delay := by omega
  obtain ⟨final, keeps⟩ := apply_keeps (coherent.later le) timed.call
  exact ⟨final, final.keepsLocked keeps⟩

end Limiter

/-- In every run, with any times between the calls, the representation
invariant holds in every state, and whatever call comes next leaves the entries
that are locked at its time where they are. -/
theorem run_representationInvariant (created : Int)
    (calls : List TimedCall) :
    ∀ limiter ∈ Runs.visited Limiter.step (Limiter.start created) calls,
      RepresentationInvariant limiter.rl ∧
      ∀ timed : TimedCall,
        KeepsLocked limiter.rl (limiter.step timed).rl
          (limiter.now + timed.delay) := by
  intro limiter visited
  have coherent : Coherent limiter.rl limiter.now :=
    Runs.visited_induction
      (fun limiter : Limiter => Coherent limiter.rl limiter.now)
      (fun limiter timed coherent => (Limiter.step_keeps timed coherent).1)
      (Coherent.new created) calls limiter visited
  exact ⟨coherent.representationInvariant,
    fun timed => (Limiter.step_keeps timed coherent).2⟩

/-- An address that is locked when the clean-up comes. -/
def lockedAtGc : List TimedCall :=
  List.replicate 5 ⟨1, .registerPinFail "10.0.0.2".toList⟩ ++ [⟨300, .gc⟩]

theorem lockedAtGc_representationInvariant :
    let limiter := lockedAtGc.foldl Limiter.step (Limiter.start 0)
    RepresentationInvariant limiter.rl ∧
      ∀ timed : TimedCall,
        KeepsLocked limiter.rl (limiter.step timed).rl
          (limiter.now + timed.delay) :=
  run_representationInvariant 0 lockedAtGc _ (Runs.mem_visited_final _ _)

end Httpd.Linked
