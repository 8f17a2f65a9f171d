import Hnc.Httpd.RateLimitInvariant
import Hnc.Httpd.RateLimit

/-!
# The linked rate limiter refines the rate limiter by IPs

`Httpd.RateLimiter` keeps the entries under their IPs and lists the IPs.  As
long as the map and the list agree, the limiter with elements answers every call
as that one does.
-/

namespace Httpd.Linked

open Posix
open KeyMap

/-- The limiter by IPs with the answers to its calls. -/
def answered (rl : Httpd.RateLimiter) (now : Int) :
    Call → Httpd.RateLimiter × Answer
  | .checkPinVerify ip =>
      let (rl, allowed, retryAfter) := rl.checkPinVerify ip now
      (rl, .pinVerify allowed retryAfter)
  | .registerPinFail ip =>
      let (rl, locked, remaining) := rl.registerPinFail ip now
      (rl, .pinFail locked remaining)
  | .resetPin ip => (rl.resetPin ip, .reset)
  | .checkUnauth ip =>
      let (rl, allowed, retryAfter) := rl.checkUnauth ip now
      (rl, .unauth allowed retryAfter)
  | .gc => (rl.gc now, .collected)

/-- `rl` is what the elements say. -/
structure Views (linked : RateLimiter) (rl : Httpd.RateLimiter) : Prop where
  entries : ∀ ip, rl.entries.lookup ip =
    (linked.entries.lookup ip).map linked.entryOf
  lru : rl.lru = linked.lru.map linked.ipOf
  globalTokens : rl.globalTokens = linked.globalTokens
  globalLastRefill : rl.globalLastRefill = linked.globalLastRefill

theorem map_erase_of_injOn {α β : Type} [BEq α] [LawfulBEq α] [BEq β]
    [LawfulBEq β] (f : α → β) {a : α} {list : List α}
    (injective : ∀ b ∈ list, f b = f a → b = a) :
    (list.erase a).map f = (list.map f).erase (f a) := by
  induction list with
  | nil => rfl
  | cons b rest induction =>
      by_cases same : b = a
      · subst same
        simp
      · have different : f b ≠ f a := fun equal =>
          same (injective b (by simp) equal)
        rw [List.erase_cons_tail (by simpa using same), List.map_cons,
          List.map_cons, List.erase_cons_tail (by simpa using different),
          induction fun c member => injective c (by simp [member])]

namespace Views

open Httpd.RateLimiter (newEntry)

variable {linked : RateLimiter} {rl : Httpd.RateLimiter} {now : Int}

theorem start (now : Int) :
    Views (.newRateLimiter now) (.newRateLimiter now) :=
  ⟨fun _ => rfl, rfl, rfl, rfl⟩

variable {elem : Element}

theorem lookup_ipOf (views : Views linked rl) (coherent : Coherent linked now)
    (member : elem ∈ linked.lru) :
    rl.entries.lookup (linked.ipOf elem) = some (linked.entryOf elem) := by
  rw [views.entries, coherent.mapped elem member]
  rfl

theorem setEntry (views : Views linked rl) (coherent : Coherent linked now)
    (member : elem ∈ linked.lru) (entry : RlEntry) :
    Views (linked.setEntry elem entry)
      (rl.setEntry (linked.ipOf elem) entry) := by
  constructor
  case entries =>
    intro ip
    rw [Httpd.RateLimiter.lookup_setEntry, RateLimiter.entries_setEntry]
    by_cases own : ip = linked.ipOf elem
    · subst own
      rw [if_pos rfl, coherent.mapped elem member, Option.map_some,
        RateLimiter.entryOf_setEntry, if_pos rfl]
    · rw [if_neg own, views.entries]
      cases found : linked.entries.lookup ip with
      | none => rfl
      | some other =>
          have different : other ≠ elem := by
            rintro rfl
            exact own (coherent.listed ip other found).2.symm
          rw [Option.map_some, Option.map_some, RateLimiter.entryOf_setEntry,
            if_neg different]
  case lru =>
    have same : (linked.setEntry elem entry).ipOf = linked.ipOf := by
      funext other
      exact RateLimiter.ipOf_setEntry ..
    rw [same]
    exact views.lru
  case globalTokens => exact views.globalTokens
  case globalLastRefill => exact views.globalLastRefill

theorem moveToFront (views : Views linked rl) (member : elem ∈ linked.lru)
    (unique : ∀ other ∈ linked.lru, linked.ipOf other = linked.ipOf elem → other = elem) :
    Views (linked.moveToFront elem)
      { rl with
        lru := linked.ipOf elem :: rl.lru.erase (linked.ipOf elem) } := by
  have moved : (linked.moveToFront elem).lru = elem :: linked.lru.erase elem :=
    if_pos member
  refine ⟨views.entries, ?_, views.globalTokens, views.globalLastRefill⟩
  rw [moved, views.lru, ← map_erase_of_injOn _ unique]
  rfl

theorem remove (views : Views linked rl) (coherent : Coherent linked now)
    (member : elem ∈ linked.lru) :
    Views (linked.remove elem) (rl.remove (linked.ipOf elem)) := by
  refine ⟨?_, ?_, views.globalTokens, views.globalLastRefill⟩
  · intro ip
    have erased : (linked.remove elem).entries.lookup ip =
        if ip = linked.ipOf elem then none else linked.entries.lookup ip :=
      lookup_erase_eq linked.entries ip (linked.ipOf elem)
    rw [Httpd.RateLimiter.lookup_remove, erased]
    split
    · rfl
    · exact views.entries ip
  · have erased : (linked.lru.erase elem).map linked.ipOf =
        (linked.lru.map linked.ipOf).erase (linked.ipOf elem) :=
      map_erase_of_injOn linked.ipOf fun other inside same =>
        coherent.elem_eq inside member same
    show rl.lru.erase (linked.ipOf elem) =
      (linked.lru.erase elem).map linked.ipOf
    rw [views.lru, erased]

theorem foldl_remove {elems : List Element} (views : Views linked rl)
    (coherent : Coherent linked now) (nodup : elems.Nodup)
    (members : ∀ elem ∈ elems, elem ∈ linked.lru) :
    Views (elems.foldl RateLimiter.remove linked)
      ((elems.map linked.ipOf).foldl Httpd.RateLimiter.remove rl) := by
  induction elems generalizing linked rl with
  | nil => exact views
  | cons first rest induction =>
      obtain ⟨fresh, restNodup⟩ := List.nodup_cons.mp nodup
      have member := members first (by simp)
      apply induction (views.remove coherent member)
        (coherent.remove member) restNodup
      intro elem later
      apply coherent.nodup.mem_erase_iff.mpr
      refine ⟨?_, members elem (by simp [later])⟩
      rintro rfl
      exact fresh later

section

variable (views : Views linked rl) (coherent : Coherent linked now)
include views coherent

/-- A test of entries selects the same ones on both sides. -/
theorem filter_lru (test : RlEntry → Bool) :
    rl.lru.reverse.filter (fun ip => (rl.entries.lookup ip).any test) =
      (linked.lru.reverse.filter fun elem => test (linked.entryOf elem)).map
        linked.ipOf := by
  rw [views.lru, ← List.map_reverse, List.filter_map]
  congr 1
  apply List.filter_congr
  intro elem member
  rw [Function.comp_apply,
    views.lookup_ipOf coherent (List.mem_reverse.mp member)]
  rfl

theorem gc :
    Views (linked.gc now) (rl.gc now) := by
  have same : rl.victims now = (linked.victims now).map linked.ipOf :=
    views.filter_lru coherent fun entry =>
      !decide (entry.pinLockTS > now) &&
        decide (now - entry.lastSeen > rlEntryTTL)
  rw [Httpd.RateLimiter.gc, same]
  apply views.foldl_remove coherent
  · exact (List.nodup_reverse.mpr coherent.nodup).filter _
  · intro elem victim
    exact List.mem_reverse.mp (List.mem_filter.mp victim).1

theorem oldestUnlocked :
    rl.oldestUnlocked now =
      (linked.lru.reverse.find? fun elem =>
        decide ((linked.entryOf elem).pinLockTS ≤ now)).map linked.ipOf := by
  have first := congrArg List.head?
    (views.filter_lru coherent fun entry => decide (entry.pinLockTS ≤ now))
  rw [List.head?_filter, List.head?_map, List.head?_filter] at first
  exact first

/-- Making room succeeds on both sides or on neither. -/
theorem room :
    (linked.room now = none ∧ rl.room now = none) ∨
      ∃ linked' rl', linked.room now = some linked' ∧
        rl.room now = some rl' ∧ Views linked' rl' := by
  have length : rl.lru.length = linked.lru.length := by
    rw [views.lru, List.length_map]
  unfold RateLimiter.room Httpd.RateLimiter.room
  rw [length]
  by_cases full : rlMaxEntries ≤ linked.lru.length
  · rw [if_pos full, if_pos full, RateLimiter.evictOldestLocked,
      Httpd.RateLimiter.evictOldestLocked, views.oldestUnlocked coherent]
    cases oldest : linked.lru.reverse.find? fun elem =>
        decide ((linked.entryOf elem).pinLockTS ≤ now) with
    | none => exact .inl ⟨rfl, rfl⟩
    | some victim =>
        have member : victim ∈ linked.lru :=
          List.mem_reverse.mp (List.mem_of_find?_eq_some oldest)
        exact .inr ⟨_, _, rfl, rfl, views.remove coherent member⟩
  · rw [if_neg full, if_neg full]
    exact .inr ⟨linked, rl, rfl, rfl, views⟩

theorem pushFront (ip : Text) (entry : RlEntry) :
    Views (linked.pushFront ⟨ip, entry⟩)
      { rl.setEntry ip entry with lru := ip :: rl.lru } := by
  have old : ∀ elem ∈ linked.lru,
      (linked.pushFront ⟨ip, entry⟩).nodes elem = linked.nodes elem := by
    intro elem member
    have below := coherent.allocated elem member
    rw [RateLimiter.nodes_pushFront, if_neg (Nat.ne_of_lt below)]
  have new : (linked.pushFront ⟨ip, entry⟩).nodes linked.allocated =
      ⟨ip, entry⟩ := by
    rw [RateLimiter.nodes_pushFront, if_pos rfl]
  refine ⟨?_, ?_, views.globalTokens, views.globalLastRefill⟩
  · intro key
    have inserted : (linked.pushFront ⟨ip, entry⟩).entries.lookup key =
        if key = ip then some linked.allocated
        else linked.entries.lookup key :=
      lookup_insert_eq linked.entries key ip linked.allocated
    have stored := Httpd.RateLimiter.lookup_setEntry rl ip key entry
    refine Eq.trans stored ?_
    rw [inserted]
    split
    · rw [Option.map_some, RateLimiter.entryOf, new]
    · rw [views.entries]
      cases found : linked.entries.lookup key with
      | none => rfl
      | some elem =>
          rw [Option.map_some, Option.map_some, RateLimiter.entryOf,
            RateLimiter.entryOf, old elem (coherent.listed key elem found).1]
  · show ip :: rl.lru = (linked.pushFront ⟨ip, entry⟩).ipOf linked.allocated ::
      linked.lru.map (linked.pushFront ⟨ip, entry⟩).ipOf
    have front : (linked.pushFront ⟨ip, entry⟩).ipOf linked.allocated = ip := by
      rw [RateLimiter.ipOf, new]
    rw [front, views.lru]
    congr 1
    apply List.map_congr_left
    intro elem member
    rw [RateLimiter.ipOf, RateLimiter.ipOf, old elem member]

theorem getOrCreate (ip : Text) :
    (linked.getOrCreate ip now = none ∧ rl.getOrCreate ip now = none) ∨
      ∃ linked' elem rl', linked.getOrCreate ip now = some (linked', elem) ∧
        rl.getOrCreate ip now = some (rl', linked'.entryOf elem) ∧
        Views linked' rl' ∧ linked'.ipOf elem = ip := by
  unfold RateLimiter.getOrCreate
  cases found : linked.entries.lookup ip with
  | some elem =>
      obtain ⟨member, rfl⟩ := coherent.listed ip elem found
      have known : rl.entries.lookup (linked.ipOf elem) =
          some (linked.entryOf elem) := views.lookup_ipOf coherent member
      have written := views.setEntry coherent member
        { linked.entryOf elem with lastSeen := now }
      have moved := written.moveToFront member (by
        intro other inside same
        rw [RateLimiter.ipOf_setEntry, RateLimiter.ipOf_setEntry] at same
        exact coherent.elem_eq inside member same)
      rw [RateLimiter.ipOf_setEntry] at moved
      have entry : ((linked.moveToFront elem).setEntry elem
          { (linked.moveToFront elem).entryOf elem with
            lastSeen := now }).entryOf elem =
          { linked.entryOf elem with lastSeen := now } := by
        rw [RateLimiter.entryOf_setEntry, if_pos rfl]
        rfl
      right
      refine ⟨_, elem, _, rfl, ?_, moved, RateLimiter.ipOf_setEntry ..⟩
      rw [Httpd.RateLimiter.getOrCreate_of_found known, entry]
      rfl
  | none =>
      have unknown : rl.entries.lookup ip = none := by
        rw [views.entries, found]
        rfl
      simp only [Httpd.RateLimiter.getOrCreate, unknown]
      rcases views.room coherent with ⟨left, right⟩ |
        ⟨linked', rl', left, right, roomy⟩
      · exact .inl ⟨by rw [left]; rfl, by rw [right]; rfl⟩
      · obtain ⟨roomyCoherent, _, _, _⟩ :=
          RateLimiter.room_keeps coherent left
        have new : (linked'.pushFront ⟨ip, newEntry now⟩).nodes
            linked'.allocated = ⟨ip, newEntry now⟩ := by
          rw [RateLimiter.nodes_pushFront, if_pos rfl]
        right
        refine ⟨_, _, _, by rw [left]; rfl, ?_,
          roomy.pushFront roomyCoherent ip (newEntry now), ?_⟩
        · rw [right, RateLimiter.entryOf, new]
          rfl
        · rw [RateLimiter.ipOf, new]

theorem resetPin (ip : Text) : Views (linked.resetPin ip) (rl.resetPin ip) := by
  unfold RateLimiter.resetPin Httpd.RateLimiter.resetPin
  cases found : linked.entries.lookup ip with
  | none =>
      have unknown : rl.entries.lookup ip = none := by
        rw [views.entries, found]
        rfl
      rw [unknown]
      exact views
  | some elem =>
      obtain ⟨member, rfl⟩ := coherent.listed ip elem found
      rw [views.lookup_ipOf coherent member]
      exact views.setEntry coherent member _

end

end Views

theorem apply_views {linked : RateLimiter} {rl : Httpd.RateLimiter}
    {now : Int} (views : Views linked rl) (coherent : Coherent linked now)
    (call : Call) :
    Views (apply linked now call).1 (answered rl now call).1 ∧
      (apply linked now call).2 = (answered rl now call).2 := by
  cases call with
  | resetPin ip => exact ⟨views.resetPin coherent ip, rfl⟩
  | gc => exact ⟨views.gc coherent, rfl⟩
  | checkPinVerify ip =>
      simp only [apply, answered, RateLimiter.checkPinVerify,
        Httpd.RateLimiter.checkPinVerify]
      rcases views.getOrCreate coherent ip with ⟨left, right⟩ |
        ⟨linked', elem, rl', left, right, next, _⟩
      · rw [left, right]
        exact ⟨views, rfl⟩
      · rw [left, right]
        dsimp only
        split <;> exact ⟨next, rfl⟩
  | registerPinFail ip =>
      simp only [apply, answered, RateLimiter.registerPinFail,
        Httpd.RateLimiter.registerPinFail]
      rcases views.getOrCreate coherent ip with ⟨left, right⟩ |
        ⟨linked', elem, rl', left, right, next, own⟩
      · rw [left, right]
        exact ⟨views, rfl⟩
      · obtain ⟨final, member, _⟩ :=
          RateLimiter.getOrCreate_keeps coherent left
        rw [left, right]
        subst own
        exact ⟨next.setEntry final member _, rfl⟩
  | checkUnauth ip =>
      simp only [apply, answered, RateLimiter.checkUnauth,
        Httpd.RateLimiter.checkUnauth]
      rcases views.getOrCreate coherent ip with ⟨left, right⟩ |
        ⟨linked', elem, rl', left, right, next, own⟩
      · rw [left, right]
        simp only [views.globalTokens, views.globalLastRefill]
        split
        all_goals exact ⟨⟨views.entries, views.lru, rfl, rfl⟩, rfl⟩
      · obtain ⟨final, member, _⟩ :=
          RateLimiter.getOrCreate_keeps coherent left
        rw [left, right]
        subst own
        dsimp only
        split
        all_goals exact ⟨next.setEntry final member _, rfl⟩

end Httpd.Linked
