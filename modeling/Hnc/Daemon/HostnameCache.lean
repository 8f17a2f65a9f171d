import Hnc.Lib.KeyedSlots
import Hnc.Lib.Posix
import Hnc.Lib.Runs
import Mathlib.Data.Int.Order.Basic
import Mathlib.Data.List.Find

/-!
# The hostname cache

`daemon/hotspotd/hostname_cache.c` keeps what DHCP and mDNS said about a MAC in
a table of 1024 slots.  An update overwrites the slot of the MAC, or the first
free one, or the one with the smallest `updated_at`.  A text stands for a C
string, one character for each byte before the NUL.
-/

namespace Hnc.HostnameCache

open Posix

/-- `hnc_cache_entry_t`. -/
structure Entry where
  active : Bool
  mac : Text
  hostname : Text
  src : Text
  updatedAt : Int
deriving DecidableEq, Repr

/-- `HNC_CACHE_MAX_ENTRIES`. -/
def maxEntries : Nat := 1024

/-- The static state, with its array. -/
structure Cache where
  slots : List Entry
  size : slots.length = maxEntries
  dirty : Bool

/-- `memset(g_cache, 0, sizeof(g_cache))`. -/
def freeEntry : Entry :=
  ⟨false, [], [], [], 0⟩

/-- `hnc_cache_init`. -/
def init : Cache :=
  ⟨List.replicate maxEntries freeEntry, List.length_replicate, false⟩

/-- `strncpy` into an array of `size` bytes whose last byte is then cleared. -/
def copyInto (size : Nat) (s : Text) : Text :=
  s.take (size - 1)

/-- `strncmp(a, b, size) == 0`. -/
def sameFront (size : Nat) (a b : Text) : Bool :=
  a.take size == b.take size

/-- `if (c >= 'A' && c <= 'Z') c += 32`. -/
def foldCase (c : Char) : Char :=
  if 'A' ≤ c ∧ c ≤ 'Z' then Char.ofNat (c.toNat + 32) else c

/-- The loop of `mac_eq` with the characters that it may still compare; then
both strings have to be at their ends. -/
def macEqLoop : Nat → Text → Text → Bool
  | 0, a, b => a.isEmpty && b.isEmpty
  | left + 1, c :: a, d :: b => foldCase c == foldCase d && macEqLoop left a b
  | _ + 1, a, b => a.isEmpty && b.isEmpty

def macEq (a b : Text) : Bool :=
  macEqLoop 17 a b

/-- `hnc_cache_lookup`; nothing for `return 0`. -/
def hncCacheLookup (cache : Cache) (mac : Text) (hnLen srcLen : Nat) :
    Option (Text × Text) :=
  if hnLen = 0 ∨ srcLen = 0 then none
  else
    (cache.slots.find? fun e => e.active && macEq e.mac mac).map fun e =>
      (copyInto hnLen e.hostname, copyInto srcLen e.src)

namespace Cache

/-- A slot is written. -/
def set (cache : Cache) (i : Nat) (entry : Entry) (dirty : Bool) : Cache :=
  ⟨cache.slots.set i entry, by rw [List.length_set]; exact cache.size, dirty⟩

end Cache

/-- What `hnc_cache_update` makes of the slot of the MAC. -/
def refresh (now : Int) (hostname src : Text) (e : Entry) : Entry :=
  { e with hostname := copyInto 64 hostname, src := copyInto 12 src,
           updatedAt := now }

/-- A new entry in a free slot or in that of an evicted one. -/
def newEntry (now : Int) (mac hostname src : Text) : Entry :=
  ⟨true, copyInto 18 mac, copyInto 64 hostname, copyInto 12 src, now⟩

/-- `hnc_cache_update` at the time `now`, with its answer. -/
def hncCacheUpdate (cache : Cache) (now : Int) (mac hostname src : Text) :
    Cache × Bool :=
  if mac = [] ∨ hostname = [] ∨ src = [] then (cache, false)
  else
    match cache.slots.findIdx? fun e => e.active && macEq e.mac mac with
    | some i =>
        let e := cache.slots.getD i freeEntry
        if sameFront 64 e.hostname hostname && sameFront 12 e.src src then
          (cache.set i { e with updatedAt := now } cache.dirty, false)
        else (cache.set i (refresh now hostname src e) true, true)
    | none =>
        match cache.slots.findIdx? fun e => !e.active with
        | some i => (cache.set i (newEntry now mac hostname src) true, true)
        | none =>
            let i := KeyedSlots.oldestIndex Entry.updatedAt cache.slots
            (cache.set i (newEntry now mac hostname src) true, true)

/-! ## MACs up to letter case -/

/-- The MAC of a slot with its letters folded. -/
def keyOf (e : Entry) : Option Text :=
  if e.active then some (e.mac.map foldCase) else none

theorem macEqLoop_iff (left : Nat) (a b : Text) :
    macEqLoop left a b = true ↔
      a.map foldCase = b.map foldCase ∧ a.length ≤ left := by
  induction left generalizing a b with
  | zero =>
      cases a <;> cases b <;> simp [macEqLoop]
  | succ left induction =>
      cases a with
      | nil => cases b <;> simp [macEqLoop]
      | cons c a =>
          cases b with
          | nil => simp [macEqLoop]
          | cons d b =>
              simp [macEqLoop, induction, and_assoc]

theorem macEq_iff (a b : Text) :
    macEq a b = true ↔ a.map foldCase = b.map foldCase ∧ a.length ≤ 17 :=
  macEqLoop_iff 17 a b

/-- The sizes of the fields. -/
structure Entry.Fits (e : Entry) : Prop where
  mac : e.mac.length ≤ 17
  hostname : e.hostname.length ≤ 63
  src : e.src.length ≤ 11

theorem length_copyInto (size : Nat) (s : Text) :
    (copyInto size s).length ≤ size - 1 := by
  rw [copyInto, List.length_take]
  exact Nat.min_le_left _ _

theorem fits_newEntry (now : Int) (mac hostname src : Text) :
    (newEntry now mac hostname src).Fits :=
  ⟨length_copyInto 18 mac, length_copyInto 64 hostname, length_copyInto 12 src⟩

theorem Entry.Fits.refresh {e : Entry} (fits : e.Fits) (now : Int)
    (hostname src : Text) : (refresh now hostname src e).Fits :=
  ⟨fits.mac, length_copyInto 64 hostname, length_copyInto 12 src⟩

/-- The test in the scans of the table. -/
theorem isSlotOf_iff {e : Entry} (fits : e.Fits) (mac : Text) :
    (e.active && macEq e.mac mac) = true ↔
      keyOf e = some (mac.map foldCase) := by
  rw [keyOf]
  cases e.active with
  | false => simp
  | true =>
      rw [Bool.true_and, macEq_iff, if_pos rfl, Option.some_inj]
      exact and_iff_left fits.mac

/-- A field that compares equal holds the new text already. -/
theorem eq_copyInto_of_sameFront {size : Nat} {field s : Text}
    (short : field.length ≤ size - 1) (positive : 0 < size)
    (same : sameFront size field s = true) : field = copyInto size s := by
  have front : field.take size = s.take size := by simpa [sameFront] using same
  rw [List.take_of_length_le (by omega)] at front
  have whole : s.length < size := by
    have length := congrArg List.length front
    rw [List.length_take] at length
    omega
  rw [front, copyInto, List.take_of_length_le (by omega),
    List.take_of_length_le (by omega)]

/-! ## One update -/

structure Sound (cache : Cache) : Prop where
  distinct : KeyedSlots.Distinct keyOf cache.slots
  fits : ∀ e ∈ cache.slots, e.Fits

/-- What an update that is not refused does to the table. -/
inductive Updated (cache : Cache) (now : Int) (mac hostname src : Text) :
    Cache → Prop where
  /-- The slot of the MAC is overwritten. -/
  | found {later : Cache} {left right : List Entry} {e : Entry} :
      cache.slots = left ++ e :: right →
      keyOf e = some (mac.map foldCase) →
      later.slots = left ++ refresh now hostname src e :: right →
      (later.dirty = false → cache.dirty = false ∧
        e.hostname = copyInto 64 hostname ∧ e.src = copyInto 12 src) →
      Updated cache now mac hostname src later
  /-- The first free slot is taken. -/
  | free {later : Cache} {left right : List Entry} {e : Entry} :
      cache.slots = left ++ e :: right →
      (∀ other ∈ cache.slots, keyOf other ≠ some (mac.map foldCase)) →
      e.active = false →
      later.slots = left ++ newEntry now mac hostname src :: right →
      later.dirty = true →
      Updated cache now mac hostname src later
  /-- All slots are taken, and one with the smallest time is evicted. -/
  | evicted {later : Cache} {left right : List Entry} {victim : Entry} :
      cache.slots = left ++ victim :: right →
      (∀ other ∈ cache.slots, keyOf other ≠ some (mac.map foldCase)) →
      (∀ other ∈ cache.slots, other.active = true) →
      (∀ other ∈ cache.slots, victim.updatedAt ≤ other.updatedAt) →
      later.slots = left ++ newEntry now mac hostname src :: right →
      later.dirty = true →
      Updated cache now mac hostname src later

theorem Cache.slots_ne_nil (cache : Cache) : cache.slots ≠ [] := by
  intro empty
  have size := cache.size
  rw [empty] at size
  cases size

theorem updated_hncCacheUpdate {cache : Cache} (sound : Sound cache)
    (now : Int) {mac hostname src : Text} (named : mac ≠ [])
    (solid : hostname ≠ []) (sourced : src ≠ []) :
    Updated cache now mac hostname src
      (hncCacheUpdate cache now mac hostname src).1 := by
  have given : ¬(mac = [] ∨ hostname = [] ∨ src = []) := by
    simp [named, solid, sourced]
  rw [hncCacheUpdate, if_neg given]
  cases scan : cache.slots.findIdx? fun e => e.active && macEq e.mac mac with
  | some i =>
      obtain ⟨left, e, right, split, length, here, _⟩ :=
        KeyedSlots.split_of_findIdx? scan
      have member : e ∈ cache.slots := by
        rw [split]
        simp
      have fits := sound.fits e member
      have key := (isSlotOf_iff fits mac).mp here
      have slot : cache.slots.getD i freeEntry = e := by
        rw [split, ← length]
        simp
      have written : ∀ e', cache.slots.set i e' = left ++ e' :: right := by
        intro e'
        rw [split, ← length]
        exact KeyedSlots.set_middle left right e e'
      dsimp only
      rw [slot]
      cases same : sameFront 64 e.hostname hostname && sameFront 12 e.src src with
      | true =>
          rw [Bool.and_eq_true] at same
          have name := eq_copyInto_of_sameFront fits.hostname (by decide) same.1
          have source := eq_copyInto_of_sameFront fits.src (by decide) same.2
          have refreshed : { e with updatedAt := now } =
              refresh now hostname src e := by
            rw [refresh, ← name, ← source]
          rw [refreshed]
          exact .found split key (written _) fun clean => ⟨clean, name, source⟩
      | false =>
          exact .found split key (written _) nofun
  | none =>
      have absent : ∀ other ∈ cache.slots,
          keyOf other ≠ some (mac.map foldCase) := by
        intro other member same
        have miss := List.findIdx?_eq_none_iff.mp scan other member
        rw [(isSlotOf_iff (sound.fits other member) mac).mpr same] at miss
        cases miss
      cases free : cache.slots.findIdx? fun e => !e.active with
      | some i =>
          obtain ⟨left, e, right, split, length, here, _⟩ :=
            KeyedSlots.split_of_findIdx? free
          have written : cache.slots.set i (newEntry now mac hostname src) =
              left ++ newEntry now mac hostname src :: right := by
            rw [split, ← length]
            exact KeyedSlots.set_middle left right e _
          exact .free split absent (by simpa using here) written rfl
      | none =>
          have full : ∀ other ∈ cache.slots, other.active = true := by
            intro other member
            simpa using List.findIdx?_eq_none_iff.mp free other member
          obtain ⟨left, victim, right, split, length, least⟩ :=
            @KeyedSlots.oldestIndex_smallest _ _ _ Entry.updatedAt _
              cache.slots_ne_nil
          have written : cache.slots.set
              (KeyedSlots.oldestIndex Entry.updatedAt cache.slots)
              (newEntry now mac hostname src) =
              left ++ newEntry now mac hostname src :: right := by
            rw [← length, split]
            exact KeyedSlots.set_middle left right victim _
          exact .evicted split absent full least written rfl

/-! ## What one update keeps -/

theorem keyOf_newEntry (now : Int) {mac : Text} (short : mac.length ≤ 17)
    (hostname src : Text) :
    keyOf (newEntry now mac hostname src) = some (mac.map foldCase) := by
  rw [keyOf, newEntry, if_pos rfl, copyInto, List.take_of_length_le short]

theorem keyOf_refresh (now : Int) (hostname src : Text) (e : Entry) :
    keyOf (refresh now hostname src e) = keyOf e :=
  rfl

namespace Updated

variable {cache later : Cache} {now : Int} {mac hostname src : Text}

section

variable (updated : Updated cache now mac hostname src later)
  (before : Sound cache) (short : mac.length ≤ 17)
include updated before short

theorem sound : Sound later := by
  obtain ⟨distinct, fits⟩ := before
  have new := keyOf_newEntry now short hostname src
  have others : ∀ {left right : List Entry} {e : Entry},
      cache.slots = left ++ e :: right →
      ∀ e', later.slots = left ++ e' :: right → e'.Fits →
        ∀ other ∈ later.slots, other.Fits := by
    intro left right e split e' written small other member
    rw [written] at member
    rw [split] at fits
    rcases List.mem_append.mp member with early | rest
    · exact fits other (by simp [early])
    · rcases List.mem_cons.mp rest with rfl | late
      · exact small
      · exact fits other (by simp [late])
  cases updated with
  | @found left right e split key written _ =>
      rw [split] at distinct
      have small := fits e (by rw [split]; simp)
      refine ⟨?_, others split _ written (small.refresh now hostname src)⟩
      obtain ⟨early, late⟩ := distinct.apart key
      rw [written]
      exact distinct.replace ((keyOf_refresh now hostname src e).trans key)
        early late
  | @free left right e split absent _ written _ =>
      refine ⟨?_, others split _ written (fits_newEntry now mac hostname src)⟩
      rw [split] at distinct absent
      rw [written]
      exact distinct.replace new
        (fun slot member => absent slot (by simp [member]))
        (fun slot member => absent slot (by simp [member]))
  | @evicted left right victim split absent _ _ written _ =>
      refine ⟨?_, others split _ written (fits_newEntry now mac hostname src)⟩
      rw [split] at distinct absent
      rw [written]
      exact distinct.replace new
        (fun slot member => absent slot (by simp [member]))
        (fun slot member => absent slot (by simp [member]))

/-- The slot of the MAC behind the update. -/
theorem find_self :
    ∃ e, KeyedSlots.find keyOf later.slots (mac.map foldCase) = some e ∧
      e.hostname = copyInto 64 hostname ∧ e.src = copyInto 12 src ∧
      e.updatedAt = now := by
  have new := keyOf_newEntry now short hostname src
  cases updated with
  | @found left right e split key written _ =>
      have distinct := before.distinct
      rw [split] at distinct
      refine ⟨refresh now hostname src e, ?_, rfl, rfl, rfl⟩
      rw [written]
      exact KeyedSlots.find_placed (distinct.apart key).1 key
  | @free left right e split absent _ written _ =>
      refine ⟨newEntry now mac hostname src, ?_, rfl, rfl, rfl⟩
      rw [split] at absent
      rw [written]
      exact KeyedSlots.find_placed
        (fun slot member => absent slot (by simp [member])) new
  | @evicted left right victim split absent _ _ written _ =>
      refine ⟨newEntry now mac hostname src, ?_, rfl, rfl, rfl⟩
      rw [split] at absent
      rw [written]
      exact KeyedSlots.find_placed
        (fun slot member => absent slot (by simp [member])) new

/-- Another MAC keeps its slot, unless the table was full and the MAC is new:
then one slot with the smallest time is lost. -/
theorem frame :
    (∀ key, key ≠ mac.map foldCase →
      KeyedSlots.find keyOf later.slots key =
        KeyedSlots.find keyOf cache.slots key) ∨
    ((∀ e ∈ cache.slots, e.active = true) ∧
      KeyedSlots.find keyOf cache.slots (mac.map foldCase) = none ∧
      ∃ victim ∈ cache.slots,
        (∀ e ∈ cache.slots, victim.updatedAt ≤ e.updatedAt) ∧
        ∀ key, key ≠ mac.map foldCase →
          KeyedSlots.find keyOf later.slots key =
            if keyOf victim = some key then none
            else KeyedSlots.find keyOf cache.slots key) := by
  have new := keyOf_newEntry now short hostname src
  cases updated with
  | @found left right e split key written _ =>
      left
      intro other different
      have apart : keyOf e ≠ some other := by
        rw [key]
        intro same
        exact different (Option.some_inj.mp same).symm
      rw [written, split]
      exact KeyedSlots.find_replaced apart apart
  | @free left right e split absent idle written _ =>
      left
      intro other different
      have was : keyOf e ≠ some other := by
        rw [keyOf, idle]
        simp
      have is : keyOf (newEntry now mac hostname src) ≠ some other := by
        rw [new]
        intro same
        exact different (Option.some_inj.mp same).symm
      rw [written, split]
      exact KeyedSlots.find_replaced was is
  | @evicted left right victim split absent full least written _ =>
      right
      refine ⟨full, KeyedSlots.find_eq_none.mpr absent, victim,
        by rw [split]; simp, least, ?_⟩
      intro other different
      have is : keyOf (newEntry now mac hostname src) ≠ some other := by
        rw [new]
        intro same
        exact different (Option.some_inj.mp same).symm
      have distinct := before.distinct
      rw [split] at distinct
      rw [written, split]
      by_cases lost : keyOf victim = some other
      · rw [if_pos lost]
        obtain ⟨early, late⟩ := distinct.apart lost
        apply KeyedSlots.find_eq_none.mpr
        intro slot member
        rcases List.mem_append.mp member with inLeft | rest
        · exact early slot inLeft
        · rcases List.mem_cons.mp rest with rfl | inRight
          · exact is
          · exact late slot inRight
      · rw [if_neg lost]
        exact KeyedSlots.find_replaced lost is

end

end Updated

/-- The names and sources of the table. -/
def contents (cache : Cache) : List (Bool × Text × Text × Text) :=
  cache.slots.map fun e => (e.active, e.mac, e.hostname, e.src)

/-- Without the dirty flag nothing was dirty before, and the names and sources
are the old ones. -/
theorem Updated.clean {cache later : Cache} {now : Int}
    {mac hostname src : Text}
    (updated : Updated cache now mac hostname src later)
    (clean : later.dirty = false) :
    cache.dirty = false ∧ contents later = contents cache := by
  cases updated with
  | @found left right e split key written unchanged =>
      obtain ⟨before, name, source⟩ := unchanged clean
      refine ⟨before, ?_⟩
      rw [contents, contents, written, split]
      simp [refresh, ← name, ← source]
  | free _ _ _ _ dirty =>
      rw [dirty] at clean
      cases clean
  | evicted _ _ _ _ _ dirty =>
      rw [dirty] at clean
      cases clean

theorem hncCacheLookup_eq {cache : Cache} (sound : Sound cache) (mac : Text)
    {hnLen srcLen : Nat} (name : 0 < hnLen) (source : 0 < srcLen) :
    hncCacheLookup cache mac hnLen srcLen =
      (KeyedSlots.find keyOf cache.slots (mac.map foldCase)).map fun e =>
        (copyInto hnLen e.hostname, copyInto srcLen e.src) := by
  have same : ∀ e ∈ cache.slots,
      (e.active && macEq e.mac mac) =
        decide (keyOf e = some (mac.map foldCase)) := by
    intro e member
    have test := isSlotOf_iff (sound.fits e member) mac
    exact Bool.eq_iff_iff.mpr (test.trans decide_eq_true_iff.symm)
  have sizes : ¬(hnLen = 0 ∨ srcLen = 0) := by omega
  rw [hncCacheLookup, if_neg sizes, List.find?_congr same]
  rfl

/-! ## Runs -/

inductive Event where
  | update (now : Int) (mac hostname src : Text)
  | lookup (mac : Text) (hnLen srcLen : Nat)
  | saved
deriving DecidableEq, Repr

/-- The cache and what its names and sources were at the last save. -/
structure Session where
  cache : Cache
  saved : List (Bool × Text × Text × Text)

/-- A lookup leaves the cache alone, and a save clears the dirty flag. -/
def step (s : Session) : Event → Session
  | .update now mac hostname src =>
      { s with cache := (hncCacheUpdate s.cache now mac hostname src).1 }
  | .lookup _ _ _ => s
  | .saved =>
      ⟨⟨s.cache.slots, s.cache.size, false⟩, contents s.cache⟩

def started : Session :=
  ⟨init, contents init⟩

/-- MACs have 17 characters. -/
def Event.Valid : Event → Prop
  | .update _ mac _ _ => mac.length = 17
  | .lookup mac _ _ => mac.length = 17
  | .saved => True

structure Session.Ready (s : Session) : Prop where
  sound : Sound s.cache
  dirty : s.cache.dirty = false → contents s.cache = s.saved

theorem sound_init : Sound init := by
  have free : ∀ e ∈ init.slots, e = freeEntry := by
    intro e member
    exact List.eq_of_mem_replicate member
  constructor
  · have none : init.slots.filterMap keyOf = [] := by
      apply List.filterMap_eq_nil_iff.mpr
      intro e member
      rw [free e member]
      rfl
    rw [KeyedSlots.Distinct, none]
    exact List.nodup_nil
  · intro e member
    rw [free e member]
    exact ⟨Nat.zero_le _, Nat.zero_le _, Nat.zero_le _⟩

theorem ready_started : started.Ready :=
  ⟨sound_init, fun _ => rfl⟩

theorem Session.Ready.step {s : Session} (ready : s.Ready) {event : Event}
    (valid : event.Valid) : (step s event).Ready := by
  cases event with
  | lookup => exact ready
  | saved => exact ⟨⟨ready.sound.distinct, ready.sound.fits⟩, fun _ => rfl⟩
  | update now mac hostname src =>
      by_cases refused : mac = [] ∨ hostname = [] ∨ src = []
      · have same : hncCacheUpdate s.cache now mac hostname src =
            (s.cache, false) := if_pos refused
        rw [HostnameCache.step, same]
        exact ready
      · simp only [not_or] at refused
        have updated := updated_hncCacheUpdate ready.sound now refused.1
          refused.2.1 refused.2.2
        refine ⟨updated.sound ready.sound (Nat.le_of_eq valid), ?_⟩
        intro clean
        obtain ⟨before, same⟩ := updated.clean clean
        exact same.trans (ready.dirty before)

/-- The table is a map with a bound, and evicts by time. -/
structure BoundedLru (cache : Cache) : Prop where
  distinct : KeyedSlots.Distinct keyOf cache.slots
  bounded : (cache.slots.filter Entry.active).length ≤ 1024
  answers : ∀ (now : Int) (mac hostname src other : Text) (hnLen srcLen : Nat),
    mac.length = 17 → hostname ≠ [] → src ≠ [] →
    other.map foldCase = mac.map foldCase → 0 < hnLen → 0 < srcLen →
    hncCacheLookup (hncCacheUpdate cache now mac hostname src).1 other hnLen
        srcLen =
      some (copyInto hnLen (copyInto 64 hostname),
        copyInto srcLen (copyInto 12 src))
  frame : ∀ (now : Int) (mac hostname src : Text), mac.length = 17 →
    let later := (hncCacheUpdate cache now mac hostname src).1
    (∀ key, key ≠ mac.map foldCase →
      KeyedSlots.find keyOf later.slots key =
        KeyedSlots.find keyOf cache.slots key) ∨
    ((∀ e ∈ cache.slots, e.active = true) ∧
      KeyedSlots.find keyOf cache.slots (mac.map foldCase) = none ∧
      ∃ victim ∈ cache.slots,
        (∀ e ∈ cache.slots, victim.updatedAt ≤ e.updatedAt) ∧
        ∀ key, key ≠ mac.map foldCase →
          KeyedSlots.find keyOf later.slots key =
            if keyOf victim = some key then none
            else KeyedSlots.find keyOf cache.slots key)

theorem Sound.boundedLru {cache : Cache} (sound : Sound cache) :
    BoundedLru cache where
  distinct := sound.distinct
  bounded := by
    apply Nat.le_trans (List.length_filter_le _ _)
    rw [cache.size]
    exact Nat.le_refl _
  answers := by
    intro now mac hostname src other hnLen srcLen length solid sourced same
      name source
    have named : mac ≠ [] := List.ne_nil_of_length_eq_add_one length
    have short : mac.length ≤ 17 := Nat.le_of_eq length
    have updated := updated_hncCacheUpdate sound now named solid sourced
    obtain ⟨e, found, hostname_eq, src_eq, _⟩ := updated.find_self sound short
    rw [hncCacheLookup_eq (updated.sound sound short) other name source, same,
      found, Option.map_some, hostname_eq, src_eq]
  frame := by
    intro now mac hostname src length
    by_cases refused : mac = [] ∨ hostname = [] ∨ src = []
    · have same : hncCacheUpdate cache now mac hostname src = (cache, false) :=
        if_pos refused
      rw [same]
      exact .inl fun _ _ => rfl
    · simp only [not_or] at refused
      have updated := updated_hncCacheUpdate sound now refused.1 refused.2.1
        refused.2.2
      exact updated.frame sound (Nat.le_of_eq length)

/-- In every run the table is a bounded map that evicts by time, and a name or a
source that changed since the last save makes it dirty. -/
theorem cache_is_boundedLru (events : List Event)
    (valid : Runs.Guarded step (fun _ event => event.Valid) started events) :
    ∀ s ∈ Runs.visited step started events,
      BoundedLru s.cache ∧
        (contents s.cache ≠ s.saved → s.cache.dirty = true) := by
  have ready := Runs.Guarded.induction Session.Ready
    (fun _ _ ready valid => ready.step valid) ready_started valid
  intro s visited
  refine ⟨(ready s visited).sound.boundedLru, ?_⟩
  intro changed
  cases dirty : s.cache.dirty with
  | true => rfl
  | false => exact absurd ((ready s visited).dirty dirty) changed

def phoneMac : Text :=
  "AA:bb:cc:dd:ee:01".toList

def phoneEvents : List Event :=
  [.update 100 phoneMac "Mi-10".toList "dhcp".toList, .saved,
    .lookup phoneMac 64 12, .update 160 phoneMac "Mi-11".toList "mdns".toList]

theorem phoneEvents_boundedLru :
    let s := phoneEvents.foldl step started
    BoundedLru s.cache ∧
      (contents s.cache ≠ s.saved → s.cache.dirty = true) :=
  have length : phoneMac.length = 17 := by decide
  cache_is_boundedLru phoneEvents ⟨length, trivial, length, length, trivial⟩ _
    (Runs.mem_visited_final started phoneEvents)

/-- An empty name is not stored. -/
theorem empty_name_is_refused :
    hncCacheLookup (hncCacheUpdate init 100 phoneMac [] "dhcp".toList).1
        phoneMac 64 12 = none := by
  have same : hncCacheUpdate init 100 phoneMac [] "dhcp".toList =
      (init, false) := if_pos (.inr (.inl rfl))
  have free : ∀ e ∈ init.slots, keyOf e ≠ some (phoneMac.map foldCase) := by
    intro e member
    rw [List.eq_of_mem_replicate member]
    exact nofun
  rw [same, hncCacheLookup_eq sound_init phoneMac (by decide) (by decide),
    KeyedSlots.find_eq_none.mpr free]
  rfl

end Hnc.HostnameCache
