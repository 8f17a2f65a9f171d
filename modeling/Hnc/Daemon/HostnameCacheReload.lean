import Hnc.Daemon.HostnameCacheFile

/-!
# Loading what was saved

The load loop reads a saved file record by record into the first slots.  Only a
name whose escape does not fit into `esc_hn` comes back as something else.
-/

namespace Hnc.HostnameCache

open Posix JsonText Hotspotd

/-! ## The load loop on a saved file -/

/-- A front of the buffer without a record. -/
def Skipped (lead : Text) : Prop :=
  ∀ rest, strstr (lead ++ rest) nameMarker = strstr rest nameMarker

theorem copyInto_of_short {size : Nat} {s : Text}
    (short : s.length ≤ size - 1) : copyInto size s = s :=
  List.take_of_length_le short

/-- What stands behind the name of a record. -/
def behindName (e : Entry) (more : Text) : Text :=
  '"' :: (srcMarker ++ (e.src ++ '"' :: (printBack e ++ more)))

theorem printFront_append (e : Entry) (more : Text) :
    printFront e ++ (printBack e ++ more) =
      '"' :: (e.mac ++ (nameMarker ++
        (hncJsonEscape e.hostname 128 ++ behindName e more))) := by
  simp [printFront, behindName]

variable {e : Entry}

/-- The name of a record is read up to its quote. -/
theorem readName_record (printable : e.Printable) (more : Text) :
    readName [] (hncJsonEscape e.hostname 128 ++ behindName e more) =
        (storedName e.hostname, behindName e more) ∧
      storedName e.hostname ≠ [] ∧
      copyInto 64 (cString (storedName e.hostname)) =
        storedName e.hostname := by
  obtain ⟨text, name, cstring⟩ := printable.nameText
  have solid : text ≠ [] := by
    intro empty
    rw [empty] at name
    exact printable.nameSolid name
  have short := printable.nameShort
  rw [name] at short
  obtain ⟨front, begins, frontSolid, escaped, stored, bound, _⟩ :=
    storedName_encode solid short
  have free : '\x00' ∉ front := fun member => cstring (begins.subset member)
  have plain : '\x00' ∉ encode front := by
    intro member
    exact free (mem_of_mem_encode member (by decide))
  rw [name, escaped, stored]
  refine ⟨?_, ?_, ?_⟩
  · exact readName_escaped [] _ (by simpa using bound)
  · intro empty
    exact frontSolid (encode_eq_nil empty)
  · rw [cString_eq_self plain, copyInto_of_short bound]

theorem readSrc_record (printable : e.Printable) (rest : Text) :
    readSrc [] (e.src ++ '"' :: rest) = (e.src, '"' :: rest) ∧
      e.src ≠ [] ∧ copyInto 12 e.src = e.src := by
  rcases printable.src with src | src
  · rw [src]
    exact ⟨readSrc_plain [] rest (by decide) (by decide), by decide, rfl⟩
  · rw [src]
    exact ⟨readSrc_plain [] rest (by decide) (by decide), by decide, rfl⟩

/-- Behind the source of a record the time is found. -/
theorem strstr_time (e : Entry) (more : Text) :
    strstr ('"' :: (printBack e ++ more)) timeMarker =
      some (timeMarker ++ (printLong e.updatedAt ++ '\x7d' :: more)) := by
  have text : '"' :: (printBack e ++ more) =
      ['"'] ++ (timeMarker ++ (printLong e.updatedAt ++ '\x7d' :: more)) := by
    simp [printBack]
  have skip : strstr ('"' :: (printBack e ++ more)) timeMarker =
      strstr (timeMarker ++ (printLong e.updatedAt ++ '\x7d' :: more))
        timeMarker := by
    rw [text]
    exact strstr_skip (by decide) _ _
  rw [skip, strstr_hit timeMarker _ (List.cons_ne_nil _ _)]

theorem strstr_src (rest : Text) :
    strstr ('"' :: (srcMarker ++ rest)) srcMarker =
      some (srcMarker ++ rest) := by
  have skip : strstr ('"' :: (srcMarker ++ rest)) srcMarker =
      strstr (srcMarker ++ rest) srcMarker :=
    @strstr_skip ',' ['"'] (by decide) _ _
  rw [skip, strstr_hit srcMarker _ (List.cons_ne_nil _ _)]

theorem loadTurn_record (printable : e.Printable) (consumed : Text) {lead : Text}
    (more : Text) (skipped : Skipped lead) {loaded : Nat}
    (room : loaded < maxEntries) (cache : Cache) :
    loadTurn (consumed ++ (lead ++ (printFront e ++ (printBack e ++ more))))
        ⟨lead ++ (printFront e ++ (printBack e ++ more)), loaded, cache⟩ =
      .again ⟨printBack e ++ more, loaded + 1,
        cache.set loaded (reloaded e) cache.dirty⟩ := by
  obtain ⟨name, solid, kept⟩ := readName_record printable more
  obtain ⟨source, sourced, src⟩ :=
    readSrc_record printable (printBack e ++ more)
  have length := printable.macLength
  have mac : copyInto 18 e.mac = e.mac :=
    copyInto_of_short (Nat.le_of_eq length)
  have time := strtol_printLong printable.time.1 printable.time.2 more
  generalize bodyText : hncJsonEscape e.hostname 128 ++ behindName e more = body
    at name
  have search : strstr (lead ++ (printFront e ++ (printBack e ++ more)))
      nameMarker = some (nameMarker ++ body) := by
    rw [skipped, printFront_append, bodyText]
    exact strstr_mac length printable.macPlain.1 body
  have whole : consumed ++ (lead ++ (printFront e ++ (printBack e ++ more))) =
      (consumed ++ lead) ++ '"' :: (e.mac ++ (nameMarker ++ body)) := by
    rw [printFront_append, bodyText, List.append_assoc]
  have keyEnd : (consumed ++ (lead ++ (printFront e ++
      (printBack e ++ more)))).length - (nameMarker ++ body).length =
      (consumed ++ lead).length + 18 := by
    rw [whole]
    simp only [List.length_append, List.length_cons]
    omega
  have quote : ((consumed ++ lead) ++ '"' :: (e.mac ++
      (nameMarker ++ body)))[(consumed ++ lead).length + 18 - 18]? =
      some '"' := by
    rw [Nat.add_sub_cancel, List.getElem?_append_right (Nat.le_refl _),
      Nat.sub_self]
    rfl
  have key : (((consumed ++ lead) ++ '"' :: (e.mac ++
      (nameMarker ++ body))).drop
        ((consumed ++ lead).length + 18 - 17)).take 17 = e.mac := by
    have offset : (consumed ++ lead).length + 18 - 17 =
        (consumed ++ lead).length + 1 := by omega
    rw [offset, List.drop_append, List.drop_of_length_le (by omega),
      List.nil_append, Nat.add_sub_cancel_left, List.drop_succ_cons,
      List.drop_zero, ← length, List.take_left]
  rw [loadTurn, search]
  dsimp only
  rw [readRecord, keyEnd, if_neg (by omega), whole, if_neg (by simp), key]
  rw [List.drop_left, name, behindName]
  dsimp only
  rw [if_neg (by simp), strstr_src]
  dsimp only
  rw [List.drop_left, source]
  rw [if_neg (by simp), Loading.insert, if_pos ⟨room, solid, sourced⟩,
    strstr_time]
  dsimp only
  rw [List.drop_left, time, mac, kept, src, List.tail_cons, reloaded,
    printable.active]

/-- The records behind the first one, and the end of the file. -/
def tailText : List Entry → Text
  | [] => ['\x7d', '\n']
  | e :: entries => ',' :: (printFront e ++ (printBack e ++ tailText entries))

theorem Skipped.comma {lead : Text} (skipped : Skipped lead) :
    Skipped (lead ++ [',']) := by
  intro rest
  rw [List.append_assoc, skipped]
  exact @strstr_nameMarker_skip [','] (by decide) rest

theorem slots_set (cache : Cache) (i : Nat) (e : Entry) (dirty : Bool) :
    (cache.set i e dirty).slots = cache.slots.set i e :=
  rfl

/-- The loop reads the records that are left into the slots that are left. -/
theorem exec_tailText {entries : List Entry}
    (printable : ∀ e ∈ entries, e.Printable) (consumed : Text) {lead : Text}
    (skipped : Skipped lead) {cache : Cache} {done free : List Entry}
    (slots : cache.slots = done ++ free)
    (room : done.length + entries.length ≤ maxEntries) :
    ((loadLoop (consumed ++ (lead ++ tailText entries))).exec
        ⟨lead ++ tailText entries, done.length, cache⟩).slots =
      done ++ (entries.map reloaded ++ free.drop entries.length) := by
  induction entries generalizing consumed lead cache done free with
  | nil =>
      have search : strstr (lead ++ tailText []) nameMarker = none := by
        rw [skipped]
        rfl
      have body : (loadLoop (consumed ++ (lead ++ tailText []))).turn
          ⟨lead ++ tailText [], done.length, cache⟩ = .done cache := by
        change loadTurn _ _ = _
        rw [loadTurn, search]
      rw [Loops.Loop.exec_done body, slots]
      rfl
  | cons e entries induction =>
      rw [List.length_cons] at room
      have first : e.Printable := printable e (by simp)
      have others : ∀ other ∈ entries, other.Printable := by
        intro other member
        exact printable other (by simp [member])
      have place : lead ++ tailText (e :: entries) =
          (lead ++ [',']) ++ (printFront e ++ (printBack e ++
            tailText entries)) := by
        simp [tailText]
      have body := loadTurn_record first consumed (tailText entries)
        skipped.comma (show done.length < maxEntries by omega) cache
      have buf : consumed ++ ((lead ++ [',']) ++ (printFront e ++
          (printBack e ++ tailText entries))) =
          (consumed ++ ((lead ++ [',']) ++ printFront e)) ++
            (printBack e ++ tailText entries) := by
        simp only [List.append_assoc]
      -- there is a slot left for the record
      cases free with
      | nil =>
          have size := cache.size
          rw [slots, List.append_nil] at size
          omega
      | cons idle free =>
          have written : (cache.set done.length (reloaded e)
              cache.dirty).slots = (done ++ [reloaded e]) ++ free := by
            rw [slots_set, slots, KeyedSlots.set_middle, List.append_assoc]
            rfl
          have step := @induction others
            (consumed ++ ((lead ++ [',']) ++ printFront e)) (printBack e)
            (strstr_printBack e) _ _ _ written (by
              rw [List.length_append, List.length_singleton]
              omega)
          have again : (loadLoop (consumed ++ (lead ++
              tailText (e :: entries)))).exec
              ⟨lead ++ tailText (e :: entries), done.length, cache⟩ =
              (loadLoop (consumed ++ (lead ++ tailText (e :: entries)))).exec
                ⟨printBack e ++ tailText entries, done.length + 1,
                  cache.set done.length (reloaded e) cache.dirty⟩ := by
            apply Loops.Loop.exec_again
            rw [place]
            exact body
          rw [again, place, buf]
          rw [List.length_append, List.length_singleton] at step
          rw [step]
          simp

/-! ## The whole file -/

def actives (cache : Cache) : List Entry :=
  cache.slots.filter Entry.active

theorem printEntries_tail (slots : List Entry) :
    printEntries false slots ++ ['\x7d', '\n'] =
      tailText (slots.filter Entry.active) := by
  induction slots with
  | nil => rfl
  | cons e slots induction =>
      rw [printEntries]
      cases active : e.active with
      | true =>
          rw [List.filter_cons_of_pos active, tailText, ← induction]
          simp [printEntry]
      | false =>
          rw [List.filter_cons_of_neg (by simp [active]), if_neg (by simp),
            induction]

/-- The file behind its first bracket. -/
def firstText : List Entry → Text
  | [] => ['\x7d', '\n']
  | e :: entries => printFront e ++ (printBack e ++ tailText entries)

theorem printEntries_first (slots : List Entry) :
    printEntries true slots ++ ['\x7d', '\n'] =
      firstText (slots.filter Entry.active) := by
  induction slots with
  | nil => rfl
  | cons e slots induction =>
      rw [printEntries]
      cases active : e.active with
      | true =>
          rw [List.filter_cons_of_pos active, firstText, ← printEntries_tail]
          simp [printEntry]
      | false =>
          rw [List.filter_cons_of_neg (by simp [active]), if_neg (by simp),
            induction]

theorem hncCacheSave_eq (cache : Cache) :
    hncCacheSave cache = '\x7b' :: firstText (actives cache) := by
  rw [hncCacheSave, List.cons_append, printEntries_first]
  rfl

variable {cache : Cache}

/-- What the loop makes of a saved file in an empty table. -/
theorem exec_saved (printable : ∀ e ∈ actives cache, e.Printable) :
    ((loadLoop (hncCacheSave cache)).exec
        ⟨hncCacheSave cache, 0, init⟩).slots =
      (actives cache).map reloaded ++
        List.replicate (maxEntries - (actives cache).length) freeEntry := by
  have bound : (actives cache).length ≤ maxEntries := by
    rw [← cache.size]
    exact List.length_filter_le _ _
  have opened : Skipped ['\x7b'] := fun rest =>
    @strstr_nameMarker_skip ['\x7b'] (by decide) rest
  rw [hncCacheSave_eq]
  cases list : actives cache with
  | nil =>
      have body : (loadLoop ['\x7b', '\x7d', '\n']).turn
          ⟨['\x7b', '\x7d', '\n'], 0, init⟩ = .done init := rfl
      rfl
  | cons e entries =>
      rw [list] at printable bound
      rw [List.length_cons] at bound
      have first : e.Printable := printable e (by simp)
      have others : ∀ other ∈ entries, other.Printable := by
        intro other member
        exact printable other (by simp [member])
      have body := loadTurn_record first [] (tailText entries) opened
        (show 0 < maxEntries by decide) init
      have again := @Loops.Loop.exec_again _ _ (loadLoop ('\x7b' ::
        (printFront e ++ (printBack e ++ tailText entries)))) _ _ body
      have written : (init.set 0 (reloaded e) init.dirty).slots =
          [reloaded e] ++ List.replicate (maxEntries - 1) freeEntry := by
        rfl
      have rest := @exec_tailText entries others ('\x7b' :: printFront e)
        (printBack e) (strstr_printBack e) _ [reloaded e] _ written (by
          rw [List.length_singleton]
          omega)
      have buf : ('\x7b' :: printFront e) ++ (printBack e ++ tailText entries) =
          '\x7b' :: (printFront e ++ (printBack e ++ tailText entries)) := rfl
      refine (congrArg Cache.slots again).trans (rest.trans ?_)
      rw [List.drop_replicate, Nat.sub_sub, Nat.add_comm 1]
      rfl

theorem length_printLong {value : Int} (low : -2 ^ 63 ≤ value)
    (high : value < 2 ^ 63) : (printLong value).length ≤ 20 := by
  have digits : (Nat.toDigits 10 value.natAbs).length ≤ 19 := by
    apply (Nat.length_toDigits_le_iff (by decide) (by decide)).mpr
    omega
  rw [printLong]
  split
  · rw [List.length_cons]
    omega
  · omega

theorem escape_printable (printable : e.Printable) :
    (hncJsonEscape e.hostname 128).length ≤ 127 ∧
      '\x00' ∉ hncJsonEscape e.hostname 128 := by
  obtain ⟨text, name, _⟩ := printable.nameText
  rw [name, hncJsonEscape_encode (by decide)]
  exact ⟨length_fitting 127 text, nul_escapeText _⟩

/-- Each record has at most 191 bytes, and none of them is NUL. -/
theorem record_printable (printable : e.Printable) :
    (printFront e).length + (printBack e).length ≤ 191 ∧
      '\x00' ∉ printFront e ∧ '\x00' ∉ printBack e := by
  obtain ⟨short, plain⟩ := escape_printable printable
  have number := length_printLong printable.time.1 printable.time.2
  have digits := @not_mem_printLong e.updatedAt '\x00' (by decide) (by decide)
  have name : nameMarker.length = 8 ∧ '\x00' ∉ nameMarker := by decide
  have source : srcMarker.length = 6 ∧ '\x00' ∉ srcMarker := by decide
  have time : timeMarker.length = 5 ∧ '\x00' ∉ timeMarker := by decide
  have src : e.src.length = 4 ∧ '\x00' ∉ e.src := by
    rcases printable.src with same | same
    · rw [same]
      decide
    · rw [same]
      decide
  have mac := printable.macLength
  refine ⟨?_, ?_, ?_⟩
  · simp only [printFront, printBack, List.length_cons, List.length_append,
      List.length_nil]
    omega
  · simp [printFront, printable.macPlain.2, name.2, plain, source.2, src.2]
  · simp [printBack, time.2, digits]

theorem tailText_printable {entries : List Entry}
    (printable : ∀ e ∈ entries, e.Printable) :
    (tailText entries).length ≤ 192 * entries.length + 2 ∧
      '\x00' ∉ tailText entries := by
  induction entries with
  | nil => exact ⟨by decide, by decide⟩
  | cons e entries induction =>
      obtain ⟨length, front, back⟩ := record_printable (printable e (by simp))
      obtain ⟨rest, plain⟩ := induction fun other member =>
        printable other (by simp [member])
      constructor
      · simp only [tailText, List.length_cons, List.length_append]
        omega
      · simp [tailText, front, back, plain]

theorem hncCacheSave_printable (printable : ∀ e ∈ actives cache, e.Printable) :
    (hncCacheSave cache).length ≤ 192 * (actives cache).length + 3 ∧
      '\x00' ∉ hncCacheSave cache := by
  rw [hncCacheSave_eq]
  cases list : actives cache with
  | nil => exact ⟨by decide, by decide⟩
  | cons e entries =>
      rw [list] at printable
      have others : ∀ other ∈ entries, other.Printable := by
        intro other member
        exact printable other (by simp [member])
      obtain ⟨length, front, back⟩ := record_printable (printable e (by simp))
      obtain ⟨rest, plain⟩ := tailText_printable others
      constructor
      · simp only [firstText, List.length_cons, List.length_append]
        omega
      · simp [firstText, front, back, plain]

theorem slots_load_save (printable : ∀ e ∈ actives cache, e.Printable) :
    (hncCacheLoad init (some (hncCacheSave cache))).slots =
      (actives cache).map reloaded ++
        List.replicate (maxEntries - (actives cache).length) freeEntry := by
  have bound : (actives cache).length ≤ maxEntries := by
    rw [← cache.size]
    exact List.length_filter_le _ _
  obtain ⟨length, plain⟩ := hncCacheSave_printable printable
  have most : maxEntries = 1024 := rfl
  have solid : 0 < (hncCacheSave cache).length := Nat.succ_pos _
  have small : ¬((hncCacheSave cache).length = 0 ∨
      256 * 1024 < (hncCacheSave cache).length) := by
    omega
  rw [hncCacheLoad]
  rw [if_neg small]
  rw [cString_eq_self plain, exec_saved printable]

/-! ## Save and load -/

/-- The entries of a table. -/
def records (cache : Cache) : List (Text × Text × Text × Int) :=
  (actives cache).map fun e => (e.mac, e.hostname, e.src, e.updatedAt)

theorem actives_load_save (printable : ∀ e ∈ actives cache, e.Printable) :
    actives (hncCacheLoad init (some (hncCacheSave cache))) =
      (actives cache).map reloaded := by
  have live : ((actives cache).map reloaded).filter Entry.active =
      (actives cache).map reloaded := by
    apply List.filter_eq_self.mpr
    intro e member
    obtain ⟨old, inside, rfl⟩ := List.mem_map.mp member
    exact (printable old inside).active
  have idle : (List.replicate (maxEntries - (actives cache).length)
      freeEntry).filter Entry.active = [] := by
    apply List.filter_eq_nil_iff.mpr
    intro e member
    rw [List.eq_of_mem_replicate member]
    exact nofun
  rw [actives, slots_load_save printable, List.filter_append, live, idle,
    List.append_nil]

/-- The name that was stored escapes into the buffer. -/
theorem storedName_spec (printable : e.Printable) :
    ((storedName e.hostname).flatMap escapeByte).length ≤ 127 ∧
      ((e.hostname.flatMap escapeByte).length ≤ 127 →
        storedName e.hostname = e.hostname) := by
  obtain ⟨text, name, _⟩ := printable.nameText
  have solid : text ≠ [] := by
    intro empty
    rw [empty] at name
    exact printable.nameSolid name
  have short := printable.nameShort
  rw [name] at short
  obtain ⟨front, _, _, escaped, stored, _, whole⟩ :=
    storedName_encode solid short
  rw [name, stored]
  constructor
  · have length := (escape_printable printable).1
    rw [name, escaped] at length
    exact length
  · intro fits
    rw [whole.mpr fits]

/-- The entries survive exactly when the escape of every name fits into
`esc_hn`. -/
theorem records_load_save_iff (printable : ∀ e ∈ actives cache, e.Printable) :
    (∀ r, r ∈ records (hncCacheLoad init (some (hncCacheSave cache))) ↔
        r ∈ records cache) ↔
      ∀ e ∈ actives cache, (e.hostname.flatMap escapeByte).length ≤ 127 := by
  have loaded : records (hncCacheLoad init (some (hncCacheSave cache))) =
      (actives cache).map fun e =>
        (e.mac, storedName e.hostname, e.src, e.updatedAt) := by
    rw [records, actives_load_save printable, List.map_map]
    rfl
  rw [loaded]
  constructor
  · intro same e member
    have here := (same (e.mac, e.hostname, e.src, e.updatedAt)).mpr
      (List.mem_map_of_mem member)
    obtain ⟨other, inside, equal⟩ := List.mem_map.mp here
    have name : storedName other.hostname = e.hostname :=
      congrArg (fun r => r.2.1) equal
    rw [← name]
    exact (storedName_spec (printable other inside)).1
  · intro fits
    have equal : ((actives cache).map fun e =>
        (e.mac, storedName e.hostname, e.src, e.updatedAt)) =
        (actives cache).map fun e =>
          (e.mac, e.hostname, e.src, e.updatedAt) := by
      apply List.map_congr_left
      intro e member
      rw [(storedName_spec (printable e member)).2 (fits e member)]
    rw [equal]
    exact fun _ => Iff.rfl

/-- A call of `hnc_cache_update`. -/
structure Update where
  now : Int
  mac : Text
  hostname : Text
  src : Text

/-- A MAC of 17 characters, a name of whole characters that fits its field, and
one of the two sources. -/
structure Update.Valid (u : Update) : Prop where
  macLength : u.mac.length = 17
  macPlain : '"' ∉ u.mac ∧ '\x00' ∉ u.mac
  nameSolid : u.hostname ≠ []
  nameShort : u.hostname.length ≤ 63
  nameText : ∃ text, u.hostname = encode text ∧ '\x00' ∉ text
  src : u.src = "dhcp".toList ∨ u.src = "mdns".toList
  time : -2 ^ 63 ≤ u.now ∧ u.now < 2 ^ 63

def applyUpdate (cache : Cache) (u : Update) : Cache :=
  (hncCacheUpdate cache u.now u.mac u.hostname u.src).1

variable {u : Update}

theorem Update.Valid.printable (valid : u.Valid) :
    (newEntry u.now u.mac u.hostname u.src).Printable := by
  have mac : copyInto 18 u.mac = u.mac :=
    copyInto_of_short (Nat.le_of_eq valid.macLength)
  have name : copyInto 64 u.hostname = u.hostname :=
    copyInto_of_short valid.nameShort
  have src : copyInto 12 u.src = u.src := by
    rcases valid.src with same | same
    · rw [same]
      rfl
    · rw [same]
      rfl
  rw [newEntry, mac, name, src]
  exact ⟨rfl, valid.macLength, valid.macPlain, valid.nameSolid,
    valid.nameShort, valid.nameText, valid.src, valid.time⟩

/-- The slot of a MAC gets the new name, source and time. -/
theorem Entry.Printable.refresh (printable : e.Printable) (valid : u.Valid) :
    (refresh u.now u.hostname u.src e).Printable :=
  have new := valid.printable
  ⟨printable.active, printable.macLength, printable.macPlain, new.nameSolid,
    new.nameShort, new.nameText, new.src, new.time⟩

theorem mem_actives : e ∈ actives cache ↔ e ∈ cache.slots ∧ e.active = true :=
  List.mem_filter

theorem printable_replaced {later : Cache} {left right : List Entry}
    {old new : Entry} (printable : ∀ e ∈ actives cache, e.Printable)
    (slots : cache.slots = left ++ old :: right)
    (written : later.slots = left ++ new :: right) (fine : new.Printable) :
    ∀ e ∈ actives later, e.Printable := by
  intro e member
  obtain ⟨inside, active⟩ := mem_actives.mp member
  rw [written] at inside
  rcases List.mem_append.mp inside with early | rest
  · exact printable e (mem_actives.mpr ⟨by rw [slots]; simp [early], active⟩)
  · rcases List.mem_cons.mp rest with rfl | late
    · exact fine
    · exact printable e (mem_actives.mpr ⟨by rw [slots]; simp [late], active⟩)

theorem Updated.printable {later : Cache}
    (updated : Updated cache u.now u.mac u.hostname u.src later) (valid : u.Valid)
    (printable : ∀ e ∈ actives cache, e.Printable) :
    ∀ e ∈ actives later, e.Printable := by
  cases updated with
  | @found left right e slots key written _ =>
      have active : e.active = true := by
        rw [keyOf] at key
        split at key
        · assumption
        · cases key
      have inside : e ∈ actives cache :=
        mem_actives.mpr ⟨by rw [slots]; simp, active⟩
      exact printable_replaced printable slots written
        ((printable e inside).refresh valid)
  | free slots _ _ written _ =>
      exact printable_replaced printable slots written valid.printable
  | evicted slots _ _ _ written _ =>
      exact printable_replaced printable slots written valid.printable

theorem printable_updates {updates : List Update} (valid : ∀ u ∈ updates, u.Valid)
    (sound : Sound cache) (printable : ∀ e ∈ actives cache, e.Printable) :
    ∀ e ∈ actives (updates.foldl applyUpdate cache), e.Printable := by
  induction updates generalizing cache with
  | nil => exact printable
  | cons u updates induction =>
      have first : u.Valid := valid u (by simp)
      have named : u.mac ≠ [] :=
        List.ne_nil_of_length_eq_add_one first.macLength
      have sourced : u.src ≠ [] := by
        rcases first.src with same | same
        · rw [same]
          decide
        · rw [same]
          decide
      have updated := updated_hncCacheUpdate sound u.now named first.nameSolid
        sourced
      apply induction
      · intro other member
        exact valid other (by simp [member])
      · exact updated.sound sound (Nat.le_of_eq first.macLength)
      · exact updated.printable first printable

theorem printable_init : ∀ e ∈ actives init, e.Printable := by
  intro e member
  obtain ⟨inside, active⟩ := mem_actives.mp member
  rw [List.eq_of_mem_replicate inside] at active
  cases active

/-- A save and a load give back the entries exactly when no name has an escape
of more than 127 bytes. -/
theorem save_load_inverse_iff (updates : List Update)
    (valid : ∀ u ∈ updates, u.Valid) :
    (∀ r,
      r ∈ records (hncCacheLoad init
          (some (hncCacheSave (updates.foldl applyUpdate init)))) ↔
        r ∈ records (updates.foldl applyUpdate init)) ↔
      ∀ e ∈ actives (updates.foldl applyUpdate init),
        (e.hostname.flatMap escapeByte).length ≤ 127 :=
  records_load_save_iff (printable_updates valid sound_init printable_init)

/-- A phone that is found under a name of control characters. -/
def namedUpdate (name : String) : Update :=
  ⟨1776102264, phoneMac, name.toList, "dhcp".toList⟩

theorem valid_namedUpdate {name : String} (solid : name.toList ≠ [])
    (short : name.toList.length ≤ 63)
    (ascii : name.toList.all fun c => c.toNat < 128 && c != '\x00') :
    (namedUpdate name).Valid where
  macLength := show phoneMac.length = 17 by decide
  macPlain := show '"' ∉ phoneMac ∧ '\x00' ∉ phoneMac by decide
  nameSolid := solid
  nameShort := short
  nameText := by
    have char := List.all_eq_true.mp ascii
    refine ⟨name.toList, (encode_ascii ?_).symm, ?_⟩
    · intro c member
      have both := char c member
      simp only [Bool.and_eq_true, decide_eq_true_eq] at both
      exact both.1
    · intro member
      exact absurd (char _ member) (by decide)
  src := .inl rfl
  time := show -2 ^ 63 ≤ (1776102264 : Int) ∧ (1776102264 : Int) < 2 ^ 63 by
    decide

theorem mi10_save_load :
    (∀ r,
      r ∈ records (hncCacheLoad init (some (hncCacheSave
          ([namedUpdate "Mi-10 \"Pro\""].foldl applyUpdate init)))) ↔
        r ∈ records ([namedUpdate "Mi-10 \"Pro\""].foldl applyUpdate init)) ↔
      ∀ e ∈ actives ([namedUpdate "Mi-10 \"Pro\""].foldl applyUpdate init),
        (e.hostname.flatMap escapeByte).length ≤ 127 :=
  save_load_inverse_iff [namedUpdate "Mi-10 \"Pro\""]
    (List.forall_mem_singleton.mpr
      (valid_namedUpdate (by decide) (by decide) (by decide)))

/-- 22 control characters, which six bytes each stand for. -/
def controlName : String :=
  String.ofList (List.replicate 22 '\x01')

theorem control_name_is_cut :
    (namedUpdate controlName).Valid ∧
      ¬∀ r,
        r ∈ records (hncCacheLoad init (some (hncCacheSave
            ([namedUpdate controlName].foldl applyUpdate init)))) ↔
          r ∈ records ([namedUpdate controlName].foldl applyUpdate init) := by
  have valid : (namedUpdate controlName).Valid :=
    valid_namedUpdate (by decide) (by decide) (by decide)
  refine ⟨valid, ?_⟩
  intro same
  have printable := printable_updates (List.forall_mem_singleton.mpr valid)
    sound_init printable_init
  have fits := (records_load_save_iff printable).mp same
  have long : (actives ([namedUpdate controlName].foldl applyUpdate
      init)).all (fun e =>
        decide ((e.hostname.flatMap escapeByte).length ≤ 127)) = false := by
    decide +kernel
  apply Bool.false_ne_true
  rw [← long, List.all_eq_true]
  intro e member
  exact decide_eq_true (fits e member)

end Hnc.HostnameCache
