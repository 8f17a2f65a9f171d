import Hnc.Json.Settings
import Hnc.Lib.JsonPlace
import Hnc.Lib.OrderedSet

/-!
# Arrays of strings

The array commands of `hnc_json` take the strings out of the text of an array
with one scanner and write the array anew.  Strings without escapes come back,
whatever the white space around them is.
-/

namespace Hnc

open Posix JsonText

variable {name : Text}

theorem PlainName.printable (plain : PlainName name) : isPrintable name = true :=
  isPrintable_of_escapeFree plain.free

theorem PlainName.oneLine (plain : PlainName name) : '\n' ∉ name :=
  oneLine_of_isPrintable plain.printable

theorem PlainName.noBackslash (plain : PlainName name) : '\\' ∉ name := by
  intro member
  exact absurd (List.all_eq_true.mp plain.free _ member) (by decide)

/-- The text without its newlines. -/
def joined (text : Text) : Text :=
  text.filter (· ≠ '\n')

theorem joined_append (left right : Text) :
    joined (left ++ right) = joined left ++ joined right :=
  List.filter_append _ _

variable {text : Text}

theorem joined_of_oneLine (oneLine : '\n' ∉ text) : joined text = text := by
  apply List.filter_eq_self.mpr
  intro c member
  exact decide_eq_true fun same => oneLine (same ▸ member)

variable {item : Text}

theorem joined_quote (plain : PlainName item) :
    joined (quote item) = quote item := by
  apply joined_of_oneLine
  simp [quote, plain.oneLine]

theorem quote_not_mem_joined {space : Text} (blanks : blank space = true) :
    '"' ∉ joined space := by
  intro member
  have white := List.all_eq_true.mp blanks _ (List.mem_filter.mp member).1
  exact absurd white (by decide)

namespace HncJson

theorem arrayItems_gap {gap : Text} (noQuote : '"' ∉ gap) (rest : Text) :
    arrayItems false false [] (gap ++ rest) =
      arrayItems false false [] rest := by
  induction gap with
  | nil => rfl
  | cons c gap induction =>
      simp only [List.mem_cons, not_or] at noQuote
      have other : c ≠ '"' := fun same => noQuote.1 same.symm
      rw [List.cons_append, arrayItems]
      simpa [other] using induction noQuote.2

theorem arrayItems_body (out : Text) {body rest : Text}
    (plain : plainKey body = true) (full : out ++ body ≠ []) :
    arrayItems true false out (body ++ '"' :: rest) =
      (out ++ body) :: arrayItems false false [] rest := by
  induction body generalizing out with
  | nil =>
      have nonempty : out ≠ [] := by simpa using full
      simp [arrayItems, nonempty]
  | cons c body induction =>
      simp only [plainKey, List.all_cons, Bool.and_eq_true, bne_iff_ne]
        at plain
      have tail := induction (out ++ [c]) plain.2 (by simp)
      rw [List.cons_append, arrayItems]
      simp [plain.1.1, plain.1.2, tail]

theorem arrayItems_quote (plain : plainKey item = true) (nonempty : item ≠ [])
    (rest : Text) :
    arrayItems false false [] (quote item ++ rest) =
      item :: arrayItems false false [] rest := by
  have inside := @arrayItems_body [] item rest plain (by simpa using nonempty)
  have text : quote item ++ rest = '"' :: (item ++ '"' :: rest) := by
    simp [quote]
  rw [text, arrayItems]
  simpa using inside

theorem arrayItems_string (derives : Derives .value text (.string item))
    (plain : PlainName item) {lead : Text} (blanks : blank lead = true)
    (rest : Text) :
    arrayItems false false [] (joined lead ++ (joined text ++ rest)) =
      item :: arrayItems false false [] rest := by
  cases derives with
  | string chars =>
      rw [joined_quote plain, arrayItems_gap (quote_not_mem_joined blanks),
        arrayItems_quote plain.plainKey plain.nonempty]

variable {items : List Text}

/-- The scanner finds the strings of an array, whatever its white space. -/
theorem arrayItems_elements {part : Part} {tree : Json}
    (derives : Derives part text tree) (isElements : part = .elements)
    (isArray : tree = .array (items.map .string))
    (plain : ∀ item ∈ items, PlainName item) (rest : Text) :
    arrayItems false false [] (joined text ++ rest) =
      items ++ arrayItems false false [] rest := by
  induction derives generalizing items rest with
  | @element lead text trail value leadBlank value_ trailBlank _ =>
      obtain ⟨item, others, rfl, rfl, none⟩ :=
        List.map_eq_cons_iff.mp (Json.array.inj isArray).symm
      cases List.map_eq_nil_iff.mp none
      have first := plain item List.mem_cons_self
      rw [joined_append, joined_append, List.append_assoc, List.append_assoc,
        arrayItems_string value_ first leadBlank,
        arrayItems_gap (quote_not_mem_joined trailBlank)]
      rfl
  | @elements lead text trail behind value values leadBlank value_ trailBlank _
      _ induction =>
      obtain ⟨item, others, rfl, rfl, later⟩ :=
        List.map_eq_cons_iff.mp (Json.array.inj isArray).symm
      have first := plain item List.mem_cons_self
      have comma : joined (trail ++ ',' :: behind) =
          joined (trail ++ [',']) ++ joined behind := by
        rw [← joined_append, List.append_assoc]
        rfl
      have noQuote : '"' ∉ joined (trail ++ [',']) := by
        rw [joined_append, List.mem_append, not_or]
        exact ⟨quote_not_mem_joined trailBlank, by decide⟩
      rw [joined_append, joined_append, comma, List.append_assoc,
        List.append_assoc, List.append_assoc,
        arrayItems_string value_ first leadBlank, arrayItems_gap noQuote,
        induction rfl (by rw [later])
          (fun other one => plain other (List.mem_cons_of_mem _ one))]
      rfl
  | _ => cases isElements

variable {val : Text}

theorem array_text (derives : Derives .value val (.array (items.map .string)))
    (plain : ∀ item ∈ items, PlainName item) :
    (∃ inner, val = '[' :: inner ++ [']']) ∧
      arrayItems false false [] (joined val) = items := by
  generalize array : Json.array (items.map .string) = tree at derives
  have closing : ∀ inner : Text, joined ('[' :: inner ++ [']']) =
      ['['] ++ (joined inner ++ [']']) := by
    intro inner
    have text : '[' :: inner ++ [']'] = ['['] ++ (inner ++ [']']) := rfl
    rw [text, joined_append, joined_append]
    rfl
  cases derives with
  | @noElements space blanks =>
      cases List.map_eq_nil_iff.mp (Json.array.inj array)
      refine ⟨⟨space, rfl⟩, ?_⟩
      rw [closing, arrayItems_gap (by decide),
        arrayItems_gap (quote_not_mem_joined blanks)]
      rfl
  | @array inner elements derives =>
      refine ⟨⟨inner, rfl⟩, ?_⟩
      rw [closing, arrayItems_gap (by decide),
        arrayItems_elements derives rfl array.symm plain]
      exact List.append_nil items
  | _ => cases array

theorem lines_of_items (plain : ∀ item ∈ items, PlainName item) :
    (items.flatMap fun item => (records item).filter (· ≠ [])) = items := by
  induction items with
  | nil => rfl
  | cons item items induction =>
      have first := plain item List.mem_cons_self
      have line := records_line first.oneLine first.nonempty
      rw [List.flatMap_cons, line,
        induction fun other one => plain other (List.mem_cons_of_mem _ one)]
      simp [first.nonempty]

theorem readItems_of_derives
    (derives : Derives .value val (.array (items.map .string)))
    (plain : ∀ item ∈ items, PlainName item) : readItems val = items := by
  have scanned := (array_text derives plain).2
  rw [joined] at scanned
  rw [readItems, scanned, lines_of_items plain]

theorem quoteString_of_escapeFree {v : Text} (free : escapeFree v = true) :
    quoteString v = quote v := by
  rw [quoteString_of_isPrintable (isPrintable_of_escapeFree free),
    escapeName_plain (plainKey_of_escapeFree free)]

theorem intercalate_cons (first : Text) (rest : List Text) :
    List.intercalate [','] (first :: rest) =
      first ++ rest.flatMap fun item => ',' :: item := by
  induction rest generalizing first with
  | nil => simp [List.intercalate]
  | cons second others induction =>
      have tail := induction second
      simp only [List.intercalate, List.intersperse_cons_cons,
        List.flatten_cons] at tail ⊢
      rw [tail]
      simp

/-- The text behind the first item of the array. -/
def laterItems (items : List Text) : Text :=
  items.flatMap fun item => ',' :: quote item

theorem renderArray_cons {first : Text} {others : List Text}
    (plain : ∀ item ∈ first :: others, PlainName item) :
    renderArray (first :: others) =
      '[' :: (quote first ++ laterItems others) ++ [']'] := by
  have same : (first :: others).map quoteString =
      quote first :: others.map quote := by
    exact List.map_congr_left fun item one =>
      quoteString_of_escapeFree (plain item one).free
  rw [renderArray, same, intercalate_cons, List.flatMap_map]
  rfl

theorem derives_items {first : Text} {others : List Text}
    (plain : ∀ item ∈ first :: others, PlainName item) :
    Derives .elements (quote first ++ laterItems others)
      (.array ((first :: others).map .string)) := by
  induction others generalizing first with
  | nil =>
      have one := plain first List.mem_cons_self
      exact @Derives.element [] _ [] _ rfl
        (.string (chars_of_escapeFree one.free)) rfl
  | cons second others induction =>
      have one := plain first List.mem_cons_self
      have later := induction fun other member =>
        plain other (List.mem_cons_of_mem _ member)
      have text : laterItems (second :: others) =
          [] ++ ',' :: (quote second ++ laterItems others) := by
        simp [laterItems]
      exact @Derives.elements [] _ [] _ _ _ rfl
        (.string (chars_of_escapeFree one.free)) rfl later

theorem derives_renderArray (plain : ∀ item ∈ items, PlainName item) :
    Derives .value (renderArray items) (.array (items.map .string)) := by
  cases items with
  | nil => exact @Derives.noElements [] rfl
  | cons first others =>
      rw [renderArray_cons plain]
      exact .array (derives_items plain)

theorem noBackslash_renderArray (plain : ∀ item ∈ items, PlainName item) :
    '\\' ∉ renderArray items := by
  cases items with
  | nil => decide
  | cons first others =>
      have one := plain first List.mem_cons_self
      have later : ∀ item ∈ others, '\\' ∉ item := fun item member =>
        (plain item (List.mem_cons_of_mem _ member)).noBackslash
      rw [renderArray_cons plain]
      simp [laterItems, quote, one.noBackslash]
      exact later

/-- The array that `get_top` prints is the current one. -/
theorem currentArray_array {file key : Text}
    (printed : getTop file key = .ok (val ++ ['\n']))
    (derives : Derives .value val (.array (items.map .string)))
    (plain : ∀ item ∈ items, PlainName item) :
    currentArray file key = some val := by
  obtain ⟨⟨inner, shape⟩, _⟩ := array_text derives plain
  have bracketed : val.head? = some '[' ∧ val.getLast? = some ']' ∧
      2 ≤ val.length := by
    rw [shape]
    refine ⟨rfl, List.getLast?_concat, ?_⟩
    simp
  have nonempty : val ≠ [] := by
    rw [shape]
    exact List.cons_ne_nil _ _
  rw [currentArray, printed]
  simp only [JsonSet.captured_line derives.val, if_neg nonempty,
    if_pos bracketed]

/-- An array of plain strings reaches the awk program as it was rendered. -/
theorem setTop_renderArray (plain : ∀ item ∈ items, PlainName item) {key : Text}
    (nonempty : key ≠ []) (file : Text) :
    setTop file key (renderArray items) .json =
      commit file (setTopInner (assign key) (renderArray items) file) := by
  have derives := derives_renderArray plain
  have slashes := assign_of_no_backslash (noBackslash_renderArray plain)
  generalize renderArray items = val at derives slashes ⊢
  have valid : Guard.jsonGuard (val ++ ['\n']) = true :=
    (Guard.jsonGuard_iff _).mpr ⟨_, denotes_append_newline.mpr
      ⟨[], val, [], (List.append_nil val).symm, rfl, derives, rfl⟩⟩
  obtain ⟨init, c, last, solid⟩ := derives.val.last
  have line : captured val = val := by
    apply captured_of_last
    rintro c' isLast rfl
    rw [last, List.getLast?_concat] at isLast
    rw [Option.some.inj isLast] at solid
    exact absurd solid (by decide)
  rw [setTop, if_neg nonempty, jsonLiteral, if_pos valid, line]
  simp only [if_true, slashes]

end HncJson

end Hnc

/-!
## The blacklist as a set

`bl_add` and `bl_del` find the blacklist by its name, read its addresses and
write the array anew.  As long as their search stops at the blacklist itself,
a run of calls does to the addresses what the updates of a set do, and leaves
the other members alone.
-/

namespace Hnc

open Posix JsonText

/-- A valid rules file with an array of addresses, written without escapes,
under the first name that is `blacklist` for a reader that drops backslashes. -/
structure BlacklistFile (left : List (Text × Json)) (name : Text)
    (right : List (Text × Json)) (macs : List Text) (file : Text) : Prop where
  denotes : Denotes file (.object
    (left ++ (name, .array (macs.map .string)) :: right))
  named : readName false name = "blacklist".toList
  first : ∀ entry ∈ left, readName false entry.1 ≠ "blacklist".toList
  plain : ∀ mac ∈ macs, PlainName mac

namespace BlacklistFile

variable {left right : List (Text × Json)} {name : Text} {macs : List Text}
  {file : Text}

/-- The search stops at that member. -/
theorem member (blacklist : BlacklistFile left name right macs file) :
    ∃ o m after, ObjectFile file o
        (left ++ (name, .array (macs.map .string)) :: right) ∧
      m.Means (name, .array (macs.map .string)) ∧
      findMember (o.keyOf "blacklist".toList) o.members = some (m, after) ∧
      o.keyOf "blacklist".toList = name := by
  obtain ⟨o, object⟩ := exists_objectFile blacklist.denotes
  obtain ⟨before, m, after, split, meansLeft, means, _⟩ :=
    split_members object.means
  have others : ∀ other ∈ before, other.name ≠ "blacklist".toList := by
    intro other member
    obtain ⟨entry, inside, meant⟩ := exists_meaning meansLeft member
    rw [Member.name, ← meant.name]
    exact blacklist.first entry inside
  have reads : m.name = "blacklist".toList := by
    rw [Member.name, ← means.name]
    exact blacklist.named
  have found : findNamed "blacklist".toList o.members = some (m, after) := by
    rw [split]
    exact findNamed_of_split others reads after
  have key : o.keyOf "blacklist".toList = name := by
    rw [Obj.keyOf, keyAmong, found]
    exact means.name.symm
  refine ⟨o, m, after, object, means, ?_, key⟩
  rw [Obj.findMember_keyOf]
  exact found

theorem currentArray (blacklist : BlacklistFile left name right macs file) :
    ∃ val, HncJson.currentArray file "blacklist".toList = some val ∧
      HncJson.readItems val = macs := by
  obtain ⟨o, m, after, object, means, hit, _⟩ := blacklist.member
  have printed : HncJson.getTop file "blacklist".toList =
      .ok (m.val ++ ['\n']) := by
    rw [object.getTop (by decide), HncJson.topAnswer, hit]
  exact ⟨m.val,
    HncJson.currentArray_array printed means.value blacklist.plain,
    HncJson.readItems_of_derives means.value blacklist.plain⟩

/-- Writing an array of plain strings changes that member alone. -/
theorem setTop (blacklist : BlacklistFile left name right macs file)
    {new : List Text} (plain : ∀ mac ∈ new, PlainName mac) :
    ∃ next, HncJson.setTop file "blacklist".toList (HncJson.renderArray new)
        .json = some next ∧ BlacklistFile left name right new next := by
  obtain ⟨o, _, _, object, _, _, key⟩ := blacklist.member
  have others : ∀ entry ∈ left, entry.1 ≠ name := by
    intro entry member same
    apply blacklist.first entry member
    rw [same]
    exact blacklist.named
  obtain ⟨next, committed, denotes⟩ := object.commit_setTopInner_first others
    key (by decide) (HncJson.derives_renderArray plain)
  refine ⟨next, ?_, denotes, blacklist.named, blacklist.first, plain⟩
  have field : assign "blacklist".toList = "blacklist".toList := by decide
  rw [HncJson.setTop_renderArray plain (by decide)]
  exact committed

end BlacklistFile

open OrderedSet

/-- `json_set.sh bl_add <mac>` and `json_set.sh bl_del <mac>`. -/
def blacklistCall (file : Text) : Update Text → Option Text
  | .add mac => JsonSet.blAdd file mac
  | .del mac => JsonSet.blDel file mac

theorem plain_apply {set : List Text} (plain : ∀ mac ∈ set, PlainName mac)
    {update : Update Text} (named : PlainName update.element) :
    ∀ mac ∈ apply set update, PlainName mac := by
  intro mac member
  rw [mem_apply] at member
  split at member
  · rename_i same
    exact same ▸ named
  · exact plain mac member

namespace BlacklistFile

variable {left right : List (Text × Json)} {name : Text} {macs : List Text}
  {file : Text}

/-- One call is one change of the set. -/
theorem call (blacklist : BlacklistFile left name right macs file)
    {update : Update Text} (named : PlainName update.element) :
    ∃ next, blacklistCall file update = some next ∧
      BlacklistFile left name right (apply macs update) next := by
  obtain ⟨val, current, items⟩ := blacklist.currentArray
  obtain ⟨next, written, kept⟩ :=
    blacklist.setTop (plain_apply blacklist.plain named)
  refine ⟨next, ?_, kept⟩
  have field : "blacklist".toList ≠ [] := by decide
  cases update with
  | add mac =>
      have nonempty : mac ≠ [] := named.nonempty
      have added : HncJson.arrayAddUnique file "blacklist".toList mac =
          some next := by
        have grown : (if mac ∈ macs then macs else macs ++ [mac]) =
            apply macs (.add mac) := by
          by_cases member : mac ∈ macs
          · rw [if_pos member, apply, if_pos member]
          · rw [if_neg member, apply, if_neg member]
        rw [HncJson.arrayAddUnique, if_neg (not_or.mpr ⟨field, nonempty⟩),
          current]
        simp only [items, grown]
        exact written
      rw [blacklistCall, JsonSet.blAdd, if_neg nonempty, added]
  | del mac =>
      have nonempty : mac ≠ [] := named.nonempty
      have deleted : HncJson.arrayDelValue file "blacklist".toList mac =
          some next := by
        rw [HncJson.arrayDelValue, if_neg (not_or.mpr ⟨field, nonempty⟩),
          current]
        simp only [items]
        exact written
      rw [blacklistCall, JsonSet.blDel, if_neg nonempty, deleted]

theorem calls (blacklist : BlacklistFile left name right macs file)
    {updates : List (Update Text)}
    (named : ∀ update ∈ updates, PlainName update.element) :
    ∃ next, updates.foldlM blacklistCall file = some next ∧
      BlacklistFile left name right (run macs updates) next := by
  induction updates generalizing macs file with
  | nil => exact ⟨file, rfl, blacklist⟩
  | cons update updates induction =>
      obtain ⟨middle, first, kept⟩ :=
        blacklist.call (named update List.mem_cons_self)
      obtain ⟨next, later, done⟩ := induction kept fun other member =>
        named other (List.mem_cons_of_mem _ member)
      refine ⟨next, ?_, done⟩
      rw [List.foldlM_cons, first]
      exact later

/-- A run of calls changes the blacklist alone.  It stays without duplicates,
the last call for an address decides whether it is there, and the addresses
that were never taken out keep their order. -/
theorem blacklist_is_set
    (blacklist : BlacklistFile left "blacklist".toList right macs file)
    (nodup : macs.Nodup) {updates : List (Update Text)}
    (named : ∀ update ∈ updates, PlainName update.element) :
    ∃ (next : Text) (set : List Text),
      updates.foldlM blacklistCall file = some next ∧
      Denotes next (.object
        (left ++ ("blacklist".toList, .array (set.map .string)) :: right)) ∧
      set.Nodup ∧
      (∀ mac, mac ∈ set ↔ Member (mac ∈ macs) (lastUpdate updates mac)) ∧
      (macs.filter fun mac => OrderedSet.Update.del mac ∉ updates).Sublist
        set := by
  obtain ⟨next, done, kept⟩ := blacklist.calls named
  exact ⟨next, run macs updates, done, kept.denotes, nodup_run nodup updates,
    mem_run macs updates, sublist_run macs updates⟩

def phone : Text :=
  "aa:bb:cc:dd:ee:01".toList

def tablet : Text :=
  "aa:bb:cc:dd:ee:02".toList

theorem plain_phone : PlainName phone :=
  ⟨by decide, by decide⟩

theorem plain_tablet : PlainName tablet :=
  ⟨by decide, by decide⟩

/-- `{"blacklist":["aa:bb:cc:dd:ee:01"]}`. -/
def phoneList : Text :=
  (Obj.mk [bare "blacklist".toList (HncJson.renderArray [phone])] []).render ++
    ['\n']

theorem phoneListed :
    BlacklistFile [] "blacklist".toList [] [phone] phoneList where
  denotes := ⟨[], _, ['\n'], rfl, rfl,
    derives_bare (show escapeFree "blacklist".toList = true by decide)
      (HncJson.derives_renderArray (List.forall_mem_singleton.mpr plain_phone)),
    rfl⟩
  named := by decide
  first := by simp
  plain := List.forall_mem_singleton.mpr plain_phone

theorem tablet_takes_the_place :
    ∃ (next : Text) (set : List Text),
      [Update.add tablet, .del phone].foldlM blacklistCall phoneList =
        some next ∧
      Denotes next (.object
        ([] ++ ("blacklist".toList, .array (set.map .string)) :: [])) ∧
      tablet ∈ set ∧ phone ∉ set := by
  have named : ∀ update ∈ [Update.add tablet, .del phone],
      PlainName update.element := by
    simp [Update.element, plain_phone, plain_tablet]
  obtain ⟨next, set, done, denotes, _, member, _⟩ :=
    blacklist_is_set phoneListed (List.nodup_singleton phone) named
  refine ⟨next, set, done, denotes, (member tablet).mpr ?_, ?_⟩
  · have last : lastUpdate [Update.add tablet, .del phone] tablet =
        some (.add tablet) := by decide
    rw [last]
    trivial
  · intro listed
    have last : lastUpdate [Update.add tablet, .del phone] phone =
        some (.del phone) := by decide
    have kept := (member phone).mp listed
    rw [last] at kept
    exact kept

/-- `{"\blacklist":[],"blacklist":[]}`, whose first name starts with a
backspace. -/
def lookAlike : Text :=
  (Obj.mk [bare "\\blacklist".toList (HncJson.renderArray []),
    bare "blacklist".toList (HncJson.renderArray [])] []).render ++ ['\n']

theorem denotes_lookAlike : Denotes lookAlike
    (.object ([("\\blacklist".toList, .array [])] ++
      ("blacklist".toList, .array []) :: [])) := by
  have empty : Derives .value (HncJson.renderArray []) (.array []) :=
    @Derives.noElements [] rfl
  have spelled : Chars "\\blacklist".toList :=
    .escape (by decide) (chars_of_escapeFree (by decide))
  have first : (bare "\\blacklist".toList (HncJson.renderArray [])).Means
      ("\\blacklist".toList, .array []) :=
    ⟨⟨rfl, rfl, rfl, rfl⟩, spelled, rfl, empty⟩
  have second := means_bare
    (show escapeFree "blacklist".toList = true by decide) empty
  exact ⟨[], _, ['\n'], rfl, rfl,
    derives_object rfl (.cons first (.cons second .nil)), rfl⟩

theorem lookAlike_first {macs : List Text} {next : Text}
    (plain : ∀ mac ∈ macs, PlainName mac) {value : Json}
    (denotes : Denotes next (.object
      ([("\\blacklist".toList, .array (macs.map .string))] ++
        ("blacklist".toList, value) :: []))) :
    BlacklistFile [] "\\blacklist".toList [("blacklist".toList, value)] macs
      next :=
  ⟨denotes, by decide, by simp, plain⟩

/-- `bl_add` writes into the member in front. -/
theorem lookAlike_takes_the_address :
    ¬ ∀ (left right : List (Text × Json)) (macs : List Text) (file : Text)
        (updates : List (Update Text)) (next : Text),
      Denotes file (.object
        (left ++ ("blacklist".toList, .array (macs.map .string)) :: right)) →
      macs.Nodup → (∀ mac ∈ macs, JsonSetBatch.isMacLine mac = true) →
      (∀ update ∈ updates, JsonSetBatch.isMacLine update.element = true) →
      updates.foldlM blacklistCall file = some next →
      ∃ set : List Text, Denotes next (.object
          (left ++ ("blacklist".toList, .array (set.map .string)) :: right)) ∧
        set.Nodup ∧
        (∀ mac, mac ∈ set ↔ Member (mac ∈ macs) (lastUpdate updates mac)) ∧
        (macs.filter fun mac => OrderedSet.Update.del mac ∉ updates).Sublist
          set := by
  intro always
  have before := @lookAlike_first [] lookAlike (by simp) _ denotes_lookAlike
  obtain ⟨next, added, written⟩ :=
    before.call (show PlainName (Update.add phone).element from plain_phone)
  have done : [Update.add phone].foldlM blacklistCall lookAlike =
      some next := by
    rw [List.foldlM_cons, added]
    rfl
  obtain ⟨set, denotes, _⟩ := always _ [] [] lookAlike [.add phone] next
    denotes_lookAlike List.nodup_nil (by simp)
    (List.forall_mem_singleton.mpr (by decide)) done
  have claimed := @lookAlike_first [] next (by simp) _ denotes
  obtain ⟨val, current, items⟩ := written.currentArray
  obtain ⟨val', current', items'⟩ := claimed.currentArray
  rw [current] at current'
  rw [← Option.some.inj current', items] at items'
  cases items'

end BlacklistFile

end Hnc
