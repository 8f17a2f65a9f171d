import Hnc.Json.StringArrays
import Hnc.Rules.MarkStore

/-!
# The blacklist of `rules.json`

`bl_add` and `bl_del` rewrite the array of addresses in place; the pattern for
`mark_id` matches nothing in it.
-/

namespace Hnc.ApplyDeviceRule

open Posix JsonText

/-! ### The text of the array -/

theorem plainName_mac (mac : Mac) : PlainName mac.text := by
  refine ⟨mac.text_ne_nil, List.all_eq_true.mpr ?_⟩
  intro c member
  have plain := List.all_eq_true.mp mac.plain_text c member
  have visible : isControl c = false := by
    rcases mac.chars c member with hex | rfl
    · simp only [isLowerHex, isDigit, Bool.or_eq_true, Bool.and_eq_true,
        decide_eq_true_eq, Char.reduceToNat] at hex
      simp only [isControl, decide_eq_false_iff_not]
      omega
    · decide
  rw [visible, Bool.and_comm (c != '\\'), plain]
  rfl

theorem plain_macs (macs : List Mac) :
    ∀ item ∈ macs.map Mac.text, PlainName item := by
  intro item member
  obtain ⟨mac, _, rfl⟩ := List.mem_map.mp member
  exact plainName_mac mac

theorem quoteString_mac (mac : Mac) :
    HncJson.quoteString mac.text = quote mac.text :=
  HncJson.quoteString_of_escapeFree (plainName_mac mac).free

/-- The array of some addresses. -/
def listed (macs : List Mac) : Text :=
  HncJson.renderArray (macs.map Mac.text)

theorem listed_nil : listed [] = ['[', ']'] :=
  rfl

/-- The text behind the first item of the array. -/
def itemsBehind (macs : List Mac) : Text :=
  (macs.flatMap fun mac => ',' :: quote mac.text) ++ [']']

theorem itemsBehind_cons (mac : Mac) (macs : List Mac) :
    itemsBehind (mac :: macs) = [','] ++ (quote mac.text ++ itemsBehind macs) := by
  simp [itemsBehind]

theorem follows_itemsBehind (macs : List Mac) (rest : Text) :
    Follows (itemsBehind macs ++ rest) := by
  cases macs with
  | nil => exact .inr ⟨']', rest, rfl, by simp⟩
  | cons mac macs => exact .inr ⟨',', _, rfl, by simp⟩

theorem listed_cons (mac : Mac) (macs : List Mac) :
    listed (mac :: macs) = ['['] ++ (quote mac.text ++ itemsBehind macs) := by
  rw [listed, List.map_cons, HncJson.renderArray_cons (plain_macs (mac :: macs)),
    HncJson.laterItems, List.flatMap_map]
  simp [itemsBehind]

theorem val_listed (macs : List Mac) : Val (listed macs) := by
  have behind : ∀ macs : List Mac,
      Bal (macs.flatMap fun mac => ',' :: quote mac.text) := by
    intro macs
    induction macs with
    | nil => exact .nil
    | cons mac macs induction =>
        have comma : ',' :: quote mac.text = [','] ++ quote mac.text := rfl
        rw [List.flatMap_cons, comma]
        exact Bal.append (Bal.append (bal_of_plain (by decide))
          (bal_quote (body_of_plainKey mac.plain_text))) induction
  cases macs with
  | nil => exact @Val.square [] .nil
  | cons mac macs =>
      have text : listed (mac :: macs) = '[' :: (quote mac.text ++
          macs.flatMap fun mac => ',' :: quote mac.text) ++ [']'] := by
        rw [listed_cons]
        simp [itemsBehind]
      rw [text]
      exact Val.square (Bal.append (bal_quote (body_of_plainKey mac.plain_text))
        (behind macs))

theorem hits_item (mac : Mac) {rest : Text} (follows : Follows rest) :
    hits (named "mark_id".toList markBehind) (quote mac.text) rest = [] := by
  have silent := @colon_silent _ (run isDigit) [] rest rfl follows
  exact hits_quote_silent markId_keyName (apart_of_follows follows) silent
    (body_of_plainKey mac.plain_text)

theorem hits_itemsBehind (macs : List Mac) (rest : Text) :
    hits (named "mark_id".toList markBehind) (itemsBehind macs) rest = [] := by
  induction macs with
  | nil => exact hits_of_not_mem _ (by simp [itemsBehind]) _
  | cons mac macs induction =>
      rw [itemsBehind_cons, hits_append, hits_append,
        hits_item mac (follows_itemsBehind macs rest), induction]
      rfl

theorem mute_listed (macs : List Mac) : MuteValue (listed macs) := by
  cases macs with
  | nil => exact muteValue_of_not_mem (by decide)
  | cons mac macs =>
      intro trail rest _ _
      rw [listed_cons, hits_append, hits_append,
        hits_item mac (follows_itemsBehind macs _), hits_itemsBehind]
      rfl

theorem not_mem_listed {c : Char} (free : ∀ mac : Mac, c ∉ mac.text)
    (other : c ∉ ['[', '"', ',', ']']) (macs : List Mac) : c ∉ listed macs := by
  simp only [List.mem_cons, List.not_mem_nil, or_false, not_or] at other
  have item : ∀ mac : Mac, c ∉ quote mac.text := by
    intro mac
    simp [quote, free mac, other]
  cases macs with
  | nil => simp [listed_nil, other]
  | cons mac macs =>
      rw [listed_cons]
      simp only [itemsBehind, List.mem_append, List.mem_flatMap, List.mem_cons,
        List.not_mem_nil, or_false, not_or, not_exists, not_and]
      refine ⟨other.1, item mac, ?_, other.2.2.2⟩
      intro next _
      exact ⟨other.2.2.1, item next⟩

theorem oneLine_listed (macs : List Mac) : '\n' ∉ listed macs :=
  not_mem_listed (fun mac => mac.not_mem (by decide) (by decide)) (by decide) macs

theorem assign_listed (macs : List Mac) : assign (listed macs) = listed macs :=
  assign_of_no_backslash (not_mem_listed
    (fun mac => mac.not_mem (by decide) (by decide)) (by decide) macs)

theorem readItems_listed (macs : List Mac) :
    HncJson.readItems (listed macs) = macs.map Mac.text :=
  HncJson.readItems_of_derives (HncJson.derives_renderArray (plain_macs macs))
    (plain_macs macs)

/-! ### The frame around the devices -/

/-- The blacklist of a frame: its first member with that key, an array of
addresses. -/
structure BlacklistAt (f : Frame) (left : List Member) (m : Member)
    (right : List Member) (macs : List Mac) : Prop where
  after : f.after = left ++ m :: right
  others : ∀ other ∈ f.before ++ left, other.key ≠ "blacklist".toList
  named : m.key = "blacklist".toList
  value : m.val = listed macs

/-- A frame with a blacklist in which the pattern for `mark_id` matches
nothing. -/
structure Framed (f : Frame) : Prop where
  silent : f.Silent "mark_id".toList markBehind
  blacklist : ∃ left m right macs, BlacklistAt f left m right macs

variable {next : Text}

section Place

variable {f : Frame} {left right : List Member} {m : Member} {macs : List Mac}
variable (place : BlacklistAt f left m right macs)

/-- The frame with another blacklist and other white space behind it. -/
def withBlacklist (place : BlacklistAt f left m right macs) (new : List Mac)
    (trail post : Text) (space : blank trail = true) (blanks : blank post = true) :
    Frame :=
  { f with
    after := left ++ { m with val := listed new, trail := trail } :: right
    post := post
    wf_after := by
      intro other member
      have wf := f.wf_after
      rw [place.after] at wf
      simp only [List.mem_append, List.mem_cons] at member
      rcases member with old | rfl | old
      · exact wf other (by simp [old])
      · have mWf := wf m (by simp)
        exact ⟨mWf.lead, mWf.key, mWf.gap, mWf.pad, val_listed new, space⟩
      · exact wf other (by simp [old])
    blank_post := blanks }

variable {post : Text}

theorem framed_withBlacklist (silent : f.Silent "mark_id".toList markBehind)
    (new : List Mac) {trail : Text} (space : blank trail = true)
    (blanks : blank post = true) :
    Framed (withBlacklist place new trail post space blanks) := by
  refine ⟨?_, left, _, right, new, rfl, place.others, place.named, rfl⟩
  intro other member
  rw [Frame.Silent, place.after] at silent
  simp only [withBlacklist, List.mem_append, List.mem_cons] at member
  rcases member with old | old | rfl | old
  · exact silent other (by simp [old])
  · exact silent other (by simp [old])
  · refine ⟨?_, ?_⟩
    · rw [place.named]
      decide
    · intro rest follows
      exact mute_listed new trail rest space follows
  · exact silent other (by simp [old])

/-- The members in front of the blacklist. -/
def inFront (f : Frame) (left : List Member) (devices : Obj) : List Member :=
  f.before ++ f.field devices :: left

include place in
theorem inFront_others (devices : Obj) :
    ∀ other ∈ inFront f left devices, other.key ≠ "blacklist".toList := by
  intro other member
  simp only [inFront, List.mem_append, List.mem_cons] at member
  rcases member with old | rfl | old
  · exact place.others other (by simp [old])
  · simp only [Frame.field]
    decide
  · exact place.others other (by simp [old])

include place in
theorem root_split (devices : Obj) :
    f.root devices = ⟨inFront f left devices ++ m :: right, []⟩ := by
  simp [Frame.root, inFront, place.after]

theorem root_withBlacklist (devices : Obj) (new : List Mac) {trail post : Text}
    (space : blank trail = true) (blanks : blank post = true) :
    (withBlacklist place new trail post space blanks).root devices =
      ⟨inFront f left devices ++
        { m with val := listed new, trail := trail } :: right, []⟩ := by
  simp [Frame.root, withBlacklist, Frame.field, inFront]

include place in
theorem findMember_blacklist (devices : Obj) :
    findMember "blacklist".toList (f.root devices).members = some (m, right) := by
  rw [root_split place]
  exact findMember_split (inFront_others place devices) place.named right

theorem topSet_blacklist (devices : Obj) (new : List Mac)
    (blanks : blank post = true) :
    HncJson.topSet (f.root devices) "blacklist".toList (listed new) =
      (withBlacklist place new [] post rfl blanks).root devices := by
  have changed := @root_withBlacklist f left right m macs place devices new []
    post rfl blanks
  rw [HncJson.topSet, findMember_blacklist place, changed, root_split place]
  simp only [Obj.modify,
    replaceFirst_split (inFront_others place devices) place.named]

theorem file_withBlacklist (devices : Obj) (new : List Mac) {trail post : Text}
    (space : blank trail = true) (blanks : blank post = true) :
    (withBlacklist place new trail post space blanks).file devices =
      f.pre ++ (((withBlacklist place new trail post space blanks).root
        devices).render ++ (post ++ ['\n'])) := by
  simp [Frame.file, Frame.body, withBlacklist]

variable {devices : Obj} (wf : devices.Wf)
variable (valid : Guard.jsonGuard (f.file devices) = true)

include place wf valid

theorem currentArray_file :
    HncJson.currentArray (f.file devices) "blacklist".toList = some (listed macs) := by
  have text : slurp (f.file devices) =
      f.pre ++ ((f.root devices).render ++ (f.post ++ ['\n'])) := by
    rw [Frame.file, slurp_line, Frame.body]
    simp
  have read := HncJson.getTopInner_obj (f.wf_root wf.shaped) f.blank_pre text
    "blacklist".toList
  rw [HncJson.topAnswer, findMember_blacklist place] at read
  have shape : (listed macs).head? = some '[' ∧
      (listed macs).getLast? = some ']' ∧ 2 ≤ (listed macs).length := by
    cases macs with
    | nil => decide
    | cons mac macs =>
        rw [listed_cons]
        have split : ['['] ++ (quote mac.text ++ itemsBehind macs) =
            ('[' :: (quote mac.text ++ macs.flatMap fun mac =>
              ',' :: quote mac.text)) ++ [']'] := by
          simp [itemsBehind]
        rw [split, List.getLast?_concat]
        refine ⟨rfl, rfl, ?_⟩
        simp only [List.length_append, List.length_cons]
        omega
  have printed : captured (m.val ++ ['\n']) = listed macs := by
    have last := captured_of_oneLine (oneLine_listed macs)
    rw [place.value]
    simpa [captured] using last
  have nonempty : listed macs ≠ [] := by
    intro empty
    rw [empty] at shape
    cases shape.1
  have key : assign "blacklist".toList = "blacklist".toList := by decide
  rw [HncJson.currentArray, HncJson.getTop, if_pos valid, key, read]
  simp only [printed, if_neg nonempty, if_pos shape]

omit valid in
theorem setTop_file {new : List Mac}
    (written : HncJson.setTop (f.file devices) "blacklist".toList (listed new) .json = some next) :
    Guard.jsonGuard next = true ∧ ∃ blanks, next =
      (withBlacklist place new [] (f.post ++ ['\n']) rfl blanks).file devices := by
  have text : slurp (f.file devices) =
      f.pre ++ ((f.root devices).render ++ (f.post ++ ['\n'])) := by
    rw [Frame.file, slurp_line, Frame.body]
    simp
  have blanks : blank (f.post ++ ['\n']) = true :=
    blank_append.mpr ⟨f.blank_post, rfl⟩
  have answer := HncJson.setTopInner_obj (f.wf_root wf.shaped) f.blank_pre text
    (show plainKey "blacklist".toList = true by decide) (listed new)
  have key : assign "blacklist".toList = "blacklist".toList := by decide
  have line := captured_of_oneLine (oneLine_listed new)
  rw [HncJson.setTop, if_neg (by decide)] at written
  simp only [HncJson.jsonLiteral, line] at written
  split at written
  · cases written
  · rename_i lit read
    split at read
    · cases read
      simp only [if_true, assign_listed] at written
      refine ⟨HncJson.commit_valid written, blanks, ?_⟩
      have done := (HncJson.commit_some written).symm.trans answer
      cases done
      have whole := @file_withBlacklist f left right m macs place devices new []
        (f.post ++ ['\n']) rfl blanks
      rw [topSet_blacklist place devices new blanks, whole]
      simp
    · cases read

omit wf valid

/-- The text in front of the value of the blacklist. -/
def headText (f : Frame) (left : List Member) (m : Member) (devices : Obj) : Text :=
  f.pre ++ front (inFront f left devices) m

theorem body_at : f.body devices = headText f left m devices ++
    (listed macs ++ (m.trail ++ closing right f.post)) := by
  rw [Frame.body, root_split place, render_split, headText, Member.fromValue,
    place.value]
  simp

omit place in
theorem file_at (place : BlacklistAt f left m right macs) (new : List Mac)
    {trail : Text} (space : blank trail = true) (blanks : blank post = true) :
    (withBlacklist place new trail post space blanks).file devices =
      headText f left m devices ++
        (listed new ++ (trail ++ closing right post)) ++ ['\n'] := by
  have same : front (inFront f left devices)
      { m with val := listed new, trail := trail } =
        front (inFront f left devices) m := rfl
  rw [Frame.file, Frame.body, root_withBlacklist place devices new space blanks,
    render_split, same, headText, Member.fromValue]
  simp [withBlacklist]

include wf in
theorem findkey_blacklist :
    SafeWriter.findkey (f.body devices) "blacklist".toList 1 (f.body devices) [] =
      some ⟨m.fromKey ++ closing right f.post,
        listed macs ++ (m.trail ++ closing right f.post),
        m.trail ++ closing right f.post⟩ := by
  have found := SafeWriter.findkey_top f.blank_pre
    (f.wf_root wf.shaped).shaped f.blank_post
    "blacklist".toList
  have kept : SafeWriter.keptTrail m = m.trail := by
    have square : SafeWriter.isBare (listed macs) = false := by
      cases macs with
      | nil => decide
      | cons mac macs =>
          rfl
    simp [SafeWriter.keptTrail, place.value, square]
  rw [Frame.body, found, SafeWriter.foundIn, findMember_blacklist place]
  simp [kept, Member.fromValue, place.value]

end Place

theorem elementsLoop_item {b : Text} (mac : Mac) {rest : Text}
    (follows : Follows rest) (longer : b.length ≤ rest.length) (fuel : Nat) :
    SafeWriter.elementsLoop b (fuel + 1) (quote mac.text ++ rest) =
      quote mac.text :: SafeWriter.elementsLoop b fuel
        (if rest.head? = some ',' then SafeWriter.skipws rest.tail else rest) := by
  have start : SafeWriter.skipws (quote mac.text ++ rest) =
      '"' :: (mac.text ++ '"' :: rest) := by
    simp [SafeWriter.skipws, quote, isWs]
  have ends : SafeWriter.valend (quote mac.text ++ rest) = rest := by
    have string := SafeWriter.strend_body (body_of_plainKey mac.plain_text) rest
    rw [SafeWriter.valend, start]
    simp [string]
  have solid : SafeWriter.skipws rest = rest := by
    rcases follows with rfl | ⟨c, tail, rfl, stops⟩
    · rfl
    · rcases stops with rfl | rfl | rfl <;> simp [SafeWriter.skipws, isWs]
  have inside : b.length < (quote mac.text ++ rest).length := by
    simp only [List.length_append, quote, List.length_cons]
    omega
  rw [SafeWriter.elementsLoop, if_pos inside]
  simp only [ends, solid, upTo_append]

theorem elementsLoop_items {behind : Text} (mac : Mac) (macs : List Mac) {fuel : Nat}
    (enough : macs.length < fuel) :
    SafeWriter.elementsLoop (']' :: behind) fuel
        (quote mac.text ++ (itemsBehind macs ++ behind)) =
      (mac :: macs).map fun other => quote other.text := by
  induction macs generalizing mac fuel with
  | nil =>
      cases fuel with
      | zero => simp at enough
      | succ fuel =>
          have stop : SafeWriter.elementsLoop (']' :: behind) fuel (']' :: behind) =
              [] := by
            cases fuel with
            | zero => rfl
            | succ fuel => simp [SafeWriter.elementsLoop]
          have text : itemsBehind [] ++ behind = ']' :: behind := rfl
          rw [elementsLoop_item mac (follows_itemsBehind [] behind) (by simp [text]),
            text]
          simp [stop]
  | cons next macs induction =>
      cases fuel with
      | zero => simp at enough
      | succ fuel =>
          have tail := @induction next fuel (by
            simp only [List.length_cons] at enough
            omega)
          have text : itemsBehind (next :: macs) ++ behind =
              ',' :: (quote next.text ++ (itemsBehind macs ++ behind)) := by
            rw [itemsBehind_cons]
            simp
          have start : SafeWriter.skipws (quote next.text ++
              (itemsBehind macs ++ behind)) =
              quote next.text ++ (itemsBehind macs ++ behind) := by
            simp [SafeWriter.skipws, quote, isWs]
          have longer : (']' :: behind).length ≤
              (itemsBehind (next :: macs) ++ behind).length := by
            simp [itemsBehind]
            omega
          rw [elementsLoop_item mac (follows_itemsBehind _ behind) longer, text]
          simp only [List.head?_cons, if_true, List.tail_cons, start, tail]
          rfl

theorem elementsLoop_listed (macs : List Mac) (behind : Text) {fuel : Nat}
    (enough : macs.length ≤ fuel) :
    SafeWriter.elementsLoop (']' :: behind) fuel
        (SafeWriter.skipws (listed macs ++ behind).tail) =
      macs.map fun mac => quote mac.text := by
  cases macs with
  | nil =>
      have text : SafeWriter.skipws (listed [] ++ behind).tail = ']' :: behind := by
        simp [listed_nil, SafeWriter.skipws, isWs]
      rw [text]
      cases fuel with
      | zero => rfl
      | succ fuel => simp [SafeWriter.elementsLoop]
  | cons mac macs =>
      have text : SafeWriter.skipws (listed (mac :: macs) ++ behind).tail =
          quote mac.text ++ (itemsBehind macs ++ behind) := by
        rw [listed_cons]
        simp [SafeWriter.skipws, quote, isWs]
      rw [text]
      exact elementsLoop_items mac macs enough

theorem braceBefore_append (before behind : Text) (c : Char) :
    SafeWriter.braceBefore (before ++ c :: behind) behind = c :: behind := by
  have length : (before ++ c :: behind).length - (behind.length + 1) =
      before.length := by
    simp
  rw [SafeWriter.braceBefore, length]
  exact List.drop_left

theorem length_le_listed (macs : List Mac) : macs.length ≤ (listed macs).length := by
  cases macs with
  | nil => simp
  | cons mac macs =>
      have items : macs.length ≤ (itemsBehind macs).length := by
        induction macs with
        | nil => simp
        | cons other macs induction =>
            rw [itemsBehind_cons]
            simp only [List.length_append, List.length_cons]
            omega
      rw [listed_cons]
      simp only [List.length_append, List.length_cons]
      omega

theorem listed_open (macs : List Mac) : ∃ init, listed macs = init ++ [']'] := by
  cases macs with
  | nil => exact ⟨['['], rfl⟩
  | cons mac macs =>
      refine ⟨'[' :: (quote mac.text ++ macs.flatMap fun mac =>
        ',' :: quote mac.text), ?_⟩
      rw [listed_cons]
      simp [itemsBehind]

theorem assign_jsonStringEncode (mac : Mac) :
    assign (JsonSet.jsonStringEncode mac.text) = quote mac.text := by
  have visible : mac.text.filter (fun c => !isControl c) = mac.text := by
    rw [List.filter_eq_self]
    intro c member
    rcases mac.chars c member with hex | rfl
    · by_contra control
      simp only [isControl, Bool.not_eq_true', Bool.not_eq_false,
        decide_eq_true_eq] at control
      simp only [isLowerHex, isDigit, Bool.or_eq_true, Bool.and_eq_true,
        decide_eq_true_eq] at hex
      have bounds : '0'.toNat = 48 ∧ 'a'.toNat = 97 := by decide
      omega
    · decide
  have same : JsonSet.escapeInner mac.text = mac.text := by
    rw [JsonSet.escapeInner, visible]
    apply flatMap_self
    intro c member
    have plain := List.all_eq_true.mp mac.plain_text c member
    simp only [Bool.and_eq_true, bne_iff_ne] at plain
    simp [plain]
  rw [JsonSet.jsonStringEncode, same]
  apply assign_of_no_backslash
  have free := mac.not_mem (c := '\\') (by decide) (by decide)
  simp [free]

section Commands

variable {f : Frame} {left right : List Member} {m : Member} {macs : List Mac}
variable (place : BlacklistAt f left m right macs)
variable {devices : Obj} (wf : devices.Wf)

include place in
theorem blank_trail_blacklist : blank m.trail = true :=
  (f.wf_after m (by simp [place.after])).trail

theorem head_listed (macs : List Mac) (rest : Text) :
    (listed macs ++ rest).head? = some '[' := by
  cases macs with
  | nil => rfl
  | cons other macs =>
      rfl

include place in
theorem body_open : ∃ init, listed macs = init ++ [']'] ∧
    f.body devices = (headText f left m devices ++ init) ++
      ']' :: (m.trail ++ closing right f.post) := by
  obtain ⟨init, bracket⟩ := listed_open macs
  refine ⟨init, bracket, ?_⟩
  rw [body_at place, bracket]
  simp

include place in
theorem braceBefore_body :
    SafeWriter.braceBefore (f.body devices) (m.trail ++ closing right f.post) =
      ']' :: (m.trail ++ closing right f.post) := by
  obtain ⟨init, _, text⟩ := @body_open f left right m macs place devices
  rw [text]
  exact braceBefore_append _ _ _

include wf

theorem arrayAdd_file (mac : Mac)
    (added : SafeWriter.arrayAdd "blacklist".toList (quote mac.text) (f.file devices) = .ok next) :
    ∃ new, next = (withBlacklist place new m.trail f.post
      (blank_trail_blacklist place) f.blank_post).file devices := by
  obtain ⟨init, bracket, text⟩ := @body_open f left right m macs place devices
  rw [SafeWriter.arrayAdd, Frame.file, slurp_line, chomp_line] at added
  simp only [findkey_blacklist place wf, if_pos (head_listed macs _),
    braceBefore_body place] at added
  split at added
  · refine ⟨macs, ?_⟩
    cases added
    rw [file_at place, body_at place]
  · split at added
    · rename_i empty
      have none : macs = [] := by
        cases macs with
        | nil => rfl
        | cons other macs =>
            rw [listed_cons] at empty
            simp [SafeWriter.skipws, quote, isWs] at empty
      refine ⟨[mac], ?_⟩
      cases added
      rw [file_at place, body_at place, upTo_append, listed_cons]
      simp [itemsBehind]
    · rename_i full
      cases macs with
      | nil =>
          exact absurd (by simp [listed_nil, SafeWriter.skipws, isWs]) full
      | cons other macs =>
          refine ⟨other :: (macs ++ [mac]), ?_⟩
          have inner : init = ['['] ++ (quote other.text ++
              macs.flatMap fun mac => ',' :: quote mac.text) := by
            have both : init ++ [']'] = (['['] ++ (quote other.text ++
                macs.flatMap fun mac => ',' :: quote mac.text)) ++ [']'] := by
              rw [← bracket, listed_cons]
              simp [itemsBehind]
            exact List.append_cancel_right both
          cases added
          rw [file_at place, text, upTo_append, inner, listed_cons]
          simp [itemsBehind]

theorem arrayDel_file (mac : Mac)
    (deleted : SafeWriter.arrayDel "blacklist".toList (quote mac.text) (f.file devices) = .ok next) :
    ∃ new, next = (withBlacklist place new m.trail f.post
      (blank_trail_blacklist place) f.blank_post).file devices := by
  have enough : macs.length ≤ (f.body devices).length := by
    have items := length_le_listed macs
    rw [body_at place]
    simp only [List.length_append]
    omega
  have tokens := elementsLoop_listed macs (m.trail ++ closing right f.post) enough
  have injective : ∀ other : Mac, quote other.text = quote mac.text ↔
      other = mac := by
    intro other
    constructor
    · intro same
      simp only [quote, List.cons.injEq, true_and,
        List.append_cancel_right_eq] at same
      exact Mac.ext_text same
    · rintro rfl
      rfl
  have kept : (macs.map fun mac => quote mac.text).filter (· ≠ quote mac.text) =
      (macs.filter (· ≠ mac)).map fun mac => quote mac.text := by
    rw [List.filter_map]
    congr 1
    apply List.filter_congr
    intro other _
    simp [injective]
  have render : ∀ new : List Mac, listed new =
      '[' :: List.intercalate [','] (new.map fun mac => quote mac.text) ++ [']'] := by
    intro new
    rw [listed, HncJson.renderArray, List.map_map]
    congr 4
    funext other
    exact quoteString_mac other
  rw [SafeWriter.arrayDel, Frame.file, slurp_line, chomp_line] at deleted
  simp only [findkey_blacklist place wf, braceBefore_body place, tokens,
    kept] at deleted
  refine ⟨macs.filter (· ≠ mac), ?_⟩
  cases deleted
  rw [file_at place, body_at place, upTo_append, render (macs.filter (· ≠ mac))]
  simp

end Commands

/-- What a command on the blacklist makes of a file. -/
def Relisted (devices : Obj) (next : Text) : Prop :=
  Guard.jsonGuard next = true ∧ ∃ f : Frame, Framed f ∧ next = f.file devices

section Framed

variable {f : Frame} (framed : Framed f) {devices : Obj} (wf : devices.Wf)
variable (valid : Guard.jsonGuard (f.file devices) = true) (mac : Mac)

include framed wf valid

theorem blAdd_file (added : JsonSet.blAdd (f.file devices) mac.text = some next) :
    Relisted devices next := by
  obtain ⟨left, m, right, macs, place⟩ := framed.blacklist
  have items : ∃ new : List Mac, (if mac.text ∈ macs.map Mac.text then macs.map Mac.text
      else macs.map Mac.text ++ [mac.text]) = new.map Mac.text := by
    split
    · exact ⟨macs, rfl⟩
    · exact ⟨macs ++ [mac], by simp⟩
  obtain ⟨new, same⟩ := items
  rw [JsonSet.blAdd, if_neg mac.text_ne_nil, HncJson.arrayAddUnique,
    if_neg (by simp [mac.text_ne_nil]), currentArray_file place wf valid] at added
  simp only [readItems_listed, same] at added
  split at added
  · rename_i written set
    cases added
    obtain ⟨committed, blanks, text⟩ := setTop_file place wf set
    exact ⟨committed, _, framed_withBlacklist place framed.silent new rfl blanks,
      text⟩
  · rw [assign_jsonStringEncode] at added
    obtain ⟨new, text⟩ := arrayAdd_file place wf mac
      (JsonSet.guardedCommit_some added)
    exact ⟨JsonSet.guardedCommit_valid added, _,
      framed_withBlacklist place framed.silent new _ _, text⟩

theorem blDel_file (deleted : JsonSet.blDel (f.file devices) mac.text = some next) :
    Relisted devices next := by
  obtain ⟨left, m, right, macs, place⟩ := framed.blacklist
  have items : (macs.map Mac.text).filter (· ≠ mac.text) =
      (macs.filter (· ≠ mac)).map Mac.text := by
    rw [List.filter_map]
    congr 1
    apply List.filter_congr
    intro other _
    have same : other.text = mac.text ↔ other = mac :=
      ⟨Mac.ext_text, fun equal => by rw [equal]⟩
    simp [same]
  rw [JsonSet.blDel, if_neg mac.text_ne_nil, HncJson.arrayDelValue,
    if_neg (by simp [mac.text_ne_nil]), currentArray_file place wf valid] at deleted
  simp only [readItems_listed, items] at deleted
  split at deleted
  · rename_i written set
    cases deleted
    obtain ⟨committed, blanks, text⟩ := setTop_file place wf set
    exact ⟨committed, _, framed_withBlacklist place framed.silent _ rfl blanks,
      text⟩
  · rw [assign_jsonStringEncode] at deleted
    obtain ⟨new, text⟩ := arrayDel_file place wf mac
      (JsonSet.guardedCommit_some deleted)
    exact ⟨JsonSet.guardedCommit_valid deleted, _,
      framed_withBlacklist place framed.silent new _ _, text⟩

end Framed

end Hnc.ApplyDeviceRule
