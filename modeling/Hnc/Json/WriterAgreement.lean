import Hnc.Json.DeviceStore
import Hnc.Lib.JsonDepth

/-!
# The two writers of a device

`json_update_device_safe` puts what is new in front of the other members,
`set_device_inner` behind them.  The first reads its literal from a file with one
`getline`, so the two agree up to the order of members exactly when nothing but
white space follows the first line of the literal.
-/

namespace Hnc

open Posix JsonText

namespace JsonSet

/-- `json_update_device_safe`. -/
def jsonUpdateDeviceSafe (file mac field jval : Text) : Option Text :=
  guardedCommit (SafeWriter.updateDevice (assign mac) (assign field)
    (firstLine jval) file)

theorem firstLine_eq (text : Text) :
    firstLine text = text.takeWhile (· != '\n') := by
  unfold firstLine
  induction text with
  | nil => rfl
  | cons c rest induction =>
      by_cases newline : c = '\n'
      · simp [records, newline]
      · rw [records, List.takeWhile_cons, ← induction]
        simp only [bne_iff_ne, ne_eq, newline]
        cases records rest with
        | nil => rfl
        | cons line lines => rfl

end JsonSet

/-- An object with a member in the place between two lists of members. -/
structure Placed (o : Obj) (key val : Text)
    (left right : List (Text × Json)) : Prop where
  split : ∃ before m after, o.members = before ++ m :: after ∧ m.key = key ∧
    m.val = val ∧ m.Spaced ∧ List.Forall₂ Member.Means before left ∧
    List.Forall₂ Member.Means after right
  hollow : blank o.hollow = true

variable {value : Json}

namespace Placed

variable {o : Obj} {key val : Text} {left right entries : List (Text × Json)}

theorem derives (placed : Placed o key val left right) (chars : Chars key)
    (denotes : Denotes val value) :
    Derives .value o.render (.object (left ++ (key, value) :: right)) := by
  obtain ⟨before, m, after, members, rfl, rfl, spaced, leftMeans,
    rightMeans⟩ := placed.split
  apply derives_of_reads placed.hollow
  rw [members]
  have reads : ∀ {members : List Member} {entries : List (Text × Json)},
      List.Forall₂ Member.Means members entries →
      List.Forall₂ Member.Reads members entries :=
    fun means => means.imp fun _ _ => Member.Means.reads
  exact List.rel_append (reads leftMeans)
    (.cons (reads_of_denotes spaced chars denotes) (reads rightMeans))

theorem unclosed (placed : Placed o key val left right) (chars : Chars key)
    (broken : Depth.Broken val) : Depth.Unclosed o.render := by
  obtain ⟨before, m, after, members, rfl, rfl, spaced, leftMeans,
    rightMeans⟩ := placed.split
  obtain ⟨all, hollow⟩ := o
  subst members
  have meant : ∀ {members : List Member} {entries : List (Text × Json)},
      List.Forall₂ Member.Means members entries →
      ∀ m ∈ members, ∃ entry, m.Means entry := by
    intro members entries means m member
    obtain ⟨entry, _, meaning⟩ := exists_meaning means member
    exact ⟨entry, meaning⟩
  exact broken.unclosed (meant leftMeans) (meant rightMeans) spaced chars

theorem oneField (key val : Text) :
    Placed (oneField key val) key val [] [] :=
  ⟨⟨[], written [] key val, [], rfl, rfl, rfl, ⟨rfl, rfl, rfl, rfl⟩, .nil,
    .nil⟩, rfl⟩

section

variable (space : blank o.hollow = true)
  (means : List.Forall₂ Member.Means o.members entries)
include space means

theorem prepend (key val : Text) :
    Placed (o.prepend key val) key val [] entries := by
  obtain ⟨members, hollow⟩ := o
  cases members with
  | nil =>
      cases means
      exact ⟨⟨[], _, [], rfl, rfl, rfl, ⟨rfl, rfl, rfl, space⟩, .nil, .nil⟩,
        space⟩
  | cons first rest =>
      exact ⟨⟨[], _, first :: rest, rfl, rfl, rfl, ⟨rfl, rfl, rfl, rfl⟩, .nil,
        means⟩, space⟩

theorem append (key val : Text) :
    Placed (o.append key val) key val entries [] := by
  obtain ⟨members, hollow⟩ := o
  cases members with
  | nil =>
      cases means
      exact ⟨⟨[], _, [], rfl, rfl, rfl,
        ⟨blank_append.mpr ⟨space, rfl⟩, rfl, rfl, rfl⟩, .nil, .nil⟩, space⟩
  | cons first rest =>
      exact ⟨⟨first :: rest, _, [], rfl, rfl, rfl, ⟨rfl, rfl, rfl, rfl⟩, means,
        .nil⟩, space⟩

/-- The place of a member whose value is changed. -/
theorem modify {m : Member} {after : List Member}
    (hit : findMember key o.members = some (m, after)) :
    ∃ left right, ∀ (val : Text) (trail : Member → Text),
      blank (trail m) = true →
      Placed (o.modify key fun m => { m with val := val, trail := trail m })
        key val left right := by
  obtain ⟨before, split, modified⟩ := Obj.split_of_findMember hit
  obtain ⟨named, _⟩ := findMember_mem hit
  rw [split] at means
  obtain ⟨left, entry, right, _, leftMeans, meant, rightMeans⟩ :=
    split_entries means
  refine ⟨left, right, fun val trail trailBlank => ?_⟩
  rw [modified]
  have spaced := meant.spaced
  exact ⟨⟨before, _, after, rfl, named, rfl,
    ⟨spaced.lead, spaced.gap, spaced.pad, trailBlank⟩, leftMeans, rightMeans⟩,
    space⟩

end

end Placed

/-- Both writers set the same member; a new one has another place. -/
theorem placed_writers {o : Obj} {entries : List (Text × Json)}
    (space : blank o.hollow = true)
    (means : List.Forall₂ Member.Means o.members entries)
    (key val other : Text) :
    ∃ left right left' right',
      Placed (SafeWriter.setFront o key val) key val left right ∧
      Placed (o.setBack key other) key other left' right' ∧
      ∀ value, Json.Alike (.object (left ++ (key, value) :: right))
        (.object (left' ++ (key, value) :: right')) := by
  unfold SafeWriter.setFront Obj.setBack
  cases hit : findMember key o.members with
  | none =>
      refine ⟨[], entries, entries, [], .prepend space means key val,
        .append space means key other, ?_⟩
      intro value
      exact .perm (List.perm_append_singleton (key, value) entries).symm
  | some found =>
      obtain ⟨m, after⟩ := found
      obtain ⟨left, right, placed⟩ := Placed.modify space means hit
      obtain ⟨_, before, split, _⟩ := findMember_mem hit
      obtain ⟨_, _, meant⟩ := exists_meaning means
        (show m ∈ o.members by simp [split])
      have kept : blank (SafeWriter.keptTrail m) = true := by
        unfold SafeWriter.keptTrail
        split
        · rfl
        · exact meant.spaced.trail
      exact ⟨left, right, left, right, placed val SafeWriter.keptTrail kept,
        placed other Member.trail meant.spaced.trail, fun _ => .refl _⟩

/-- The object of an address after `json_set.sh` set a field. -/
def frontField (device : Option Obj) (field val : Text) : Obj :=
  match device with
  | some o => SafeWriter.setFront o field val
  | none => oneField field val

theorem placed_fields {device : Option Obj}
    (means : ∀ o ∈ device, blank o.hollow = true ∧
      ∃ fields, List.Forall₂ Member.Means o.members fields)
    {field : Text} (plain : plainKey field = true) (val other : Text) :
    ∃ left right left' right',
      Placed (frontField device field val) field val left right ∧
      Placed (putField device field other) field other left' right' ∧
      ∀ value, Json.Alike (.object (left ++ (field, value) :: right))
        (.object (left' ++ (field, value) :: right')) := by
  have name := escapeName_plain plain
  cases device with
  | none =>
      refine ⟨[], [], [], [], .oneField field val, ?_, fun _ => .refl _⟩
      rw [putField, name]
      exact .oneField field other
  | some o =>
      obtain ⟨space, fields, inside⟩ := means o rfl
      rw [putField, name]
      exact placed_writers space inside field val other

theorem updateDevice_congr {left right : Text}
    (same : chomp (slurp left) = chomp (slurp right)) (mac field val : Text) :
    SafeWriter.updateDevice mac field val left =
      SafeWriter.updateDevice mac field val right := by
  rw [SafeWriter.updateDevice, SafeWriter.updateDevice, same]

theorem updateDevice_stored {file : Text} {f : Frame} {d : Obj}
    (text : chomp (slurp file) = f.body d) (wf : d.Wf) {mac : Text}
    {device : Option Obj} (holds : d.get mac = device.map Obj.render)
    (devices : ∀ o ∈ device, o.Wf) (field val : Text) :
    SafeWriter.updateDevice mac field val file = .ok (f.file
      (SafeWriter.setFront d mac (frontField device field val).render)) := by
  have same : chomp (slurp file) = chomp (slurp (f.file d)) := by
    rw [text, Frame.file, slurp_line, chomp_line]
  rw [updateDevice_congr same, SafeWriter.setFront]
  cases hit : findMember mac d.members with
  | none =>
      have absent : device = none := by
        simpa [Obj.get, hit] using holds.symm
      rw [SafeWriter.updateDevice_new f wf hit, absent, frontField,
        Devices.oneField_render]
  | some found =>
      obtain ⟨m, others⟩ := found
      obtain ⟨o, rfl, value⟩ : ∃ o, device = some o ∧ m.val = o.render := by
        simp only [Obj.get, hit] at holds
        cases device with
        | none => cases holds
        | some o => exact ⟨o, rfl, Option.some.inj holds⟩
      obtain ⟨before, _, modified⟩ := Obj.split_of_findMember hit
      have kept : SafeWriter.keptTrail m = m.trail := by
        simp [SafeWriter.keptTrail, value, SafeWriter.isBare_obj]
      rw [SafeWriter.updateDevice_old f wf hit value (devices o rfl),
        Obj.setValue, modified]
      rw [modified, kept]
      rfl

theorem chars_devices : Chars "devices".toList :=
  chars_of_escapeFree (by decide)

section

variable {file : Text} {f : Frame} {d d' : Obj}
  {before after devices : List (Text × Json)}
  (layout : RulesLayout file f d before after devices)
include layout

theorem denotes_file {tree : Json} (derives : Derives .value d'.render tree) :
    Denotes (f.file d')
      (.object (before ++ ("devices".toList, tree) :: after)) := by
  have field : (f.field d').Means ("devices".toList, tree) :=
    ⟨⟨f.blank_lead, f.blank_gap, f.blank_pad, f.blank_trail⟩,
      chars_devices, rfl, derives⟩
  have root : Derives .value (f.root d').render _ :=
    derives_object rfl (List.rel_append layout.before (.cons field layout.after))
  refine ⟨f.pre, _, f.post ++ ['\n'], ?_, f.blank_pre, root, ?_⟩
  · simp [Frame.file, Frame.body]
  · exact blank_append.mpr ⟨f.blank_post, by decide⟩

theorem not_isJson_file (unclosed : Depth.Unclosed d'.render) :
    ¬ IsJson (f.file d') := by
  have placed : Placed (f.root d') "devices".toList d'.render before after :=
    ⟨⟨f.before, f.field d', f.after, rfl, rfl, rfl,
      ⟨f.blank_lead, f.blank_gap, f.blank_pad, f.blank_trail⟩, layout.before,
      layout.after⟩, rfl⟩
  have root := placed.unclosed chars_devices unclosed.broken
  have text : f.file d' =
      f.pre ++ ((f.root d').render ++ (f.post ++ ['\n'])) := by
    simp [Frame.file, Frame.body]
  rw [text]
  exact Depth.not_isJson_of_unclosed root f.blank_pre
    (blank_append.mpr ⟨f.blank_post, by decide⟩)

end

/-- Both writers leave a file, and the files mean the same up to the order of
members. -/
def WritersAgree (file mac field lit : Text) : Prop :=
  ∃ left right leftTree rightTree,
    JsonSet.jsonUpdateDeviceSafe file mac field lit = some left ∧
    HncJson.setDeviceInner (assign mac) (assign field)
      (assign (doubleBackslash lit)) file = .ok right ∧
    Denotes left leftTree ∧ Denotes right rightTree ∧
    leftTree.Alike rightTree

/-- Nothing but white space follows the first line of a literal. -/
def endsOnFirstLine (lit : Text) : Bool :=
  blank (lit.dropWhile (· != '\n'))

theorem alike_member {left right left' right' : List (Text × Json)} {key : Text}
    {other : Json}
    (moved : ∀ value, Json.Alike (.object (left ++ (key, value) :: right)) (.object (left' ++ (key, value) :: right')))
    (alike : value.Alike other) :
    Json.Alike (.object (left ++ (key, value) :: right))
      (.object (left' ++ (key, other) :: right')) :=
  .trans (.member alike) (moved other)

/-- The first line of a literal has its value, or breaks every file it is
written into. -/
theorem firstLine_cases {lit : Text} (denotes : Denotes lit value) :
    if endsOnFirstLine lit then Denotes (JsonSet.firstLine lit) value
    else Depth.Broken (JsonSet.firstLine lit) := by
  have split := List.takeWhile_append_dropWhile (p := (· != '\n')) (l := lit)
  rw [JsonSet.firstLine_eq]
  split
  · rename_i ends
    rw [← split] at denotes
    exact (denotes_append_blank ends).mp denotes
  · rename_i goesOn
    cases behind : lit.dropWhile (· != '\n') with
    | nil => simp [endsOnFirstLine, behind, blank] at goesOn
    | cons c rest =>
        have newline : c = '\n' := by
          have head := List.head?_dropWhile_not (· != '\n') lit
          rw [behind] at head
          simpa using head
        rw [behind, newline] at split
        rw [← split] at denotes
        apply Depth.broken_of_newline denotes
        intro space
        apply goesOn
        rw [endsOnFirstLine, behind, newline]
        simpa [blank, isWs] using space

/-- The object of an address in a laid out file, with what it means. -/
theorem RulesLayout.exists_device {file : Text} {f : Frame} {d : Obj}
    {entries before after devices : List (Text × Json)}
    (layout : RulesLayout file f d before after devices)
    (tree : RulesTree entries devices) (mac : Text) :
    ∃ device : Option Obj, d.get mac = device.map Obj.render ∧
      ∀ o ∈ device, ∃ fields, PlainNames fields ∧ blank o.hollow = true ∧
        List.Forall₂ Member.Means o.members fields := by
  cases hit : findMember mac d.members with
  | none => exact ⟨none, by simp [Obj.get, hit], by simp⟩
  | some found =>
      obtain ⟨m, others⟩ := found
      obtain ⟨_, front, split, _⟩ := findMember_mem hit
      obtain ⟨o, fields, value, _, names, space, means⟩ :=
        layout.device tree (show m ∈ d.members by simp [split])
      refine ⟨some o, by simp [Obj.get, hit, value], ?_⟩
      intro other member
      cases Option.mem_some_iff.mp member
      exact ⟨fields, names, space, means⟩

/-- What both writers leave, for any texts in the place of the literal. -/
theorem written_files {file : Text} {entries devices : List (Text × Json)}
    (denotes : Denotes file (.object entries))
    (tree : RulesTree entries devices) {mac field : Text}
    (freeMac : escapeFree mac = true) (freeField : escapeFree field = true)
    (first lit : Text) :
    ∃ left right, SafeWriter.updateDevice mac field first file = .ok left ∧
      HncJson.setDeviceInner mac field lit file = .ok right ∧
      (∀ value, Denotes first value → Denotes lit value →
        ∃ leftTree rightTree, Denotes left leftTree ∧ Denotes right rightTree ∧
          leftTree.Alike rightTree) ∧
      (Depth.Broken first → ¬ IsJson left) := by
  obtain ⟨f, d, before, after, layout, _⟩ := exists_rulesLayout denotes tree
  obtain ⟨device, holds, meant⟩ := layout.exists_device tree mac
  have name := escapeName_plain (plainKey_of_escapeFree freeMac)
  have deviceAt : DeviceAt d mac device := by
    refine ⟨by rw [name]; exact holds, ?_⟩
    intro o member
    obtain ⟨fields, names, space, means⟩ := meant o member
    exact names.keyed space means
  have updated := updateDevice_stored layout.text (layout.wf tree) holds
    (fun o member => by
      obtain ⟨fields, names, space, means⟩ := meant o member
      exact names.wf space means) field first
  have set := HncJson.setDeviceInner_stored
    ⟨layout.text, layout.nested tree⟩ deviceAt field lit
  rw [name] at set
  obtain ⟨left, right, left', right', front, back, moved⟩ := placed_fields
    (fun o member => by
      obtain ⟨fields, _, space, means⟩ := meant o member
      exact ⟨space, fields, means⟩) (plainKey_of_escapeFree freeField) first lit
  obtain ⟨macs, macs', others, others', frontMac, backMac, movedMac⟩ :=
    placed_writers layout.hollow layout.devices mac
      (frontField device field first).render (putField device field lit).render
  have fieldChars := chars_of_escapeFree freeField
  have macChars := chars_of_escapeFree freeMac
  have asText : ∀ {text : Text} {tree : Json}, Derives .value text tree →
      Denotes text tree :=
    fun derives => ⟨[], _, [], by simp, rfl, derives, rfl⟩
  refine ⟨_, _, updated, set, ?_, ?_⟩
  · intro value firstValue litValue
    have leftDevices := frontMac.derives macChars
      (asText (front.derives fieldChars firstValue))
    have rightDevices := backMac.derives macChars
      (asText (back.derives fieldChars litValue))
    exact ⟨_, _, denotes_file layout leftDevices,
      denotes_file layout rightDevices,
      .member (alike_member movedMac (moved value))⟩
  · intro broken
    exact not_isJson_file layout (frontMac.unclosed macChars
      (front.unclosed fieldChars broken).broken)

/-- The two writers agree exactly on the literals that end on their first
line. -/
theorem writers_agree_iff {file : Text} {entries devices : List (Text × Json)}
    (denotes : Denotes file (.object entries))
    (tree : RulesTree entries devices) {mac field : Text}
    (freeMac : escapeFree mac = true) (freeField : escapeFree field = true)
    {lit : Text} {value : Json} (literal : Denotes lit value) :
    WritersAgree file mac field lit ↔ endsOnFirstLine lit = true := by
  obtain ⟨left, right, updated, set, agree, broken⟩ := written_files denotes
    tree freeMac freeField (JsonSet.firstLine lit) lit
  have cases := firstLine_cases literal
  rw [WritersAgree, JsonSet.jsonUpdateDeviceSafe, assign_of_escapeFree freeMac,
    assign_of_escapeFree freeField, assign_doubleBackslash, updated, set]
  constructor
  · rintro ⟨next, _, _, _, committed, _⟩
    by_contra goesOn
    rw [if_neg goesOn] at cases
    apply broken cases
    have same := JsonSet.guardedCommit_some committed
    cases same
    exact (Guard.jsonGuard_iff _).mp (JsonSet.guardedCommit_valid committed)
  · intro ends
    rw [if_pos ends] at cases
    obtain ⟨leftTree, rightTree, leftMeans, rightMeans, alike⟩ :=
      agree value cases literal
    have valid := (Guard.jsonGuard_iff left).mpr ⟨leftTree, leftMeans⟩
    refine ⟨left, right, leftTree, rightTree, ?_, rfl, leftMeans, rightMeans,
      alike⟩
    simp [JsonSet.guardedCommit, valid]

theorem number_agrees :
    endsOnFirstLine "1".toList = true ∧
    WritersAgree oneDevice "m".toList "b".toList "1".toList := by
  have literal : Denotes "1".toList (.number "1".toList) :=
    ⟨[], _, [], by simp, rfl, derives_one, rfl⟩
  exact ⟨by decide, (writers_agree_iff denotes_oneDevice rulesTree_oneDevice
    (by decide) (by decide) literal).mpr (by decide)⟩

/-- An array on two lines. -/
def twoLines : Text := "[1,\n1]".toList

theorem denotes_twoLines : Denotes twoLines
    (.array [.number "1".toList, .number "1".toList]) := by
  have last : Derives .elements "\n1".toList (.array [.number "1".toList]) :=
    @Derives.element ['\n'] ['1'] [] _ (by decide) derives_one rfl
  have elements : Derives .elements "1,\n1".toList
      (.array [.number "1".toList, .number "1".toList]) :=
    @Derives.elements [] ['1'] [] ['\n', '1'] _ _ rfl derives_one rfl last
  exact ⟨[], _, [], by decide, rfl, .array elements, rfl⟩

theorem refused_twoLines :
    JsonSet.jsonUpdateDeviceSafe oneDevice "m".toList "b".toList twoLines =
      none := by
  decide +kernel

theorem twoLines_disagree :
    ¬ ∀ (file : Text) (entries devices : List (Text × Json))
      (mac field lit : Text) (value : Json),
      Denotes file (.object entries) → RulesTree entries devices →
      escapeFree mac = true → escapeFree field = true → Denotes lit value →
      WritersAgree file mac field lit := by
  intro always
  obtain ⟨left, _, _, _, committed, _⟩ := always oneDevice _ _ "m".toList
    "b".toList twoLines _ denotes_oneDevice rulesTree_oneDevice (by decide)
    (by decide) denotes_twoLines
  rw [refused_twoLines] at committed
  cases committed

end Hnc
