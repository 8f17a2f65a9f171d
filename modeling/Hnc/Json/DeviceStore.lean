import Hnc.Json.RulesFile
import Hnc.Json.RulesLayout

/-!
# The device store of `hnc_json`

`set-device-batch` works on a copy of its file and moves the copy into place
when every triple went in, so that a batch is done as a whole or not at all.  On
a valid file each triple sets one field of one device, and nothing else.
-/

namespace Hnc

open Posix JsonText

/-- The type words of `json_literal`; no word at all is `str`. -/
def LiteralType.ofWord (word : Text) : Option LiteralType :=
  if word = [] ∨ word = "str".toList ∨ word = "string".toList then some .str
  else if word = "num".toList ∨ word = "number".toList then some .num
  else if word = "bool".toList ∨ word = "boolean".toList then some .bool
  else if word = "null".toList then some .null
  else if word = "json".toList ∨ word = "raw".toList then some .json
  else none

/-- One triple on the command line. -/
structure BatchArg where
  key : Text
  value : Text
  typ : Text
deriving DecidableEq

variable {arg : BatchArg}

namespace BatchArg

/-- The literal that is written for a triple. -/
def literal (arg : BatchArg) : Option Text :=
  (LiteralType.ofWord arg.typ).bind fun typ =>
    HncJson.jsonLiteral arg.value typ

def Clean (arg : BatchArg) : Prop :=
  ∀ typ, LiteralType.ofWord arg.typ = some typ → HncJson.Clean arg.value typ

theorem val_literal {lit : Text} (clean : arg.Clean)
    (literal : arg.literal = some lit) : Val lit := by
  obtain ⟨typ, isType, written⟩ := Option.bind_eq_some_iff.mp literal
  exact HncJson.val_jsonLiteral (clean typ isType) written

end BatchArg

variable {next : Text}

namespace HncJson

/-- The target of a batch, its backup and the two temporary files. -/
structure BatchFiles where
  target : Text
  bak : Option Text
  tmp : Option Text
  tmp2 : Option Text

/-- `rm -f "$tmp" "$tmp2"`. -/
def BatchFiles.cleared (files : BatchFiles) : BatchFiles :=
  { files with tmp := none, tmp2 := none }

/-- One round of the loop, with the exit code of a round that fails. -/
def batchRound (mac : Text) (files : BatchFiles) (arg : BatchArg) :
    Except (Nat × BatchFiles) BatchFiles :=
  if arg.key = [] then .error (2, files.cleared)
  else match arg.literal with
    | none => .error (2, files.cleared)
    | some lit =>
        match setDeviceInner (assign mac) (assign arg.key)
            (assign (doubleBackslash lit)) (files.tmp.getD []) with
        | .error _ => .error (1, files.cleared)
        | .ok next =>
            let written := { files with tmp2 := some next }
            if Guard.jsonGuard next then
              .ok { written with tmp := some next, tmp2 := none }
            else .error (1, written.cleared)

def batchLoop (mac : Text) : BatchFiles → List BatchArg →
    Except (Nat × BatchFiles) BatchFiles
  | files, [] => .ok files
  | files, arg :: args =>
      match batchRound mac files arg with
      | .error failed => .error failed
      | .ok next => batchLoop mac next args

/-- `set_device_batch`: the exit code and the files it leaves behind. -/
def setDeviceBatchRun (files : BatchFiles) (mac : Text)
    (args : List BatchArg) : Nat × BatchFiles :=
  if mac = [] ∨ args = [] then (2, files)
  else if Guard.jsonGuard files.target then
    let copied :=
      { files with bak := some files.target, tmp := some files.target }
    match batchLoop mac copied args with
    | .error failed => failed
    | .ok filled =>
        let candidate := filled.tmp.getD []
        if Guard.jsonGuard candidate then
          let moved := { filled with target := candidate, tmp := none }
          if Guard.jsonGuard moved.target then (0, moved)
          else (1, { moved with target := moved.bak.getD moved.target })
        else (1, filled.cleared)
  else (1, files)

/-- `set_device` with a type word. -/
def setDeviceArg (mac file : Text) (arg : BatchArg) : Option Text :=
  (LiteralType.ofWord arg.typ).bind fun typ =>
    setDevice file mac arg.key arg.value typ

/-- What one `set_device` after the other makes of a file. -/
def setDevices (mac file : Text) (args : List BatchArg) : Option Text :=
  args.foldlM (setDeviceArg mac) file

variable {mac : Text}

theorem setDeviceArg_eq (named : mac ≠ []) (file : Text) (arg : BatchArg) :
    setDeviceArg mac file arg =
      if arg.key = [] then none
      else arg.literal.bind fun lit =>
        commit file (setDeviceInner (assign mac) (assign arg.key)
          (assign (doubleBackslash lit)) file) := by
  unfold setDeviceArg setDevice BatchArg.literal
  cases LiteralType.ofWord arg.typ with
  | none => simp
  | some typ =>
      by_cases empty : arg.key = []
      · simp [empty]
      · simp only [named, empty, Option.bind_some]
        cases jsonLiteral arg.value typ with
        | none => rfl
        | some lit => rfl

variable {file : Text}

theorem setDeviceArg_some (committed : setDeviceArg mac file arg = some next) :
    mac ≠ [] ∧ arg.key ≠ [] ∧ ∃ lit, arg.literal = some lit ∧
      setDeviceInner (assign mac) (assign arg.key)
        (assign (doubleBackslash lit)) file = .ok next ∧
      Guard.jsonGuard next = true := by
  obtain ⟨typ, isType, written⟩ := Option.bind_eq_some_iff.mp committed
  unfold setDevice at written
  split at written
  · cases written
  · rename_i named
    rw [not_or] at named
    split at written
    · cases written
    · rename_i lit literal
      refine ⟨named.1, named.2, lit, ?_, commit_some written,
        commit_valid written⟩
      rw [BatchArg.literal, isType]
      exact literal

variable {tmp : Text}

/-- A round writes what `set_device` would, into the copy; the target stays. -/
theorem batchRound_eq (named : mac ≠ []) (valid : Guard.jsonGuard tmp = true)
    {files : BatchFiles} (copy : files.tmp = some tmp) (arg : BatchArg) :
    (∃ next, batchRound mac files arg = .ok next ∧
      next.target = files.target ∧ ∃ text, next.tmp = some text ∧
        setDeviceArg mac tmp arg = some text) ∨
    ∃ code left, batchRound mac files arg = .error (code, left) ∧
      code ≠ 0 ∧ left.target = files.target ∧
      setDeviceArg mac tmp arg = none := by
  rw [setDeviceArg_eq named]
  unfold batchRound
  by_cases empty : arg.key = []
  · right
    exact ⟨2, files.cleared, by rw [if_pos empty], by decide, rfl,
      by rw [if_pos empty]⟩
  · rw [if_neg empty, if_neg empty, copy]
    cases arg.literal with
    | none => exact .inr ⟨2, files.cleared, rfl, by decide, rfl, rfl⟩
    | some lit =>
        simp only [Option.getD_some, Option.bind_some]
        cases setDeviceInner (assign mac) (assign arg.key)
            (assign (doubleBackslash lit)) tmp with
        | error code =>
            refine .inr ⟨1, files.cleared, rfl, by decide, rfl, ?_⟩
            simp [commit]
        | ok text =>
            by_cases accepted : Guard.jsonGuard text = true
            · left
              refine ⟨{ files with tmp := some text, tmp2 := none }, ?_, rfl,
                text, rfl, ?_⟩
              · simp only [accepted, if_true]
              · simp [commit, valid, accepted]
            · right
              refine ⟨1, { files with tmp := none, tmp2 := none }, ?_,
                by decide, rfl, ?_⟩
              · exact if_neg accepted
              · simp [commit, accepted]

theorem setDevices_cons_none (refused : setDeviceArg mac file arg = none)
    (args : List BatchArg) : setDevices mac file (arg :: args) = none := by
  rw [setDevices, List.foldlM_cons, refused]
  rfl

theorem batchLoop_eq {mac tmp : Text} (named : mac ≠ [])
    (valid : Guard.jsonGuard tmp = true) {files : BatchFiles}
    (copy : files.tmp = some tmp) (args : List BatchArg) :
    (∃ filled, batchLoop mac files args = .ok filled ∧
      filled.target = files.target ∧ ∃ text, filled.tmp = some text ∧
        setDevices mac tmp args = some text ∧ Guard.jsonGuard text = true) ∨
    ∃ code left, batchLoop mac files args = .error (code, left) ∧
      code ≠ 0 ∧ left.target = files.target ∧
      setDevices mac tmp args = none := by
  induction args generalizing files tmp with
  | nil => exact .inl ⟨files, rfl, rfl, tmp, copy, rfl, valid⟩
  | cons arg args induction =>
      rcases batchRound_eq named valid copy arg with
        ⟨next, round, kept, text, copied, written⟩ |
        ⟨code, left, round, failed, kept, refused⟩
      · obtain ⟨_, _, lit, _, _, accepted⟩ := setDeviceArg_some written
        have fold : setDevices mac tmp (arg :: args) =
            setDevices mac text args := by
          rw [setDevices, List.foldlM_cons, written]
          rfl
        rw [batchLoop, round, fold, ← kept]
        exact induction accepted copied
      · right
        exact ⟨code, left, by rw [batchLoop, round], failed, kept,
          setDevices_cons_none refused args⟩

theorem setDeviceArg_invalid (invalid : Guard.jsonGuard file ≠ true)
    (arg : BatchArg) : setDeviceArg mac file arg = none := by
  cases committed : setDeviceArg mac file arg with
  | none => rfl
  | some next =>
      obtain ⟨typ, _, written⟩ := Option.bind_eq_some_iff.mp committed
      unfold setDevice at written
      split at written
      · cases written
      · split at written
        · cases written
        · simp [commit, invalid] at written

theorem setDeviceBatchRun_eq (files : BatchFiles) (mac : Text)
    (args : List BatchArg) :
    ((setDeviceBatchRun files mac args).1 = 0 ∧ args ≠ [] ∧
      setDevices mac files.target args =
        some (setDeviceBatchRun files mac args).2.target) ∨
    ((setDeviceBatchRun files mac args).1 ≠ 0 ∧
      (setDeviceBatchRun files mac args).2.target = files.target ∧
      (args ≠ [] → setDevices mac files.target args = none)) := by
  unfold setDeviceBatchRun
  split
  · rename_i unnamed
    refine .inr ⟨by simp, rfl, fun nonempty => ?_⟩
    have empty : mac = [] := unnamed.resolve_right nonempty
    obtain ⟨arg, rest, rfl⟩ := List.exists_cons_of_ne_nil nonempty
    apply setDevices_cons_none
    cases committed : setDeviceArg mac files.target arg with
    | none => rfl
    | some next => exact absurd empty (setDeviceArg_some committed).1
  · rename_i named
    rw [not_or] at named
    split
    · rename_i valid
      rcases @batchLoop_eq mac files.target named.1 valid { files with
          bak := some files.target, tmp := some files.target } rfl args with
        ⟨filled, loop, kept, text, copied, written, accepted⟩ |
        ⟨code, left, loop, failed, kept, refused⟩
      · left
        simp only [loop, copied, Option.getD_some, accepted, if_true]
        exact ⟨trivial, named.2, written⟩
      · right
        simp only [loop]
        exact ⟨failed, kept, fun _ => refused⟩
    · rename_i invalid
      refine .inr ⟨by simp, rfl, fun nonempty => ?_⟩
      obtain ⟨arg, rest, rfl⟩ := List.exists_cons_of_ne_nil nonempty
      exact setDevices_cons_none (setDeviceArg_invalid invalid arg) rest

theorem ofWord_typeWord (typ : LiteralType) :
    LiteralType.ofWord (JsonSetBatch.typeWord typ) = some typ := by
  cases typ <;> decide

/-- The triple of a field whose type is given by its name. -/
def argOf (field : Text × Text × LiteralType) : BatchArg :=
  ⟨field.1, field.2.1, JsonSetBatch.typeWord field.2.2⟩

theorem batchField_eq (named : mac ≠ []) (valid : Guard.jsonGuard tmp = true)
    (field : Text × Text × LiteralType) :
    batchField mac tmp field.1 field.2.1 field.2.2 =
      setDeviceArg mac tmp (argOf field) := by
  obtain ⟨key, value, typ⟩ := field
  rw [setDeviceArg_eq named]
  simp only [batchField, argOf, BatchArg.literal, ofWord_typeWord,
    Option.bind_some]
  by_cases empty : key = []
  · simp [empty]
  · cases jsonLiteral value typ with
    | none => rfl
    | some lit => simp only [Option.bind_some, commit, valid, if_true]

theorem batchFields_eq (named : mac ≠ []) (valid : Guard.jsonGuard tmp = true)
    (fields : List (Text × Text × LiteralType)) :
    batchFields mac tmp fields = setDevices mac tmp (fields.map argOf) := by
  induction fields generalizing tmp with
  | nil => rfl
  | cons field fields induction =>
      have round := batchField_eq named valid field
      rw [batchFields, round, List.map_cons, setDevices, List.foldlM_cons]
      cases written : setDeviceArg mac tmp (argOf field) with
      | none => rfl
      | some next =>
          obtain ⟨_, _, _, _, _, accepted⟩ := setDeviceArg_some written
          exact induction accepted

/-- The command on fields with known types is the command with its files. -/
theorem setDeviceBatch_eq (files : BatchFiles) (mac : Text)
    (fields : List (Text × Text × LiteralType)) :
    setDeviceBatch files.target mac fields =
      if (setDeviceBatchRun files mac (fields.map argOf)).1 = 0 then
        some (setDeviceBatchRun files mac (fields.map argOf)).2.target
      else none := by
  have emptyIff : fields.map argOf = [] ↔ fields = [] := List.map_eq_nil_iff
  unfold setDeviceBatch
  by_cases empty : mac = [] ∨ fields = []
  · have stopped : mac = [] ∨ fields.map argOf = [] := by rwa [emptyIff]
    rw [if_pos empty, setDeviceBatchRun, if_pos stopped]
    simp
  · have nonempty : fields.map argOf ≠ [] := by
      rw [Ne, emptyIff]
      exact (not_or.mp empty).2
    have fold : (if Guard.jsonGuard files.target then
        batchFields mac files.target fields else none) =
        setDevices mac files.target (fields.map argOf) := by
      split
      · rename_i valid
        exact batchFields_eq (not_or.mp empty).1 valid fields
      · rename_i invalid
        obtain ⟨arg, rest, list⟩ := List.exists_cons_of_ne_nil nonempty
        rw [list, setDevices_cons_none (setDeviceArg_invalid invalid arg)]
    rw [if_neg empty, fold]
    rcases setDeviceBatchRun_eq files mac (fields.map argOf) with
      ⟨done, _, written⟩ | ⟨failed, _, refused⟩
    · rw [if_pos done, written]
    · rw [if_neg failed, refused nonempty]

end HncJson

/-! ### The devices of a file -/

/-- The object of an address, when it has one. -/
structure DeviceAt (d : Obj) (mac : Text) (device : Option Obj) : Prop where
  value : d.get (escapeName mac) = device.map Obj.render
  keyed : ∀ o ∈ device, Obj.Keyed o

/-- The value of a field. -/
def fieldOf (device : Option Obj) (name : Text) : Option Text :=
  device.bind fun o => o.get name

/-- The object of an address after a field was set. -/
def putField (device : Option Obj) (key lit : Text) : Obj :=
  match device with
  | some o => o.setBack (escapeName key) lit
  | none => oneField (escapeName key) lit

theorem exists_deviceAt {d : Obj} (nested : d.Nested) (mac : Text) :
    ∃ device, DeviceAt d mac device := by
  obtain ⟨device, value, keyed⟩ := d.exists_inner nested.objects (escapeName mac)
  exact ⟨device, value, keyed⟩

theorem keyed_putField {device : Option Obj} (keyed : ∀ o ∈ device, Obj.Keyed o)
    (key : Text) {lit : Text} (shape : Val lit) :
    (putField device key lit).Keyed := by
  cases device with
  | none =>
      refine ⟨⟨?_, rfl⟩, by simp [putField, oneField]⟩
      intro m member
      rw [List.mem_singleton.mp member]
      exact laid_written rfl key shape
  | some o => exact (keyed o rfl).setBack key shape

theorem get_putField (device : Option Obj) (key lit name : Text) :
    (putField device key lit).get name =
      if name = escapeName key then some lit else fieldOf device name := by
  cases device with
  | none =>
      by_cases same : name = escapeName key
      · simp [putField, oneField, Obj.get, findMember, written, same]
      · simp [putField, oneField, Obj.get, findMember, written, same,
          Ne.symm same, fieldOf]
  | some o => exact Obj.get_setBack o (escapeName key) lit name

/-- A file as a frame around an object of devices. -/
structure Stored (file : Text) (f : Frame) (d : Obj) : Prop where
  text : chomp (slurp file) = f.body d
  nested : d.Nested

theorem stored_file (f : Frame) {d : Obj} (nested : d.Nested) :
    Stored (f.file d) f d :=
  ⟨by rw [Frame.file, slurp_line, chomp_line], nested⟩

namespace HncJson

/-- What `set_device_inner` does depends only on what the program reads. -/
theorem setDeviceInner_congr {left right : Text}
    (same : chomp (slurp left) = chomp (slurp right)) (mac key lit : Text) :
    setDeviceInner mac key lit left = setDeviceInner mac key lit right := by
  rw [setDeviceInner, setDeviceInner, same]

section

variable {file : Text} {f : Frame} {d : Obj} (stored : Stored file f d)
  {mac : Text} {device : Option Obj} (holds : DeviceAt d mac device)
include stored holds

theorem setDeviceInner_stored (key lit : Text) :
    setDeviceInner mac key lit file = .ok (f.file
      (d.setBack (escapeName mac) (putField device key lit).render)) := by
  have laid := stored.nested.toLaid
  have text : chomp (slurp file) = chomp (slurp (f.file d)) := by
    rw [stored.text, Frame.file, slurp_line, chomp_line]
  rw [setDeviceInner_congr text]
  cases hit : findMember (escapeName mac) d.members with
  | none =>
      have absent : device = none := by
        have value := holds.value
        simpa [Obj.get, hit] using value.symm
      have render : '{' :: newMember key lit ++ ['}'] =
          (oneField (escapeName key) lit).render := by
        rw [newMember_eq, Devices.oneField_render]
        simp [SafeWriter.entry, quote]
      rw [setDeviceInner_new f laid hit, Obj.setBack, hit, absent, render]
      rfl
  | some found =>
      obtain ⟨m, others⟩ := found
      obtain ⟨o, rfl, value⟩ : ∃ o, device = some o ∧ m.val = o.render := by
        have value := holds.value
        simp only [Obj.get, hit] at value
        cases device with
        | none => cases value
        | some o => exact ⟨o, rfl, Option.some.inj value⟩
      have replaced : ∀ val, d.setBack (escapeName mac) val =
          d.setValue (escapeName mac) val := by
        intro val
        rw [Obj.setBack, hit]
        rfl
      rw [setDeviceInner_old f laid hit value (holds.keyed o rfl).toLaid,
        replaced]
      rfl

theorem getDeviceInner_stored (key : Text) :
    getDeviceInner mac key file =
      match fieldOf device (escapeName key) with
      | none => .error 3
      | some val => .ok (val ++ ['\n']) := by
  have text : slurp file = slurp (f.file d) := by
    have body : f.body d ≠ [] := by simp [Frame.body, Obj.render]
    rw [← stored.text] at body
    rw [slurp_of_chomp body, stored.text, Frame.file, slurp_line]
  have same : getDeviceInner mac key file =
      getDeviceInner mac key (f.file d) := by
    rw [getDeviceInner, getDeviceInner, text]
  rw [same, getDeviceInner_devices f stored.nested.toLaid]
  have value := holds.value
  cases hit : findMember (escapeName mac) d.members with
  | none =>
      have absent : device = none := by
        simpa [Obj.get, hit] using value.symm
      rw [absent]
      rfl
  | some found =>
      simp only [Obj.get, hit] at value
      cases device with
      | none => cases value
      | some o =>
          have keyed := holds.keyed o rfl
          simp only [fieldOf, Option.bind_some, Obj.get]
          rw [memberOf_obj keyed.toLaid (Option.some.inj value)]
          cases field : findMember (escapeName key) o.members with
          | none => rfl
          | some foundField =>
              obtain ⟨member, after⟩ := foundField
              obtain ⟨_, before, split, _⟩ := findMember_mem field
              have shape := (keyed.members member (by simp [split])).val
              simp only [Option.map_some, foundAt, upTo_fromValue,
                trimWs_val shape]

end

end HncJson

/-- A batch sets the fields it names, to the last literal given for each, and
leaves every other field and device alone. -/
structure Batched (mac : Text) (args : List BatchArg) (d d' : Obj)
    (device device' : Option Obj) : Prop where
  given : ∀ before arg after, args = before ++ arg :: after →
    (∀ later ∈ after, later.key ≠ arg.key) →
    ∃ lit, arg.literal = some lit ∧
      fieldOf device' (escapeName arg.key) = some lit
  kept : ∀ name, (∀ arg ∈ args, name ≠ escapeName arg.key) →
    fieldOf device' name = fieldOf device name
  others : ∀ name, name ≠ escapeName mac → d'.get name = d.get name

namespace Batched

variable {mac : Text} {d d' : Obj} {device device' : Option Obj}

theorem nil : Batched mac [] d d device device where
  given before arg after split := by simp at split
  kept _ _ := rfl
  others _ _ := rfl

theorem cons {arg : BatchArg} {args : List BatchArg} {lit val : Text}
    (literal : arg.literal = some lit)
    (rest : Batched mac args (d.setBack (escapeName mac) val) d'
      (some (putField device arg.key lit)) device') :
    Batched mac (arg :: args) d d' device device' where
  given before last after split := by
    intro latest
    cases before with
    | nil =>
        obtain ⟨rfl, rfl⟩ := List.cons.inj split
        refine ⟨lit, literal, ?_⟩
        rw [rest.kept]
        · simp [fieldOf, get_putField]
        · intro later member same
          exact latest later member (escapeName_inj.mp same).symm
    | cons first before =>
        exact rest.given before last after (List.cons.inj split).2 latest
  kept name unnamed := by
    have later : ∀ other ∈ args, name ≠ escapeName other.key :=
      fun other member => unnamed other (by simp [member])
    have first : name ≠ escapeName arg.key := unnamed arg (by simp)
    rw [rest.kept name later, fieldOf, Option.bind_some, get_putField,
      if_neg first]
  others name other := by
    rw [rest.others name other, Obj.get_setBack, if_neg other]

end Batched

/-- Every `set_device` of a run sets its field. -/
theorem setDevices_stored {mac : Text} (plainMac : assign mac = mac)
    {args : List BatchArg} (plain : ∀ arg ∈ args, assign arg.key = arg.key)
    (clean : ∀ arg ∈ args, arg.Clean) {file : Text} {f : Frame} {d : Obj}
    (stored : Stored file f d) {device : Option Obj}
    (holds : DeviceAt d mac device)
    (done : HncJson.setDevices mac file args = some next) :
    ∃ d' device', Stored next f d' ∧ DeviceAt d' mac device' ∧
      Batched mac args d d' device device' := by
  induction args generalizing file d device with
  | nil =>
      cases done
      exact ⟨d, device, stored, holds, .nil⟩
  | cons arg args induction =>
      obtain ⟨middle, first, rest⟩ := Option.bind_eq_some_iff.mp done
      obtain ⟨_, _, lit, literal, inner, _⟩ := HncJson.setDeviceArg_some first
      have shape := BatchArg.val_literal (clean arg (by simp)) literal
      have keyed := keyed_putField holds.keyed arg.key shape
      have nested := stored.nested.setBack mac keyed
      rw [plainMac, plain arg (by simp), assign_doubleBackslash,
        HncJson.setDeviceInner_stored stored holds] at inner
      cases inner
      have set : DeviceAt (d.setBack (escapeName mac)
          (putField device arg.key lit).render) mac
          (some (putField device arg.key lit)) :=
        ⟨by simp [Obj.get_setBack], by simpa using keyed⟩
      obtain ⟨d', device', after, held, batched⟩ := induction
        (fun other member => plain other (by simp [member]))
        (fun other member => clean other (by simp [member]))
        (stored_file f nested) set rest
      exact ⟨d', device', after, held, batched.cons literal⟩

theorem setDevices_accepted {mac : Text} {args : List BatchArg} {file : Text}
    (valid : Guard.jsonGuard file = true)
    (done : HncJson.setDevices mac file args = some next) :
    Guard.jsonGuard next = true ∧
      ∀ arg ∈ args, mac ≠ [] ∧ arg.key ≠ [] := by
  induction args generalizing file with
  | nil =>
      cases done
      exact ⟨valid, by simp⟩
  | cons arg args induction =>
      obtain ⟨middle, first, rest⟩ := Option.bind_eq_some_iff.mp done
      obtain ⟨named, key, _, _, _, accepted⟩ :=
        HncJson.setDeviceArg_some first
      obtain ⟨nextValid, others⟩ := induction accepted rest
      refine ⟨nextValid, ?_⟩
      intro other member
      rcases List.mem_cons.mp member with rfl | later
      · exact ⟨named, key⟩
      · exact others other later

/-- What a batch that succeeds leaves behind. -/
structure BatchDone (file next mac : Text) (args : List BatchArg) : Prop where
  valid : Guard.jsonGuard next = true
  oneByOne : HncJson.setDevices mac file args = some next
  answers : ∀ before arg after, args = before ++ arg :: after →
    (∀ later ∈ after, later.key ≠ arg.key) →
    ∃ lit, arg.literal = some lit ∧
      HncJson.getDevice next mac arg.key = .ok (lit ++ ['\n'])
  frame : ∃ f d d' device device', Stored file f d ∧ Stored next f d' ∧
    DeviceAt d mac device ∧ DeviceAt d' mac device' ∧
    Batched mac args d d' device device'

/-- A batch is done as a whole or leaves the file as it was. -/
def BatchBehaves (files : HncJson.BatchFiles) (mac : Text)
    (args : List BatchArg) : Prop :=
  ((HncJson.setDeviceBatchRun files mac args).1 = 0 →
    BatchDone files.target (HncJson.setDeviceBatchRun files mac args).2.target
      mac args) ∧
  ((HncJson.setDeviceBatchRun files mac args).1 ≠ 0 →
    (HncJson.setDeviceBatchRun files mac args).2.target = files.target)

theorem derives_oneField {key val : Text} {tree : Json}
    (free : escapeFree key = true) (derives : Derives .value val tree) :
    Derives .value (oneField key val).render (.object [(key, tree)]) := by
  have means : (written [] key val).Means (key, tree) :=
    ⟨⟨rfl, rfl, rfl, rfl⟩, chars_of_escapeFree free, rfl, derives⟩
  exact derives_object rfl (.cons means .nil)

/-- A rules file with one device. -/
def oneDevice : Text :=
  "\x7b\"devices\": \x7b\"m\": \x7b\"a\": 1\x7d\x7d\x7d\n".toList

def oneDeviceFiles : HncJson.BatchFiles :=
  ⟨oneDevice, none, none, none⟩

/-- What the only device means. -/
def oneDeviceTree : List (Text × Json) :=
  [("m".toList, .object [("a".toList, .number "1".toList)])]

theorem derives_one : Derives .value "1".toList (.number "1".toList) :=
  .number (@Number.parts [] ['1'] [] [] (.inl rfl)
    (.digits (by decide) ⟨by decide, by decide⟩) .absent .absent)

theorem denotes_oneDevice : Denotes oneDevice
    (.object [("devices".toList, .object oneDeviceTree)]) := by
  have fields := derives_oneField (show escapeFree "a".toList by decide)
    derives_one
  have device := derives_oneField (show escapeFree "m".toList by decide) fields
  have root := derives_oneField
    (show escapeFree "devices".toList by decide) device
  exact ⟨[], _, ['\n'], by decide, rfl, root, rfl⟩

theorem rulesTree_oneDevice : RulesTree
    [("devices".toList, .object oneDeviceTree)] oneDeviceTree := by
  have single : ∀ (name : Text) (tree : Json), '\\' ∉ name →
      PlainNames [(name, tree)] :=
    fun name tree plain => ⟨by simp, by simpa using plain⟩
  refine ⟨single _ _ (by decide), by simp, single _ _ (by decide), ?_⟩
  intro entry member
  rw [List.mem_singleton.mp member]
  exact ⟨_, rfl, single _ _ (by decide)⟩

def plainBatch : List BatchArg :=
  [⟨"b".toList, "x".toList, "str".toList⟩, ⟨"a".toList, "2".toList, "num".toList⟩]

/-- The batch on the file with one device. -/
def plainBatchFile : Text :=
  "\x7b\"devices\": \x7b\"m\": \x7b\"a\": 2,\n  \"b\": \"x\"\x7d\x7d\x7d\n".toList

theorem run_plainBatch :
    (HncJson.setDeviceBatchRun oneDeviceFiles "m".toList plainBatch).1 = 0 ∧
    (HncJson.setDeviceBatchRun oneDeviceFiles "m".toList plainBatch).2.target =
      plainBatchFile := by
  decide +kernel

theorem clean_plainBatch : ∀ arg ∈ plainBatch, arg.Clean := by
  simp only [plainBatch, List.forall_mem_cons, List.not_mem_nil, false_implies,
    implies_true, and_true]
  constructor
  · intro typ isType
    cases isType
    trivial
  · intro typ isType
    cases isType
    exact fun _ => by decide

/-- A number on two lines, the second of which opens another field. -/
def injectingArg : BatchArg :=
  ⟨"k".toList, "1\n,\"x\":2".toList, "num".toList⟩

/-- What the batch leaves in the file. -/
def injectedDevice : Text :=
  "\x7b\"devices\": \x7b\"m\": \x7b\"a\": 1,\n  \"k\": 1\n,\"x\":2\x7d\x7d\x7d\n".toList

theorem run_injectingArg :
    (HncJson.setDeviceBatchRun oneDeviceFiles "m".toList [injectingArg]).1 = 0 ∧
    (HncJson.setDeviceBatchRun oneDeviceFiles "m".toList
      [injectingArg]).2.target = injectedDevice := by
  decide +kernel

theorem getDevice_injectedDevice :
    HncJson.getDevice injectedDevice "m".toList "k".toList =
      .ok "1\n".toList := by
  decide +kernel

end Hnc
