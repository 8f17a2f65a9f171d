import Hnc.Json.DeviceWrites
import Hnc.Json.WriterAgreement

/-!
# The fields of a device as `json_set.sh` writes and reads them

On any valid rules file `json_set.sh device` sets one field of one device: the
strict reader finds the value under the field, and every other field of the
device is what it was.
-/

namespace Hnc

open Posix JsonText

/-- An object with distinct plain names. -/
structure PlainObj (o : Obj) : Prop where
  wf : o.Wf
  distinct : (o.members.map Member.key).Nodup

/-- A rules file as a frame around its devices, which have distinct plain names
and distinct fields with plain names. -/
structure RulesStore (file : Text) (f : Frame) (d : Obj) : Prop where
  text : chomp (slurp file) = f.body d
  valid : Guard.jsonGuard file = true
  plain : PlainObj d
  objects : ∀ m ∈ d.members, ∃ o : Obj, m.val = o.render ∧ PlainObj o

namespace PlainObj

theorem keyed {o : Obj} (plain : PlainObj o) : o.Keyed :=
  ⟨plain.wf.laid, plain.distinct⟩

variable {key val : Text}

theorem setFront {o : Obj} (plain : PlainObj o) (plainKey : plainKey key = true)
    (shape : Val val) : PlainObj (SafeWriter.setFront o key val) :=
  ⟨SafeWriter.wf_setFront plain.wf plainKey shape,
    SafeWriter.nodup_setFront plain.distinct key val⟩

theorem oneField (plain : plainKey key = true) (shape : Val val) :
    PlainObj (oneField key val) :=
  ⟨Devices.wf_oneField plain shape, by simp [Hnc.oneField]⟩

theorem frontField {device : Option Obj} (plain : ∀ o ∈ device, PlainObj o)
    (plainKey : plainKey key = true) (shape : Val val) :
    PlainObj (frontField device key val) := by
  cases device with
  | none => exact oneField plainKey shape
  | some o => exact (plain o rfl).setFront plainKey shape

end PlainObj

theorem get_frontField (device : Option Obj) (key val name : Text) :
    (frontField device key val).get name =
      if name = key then some val else fieldOf device name := by
  cases device with
  | none =>
      by_cases same : name = key
      · simp [frontField, oneField, Obj.get, findMember, written, same]
      · simp [frontField, oneField, Obj.get, findMember, written, same,
          Ne.symm same, fieldOf]
  | some o => exact SafeWriter.get_setFront o key val name

/-- Every valid rules file is such a store. -/
theorem exists_rulesStore {file : Text} {entries devices : List (Text × Json)}
    (denotes : Denotes file (.object entries))
    (tree : RulesTree entries devices) : ∃ f d, RulesStore file f d := by
  obtain ⟨f, d, before, after, layout, _⟩ := exists_rulesLayout denotes tree
  refine ⟨f, d, layout.text, (Guard.jsonGuard_iff _).mpr ⟨_, denotes⟩,
    ⟨layout.wf tree, tree.macs.nodup layout.devices⟩, ?_⟩
  intro m member
  obtain ⟨o, fields, value, _, names, hollow, means⟩ :=
    layout.device tree member
  exact ⟨o, value, names.wf hollow means, names.nodup means⟩

namespace RulesStore

variable {file : Text} {f : Frame} {d : Obj}

/-- The object of a device, when it has one. -/
structure DeviceIn (d : Obj) (mac : Text) (device : Option Obj) : Prop where
  value : d.get mac = device.map Obj.render
  plain : ∀ o ∈ device, PlainObj o

section

variable (store : RulesStore file f d)
include store

theorem exists_deviceIn (mac : Text) :
    ∃ device, DeviceIn d mac device := by
  obtain ⟨device, value, plain⟩ := d.exists_inner store.objects mac
  exact ⟨device, value, plain⟩

theorem stored : Stored file f d where
  text := store.text
  nested := by
    refine ⟨store.plain.keyed, ?_⟩
    intro m member
    obtain ⟨o, value, plain⟩ := store.objects m member
    exact ⟨o, value, plain.keyed⟩

/-- What the strict reader finds. -/
theorem getDevice_field (mac : Mac) (field : Field) {device : Option Obj}
    (holds : DeviceIn d mac.text device) :
    HncJson.getDevice file mac.text field.key =
      match fieldOf device field.key with
      | none => .error 3
      | some val => .ok (val ++ ['\n']) := by
  have nonempty : ¬(mac.text = [] ∨ field.key = []) := by
    rintro (empty | empty)
    · exact mac.text_ne_nil empty
    · cases field <;> exact absurd empty (by decide)
  have deviceAt : DeviceAt d mac.text device := by
    refine ⟨?_, fun o member => (holds.plain o member).keyed⟩
    rw [escapeName_plain mac.plain_text]
    exact holds.value
  have stored := HncJson.getDeviceInner_stored store.stored deviceAt field.key
  rw [escapeName_plain field.plain_key] at stored
  rw [HncJson.getDevice, if_neg nonempty, if_pos store.valid, mac.assign_text,
    field.assign_key]
  refine stored.trans ?_
  cases fieldOf device field.key with
  | none => rfl
  | some val => rfl

theorem device (mac : Mac) (a : Assignment) {device : Option Obj}
    (holds : DeviceIn d mac.text device) {next : Text}
    (written : JsonSet.device file mac.text a.field.key a.value = some next) :
    ∃ d', RulesStore next f d' ∧ DeviceIn d' mac.text
      (some (frontField device a.field.key a.literal)) := by
  have done := JsonSet.guardedCommit_some written
  have valid := JsonSet.guardedCommit_valid written
  have plain := PlainObj.frontField holds.plain a.field.plain_key a.val_literal
  have shape := plain.wf.shaped.val_render
  rw [mac.assign_text, a.field.assign_key, a.jsonEncode,
    updateDevice_stored store.text store.plain.wf holds.value
      (fun o member => (holds.plain o member).wf)] at done
  cases done
  refine ⟨_, ⟨?_, valid, store.plain.setFront mac.plain_text shape, ?_⟩, ?_⟩
  · rw [Frame.file, slurp_line, chomp_line]
  · intro m member
    rcases SafeWriter.mem_setFront store.plain.wf member with old | new
    · exact store.objects m old
    · exact ⟨_, new.2, plain⟩
  · refine ⟨?_, ?_⟩
    · rw [SafeWriter.get_setFront, if_pos rfl]
      rfl
    · intro o member
      cases Option.mem_some_iff.mp member
      exact plain

theorem storedField_device (mac : Mac) (a : Assignment) {next : Text}
    (written : JsonSet.device file mac.text a.field.key a.value = some next) :
    (∃ d', RulesStore next f d') ∧
      storedField next mac.text a.field.key = some (captured
        (a.literal ++ ['\n'])) ∧
      ∀ field : Field, field ≠ a.field →
        storedField next mac.text field.key =
          storedField file mac.text field.key := by
  obtain ⟨device, holds⟩ := store.exists_deviceIn mac.text
  obtain ⟨d', after, held⟩ := store.device mac a holds written
  refine ⟨⟨d', after⟩, ?_, ?_⟩
  · rw [storedField, after.getDevice_field mac a.field held]
    simp [fieldOf, get_frontField, Except.toOption]
  · intro field other
    have differ : field.key ≠ a.field.key := by
      intro same
      exact other (Field.key_injective _ _ same)
    rw [storedField, storedField, after.getDevice_field mac field held,
      store.getDevice_field mac field holds, fieldOf, Option.bind_some,
      get_frontField, if_neg differ]

end

end RulesStore

end Hnc
