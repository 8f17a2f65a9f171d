import Hnc.Service.RestoreMacs

/-!
# Restore reads back what the writers stored
-/

namespace Hnc.TcManager

open Posix JsonText Runs

theorem storedRecord_file {f : Frame} {d : Devices} (wf : d.Wf)
    (valid : Guard.jsonGuard (f.file d.obj) = true) (mac : Mac) :
    storedRecord (f.file d.obj) mac.text =
      (d.find mac.text).bind fun e => recordOf e.device := by
  simp only [storedRecord, storedField_file f wf valid]
  cases entry : d.find mac.text with
  | none => simp [Devices.get, entry]
  | some e => simp [Devices.get, entry, recordOf]

theorem mem_restoreRecords {file mac : Text} {read : FieldRecord} :
    (mac, read) ∈ restoreRecords file ↔
      mac ∈ deviceMacs file ∧ fieldRecord file mac = some read := by
  simp only [restoreRecords, List.mem_filterMap, Option.map_eq_some_iff,
    Prod.mk.injEq]
  constructor
  · rintro ⟨_, listed, _, found, rfl, rfl⟩
    exact ⟨listed, found⟩
  · rintro ⟨listed, found⟩
    exact ⟨mac, listed, read, found, rfl, rfl⟩

theorem map_fst_restoreRecords (file : Text) :
    ((restoreRecords file).map Prod.fst).Sublist (deviceMacs file) := by
  unfold restoreRecords
  induction deviceMacs file with
  | nil => exact List.Sublist.slnil
  | cons mac rest induction =>
      cases found : fieldRecord file mac with
      | none =>
          simp only [List.filterMap_cons, found]
          exact induction.cons mac
      | some read =>
          simp only [List.filterMap_cons, found]
          exact induction.cons_cons mac

theorem Intact.readsBack {file : Text} (intact : Intact file) : ReadsBack file := by
  obtain ⟨f, d, simple, wf, rfl, valid, all⟩ := intact
  refine ⟨(map_fst_restoreRecords _).nodup (nodup_deviceMacs _), ?_, ?_⟩
  · intro mac read
    rw [mem_restoreRecords, mem_deviceMacs simple wf all,
      fieldRecord_file simple wf all, storedRecord_file wf valid]
    constructor
    · exact And.right
    · intro found
      refine ⟨?_, found⟩
      obtain ⟨e, entry, _⟩ := Option.bind_eq_some_iff.mp found
      obtain ⟨listed, same⟩ := Devices.mac_of_find entry
      rw [← same]
      exact List.mem_map_of_mem listed
  · rintro ⟨mac, read⟩ member
    have listed := (mem_restoreRecords.mp member).1
    rw [mem_deviceMacs simple wf all] at listed
    obtain ⟨e, entry, rfl⟩ := List.mem_map.mp listed
    exact ⟨⟨e.mac, (all e entry).mac⟩, rfl⟩

theorem IsDefault.intact {file : Text} (default : IsDefault file) : Intact file := by
  obtain ⟨f, simple, text⟩ := default.frame
  have wf : (Devices.mk [] []).Wf := ⟨by simp, rfl, by simp⟩
  exact ⟨f, ⟨[], []⟩, simple, wf, text, default.valid, by simp⟩

instance keepsLineDecidable (file : Text) :
    ∀ write, Decidable (KeepsLine file write)
  | .jsonSet _ a =>
      inferInstanceAs (Decidable (a.field = .markId → a.value.all isDigit = true))
  | .jsonSetBatch mac pairs =>
      inferInstanceAs (Decidable ((∀ a ∈ pairs,
        (a.field = .markId → a.value.all isDigit = true)) ∧
          ∀ field ∈ appendedFields file mac pairs, isRestored field = false))

/-- In a run in which no batch appends a restored field to an object that
exists, restore reads back what is stored, after every write. -/
theorem restore_reads_stored_fields (start : Text) (default : IsDefault start)
    (writes : List DeviceWrite)
    (keeps : Guarded DeviceWrite.run KeepsLine start writes) :
    ∀ file ∈ visited DeviceWrite.run start writes, ReadsBack file := by
  intro file member
  have intact := keeps.induction Intact
    (fun state write holds condition => run_intact holds write condition)
    (IsDefault.intact default) file member
  exact intact.readsBack

theorem isLowerMac_phone :
    isLowerMac "02:00:00:00:00:01".toList = true := by
  decide

def phone : Mac :=
  ⟨"02:00:00:00:00:01".toList, isLowerMac_phone⟩

theorem isLowerMac_tablet :
    isLowerMac "02:00:00:00:00:02".toList = true := by
  decide

def tablet : Mac :=
  ⟨"02:00:00:00:00:02".toList, isLowerMac_tablet⟩

/-- Two devices with marks, one from each writer. -/
def sampleWrites : List DeviceWrite :=
  [.jsonSet phone ⟨.markId, "5".toList, by decide⟩,
    .jsonSet phone ⟨.downMbps, "10".toList, by decide⟩,
    .jsonSetBatch tablet [⟨.markId, "7".toList, by decide⟩,
      ⟨.limitEnabled, "true".toList, Field.accepts_true⟩],
    .jsonSetBatch phone [⟨.downMbps, "20".toList, by decide⟩,
      ⟨.lastSeenPersist, "1700000000".toList, by decide⟩]]

theorem sampleWrites_read_back :
    Guarded DeviceWrite.run KeepsLine (defaultRules []) sampleWrites ∧
      (∀ file ∈ visited DeviceWrite.run (defaultRules []) sampleWrites,
        ReadsBack file) ∧
      restoreRecords (sampleWrites.foldl DeviceWrite.run (defaultRules [])) =
        [(phone.text, ⟨"5".toList, [], "20".toList, ['0'], ['0'], ['0'], ['0']⟩),
          (tablet.text, ⟨"7".toList, [], ['0'], ['0'], ['0'], ['0'], ['0']⟩)] := by
  -- One evaluation of the run for both facts.
  have facts : Guarded DeviceWrite.run KeepsLine (defaultRules [])
        sampleWrites ∧
      restoreRecords (sampleWrites.foldl DeviceWrite.run (defaultRules [])) =
        [(phone.text, ⟨"5".toList, [], "20".toList, ['0'], ['0'], ['0'], ['0']⟩),
          (tablet.text, ⟨"7".toList, [], ['0'], ['0'], ['0'], ['0'], ['0']⟩)] := by
    unfold defaultRules
    repeat rw [String.toList_ofList]
    decide +kernel
  obtain ⟨keeps, records⟩ := facts
  refine ⟨keeps, ?_, records⟩
  exact restore_reads_stored_fields (defaultRules []) (.inr (.inr rfl))
    sampleWrites keeps

/-- What `apply_device_rule.sh limit` writes for a new device. -/
def limitWrites : List DeviceWrite :=
  [.jsonSet phone ⟨.markId, "5".toList, by decide⟩,
    .jsonSetBatch phone [⟨.ip, "192.168.43.7".toList, by decide⟩,
      ⟨.downMbps, "10".toList, by decide⟩, ⟨.upMbps, "2".toList, by decide⟩,
      ⟨.limitEnabled, "true".toList, Field.accepts_true⟩]]

/-- The limit of the device is stored and is not read back. -/
theorem appended_limit_not_restored :
    ¬∀ start, IsDefault start → ∀ writes : List DeviceWrite,
      ∀ file ∈ visited DeviceWrite.run start writes, ReadsBack file := by
  intro always
  have reads := always (defaultRules []) (.inr (.inr rfl)) limitWrites _
    (mem_visited_final _ _)
  have records :
      storedRecord (limitWrites.foldl DeviceWrite.run (defaultRules []))
          phone.text = some ⟨"5".toList, "192.168.43.7".toList, "10".toList,
            "2".toList, ['0'], ['0'], ['0']⟩ ∧
        restoreRecords (limitWrites.foldl DeviceWrite.run (defaultRules [])) =
          [(phone.text, ⟨"5".toList, [], ['0'], ['0'], ['0'], ['0'], ['0']⟩)] := by
    unfold defaultRules
    repeat rw [String.toList_ofList]
    decide +kernel
  obtain ⟨stored, missed⟩ := records
  have member := (reads.stored phone _).mpr stored
  rw [missed] at member
  exact absurd member (by decide)

end Hnc.TcManager
