import Hnc.Json.DeviceWrites
import Hnc.Json.RulesSearch
import Hnc.Lib.Runs
import Hnc.Service.RestoreReader

/-!
# What `restore_rules` reads of what the writers stored

The second pass reads the fields of a device on the line of its address only.
`json_set.sh` keeps a field on that line; `json_set_batch.sh` puts a field that
an object does not have yet on a line of its own, where the pass does not look.
As long as the batch writer appends none of the seven fields that are read, the
pass reads what is stored.
-/

namespace Hnc.TcManager

open Posix JsonText

/-- The fields of the printed line. -/
def isRestored : Field → Bool
  | .limitEnabled => false
  | .delayEnabled => false
  | .lastSeenPersist => false
  | _ => true

/-- The lines that the second pass prints, with the addresses of the first. -/
def restoreRecords (file : Text) : List (Text × FieldRecord) :=
  (deviceMacs file).filterMap fun mac =>
    (fieldRecord file mac).map fun read => (mac, read)

/-- A string without its quotes. -/
def unquote (val : Text) : Text :=
  if val.head? = some '"' then val.tail.dropLast else val

/-- The record of a device whose `mark_id` is stored, from the stored values. -/
def storedRecord (file mac : Text) : Option FieldRecord :=
  (storedField file mac Field.markId.key).map fun markId =>
    { markId := markId
      ip := ((storedField file mac Field.ip.key).map unquote).getD []
      down := (storedField file mac Field.downMbps.key).getD ['0']
      up := (storedField file mac Field.upMbps.key).getD ['0']
      delay := (storedField file mac Field.delayMs.key).getD ['0']
      jitter := (storedField file mac Field.jitterMs.key).getD ['0']
      loss := (storedField file mac Field.lossPct.key).getD ['0'] }

/-- Restore reads back what is stored: one record for each device with a stored
`mark_id`, with the stored values, and no others. -/
structure ReadsBack (file : Text) : Prop where
  once : ((restoreRecords file).map Prod.fst).Nodup
  stored : ∀ (mac : Mac) (read : FieldRecord),
    (mac.text, read) ∈ restoreRecords file ↔
      storedRecord file mac.text = some read
  macs : ∀ entry ∈ restoreRecords file, ∃ mac : Mac, entry.1 = mac.text

/-- The fields of a batch that go behind others, from the fields that the
object has. -/
def appended : List Field → List Assignment → List Field
  | _, [] => []
  | present, a :: rest =>
      if a.field ∈ present then appended present rest
      else a.field :: appended (a.field :: present) rest

/-- The fields that a batch appends to an object that exists by then; the first
field of a new device makes its object. -/
def appendedFields (file : Text) (mac : Mac) (pairs : List Assignment) :
    List Field :=
  match Field.all.filter fun field =>
      (storedField file mac.text field.key).isSome, pairs with
  | [], a :: rest => appended [a.field] rest
  | present, pairs => appended present pairs

/-- A `mark_id` is a whole number. -/
def WholeMark (a : Assignment) : Prop :=
  a.field = .markId → a.value.all isDigit = true

/-- The condition on a write: marks are whole numbers, and a batch appends none
of the fields that are restored. -/
def KeepsLine (file : Text) : DeviceWrite → Prop
  | .jsonSet _ a => WholeMark a
  | .jsonSetBatch mac pairs =>
      (∀ a ∈ pairs, WholeMark a) ∧
        ∀ field ∈ appendedFields file mac pairs, isRestored field = false

/-! ### The layout of an entry -/

/-- A member that holds an assignment, as both writers lay it out. -/
structure Laid (m : Member) (a : Assignment) : Prop where
  key : m.key = a.field.key
  gap : m.gap = []
  pad : m.pad = [' ']
  val : m.val = a.literal
  trail : m.trail = []
  whole : WholeMark a

/-- An entry with all restored fields on the line of its address. -/
structure Readable (e : Entry) : Prop where
  mac : isLowerMac e.mac = true
  members : ∃ front back, e.device.members = front ++ back ∧ front ≠ [] ∧
    (∀ m ∈ front, m.lead = [] ∧ ∃ a, Laid m a) ∧
    ∀ m ∈ back, m.lead = indent ∧ ∃ a, Laid m a ∧ isRestored a.field = false
  distinct : (e.device.members.map Member.key).Nodup

theorem laid_written {lead : Text} {a : Assignment} (whole : WholeMark a) :
    Laid (written lead a.field.key a.literal) a :=
  ⟨rfl, rfl, rfl, rfl, rfl, whole⟩

theorem Laid.replaced {m : Member} {old a : Assignment} (laid : Laid m old)
    (same : m.key = a.field.key) (whole : WholeMark a) {trail : Text}
    (empty : trail = []) :
    Laid { m with val := a.literal, trail := trail } a :=
  ⟨same, laid.gap, laid.pad, rfl, empty, whole⟩

/-- An entry with some fields on the line of its address and fields of a kind
on lines of their own behind them. -/
structure LaidOut (later : Field → Prop) (e : Entry) : Prop where
  mac : isLowerMac e.mac = true
  members : ∃ front back, e.device.members = front ++ back ∧ front ≠ [] ∧
    (∀ m ∈ front, m.lead = [] ∧ ∃ a, Laid m a) ∧
    ∀ m ∈ back, m.lead = indent ∧ ∃ a, Laid m a ∧ later a.field
  distinct : (e.device.members.map Member.key).Nodup

theorem readable_iff {e : Entry} :
    Readable e ↔ LaidOut (fun field => isRestored field = false) e :=
  ⟨fun readable => ⟨readable.mac, readable.members, readable.distinct⟩,
    fun laid => ⟨laid.mac, laid.members, laid.distinct⟩⟩

theorem laidOut_oneField {later : Field → Prop} {lead mac trail : Text}
    {a : Assignment} (shape : isLowerMac mac = true) (whole : WholeMark a) :
    LaidOut later ⟨lead, mac, oneField a.field.key a.literal, trail⟩ := by
  refine ⟨shape, ⟨[written [] a.field.key a.literal], [], rfl, by simp, ?_,
    by simp⟩, by simp [oneField]⟩
  intro m member
  rw [List.mem_singleton.mp member]
  exact ⟨rfl, a, laid_written whole⟩

theorem replaceFirst_append (key : Text) (change : Member → Member)
    (front back : List Member) :
    replaceFirst key change (front ++ back) =
      replaceFirst key change front ++ back ∨
    replaceFirst key change (front ++ back) =
      front ++ replaceFirst key change back := by
  induction front with
  | nil => exact .inr rfl
  | cons m front induction =>
      rw [List.cons_append, replaceFirst, replaceFirst]
      split
      · exact .inl rfl
      · rcases induction with left | right
        · exact .inl (by rw [left]; rfl)
        · exact .inr (by rw [right]; rfl)

section Kinds

variable {later : Field → Prop} {e : Entry} (layout : LaidOut later e)
variable {a : Assignment} (whole : WholeMark a)

include layout whole

theorem laidOut_replaced {trail : Member → Text}
    (empty : ∀ m b, Laid m b → trail m = []) :
    LaidOut later { e with device := e.device.modify a.field.key fun m =>
      { m with val := a.literal, trail := trail m } } := by
  obtain ⟨front, back, members, nonempty, frontLaid, backLaid⟩ := layout.members
  have frontKept : ∀ m ∈ replaceFirst a.field.key (fun m =>
      { m with val := a.literal, trail := trail m }) front,
      m.lead = [] ∧ ∃ b, Laid m b := by
    intro m member
    rcases mem_replaceFirst member with old | ⟨old, listed, named, rfl⟩
    · exact frontLaid m old
    · obtain ⟨lead, b, laid⟩ := frontLaid old listed
      exact ⟨lead, a, laid.replaced named whole (empty old b laid)⟩
  have backKept : ∀ m ∈ replaceFirst a.field.key (fun m =>
      { m with val := a.literal, trail := trail m }) back,
      m.lead = indent ∧ ∃ b, Laid m b ∧ later b.field := by
    intro m member
    rcases mem_replaceFirst member with old | ⟨old, listed, named, rfl⟩
    · exact backLaid m old
    · obtain ⟨lead, b, laid, other⟩ := backLaid old listed
      have same : a.field = b.field :=
        Field.key_injective _ _ (named.symm.trans laid.key)
      exact ⟨lead, a, laid.replaced named whole (empty old b laid), same ▸ other⟩
  have keys := map_replaceFirst Member.key a.field.key (fun m =>
    { m with val := a.literal, trail := trail m }) fun _ => rfl
  refine ⟨layout.mac, ?_, by rw [Obj.modify, keys]; exact layout.distinct⟩
  rw [Obj.modify, members]
  rcases replaceFirst_append a.field.key (fun m =>
    { m with val := a.literal, trail := trail m }) front back with left | right
  · refine ⟨_, back, left, ?_, frontKept, backLaid⟩
    intro none
    have same := keys front
    rw [none] at same
    exact nonempty (List.map_eq_nil_iff.mp same.symm)
  · exact ⟨front, _, right, nonempty, frontLaid, backKept⟩

theorem laidOut_setFront :
    LaidOut later { e with
      device := SafeWriter.setFront e.device a.field.key a.literal } := by
  unfold SafeWriter.setFront
  split
  · apply laidOut_replaced layout whole
    intro m b laid
    simp [SafeWriter.keptTrail, laid.trail]
  · rename_i absent
    obtain ⟨front, back, members, nonempty, frontLaid, backLaid⟩ :=
      layout.members
    have text : (e.device.prepend a.field.key a.literal).members =
        written [] a.field.key a.literal :: (front ++ back) := by
      rw [← members]
      unfold Obj.prepend
      cases list : e.device.members with
      | nil => simp [list, nonempty] at members
      | cons m rest => rfl
    refine ⟨layout.mac, ⟨written [] a.field.key a.literal :: front, back, text,
      by simp, ?_, backLaid⟩, ?_⟩
    · intro m member
      rcases List.mem_cons.mp member with rfl | old
      · exact ⟨rfl, a, laid_written whole⟩
      · exact frontLaid m old
    · have keys := SafeWriter.nodup_setFront layout.distinct a.field.key a.literal
      simpa only [SafeWriter.setFront, absent] using keys

theorem laidOut_setBack
    (kept : (e.device.get a.field.key).isSome = true ∨ later a.field) :
    LaidOut later { e with device := e.device.setBack a.field.key a.literal } := by
  unfold Obj.setBack
  split
  · exact laidOut_replaced layout whole fun m b laid => laid.trail
  · rename_i absent
    have other : later a.field := by
      rcases kept with present | other
      · simp [Obj.get, absent] at present
      · exact other
    obtain ⟨front, back, members, nonempty, frontLaid, backLaid⟩ :=
      layout.members
    have text : (e.device.append a.field.key a.literal).members =
        front ++ (back ++ [written indent a.field.key a.literal]) := by
      rw [← List.append_assoc, ← members]
      unfold Obj.append
      cases list : e.device.members with
      | nil => simp [list, nonempty] at members
      | cons m rest => rfl
    refine ⟨layout.mac, ⟨front, back ++ [written indent a.field.key a.literal],
      text, nonempty, frontLaid, ?_⟩, ?_⟩
    · intro m member
      rcases List.mem_append.mp member with old | new
      · exact backLaid m old
      · rw [List.mem_singleton.mp new]
        exact ⟨rfl, a, laid_written whole, other⟩
    · have keys := Obj.nodup_setBack layout.distinct a.field.key a.literal
      simpa only [Obj.setBack, absent] using keys

end Kinds

variable {d : Devices}

theorem readable_putFront (all : ∀ e ∈ d.entries, Readable e) (mac : Mac)
    {a : Assignment} (whole : WholeMark a) :
    ∀ e ∈ (d.putFront mac.text a.field.key a.literal).entries, Readable e := by
  apply Devices.forall_putFront all
  · intro e listed _
    exact readable_iff.mpr (laidOut_setFront (readable_iff.mp (all e listed)) whole)
  · intro _ trail
    exact readable_iff.mpr (laidOut_oneField mac.shape whole)

theorem readable_putBack (all : ∀ e ∈ d.entries, Readable e) (mac : Mac)
    {a : Assignment} (whole : WholeMark a)
    (kept : ∀ e ∈ d.entries, e.mac = mac.text → (e.device.get a.field.key).isSome = true ∨ isRestored a.field = false) :
    ∀ e ∈ (d.putBack mac.text a.field.key a.literal).entries, Readable e := by
  apply Devices.forall_putBack all
  · intro e listed same
    exact readable_iff.mpr (laidOut_setBack (readable_iff.mp (all e listed)) whole
      (kept e listed same))
  · intro _ lead
    exact readable_iff.mpr (laidOut_oneField mac.shape whole)

theorem readable_putAll (wf : d.Wf) (all : ∀ e ∈ d.entries, Readable e)
    (mac : Mac) {pairs : List Assignment} (whole : ∀ a ∈ pairs, WholeMark a)
    {present : List Field}
    (agree : ∀ field : Field, field ∈ present ↔ (d.get mac.text field.key).isSome = true)
    (kept : ∀ field ∈ appended present pairs, isRestored field = false) :
    ∀ e ∈ (putAll mac d pairs).entries, Readable e := by
  induction pairs generalizing d present with
  | nil => exact all
  | cons a rest induction =>
      have first : ∀ e ∈ d.entries, e.mac = mac.text →
          (e.device.get a.field.key).isSome = true ∨
            isRestored a.field = false := by
        intro e listed named
        by_cases stored : a.field ∈ present
        · left
          rw [← Devices.get_of_mem wf listed, named]
          exact (agree a.field).mp stored
        · right
          apply kept
          simp [appended, stored]
      have nextWf := Devices.wf_putBack wf mac.plain_text a.field.plain_key
        a.val_literal
      have nextAll := readable_putBack all mac (whole a (by simp)) first
      have read : ∀ field : Field, ((d.putBack mac.text a.field.key
          a.literal).get mac.text field.key).isSome = true ↔
          field = a.field ∨ field ∈ present := by
        intro field
        rw [Devices.get_putBack, agree]
        by_cases same : field = a.field
        · simp [same]
        · have other : field.key ≠ a.field.key := fun keys =>
            same (Field.key_injective _ _ keys)
          simp [same, other]
      have others : ∀ other ∈ rest, WholeMark other := fun other member =>
        whole other (by simp [member])
      by_cases stored : a.field ∈ present
      · refine @induction _ nextWf nextAll others present ?_ ?_
        · intro field
          rw [read]
          constructor
          · exact .inr
          · rintro (rfl | old)
            · exact stored
            · exact old
        · simpa [appended, stored] using kept
      · refine @induction _ nextWf nextAll others (a.field :: present) ?_ ?_
        · intro field
          rw [read, List.mem_cons]
        · intro field member
          apply kept
          simp [appended, stored, member]

/-- A rules file whose entries are all readable. -/
def Intact (file : Text) : Prop :=
  ∃ (f : Frame) (d : Devices), f.Simple ∧ d.Wf ∧ file = f.file d.obj ∧
    Guard.jsonGuard file = true ∧ ∀ e ∈ d.entries, Readable e

theorem Readable.stores {e : Entry} (readable : Readable e) :
    ∃ field : Field, (e.device.get field.key).isSome = true := by
  obtain ⟨front, back, members, nonempty, laid, _⟩ := readable.members
  cases front with
  | nil => exact absurd rfl nonempty
  | cons m rest =>
      obtain ⟨_, a, facts⟩ := laid m (by simp)
      refine ⟨a.field, ?_⟩
      simp [Obj.get, members, findMember, facts.key]

theorem mem_all (field : Field) : field ∈ Field.all := by
  cases field <;> decide

theorem readable_batch (wf : d.Wf) (all : ∀ e ∈ d.entries, Readable e) (mac : Mac)
    {pairs : List Assignment} (whole : ∀ a ∈ pairs, WholeMark a)
    {present : List Field}
    (agree : ∀ field : Field, field ∈ present ↔ (d.get mac.text field.key).isSome = true)
    (kept : ∀ field ∈ (match present, pairs with | [], a :: rest => appended [a.field] rest | present, pairs => appended present pairs), isRestored field = false) :
    ∀ e ∈ (putAll mac d pairs).entries, Readable e := by
  cases present with
  | cons first others => exact readable_putAll wf all mac whole agree kept
  | nil =>
      cases pairs with
      | nil => exact all
      | cons a rest =>
          have absent : ∀ e ∈ d.entries, e.mac ≠ mac.text := by
            intro e listed named
            obtain ⟨field, stored⟩ := (all e listed).stores
            rw [← Devices.get_of_mem wf listed, named, ← agree] at stored
            cases stored
          have nextWf := Devices.wf_putBack wf mac.plain_text a.field.plain_key
            a.val_literal
          have nextAll := readable_putBack all mac (whole a (by simp))
            fun e listed named => absurd named (absent e listed)
          refine readable_putAll nextWf nextAll mac
            (fun other member => whole other (by simp [member])) ?_ kept
          intro field
          rw [Devices.get_putBack]
          by_cases same : field = a.field
          · simp [same]
          · have other : field.key ≠ a.field.key := fun keys =>
              same (Field.key_injective _ _ keys)
            have none := (agree field).not.mp (by simp)
            simp [same, other, none]

theorem run_intact {file : Text} (intact : Intact file) (write : DeviceWrite)
    (keeps : KeepsLine file write) : Intact (write.run file) := by
  have unchanged := intact
  obtain ⟨f, d, simple, wf, rfl, valid, all⟩ := intact
  cases write with
  | jsonSet mac a =>
      rw [DeviceWrite.run]
      cases written : JsonSet.device (f.file d.obj) mac.text a.field.key
          a.value with
      | none => exact unchanged
      | some next =>
          have text := jsonSet_device_file f wf mac a written
          refine ⟨f, d.putFront mac.text a.field.key a.literal, simple,
            Devices.wf_putFront wf mac.plain_text a.field.plain_key
              a.val_literal, text, JsonSet.guardedCommit_valid written, ?_⟩
          exact readable_putFront all mac keeps
  | jsonSetBatch mac pairs =>
      rw [DeviceWrite.run]
      cases written : JsonSetBatch.device (f.file d.obj) mac.text
          (pairs.map fun a => (a.field.key, a.value)) with
      | none => exact unchanged
      | some next =>
          have text := jsonSetBatch_device_file f wf mac pairs written
          refine ⟨f, putAll mac d pairs, simple, wf_putAll wf mac pairs, text,
            jsonSetBatch_device_valid valid written, ?_⟩
          obtain ⟨whole, kept⟩ := keeps
          have stored : ∀ field : Field, field ∈ (Field.all.filter fun field =>
              (storedField (f.file d.obj) mac.text field.key).isSome) ↔
              (d.get mac.text field.key).isSome = true := by
            intro field
            rw [List.mem_filter, storedField_file f wf valid]
            simp [mem_all]
          exact readable_batch wf all mac whole stored kept

end Hnc.TcManager
