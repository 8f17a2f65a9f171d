import Hnc.Daemon.MdnsResolve
import Mathlib.Data.List.TakeWhile

/-!
# Responses

A well-formed response as records, and the record that a question for the name
of an address asks for.  `parse_response` compares owners as C strings: it
takes an owner for the expected one when their texts agree up to the first NUL,
however the text is cut into labels.
-/

namespace MdnsResolve

open BigEndian Buffers Loops

/-! ## Records -/

/-- What an answer says: the name of a PTR record, or a record of another
type. -/
inductive RecordData where
  | ptr (name : Name)
  | other (rtype : Nat)
deriving DecidableEq, Repr

structure Answer where
  owner : Name
  data : RecordData
deriving DecidableEq, Repr

/-- The packet holds a name that is not too long, at `off` and before `next`. -/
def ShortNameAt (pkt : List UInt8) (off : Nat) (name : Name) (next : Nat) :
    Prop :=
  ∃ jumps, NameAt pkt off name jumps next ∧ jumps ≤ maxNameJumps ∧
    (dotted name).length < 255

/-- So many questions from `off` on. -/
inductive QuestionsAt (pkt : List UInt8) : (off count next : Nat) → Prop where
  | nil (off : Nat) : QuestionsAt pkt off 0 off
  | question {off count next last : Nat} {name : Name}
      (qname : ShortNameAt pkt off name next)
      (fixed : next + 4 ≤ pkt.length)
      (rest : QuestionsAt pkt (next + 4) count last) :
      QuestionsAt pkt off (count + 1) last

/-- The data of an answer from `off` to `next`, with its type. -/
inductive RecordDataAt (pkt : List UInt8) (off next : Nat) :
    (rtype : Nat) → RecordData → Prop where
  | ptr {name : Name} (rdata : ShortNameAt pkt off name next) :
      RecordDataAt pkt off next typePtr (.ptr name)
  | other {rtype : Nat} (notPtr : rtype ≠ typePtr) :
      RecordDataAt pkt off next rtype (.other rtype)

/-- These answers from `off` on. -/
inductive AnswersAt (pkt : List UInt8) :
    (off : Nat) → List Answer → (next : Nat) → Prop where
  | nil (off : Nat) : AnswersAt pkt off [] off
  | answer {off next last : Nat} {owner : Name} {data : RecordData}
      {answers : List Answer}
      (rname : ShortNameAt pkt off owner next)
      (fixed : next + 10 + uint16 pkt (next + 8) ≤ pkt.length)
      (rdata : RecordDataAt pkt (next + 10) (next + 10 + uint16 pkt (next + 8))
        (uint16 pkt next) data)
      (rest : AnswersAt pkt (next + 10 + uint16 pkt (next + 8)) answers last) :
      AnswersAt pkt off (⟨owner, data⟩ :: answers) last

/-- A response with these answers. -/
structure WellFormed (pkt : List UInt8) (answers : List Answer) : Prop where
  header : 12 ≤ pkt.length
  response : 0x8000 ≤ uint16 pkt 2
  count : uint16 pkt 6 = answers.length
  records : ∃ off last, QuestionsAt pkt 12 (uint16 pkt 4) off ∧
    AnswersAt pkt off answers last

/-! ## The right answer -/

/-- Equal labels up to letter case. -/
def SameName (name expected : Name) : Prop :=
  name.map (·.map tolower) = expected.map (·.map tolower)

instance (name expected : Name) : Decidable (SameName name expected) :=
  inferInstanceAs (Decidable (_ = _))

/-- `strcasecmp` on the texts of two names finds no difference. -/
def Spells (name expected : Name) : Prop :=
  ((dotted name).takeWhile (· ≠ 0)).map tolower = (dotted expected).map tolower

instance (name expected : Name) : Decidable (Spells name expected) :=
  inferInstanceAs (Decidable (_ = _))

/-- The name of a PTR record whose owner passes `owns`. -/
def Answer.ptrOf (owns : Name → Prop) [DecidablePred owns] (a : Answer) :
    Option Name :=
  match a.data with
  | .ptr name => if owns a.owner then some name else none
  | .other _ => none

/-- The first of these PTR records. -/
def firstPtr (owns : Name → Prop) [DecidablePred owns]
    (answers : List Answer) : Option Name :=
  answers.findSome? (·.ptrOf owns)

/-- A name as the result of `parse_response`. -/
def answered (out : List UInt8) : Option Name → Except Stop (List UInt8)
  | some name => .ok (overlay (dotted name ++ [0]) out)
  | none => .error .failed

/-! ## What the parser finds -/

variable {name : Name}

section

variable {pkt out : List UInt8}

variable {off : Nat}

theorem ShortNameAt.decode {next : Nat} (held : ShortNameAt pkt off name next)
    (room : 256 ≤ out.length) :
    decodeDnsName pkt off out =
      .ok (next, overlay (dotted name ++ [0]) out) := by
  obtain ⟨jumps, held, budget, short⟩ := held
  exact held.decodeDnsName_eq budget (by omega)

theorem freshName_room : 256 ≤ freshName.length :=
  Nat.le_of_eq freshName_length.symm

theorem QuestionsAt.skip {count next : Nat}
    (questions : QuestionsAt pkt off count next) :
    skipQuestions pkt count off = .ok next := by
  induction questions with
  | nil off => rfl
  | question qname fixed rest induction =>
      rw [skipQuestions, qname.decode freshName_room]
      simp only [bind, Except.bind]
      rw [if_neg (Nat.not_lt_of_le fixed), induction]

theorem rnameMismatch_eq (owner expected : Name) :
    rnameMismatch (some (dotted expected))
      (overlay (dotted owner ++ [0]) freshName) =
      .ok (decide (¬ Spells owner expected)) := by
  rw [rnameMismatch, cString_overlay]
  rfl

theorem AnswersAt.scan {last : Nat} {answers : List Answer}
    (held : AnswersAt pkt off answers last) (expected : Name)
    (room : 256 ≤ out.length) :
    scanAnswers pkt out (some (dotted expected)) answers.length off =
      answered out (firstPtr (Spells · expected) answers) := by
  induction held with
  | nil off => rfl
  | @answer off next last owner data answers rname fixed rdata rest
      induction =>
      rw [List.length_cons, scanAnswers, rname.decode freshName_room]
      simp only [bind, Except.bind]
      rw [if_neg (by omega), load16_eq (by omega), load16_eq (by omega)]
      simp only [rnameMismatch_eq]
      rw [if_neg (Nat.not_lt_of_le fixed)]
      by_cases spells : Spells owner expected
      · rw [if_neg (by simpa using spells)]
        generalize type : uint16 pkt next = rtype at rdata
        cases rdata with
        | @ptr name rdata =>
            rw [rdata.decode room]
            simp only [firstPtr, List.findSome?_cons, Answer.ptrOf,
              if_pos spells]
            rfl
        | other notPtr =>
            rw [if_neg notPtr, induction]
            rfl
      · rw [if_pos (by simpa using spells), induction]
        have passed : Answer.ptrOf (Spells · expected) ⟨owner, data⟩ = none := by
          cases data with
          | ptr name => exact if_neg spells
          | other rtype => rfl
        rw [firstPtr, firstPtr, List.findSome?_cons, passed]

theorem response_bit {flags : Nat} (word : flags < 65536) :
    flags &&& 0x8000 = 0 ↔ flags < 0x8000 := by
  have high : (flags &&& 0x8000) / 2 ^ 15 = flags / 2 ^ 15 % 2 := by
    rw [Nat.and_div_two_pow]
    exact Nat.and_one_is_mod _
  have low : (flags &&& 0x8000) % 2 ^ 15 = 0 := by
    rw [Nat.and_mod_two_pow]
    exact Nat.and_zero _
  omega

/-- On a well-formed response the parser answers with the first PTR record
whose owner spells the expected name. -/
theorem WellFormed.parseResponse_eq {answers : List Answer}
    (valid : WellFormed pkt answers) (expected : Name)
    (room : 256 ≤ out.length) :
    parseResponse pkt out (some (dotted expected)) =
      answered out (firstPtr (Spells · expected) answers) := by
  obtain ⟨off, last, questions, held⟩ := valid.records
  have header := valid.header
  have response := valid.response
  rw [parseResponse, if_neg (by omega), load16_eq (by omega),
    load16_eq (by omega), load16_eq (by omega)]
  simp only [bind, Except.bind]
  rw [if_neg (by rw [response_bit (uint16_lt pkt 2)]; omega), valid.count,
    questions.skip]
  cases answers with
  | nil => rfl
  | cons first rest =>
      exact held.scan expected room

end

/-! ## Owners that only look right -/

theorem tolower_eq_zero {c : UInt8} (lowered : tolower c = 0) : c = 0 := by
  rw [tolower] at lowered
  split at lowered
  · rename_i upper
    have high : c.toNat ≤ 90 := upper.2
    have number := congrArg UInt8.toNat lowered
    change (c.toNat + 32) % 256 = 0 at number
    omega
  · exact lowered

theorem dotted_map_tolower (name : Name) :
    (dotted name).map tolower = dotted (name.map (·.map tolower)) := by
  cases name with
  | nil => rfl
  | cons label rest =>
      have dotLow : tolower dot = dot := by decide
      rw [dotted, List.map_append, List.map_flatMap, List.map_cons, dotted,
        List.flatMap_map]
      simp only [List.map_cons, dotLow]

theorem SameName.spells {expected : Name} (same : SameName name expected)
    (text : 0 ∉ dotted expected) : Spells name expected := by
  have lowered : (dotted name).map tolower = (dotted expected).map tolower := by
    rw [dotted_map_tolower, dotted_map_tolower, same]
  have noNul : ∀ c ∈ dotted name, decide (c ≠ 0) = true := by
    intro c member
    refine decide_eq_true fun nul => text ?_
    subst nul
    have zero : (0 : UInt8) ∈ (dotted expected).map tolower :=
      lowered ▸ List.mem_map.mpr ⟨0, member, by decide⟩
    obtain ⟨d, there, low⟩ := List.mem_map.mp zero
    exact tolower_eq_zero low ▸ there
  rw [Spells, List.takeWhile_eq_self_iff.mpr noNul, lowered]

/-- The first PTR record whose owner spells the expected name has its labels,
or the first one that has them leaves the same bytes in `out`. -/
def FirstSpeltIsRight (out : List UInt8) (expected : Name)
    (answers : List Answer) : Prop :=
  ∀ front owner name rest, answers = front ++ ⟨owner, .ptr name⟩ :: rest →
    (∀ a ∈ front, a.ptrOf (Spells · expected) = none) →
    Spells owner expected →
    SameName owner expected ∨
      ∃ right, firstPtr (SameName · expected) rest = some right ∧
        overlay (dotted right ++ [0]) out = overlay (dotted name ++ [0]) out

variable {owns : Name → Prop}

theorem Answer.ptrOf_eq_some [DecidablePred owns] {a : Answer}
    (found : a.ptrOf owns = some name) :
    owns a.owner ∧ a = ⟨a.owner, .ptr name⟩ := by
  obtain ⟨owner, data⟩ := a
  cases data with
  | ptr other =>
      simp only [Answer.ptrOf] at found
      split at found
      · cases found
        exact ⟨‹_›, rfl⟩
      · cases found
  | other rtype => cases found

theorem Answer.ptrOf_none {others : Name → Prop} [DecidablePred owns]
    [DecidablePred others] (weaker : ∀ name, others name → owns name) {a : Answer}
    (passed : a.ptrOf owns = none) : a.ptrOf others = none := by
  cases found : a.ptrOf others with
  | none => rfl
  | some name =>
      obtain ⟨right, shape⟩ := ptrOf_eq_some found
      rw [shape] at passed
      simp only [Answer.ptrOf, if_pos (weaker _ right)] at passed
      cases passed

theorem firstPtr_append [DecidablePred owns] {front rest : List Answer}
    (passed : ∀ a ∈ front, a.ptrOf owns = none) :
    firstPtr owns (front ++ rest) = firstPtr owns rest := by
  rw [firstPtr, List.findSome?_append, List.findSome?_eq_none_iff.mpr passed]
  rfl

theorem firstPtr_owned (owns : Name → Prop) [DecidablePred owns]
    {owner : Name} (name : Name) (rest : List Answer) (own : owns owner) :
    firstPtr owns (⟨owner, .ptr name⟩ :: rest) = some name := by
  rw [firstPtr, List.findSome?_cons]
  simp only [Answer.ptrOf, if_pos own]

theorem firstPtr_passed (owns : Name → Prop) [DecidablePred owns]
    {owner : Name} (name : Name) (rest : List Answer) (other : ¬ owns owner) :
    firstPtr owns (⟨owner, .ptr name⟩ :: rest) = firstPtr owns rest := by
  rw [firstPtr, List.findSome?_cons]
  simp only [Answer.ptrOf, if_neg other]
  rfl

/-- On a well-formed response the parser gives the name of the first PTR record
with the expected owner just when no other record takes its place. -/
theorem parseResponse_right_iff {pkt : List UInt8} {answers : List Answer}
    (valid : WellFormed pkt answers) {expected : Name}
    (text : 0 ∉ dotted expected) {out : List UInt8}
    (room : maxNameLen ≤ out.length) :
    parseResponse pkt out (some (dotted expected)) =
        answered out (firstPtr (SameName · expected) answers) ↔
      FirstSpeltIsRight out expected answers := by
  have weaker : ∀ name, SameName name expected → Spells name expected :=
    fun name same => same.spells text
  rw [valid.parseResponse_eq expected room]
  constructor
  · intro right front owner name rest split passed spells
    have passedToo : ∀ a ∈ front, a.ptrOf (SameName · expected) = none :=
      fun a one => Answer.ptrOf_none weaker (passed a one)
    rw [split, firstPtr_append passed, firstPtr_append passedToo,
      firstPtr_owned (Spells · expected) name rest spells] at right
    by_cases same : SameName owner expected
    · exact .inl same
    · rw [firstPtr_passed (SameName · expected) name rest same] at right
      cases others : firstPtr (SameName · expected) rest with
      | none =>
          rw [others] at right
          cases right
      | some name' =>
          rw [others] at right
          exact .inr ⟨name', rfl, (Except.ok.inj right).symm⟩
  · intro condition
    cases taken : firstPtr (Spells · expected) answers with
    | none =>
        have passed := List.findSome?_eq_none_iff.mp taken
        have none_ : firstPtr (SameName · expected) answers = none :=
          List.findSome?_eq_none_iff.mpr fun a one =>
            Answer.ptrOf_none weaker (passed a one)
        rw [none_]
    | some name =>
        obtain ⟨front, a, rest, split, found, passed⟩ :=
          List.findSome?_eq_some_iff.mp taken
        obtain ⟨spells, shape⟩ := Answer.ptrOf_eq_some found
        have passedToo : ∀ a ∈ front, a.ptrOf (SameName · expected) = none :=
          fun a one => Answer.ptrOf_none weaker (passed a one)
        rw [shape] at split
        rw [split, firstPtr_append passedToo]
        rcases condition front a.owner name rest split passed spells with
          same | ⟨right, others, bytes⟩
        · rw [firstPtr_owned (SameName · expected) name rest same]
        · by_cases same : SameName a.owner expected
          · rw [firstPtr_owned (SameName · expected) name rest same]
          · rw [firstPtr_passed (SameName · expected) name rest same, others,
              answered, answered, bytes]

/-- `4.3.2.1.in-addr.arpa`. -/
def queriedName : Name :=
  [[52], [51], [50], [49], [105, 110, 45, 97, 100, 100, 114], [97, 114, 112, 97]]

/-- The queried name with a NUL and one more byte behind `arpa`. -/
def forgedName : Name :=
  [[52], [51], [50], [49], [105, 110, 45, 97, 100, 100, 114],
    [97, 114, 112, 97, 0, 33]]

/-- A response with one question and one answer, `tv`, whose owner is a pointer
to the question. -/
def honestPacket : List UInt8 :=
  [0, 0, 0x84, 0, 0, 1, 0, 1, 0, 0, 0, 0] ++ wire queriedName ++
    [0, 12, 0, 1, 0xC0, 12, 0, 12, 0x80, 1, 0, 0, 0, 120, 0, 4, 2, 116, 118, 0]

def forgedPacket : List UInt8 :=
  [0, 0, 0x84, 0, 0, 0, 0, 1, 0, 0, 0, 0] ++ wire forgedName ++
    [0, 12, 0x80, 1, 0, 0, 0, 120, 0, 4, 2, 116, 118, 0]

theorem honestPacket_answered :
    parseResponse honestPacket freshName (some (dotted queriedName)) =
        answered freshName (some [[116, 118]]) := by
  have qname : NameAt honestPacket 12 queriedName 0 34 :=
    .label rfl rfl (by decide) (by decide) rfl
      (.label rfl rfl (by decide) (by decide) rfl
        (.label rfl rfl (by decide) (by decide) rfl
          (.label rfl rfl (by decide) (by decide) rfl
            (.label rfl rfl (by decide) (by decide) rfl
              (.label rfl rfl (by decide) (by decide) rfl (.root rfl))))))
  have target : NameAt honestPacket 50 [[116, 118]] 0 54 :=
    .label rfl rfl (by decide) (by decide) rfl (.root rfl)
  have short : (dotted queriedName).length < 255 := by decide
  have valid : WellFormed honestPacket [⟨queriedName, .ptr [[116, 118]]⟩] :=
    ⟨by decide, by decide, rfl, 38, 54,
      .question ⟨0, qname, by decide, short⟩ (by decide) (.nil 38),
      .answer ⟨1, .pointer rfl rfl rfl qname, by decide, short⟩ (by decide)
        (.ptr ⟨0, target, by decide, by decide⟩) (.nil 54)⟩
  refine (parseResponse_right_iff valid (by decide)
    (Nat.le_of_eq freshName_length.symm)).mpr ?_
  intro front owner name rest split _ _
  cases front with
  | nil =>
      cases split
      exact .inl rfl
  | cons first front =>
      have length := congrArg List.length split
      simp only [List.length_append, List.length_cons, List.length_nil]
        at length
      omega

/-- The owner of the only answer is another name, but its text up to the NUL is
the expected one. -/
theorem forgedPacket_answered :
    WellFormed forgedPacket [⟨forgedName, .ptr [[116, 118]]⟩] ∧
      firstPtr (SameName · queriedName) [⟨forgedName, .ptr [[116, 118]]⟩] =
        none ∧
      parseResponse forgedPacket freshName (some (dotted queriedName)) =
        answered freshName (some [[116, 118]]) := by
  have owner : NameAt forgedPacket 12 forgedName 0 36 :=
    .label rfl rfl (by decide) (by decide) rfl
      (.label rfl rfl (by decide) (by decide) rfl
        (.label rfl rfl (by decide) (by decide) rfl
          (.label rfl rfl (by decide) (by decide) rfl
            (.label rfl rfl (by decide) (by decide) rfl
              (.label rfl rfl (by decide) (by decide) rfl (.root rfl))))))
  have target : NameAt forgedPacket 46 [[116, 118]] 0 50 :=
    .label rfl rfl (by decide) (by decide) rfl (.root rfl)
  have valid : WellFormed forgedPacket [⟨forgedName, .ptr [[116, 118]]⟩] :=
    ⟨by decide, by decide, rfl, 12, 50, .nil 12,
      .answer ⟨0, owner, by decide, by decide⟩ (by decide)
        (.ptr ⟨0, target, by decide, by decide⟩) (.nil 50)⟩
  refine ⟨valid, by decide, ?_⟩
  rw [valid.parseResponse_eq queriedName (Nat.le_of_eq freshName_length.symm)]
  rfl

end MdnsResolve
