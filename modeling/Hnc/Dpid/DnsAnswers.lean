import Hnc.Dpid.Parse

/-!
# Names in DNS messages

`dnsReadName` copies labels and follows compression pointers.  An encoding of a
name is a derivation here, with its length in labels and in pointers and with
the offset at which a message goes on behind it.
-/

variable {b : Bytes} {off : Nat}

namespace Dpid

open BigEndian

/-- At `off` the buffer holds an encoding of the labels, in which pointers are
followed `pointers` times; the message goes on at `after`. -/
inductive Encoded (b : Bytes) :
    (off : Nat) → (labels : List Bytes) → (pointers after : Nat) → Prop
  | zero {off : Nat} : window b off 1 = [0] → Encoded b off [] 0 (off + 1)
  | label {off pointers after : Nat} {label : Bytes} {labels : List Bytes} :
      label ≠ [] → label.length ≤ 63 →
      window b off (label.length + 1) = UInt8.ofNat label.length :: label →
      Encoded b (off + 1 + label.length) labels pointers after →
      Encoded b off (label :: labels) pointers after
  | pointer {off target pointers after : Nat} {labels : List Bytes} :
      target < 0x4000 → target ≠ off →
      window b off 2 =
        [UInt8.ofNat (0xc0 + target / 256), UInt8.ofNat (target % 256)] →
      Encoded b target labels pointers after →
      Encoded b off labels (pointers + 1) (off + 2)

/-- The encoding of a name is within the limits of `dnsReadName`. -/
def ReadableName (b : Bytes) (off : Nat) (labels : List Bytes) (after : Nat) :
    Prop :=
  ∃ pointers, Encoded b off labels pointers after ∧ pointers ≤ 8 ∧
    labels.length + pointers ≤ 255

/-- The text of a name with one more label. -/
def withLabel (name label : Bytes) : Bytes :=
  if name = [] then label else name ++ 46 :: label

/-- The labels, with dots between them. -/
def dotted (labels : List Bytes) : Bytes :=
  List.intercalate [46] labels

theorem slice_window (b : Bytes) (lo size : Nat) :
    slice b lo (lo + size) = window b lo size := by
  rw [slice, List.drop_take, Nat.add_sub_cancel_left, window]

/-- A window that is as long as asked for is inside the buffer. -/
theorem window_inside {bytes : Bytes} {size : Nat}
    (whole : window b off size = bytes) (length : bytes.length = size)
    (positive : 0 < size) : off + size ≤ b.length := by
  rw [← whole, window, List.length_take, List.length_drop] at length
  omega

theorem window_cons {b rest : Bytes} {off : Nat} {first : UInt8}
    (whole : window b off (rest.length + 1) = first :: rest) :
    uint8 b off = first.toNat ∧ window b (off + 1) rest.length = rest := by
  rw [Nat.add_comm] at whole
  obtain ⟨one, behind⟩ := @window_append b [first] rest off
    (by rw [List.length_append]; exact whole)
  refine ⟨?_, behind⟩
  exact (congrArg value one).trans (Nat.zero_add _)

variable {after : Nat} {labels : List Bytes}

theorem Encoded.inside {pointers : Nat}
    (encoded : Encoded b off labels pointers after) : off < b.length := by
  cases encoded with
  | zero terminator => exact window_inside terminator rfl Nat.one_pos
  | label nonempty short here rest =>
      have := window_inside here rfl (Nat.succ_pos _)
      omega
  | pointer small other here rest =>
      have := window_inside here rfl Nat.two_pos
      omega

/-- What the loop returns on an encoding, with any text and any offset behind
the name from the turns before. -/
theorem dnsNameLoop_encoded {b : Bytes} {off pointers after : Nat}
    {labels : List Bytes} (encoded : Encoded b off labels pointers after)
    {iterations jumps : Nat} (enough : labels.length + pointers < iterations)
    (budget : pointers ≤ jumps) (nextOff : Option Nat) (name : Bytes) :
    dnsNameLoop b iterations jumps off nextOff name =
      some (labels.foldl withLabel name, nextOff.getD after) := by
  induction encoded generalizing iterations jumps nextOff name with
  | zero terminator =>
      obtain ⟨iterations, rfl⟩ := Nat.exists_eq_add_one_of_ne_zero
        (Nat.ne_of_gt (Nat.zero_lt_of_lt enough))
      have inside := window_inside terminator rfl Nat.one_pos
      have byte : uint8 b _ = 0 := congrArg value terminator
      rw [dnsNameLoop, if_neg (by omega)]
      simp only [byte]
      rfl
  | @label off pointers after label labels nonempty short here rest
      induction =>
      obtain ⟨iterations, rfl⟩ := Nat.exists_eq_add_one_of_ne_zero
        (Nat.ne_of_gt (Nat.zero_lt_of_lt enough))
      have positive := List.length_pos_iff.mpr nonempty
      have inside := window_inside here rfl (Nat.succ_pos _)
      obtain ⟨byte, text⟩ := window_cons here
      rw [UInt8.toNat_ofNat_of_lt' (Nat.lt_of_le_of_lt short (by decide))]
        at byte
      rw [dnsNameLoop, if_neg (by omega)]
      simp only [byte]
      rw [if_neg (by omega), if_neg (by omega), if_neg (by omega),
        if_neg (by omega), slice_window, text]
      rw [List.length_cons] at enough
      exact induction (by omega) budget nextOff (withLabel name label)
  | @pointer off target pointers after labels small other here rest
      induction =>
      obtain ⟨iterations, rfl⟩ := Nat.exists_eq_add_one_of_ne_zero
        (Nat.ne_of_gt (Nat.zero_lt_of_lt enough))
      obtain ⟨jumps, rfl⟩ := Nat.exists_eq_add_one_of_ne_zero
        (Nat.ne_of_gt (Nat.zero_lt_of_lt budget))
      have inside := window_inside here rfl Nat.two_pos
      have landing := rest.inside
      obtain ⟨byte, -⟩ := @window_cons b [_] off _ here
      rw [UInt8.toNat_ofNat_of_lt' (show _ < 256 by omega)] at byte
      have field : uint16 b off % 0x4000 = target := by
        rw [uint16, here]
        simp only [value, List.foldl_cons, List.foldl_nil]
        rw [UInt8.toNat_ofNat_of_lt' (show _ < 256 by omega),
          UInt8.toNat_ofNat_of_lt' (show _ < 256 by omega)]
        omega
      rw [dnsNameLoop, if_neg (by omega)]
      simp only [field]
      rw [if_neg (by omega), if_pos (by omega), if_neg (by omega),
        if_neg (by omega)]
      exact induction (by omega) (by omega) (some (nextOff.getD (off + 2)))
        name

theorem foldl_withLabel {name : Bytes} (nonempty : name ≠ [])
    (labels : List Bytes) :
    labels.foldl withLabel name = dotted (name :: labels) := by
  induction labels generalizing name with
  | nil => exact List.intercalate_singleton.symm
  | cons label labels induction =>
      have more : withLabel name label = name ++ 46 :: label :=
        if_neg nonempty
      rw [List.foldl_cons, more, induction (by simp)]
      cases labels with
      | nil => simp [dotted, List.intercalate_cons_cons]
      | cons next labels => simp [dotted, List.intercalate_cons_cons]

theorem Encoded.label_ne_nil {pointers : Nat}
    (encoded : Encoded b off labels pointers after) : [] ∉ labels := by
  induction encoded with
  | zero => exact List.not_mem_nil
  | label nonempty short here rest induction =>
      rw [List.mem_cons, not_or]
      exact ⟨nonempty.symm, induction⟩
  | pointer small other here rest induction => exact induction

/-- The text that the loop builds is the labels with dots between them. -/
theorem withLabel_dotted (nonempty : [] ∉ labels) :
    labels.foldl withLabel [] = dotted labels := by
  cases labels with
  | nil => rfl
  | cons label labels =>
      rw [List.mem_cons, not_or] at nonempty
      exact foldl_withLabel (fun empty => nonempty.1 empty.symm) labels

theorem ReadableName.read (readable : ReadableName b off labels after) :
    dnsReadName b off = some (dotted labels, after) := by
  obtain ⟨pointers, encoded, budget, limit⟩ := readable
  rw [dnsReadName, dnsNameLoop_encoded encoded (by omega) budget,
    withLabel_dotted encoded.label_ne_nil]
  rfl

/-- `dnsReadName` returns the labels of an encoding with dots between them, and
the offset behind the zero byte or behind the first pointer. -/
theorem dnsReadName_encoded {b : Bytes} {off pointers after : Nat}
    {labels : List Bytes} (encoded : Encoded b off labels pointers after)
    (budget : pointers ≤ 8) (limit : labels.length + pointers ≤ 255) :
    dnsReadName b off = some (List.intercalate [46] labels, after) :=
  ReadableName.read ⟨pointers, encoded, budget, limit⟩

/-- The name `b.a`, whose tail is an earlier name. -/
theorem dnsReadName_compressed :
    dnsReadName [1, 97, 0, 1, 98, 0xc0, 0] 3 = some ([98, 46, 97], 7) := by
  have earlier : Encoded [1, 97, 0, 1, 98, 0xc0, 0] 0 [[97]] 0 3 :=
    .label (by decide) (by decide) rfl (.zero rfl)
  have encoded : Encoded [1, 97, 0, 1, 98, 0xc0, 0] 3 [[98], [97]] 1 7 :=
    .label (by decide) (by decide) rfl
      (.pointer (by decide) (by decide) rfl earlier)
  exact dnsReadName_encoded encoded (by decide) (by decide)

end Dpid

/-!
## The answer section of a DNS response

`parseDNS` goes from record to record with the offset behind each name and the
length of the data.  What a response holds is given by relations between the
buffer and the records, and the loop of the parser collects exactly that; its
smallest TTL starts again behind a record whose TTL is 0.
-/

namespace Dpid

open BigEndian

/-- The data of a record; the types that the parser skips are one case. -/
inductive RData where
  | a (ip : Bytes)
  | aaaa (ip : Bytes)
  | cname (target : List Bytes)
  | other (type : Nat) (rdata : Bytes)
deriving DecidableEq, Repr

def RData.type : RData → Nat
  | .a _ => 1
  | .aaaa _ => 28
  | .cname _ => 5
  | .other type _ => type

/-- The data stands in the buffer from `off` to `after`. -/
inductive RData.Stands (b : Bytes) (off : Nat) : RData → (after : Nat) → Prop
  | a {ip : Bytes} : ip.length = 4 → window b off 4 = ip →
      Stands b off (.a ip) (off + 4)
  | aaaa {ip : Bytes} : ip.length = 16 → window b off 16 = ip →
      Stands b off (.aaaa ip) (off + 16)
  | cname {target : List Bytes} {after : Nat} :
      ReadableName b off target after → Stands b off (.cname target) after
  | other {type : Nat} {rdata : Bytes} :
      type ≠ 1 → type ≠ 28 → type ≠ 5 → window b off rdata.length = rdata →
      Stands b off (.other type rdata) (off + rdata.length)

structure Record where
  owner : List Bytes
  ttl : Nat
  data : RData
deriving DecidableEq, Repr

/-- The records stand in the buffer one behind the other. -/
inductive Records (b : Bytes) : (off : Nat) → List Record → Prop
  | nil {off : Nat} : Records b off []
  | cons {off p rdlen : Nat} {record : Record} {records : List Record} :
      ReadableName b off record.owner p →
      uint16 b p = record.data.type →
      uint32 b (p + 4) = record.ttl →
      uint16 b (p + 8) = rdlen →
      p + 10 + rdlen ≤ b.length →
      record.data.Stands b (p + 10) (p + 10 + rdlen) →
      Records b (p + 10 + rdlen) records →
      Records b off (record :: records)

/-- The buffer holds a response with one question and these answers. -/
structure Response (b : Bytes) (qname : List Bytes) (qtype : Nat)
    (records : List Record) : Prop where
  header : 12 ≤ b.length
  isResponse : 0x8000 ≤ uint16 b 2
  oneQuestion : uint16 b 4 = 1
  count : uint16 b 6 = records.length
  sections : ∃ p, ReadableName b 12 qname p ∧ p + 4 ≤ b.length ∧
    uint16 b p = qtype ∧ Records b (p + 4) records

/-- The smallest TTL, 0 when there is none. -/
def minTTL (ttls : List Nat) : Nat :=
  ttls.min?.getD 0

/-- What the loop makes of its smallest TTL at a record. -/
def stepTTL (minTTL ttl : Nat) : Nat :=
  if minTTL = 0 ∨ ttl < minTTL then ttl else minTTL

theorem stepTTL_pos {least ttl : Nat} (positive : 0 < least) :
    stepTTL least ttl = min least ttl := by
  rw [stepTTL]
  split <;> omega

theorem stepTTL_zero_left (ttl : Nat) : stepTTL 0 ttl = ttl :=
  if_pos (.inl rfl)

theorem stepTTL_eq_zero (least ttl : Nat) : stepTTL least ttl = 0 ↔ ttl = 0 := by
  rw [stepTTL]
  split <;> omega

theorem foldl_stepTTL {least : Nat} (positive : 0 < least) {ttls : List Nat}
    (allPositive : ∀ ttl ∈ ttls, ttl ≠ 0) :
    ttls.foldl stepTTL least = ttls.foldl min least := by
  induction ttls generalizing least with
  | nil => rfl
  | cons ttl ttls induction =>
      have first := allPositive ttl List.mem_cons_self
      rw [List.foldl_cons, stepTTL_pos positive]
      apply induction (by omega)
      intro other member
      exact allPositive other (List.mem_cons_of_mem ttl member)

theorem minTTL_eq_zero {ttls : List Nat} (member : 0 ∈ ttls) :
    minTTL ttls = 0 := by
  have least : ttls.min? = some 0 :=
    List.min?_eq_some_iff.mpr ⟨member, fun ttl _ => Nat.zero_le ttl⟩
  rw [minTTL, least, Option.getD_some]

/-- The fold is the minimum unless a record has TTL 0 and the last one has
not. -/
theorem foldl_stepTTL_eq_minTTL_iff (ttls : List Nat) :
    ttls.foldl stepTTL 0 = minTTL ttls ↔
      (∀ ttl ∈ ttls, ttl ≠ 0) ∨ ttls.getLast? = some 0 := by
  by_cases allPositive : ∀ ttl ∈ ttls, ttl ≠ 0
  · refine iff_of_true ?_ (.inl allPositive)
    cases ttls with
    | nil => rfl
    | cons ttl ttls =>
        have first := allPositive ttl List.mem_cons_self
        rw [List.foldl_cons, stepTTL_zero_left, foldl_stepTTL (by omega)
          fun other member => allPositive other (List.mem_cons_of_mem ttl member)]
        rfl
  · have member : 0 ∈ ttls := by
      simpa using allPositive
    rw [minTTL_eq_zero member, or_iff_right allPositive]
    obtain ⟨init, last, rfl⟩ : ∃ init last, ttls = init ++ [last] :=
      ⟨_, _, (List.dropLast_concat_getLast (List.ne_nil_of_mem member)).symm⟩
    rw [List.foldl_append, List.foldl_cons, List.foldl_nil, stepTTL_eq_zero]
    simp

section

variable (toLower : Bytes → Bytes)

/-- What a record is in `Answers`. -/
def RData.answers : RData → List Answer
  | .a ip => [.a ip]
  | .aaaa ip => [.aaaa ip]
  | .cname target => [.cname (toLower (dotted target))]
  | .other _ _ => []

theorem dnsAnswer_stands {rdlen : Nat} {data : RData}
    (stands : data.Stands b off (off + rdlen)) :
    dnsAnswer toLower b data.type rdlen off = data.answers toLower := by
  generalize ends : off + rdlen = after at stands
  cases stands with
  | @a ip length here =>
      have four : rdlen = 4 := by omega
      rw [four]
      exact congrArg (fun ip => [Answer.a ip])
        ((slice_window b off 4).trans here)
  | @aaaa ip length here =>
      have sixteen : rdlen = 16 := by omega
      rw [sixteen]
      exact congrArg (fun ip => [Answer.aaaa ip])
        ((slice_window b off 16).trans here)
  | @cname target after name =>
      rw [RData.type, dnsAnswer, name.read]
      rfl
  | @other type rdata notA notAAAA notCNAME here =>
      rw [RData.type, RData.answers, dnsAnswer.eq_4 _ _ _ _ _ notA notAAAA
        notCNAME]

/-- The loop over the answers collects what the records hold. -/
theorem dnsAnswers_records {records : List Record} (stand : Records b off records)
    (answers : List Answer) (least : Nat) :
    dnsAnswers toLower b records.length off answers least =
      (answers ++ records.flatMap (·.data.answers toLower),
        (records.map (·.ttl)).foldl stepTTL least) := by
  induction stand generalizing answers least with
  | nil => simp [dnsAnswers]
  | @cons off p rdlen record records owner type ttl length inside data behind
      induction =>
      rw [List.length_cons, dnsAnswers, owner.read]
      simp only [type, ttl, length]
      rw [if_neg (by omega), if_neg (by omega), dnsAnswer_stands toLower data]
      refine (induction _ (stepTTL least record.ttl)).trans ?_
      rw [List.flatMap_cons, List.append_assoc, List.map_cons,
        List.foldl_cons]

/-- Of every well-formed response the parser reports the question and the
answers.  The TTL is the smallest one exactly when no record has TTL 0 or the
last one has. -/
theorem parseDNS_response {b : Bytes} {qname : List Bytes} {qtype : Nat}
    {records : List Record} (response : Response b qname qtype records) :
    ∃ ttl, parseDNS toLower b = some
        { isResponse := true
          qName := toLower (dotted qname)
          qType := qtype
          answers := records.flatMap (·.data.answers toLower)
          ttl := ttl } ∧
      (ttl = minTTL (records.map (·.ttl)) ↔
        (∀ record ∈ records, record.ttl ≠ 0) ∨
          records.getLast?.map (·.ttl) = some 0) := by
  obtain ⟨p, question, inside, type, stand⟩ := response.sections
  refine ⟨(records.map (·.ttl)).foldl stepTTL 0, ?_, ?_⟩
  · have header := response.header
    have isResponse := response.isResponse
    rw [parseDNS, if_neg (by omega), if_neg (not_not.mpr response.oneQuestion),
      question.read]
    simp only [response.count, type, dnsAnswers_records toLower stand]
    rw [if_neg (by omega)]
    simp [isResponse]
  · rw [foldl_stepTTL_eq_minTTL_iff, List.getLast?_map]
    simp

end

/-- A response for the name `a` with two addresses and their TTLs. -/
def twoAddresses (ttl ttl' : UInt8) : Bytes :=
  [0, 0, 0x80, 0, 0, 1, 0, 2, 0, 0, 0, 0] ++ [1, 97, 0, 0, 1, 0, 1] ++
    [0xc0, 12, 0, 1, 0, 1, 0, 0, 0, ttl, 0, 4, 10, 0, 0, 1] ++
    [0xc0, 12, 0, 1, 0, 1, 0, 0, 0, ttl', 0, 4, 10, 0, 0, 2]

def twoRecords (ttl ttl' : UInt8) : List Record :=
  [⟨[[97]], ttl.toNat, .a [10, 0, 0, 1]⟩,
    ⟨[[97]], ttl'.toNat, .a [10, 0, 0, 2]⟩]

theorem twoAddresses_response (ttl ttl' : UInt8) :
    Response (twoAddresses ttl ttl') [[97]] 1 (twoRecords ttl ttl') := by
  have question : Encoded (twoAddresses ttl ttl') 12 [[97]] 0 15 :=
    .label (by decide) (by decide) rfl (.zero rfl)
  have owner (off : Nat)
      (here : window (twoAddresses ttl ttl') off 2 = [0xc0, 12])
      (other : 12 ≠ off) :
      ReadableName (twoAddresses ttl ttl') off [[97]] (off + 2) :=
    ⟨1, .pointer (by decide) other here question, by decide, by decide⟩
  have word (off : Nat) (ttl'' : UInt8)
      (here : window (twoAddresses ttl ttl') off 4 = [0, 0, 0, ttl'']) :
      uint32 (twoAddresses ttl ttl') off = ttl''.toNat := by
    rw [uint32, here]
    simp [value]
  have inside (size : Nat) (bound : size ≤ 51) :
      size ≤ (twoAddresses ttl ttl').length := bound
  have isResponse : uint16 (twoAddresses ttl ttl') 2 = 0x8000 := rfl
  refine ⟨inside 12 (by decide), Nat.le_of_eq isResponse.symm, rfl, rfl, 15,
    ⟨0, question, by decide, by decide⟩, inside 19 (by decide), rfl, ?_⟩
  apply @Records.cons _ 19 21 4 _ _ (owner 19 rfl (by decide)) rfl
    (word 25 ttl rfl) rfl (inside 35 (by decide)) (.a rfl rfl)
  exact @Records.cons _ 35 37 4 _ _ (owner 35 rfl (by decide)) rfl
    (word 41 ttl' rfl) rfl (inside 51 (by decide)) (.a rfl rfl) .nil

theorem parseDNS_twoAddresses :
    parseDNS id (twoAddresses 7 5) = some
      { isResponse := true
        qName := [97]
        qType := 1
        answers := [.a [10, 0, 0, 1], .a [10, 0, 0, 2]]
        ttl := 5 } := by
  obtain ⟨ttl, parsed, least⟩ :=
    parseDNS_response id (twoAddresses_response 7 5)
  rw [parsed, least.mpr (.inl (by decide))]
  rfl

/-- Behind a record with TTL 0 the smallest TTL starts again. -/
theorem zero_ttl_is_lost : ¬ ∀ (toLower : Bytes → Bytes) (b : Bytes)
    (qname : List Bytes) (qtype : Nat) (records : List Record),
    Response b qname qtype records →
      parseDNS toLower b = some
        { isResponse := true
          qName := toLower (dotted qname)
          qType := qtype
          answers := records.flatMap (·.data.answers toLower)
          ttl := minTTL (records.map (·.ttl)) } := by
  intro all
  have parsed := all id _ _ _ _ (twoAddresses_response 0 5)
  have found : (parseDNS id (twoAddresses 0 5)).map (·.ttl) = some 5 := by
    decide +kernel
  rw [parsed] at found
  exact absurd found (by decide)

end Dpid
