import Hnc.Lib.BigEndian

/-!
# Classic BPF

A filter is a list of instructions over an accumulator, an index register and
the bytes of a packet.  Jumps go forward only, so that a run is a recursion over
the list in which a jump skips some of the instructions.  A load outside the
packet ends the run with 0.  The instructions for the scratch memory are left
out.
-/

namespace Bpf

open BigEndian

/-- An entry of a filter as the kernel takes it. -/
structure SockFilter where
  code : BitVec 16
  jt : BitVec 8 := 0
  jf : BitVec 8 := 0
  k : BitVec 32 := 0
deriving DecidableEq, Repr

inductive Size where
  | word
  | half
  | byte
deriving DecidableEq, Repr

def Size.bytes : Size → Nat
  | .word => 4
  | .half => 2
  | .byte => 1

inductive Source where
  | k (value : BitVec 32)
  | x
deriving DecidableEq, Repr

inductive AluOp where
  | add
  | sub
  | mul
  | div
  | mod
  | and
  | or
  | xor
  | lsh
  | rsh
deriving DecidableEq, Repr

inductive Test where
  | jeq
  | jgt
  | jge
  | jset
deriving DecidableEq, Repr

inductive Instr where
  | ldImm (k : BitVec 32)
  | ldLen
  | ldAbs (size : Size) (k : BitVec 32)
  | ldInd (size : Size) (k : BitVec 32)
  | ldxImm (k : BitVec 32)
  | ldxLen
  | ldxMsh (k : BitVec 32)
  | alu (op : AluOp) (source : Source)
  | neg
  | ja (k : BitVec 32)
  | jump (test : Test) (source : Source) (jt jf : Nat)
  | retK (k : BitVec 32)
  | retA
  | tax
  | txa
deriving DecidableEq, Repr

def aluOp : Nat → Option AluOp
  | 0x00 => some .add
  | 0x10 => some .sub
  | 0x20 => some .mul
  | 0x30 => some .div
  | 0x90 => some .mod
  | 0x50 => some .and
  | 0x40 => some .or
  | 0xa0 => some .xor
  | 0x60 => some .lsh
  | 0x70 => some .rsh
  | _ => none

def jumpTest : Nat → Option Test
  | 0x10 => some .jeq
  | 0x20 => some .jgt
  | 0x30 => some .jge
  | 0x40 => some .jset
  | _ => none

/-- The operand that the source bit of a code selects. -/
def SockFilter.source (filter : SockFilter) : Source :=
  if filter.code &&& 0x08 = 0 then .k filter.k else .x

/-- The instruction of an entry; a code that is none of the ones above is
refused. -/
def SockFilter.decode (filter : SockFilter) : Option Instr :=
  match filter.code.toNat with
  | 0x00 => some (.ldImm filter.k)
  | 0x80 => some .ldLen
  | 0x20 => some (.ldAbs .word filter.k)
  | 0x28 => some (.ldAbs .half filter.k)
  | 0x30 => some (.ldAbs .byte filter.k)
  | 0x40 => some (.ldInd .word filter.k)
  | 0x48 => some (.ldInd .half filter.k)
  | 0x50 => some (.ldInd .byte filter.k)
  | 0x01 => some (.ldxImm filter.k)
  | 0x81 => some .ldxLen
  | 0xb1 => some (.ldxMsh filter.k)
  | 0x06 => some (.retK filter.k)
  | 0x16 => some .retA
  | 0x07 => some .tax
  | 0x87 => some .txa
  | 0x84 => some .neg
  | 0x05 => some (.ja filter.k)
  | code =>
      let operation := code / 16 * 16
      if code % 8 = 0x04 then
        (aluOp operation).map fun op => .alu op filter.source
      else if code % 8 = 0x05 then
        (jumpTest operation).map fun test =>
          .jump test filter.source filter.jt.toNat filter.jf.toNat
      else none

/-- A number in the packet. -/
def load (packet : List UInt8) (off size : Nat) : Option Nat :=
  if off + size ≤ packet.length then some (value (window packet off size))
  else none

/-- Where an instruction leads: to the end, or on with new registers and some
instructions skipped. -/
inductive Outcome where
  | done (result : BitVec 32)
  | next (a x : BitVec 32) (skip : Nat)
deriving DecidableEq, Repr

def Source.value (x : BitVec 32) : Source → BitVec 32
  | .k value => value
  | .x => x

def AluOp.apply (a b : BitVec 32) : AluOp → Option (BitVec 32)
  | .add => some (a + b)
  | .sub => some (a - b)
  | .mul => some (a * b)
  | .div => if b = 0 then none else some (a.udiv b)
  | .mod => if b = 0 then none else some (a.umod b)
  | .and => some (a &&& b)
  | .or => some (a ||| b)
  | .xor => some (a ^^^ b)
  | .lsh => some (a <<< b.toNat)
  | .rsh => some (a >>> b.toNat)

def Test.holds (a b : BitVec 32) : Test → Bool
  | .jeq => a = b
  | .jgt => b.ult a
  | .jge => b.ule a
  | .jset => a &&& b ≠ 0

/-- The result of a load into the accumulator. -/
def loaded (x : BitVec 32) : Option Nat → Outcome
  | some value => .next (BitVec.ofNat 32 value) x 0
  | none => .done 0

def step (packet : List UInt8) (a x : BitVec 32) : Instr → Outcome
  | .ldImm k => .next k x 0
  | .ldLen => .next (BitVec.ofNat 32 packet.length) x 0
  | .ldAbs size k => loaded x (load packet k.toNat size.bytes)
  | .ldInd size k => loaded x (load packet (x + k).toNat size.bytes)
  | .ldxImm k => .next a k 0
  | .ldxLen => .next a (BitVec.ofNat 32 packet.length) 0
  | .ldxMsh k =>
      match load packet k.toNat 1 with
      | some value => .next a (BitVec.ofNat 32 (value % 16 * 4)) 0
      | none => .done 0
  | .alu op source =>
      match op.apply a (source.value x) with
      | some result => .next result x 0
      | none => .done 0
  | .neg => .next (-a) x 0
  | .ja k => .next a x k.toNat
  | .jump test source jt jf =>
      .next a x (if test.holds a (source.value x) then jt else jf)
  | .retK k => .done k
  | .retA => .done a
  | .tax => .next a a 0
  | .txa => .next x x 0

/-- The run of a list of instructions, of which the first `skip` are jumped
over. -/
def exec (packet : List UInt8) :
    List Instr → (skip : Nat) → (a x : BitVec 32) → BitVec 32
  | [], _, _, _ => 0
  | _ :: rest, skip + 1, a, x => exec packet rest skip a x
  | first :: rest, 0, a, x =>
      match step packet a x first with
      | .done result => result
      | .next a x skip => exec packet rest skip a x

/-- The instruction leads to one of the `behind` instructions behind it, or
ends the run. -/
def Instr.staysWithin (behind : Nat) : Instr → Bool
  | .ja k => k.toNat < behind
  | .jump _ _ jt jf => jt < behind && jf < behind
  | .retK _ => true
  | .retA => true
  | _ => 0 < behind

/-- No instruction leads behind the end of the list. -/
def closed : List Instr → Bool
  | [] => true
  | first :: rest => first.staysWithin rest.length && closed rest

/-- `exec`, where a run that leaves the list has no result. -/
def execWithin (packet : List UInt8) :
    List Instr → (skip : Nat) → (a x : BitVec 32) → Option (BitVec 32)
  | [], _, _, _ => none
  | _ :: rest, skip + 1, a, x => execWithin packet rest skip a x
  | first :: rest, 0, a, x =>
      match step packet a x first with
      | .done result => some result
      | .next a x skip => execWithin packet rest skip a x

/-- What a filter returns for a packet; `none` when the kernel refuses it. -/
def run (filter : List SockFilter) (packet : List UInt8) :
    Option (BitVec 32) :=
  (filter.mapM SockFilter.decode).map fun instrs => exec packet instrs 0 0 0

/-- `run`, where a run that leaves the filter has no result. -/
def runWithin (filter : List SockFilter) (packet : List UInt8) :
    Option (BitVec 32) :=
  (filter.mapM SockFilter.decode).bind fun instrs =>
    execWithin packet instrs 0 0 0

/-- The filter is loaded and lets the packet through. -/
def Accepts (filter : List SockFilter) (packet : List UInt8) : Prop :=
  ∃ result, run filter packet = some result ∧ result ≠ 0

variable {x a' x' : BitVec 32} {skip : Nat}

theorem loaded_next {value : Option Nat}
    (leads : loaded x value = .next a' x' skip) : skip = 0 := by
  cases value with
  | none => cases leads
  | some value => cases leads; rfl

variable {a : BitVec 32}

/-- What an instruction skips is behind it in the list. -/
theorem skip_lt {packet : List UInt8} {instr : Instr} {behind : Nat}
    (within : instr.staysWithin behind = true)
    (leads : step packet a x instr = .next a' x' skip) : skip < behind := by
  cases instr with
  | jump test source jt jf =>
      obtain ⟨jtWithin, jfWithin⟩ := Bool.and_eq_true_iff.mp within
      cases leads
      split
      · exact of_decide_eq_true jtWithin
      · exact of_decide_eq_true jfWithin
  | retK | retA => cases leads
  | ldAbs | ldInd =>
      rw [loaded_next leads]
      exact of_decide_eq_true within
  | ldxMsh k =>
      simp only [step] at leads
      split at leads
      · cases leads
        exact of_decide_eq_true within
      · cases leads
  | alu op source =>
      simp only [step] at leads
      split at leads
      · cases leads
        exact of_decide_eq_true within
      · cases leads
  | _ =>
      cases leads
      exact of_decide_eq_true within

/-- A run of a closed list ends at a return or a failing instruction. -/
theorem execWithin_closed (packet : List UInt8) {instrs : List Instr}
    (isClosed : closed instrs = true) (inside : skip < instrs.length)
    (a x : BitVec 32) :
    execWithin packet instrs skip a x = some (exec packet instrs skip a x) := by
  induction instrs generalizing skip a x with
  | nil => cases inside
  | cons first rest induction =>
      obtain ⟨within, restClosed⟩ := Bool.and_eq_true_iff.mp isClosed
      cases skip with
      | succ skip =>
          exact induction restClosed (Nat.lt_of_succ_lt_succ inside) a x
      | zero =>
          rw [execWithin, exec]
          cases leads : step packet a x first with
          | done result => rfl
          | next a' x' skip =>
              exact induction restClosed (skip_lt within leads) a' x'

theorem exec_skip (packet : List UInt8) (instrs : List Instr) (skip : Nat)
    (a x : BitVec 32) :
    exec packet instrs skip a x = exec packet (instrs.drop skip) 0 a x := by
  induction instrs generalizing skip with
  | nil => simp [exec]
  | cons first rest induction =>
      cases skip with
      | zero => rfl
      | succ skip => exact induction skip

variable {k : BitVec 32}

section

variable {packet : List UInt8}

theorem exec_next {first : Instr} {rest : List Instr}
    (leads : step packet a x first = .next a' x' skip) :
    exec packet (first :: rest) 0 a x =
      exec packet (rest.drop skip) 0 a' x' := by
  rw [exec, leads]
  exact exec_skip packet rest skip a' x'

variable {size : Size} {off : Nat}

theorem exec_ldAbs {value : Nat} (found : load packet off size.bytes = some value)
    (here : k.toNat = off) (rest : List Instr) (a x : BitVec 32) :
    exec packet (.ldAbs size k :: rest) 0 a x =
      exec packet rest 0 (BitVec.ofNat 32 value) x := by
  refine (exec_next ?_ : _ = exec packet (rest.drop 0) 0 _ _)
  rw [step, here, found, loaded]

theorem exec_ldAbs_none (outside : load packet k.toNat size.bytes = none)
    (rest : List Instr) (a x : BitVec 32) :
    exec packet (.ldAbs size k :: rest) 0 a x = 0 := by
  rw [exec, step, outside, loaded]

theorem exec_ldInd {index value : Nat}
    (found : load packet off size.bytes = some value)
    (here : index + k.toNat = off) (small : off < 2 ^ 32) (rest : List Instr)
    (a : BitVec 32) :
    exec packet (.ldInd size k :: rest) 0 a (BitVec.ofNat 32 index) =
      exec packet rest 0 (BitVec.ofNat 32 value) (BitVec.ofNat 32 index) := by
  have sum : (BitVec.ofNat 32 index + k).toNat = off := by
    rw [BitVec.toNat_add, BitVec.toNat_ofNat, Nat.mod_add_mod, here,
      Nat.mod_eq_of_lt small]
  refine (exec_next ?_ : _ = exec packet (rest.drop 0) 0 _ _)
  rw [step, sum, found, loaded]

theorem exec_ldInd_none {index : Nat}
    (outside : load packet off size.bytes = none) (here : index + k.toNat = off)
    (small : off < 2 ^ 32) (rest : List Instr) (a : BitVec 32) :
    exec packet (.ldInd size k :: rest) 0 a (BitVec.ofNat 32 index) = 0 := by
  have sum : (BitVec.ofNat 32 index + k).toNat = off := by
    rw [BitVec.toNat_add, BitVec.toNat_ofNat, Nat.mod_add_mod, here,
      Nat.mod_eq_of_lt small]
  rw [exec, step, sum, outside, loaded]

theorem exec_ldxMsh {value : Nat}
    (found : load packet off Size.byte.bytes = some value) (here : k.toNat = off)
    (rest : List Instr) (a x : BitVec 32) :
    exec packet (.ldxMsh k :: rest) 0 a x =
      exec packet rest 0 a (BitVec.ofNat 32 (value % 16 * 4)) := by
  refine (exec_next ?_ : _ = exec packet (rest.drop 0) 0 _ _)
  have read : load packet k.toNat 1 = some value := by
    rw [here]
    exact found
  rw [step, read]

theorem exec_jump {test : Test} {source : Source} {jt jf : Nat}
    (holds : test.holds a (source.value x) = true) (rest : List Instr) :
    exec packet (.jump test source jt jf :: rest) 0 a x =
      exec packet (rest.drop jt) 0 a x := by
  apply exec_next
  rw [step, if_pos holds]

theorem exec_no_jump {test : Test} {source : Source} {jt jf : Nat}
    (fails : test.holds a (source.value x) = false) (rest : List Instr) :
    exec packet (.jump test source jt jf :: rest) 0 a x =
      exec packet (rest.drop jf) 0 a x := by
  apply exec_next
  rw [step, if_neg (by simp [fails])]

theorem load_uint8 (inside : off + 1 ≤ packet.length) :
    load packet off Size.byte.bytes = some (uint8 packet off) :=
  if_pos inside

theorem load_uint16 (inside : off + 2 ≤ packet.length) :
    load packet off Size.half.bytes = some (uint16 packet off) :=
  if_pos inside

end

/-- The accumulator holds the number that it is compared with. -/
theorem jeq_ofNat {value : Nat} (same : value = k.toNat) :
    Test.jeq.holds (BitVec.ofNat 32 value) k = true := by
  rw [same, BitVec.ofNat_toNat]
  simp [Test.holds]

theorem jeq_ofNat_false {value : Nat} (small : value < 2 ^ 32)
    (different : value ≠ k.toNat) :
    Test.jeq.holds (BitVec.ofNat 32 value) k = false := by
  simp only [Test.holds, decide_eq_false_iff_not]
  intro same
  apply different
  rw [← same, BitVec.toNat_ofNat, Nat.mod_eq_of_lt small]

end Bpf
