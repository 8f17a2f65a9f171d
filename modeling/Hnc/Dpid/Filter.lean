import Hnc.Dpid.Parse
import Hnc.Lib.Bpf

/-!
# The kernel filter of the capture daemon

`capture/bpf.go` gives the kernel a filter in classic BPF, so that only the
packets come up that the parser may use.  The filter finds the same fields at
offsets in the frame that the parser finds in slices of it.
-/

namespace Dpid

open BigEndian Bpf

/-- The opcodes of `linux/filter.h` that the filter uses. -/
structure Opcodes where
  ld : BitVec 16 := 0x00
  ldx : BitVec 16 := 0x01
  alu : BitVec 16 := 0x04
  jmp : BitVec 16 := 0x05
  ret : BitVec 16 := 0x06
  misc : BitVec 16 := 0x07
  h : BitVec 16 := 0x08
  b : BitVec 16 := 0x10
  abs : BitVec 16 := 0x20
  ind : BitVec 16 := 0x40
  msh : BitVec 16 := 0xa0
  jeq : BitVec 16 := 0x10
  jset : BitVec 16 := 0x40
  add : BitVec 16 := 0x00
  and : BitVec 16 := 0x50
  rsh : BitVec 16 := 0x70
  k : BitVec 16 := 0x00
  x : BitVec 16 := 0x08
  tax : BitVec 16 := 0x00

def op : Opcodes := {}

/-- `prog`. -/
def prog (snaplen : BitVec 32) : List SockFilter :=
  [ -- EtherType must be IPv4.
    { code := op.ld ||| op.h ||| op.abs, k := 12 },
    { code := op.jmp ||| op.jeq ||| op.k, k := 0x0800, jt := 0, jf := 26 },
    -- Dispatch by IP protocol.
    { code := op.ld ||| op.b ||| op.abs, k := 23 },
    { code := op.jmp ||| op.jeq ||| op.k, k := 17, jt := 1, jf := 0 },
    { code := op.jmp ||| op.jeq ||| op.k, k := 6, jt := 7, jf := 23 },
    -- UDP path.
    { code := op.ld ||| op.h ||| op.abs, k := 20 },
    { code := op.jmp ||| op.jset ||| op.k, k := 0x1fff, jt := 21, jf := 0 },
    { code := op.ldx ||| op.b ||| op.msh, k := 14 },
    { code := op.ld ||| op.h ||| op.ind, k := 14 },
    { code := op.jmp ||| op.jeq ||| op.k, k := 53, jt := 17, jf := 0 },
    { code := op.ld ||| op.h ||| op.ind, k := 16 },
    { code := op.jmp ||| op.jeq ||| op.k, k := 53, jt := 15, jf := 16 },
    -- TCP path.
    { code := op.ld ||| op.h ||| op.abs, k := 20 },
    { code := op.jmp ||| op.jset ||| op.k, k := 0x1fff, jt := 14, jf := 0 },
    { code := op.ldx ||| op.b ||| op.msh, k := 14 },
    { code := op.ld ||| op.h ||| op.ind, k := 14 },
    { code := op.jmp ||| op.jeq ||| op.k, k := 53, jt := 10, jf := 0 },
    { code := op.ld ||| op.h ||| op.ind, k := 16 },
    { code := op.jmp ||| op.jeq ||| op.k, k := 53, jt := 8, jf := 0 },
    { code := op.jmp ||| op.jeq ||| op.k, k := 443, jt := 0, jf := 8 },
    -- TLS handshake check.
    { code := op.ld ||| op.b ||| op.ind, k := 26 },
    { code := op.alu ||| op.and ||| op.k, k := 0xf0 },
    { code := op.alu ||| op.rsh ||| op.k, k := 2 },
    { code := op.alu ||| op.add ||| op.x },
    { code := op.misc ||| op.tax },
    { code := op.ld ||| op.b ||| op.ind, k := 14 },
    { code := op.jmp ||| op.jeq ||| op.k, k := 0x16, jt := 0, jf := 1 },
    -- Returns.
    { code := op.ret ||| op.k, k := snaplen },
    { code := op.ret ||| op.k, k := 0 }]

/-- `BuildFilter`; `none` is its error. -/
def buildFilter (snaplen : BitVec 32) : Option (List SockFilter) :=
  let snaplen := if snaplen = 0 then 1024 else snaplen
  if (prog snaplen).length ≠ 29 then none else some (prog snaplen)

/-- The part of the filter behind the test of the TCP ports. -/
def tlsPath (snaplen : BitVec 32) : List Instr :=
  [.ldInd .byte 26,
    .alu .and (.k 0xf0),
    .alu .rsh (.k 2),
    .alu .add .x,
    .tax,
    .ldInd .byte 14,
    .jump .jeq (.k 0x16) 0 1,
    .retK snaplen,
    .retK 0]

def tcpPath (snaplen : BitVec 32) : List Instr :=
  [.ldAbs .half 20,
    .jump .jset (.k 0x1fff) 14 0,
    .ldxMsh 14,
    .ldInd .half 14,
    .jump .jeq (.k 53) 10 0,
    .ldInd .half 16,
    .jump .jeq (.k 53) 8 0,
    .jump .jeq (.k 443) 0 8] ++ tlsPath snaplen

def udpPath (snaplen : BitVec 32) : List Instr :=
  [.ldAbs .half 20,
    .jump .jset (.k 0x1fff) 21 0,
    .ldxMsh 14,
    .ldInd .half 14,
    .jump .jeq (.k 53) 17 0,
    .ldInd .half 16,
    .jump .jeq (.k 53) 15 16] ++ tcpPath snaplen

theorem prog_decode (snaplen : BitVec 32) :
    (prog snaplen).mapM SockFilter.decode = some
      ([.ldAbs .half 12,
        .jump .jeq (.k 0x0800) 0 26,
        .ldAbs .byte 23,
        .jump .jeq (.k 17) 1 0,
        .jump .jeq (.k 6) 7 23] ++ udpPath snaplen) :=
  rfl

/-- The fragment offset is the low 13 bits of its field. -/
theorem jset_fragment {value : Nat} (small : value < 65536)
    (first : value % 8192 = 0) :
    Test.jset.holds (BitVec.ofNat 32 value) 0x1fff = false := by
  have masked : BitVec.ofNat 32 value &&& 0x1fff = 0 := by
    apply BitVec.eq_of_toNat_eq
    rw [BitVec.toNat_and, BitVec.toNat_ofNat, Nat.mod_eq_of_lt (by omega)]
    exact (Nat.and_two_pow_sub_one_eq_mod value 13).trans first
  rw [Test.holds, masked]
  rfl

/-- The header length as the filter computes it from byte 12 of the header. -/
theorem tcpHL_ofNat {value : Nat} (small : value < 256) :
    (BitVec.ofNat 32 value &&& 0xf0) >>> (2 : BitVec 32).toNat =
      BitVec.ofNat 32 (value / 16 * 4) := by
  have all : ∀ v : Fin 256, (BitVec.ofNat 32 v.val &&& 0xf0) >>>
      (2 : BitVec 32).toNat = BitVec.ofNat 32 (v.val / 16 * 4) := by
    decide +kernel
  exact all ⟨value, small⟩

/-! ### The protocol paths

Both paths share the two registers and the returns at the end.  Each is an
equation, in which a load outside the frame is a field that is not there. -/

/-- Byte 14 of the frame, behind the Ethernet header, has the length of the IP
header. -/
def ipHL (frame : Bytes) : Nat :=
  uint8 frame 14 % 16 * 4

/-- The length of the IP header is at most 60 bytes. -/
theorem ipHL_le (frame : Bytes) : ipHL frame ≤ 60 := by
  rw [ipHL]
  omega

/-- A field of the frame, when all of it is inside. -/
abbrev half (frame : Bytes) (off : Nat) : Option Nat :=
  load frame off Size.half.bytes

abbrev byte (frame : Bytes) (off : Nat) : Option Nat :=
  load frame off Size.byte.bytes

/-- The frame holds the start of an IP datagram. -/
def FirstFragment (frame : Bytes) : Prop :=
  (half frame 20).map (· % 8192) = some 0

/-- A port is 53; UDP and TCP have them at the same place. -/
def DNSPort (frame : Bytes) : Prop :=
  half frame (14 + ipHL frame) = some 53 ∨
    half frame (14 + ipHL frame + 2) = some 53

/-- The length of the TCP header, from its byte 12. -/
def tcpHL (frame : Bytes) : Option Nat :=
  (byte frame (14 + ipHL frame + 12)).map (· / 16 * 4)

/-- The first payload byte of a segment to port 443 is the one of a TLS
handshake. -/
def HandshakeStart (frame : Bytes) : Prop :=
  half frame (14 + ipHL frame + 2) = some 443 ∧
    (tcpHL frame).bind (fun length => byte frame (14 + ipHL frame + length)) =
      some 0x16

instance (frame : Bytes) : Decidable (FirstFragment frame) :=
  inferInstanceAs (Decidable (_ = _))

instance (frame : Bytes) : Decidable (DNSPort frame) :=
  inferInstanceAs (Decidable (_ ∨ _))

instance (frame : Bytes) : Decidable (HandshakeStart frame) :=
  inferInstanceAs (Decidable (_ ∧ _))

variable {value : Nat}

theorem half_lt {frame : Bytes} {off : Nat} (found : half frame off = some value) :
    value < 65536 := by
  unfold half load at found
  split at found
  · cases found
    exact uint16_lt frame off
  · cases found

theorem byte_lt {frame : Bytes} {off : Nat} (found : byte frame off = some value) :
    value < 256 := by
  unfold byte load at found
  split at found
  · cases found
    exact uint8_lt frame off
  · cases found

theorem jset_later_fragment (small : value < 65536) (later : value % 8192 ≠ 0) :
    Test.jset.holds (BitVec.ofNat 32 value) 0x1fff = true := by
  rw [Test.holds, decide_eq_true_iff]
  intro masked
  apply later
  have bits := congrArg BitVec.toNat masked
  rw [BitVec.toNat_and, BitVec.toNat_ofNat, Nat.mod_eq_of_lt (by omega)] at bits
  exact (Nat.and_two_pow_sub_one_eq_mod value 13).symm.trans bits

section

variable {frame : Bytes} {snaplen : BitVec 32}

/-- A comparison of the accumulator with a constant. -/
theorem exec_jeq {k : BitVec 32} {jt jf : Nat} (constant : Nat)
    (here : k.toNat = constant) (small : value < 65536) (rest : List Instr)
    (x : BitVec 32) :
    exec frame (.jump .jeq (.k k) jt jf :: rest) 0 (BitVec.ofNat 32 value) x =
      if value = constant then
        exec frame (rest.drop jt) 0 (BitVec.ofNat 32 value) x
      else exec frame (rest.drop jf) 0 (BitVec.ofNat 32 value) x := by
  subst here
  by_cases same : value = k.toNat
  · rw [if_pos same, exec_jump (jeq_ofNat same)]
  · have fails : Test.jeq.holds (BitVec.ofNat 32 value)
        (Source.value x (.k k)) = false :=
      jeq_ofNat_false (Nat.lt_trans small (by decide)) same
    rw [if_neg same, exec_no_jump fails]

/-- The start of both paths: a later fragment is dropped, and the index
register gets the length of the IP header. -/
theorem exec_fragment (jt : Nat) {result : BitVec 32} (rest : List Instr)
    (drops : ∀ a x, exec frame (rest.drop jt) 0 a x = 0)
    (header : byte frame 14 = some (uint8 frame 14))
    (first : ∀ a,
      exec frame rest 0 a (BitVec.ofNat 32 (ipHL frame)) = result)
    (a x : BitVec 32) :
    exec frame (.ldAbs .half 20 :: .jump .jset (.k 0x1fff) (jt + 1) 0 ::
        .ldxMsh 14 :: rest) 0 a x =
      if FirstFragment frame then result else 0 := by
  cases field : half frame 20 with
  | none =>
      have missing : ¬ FirstFragment frame := by
        simp [FirstFragment, field]
      rw [if_neg missing, exec_ldAbs_none field]
  | some value =>
      have small := half_lt field
      rw [exec_ldAbs field rfl]
      by_cases zero : value % 8192 = 0
      · have present : FirstFragment frame := by
          simp [FirstFragment, field, zero]
        rw [if_pos present, exec_no_jump (jset_fragment small zero),
          List.drop_zero, exec_ldxMsh header rfl]
        exact first _
      · have missing : ¬ FirstFragment frame := by
          simp [FirstFragment, field, zero]
        rw [if_neg missing, exec_jump (jset_later_fragment small zero)]
        exact drops _ _

/-- The tests of the two ports, from which both jumps lead to one place. -/
theorem exec_ports (jt jf : Nat) {result : BitVec 32} (rest : List Instr)
    (accepts : ∀ a x, exec frame (rest.drop jt) 0 a x = snaplen)
    (outside : half frame (14 + ipHL frame + 2) = none → result = 0)
    (others : ∀ port, half frame (14 + ipHL frame + 2) = some port →
      exec frame (rest.drop jf) 0 (BitVec.ofNat 32 port)
        (BitVec.ofNat 32 (ipHL frame)) = result) (a : BitVec 32) :
    exec frame (.ldInd .half 14 :: .jump .jeq (.k 53) (jt + 2) 0 ::
        .ldInd .half 16 :: .jump .jeq (.k 53) jt jf :: rest) 0 a
        (BitVec.ofNat 32 (ipHL frame)) =
      if DNSPort frame then snaplen else result := by
  have short := ipHL_le frame
  cases source : half frame (14 + ipHL frame) with
  | none =>
      have missing : half frame (14 + ipHL frame + 2) = none := by
        unfold half load at source ⊢
        rw [if_neg]
        split at source
        · cases source
        · omega
      have other : ¬ DNSPort frame := by
        simp [DNSPort, source, missing]
      rw [if_neg other, outside missing,
        exec_ldInd_none source (Nat.add_comm _ _) (by omega)]
  | some port =>
      rw [exec_ldInd source (Nat.add_comm _ _) (by omega),
        exec_jeq 53 rfl (half_lt source)]
      by_cases fromDNS : port = 53
      · have dns : DNSPort frame := .inl (fromDNS ▸ source)
        rw [if_pos fromDNS, if_pos dns]
        exact accepts _ _
      · have offset16 : (16 : BitVec 32).toNat = 16 := rfl
        have place : ipHL frame + (16 : BitVec 32).toNat =
            14 + ipHL frame + 2 := by
          omega
        rw [if_neg fromDNS, List.drop_zero]
        cases target : half frame (14 + ipHL frame + 2) with
        | none =>
            have other : ¬ DNSPort frame := by
              simp [DNSPort, source, target, fromDNS]
            rw [if_neg other, outside target,
              exec_ldInd_none target place (by omega)]
        | some port' =>
            rw [exec_ldInd target place (by omega),
              exec_jeq 53 rfl (half_lt target)]
            by_cases toDNS : port' = 53
            · have dns : DNSPort frame := .inr (toDNS ▸ target)
              rw [if_pos toDNS, if_pos dns]
              exact accepts _ _
            · have other : ¬ DNSPort frame := by
                simp [DNSPort, source, target, fromDNS, toDNS]
              rw [if_neg toDNS, if_neg other]
              exact others port' target

theorem exec_udpPath (header : byte frame 14 = some (uint8 frame 14))
    (a x : BitVec 32) :
    exec frame (udpPath snaplen) 0 a x =
      if FirstFragment frame then if DNSPort frame then snaplen else 0
      else 0 := by
  apply exec_fragment 20 _ (fun a x => rfl) header
  intro a
  exact exec_ports 15 16 _ (fun a x => rfl) (fun _ => rfl)
    (fun port _ => rfl) a

theorem exec_tlsPath (a : BitVec 32) :
    exec frame (tlsPath snaplen) 0 a (BitVec.ofNat 32 (ipHL frame)) =
      if (tcpHL frame).bind
          (fun length => byte frame (14 + ipHL frame + length)) = some 0x16
      then snaplen else 0 := by
  have short := ipHL_le frame
  have offset26 : (26 : BitVec 32).toNat = 26 := rfl
  have offset14 : (14 : BitVec 32).toNat = 14 := rfl
  rw [tlsPath]
  cases offset : byte frame (14 + ipHL frame + 12) with
  | none =>
      rw [exec_ldInd_none offset (by omega) (by omega)]
      simp [tcpHL, offset]
  | some value =>
      have length : tcpHL frame = some (value / 16 * 4) := by
        rw [tcpHL, offset, Option.map_some]
      have small := byte_lt offset
      have sum : BitVec.ofNat 32 (value / 16 * 4) +
          BitVec.ofNat 32 (ipHL frame) =
            BitVec.ofNat 32 (ipHL frame + value / 16 * 4) := by
        rw [Nat.add_comm, BitVec.ofNat_add]
      rw [exec_ldInd offset (by omega) (by omega), exec_next rfl,
        List.drop_zero, exec_next rfl, List.drop_zero, exec_next rfl,
        List.drop_zero, exec_next rfl, List.drop_zero, length,
        Option.bind_some]
      simp only [Source.value]
      rw [tcpHL_ofNat small, sum]
      cases payload : byte frame (14 + ipHL frame + value / 16 * 4) with
      | none =>
          rw [exec_ldInd_none payload (by omega) (by omega)]
          simp
      | some first =>
          rw [exec_ldInd payload (by omega) (by omega),
            exec_jeq 0x16 rfl (Nat.lt_trans (byte_lt payload) (by decide))]
          simp only [Option.some.injEq]
          rfl

theorem exec_tcpPath (header : byte frame 14 = some (uint8 frame 14))
    (a x : BitVec 32) :
    exec frame (tcpPath snaplen) 0 a x =
      if FirstFragment frame then
        if DNSPort frame then snaplen
        else if HandshakeStart frame then snaplen else 0
      else 0 := by
  apply exec_fragment 13 _ (fun a x => rfl) header
  intro a
  apply exec_ports 8 0
    (.jump .jeq (.k 443) 0 8 :: tlsPath snaplen) (fun a x => rfl)
  · intro outside
    simp [HandshakeStart, outside]
  · intro port target
    rw [List.drop_zero, exec_jeq 443 rfl (half_lt target)]
    by_cases toTLS : port = 443
    · rw [List.drop_zero, exec_tlsPath]
      simp [HandshakeStart, target, toTLS]
    · rw [if_neg toTLS, if_neg]
      · rfl
      · simp [HandshakeStart, target, toTLS]

/-- The dispatch over the protocol. -/
theorem firstFragment_of (fragment : uint16 frame 20 % 8192 = 0)
    (inside : 22 ≤ frame.length) : FirstFragment frame := by
  rw [FirstFragment, half, load_uint16 inside, Option.map_some, fragment]

theorem dnsPort_iff (inside : 14 + ipHL frame + 4 ≤ frame.length) :
    DNSPort frame ↔ uint16 frame (ipHL frame + 14) = 53 ∨
      uint16 frame (ipHL frame + 16) = 53 := by
  have source : 14 + ipHL frame = ipHL frame + 14 := Nat.add_comm ..
  rw [DNSPort, half, half, source, load_uint16 (by omega),
    load_uint16 (by omega), Option.some.injEq, Option.some.injEq]

/-- A first fragment with a port 53 inside the frame. -/
theorem exec_udp (fragment : uint16 frame 20 % 8192 = 0)
    (inside : 14 + ipHL frame + 4 ≤ frame.length) (header : 20 ≤ ipHL frame)
    (port : uint16 frame (ipHL frame + 14) = 53 ∨
      uint16 frame (ipHL frame + 16) = 53) (a x : BitVec 32) :
    exec frame (udpPath snaplen) 0 a x = snaplen := by
  rw [exec_udpPath (load_uint8 (by omega)),
    if_pos (firstFragment_of fragment (by omega)),
    if_pos ((dnsPort_iff inside).mpr port)]

/-- The filter accepts a first payload byte of a TLS handshake. -/
theorem exec_tls {tcpHL : Nat}
    (length : uint8 frame (ipHL frame + 26) / 16 * 4 = tcpHL)
    (inside : ipHL frame + tcpHL + 14 < frame.length) (header : 20 ≤ tcpHL)
    (handshake : uint8 frame (ipHL frame + tcpHL + 14) = 0x16)
    (a : BitVec 32) :
    exec frame (tlsPath snaplen) 0 a (BitVec.ofNat 32 (ipHL frame)) =
      snaplen := by
  have offset : 14 + ipHL frame + 12 = ipHL frame + 26 := by
    omega
  have payload : 14 + ipHL frame + tcpHL = ipHL frame + tcpHL + 14 := by
    omega
  have found : Dpid.tcpHL frame = some tcpHL := by
    rw [Dpid.tcpHL, byte, offset, load_uint8 (by omega), Option.map_some, length]
  rw [exec_tlsPath, found, Option.bind_some, byte, payload,
    load_uint8 (by omega), handshake, if_pos rfl]

/-- The filter accepts a segment from or to port 53, and one to port 443 that
starts with a TLS handshake. -/
theorem exec_tcp (fragment : uint16 frame 20 % 8192 = 0)
    (inside : 14 + ipHL frame + 4 ≤ frame.length) (header : 20 ≤ ipHL frame)
    (port : (uint16 frame (ipHL frame + 14) = 53 ∨
        uint16 frame (ipHL frame + 16) = 53) ∨
      uint16 frame (ipHL frame + 16) = 443 ∧
        ∀ a, exec frame (tlsPath snaplen) 0 a
          (BitVec.ofNat 32 (ipHL frame)) = snaplen) (a x : BitVec 32) :
    exec frame (tcpPath snaplen) 0 a x = snaplen := by
  rw [exec_tcpPath (load_uint8 (by omega)),
    if_pos (firstFragment_of fragment (by omega))]
  rcases port with dns | ⟨toTLS, handshake⟩
  · rw [if_pos ((dnsPort_iff inside).mpr dns)]
  · have target : half frame (14 + ipHL frame + 2) = some 443 := by
      rw [half, show 14 + ipHL frame + 2 = ipHL frame + 16 by omega,
        load_uint16 (by omega), toTLS]
    have accepted := handshake 0
    rw [exec_tlsPath] at accepted
    simp only [HandshakeStart, target, true_and, accepted, ite_self]

end

end Dpid

/-!
## The filter lets through what the parser can use

The parser walks through slices, the filter through offsets.  A number in a
slice is one in the frame, and the length checks that the parser has passed put
every load of the filter inside the frame.
-/

namespace Dpid

open BigEndian Bpf

theorem length_slice (b : Bytes) {lo hi : Nat} (inside : hi ≤ b.length) :
    (slice b lo hi).length = hi - lo := by
  rw [slice, List.length_drop, List.length_take, Nat.min_eq_left inside]

theorem window_slice {b : Bytes} {lo hi off size : Nat}
    (inside : lo + off + size ≤ hi) :
    window (slice b lo hi) off size = window b (lo + off) size := by
  rw [slice, window_drop, window_take inside]

/-- The payload that the parser cuts out of a frame. -/
structure Cut (frame payload : Bytes) : Prop where
  header : 20 ≤ ipHL frame
  inside : 14 + ipHL frame + payload.length ≤ frame.length
  uint8 : ∀ off, off + 1 ≤ payload.length →
    uint8 payload off = uint8 frame (ipHL frame + 14 + off)
  uint16 : ∀ off, off + 2 ≤ payload.length →
    uint16 payload off = uint16 frame (ipHL frame + 14 + off)

variable {frame : Bytes}

theorem cut_slice {totalLen : Nat} (header : 20 ≤ ipHL frame)
    (order : ipHL frame ≤ totalLen) (inside : 14 + totalLen ≤ frame.length) :
    Cut frame (slice (frame.drop 14) (ipHL frame) totalLen) := by
  have length : (slice (frame.drop 14) (ipHL frame) totalLen).length =
      totalLen - ipHL frame := by
    apply length_slice
    rw [List.length_drop]
    omega
  have window : ∀ off size,
      off + size ≤ (slice (frame.drop 14) (ipHL frame) totalLen).length →
      window (slice (frame.drop 14) (ipHL frame) totalLen) off size =
        window frame (ipHL frame + 14 + off) size := by
    intro off size bound
    rw [window_slice (by omega), window_drop]
    congr 1
    omega
  refine ⟨header, by omega, fun off bound => ?_, fun off bound => ?_⟩
  · exact congrArg value (window off 1 bound)
  · exact congrArg value (window off 2 bound)

section

variable {toLower : Bytes → Bytes}

variable {event : Event}

/-- What the headers of a packet are that the parser can use. -/
theorem parsePacket_ok {ts : Int}
    (parsed : parsePacket toLower frame ts = (event, .ok)) :
    34 ≤ frame.length ∧ uint16 frame 12 = etherTypeIPv4 ∧
      ∃ ev payload, Cut frame payload ∧
        (uint8 frame 23 = ipProtoUDP ∧
            parseUDP toLower ev payload = (event, .ok) ∨
          uint8 frame 23 = ipProtoTCP ∧
            parseTCP toLower ev payload = (event, .ok)) := by
  rw [parsePacket] at parsed
  split at parsed
  · cases parsed
  split at parsed
  · cases parsed
  rename_i etherType
  simp only [List.length_drop] at parsed
  split at parsed
  · cases parsed
  split at parsed
  · cases parsed
  have first : uint8 (frame.drop 14) 0 = uint8 frame 14 :=
    congrArg value (window_drop frame 14 0 1)
  have proto : uint8 (frame.drop 14) 9 = uint8 frame 23 :=
    congrArg value (window_drop frame 14 9 1)
  simp only [proto] at parsed
  split at parsed
  · cases parsed
  generalize total : (if uint16 (frame.drop 14) 2 = 0 ∨
    frame.length - 14 < uint16 (frame.drop 14) 2 then frame.length - 14
    else uint16 (frame.drop 14) 2) = totalLen at parsed
  have bound : totalLen ≤ frame.length - 14 := by
    rw [← total]
    split <;> omega
  split at parsed
  · cases parsed
  have cut : Cut frame (slice (frame.drop 14) (ipHL frame) totalLen) := by
    apply cut_slice
    · rw [ipHL]
      omega
    · rw [ipHL]
      omega
    · omega
  refine ⟨by omega, not_not.mp etherType, ?_⟩
  split at parsed
  · rename_i udp
    exact ⟨_, _, cut, .inl ⟨udp, parsed⟩⟩
  · split at parsed
    · rename_i tcp
      exact ⟨_, _, cut, .inr ⟨tcp, parsed⟩⟩
    · cases parsed

theorem parseUDP_ok {ev : Event} {payload : Bytes}
    (parsed : parseUDP toLower ev payload = (event, .ok)) :
    8 ≤ payload.length ∧
      (uint16 payload 0 = 53 ∨ uint16 payload 2 = 53) := by
  unfold parseUDP at parsed
  dsimp only at parsed
  split at parsed
  · cases parsed
  · split at parsed
    · cases parsed
    · exact ⟨by omega, by omega⟩

theorem parseTLSClientHello_some {b : Bytes} {tls : TLSInfo}
    (parsed : parseTLSClientHello toLower b = some tls) :
    5 ≤ b.length ∧ uint8 b 0 = 0x16 := by
  rw [parseTLSClientHello] at parsed
  split at parsed
  · cases parsed
  · omega

theorem parseTCP_ok {ev : Event} {payload : Bytes}
    (parsed : parseTCP toLower ev payload = (event, .ok)) :
    20 ≤ payload.length ∧
      ((uint16 payload 0 = 53 ∨ uint16 payload 2 = 53) ∨
        event.kind = .tlsClientHello ∧ event.dstPort = uint16 payload 2 ∧
        20 ≤ uint8 payload 12 / 16 * 4 ∧
        uint8 payload 12 / 16 * 4 + 5 ≤ payload.length ∧
        uint8 payload (uint8 payload 12 / 16 * 4) = 0x16) := by
  unfold parseTCP at parsed
  dsimp only at parsed
  split at parsed
  · cases parsed
  split at parsed
  · cases parsed
  refine ⟨by omega, ?_⟩
  split at parsed
  · rename_i ports
    exact .inl ports.symm
  split at parsed
  · split at parsed
    · rename_i tls found
      obtain ⟨enough, handshake⟩ := parseTLSClientHello_some found
      cases parsed
      rw [List.length_drop] at enough
      refine .inr ⟨rfl, rfl, by omega, by omega, ?_⟩
      rw [← handshake]
      exact (congrArg value (window_drop payload _ 0 1)).symm
    · cases parsed
  · cases parsed

end

theorem accepts_of_exec {snaplen : BitVec 32}
    (returns : ∀ len : BitVec 32, exec frame ([.ldAbs .half 12, .jump .jeq (.k 0x0800) 0 26, .ldAbs .byte 23, .jump .jeq (.k 17) 1 0, .jump .jeq (.k 6) 7 23] ++ udpPath len) 0 0 0 = len) :
    ∃ filter, buildFilter snaplen = some filter ∧ Accepts filter frame := by
  refine ⟨prog (if snaplen = 0 then 1024 else snaplen), rfl,
    if snaplen = 0 then 1024 else snaplen, ?_, ?_⟩
  · rw [run, prog_decode, Option.map_some, returns]
  · split
    · decide
    · assumption

/-- The filter accepts every first fragment that the parser makes a DNS event
of, or a TLS event to port 443. -/
theorem filter_accepts_usable (toLower : Bytes → Bytes) (frame : Bytes)
    (ts : Int) (event : Event) (snaplen : BitVec 32)
    (parsed : parsePacket toLower frame ts = (event, .ok))
    (fragment : uint16 frame 20 % 8192 = 0)
    (usable : event.kind = .dns ∨
      event.kind = .tlsClientHello ∧ event.dstPort = 443) :
    ∃ filter, buildFilter snaplen = some filter ∧ Accepts filter frame := by
  obtain ⟨length, etherType, ev, payload, cut, proto⟩ := parsePacket_ok parsed
  apply accepts_of_exec
  intro len
  have kind : load frame 12 Size.half.bytes = some (uint16 frame 12) :=
    load_uint16 (by omega)
  have protocol : load frame 23 Size.byte.bytes = some (uint8 frame 23) :=
    load_uint8 (by omega)
  have inside := cut.inside
  simp only [List.cons_append, List.nil_append]
  rw [exec_ldAbs kind (by rfl), exec_jump (jeq_ofNat etherType),
    List.drop_zero, exec_ldAbs protocol (by rfl)]
  rcases proto with ⟨udp, result⟩ | ⟨tcp, result⟩
  · obtain ⟨enough, ports⟩ := parseUDP_ok result
    rw [cut.uint16 0 (by omega), cut.uint16 2 (by omega)] at ports
    rw [exec_jump (jeq_ofNat udp)]
    exact exec_udp fragment (by omega) cut.header ports _ _
  · obtain ⟨enough, content⟩ := parseTCP_ok result
    rw [cut.uint16 0 (by omega), cut.uint16 2 (by omega)] at content
    have notUDP : uint8 frame 23 ≠ (17 : BitVec 32).toNat := by
      rw [tcp]
      decide
    have small := uint8_lt frame 23
    rw [exec_no_jump (jeq_ofNat_false (by omega) notUDP), List.drop_zero,
      exec_jump (jeq_ofNat tcp)]
    apply exec_tcp fragment (by omega) cut.header
    rcases content with dns | ⟨isTLS, port, header, bytes, handshake⟩
    · exact .inl dns
    · have offset : uint8 payload 12 = uint8 frame (ipHL frame + 26) :=
        cut.uint8 12 (by omega)
      rw [offset] at header bytes handshake
      rw [cut.uint8 _ (by omega)] at handshake
      refine .inr ⟨?_, fun a => exec_tls rfl (by omega) header ?_ a⟩
      · rcases usable with isDNS | ⟨_, toTLS⟩
        · rw [isTLS] at isDNS
          cases isDNS
        · exact port.symm.trans toTLS
      · rw [← handshake]
        congr 1
        omega

def asciiLower (b : Bytes) : Bytes :=
  b.map fun c => if 65 ≤ c ∧ c ≤ 90 then c + 32 else c

/-- A query for `A`. -/
def queryFrame : Bytes :=
  [2, 0, 0, 0, 0, 1, 2, 0, 0, 0, 0, 2, 8, 0,
    0x45, 0, 0, 47, 0, 0, 0, 0, 64, 17, 0, 0, 192, 168, 43, 5, 192, 168, 43, 1,
    0x30, 0x39, 0, 53, 0, 27, 0, 0,
    0, 1, 1, 0, 0, 1, 0, 0, 0, 0, 0, 0,
    1, 65, 0, 0, 1, 0, 1]

theorem query_is_accepted :
    ∃ filter, buildFilter 0 = some filter ∧ Accepts filter queryFrame := by
  apply filter_accepts_usable asciiLower queryFrame 0
    (parsePacket asciiLower queryFrame 0).1 0
  · have ok : (parsePacket asciiLower queryFrame 0).2 = .ok := by
      decide +kernel
    rw [← ok]
  · decide +kernel
  · exact .inl (by decide +kernel)

end Dpid
