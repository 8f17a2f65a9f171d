import Hnc.Dpid.Filter

/-!
# What the kernel filter lets through

With the equations of its two protocol paths, the filter lets through exactly
the packets that it is for.
-/

namespace Dpid

open BigEndian Bpf

/-- The packets that the filter is for. -/
def Wanted (frame : Bytes) : Prop :=
  half frame 12 = some etherTypeIPv4 ∧ FirstFragment frame ∧
    (byte frame 23 = some ipProtoUDP ∧ DNSPort frame ∨
      byte frame 23 = some ipProtoTCP ∧
        (DNSPort frame ∨ HandshakeStart frame))

instance (frame : Bytes) : Decidable (Wanted frame) :=
  inferInstanceAs (Decidable (_ ∧ _))

section

variable {frame : Bytes} {snaplen : BitVec 32}

theorem exec_dispatch (a x : BitVec 32) :
    exec frame ([.ldAbs .half 12, .jump .jeq (.k 0x0800) 0 26, .ldAbs .byte 23,
        .jump .jeq (.k 17) 1 0, .jump .jeq (.k 6) 7 23] ++ udpPath snaplen)
        0 a x =
      if Wanted frame then snaplen else 0 := by
  simp only [List.cons_append]
  cases etherType : half frame 12 with
  | none =>
      rw [exec_ldAbs_none etherType]
      simp [Wanted, etherType]
  | some value =>
      rw [exec_ldAbs etherType rfl,
        exec_jeq etherTypeIPv4 rfl (half_lt etherType)]
      by_cases ipv4 : value = etherTypeIPv4
      · rw [if_pos ipv4, List.drop_zero]
        cases proto : byte frame 23 with
        | none =>
            rw [exec_ldAbs_none proto]
            simp [Wanted, proto]
        | some number =>
            have header : byte frame 14 = some (uint8 frame 14) := by
              unfold byte load at proto
              split at proto
              · exact load_uint8 (by omega)
              · cases proto
            have small := Nat.lt_trans (byte_lt proto)
              (by decide : 256 < 65536)
            rw [exec_ldAbs proto rfl, exec_jeq ipProtoUDP rfl small]
            by_cases udp : number = ipProtoUDP
            · rw [if_pos udp]
              exact (exec_udpPath header _ _).trans (by
                simp [Wanted, etherType, ipv4, proto, udp, ipProtoUDP,
                  ipProtoTCP, ite_and])
            · rw [if_neg udp, List.drop_zero, exec_jeq ipProtoTCP rfl small]
              by_cases tcp : number = ipProtoTCP
              · rw [if_pos tcp]
                exact (exec_tcpPath header _ _).trans (by
                  simp [Wanted, etherType, ipv4, proto, tcp, ipProtoUDP,
                    ipProtoTCP, ite_and, ite_or])
              · rw [if_neg tcp, if_neg]
                · rfl
                · simp [Wanted, proto, udp, tcp]
      · rw [if_neg ipv4, if_neg]
        · rfl
        · simp [Wanted, etherType, ipv4]

/-- The filter of every snapshot length is loaded, and every run ends at a
return or a failing load: with the length for the packets that are wanted and
with 0 for all others. -/
theorem buildFilter_run (frame : Bytes) (snaplen : BitVec 32) :
    ∃ filter, buildFilter snaplen = some filter ∧ filter.length = 29 ∧
      runWithin filter frame =
        some (if Wanted frame then if snaplen = 0 then 1024 else snaplen
          else 0) := by
  refine ⟨prog (if snaplen = 0 then 1024 else snaplen), rfl, rfl, ?_⟩
  rw [runWithin, prog_decode, Option.bind_some, execWithin_closed]
  · rw [exec_dispatch]
  · rfl
  · exact Nat.succ_pos _

end

end Dpid
