import Hnc.Dpid.DnsAnswers
import Hnc.Lib.CheckedSlices

/-!
# The packet parser stays inside its input

The parser is written down a second time with the bounds of each index and each
slice checked, in the order of the source.  No check ever fails, and what comes
out is what the model of the parser computes.
-/

namespace Dpid

namespace Checking

open CheckedSlices

/-- `binary.BigEndian.Uint16(b[lo:hi])`. -/
def uint16 (b : Bytes) (lo hi : Nat) : Checked Nat :=
  CheckedSlices.slice b lo hi >>= bigEndianUint16

def uint32 (b : Bytes) (lo hi : Nat) : Checked Nat :=
  CheckedSlices.slice b lo hi >>= bigEndianUint32

/-- The four bytes of `net.IPv4`. -/
def ipv4 (b : Bytes) (off : Nat) : Checked Bytes := do
  let b0 ← index b off
  let b1 ← index b (off + 1)
  let b2 ← index b (off + 2)
  let b3 ← index b (off + 3)
  pure [b0, b1, b2, b3]

def dnsNameLoop (b : Bytes) :
    (iterations jumps off : Nat) → (nextOff : Option Nat) → (name : Bytes) →
      Checked (Option (Bytes × Nat))
  | 0, _, _, _, _ => pure none
  | iterations + 1, jumps, off, nextOff, name =>
      if b.length ≤ off then pure none
      else do
        let l ← index b off
        let l := l.toNat
        if l = 0 then pure (some (name, nextOff.getD (off + 1)))
        else if 0xc0 ≤ l then
          if b.length ≤ off + 1 then pure none
          else do
            let field ← uint16 b off (off + 2)
            let ptr := field % 0x4000
            if b.length ≤ ptr ∨ ptr = off then pure none
            else
              match jumps with
              | 0 => pure none
              | jumps + 1 =>
                  dnsNameLoop b iterations jumps ptr
                    (some (nextOff.getD (off + 2))) name
        else if 63 < l then pure none
        else if b.length < off + 1 + l then pure none
        else do
          let label ← CheckedSlices.slice b (off + 1) (off + 1 + l)
          let dotted := if name = [] then label else name ++ 46 :: label
          dnsNameLoop b iterations jumps (off + 1 + l) nextOff dotted

def dnsReadName (b : Bytes) (off : Nat) : Checked (Option (Bytes × Nat)) :=
  dnsNameLoop b 256 8 off none []

section

variable (toLower : Bytes → Bytes)

def dnsAnswer (b : Bytes) (atype rdlen rdataStart : Nat) :
    Checked (List Answer) :=
  match atype with
  | 1 =>
      if rdlen = 4 then do
        let ip ← ipv4 b rdataStart
        pure [.a ip]
      else pure []
  | 28 =>
      if rdlen = 16 then do
        let ip ← CheckedSlices.slice b rdataStart (rdataStart + 16)
        pure [.aaaa ip]
      else pure []
  | 5 => do
      match ← dnsReadName b rdataStart with
      | some (name, _) => pure [.cname (toLower name)]
      | none => pure []
  | _ => pure []

def dnsAnswers (b : Bytes) :
    (left p : Nat) → (answers : List Answer) → (minTTL : Nat) →
      Checked (List Answer × Nat)
  | 0, _, answers, minTTL => pure (answers, minTTL)
  | left + 1, p, answers, minTTL => do
      match ← dnsReadName b p with
      | none => pure (answers, minTTL)
      | some (_, p) =>
          if b.length < p + 10 then pure (answers, minTTL)
          else do
            let atype ← uint16 b p (p + 2)
            let ttl ← uint32 b (p + 4) (p + 8)
            let rdlen ← uint16 b (p + 8) (p + 10)
            if b.length < p + 10 + rdlen then pure (answers, minTTL)
            else do
              let answer ← dnsAnswer toLower b atype rdlen (p + 10)
              dnsAnswers b left (p + 10 + rdlen) (answers ++ answer)
                (if minTTL = 0 ∨ ttl < minTTL then ttl else minTTL)

def parseDNS (b : Bytes) : Checked (Option DNSInfo) :=
  if b.length < 12 then pure none
  else do
    let flags ← uint16 b 2 4
    let qdcount ← uint16 b 4 6
    let ancount ← uint16 b 6 8
    if qdcount ≠ 1 then pure none
    else do
      match ← dnsReadName b 12 with
      | none => pure none
      | some (qname, p) =>
          if b.length < p + 4 then pure none
          else do
            let qtype ← uint16 b p (p + 2)
            let out : DNSInfo :=
              { isResponse := 0x8000 ≤ flags
                qName := toLower qname
                qType := qtype }
            if !out.isResponse then pure (some out)
            else do
              let found ← dnsAnswers toLower b ancount (p + 4) [] 0
              pure (some { out with answers := found.1, ttl := found.2 })

/-- The loop over the protocols gets shorter by each of them. -/
def alpnList (list : Bytes) : Checked (List Bytes) :=
  if 1 ≤ list.length then do
    let n ← index list 0
    if list.length < 1 + n.toNat then pure []
    else do
      let protocol ← CheckedSlices.slice list 1 (1 + n.toNat)
      let rest ← restFrom list (1 + n.toNat)
      let protocols ← alpnList rest.val
      pure (protocol :: protocols)
  else pure []
termination_by list.length
decreasing_by
  have := rest.property
  omega

def tlsExtension (etype : Nat) (data : Bytes) (found : TLSInfo) :
    Checked TLSInfo :=
  if etype = 0x0000 then
    if data.length < 5 then pure found
    else do
      let data ← sliceFrom data 2
      let nameType ← index data 0
      if nameType.toNat ≠ 0 then pure found
      else do
        let nameLen ← uint16 data 1 3
        if data.length < 3 + nameLen then pure found
        else do
          let name ← CheckedSlices.slice data 3 (3 + nameLen)
          pure { found with sni := toLower name }
  else if etype = 0x0010 then
    if data.length < 2 then pure found
    else do
      let list ← sliceFrom data 2
      let protocols ← alpnList list
      pure { found with alpn := found.alpn ++ protocols }
  else pure found

def tlsExtensions (ext : Bytes) (found : TLSInfo) : Checked TLSInfo :=
  if 4 ≤ ext.length then do
    let etype ← uint16 ext 0 2
    let elen ← uint16 ext 2 4
    let rest ← restFrom ext 4
    if rest.val.length < elen then pure found
    else do
      let data ← sliceTo rest.val elen
      let behind ← restFrom rest.val elen
      let found ← tlsExtension toLower etype data found
      tlsExtensions behind.val found
  else pure found
termination_by ext.length
decreasing_by
  have := rest.property
  have := behind.property
  omega

def tlsBody (body : Bytes) : Checked (Option TLSInfo) :=
  if body.length < 2 + 32 + 1 then pure none
  else do
    let sidLen ← index body 34
    let sidLen := sidLen.toNat
    if body.length < 35 + sidLen + 2 then pure none
    else do
      let p := 35 + sidLen
      let csLen ← uint16 body p (p + 2)
      let p := p + 2 + csLen
      if body.length < p + 1 then pure none
      else do
        let cmLen ← index body p
        let p := p + 1 + cmLen.toNat
        if body.length < p + 2 then pure none
        else do
          let extLen ← uint16 body p (p + 2)
          let p := p + 2
          if body.length < p + extLen then pure none
          else do
            let ext ← CheckedSlices.slice body p (p + extLen)
            let found ← tlsExtensions toLower ext {}
            if found.sni = [] ∧ found.alpn = [] then pure none
            else pure (some found)

def parseTLSClientHello (b : Bytes) : Checked (Option TLSInfo) :=
  if b.length < 5 then pure none
  else do
    let type ← index b 0
    if type.toNat ≠ 0x16 then pure none
    else do
      let recLen ← uint16 b 3 5
      if recLen < 4 ∨ b.length < 5 + recLen then pure none
      else do
        let hs ← CheckedSlices.slice b 5 (5 + recLen)
        if hs.length < 4 then pure none
        else do
          let message ← index hs 0
          if message.toNat ≠ 0x01 then pure none
          else do
            let high ← index hs 1
            let middle ← index hs 2
            let low ← index hs 3
            let bodyLen :=
              high.toNat * 65536 + middle.toNat * 256 + low.toNat
            if hs.length < 4 + bodyLen then pure none
            else do
              let body ← CheckedSlices.slice hs 4 (4 + bodyLen)
              tlsBody toLower body

def parseUDP (ev : Event) (payload : Bytes) : Checked (Event × ParseResult) :=
  if payload.length < 8 then pure (ev, .malformed)
  else do
    let srcPort ← uint16 payload 0 2
    let dstPort ← uint16 payload 2 4
    let ev := { ev with isUDP := true, srcPort := srcPort, dstPort := dstPort }
    if ev.srcPort ≠ 53 ∧ ev.dstPort ≠ 53 then pure (ev, .ignore)
    else do
      let dnsPayload ← sliceFrom payload 8
      match ← parseDNS toLower dnsPayload with
      | some d => pure (dnsEvent ev d, .ok)
      | none => pure (ev, .malformed)

def parseTCP (ev : Event) (payload : Bytes) : Checked (Event × ParseResult) :=
  if payload.length < 20 then pure (ev, .malformed)
  else do
    let srcPort ← uint16 payload 0 2
    let dstPort ← uint16 payload 2 4
    let ev := { ev with srcPort := srcPort, dstPort := dstPort }
    let offset ← index payload 12
    let tcpHL := offset.toNat / 16 * 4
    if tcpHL < 20 ∨ payload.length < tcpHL then pure (ev, .malformed)
    else do
      let tcpData ← sliceFrom payload tcpHL
      if ev.dstPort = 53 ∨ ev.srcPort = 53 then
        if 2 < tcpData.length then do
          let message ← sliceFrom tcpData 2
          match ← parseDNS toLower message with
          | some d => pure (dnsEvent ev d, .ok)
          | none => pure (ev, .malformed)
        else pure (ev, .malformed)
      else if ev.dstPort = 443 ∨ ev.srcPort = 443 then do
        match ← parseTLSClientHello toLower tcpData with
        | some tls =>
            pure (assignClient { ev with kind := .tlsClientHello, tls := tls }
              false, .ok)
        | none => pure (ev, .ignore)
      else pure (ev, .ignore)

def parsePacket (b : Bytes) (ts : Int) : Checked (Event × ParseResult) :=
  if b.length < 14 then pure ({}, .malformed)
  else do
    let etherType ← uint16 b 12 14
    if etherType ≠ etherTypeIPv4 then pure ({}, .ignore)
    else do
      let dstMAC ← CheckedSlices.slice b 0 6
      let srcMAC ← CheckedSlices.slice b 6 12
      let ip ← sliceFrom b 14
      if ip.length < 20 then pure ({}, .malformed)
      else do
        let first ← index ip 0
        if first.toNat / 16 ≠ 4 then pure ({}, .malformed)
        else do
          let ipHL := first.toNat % 16 * 4
          if ipHL < 20 ∨ ip.length < ipHL then pure ({}, .malformed)
          else do
            let field ← uint16 ip 2 4
            let totalLen :=
              if field = 0 ∨ ip.length < field then ip.length else field
            if totalLen < ipHL then pure ({}, .malformed)
            else do
              let proto ← index ip 9
              let srcIP ← ipv4 ip 12
              let dstIP ← ipv4 ip 16
              let payload ← CheckedSlices.slice ip ipHL totalLen
              let ev : Event :=
                { time := ts
                  srcMAC := srcMAC
                  dstMAC := dstMAC
                  srcIP := srcIP
                  dstIP := dstIP }
              if proto.toNat = ipProtoUDP then parseUDP toLower ev payload
              else if proto.toNat = ipProtoTCP then parseTCP toLower ev payload
              else pure (ev, .ignore)

variable {b : Bytes}

theorem uint16_ok {lo hi : Nat} (two : hi = lo + 2) (inside : hi ≤ b.length) :
    uint16 b lo hi = .ok (BigEndian.uint16 b lo) :=
  CheckedSlices.uint16_ok two inside

theorem uint32_ok {lo hi : Nat} (four : hi = lo + 4) (inside : hi ≤ b.length) :
    uint32 b lo hi = .ok (BigEndian.uint32 b lo) :=
  CheckedSlices.uint32_ok four inside

theorem ipv4_ok {off : Nat} (inside : off + 4 ≤ b.length) :
    ipv4 b off = .ok (Dpid.slice b off (off + 4)) := by
  rw [ipv4, index_ok (by omega), index_ok (by omega), index_ok (by omega),
    index_ok (by omega), slice_window, window_succ (by omega),
    window_succ (by omega), window_succ (by omega), window_succ (by omega),
    BigEndian.window]
  rfl

theorem dnsNameLoop_ok (b : Bytes) (iterations jumps off : Nat)
    (nextOff : Option Nat) (name : Bytes) :
    dnsNameLoop b iterations jumps off nextOff name =
      .ok (Dpid.dnsNameLoop b iterations jumps off nextOff name) := by
  induction iterations generalizing jumps off nextOff name with
  | zero => rfl
  | succ iterations induction =>
      rw [dnsNameLoop, Dpid.dnsNameLoop]
      by_cases inside : b.length ≤ off
      · rw [if_pos inside, if_pos inside]
        rfl
      rw [if_neg inside, index_ok (by omega), ok_bind, toNat_byteAt (by omega)]
      dsimp only
      split
      · rfl
      split
      · split
        · rfl
        · rw [uint16_ok rfl (by omega), ok_bind]
          split
          · rfl
          · cases jumps with
            | zero => rfl
            | succ jumps => exact induction _ _ _ _
      · split
        · rfl
        split
        · rfl
        · rw [slice_ok (by omega) (by omega)]
          exact induction _ _ _ _

theorem dnsReadName_ok (b : Bytes) (off : Nat) :
    dnsReadName b off = .ok (Dpid.dnsReadName b off) :=
  dnsNameLoop_ok b 256 8 off none []

theorem dnsAnswer_ok {rdlen rdataStart : Nat} (atype : Nat)
    (inside : rdataStart + rdlen ≤ b.length) :
    dnsAnswer toLower b atype rdlen rdataStart =
      .ok (Dpid.dnsAnswer toLower b atype rdlen rdataStart) := by
  by_cases a : atype = 1
  · subst a
    rw [dnsAnswer.eq_1, Dpid.dnsAnswer.eq_1]
    split
    · rw [ipv4_ok (by omega)]
      rfl
    · rfl
  by_cases aaaa : atype = 28
  · subst aaaa
    rw [dnsAnswer.eq_2, Dpid.dnsAnswer.eq_2]
    split
    · rw [slice_ok (by omega) (by omega)]
      rfl
    · rfl
  by_cases cname : atype = 5
  · subst cname
    rw [dnsAnswer.eq_3, Dpid.dnsAnswer.eq_3, dnsReadName_ok]
    cases Dpid.dnsReadName b rdataStart with
    | none => rfl
    | some found => rfl
  · rw [dnsAnswer.eq_4 _ _ _ _ _ a aaaa cname,
      Dpid.dnsAnswer.eq_4 _ _ _ _ _ a aaaa cname]
    rfl

theorem dnsAnswers_ok (b : Bytes) (left p : Nat) (answers : List Answer)
    (minTTL : Nat) :
    dnsAnswers toLower b left p answers minTTL =
      .ok (Dpid.dnsAnswers toLower b left p answers minTTL) := by
  induction left generalizing p answers minTTL with
  | zero => rfl
  | succ left induction =>
      rw [dnsAnswers, Dpid.dnsAnswers, dnsReadName_ok, ok_bind]
      cases Dpid.dnsReadName b p with
      | none => rfl
      | some found =>
          dsimp only
          split
          · rfl
          rw [uint16_ok rfl (by omega), ok_bind, uint32_ok rfl (by omega),
            ok_bind, uint16_ok rfl (by omega), ok_bind]
          split
          · rfl
          · rw [dnsAnswer_ok _ _ (by omega)]
            exact induction _ _ _

theorem parseDNS_ok (b : Bytes) :
    parseDNS toLower b = .ok (Dpid.parseDNS toLower b) := by
  rw [parseDNS, Dpid.parseDNS]
  split
  · rfl
  rw [uint16_ok rfl (by omega), ok_bind, uint16_ok rfl (by omega), ok_bind,
    uint16_ok rfl (by omega), ok_bind]
  split
  · rfl
  rw [dnsReadName_ok, ok_bind]
  cases Dpid.dnsReadName b 12 with
  | none => rfl
  | some found =>
      dsimp only
      split
      · rfl
      rw [uint16_ok rfl (by omega), ok_bind]
      split
      · rfl
      · rw [dnsAnswers_ok]
        rfl

theorem alpnList_ok (list : Bytes) :
    alpnList list = .ok (Dpid.alpnList list) := by
  induction list using Dpid.alpnList.induct with
  | case1 =>
      rw [alpnList, Dpid.alpnList]
      rfl
  | case2 n rest short =>
      have first : byteAt (n :: rest) 0 = n := rfl
      have nonempty : 1 ≤ (n :: rest).length := Nat.succ_pos _
      rw [alpnList, Dpid.alpnList, if_pos nonempty,
        index_ok nonempty, ok_bind, first, if_pos short, if_pos]
      · rfl
      · rw [List.length_cons]
        omega
  | case3 n rest long induction =>
      have first : byteAt (n :: rest) 0 = n := rfl
      have nonempty : 1 ≤ (n :: rest).length := Nat.succ_pos _
      have bound : 1 + n.toNat ≤ (n :: rest).length := by
        rw [List.length_cons]
        omega
      rw [alpnList, Dpid.alpnList, if_pos nonempty,
        index_ok nonempty, ok_bind, first, if_neg long,
        if_neg (by omega), slice_ok (by omega) bound, ok_bind,
        restFrom_ok bound, ok_bind]
      have protocol : ((n :: rest).take (1 + n.toNat)).drop 1 =
          rest.take n.toNat := by
        rw [Nat.add_comm, List.take_succ_cons, List.drop_one, List.tail_cons]
      have behind : (n :: rest).drop (1 + n.toNat) = rest.drop n.toNat := by
        rw [Nat.add_comm, List.drop_succ_cons]
      simp only [protocol, behind]
      rw [induction]
      rfl

theorem tlsExtension_ok (etype : Nat) (data : Bytes) (found : TLSInfo) :
    tlsExtension toLower etype data found =
      .ok (Dpid.tlsExtension toLower etype data found) := by
  rw [tlsExtension, Dpid.tlsExtension]
  split
  · split
    · rfl
    rw [sliceFrom_ok (by omega), ok_bind]
    generalize rest : data.drop 2 = data'
    have length : data'.length + 2 = data.length := by
      rw [← rest, List.length_drop]
      omega
    rw [index_ok (by omega), ok_bind, toNat_byteAt (by omega)]
    dsimp only
    split
    · rfl
    rw [uint16_ok rfl (by omega), ok_bind]
    split
    · rfl
    · rw [slice_ok (by omega) (by omega)]
      rfl
  · split
    · split
      · rfl
      · rw [sliceFrom_ok (by omega), ok_bind, alpnList_ok]
        rfl
    · rfl

theorem tlsExtensions_ok (ext : Bytes) (found : TLSInfo) :
    tlsExtensions toLower ext found =
      .ok (Dpid.tlsExtensions toLower ext found) := by
  induction ext, found using Dpid.tlsExtensions.induct toLower with
  | case1 ext found long elen rest short =>
      rw [tlsExtensions, Dpid.tlsExtensions, if_pos long, if_pos long,
        uint16_ok rfl (by omega), ok_bind, uint16_ok rfl (by omega), ok_bind,
        restFrom_ok long, ok_bind]
      rw [if_pos short, if_pos short]
      rfl
  | case2 ext found long elen rest inside induction =>
      rw [tlsExtensions, Dpid.tlsExtensions, if_pos long, if_pos long,
        uint16_ok rfl (by omega), ok_bind, uint16_ok rfl (by omega), ok_bind,
        restFrom_ok long, ok_bind]
      have reaches := Nat.le_of_not_lt inside
      rw [if_neg inside, if_neg inside, sliceTo_ok reaches, ok_bind,
        restFrom_ok reaches, ok_bind, tlsExtension_ok, ok_bind, induction]
  | case3 ext found short =>
      rw [tlsExtensions, Dpid.tlsExtensions, if_neg short, if_neg short]
      rfl

theorem tlsBody_ok (body : Bytes) :
    tlsBody toLower body = .ok (Dpid.tlsBody toLower body) := by
  rw [tlsBody, Dpid.tlsBody]
  split
  · rfl
  rw [index_ok (by omega), ok_bind, toNat_byteAt (by omega)]
  dsimp only
  split
  · rfl
  rw [uint16_ok rfl (by omega), ok_bind]
  split
  · rfl
  rw [index_ok (by omega), ok_bind, toNat_byteAt (by omega)]
  split
  · rfl
  rw [uint16_ok rfl (by omega), ok_bind]
  split
  · rfl
  rw [slice_ok (by omega) (by omega), ok_bind, tlsExtensions_ok, ok_bind]
  split
  · rename_i empty
    exact congrArg Except.ok (if_pos empty).symm
  · rename_i full
    exact congrArg Except.ok (if_neg full).symm

theorem parseTLSClientHello_ok (b : Bytes) :
    parseTLSClientHello toLower b =
      .ok (Dpid.parseTLSClientHello toLower b) := by
  rw [parseTLSClientHello, Dpid.parseTLSClientHello]
  by_cases short : b.length < 5
  · rw [if_pos short, if_pos (.inl short)]
    rfl
  rw [if_neg short, index_ok (by omega), ok_bind, toNat_byteAt (by omega)]
  by_cases type : BigEndian.uint8 b 0 ≠ 0x16
  · rw [if_pos type, if_pos (.inr type)]
    rfl
  rw [if_neg type, if_neg (not_or.mpr ⟨short, type⟩),
    uint16_ok rfl (by omega), ok_bind]
  dsimp only
  split
  · rfl
  rw [slice_ok (by omega) (by omega), ok_bind]
  change _ = Except.ok (if (slice b 5 _).length < 4 ∨ _ then _ else _)
  generalize content : slice b 5 (5 + BigEndian.uint16 b 3) = hs
  rw [slice] at content
  rw [content]
  by_cases header : hs.length < 4
  · rw [if_pos header, if_pos (.inl header)]
    rfl
  rw [if_neg header, index_ok (by omega), ok_bind, toNat_byteAt (by omega)]
  by_cases message : BigEndian.uint8 hs 0 ≠ 0x01
  · rw [if_pos message, if_pos (.inr message)]
    rfl
  rw [if_neg message, if_neg (not_or.mpr ⟨header, message⟩),
    index_ok (by omega), ok_bind, index_ok (by omega), ok_bind,
    index_ok (by omega), ok_bind, toNat_byteAt (by omega),
    toNat_byteAt (by omega), toNat_byteAt (by omega)]
  split
  · rfl
  · rw [slice_ok (by omega) (by omega), ok_bind, tlsBody_ok]
    rfl

theorem parseUDP_ok (ev : Event) (payload : Bytes) :
    parseUDP toLower ev payload = .ok (Dpid.parseUDP toLower ev payload) := by
  rw [parseUDP, Dpid.parseUDP]
  split
  · rfl
  rw [uint16_ok rfl (by omega), ok_bind, uint16_ok rfl (by omega), ok_bind]
  dsimp only
  split
  · rfl
  rw [sliceFrom_ok (by omega), ok_bind, parseDNS_ok]
  cases Dpid.parseDNS toLower (payload.drop 8) with
  | none => rfl
  | some d => rfl

theorem parseTCP_ok (ev : Event) (payload : Bytes) :
    parseTCP toLower ev payload = .ok (Dpid.parseTCP toLower ev payload) := by
  rw [parseTCP, Dpid.parseTCP]
  split
  · rfl
  rw [uint16_ok rfl (by omega), ok_bind, uint16_ok rfl (by omega), ok_bind,
    index_ok (by omega), ok_bind, toNat_byteAt (by omega)]
  dsimp only
  split
  · rfl
  rw [sliceFrom_ok (by omega), ok_bind]
  generalize payload.drop (BigEndian.uint8 payload 12 / 16 * 4) = tcpData
  split
  · split
    · rw [sliceFrom_ok (by omega), ok_bind, parseDNS_ok]
      cases Dpid.parseDNS toLower (tcpData.drop 2) with
      | none => rfl
      | some d => rfl
    · rfl
  · split
    · rw [parseTLSClientHello_ok]
      cases Dpid.parseTLSClientHello toLower tcpData with
      | none => rfl
      | some tls => rfl
    · rfl

theorem parsePacket_ok (b : Bytes) (ts : Int) :
    parsePacket toLower b ts = .ok (Dpid.parsePacket toLower b ts) := by
  rw [parsePacket, Dpid.parsePacket]
  split
  · rfl
  rw [uint16_ok rfl (by omega), ok_bind]
  split
  · rfl
  rw [slice_ok (by omega) (by omega), ok_bind, slice_ok (by omega) (by omega),
    ok_bind, sliceFrom_ok (by omega), ok_bind]
  dsimp only
  generalize b.drop 14 = ip
  split
  · rfl
  rw [index_ok (by omega), ok_bind, toNat_byteAt (by omega)]
  split
  · rfl
  split
  · rfl
  rw [uint16_ok rfl (by omega), ok_bind]
  generalize total : (if BigEndian.uint16 ip 2 = 0 ∨
    ip.length < BigEndian.uint16 ip 2 then ip.length
    else BigEndian.uint16 ip 2) = totalLen
  have bound : totalLen ≤ ip.length := by
    rw [← total]
    split <;> omega
  split
  · rfl
  rw [index_ok (by omega), ok_bind, toNat_byteAt (by omega),
    ipv4_ok (by omega), ok_bind, ipv4_ok (by omega), ok_bind,
    slice_ok (by omega) bound, ok_bind]
  split
  · rw [parseUDP_ok]
    rfl
  · split
    · rw [parseTCP_ok]
      rfl
    · rfl

end

end Checking

/-- None of the four parsers faults on any input and at any offset; each of
them ends with what its model computes. -/
theorem parsers_safe (toLower : Bytes → Bytes) :
    (∀ b ts, Checking.parsePacket toLower b ts =
      .ok (parsePacket toLower b ts)) ∧
    (∀ b, Checking.parseDNS toLower b = .ok (parseDNS toLower b)) ∧
    (∀ b off, Checking.dnsReadName b off = .ok (dnsReadName b off)) ∧
    ∀ b, Checking.parseTLSClientHello toLower b =
      .ok (parseTLSClientHello toLower b) :=
  ⟨Checking.parsePacket_ok toLower, Checking.parseDNS_ok toLower,
    Checking.dnsReadName_ok, Checking.parseTLSClientHello_ok toLower⟩

end Dpid
