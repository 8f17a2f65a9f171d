import Hnc.Lib.BigEndian

/-!
# The packet parser of the capture daemon

`capture/parse.go` reads DNS messages and TLS ClientHellos out of Ethernet
frames.  A slice is a list of bytes; each index is behind a length check of the
source.  `toLower` stands for `strings.ToLower`.
-/

namespace Dpid

open BigEndian

abbrev Bytes := List UInt8

inductive EventKind where
  | unknown
  | dns
  | tlsClientHello
deriving DecidableEq, Repr

/-- An entry of `Answers`; the text of an address is the one of `net.IP`. -/
inductive Answer where
  | a (ip : Bytes)
  | aaaa (ip : Bytes)
  | cname (name : Bytes)
deriving DecidableEq, Repr

structure DNSInfo where
  isResponse : Bool := false
  qName : Bytes := []
  qType : Nat := 0
  answers : List Answer := []
  ttl : Nat := 0
deriving DecidableEq, Repr

structure TLSInfo where
  sni : Bytes := []
  alpn : List Bytes := []
deriving DecidableEq, Repr

/-- `Event`; the defaults are the zero value. -/
structure Event where
  kind : EventKind := .unknown
  time : Int := 0
  srcMAC : Bytes := []
  dstMAC : Bytes := []
  srcIP : Bytes := []
  dstIP : Bytes := []
  srcPort : Nat := 0
  dstPort : Nat := 0
  isUDP : Bool := false
  clientMAC : Bytes := []
  clientIP : Bytes := []
  remoteIP : Bytes := []
  dns : DNSInfo := {}
  tls : TLSInfo := {}
deriving DecidableEq, Repr

def etherTypeIPv4 : Nat := 0x0800
def ipProtoTCP : Nat := 6
def ipProtoUDP : Nat := 17

inductive ParseResult where
  | ok
  | ignore
  | malformed
deriving DecidableEq, Repr

/-- `b[lo:hi]`. -/
def slice (b : Bytes) (lo hi : Nat) : Bytes :=
  (b.take hi).drop lo

/-- The loop of `dnsReadName`, with the iterations and the jumps that are left.
`nextOff` is the offset behind the name once a pointer has been followed. -/
def dnsNameLoop (b : Bytes) :
    (iterations jumps off : Nat) → (nextOff : Option Nat) → (name : Bytes) →
      Option (Bytes × Nat)
  | 0, _, _, _, _ => none
  | iterations + 1, jumps, off, nextOff, name =>
      if b.length ≤ off then none
      else
        let l := uint8 b off
        if l = 0 then some (name, nextOff.getD (off + 1))
        else if 0xc0 ≤ l then
          if b.length ≤ off + 1 then none
          else
            let ptr := uint16 b off % 0x4000
            if b.length ≤ ptr ∨ ptr = off then none
            else
              match jumps with
              | 0 => none
              | jumps + 1 =>
                  dnsNameLoop b iterations jumps ptr
                    (some (nextOff.getD (off + 2))) name
        else if 63 < l then none
        else if b.length < off + 1 + l then none
        else
          let label := slice b (off + 1) (off + 1 + l)
          let dotted := if name = [] then label else name ++ 46 :: label
          dnsNameLoop b iterations jumps (off + 1 + l) nextOff dotted

def dnsReadName (b : Bytes) (off : Nat) : Option (Bytes × Nat) :=
  dnsNameLoop b 256 8 off none []

section

variable (toLower : Bytes → Bytes)

/-- The switch over the type of an answer. -/
def dnsAnswer (b : Bytes) (atype rdlen rdataStart : Nat) : List Answer :=
  match atype with
  | 1 =>
      if rdlen = 4 then [.a (slice b rdataStart (rdataStart + 4))] else []
  | 28 =>
      if rdlen = 16 then [.aaaa (slice b rdataStart (rdataStart + 16))] else []
  | 5 =>
      match dnsReadName b rdataStart with
      | some (name, _) => [.cname (toLower name)]
      | none => []
  | _ => []

/-- The loop of `parseDNS` over the answers that are left. -/
def dnsAnswers (b : Bytes) :
    (left p : Nat) → (answers : List Answer) → (minTTL : Nat) →
      List Answer × Nat
  | 0, _, answers, minTTL => (answers, minTTL)
  | left + 1, p, answers, minTTL =>
      match dnsReadName b p with
      | none => (answers, minTTL)
      | some (_, p) =>
          if b.length < p + 10 then (answers, minTTL)
          else
            let ttl := uint32 b (p + 4)
            let rdlen := uint16 b (p + 8)
            if b.length < p + 10 + rdlen then (answers, minTTL)
            else
              dnsAnswers b left (p + 10 + rdlen)
                (answers ++ dnsAnswer toLower b (uint16 b p) rdlen (p + 10))
                (if minTTL = 0 ∨ ttl < minTTL then ttl else minTTL)

def parseDNS (b : Bytes) : Option DNSInfo :=
  if b.length < 12 then none
  else if uint16 b 4 ≠ 1 then none
  else
    match dnsReadName b 12 with
    | none => none
    | some (qname, p) =>
        if b.length < p + 4 then none
        else
          let out : DNSInfo :=
            { isResponse := 0x8000 ≤ uint16 b 2
              qName := toLower qname
              qType := uint16 b p }
          if !out.isResponse then some out
          else
            let found := dnsAnswers toLower b (uint16 b 6) (p + 4) [] 0
            some { out with answers := found.1, ttl := found.2 }

/-- The loop over the protocols of an ALPN extension. -/
def alpnList (list : Bytes) : List Bytes :=
  match list with
  | [] => []
  | n :: rest =>
      if rest.length < n.toNat then []
      else rest.take n.toNat :: alpnList (rest.drop n.toNat)
termination_by list.length
decreasing_by
  simp only [List.length_drop, List.length_cons]
  omega

/-- The switch over the type of an extension. -/
def tlsExtension (etype : Nat) (data : Bytes) (found : TLSInfo) : TLSInfo :=
  if etype = 0x0000 then
    if data.length < 5 then found
    else
      let data := data.drop 2
      if uint8 data 0 ≠ 0 then found
      else
        let nameLen := uint16 data 1
        if data.length < 3 + nameLen then found
        else { found with sni := toLower (slice data 3 (3 + nameLen)) }
  else if etype = 0x0010 then
    if data.length < 2 then found
    else { found with alpn := found.alpn ++ alpnList (data.drop 2) }
  else found

/-- The loop over the extensions. -/
def tlsExtensions (ext : Bytes) (found : TLSInfo) : TLSInfo :=
  if 4 ≤ ext.length then
    let elen := uint16 ext 2
    let rest := ext.drop 4
    if rest.length < elen then found
    else
      tlsExtensions (rest.drop elen)
        (tlsExtension toLower (uint16 ext 0) (rest.take elen) found)
  else found
termination_by ext.length
decreasing_by
  simp only [List.length_drop]
  omega

/-- The part of `parseTLSClientHello` behind the handshake header. -/
def tlsBody (body : Bytes) : Option TLSInfo :=
  if body.length < 2 + 32 + 1 then none
  else
    let sidLen := uint8 body 34
    if body.length < 35 + sidLen + 2 then none
    else
      let p := 35 + sidLen
      let csLen := uint16 body p
      let p := p + 2 + csLen
      if body.length < p + 1 then none
      else
        let cmLen := uint8 body p
        let p := p + 1 + cmLen
        if body.length < p + 2 then none
        else
          let extLen := uint16 body p
          let p := p + 2
          if body.length < p + extLen then none
          else
            let found := tlsExtensions toLower (slice body p (p + extLen)) {}
            if found.sni = [] ∧ found.alpn = [] then none else some found

def parseTLSClientHello (b : Bytes) : Option TLSInfo :=
  if b.length < 5 ∨ uint8 b 0 ≠ 0x16 then none
  else
    let recLen := uint16 b 3
    if recLen < 4 ∨ b.length < 5 + recLen then none
    else
      let hs := slice b 5 (5 + recLen)
      if hs.length < 4 ∨ uint8 hs 0 ≠ 0x01 then none
      else
        let bodyLen := uint8 hs 1 * 65536 + uint8 hs 2 * 256 + uint8 hs 3
        if hs.length < 4 + bodyLen then none
        else tlsBody toLower (slice hs 4 (4 + bodyLen))

def assignClient (ev : Event) (isResponseToClient : Bool) : Event :=
  if isResponseToClient then
    { ev with clientMAC := ev.dstMAC, clientIP := ev.dstIP, remoteIP := ev.srcIP }
  else
    { ev with clientMAC := ev.srcMAC, clientIP := ev.srcIP, remoteIP := ev.dstIP }

def dnsEvent (ev : Event) (d : DNSInfo) : Event :=
  assignClient { ev with kind := .dns, dns := d } d.isResponse

/-- `case ipProtoUDP`. -/
def parseUDP (ev : Event) (payload : Bytes) : Event × ParseResult :=
  if payload.length < 8 then (ev, .malformed)
  else
    let ev := { ev with
      isUDP := true
      srcPort := uint16 payload 0
      dstPort := uint16 payload 2 }
    if ev.srcPort ≠ 53 ∧ ev.dstPort ≠ 53 then (ev, .ignore)
    else
      match parseDNS toLower (payload.drop 8) with
      | some d => (dnsEvent ev d, .ok)
      | none => (ev, .malformed)

/-- `case ipProtoTCP`. -/
def parseTCP (ev : Event) (payload : Bytes) : Event × ParseResult :=
  if payload.length < 20 then (ev, .malformed)
  else
    let ev := { ev with
      srcPort := uint16 payload 0
      dstPort := uint16 payload 2 }
    let tcpHL := uint8 payload 12 / 16 * 4
    if tcpHL < 20 ∨ payload.length < tcpHL then (ev, .malformed)
    else
      let tcpData := payload.drop tcpHL
      if ev.dstPort = 53 ∨ ev.srcPort = 53 then
        if 2 < tcpData.length then
          match parseDNS toLower (tcpData.drop 2) with
          | some d => (dnsEvent ev d, .ok)
          | none => (ev, .malformed)
        else (ev, .malformed)
      else if ev.dstPort = 443 ∨ ev.srcPort = 443 then
        match parseTLSClientHello toLower tcpData with
        | some tls =>
            (assignClient { ev with kind := .tlsClientHello, tls := tls } false,
              .ok)
        | none => (ev, .ignore)
      else (ev, .ignore)

def parsePacket (b : Bytes) (ts : Int) : Event × ParseResult :=
  if b.length < 14 then ({}, .malformed)
  else if uint16 b 12 ≠ etherTypeIPv4 then ({}, .ignore)
  else
    let ip := b.drop 14
    if ip.length < 20 then ({}, .malformed)
    else if uint8 ip 0 / 16 ≠ 4 then ({}, .malformed)
    else
      let ipHL := uint8 ip 0 % 16 * 4
      if ipHL < 20 ∨ ip.length < ipHL then ({}, .malformed)
      else
        let field := uint16 ip 2
        let totalLen :=
          if field = 0 ∨ ip.length < field then ip.length else field
        if totalLen < ipHL then ({}, .malformed)
        else
          let payload := slice ip ipHL totalLen
          let ev : Event :=
            { time := ts
              srcMAC := slice b 6 12
              dstMAC := slice b 0 6
              srcIP := slice ip 12 16
              dstIP := slice ip 16 20 }
          if uint8 ip 9 = ipProtoUDP then parseUDP toLower ev payload
          else if uint8 ip 9 = ipProtoTCP then parseTCP toLower ev payload
          else (ev, .ignore)

end

end Dpid
