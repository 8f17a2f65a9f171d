import Hnc.Dpid.Parse
import Hnc.Lib.OldestFirst

/-!
# The tables of the state writer

`output/state.go` keeps a profile for each client with the names that it asked
for, and the names of all clients, in maps with a limit.  `toLower` and
`trimSpace` stand for the functions of `strings`; the order in which a map is
visited comes with each call.
-/

namespace Dpid

open KeyMap OldestFirst

def maxClients : Nat := 128
def maxNamesPerClient : Nat := 64
def maxGlobalNames : Nat := 256
def topN : Nat := 8

structure NameStat where
  count : UInt64
  lastSeen : Int
deriving DecidableEq

structure ClientAgg where
  clientIP : Bytes
  clientMAC : Bytes
  firstSeen : Int
  lastSeen : Int
  dnsEvents : UInt64 := 0
  tlsEvents : UInt64 := 0
  lastHostname : Bytes := []
  lastSNI : Bytes := []
  hostnames : Map Bytes NameStat := ∅
  sni : Map Bytes NameStat := ∅
  remoteIPs : Map Bytes Int := ∅
deriving DecidableEq

inductive Kind where
  | dns
  | tls
deriving DecidableEq, Repr

/-- The profile with the addresses that it did not have. -/
def ClientAgg.label (c : ClientAgg) (mac ip : Bytes) : ClientAgg :=
  let c := if c.clientIP = [] ∧ ip ≠ [] then { c with clientIP := ip } else c
  if c.clientMAC = [] ∧ mac ≠ [] then { c with clientMAC := mac } else c

/-- The names of a profile that calls of a kind record. -/
def ClientAgg.names (c : ClientAgg) : Kind → Map Bytes NameStat
  | .dns => c.hostnames
  | .tls => c.sni

def ClientAgg.countEvent (c : ClientAgg) : Kind → ClientAgg
  | .dns => { c with dnsEvents := c.dnsEvents + 1 }
  | .tls => { c with tlsEvents := c.tlsEvents + 1 }

/-- The profile with the name of a call and the names that it gives. -/
def ClientAgg.named (c : ClientAgg) (host : Bytes)
    (names : Map Bytes NameStat) : Kind → ClientAgg
  | .dns => { c with lastHostname := host, hostnames := names }
  | .tls => { c with lastSNI := host, sni := names }

structure Writer where
  clients : Map Bytes ClientAgg := ∅
  globalDNS : Map Bytes NameStat := ∅
  globalSNI : Map Bytes NameStat := ∅
deriving DecidableEq

/-- The names of all clients that calls of a kind record. -/
def Writer.global (w : Writer) : Kind → Map Bytes NameStat
  | .dns => w.globalDNS
  | .tls => w.globalSNI

def Writer.setGlobal (w : Writer) (names : Map Bytes NameStat) : Kind → Writer
  | .dns => { w with globalDNS := names }
  | .tls => { w with globalSNI := names }

/-- A call of `RecordDNS` or `RecordTLS`, with the order in which its loops
visit the clients and the names. -/
structure Call where
  kind : Kind
  clientMAC : Bytes
  clientIP : Bytes
  remoteIP : Bytes
  /-- `qname` or `sni`. -/
  name : Bytes
  /-- The seconds of `ts`. -/
  now : Int
  visitClients : Visit Bytes
  visitNames : Visit Bytes
  visitGlobal : Visit Bytes

def evictOldestName (visit : Visit Bytes) (m : Map Bytes NameStat) :
    Map Bytes NameStat :=
  evictOldest [] NameStat.lastSeen visit m

def bumpName (visit : Visit Bytes) (m : Map Bytes NameStat) (name : Bytes)
    (now : Int) (limit : Nat) : Map Bytes NameStat :=
  if name = [] then m
  else
    match m.lookup name with
    | some st => m.insert name ⟨st.count + 1, now⟩
    | none =>
        let m :=
          if 0 < limit ∧ limit ≤ size m then evictOldestName visit m else m
        m.insert name ⟨1, now⟩

/-- `strings.TrimSuffix(s, ".")`. -/
def trimDot (s : Bytes) : Bytes :=
  if s.getLast? = some 46 then s.dropLast else s

/-- The characters that a name may have; no byte of a longer rune is one. -/
def isNameByte (r : UInt8) : Bool :=
  (97 ≤ r && r ≤ 122) || (48 ≤ r && r ≤ 57) || r = 45 || r = 46 || r = 95 ||
    r = 58

section

variable (toLower trimSpace : Bytes → Bytes)

def normalizeName (s : Bytes) : Bytes :=
  let s := trimDot (trimSpace (toLower s))
  if s = [] ∨ 253 < s.length then []
  else if s.all isNameByte then s
  else []

/-- The key of a profile: `unknown` when nothing is left of both addresses. -/
def clientKey (mac ip : Bytes) : Bytes :=
  if trimSpace ip ≠ [] then trimSpace ip
  else if trimSpace mac ≠ [] then trimSpace mac
  else [117, 110, 107, 110, 111, 119, 110]

namespace Writer

def evictOldestClientLocked (visit : Visit Bytes) (w : Writer) : Writer :=
  { w with clients := evictOldest [] ClientAgg.lastSeen visit w.clients }

/-- The profile under a key, which is made when there is none. -/
def makeClient (clients : Map Bytes ClientAgg) (key mac ip : Bytes)
    (now : Int) : Map Bytes ClientAgg × ClientAgg :=
  match clients.lookup key with
  | some c => (clients, c)
  | none =>
      let c : ClientAgg :=
        { clientIP := ip, clientMAC := mac, firstSeen := now, lastSeen := now }
      (clients.insert key c, c)

/-- The key and the profile that `clientLocked` returns are written back by
its callers. -/
def clientLocked (visit : Visit Bytes) (w : Writer) (mac ip : Bytes)
    (now : Int) : Writer × Bytes × ClientAgg :=
  let key := clientKey trimSpace mac ip
  let w :=
    if maxClients ≤ size w.clients then
      if key ∉ w.clients then w.evictOldestClientLocked visit else w
    else w
  let made := makeClient w.clients key mac ip now
  let c := made.2.label mac ip
  ({ w with clients := made.1.insert key c }, key, c)

/-- `RecordDNS` and `RecordTLS` differ in the fields that they update. -/
def recordName (kind : Kind) (w : Writer) (call : Call) : Writer :=
  let host := normalizeName toLower trimSpace call.name
  if call.clientIP = [] ∧ call.clientMAC = [] then w
  else
    let (w, key, c) := w.clientLocked trimSpace call.visitClients
      call.clientMAC call.clientIP call.now
    let c := { c.countEvent kind with lastSeen := call.now }
    let c :=
      if call.remoteIP ≠ [] then
        { c with remoteIPs := c.remoteIPs.insert call.remoteIP call.now }
      else c
    if host ≠ [] then
      let c := c.named host (bumpName call.visitNames (c.names kind) host
        call.now maxNamesPerClient) kind
      { w with clients := w.clients.insert key c }.setGlobal
        (bumpName call.visitGlobal (w.global kind) host call.now maxGlobalNames)
        kind
    else { w with clients := w.clients.insert key c }

def recordDNS (w : Writer) (call : Call) : Writer :=
  recordName toLower trimSpace .dns w call

def recordTLS (w : Writer) (call : Call) : Writer :=
  recordName toLower trimSpace .tls w call

def record (w : Writer) (call : Call) : Writer :=
  match call.kind with
  | .dns => w.recordDNS toLower trimSpace call
  | .tls => w.recordTLS toLower trimSpace call

end Writer

end

end Dpid
