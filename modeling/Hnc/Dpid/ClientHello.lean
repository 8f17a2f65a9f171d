import Hnc.Dpid.DnsAnswers
import Hnc.Dpid.Filter

/-!
# What a client sends in a ClientHello

A ClientHello is encoded here as TLS lays it out: vectors with a length in front
of them, nested down to the protocols of an ALPN extension.  The parser, which
walks over the same bytes with an offset, gets the host name and the protocols
back.
-/

namespace Dpid

open BigEndian

def vector8 (data : Bytes) : Bytes :=
  write8 data.length ++ data

def vector16 (data : Bytes) : Bytes :=
  write16 data.length ++ data

/-- An extension; a `server_name` list has a host name or nothing. -/
inductive Extension where
  | serverName (host : Option Bytes)
  | alpn (protocols : List Bytes)
  | other (type : Nat) (data : Bytes)
deriving DecidableEq, Repr

def Extension.type : Extension → Nat
  | .serverName _ => 0x0000
  | .alpn _ => 0x0010
  | .other type _ => type

def Extension.data : Extension → Bytes
  | .serverName none => vector16 []
  | .serverName (some host) => vector16 (write8 0 ++ vector16 host)
  | .alpn protocols => vector16 (protocols.flatMap vector8)
  | .other _ data => data

def Extension.encode (extension : Extension) : Bytes :=
  write16 extension.type ++ vector16 extension.data

/-- The vectors of an extension have lengths that can be written, and the host
name is ASCII. -/
structure Extension.Fits (extension : Extension) : Prop where
  type : extension.type < 65536
  data : extension.data.length < 65536
  host : ∀ host, extension = .serverName (some host) → ∀ c ∈ host, c < 128
  protocols : ∀ protocols, extension = .alpn protocols →
    ∀ protocol ∈ protocols, protocol.length < 256
  other : ∀ type data, extension = .other type data →
    type ≠ 0x0000 ∧ type ≠ 0x0010

structure ClientHello where
  version : Bytes
  random : Bytes
  sessionId : Bytes
  cipherSuites : Bytes
  compression : Bytes
  /-- `none` is the form without a block of extensions. -/
  extensions : Option (List Extension)

namespace ClientHello

/-- What stands in front of the extensions. -/
def fixed (hello : ClientHello) : Bytes :=
  hello.version ++ hello.random ++ vector8 hello.sessionId ++
    vector16 hello.cipherSuites ++ vector8 hello.compression

def body (hello : ClientHello) : Bytes :=
  hello.fixed ++
    match hello.extensions with
    | none => []
    | some extensions => vector16 (extensions.flatMap Extension.encode)

def handshake (hello : ClientHello) : Bytes :=
  write8 0x01 ++ write24 hello.body.length ++ hello.body

/-- The record with the message, and with any others behind it. -/
def record (hello : ClientHello) (version others : Bytes) : Bytes :=
  write8 0x16 ++ version ++ vector16 (hello.handshake ++ others)

/-- The extensions that are there. -/
def sent (hello : ClientHello) : List Extension :=
  hello.extensions.getD []

structure WellFormed (hello : ClientHello) : Prop where
  version : hello.version.length = 2
  random : hello.random.length = 32
  sessionId : hello.sessionId.length < 256
  cipherSuites : hello.cipherSuites.length < 65536
  compression : hello.compression.length < 256
  block : (hello.sent.flatMap Extension.encode).length < 65536
  fits : ∀ extension ∈ hello.sent, extension.Fits
  noTypeTwice : (hello.sent.map Extension.type).Nodup

end ClientHello

/-- The host name that is sent. -/
def hostName (extensions : List Extension) : Option Bytes :=
  extensions.findSome? fun extension =>
    match extension with
    | .serverName host => host
    | _ => none

/-- The protocols that are sent. -/
def alpnProtocols (extensions : List Extension) : Option (List Bytes) :=
  extensions.findSome? fun extension =>
    match extension with
    | .alpn protocols => some protocols
    | _ => none

/-- A slice behind a prefix. -/
theorem slice_behind {lo hi : Nat} (first bytes rest : Bytes)
    (start : first.length = lo) (stop : lo + bytes.length = hi) :
    slice (first ++ (bytes ++ rest)) lo hi = bytes := by
  subst start stop
  rw [slice_window, window_behind]

theorem alpnList_vectors {protocols : List Bytes}
    (fit : ∀ protocol ∈ protocols, protocol.length < 256) :
    alpnList (protocols.flatMap vector8) = protocols := by
  induction protocols with
  | nil => rw [List.flatMap_nil, alpnList]
  | cons protocol protocols induction =>
      have length : (UInt8.ofNat protocol.length).toNat = protocol.length :=
        UInt8.toNat_ofNat_of_lt' (fit protocol List.mem_cons_self)
      have rest := induction fun other member =>
        fit other (List.mem_cons_of_mem protocol member)
      rw [List.flatMap_cons, vector8, write8, List.append_assoc,
        List.singleton_append, alpnList, length, if_neg, List.take_left,
        List.drop_left, rest]
      rw [List.length_append]
      omega

section

variable {toLower : Bytes → Bytes}

/-- What the parser has found behind an extension. -/
def Extension.found (toLower : Bytes → Bytes) (found : TLSInfo) :
    Extension → TLSInfo
  | .serverName (some host) => { found with sni := toLower host }
  | .alpn protocols => { found with alpn := found.alpn ++ protocols }
  | _ => found

theorem tlsExtension_serverName {host : Bytes} (fits : host.length < 65536)
    (found : TLSInfo) :
    tlsExtension toLower 0x0000 (vector16 (write8 0 ++ vector16 host)) found =
      { found with sni := toLower host } := by
  have length : (vector16 (write8 0 ++ vector16 host)).length =
      5 + host.length := by
    simp [vector16, write8, write16]
    omega
  have list : (vector16 (write8 0 ++ vector16 host)).drop 2 =
      write8 0 ++ (write16 host.length ++ host) := rfl
  have entry : uint8 (write8 0 ++ (write16 host.length ++ host)) 0 = 0 :=
    uint8_behind (by decide) [] _ rfl
  have nameLen : uint16 (write8 0 ++ (write16 host.length ++ host)) 1 =
      host.length := uint16_behind fits (write8 0) host rfl
  have name : slice (write8 0 ++ (write16 host.length ++ host)) 3
      (3 + host.length) = host := by
    have whole := slice_behind (write8 0 ++ write16 host.length) host [] rfl
      (rfl : 3 + host.length = _)
    rwa [List.append_nil, List.append_assoc] at whole
  rw [tlsExtension, if_pos rfl, if_neg (by omega)]
  simp only [list, entry, nameLen, name]
  rw [if_neg (by decide), if_neg]
  simp [write8, write16]
  omega

theorem tlsExtension_alpn {protocols : List Bytes}
    (fit : ∀ protocol ∈ protocols, protocol.length < 256) (found : TLSInfo) :
    tlsExtension toLower 0x0010 (vector16 (protocols.flatMap vector8)) found =
      { found with alpn := found.alpn ++ protocols } := by
  have list : (vector16 (protocols.flatMap vector8)).drop 2 =
      protocols.flatMap vector8 := rfl
  rw [tlsExtension, if_neg (by decide), if_pos rfl, list,
    alpnList_vectors fit, if_neg]
  simp [vector16, write16]

/-- Each extension is read back from its data. -/
theorem tlsExtension_data {extension : Extension} (fits : extension.Fits)
    (found : TLSInfo) :
    tlsExtension toLower extension.type extension.data found =
      extension.found toLower found := by
  cases extension with
  | serverName host =>
      cases host with
      | none => rfl
      | some host =>
          apply tlsExtension_serverName
          have length := fits.data
          simp [Extension.data, vector16] at length
          omega
  | alpn protocols => exact tlsExtension_alpn (fits.protocols _ rfl) found
  | other type data =>
      obtain ⟨notName, notAlpn⟩ := fits.other type data rfl
      rw [Extension.type, tlsExtension, if_neg notName, if_neg notAlpn]
      rfl

variable {extensions : List Extension}

theorem tlsExtensions_encode (fit : ∀ extension ∈ extensions, extension.Fits)
    (found : TLSInfo) :
    tlsExtensions toLower (extensions.flatMap Extension.encode) found =
      extensions.foldl (Extension.found toLower) found := by
  induction extensions generalizing found with
  | nil => rw [List.flatMap_nil, tlsExtensions]; rfl
  | cons extension extensions induction =>
      have fits := fit extension List.mem_cons_self
      generalize later : extensions.flatMap Extension.encode = rest at induction
      have layout : (extension :: extensions).flatMap Extension.encode =
          write16 extension.type ++ (write16 extension.data.length ++
            (extension.data ++ rest)) := by
        rw [List.flatMap_cons, later, Extension.encode, vector16]
        simp only [List.append_assoc]
      have type : uint16 (write16 extension.type ++
          (write16 extension.data.length ++ (extension.data ++ rest))) 0 =
          extension.type := uint16_behind fits.type [] _ rfl
      have length : uint16 (write16 extension.type ++
          (write16 extension.data.length ++ (extension.data ++ rest))) 2 =
          extension.data.length :=
        uint16_behind fits.data (write16 extension.type) _ rfl
      have behind : (write16 extension.type ++
          (write16 extension.data.length ++ (extension.data ++ rest))).drop 4 =
          extension.data ++ rest := rfl
      rw [layout, tlsExtensions, if_pos (by simp [write16])]
      simp only [type, length, behind]
      rw [if_neg (by simp), List.take_left, List.drop_left,
        tlsExtension_data fits, induction fun other member =>
          fit other (List.mem_cons_of_mem extension member)]
      rfl

theorem hostName_eq_none (missing : 0x0000 ∉ extensions.map Extension.type) :
    hostName extensions = none := by
  apply List.findSome?_eq_none_iff.mpr
  intro extension member
  cases extension with
  | serverName host =>
      exact absurd (List.mem_map_of_mem member) missing
  | alpn protocols => rfl
  | other type data => rfl

theorem alpnProtocols_eq_none (missing : 0x0010 ∉ extensions.map Extension.type) :
    alpnProtocols extensions = none := by
  apply List.findSome?_eq_none_iff.mpr
  intro extension member
  cases extension with
  | serverName host => rfl
  | alpn protocols => exact absurd (List.mem_map_of_mem member) missing
  | other type data => rfl

/-- Without a type twice the loop finds the one host name and the one list of
protocols. -/
theorem foldl_found (noTypeTwice : (extensions.map Extension.type).Nodup)
    (found : TLSInfo) :
    extensions.foldl (Extension.found toLower) found =
      { sni := (hostName extensions).elim found.sni toLower
        alpn := found.alpn ++ (alpnProtocols extensions).getD [] } := by
  induction extensions generalizing found with
  | nil =>
      rw [alpnProtocols, List.findSome?_nil, Option.getD_none, List.append_nil]
      rfl
  | cons extension extensions induction =>
      obtain ⟨fresh, noTypeTwice⟩ := List.nodup_cons.mp noTypeTwice
      rw [List.foldl_cons, induction noTypeTwice]
      cases extension with
      | serverName host =>
          have noOther := hostName_eq_none fresh
          cases host with
          | none => rfl
          | some host =>
              rw [noOther]
              rfl
      | alpn protocols =>
          rw [alpnProtocols_eq_none fresh, Option.getD_none, List.append_nil]
          rfl
      | other type data => rfl

namespace ClientHello

variable {hello : ClientHello}

theorem WellFormed.length_fixed (wellFormed : hello.WellFormed) :
    hello.fixed.length = 38 + hello.sessionId.length +
      hello.cipherSuites.length + hello.compression.length := by
  have version := wellFormed.version
  have random := wellFormed.random
  simp [fixed, vector8, vector16, write8, write16]
  omega

/-- The three lengths in front of the extensions are where the offsets of the
parser lead. -/
theorem WellFormed.lengths (wellFormed : hello.WellFormed) (block : Bytes) :
    uint8 (hello.fixed ++ block) 34 = hello.sessionId.length ∧
      uint16 (hello.fixed ++ block) (35 + hello.sessionId.length) =
        hello.cipherSuites.length ∧
      uint8 (hello.fixed ++ block)
          (35 + hello.sessionId.length + 2 + hello.cipherSuites.length) =
        hello.compression.length := by
  have start : (hello.version ++ hello.random).length = 34 := by
    rw [List.length_append, wellFormed.version, wellFormed.random]
  have behindId : (hello.version ++ hello.random ++
      vector8 hello.sessionId).length = 35 + hello.sessionId.length := by
    rw [List.length_append, start, vector8, List.length_append]
    simp only [write8, List.length_singleton]
    omega
  have behindSuites : (hello.version ++ hello.random ++
      vector8 hello.sessionId ++ vector16 hello.cipherSuites).length =
        35 + hello.sessionId.length + 2 + hello.cipherSuites.length := by
    rw [List.length_append, behindId, vector16, List.length_append]
    simp only [write16, List.length_cons, List.length_nil]
    omega
  refine ⟨?_, ?_, ?_⟩
  · have found := uint8_behind wellFormed.sessionId
      (hello.version ++ hello.random) (hello.sessionId ++
        (vector16 hello.cipherSuites ++ (vector8 hello.compression ++ block)))
      start
    simpa only [fixed, vector8, List.append_assoc] using found
  · have found := uint16_behind wellFormed.cipherSuites _
      (hello.cipherSuites ++ (vector8 hello.compression ++ block)) behindId
    simpa only [fixed, vector16, List.append_assoc] using found
  · have found := uint8_behind wellFormed.compression _
      (hello.compression ++ block) behindSuites
    simpa only [fixed, vector8, List.append_assoc] using found

/-- What the parser makes of what it has found. -/
def reported (found : TLSInfo) : Option TLSInfo :=
  if found.sni = [] ∧ found.alpn = [] then none else some found

theorem WellFormed.tlsBody (wellFormed : hello.WellFormed) :
    Dpid.tlsBody toLower hello.body =
      reported (hello.sent.foldl (Extension.found toLower) {}) := by
  have fixedLength := wellFormed.length_fixed
  cases extensions : hello.extensions with
  | none =>
      have body : hello.body = hello.fixed ++ [] := by
        rw [ClientHello.body, extensions]
      have length : (hello.fixed ++ []).length = 38 + hello.sessionId.length +
          hello.cipherSuites.length + hello.compression.length := by
        rw [List.append_nil, fixedLength]
      obtain ⟨sidLen, csLen, cmLen⟩ := wellFormed.lengths []
      rw [body, Dpid.tlsBody, if_neg (by omega)]
      simp only [sidLen, csLen]
      rw [if_neg (by omega), if_neg (by omega), if_pos (by omega), sent,
        extensions]
      rfl
  | some extensions' =>
      have sentAll : hello.sent = extensions' := by
        rw [sent, extensions, Option.getD_some]
      have block := wellFormed.block
      have fits := wellFormed.fits
      rw [sentAll] at block fits ⊢
      generalize later : extensions'.flatMap Extension.encode = ext at block
      have body : hello.body =
          hello.fixed ++ (write16 ext.length ++ ext) := by
        rw [ClientHello.body, extensions, ← later]
        rfl
      have length : (hello.fixed ++ (write16 ext.length ++ ext)).length =
          40 + hello.sessionId.length + hello.cipherSuites.length +
            hello.compression.length + ext.length := by
        rw [List.length_append, List.length_append]
        simp only [write16, List.length_cons, List.length_nil]
        omega
      obtain ⟨sidLen, csLen, cmLen⟩ :=
        wellFormed.lengths (write16 ext.length ++ ext)
      have extLen : uint16 (hello.fixed ++ (write16 ext.length ++ ext))
          (35 + hello.sessionId.length + 2 + hello.cipherSuites.length + 1 +
            hello.compression.length) = ext.length :=
        uint16_behind block _ ext (by omega)
      have extSlice : slice (hello.fixed ++ (write16 ext.length ++ ext))
          (35 + hello.sessionId.length + 2 + hello.cipherSuites.length + 1 +
            hello.compression.length + 2)
          (35 + hello.sessionId.length + 2 + hello.cipherSuites.length + 1 +
            hello.compression.length + 2 + ext.length) = ext := by
        have start : (hello.fixed ++ write16 ext.length).length =
            35 + hello.sessionId.length + 2 + hello.cipherSuites.length + 1 +
              hello.compression.length + 2 := by
          rw [List.length_append]
          simp only [write16, List.length_cons, List.length_nil]
          omega
        have whole := slice_behind (hello.fixed ++ write16 ext.length) ext []
          start rfl
        rwa [List.append_nil, List.append_assoc] at whole
      rw [body, Dpid.tlsBody, if_neg (by omega)]
      simp only [sidLen, csLen, cmLen, extLen, extSlice]
      rw [if_neg (by omega), if_neg (by omega), if_neg (by omega),
        if_neg (by omega), ← later, tlsExtensions_encode fits]
      rfl

theorem length_handshake (hello : ClientHello) :
    hello.handshake.length = 4 + hello.body.length := by
  rw [handshake, List.length_append]
  rfl

/-- The length of the message is read from its three bytes. -/
theorem bodyLen_handshake
    (small : hello.body.length < 16777216) (others : Bytes) :
    uint8 (hello.handshake ++ others) 1 * 65536 +
      uint8 (hello.handshake ++ others) 2 * 256 +
      uint8 (hello.handshake ++ others) 3 = hello.body.length := by
  rw [handshake]
  simp only [uint8, window, value, write8, write24, List.cons_append,
    List.nil_append, List.drop_succ_cons, List.drop_zero, List.take_succ_cons,
    List.take_zero, List.foldl_cons, List.foldl_nil, UInt8.toNat_ofNat']
  omega

theorem parseTLSClientHello_record {version others behind : Bytes}
    (twoBytes : version.length = 2)
    (single : (hello.handshake ++ others).length < 65536) :
    parseTLSClientHello toLower (hello.record version others ++ behind) =
      Dpid.tlsBody toLower hello.body := by
  have handshakeLength := hello.length_handshake
  rw [List.length_append] at single
  have type : uint8 (hello.handshake ++ others) 0 = 0x01 := by
    exact uint8_behind (by decide) [] _ rfl
  have bodyLen := @bodyLen_handshake hello (by omega) others
  have message : slice (hello.handshake ++ others) 4
      (4 + hello.body.length) = hello.body := by
    have whole := slice_behind (write8 0x01 ++ write24 hello.body.length)
      hello.body others rfl (rfl : 4 + hello.body.length = _)
    rwa [← List.append_assoc] at whole
  generalize content : hello.handshake ++ others = hs at type bodyLen message
  have length : hs.length = 4 + hello.body.length + others.length := by
    rw [← content, List.length_append, handshakeLength]
  have layout : hello.record version others ++ behind =
      write8 0x16 ++ (version ++ (write16 hs.length ++ (hs ++ behind))) := by
    simp only [record, vector16, content, List.append_assoc]
  have recordType : uint8 (hello.record version others ++ behind) 0 =
      0x16 := by
    exact uint8_behind (by decide) [] _ rfl
  have start : (write8 0x16 ++ version).length = 3 := by
    rw [List.length_append, twoBytes]
    rfl
  have recLen : uint16 (hello.record version others ++ behind) 3 =
      hs.length := by
    rw [layout, ← List.append_assoc]
    exact uint16_behind (by omega) _ _ start
  have record : slice (hello.record version others ++ behind) 5
      (5 + hs.length) = hs := by
    rw [layout, ← List.append_assoc, ← List.append_assoc]
    apply slice_behind _ _ _ _ rfl
    rw [List.length_append, start]
    rfl
  have total : (hello.record version others ++ behind).length =
      5 + hs.length + behind.length := by
    rw [layout, ← List.append_assoc, ← List.append_assoc, List.length_append,
      List.length_append, start, List.length_append]
    simp only [write16, List.length_cons, List.length_nil]
    omega
  rw [parseTLSClientHello, if_neg (by omega)]
  simp only [recLen, record]
  rw [if_neg (by omega), if_neg (by omega)]
  simp only [bodyLen, message]
  rw [if_neg (by omega)]

end ClientHello

/-- Of every ClientHello in one record the parser reports the host name in
lower case and the protocols in order, and nothing when both are empty. -/
theorem parseTLSClientHello_sent
    (ascii : ∀ text, (∀ c ∈ text, c < 128) → toLower text = asciiLower text)
    {hello : ClientHello} (wellFormed : hello.WellFormed)
    {version others : Bytes} (twoBytes : version.length = 2)
    (single : (hello.handshake ++ others).length < 65536) (behind : Bytes) :
    parseTLSClientHello toLower (hello.record version others ++ behind) =
      if (hostName hello.sent).getD [] = [] ∧
          (alpnProtocols hello.sent).getD [] = [] then none
      else some
        { sni := asciiLower ((hostName hello.sent).getD [])
          alpn := (alpnProtocols hello.sent).getD [] } := by
  have lowered : (hostName hello.sent).elim [] toLower =
      asciiLower ((hostName hello.sent).getD []) := by
    cases sent : hostName hello.sent with
    | none => rfl
    | some host =>
        obtain ⟨extension, member, isHost⟩ := List.exists_of_findSome?_eq_some
          sent
        apply ascii
        cases extension with
        | serverName host' =>
            exact (wellFormed.fits _ member).host host
              (congrArg Extension.serverName isHost)
        | alpn protocols => cases isHost
        | other type data => cases isHost
  rw [ClientHello.parseTLSClientHello_record twoBytes single,
    wellFormed.tlsBody, foldl_found wellFormed.noTypeTwice,
    ClientHello.reported]
  simp only [lowered, List.nil_append, asciiLower, List.map_eq_nil_iff]

end

/-- A ClientHello for the host `Ab` and the protocol `h2`. -/
def sampleHello : ClientHello where
  version := [3, 3]
  random := List.replicate 32 7
  sessionId := [9]
  cipherSuites := [0x13, 1]
  compression := [0]
  extensions := some
    [.alpn [[104, 50]], .other 43 [2, 3, 4], .serverName (some [65, 98])]

theorem sampleHello_wellFormed : sampleHello.WellFormed := by
  refine ⟨rfl, rfl, by decide, by decide, by decide, by decide, ?_, by decide⟩
  intro extension member
  simp only [ClientHello.sent, sampleHello, Option.getD_some, List.mem_cons,
    List.not_mem_nil, or_false] at member
  rcases member with rfl | rfl | rfl
  · refine ⟨by decide, by decide, by simp, ?_, by simp⟩
    intro protocols same
    cases same
    decide
  · exact ⟨by decide, by decide, by simp, by simp, by simp⟩
  · refine ⟨by decide, by decide, ?_, by simp, by simp⟩
    intro host same
    cases same
    have all : ([65, 98] : Bytes).all (· < 128) = true := rfl
    exact fun c member => of_decide_eq_true (List.all_eq_true.mp all c member)

theorem parseTLSClientHello_sample :
    parseTLSClientHello asciiLower
        (sampleHello.record [3, 1] [] ++ [20, 3, 3]) =
      some { sni := [97, 98], alpn := [[104, 50]] } :=
  parseTLSClientHello_sent (fun _ _ => rfl) sampleHello_wellFormed rfl
    (by decide) _

end Dpid
