import Hnc.Lib.Chain
import Hnc.Lib.Posix

/-!
# Hardware and network addresses

The scripts pass addresses around as text.  `Mac` and `Ipv4` are the texts
that name an address: a lower-case hardware address of six bytes, and four
decimal octets without leading zeros.
-/

namespace Hnc

open Posix

/-- The class `[0-9.]`. -/
def isNumberChar (c : Char) : Bool :=
  isDigit c || c == '.'

def isLowerHex (c : Char) : Bool :=
  isDigit c || ('a'.toNat ≤ c.toNat && c.toNat ≤ 'f'.toNat)

def isLowerMac : Text → Bool
  | [a, b, s, c, d, t, e, f, u, g, h, v, i, j, w, k, l] =>
      [a, b, c, d, e, f, g, h, i, j, k, l].all isLowerHex &&
        [s, t, u, v, w].all (· == ':')
  | _ => false

/-- A lower-case MAC address. -/
structure Mac where
  text : Text
  shape : isLowerMac text = true
deriving DecidableEq

/-- The value of a decimal numeral. -/
def decimal (digits : Text) : Nat :=
  digits.foldl (fun value c => 10 * value + (c.toNat - '0'.toNat)) 0

def isOctet (part : Text) : Bool :=
  part != [] && part.all isDigit && (part.length == 1 || part.head? != some '0') &&
    decimal part ≤ 255

def isDottedQuad (text : Text) : Bool :=
  (fields '.' text).length == 4 && (fields '.' text).all isOctet

/-- A dotted IPv4 address. -/
structure Ipv4 where
  text : Text
  shape : isDottedQuad text = true
deriving DecidableEq

theorem Mac.ext_text {left right : Mac} (same : left.text = right.text) :
    left = right := by
  cases left
  cases right
  simpa using same

theorem Ipv4.ext_text {left right : Ipv4} (same : left.text = right.text) :
    left = right := by
  cases left
  cases right
  simpa using same

theorem Mac.chars (mac : Mac) :
    ∀ c ∈ mac.text, isLowerHex c = true ∨ c = ':' := by
  obtain ⟨text, shape⟩ := mac
  unfold isLowerMac at shape
  split at shape
  · simp only [beq_iff_eq] at shape
    intro c member
    simp only [List.mem_cons, List.not_mem_nil, or_false] at member
    rcases member with rfl | rfl | rfl | rfl | rfl | rfl | rfl | rfl | rfl | rfl |
      rfl | rfl | rfl | rfl | rfl | rfl | rfl <;> simp_all
  · simp at shape

theorem Mac.not_mem (mac : Mac) {c : Char} (hex : isLowerHex c = false)
    (other : c ≠ ':') : c ∉ mac.text := by
  intro member
  rcases mac.chars c member with digit | same
  · rw [hex] at digit
    cases digit
  · exact other same

theorem Mac.text_length (mac : Mac) : mac.text.length = 17 := by
  obtain ⟨text, shape⟩ := mac
  unfold isLowerMac at shape
  split at shape
  · rfl
  · simp at shape

theorem Mac.last_hex (mac : Mac) :
    ∃ front c, mac.text = front ++ [c] ∧ isLowerHex c = true := by
  obtain ⟨text, shape⟩ := mac
  unfold isLowerMac at shape
  split at shape
  · rename_i a b s c d t e f u g h v i j w k l
    simp only [List.all_cons, List.all_nil, Bool.and_true,
      Bool.and_eq_true] at shape
    exact ⟨[a, b, s, c, d, t, e, f, u, g, h, v, i, j, w, k], l, rfl,
      shape.1.2.2.2.2.2.2.2.2.2.2.2⟩
  · simp at shape

theorem Mac.text_ne_nil (mac : Mac) : mac.text ≠ [] := by
  intro empty
  have length := mac.text_length
  simp [empty] at length

theorem toLower_of_hex {c : Char} (hex : isLowerHex c = true ∨ c = ':') :
    c.toLower = c := by
  have outside : ¬('A'.val ≤ c.val ∧ c.val ≤ 'Z'.val) := by
    rintro ⟨low, high⟩
    have lowNat : 65 ≤ c.toNat := UInt32.le_iff_toNat_le.mp low
    have highNat : c.toNat ≤ 90 := UInt32.le_iff_toNat_le.mp high
    rcases hex with digit | rfl
    · have bounds : (48 ≤ c.toNat ∧ c.toNat ≤ 57) ∨
          (97 ≤ c.toNat ∧ c.toNat ≤ 102) := by
        simpa [isLowerHex, isDigit] using digit
      omega
    · exact absurd lowNat (by decide)
  exact dif_neg outside

theorem toLower_mac (mac : Mac) : mac.text.map Char.toLower = mac.text := by
  have same : ∀ c ∈ mac.text, Char.toLower c = id c :=
    fun c member => toLower_of_hex (mac.chars c member)
  rw [List.map_congr_left same, List.map_id]

theorem Ipv4.chars (ip : Ipv4) :
    ∀ c ∈ ip.text, isDigit c = true ∨ c = '.' := by
  intro c member
  have shape := ip.shape
  simp only [isDottedQuad, Bool.and_eq_true, List.all_eq_true] at shape
  rcases mem_fields '.' member with dot | ⟨part, listed, inside⟩
  · exact .inr dot
  · have octet := shape.2 part listed
    simp only [isOctet, Bool.and_eq_true, List.all_eq_true] at octet
    exact .inl (octet.1.1.2 c inside)

theorem Ipv4.text_ne_nil (ip : Ipv4) : ip.text ≠ [] := by
  intro empty
  have shape := ip.shape
  simp [empty, isDottedQuad, fields] at shape

/-! ### Two devices and three addresses for concrete runs -/

def phone : Mac :=
  ⟨"aa:bb:cc:dd:ee:01".toList, by decide⟩

def tablet : Mac :=
  ⟨"aa:bb:cc:dd:ee:02".toList, by decide⟩

def phoneIp : Ipv4 :=
  ⟨"192.168.43.5".toList, by decide⟩

def tabletIp : Ipv4 :=
  ⟨"192.168.43.6".toList, by decide⟩

def spareIp : Ipv4 :=
  ⟨"192.168.43.7".toList, by decide⟩

end Hnc

/-!
## The netfilter chains of HNC

Data model of the chains that `iptables_manager.sh` owns, and what a packet
meets on its way through them.  Addresses are kept as the texts the commands
were given; `iptables -S` prints them back with the suffix `/32`.
-/

namespace Hnc

open Posix

/-- A rule of `HNC_MARK`: `-s`, `-d`, `-m mac --mac-source`, `-m mark --mark 0`
and `-j MARK --set-mark`. -/
structure MarkRule where
  src : Option Text
  dst : Option Text
  macSource : Option Text
  unmarked : Bool
  setMark : Nat
deriving DecidableEq, Repr

/-- A rule of `HNC_STATS`: `-s` or `-d`, and `-j RETURN`. -/
structure StatRule where
  src : Option Text
  dst : Option Text
deriving DecidableEq, Repr

/-- A statistics rule with its byte counter. -/
structure Counted where
  rule : StatRule
  bytes : Nat
deriving DecidableEq, Repr

inductive Verdict where
  | drop
  | reject
deriving DecidableEq, Repr

/-- A rule of `HNC_CTRL`; `tcp` is `-p tcp`. -/
structure CtrlRule where
  src : Option Text
  dst : Option Text
  macSource : Option Text
  tcp : Bool
  target : Verdict
deriving DecidableEq, Repr

/-- The chains, for both protocols where both have them. -/
structure Tables where
  ipv6Ok : Bool
  hncMark : List MarkRule
  hncMark6 : List MarkRule
  hncStats : List Counted
  hncCtrl : List CtrlRule
  hncCtrl6 : List CtrlRule
deriving DecidableEq, Repr

/-- The chains after `iptables_manager.sh init`. -/
def Tables.init (ipv6Ok : Bool) : Tables :=
  ⟨ipv6Ok, [], [], [], [], []⟩

/-- A forwarded IPv4 packet as the chains see it. -/
structure Packet where
  srcMac : Text
  src : Text
  dst : Text
  tcp : Bool
  mark : Nat
  bytes : Nat
deriving DecidableEq, Repr

def addressMatches (wanted : Option Text) (actual : Text) : Bool :=
  match wanted with
  | none => true
  | some address => address == actual

def MarkRule.accepts (rule : MarkRule) (packet : Packet) (mark : Nat) : Bool :=
  addressMatches rule.src packet.src && addressMatches rule.dst packet.dst &&
    addressMatches rule.macSource packet.srcMac &&
    (!rule.unmarked || mark == 0)

/-- The mark after one rule: `MARK` does not end the traversal. -/
def MarkRule.apply (packet : Packet) (mark : Nat) (rule : MarkRule) : Nat :=
  if rule.accepts packet mark then rule.setMark else mark

/-- The mark with which a packet leaves `HNC_MARK`. -/
def markOf (chain : List MarkRule) (packet : Packet) : Nat :=
  chain.foldl (MarkRule.apply packet) packet.mark

def CtrlRule.accepts (rule : CtrlRule) (packet : Packet) : Bool :=
  addressMatches rule.src packet.src && addressMatches rule.dst packet.dst &&
    addressMatches rule.macSource packet.srcMac && (!rule.tcp || packet.tcp)

/-- A packet that some rule of `HNC_CTRL` matches is dropped or reset. -/
def dropped (chain : List CtrlRule) (packet : Packet) : Bool :=
  chain.any fun rule => rule.accepts packet

def StatRule.accepts (rule : StatRule) (packet : Packet) : Bool :=
  addressMatches rule.src packet.src && addressMatches rule.dst packet.dst

/-- `RETURN` ends the traversal, so only the first matching rule counts the
packet. -/
def countPacket (packet : Packet) : List Counted → List Counted
  | [] => []
  | entry :: rest =>
      if entry.rule.accepts packet then
        { entry with bytes := entry.bytes + packet.bytes } :: rest
      else entry :: countPacket packet rest

end Hnc
