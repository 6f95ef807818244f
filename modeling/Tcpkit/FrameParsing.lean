import Tcpkit.PacketHandler

/-! What parsing computes on a capture that is as long as its header says: the
exact acceptance conditions and the packet that is built. -/

namespace Tcpkit

open MachineInt

def byte (p : List UInt8) (i : Nat) : UInt8 := p.getD i 0

def be16 (p : List UInt8) (i : Nat) : UInt16 :=
  UInt16.ofNat ((byte p i).toNat * 256 + (byte p (i + 1)).toNat)

def be32 (p : List UInt8) (i : Nat) : UInt32 :=
  UInt32.ofNat ((byte p i).toNat * 16777216 + (byte p (i + 1)).toNat * 65536 +
    (byte p (i + 2)).toNat * 256 + (byte p (i + 3)).toNat)

def le32 (p : List UInt8) (i : Nat) : UInt32 :=
  UInt32.ofNat ((byte p i).toNat + (byte p (i + 1)).toNat * 256 +
    (byte p (i + 2)).toNat * 65536 + (byte p (i + 3)).toNat * 16777216)

theorem getElem?_eq_byte {p : List UInt8} {i : Nat} (h : i < p.length) : p[i]? = some (byte p i) := by
  simp [byte, h]

theorem be16At_eq {p : List UInt8} {i : Nat} (h : i + 1 < p.length) :
    be16At p i = some (be16 p i) := by
  simp [be16At, getElem?_eq_byte (show i < p.length by omega), getElem?_eq_byte h, be16]

theorem be32At_eq {p : List UInt8} {i : Nat} (h : i + 3 < p.length) :
    be32At p i = some (be32 p i) := by
  simp [be32At, getElem?_eq_byte (show i < p.length by omega),
    getElem?_eq_byte (show i + 1 < p.length by omega), getElem?_eq_byte (show i + 2 < p.length by omega),
    getElem?_eq_byte h, be32]

theorem le32At_eq {p : List UInt8} {i : Nat} (h : i + 3 < p.length) :
    le32At p i = some (le32 p i) := by
  simp [le32At, getElem?_eq_byte (show i < p.length by omega),
    getElem?_eq_byte (show i + 1 < p.length by omega), getElem?_eq_byte (show i + 2 < p.length by omega),
    getElem?_eq_byte h, le32]

def ipHeader (ip : List UInt8) : Int := iphdrSize (byte ip 0)

def transport (ip : List UInt8) : List UInt8 := ip.drop (ipHeader ip).toNat

def tcpHeader (ip : List UInt8) : Int := tcphdrSize (byte (transport ip) 12)

theorem ipHeader_range (ip : List UInt8) : 0 ≤ ipHeader ip ∧ ipHeader ip ≤ 60 := by
  have h : (byte ip 0 &&& 0x0f).toNat ≤ 15 := by
    rw [UInt8.toNat_and]
    exact Nat.and_le_right
  rw [ipHeader, iphdrSize]
  omega

theorem tcpHeader_range (ip : List UInt8) : 0 ≤ tcpHeader ip ∧ tcpHeader ip ≤ 60 := by
  have h : (byte (transport ip) 12 >>> 4).toNat ≤ 15 := by
    have hb := (byte (transport ip) 12).toNat_lt
    simp only [UInt8.toNat_shiftRight, UInt8.reduceToNat, Nat.reduceMod, Nat.shiftRight_eq_div_pow]
    omega
  rw [tcpHeader, tcphdrSize]
  omega

/-- The checks of `process_tcp_packet`, with what each of them compares. -/
def TcpAccepted (ip : List UInt8) (caplen wirelen : Int) : Prop :=
  20 ≤ ipHeader ip ∧ ipHeader ip + 20 ≤ caplen ∧ 20 ≤ tcpHeader ip ∧
    ipHeader ip + tcpHeader ip ≤ caplen ∧ ipHeader ip + tcpHeader ip ≤ (be16 ip 2).toNat ∧
    (be16 ip 2).toNat ≤ wirelen

instance (ip : List UInt8) (caplen wirelen : Int) : Decidable (TcpAccepted ip caplen wirelen) :=
  inferInstanceAs (Decidable (_ ∧ _ ∧ _ ∧ _ ∧ _ ∧ _))

def tcpParsed (layout : TcpLayout) (tv : Timeval) (ip : List UInt8) (caplen : Int)
    (packet : UserPacket) : UserPacket :=
  let wire := (be16 ip 2).toNat - ipHeader ip - tcpHeader ip
  { packet with
    tv := tv, ipSrc := le32 ip 12, ipDst := le32 ip 16
    seq := be32 (transport ip) 4, ack := be32 (transport ip) 8
    flags := tcpFlags layout (byte (transport ip) 13)
    portSrc := be16 (transport ip) 0, portDst := be16 (transport ip) 2
    window := be16 (transport ip) 14, wirePayloadSize := wire
    payload := (transport ip).drop (tcpHeader ip).toNat
    payloadSize := min wire (caplen - ipHeader ip - tcpHeader ip), isTcp := true }

theorem if_lt_eq_min (a b : Int) : (if a < b then a else b) = min a b := by
  split <;> omega

theorem readIpAddrs_eq {ip : List UInt8} (h : 20 ≤ ip.length) :
    readIpAddrs ip = some ⟨le32 ip 12, le32 ip 16⟩ := by
  simp [readIpAddrs, le32At_eq (show 12 + 3 < ip.length by omega),
    le32At_eq (show 16 + 3 < ip.length by omega)]

theorem readTcphdr_eq {p : List UInt8} (h : 20 ≤ p.length) :
    readTcphdr p =
      some ⟨be32 p 4, be32 p 8, byte p 13, be16 p 0, be16 p 2, be16 p 14, byte p 12⟩ := by
  simp [readTcphdr, be32At_eq (show 4 + 3 < p.length by omega), be32At_eq (show 8 + 3 < p.length by omega),
    getElem?_eq_byte (show 13 < p.length by omega), be16At_eq (show 0 + 1 < p.length by omega),
    be16At_eq (show 2 + 1 < p.length by omega), be16At_eq (show 14 + 1 < p.length by omega),
    getElem?_eq_byte (show 12 < p.length by omega)]

theorem readUdphdr_eq {p : List UInt8} (h : 8 ≤ p.length) :
    readUdphdr p = some ⟨be16 p 0, be16 p 2, be16 p 4⟩ := by
  simp [readUdphdr, be16At_eq (show 0 + 1 < p.length by omega), be16At_eq (show 2 + 1 < p.length by omega),
    be16At_eq (show 4 + 1 < p.length by omega)]

/-- Nothing outside the capture is read, and acceptance is exactly the six
comparisons. -/
theorem processTcpPacket_eq (layout : TcpLayout) (tv : Timeval) {ip : List UInt8} {caplen : Int}
    (wirelen : Int) (packet : UserPacket) (hmin : 20 ≤ caplen) (hcap : caplen ≤ ip.length) :
    processTcpPacket layout tv ip caplen wirelen packet =
      some (if TcpAccepted ip caplen wirelen then some (tcpParsed layout tv ip caplen packet)
        else none) := by
  have hr := ipHeader_range ip
  have h0 : ip[0]?.map iphdrSize = some (ipHeader ip) := by
    rw [getElem?_eq_byte (show 0 < ip.length by omega)]
    rfl
  rw [processTcpPacket, h0]
  simp only [Option.bind_eq_bind, Option.bind_some, Option.pure_def, iphdrMin, tcphdrMin]
  by_cases h1 : ipHeader ip < 20
  · rw [if_pos h1, if_neg (fun h => by have := h.1; omega)]
  by_cases h2 : caplen < ipHeader ip + 20
  · rw [if_neg h1, if_pos h2, if_neg (fun h => by have := h.2.1; omega)]
  have hlen : 20 ≤ (ip.drop (ipHeader ip).toNat).length := by
    rw [List.length_drop]
    omega
  have hoff : tcphdrSize (byte (ip.drop (ipHeader ip).toNat) 12) = tcpHeader ip := rfl
  rw [if_neg h1, if_neg h2, readIpAddrs_eq (by omega), Option.bind_some, readTcphdr_eq hlen,
    Option.bind_some, hoff, be16At_eq (by omega), Option.map_some, Option.bind_some]
  by_cases h3 : tcpHeader ip < 20
  · rw [if_pos h3, if_neg (fun h => by have := h.2.2.1; omega)]
  by_cases h4 : caplen < ipHeader ip + tcpHeader ip
  · rw [if_neg h3, if_pos h4, if_neg (fun h => by have := h.2.2.2.1; omega)]
  by_cases h5 : (be16 ip 2).toNat < ipHeader ip + tcpHeader ip ∨ (be16 ip 2).toNat > wirelen
  · rw [if_neg h3, if_neg h4, if_pos h5, if_neg (fun h => by
      have := h.2.2.2.2
      omega)]
  · have hacc : TcpAccepted ip caplen wirelen := by
      refine ⟨?_, ?_, ?_, ?_, ?_, ?_⟩ <;> omega
    rw [if_neg h3, if_neg h4, if_neg h5, if_pos hacc, if_lt_eq_min]
    rfl

def udpLength (ip : List UInt8) : Int := (be16 (transport ip) 4).toNat

def UdpAccepted (ip : List UInt8) (caplen wirelen : Int) : Prop :=
  20 ≤ ipHeader ip ∧ ipHeader ip + 8 ≤ caplen ∧ 8 ≤ udpLength ip ∧
    ipHeader ip + udpLength ip ≤ wirelen

instance (ip : List UInt8) (caplen wirelen : Int) : Decidable (UdpAccepted ip caplen wirelen) :=
  inferInstanceAs (Decidable (_ ∧ _ ∧ _ ∧ _))

def udpParsed (tv : Timeval) (ip : List UInt8) (caplen : Int) (packet : UserPacket) : UserPacket :=
  { packet with
    tv := tv, ipSrc := le32 ip 12, ipDst := le32 ip 16
    portSrc := be16 (transport ip) 0, portDst := be16 (transport ip) 2
    wirePayloadSize := udpLength ip - 8, payload := (transport ip).drop 8
    payloadSize := min (udpLength ip - 8) (caplen - ipHeader ip - 8), isTcp := false }

theorem processUdpPacket_eq (tv : Timeval) {ip : List UInt8} {caplen : Int}
    (wirelen : Int) (packet : UserPacket) (hmin : 20 ≤ caplen) (hcap : caplen ≤ ip.length) :
    processUdpPacket tv ip caplen wirelen packet =
      some (if UdpAccepted ip caplen wirelen then some (udpParsed tv ip caplen packet)
        else none) := by
  have hr := ipHeader_range ip
  have h0 : ip[0]?.map iphdrSize = some (ipHeader ip) := by
    rw [getElem?_eq_byte (show 0 < ip.length by omega)]
    rfl
  rw [processUdpPacket, h0]
  simp only [Option.bind_eq_bind, Option.bind_some, Option.pure_def, iphdrMin, udphdrSize]
  by_cases h1 : ipHeader ip < 20
  · rw [if_pos h1, if_neg (fun h => by have := h.1; omega)]
  by_cases h2 : caplen < ipHeader ip + 8
  · rw [if_neg h1, if_pos h2, if_neg (fun h => by have := h.2.1; omega)]
  have hlen : 8 ≤ (ip.drop (ipHeader ip).toNat).length := by
    rw [List.length_drop]
    omega
  have hul : ((be16 (ip.drop (ipHeader ip).toNat) 4).toNat : Int) = udpLength ip := rfl
  rw [if_neg h1, if_neg h2, readIpAddrs_eq (by omega), Option.bind_some, readUdphdr_eq hlen,
    Option.bind_some]
  simp only [hul]
  by_cases h3 : udpLength ip < 8
  · rw [if_pos h3, if_neg (fun h => by have := h.2.2.1; omega)]
  by_cases h4 : ipHeader ip + udpLength ip > wirelen
  · rw [if_neg h3, if_pos h4, if_neg (fun h => by have := h.2.2.2; omega)]
  · have hacc : UdpAccepted ip caplen wirelen := by
      refine ⟨?_, ?_, ?_, ?_⟩ <;> omega
    rw [if_neg h3, if_neg h4, if_pos hacc, if_lt_eq_min]
    rfl

end Tcpkit
