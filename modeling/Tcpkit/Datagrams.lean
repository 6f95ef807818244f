import Tcpkit.HeaderFields
import Tcpkit.Matching
import Tcpkit.QuietPackets

/-! Frames that are no TCP segments of their own: the later fragments of a datagram, and UDP. The
statistics know neither the fragment offset nor the protocol of an endpoint. -/

namespace Tcpkit

theorem byte_set_of_ne {p : List UInt8} {i j : Nat} (h : i ≠ j) (x : UInt8) :
    byte (p.set i x) j = byte p j := by
  simp [byte, List.getD_eq_getElem?_getD, List.getElem?_set_ne h]

theorem byte_set_self (p : List UInt8) (i : Nat) (x : UInt8) :
    byte (p.set i x) i = if i < p.length then x else 0 := by
  rw [byte, List.getD_eq_getElem?_getD, List.getElem?_set_self']
  split <;> simp_all

/-- The offset of a fragment, in units of eight bytes. -/
def fragmentOffset (ip : List UInt8) : Nat := (be16 ip 6).toNat % 8192

def clearOffset (ip : List UInt8) : List UInt8 := (ip.set 6 (byte ip 6 &&& 0xe0)).set 7 0

section Clear

variable (ip : List UInt8)

theorem length_clearOffset : (clearOffset ip).length = ip.length := by
  rw [clearOffset, List.length_set, List.length_set]

theorem byte_clearOffset {i : Nat} (h6 : i ≠ 6) (h7 : i ≠ 7) : byte (clearOffset ip) i = byte ip i := by
  rw [clearOffset, byte_set_of_ne h7.symm, byte_set_of_ne h6.symm]

theorem drop_clearOffset {n : Nat} (h : 8 ≤ n) : (clearOffset ip).drop n = ip.drop n := by
  rw [clearOffset, List.drop_set_of_lt (by omega), List.drop_set_of_lt (by omega)]

theorem highBits_mod (b : UInt8) : (b &&& 0xe0).toNat % 32 = 0 := by
  have hall : ∀ n < 256, (UInt8.ofNat n &&& 0xe0).toNat % 32 = 0 := by decide +kernel
  simpa using hall b.toNat b.toNat_lt

theorem fragmentOffset_clearOffset : fragmentOffset (clearOffset ip) = 0 := by
  have h6 : (byte (clearOffset ip) 6).toNat % 32 = 0 := by
    rw [clearOffset, byte_set_of_ne (by decide), byte_set_self]
    split
    · exact highBits_mod _
    · rfl
  have h7 : byte (clearOffset ip) 7 = 0 := by
    rw [clearOffset, byte_set_self, ite_self]
  have hlt := (byte (clearOffset ip) 6).toNat_lt
  rw [fragmentOffset, be16, h7, UInt16.toNat_ofNat_of_lt' (by rw [UInt16.size]; simp; omega)]
  simp
  omega

theorem ipHeader_clearOffset : ipHeader (clearOffset ip) = ipHeader ip := by
  rw [ipHeader, byte_clearOffset ip (by decide) (by decide), ipHeader]

theorem transport_clearOffset (h : 20 ≤ ipHeader ip) : transport (clearOffset ip) = transport ip := by
  rw [transport, ipHeader_clearOffset, drop_clearOffset ip (by omega), transport]

theorem be16_clearOffset : be16 (clearOffset ip) 2 = be16 ip 2 := by
  rw [be16, byte_clearOffset ip (by decide) (by decide), byte_clearOffset ip (by decide) (by decide), be16]

theorem le32_clearOffset {i : Nat} (h : 8 ≤ i) : le32 (clearOffset ip) i = le32 ip i := by
  simp only [le32, byte_clearOffset ip (show i ≠ 6 by omega) (show i ≠ 7 by omega),
    byte_clearOffset ip (show i + 1 ≠ 6 by omega) (show i + 1 ≠ 7 by omega),
    byte_clearOffset ip (show i + 2 ≠ 6 by omega) (show i + 2 ≠ 7 by omega),
    byte_clearOffset ip (show i + 3 ≠ 6 by omega) (show i + 3 ≠ 7 by omega)]

theorem tcpAccepted_clearOffset (caplen wirelen : Int) :
    TcpAccepted (clearOffset ip) caplen wirelen ↔ TcpAccepted ip caplen wirelen := by
  rw [TcpAccepted, TcpAccepted, ipHeader_clearOffset, be16_clearOffset]
  refine and_congr_right fun h => ?_
  rw [tcpHeader, transport_clearOffset ip h, tcpHeader]

theorem udpAccepted_clearOffset (caplen wirelen : Int) :
    UdpAccepted (clearOffset ip) caplen wirelen ↔ UdpAccepted ip caplen wirelen := by
  rw [UdpAccepted, UdpAccepted, ipHeader_clearOffset]
  refine and_congr_right fun h => ?_
  rw [udpLength, transport_clearOffset ip h, udpLength]

theorem tcpParsed_clearOffset (h : 20 ≤ ipHeader ip) (layout : TcpLayout) (tv : Timeval) (caplen : Int)
    (packet : UserPacket) :
    tcpParsed layout tv (clearOffset ip) caplen packet = tcpParsed layout tv ip caplen packet := by
  simp only [tcpParsed, tcpHeader, transport_clearOffset ip h, ipHeader_clearOffset, be16_clearOffset,
    le32_clearOffset ip (show 8 ≤ 12 by decide), le32_clearOffset ip (show 8 ≤ 16 by decide)]

theorem udpParsed_clearOffset (h : 20 ≤ ipHeader ip) (tv : Timeval) (caplen : Int) (packet : UserPacket) :
    udpParsed tv (clearOffset ip) caplen packet = udpParsed tv ip caplen packet := by
  simp only [udpParsed, udpLength, transport_clearOffset ip h, ipHeader_clearOffset,
    le32_clearOffset ip (show 8 ≤ 12 by decide), le32_clearOffset ip (show 8 ≤ 16 by decide)]

end Clear

namespace CapturedFrame

def ip (datalink : LinkType) (f : CapturedFrame) : List UInt8 :=
  f.bytes.drop ((linkhdrSize datalink).getD 0)

theorem length_clearIp (n : Nat) (bytes : List UInt8) :
    (bytes.take n ++ clearOffset (bytes.drop n)).length = bytes.length := by
  rw [List.length_append, length_clearOffset, ← List.length_append, List.take_append_drop]

def withoutOffset (datalink : LinkType) (f : CapturedFrame) : CapturedFrame where
  header := f.header
  bytes := f.bytes.take ((linkhdrSize datalink).getD 0) ++ clearOffset (f.ip datalink)
  captured := (length_clearIp _ f.bytes).trans f.captured
  limit := f.limit
  allocs := f.allocs

theorem ip_withoutOffset (datalink : LinkType) (f : CapturedFrame) :
    (f.withoutOffset datalink).ip datalink = clearOffset (f.ip datalink) := by
  have hlength := length_clearIp ((linkhdrSize datalink).getD 0) f.bytes
  simp only [ip, withoutOffset]
  by_cases hn : (linkhdrSize datalink).getD 0 ≤ f.bytes.length
  · exact List.drop_left' (List.length_take_of_le hn)
  · rw [List.drop_of_length_le (by omega), List.drop_of_length_le (l := f.bytes) (by omega)]
    rfl

/-- The offset is not looked at: a fragment is read as if it were the first one. -/
theorem read_withoutOffset (layout : TcpLayout) (s : Sniffer) (f : CapturedFrame) :
    (f.withoutOffset s.datalink).read layout s = f.read layout s := by
  have hip := f.ip_withoutOffset s.datalink
  have hlength := length_clearIp ((linkhdrSize s.datalink).getD 0) f.bytes
  simp only [read, frameParsed]
  cases hl : linkhdrSize s.datalink with
  | none => rfl
  | some n =>
    simp only [ip, hl, Option.getD_some] at hip
    have hsame : (f.withoutOffset s.datalink).bytes.length = f.bytes.length := hlength
    have hheader : (f.withoutOffset s.datalink).header = f.header := rfl
    have htcp (caplen wirelen : Int) (packet : UserPacket) :
        (if TcpAccepted (f.bytes.drop n) caplen wirelen then
          some (tcpParsed layout f.header.ts (clearOffset (f.bytes.drop n)) caplen packet) else none) =
        if TcpAccepted (f.bytes.drop n) caplen wirelen then
          some (tcpParsed layout f.header.ts (f.bytes.drop n) caplen packet) else none :=
      ite_congr rfl (fun hacc => by rw [tcpParsed_clearOffset _ hacc.1]) fun _ => rfl
    have hudp (caplen wirelen : Int) (packet : UserPacket) :
        (if UdpAccepted (f.bytes.drop n) caplen wirelen then
          some (udpParsed f.header.ts (clearOffset (f.bytes.drop n)) caplen packet) else none) =
        if UdpAccepted (f.bytes.drop n) caplen wirelen then
          some (udpParsed f.header.ts (f.bytes.drop n) caplen packet) else none :=
      ite_congr rfl (fun hacc => by rw [udpParsed_clearOffset _ hacc.1]) fun _ => rfl
    simp only [hsame, hheader, hip, byte_clearOffset _ (show 0 ≠ 6 by decide) (show 0 ≠ 7 by decide),
      byte_clearOffset _ (show 9 ≠ 6 by decide) (show 9 ≠ 7 by decide), tcpAccepted_clearOffset,
      udpAccepted_clearOffset, htcp, hudp]

end CapturedFrame

/-- In every state and for every frame, whatever its fragment offset: the frame is read as it would
be with the offset zero, and it is noticed if and only if what is read touches the statistics. -/
theorem fragment_noticed_iff (layout : TcpLayout) (s : Sniffer) (f : CapturedFrame) :
    fragmentOffset ((f.withoutOffset s.datalink).ip s.datalink) = 0 ∧
      (f.withoutOffset s.datalink).read layout s = f.read layout s ∧
      (s.Quiet f.header.ts (f.outcome layout s) ↔
        ∀ u, f.read layout s = some u → ¬s.Touches f.allocs u) := by
  refine ⟨?_, f.read_withoutOffset layout s, f.quiet_outcome_iff layout s⟩
  rw [CapturedFrame.ip_withoutOffset]
  exact fragmentOffset_clearOffset _

theorem headers_limit : (40 : UInt32).toNat ≤ 262144 := by decide

def handshake : CapturedFrame := ⟨⟨⟨0, 0⟩, 40, 40⟩, synHeaders 0x02, rfl, headers_limit, Allocs.all⟩

/-- The middle of a datagram that spells the headers of a SYN. -/
def laterFragment : CapturedFrame :=
  ⟨⟨⟨1, 0⟩, 40, 40⟩, (synHeaders 0x02).set 7 185, rfl, headers_limit, Allocs.all⟩

theorem laterFragment_registers :
    fragmentOffset (laterFragment.ip .raw) = 185 ∧
      ¬(snifferCreate redisOptions .raw).Quiet laterFragment.header.ts
        (laterFragment.outcome .linux (snifferCreate redisOptions .raw)) := by
  refine ⟨by decide +kernel, fun hquiet => ?_⟩
  have hkept := hquiet.counters (endpointKey ⟨0x0200000a, 6379⟩)
  have hnew : ((laterFragment.outcome .linux (snifferCreate redisOptions .raw)).1.synTab.get
      (endpointKey ⟨0x0200000a, 6379⟩)).isSome = true := by decide +kernel
  rw [hkept] at hnew
  exact absurd hnew (by decide +kernel)

namespace CapturedFrame

variable {layout : TcpLayout} {s : Sniffer} {f : CapturedFrame} {u : UserPacket}

theorem syn_of_udp (h : f.read layout s = some u) (hudp : u.isTcp = false) : u.syn = false := by
  obtain ⟨n, -, ⟨-, -, rfl⟩ | ⟨-, -, rfl⟩⟩ := frameParsed_cases h
  · cases hudp
  · exact (by decide : decide ((0 : UInt8) &&& 0x02 ≠ 0) = false)

theorem touches_udp_iff (h : f.read layout s = some u) (hudp : u.isTcp = false) (a : Allocs) :
    ¬s.Touches a u ↔ s.luaState = true ∨ s.protocol = .raw ∨ u.payloadSize = 0 ∨
      ¬s.Registered u.src ∧ ¬s.Registered u.dst := by
  have hsyn := syn_of_udp h hudp
  rw [Sniffer.Touches]
  by_cases h0 : u.payloadSize = 0
  · simp [h0, hsyn]
  · rw [if_neg h0, not_and, not_and, not_or, Bool.eq_false_iff]
    tauto

theorem registered_of_outcome {e : Endpoint} (hold : ¬s.Registered e)
    (hnow : (f.outcome layout s).1.Registered e) :
    ∃ u, f.read layout s = some u ∧ u.payloadSize = 0 ∧ u.syn = true ∧ u.named = e := by
  cases hread : f.read layout s with
  | none =>
    rw [outcome_of_skipped hread] at hnow
    exact absurd hnow hold
  | some u =>
    exact ⟨u, rfl, (Sniffer.registered_cases (outcome_of_read hread) hnow).resolve_left hold⟩

end CapturedFrame

/-- Endpoints are registered by TCP SYN packets only. An accepted UDP packet is not noticed if and
only if a script or raw mode takes it, it is empty, or no TCP endpoint has an address and port of it. -/
theorem udp_noticed_iff (layout : TcpLayout) (s : Sniffer) (f : CapturedFrame) :
    (∀ e, ¬s.Registered e → (f.outcome layout s).1.Registered e →
      ∃ u, f.read layout s = some u ∧ u.isTcp = true ∧ u.payloadSize = 0 ∧ u.syn = true ∧ u.named = e) ∧
    ∀ u, f.read layout s = some u → u.isTcp = false →
      (s.Quiet f.header.ts (f.outcome layout s) ↔ s.luaState = true ∨ s.protocol = .raw ∨
        u.payloadSize = 0 ∨ ¬s.Registered u.src ∧ ¬s.Registered u.dst) := by
  constructor
  · intro e hold hnow
    obtain ⟨u, hread, h0, hsyn, hnamed⟩ := CapturedFrame.registered_of_outcome hold hnow
    refine ⟨u, hread, ?_, h0, hsyn, hnamed⟩
    by_contra hudp
    rw [CapturedFrame.syn_of_udp hread (Bool.eq_false_of_not_eq_true hudp)] at hsyn
    cases hsyn
  · intro u hread hudp
    rw [← CapturedFrame.touches_udp_iff hread hudp f.allocs, f.quiet_outcome_iff layout s]
    constructor
    · exact fun hno => hno u hread
    · intro hno u' hread'
      rw [hread] at hread'
      exact Option.some.inj hread' ▸ hno

theorem udpPing_limit : (32 : UInt32).toNat ≤ 262144 := by decide

/-- Four bytes by UDP from 10.0.0.1:1000 to 10.0.0.2:6379. -/
def udpPing : CapturedFrame where
  header := ⟨⟨0, 1000⟩, 32, 32⟩
  bytes := [0x45, 0, 0, 32, 0, 0, 0, 0, 64, 17, 0, 0, 10, 0, 0, 1, 10, 0, 0, 2] ++
    [0x03, 0xe8, 0x18, 0xeb, 0, 12, 0, 0, 80, 73, 78, 71]
  captured := rfl
  limit := udpPing_limit
  allocs := Allocs.all

def handshaken : Sniffer := (handshake.outcome .linux (snifferCreate redisOptions .raw)).1

theorem udp_noticed_iff_ping :
    (snifferCreate redisOptions .raw).Quiet ⟨0, 1000⟩
      (udpPing.outcome .linux (snifferCreate redisOptions .raw)) := by
  let s := snifferCreate redisOptions .raw
  have hread : (udpPing.read .linux s).isSome = true := by decide +kernel
  obtain ⟨u, hu⟩ := Option.isSome_iff_exists.mp hread
  have hudp : (udpPing.read .linux s).map (fun u => u.isTcp) = some false := by decide +kernel
  rw [hu] at hudp
  have hnone (e : Endpoint) : ¬s.Registered e := by
    rw [Sniffer.Registered, ← Table.lookup_toMap]
    simp [s, snifferCreate, Table.toMap_create]
  exact ((udp_noticed_iff .linux s udpPing).2 u hu (Option.some.inj hudp)).mpr
    (Or.inr (Or.inr (Or.inr ⟨hnone u.src, hnone u.dst⟩)))

theorem udpPing_counted :
    (udpPing.read .linux handshaken).map (fun u => u.isTcp) = some false ∧
      ((udpPing.outcome .linux handshaken).1.synTab.get
        (endpointKey ⟨0x0200000a, 6379⟩)).map QueryStats.requests = some 1 ∧
      ¬handshaken.Quiet udpPing.header.ts (udpPing.outcome .linux handshaken) := by
  have hcounted : ((udpPing.outcome .linux handshaken).1.synTab.get
      (endpointKey ⟨0x0200000a, 6379⟩)).map QueryStats.requests = some 1 := by decide +kernel
  refine ⟨by decide +kernel, hcounted, fun hquiet => ?_⟩
  rw [hquiet.counters] at hcounted
  have hzero : (handshaken.synTab.get (endpointKey ⟨0x0200000a, 6379⟩)).map QueryStats.requests =
      some 0 := by decide +kernel
  rw [hzero] at hcounted
  cases hcounted

end Tcpkit
