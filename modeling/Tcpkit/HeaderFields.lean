import Tcpkit.FrameParsing

/-! What the header fields promise and what the parsers make of them: the flag byte
under the two declarations of `struct tcphdr`, and the end of the payload against
`ip_len`. -/

namespace Tcpkit

theorem tcpFlags_linux_eq_iff (b : UInt8) : tcpFlags .linux b = b ↔ b < 0x20 := by
  have hall : ∀ n < 256, tcpFlags .linux (UInt8.ofNat n) = UInt8.ofNat n ↔ UInt8.ofNat n < 0x20 := by
    decide +kernel
  have hb := hall b.toNat b.toNat_lt
  rwa [UInt8.ofNat_toNat] at hb

/-- The headers of a packet from 10.0.0.1:1000 to 10.0.0.2:6379 without payload. -/
def synHeaders (flags : UInt8) : List UInt8 :=
  [0x45, 0, 0, 40, 0, 0, 0, 0, 64, 6, 0, 0, 10, 0, 0, 1, 10, 0, 0, 2] ++
    [0x03, 0xe8, 0x18, 0xeb, 0, 0, 0, 7, 0, 0, 0, 0, 0x50, flags, 0x10, 0, 0, 0, 0, 0]

section Layouts

variable (layout : TcpLayout) (tv : Timeval) {ip : List UInt8} {caplen : Int} (wirelen : Int)
  (packet : UserPacket)

/-- The header is read the same way under both declarations, up to the flags. -/
theorem processTcpPacket_layout :
    processTcpPacket layout tv ip caplen wirelen packet =
      (processTcpPacket .bsd tv ip caplen wirelen packet).map
        (Option.map fun u => { u with flags := tcpFlags layout u.flags }) := by
  simp only [processTcpPacket, Option.bind_eq_bind, Option.pure_def]
  cases h0 : ip[0]?.map iphdrSize with
  | none => rfl
  | some iphdr =>
    simp only [Option.bind_some]
    by_cases h1 : iphdr < iphdrMin
    · simp only [if_pos h1]
      rfl
    by_cases h2 : caplen < iphdr + tcphdrMin
    · simp only [if_neg h1, if_pos h2]
      rfl
    simp only [if_neg h1, if_neg h2]
    cases readIpAddrs ip with
    | none => rfl
    | some addrs =>
      simp only [Option.bind_some]
      cases readTcphdr (ip.drop iphdr.toNat) with
      | none => rfl
      | some tcphdr =>
        simp only [Option.bind_some]
        by_cases h3 : tcphdrSize tcphdr.off < tcphdrMin
        · simp only [if_pos h3]
          rfl
        by_cases h4 : caplen < iphdr + tcphdrSize tcphdr.off
        · simp only [if_neg h3, if_pos h4]
          rfl
        simp only [if_neg h3, if_neg h4]
        cases (be16At ip 2).map fun n => (n.toNat : Int) with
        | none => rfl
        | some iplen =>
          simp only [Option.bind_some]
          split <;> rfl

variable {layout tv wirelen packet} {u : UserPacket}

theorem minimum_of_tcp (h : processTcpPacket layout tv ip caplen wirelen packet = some (some u)) :
    40 ≤ caplen := by
  by_contra hlt
  rw [processTcpPacket] at h
  cases h0 : ip[0]?.map iphdrSize with
  | none => simp [h0] at h
  | some iphdr =>
    by_cases h1 : iphdr < iphdrMin
    · simp [h0, h1] at h
    · have hmin : 20 ≤ iphdr := not_lt.mp h1
      have h2 : caplen < iphdr + 20 := by omega
      simp [h0, h1, h2] at h

theorem tcpAccepted_of_eq (hcap : caplen ≤ ip.length)
    (h : processTcpPacket layout tv ip caplen wirelen packet = some (some u)) :
    TcpAccepted ip caplen wirelen ∧ u = tcpParsed layout tv ip caplen packet := by
  have hmin := minimum_of_tcp h
  rw [processTcpPacket_eq layout tv wirelen packet (by omega) hcap, Option.some_inj,
    Option.ite_none_right_eq_some] at h
  exact ⟨h.1, (Option.some.inj h.2).symm⟩

theorem minimum_of_udp (h : processUdpPacket tv ip caplen wirelen packet = some (some u)) :
    28 ≤ caplen := by
  by_contra hlt
  rw [processUdpPacket] at h
  cases h0 : ip[0]?.map iphdrSize with
  | none => simp [h0] at h
  | some iphdr =>
    by_cases h1 : iphdr < iphdrMin
    · simp [h0, h1] at h
    · have hmin : 20 ≤ iphdr := not_lt.mp h1
      have h2 : caplen < iphdr + 8 := by omega
      simp [h0, h1, h2] at h

theorem udpAccepted_of_eq (hcap : caplen ≤ ip.length)
    (h : processUdpPacket tv ip caplen wirelen packet = some (some u)) :
    UdpAccepted ip caplen wirelen ∧ u = udpParsed tv ip caplen packet := by
  have hmin := minimum_of_udp h
  rw [processUdpPacket_eq tv wirelen packet (by omega) hcap, Option.some_inj,
    Option.ite_none_right_eq_some] at h
  exact ⟨h.1, (Option.some.inj h.2).symm⟩

theorem TcpAccepted.minimum (h : TcpAccepted ip caplen wirelen) : 20 ≤ caplen := by
  have h1 := h.1
  have h2 := h.2.1
  omega

theorem UdpAccepted.minimum (h : UdpAccepted ip caplen wirelen) : 20 ≤ caplen := by
  have h1 := h.1
  have h2 := h.2.1
  omega

variable (tv wirelen packet)

/-- Both declarations give the same result for a capture unless the packet is accepted with one
of the flags that only the BSD one copies. -/
theorem layouts_agree_iff (hcap : caplen ≤ ip.length) :
    processTcpPacket .linux tv ip caplen wirelen packet =
        processTcpPacket .bsd tv ip caplen wirelen packet ↔
      (TcpAccepted ip caplen wirelen → byte (transport ip) 13 < 0x20) := by
  rw [processTcpPacket_layout .linux]
  constructor
  · intro heq hacc
    rw [processTcpPacket_eq .bsd tv wirelen packet hacc.minimum hcap, if_pos hacc] at heq
    simp only [Option.map_some, Option.some.injEq] at heq
    exact (tcpFlags_linux_eq_iff _).mp (congrArg UserPacket.flags heq)
  · intro hflags
    cases hbsd : processTcpPacket .bsd tv ip caplen wirelen packet with
    | none => rfl
    | some result =>
      cases result with
      | none => rfl
      | some u =>
        obtain ⟨hacc, hu⟩ := tcpAccepted_of_eq hcap hbsd
        have hsame : tcpFlags .linux u.flags = u.flags := by
          rw [tcpFlags_linux_eq_iff, hu]
          exact hflags hacc
        rw [Option.map_some, Option.map_some, hsame]

theorem layouts_agree_synAck :
    processTcpPacket .linux ⟨1, 0⟩ (synHeaders 0x12) 40 40 (UserPacket.cleared 54) =
      processTcpPacket .bsd ⟨1, 0⟩ (synHeaders 0x12) 40 40 (UserPacket.cleared 54) :=
  (layouts_agree_iff ⟨1, 0⟩ 40 (UserPacket.cleared 54) (by decide)).mpr fun _ => by decide

theorem ecnSyn_layouts_differ :
    processTcpPacket .linux ⟨1, 0⟩ (synHeaders 0xc2) 40 40 (UserPacket.cleared 54) ≠
        processTcpPacket .bsd ⟨1, 0⟩ (synHeaders 0xc2) 40 40 (UserPacket.cleared 54) ∧
      (tcpParsed .linux ⟨1, 0⟩ (synHeaders 0xc2) 40 (UserPacket.cleared 54)).flags = 0x02 ∧
      (tcpParsed .bsd ⟨1, 0⟩ (synHeaders 0xc2) 40 (UserPacket.cleared 54)).flags = 0xc2 := by
  decide +kernel

end Layouts

/-- The payload begins `off` bytes into the datagram and ends where `ip_len` says or before. -/
def InsideDatagram (ip : List UInt8) (off : Int) (u : UserPacket) : Prop :=
  u.payload = ip.drop off.toNat ∧ off + u.wirePayloadSize ≤ (be16 ip 2).toNat

section Datagram

variable (tv : Timeval) {ip : List UInt8} {caplen : Int} (wirelen : Int) (packet : UserPacket)

theorem tcpParsed_inside (layout : TcpLayout) :
    InsideDatagram ip (ipHeader ip + tcpHeader ip) (tcpParsed layout tv ip caplen packet) := by
  have hr := ipHeader_range ip
  have hr' := tcpHeader_range ip
  constructor
  · rw [tcpParsed, transport, List.drop_drop, Int.toNat_add hr.1 hr'.1]
  · simp only [tcpParsed]
    omega

theorem udpParsed_inside_iff :
    InsideDatagram ip (ipHeader ip + 8) (udpParsed tv ip caplen packet) ↔
      ipHeader ip + udpLength ip ≤ (be16 ip 2).toNat := by
  have hr := ipHeader_range ip
  have hpayload : (udpParsed tv ip caplen packet).payload = ip.drop (ipHeader ip + 8).toNat := by
    rw [udpParsed, transport, List.drop_drop, Int.toNat_add hr.1 (by decide)]
    rfl
  have hend : ipHeader ip + 8 + (udpParsed tv ip caplen packet).wirePayloadSize =
      ipHeader ip + udpLength ip := by
    simp only [udpParsed]
    omega
  rw [InsideDatagram, hend]
  exact ⟨fun h => h.2, fun h => ⟨hpayload, h⟩⟩

/-- TCP payload never leaves the datagram. UDP payload ends where the UDP length says, which
`process_udp_packet` compares with the frame and not with `ip_len`. -/
theorem payload_inside_datagram_iff (hcap : caplen ≤ ip.length) :
    (∀ layout u, processTcpPacket layout tv ip caplen wirelen packet = some (some u) →
        InsideDatagram ip (ipHeader ip + tcpHeader ip) u) ∧
      (∀ u, processUdpPacket tv ip caplen wirelen packet = some (some u) →
        InsideDatagram ip (ipHeader ip + 8) u) ↔
      (UdpAccepted ip caplen wirelen → ipHeader ip + udpLength ip ≤ (be16 ip 2).toNat) := by
  constructor
  · rintro ⟨-, hudp⟩ hacc
    have heq := processUdpPacket_eq tv wirelen packet hacc.minimum hcap
    rw [if_pos hacc] at heq
    exact (udpParsed_inside_iff tv packet).mp (hudp _ heq)
  · intro hlength
    refine ⟨fun layout u hu => ?_, fun u hu => ?_⟩
    · rw [(tcpAccepted_of_eq hcap hu).2]
      exact tcpParsed_inside tv packet layout
    · obtain ⟨hacc, rfl⟩ := udpAccepted_of_eq hcap hu
      exact (udpParsed_inside_iff tv packet).mpr (hlength hacc)

/-- A datagram of 28 bytes with 18 bytes of Ethernet padding behind it, whose UDP header claims
the given length. -/
def paddedDatagram (length : UInt8) : List UInt8 :=
  [0x45, 0, 0, 28, 0, 0, 0, 0, 64, 17, 0, 0, 10, 0, 0, 1, 10, 0, 0, 2] ++
    [0x9c, 0x40, 0, 53, 0, length, 0, 0] ++ List.replicate 18 0

theorem payload_inside_datagram_padded :
    UdpAccepted (paddedDatagram 8) 46 46 ∧
      InsideDatagram (paddedDatagram 8) (ipHeader (paddedDatagram 8) + 8)
        (udpParsed ⟨1, 0⟩ (paddedDatagram 8) 46 (UserPacket.cleared 60)) := by
  have hacc : UdpAccepted (paddedDatagram 8) 46 46 := by decide
  have hinside := (payload_inside_datagram_iff ⟨1, 0⟩ 46 (UserPacket.cleared 60)
    (show (46 : Int) ≤ (paddedDatagram 8).length by decide)).mpr fun _ => by decide
  exact ⟨hacc, hinside.2 _ (by decide +kernel)⟩

theorem padding_reported_as_payload :
    processUdpPacket ⟨1, 0⟩ (paddedDatagram 12) 46 46 (UserPacket.cleared 60) =
        some (some (udpParsed ⟨1, 0⟩ (paddedDatagram 12) 46 (UserPacket.cleared 60))) ∧
      (udpParsed ⟨1, 0⟩ (paddedDatagram 12) 46 (UserPacket.cleared 60)).wirePayloadSize = 4 ∧
      (be16 (paddedDatagram 12) 2).toNat = 28 ∧
      ¬InsideDatagram (paddedDatagram 12) (ipHeader (paddedDatagram 12) + 8)
        (udpParsed ⟨1, 0⟩ (paddedDatagram 12) 46 (UserPacket.cleared 60)) := by
  refine ⟨by decide +kernel, by decide, by decide, ?_⟩
  rw [udpParsed_inside_iff]
  decide

end Datagram

end Tcpkit
