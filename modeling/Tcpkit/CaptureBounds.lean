import Tcpkit.FrameParsing
import Tcpkit.Summary

/-! No access leaves the captured bytes. The bounds are those of `packet_handler`
followed by any of the formatters on the payload it hands over. -/

namespace Tcpkit

open MachineInt

/-- What `packet_handler` extracts from a capture that is as long as its header
says; `none` for a frame it skips. -/
def frameParsed (layout : TcpLayout) (datalink : LinkType) (header : PcapPkthdr)
    (packet : List UInt8) : Option UserPacket :=
  match linkhdrSize datalink with
  | none => none
  | some n =>
    let ip := packet.drop n
    let caplen : Int := packet.length - n
    let wirelen := int32 (int32 header.len.toNat - n)
    if caplen < 20 ∨ byte ip 0 >>> 4 ≠ 4 then none
    else if byte ip 9 = 6 then
      if TcpAccepted ip caplen wirelen then
        some (tcpParsed layout header.ts ip caplen (UserPacket.cleared header.len))
      else none
    else if byte ip 9 = 17 then
      if UdpAccepted ip caplen wirelen then
        some (udpParsed header.ts ip caplen (UserPacket.cleared header.len))
      else none
    else none

theorem linkhdrSize_le {datalink : LinkType} {n : Nat} (h : linkhdrSize datalink = some n) :
    n ≤ 16 := by
  cases datalink <;> simp [linkhdrSize] at h <;> omega

theorem parseFrame_eq (layout : TcpLayout) (datalink : LinkType) {header : PcapPkthdr}
    {packet : List UInt8} (hcap : packet.length = header.caplen.toNat)
    (hmax : packet.length < 2 ^ 31) :
    parseFrame layout datalink header packet =
      some (frameParsed layout datalink header packet) := by
  rw [parseFrame, frameParsed]
  cases hl : linkhdrSize datalink with
  | none => rfl
  | some n =>
    have hn := linkhdrSize_le hl
    have hc : int32 (int32 header.caplen.toNat - n) = packet.length - n := by
      rw [int32_int32_sub, ← hcap]
      exact int32_eq_self (by omega) (by omega)
    simp only [hc]
    generalize int32 (int32 header.len.toNat - n) = wirelen
    have hlen : (packet.drop n).length = packet.length - n := List.length_drop
    by_cases h1 : (packet.length : Int) - n < 20
    · rw [if_pos h1, if_pos (Or.inl h1)]
      rfl
    · rw [if_neg h1, getElem?_eq_byte (show 0 < (packet.drop n).length by omega),
        getElem?_eq_byte (show 9 < (packet.drop n).length by omega)]
      simp only [Option.bind_eq_bind, Option.bind_some, Option.pure_def]
      by_cases h2 : byte (packet.drop n) 0 >>> 4 ≠ 4
      · rw [if_pos h2, if_pos (Or.inr h2)]
      · rw [if_neg h2, if_neg (not_or.mpr ⟨h1, h2⟩)]
        rw [processTcpPacket_eq layout header.ts wirelen _ (by omega) (by omega),
          processUdpPacket_eq header.ts wirelen _ (by omega) (by omega)]
        split
        · rfl
        · split <;> rfl

def transportEnd (datalink : LinkType) (packet : List UInt8) : Nat :=
  let n := (linkhdrSize datalink).getD 0
  let ip := packet.drop n
  n + (ipHeader ip).toNat + (if byte ip 9 = 6 then (tcpHeader ip).toNat else 8)

structure UserPacket.ClippedAt (u : UserPacket) (packet : List UInt8) (off : Nat) : Prop where
  payload_eq : u.payload = packet.drop off
  off_le : off ≤ packet.length
  wire_nonneg : 0 ≤ u.wirePayloadSize
  size_eq : u.payloadSize = min u.wirePayloadSize (packet.length - off)

namespace UserPacket.ClippedAt

variable {u : UserPacket} {packet : List UInt8} {off : Nat}

theorem nonneg (h : u.ClippedAt packet off) : 0 ≤ u.payloadSize := by
  have := h.off_le
  have := h.wire_nonneg
  rw [h.size_eq]
  omega

theorem le_wire (h : u.ClippedAt packet off) : u.payloadSize ≤ u.wirePayloadSize := by
  rw [h.size_eq]
  omega

theorem inside (h : u.ClippedAt packet off) : off + u.payloadSize ≤ packet.length := by
  rw [h.size_eq]
  omega

theorem readable (h : u.ClippedAt packet off) : u.payloadSize ≤ u.payload.length := by
  have := h.inside
  have := h.off_le
  rw [h.payload_eq, List.length_drop]
  omega

end UserPacket.ClippedAt

/-- An accepted frame is a TCP segment or a UDP datagram that passed its checks. -/
theorem frameParsed_cases {layout : TcpLayout} {datalink : LinkType} {header : PcapPkthdr}
    {packet : List UInt8} {u : UserPacket} (h : frameParsed layout datalink header packet = some u) :
    ∃ n, linkhdrSize datalink = some n ∧
      ((byte (packet.drop n) 9 = 6 ∧
          TcpAccepted (packet.drop n) (packet.length - n) (int32 (int32 header.len.toNat - n)) ∧
          u = tcpParsed layout header.ts (packet.drop n) (packet.length - n) (.cleared header.len)) ∨
        (byte (packet.drop n) 9 = 17 ∧
          UdpAccepted (packet.drop n) (packet.length - n) (int32 (int32 header.len.toNat - n)) ∧
          u = udpParsed header.ts (packet.drop n) (packet.length - n) (.cleared header.len))) := by
  rw [frameParsed] at h
  cases hl : linkhdrSize datalink with
  | none => simp [hl] at h
  | some n =>
    simp only [hl] at h
    refine ⟨n, rfl, ?_⟩
    split at h
    · cases h
    · split at h
      · rename_i htcp
        split at h
        · rename_i hacc
          exact Or.inl ⟨htcp, hacc, (Option.some.inj h).symm⟩
        · cases h
      · split at h
        · rename_i hudp
          split at h
          · rename_i hacc
            exact Or.inr ⟨hudp, hacc, (Option.some.inj h).symm⟩
          · cases h
        · cases h

theorem frameParsed_clipped {layout : TcpLayout} {datalink : LinkType} {header : PcapPkthdr}
    {packet : List UInt8} {u : UserPacket}
    (h : frameParsed layout datalink header packet = some u) :
    u.ClippedAt packet (transportEnd datalink packet) := by
  obtain ⟨n, hl, ⟨htcp, ⟨h1, h2, h3, h4, h5, h6⟩, rfl⟩ | ⟨hudp, ⟨h1, h2, h3, h4⟩, rfl⟩⟩ :=
    frameParsed_cases h
  · have hoff : transportEnd datalink packet =
        n + (ipHeader (packet.drop n)).toNat + (tcpHeader (packet.drop n)).toNat := by
      simp [transportEnd, hl, htcp]
    refine ⟨?_, ?_, ?_, ?_⟩
    · simp only [tcpParsed, transport, List.drop_drop, hoff]
    · omega
    · simp only [tcpParsed]
      omega
    · simp only [tcpParsed]
      rw [hoff]
      congr 1
      omega
  · have hoff : transportEnd datalink packet = n + (ipHeader (packet.drop n)).toNat + 8 := by
      simp [transportEnd, hl, hudp]
    refine ⟨?_, ?_, ?_, ?_⟩
    · simp only [udpParsed, transport, List.drop_drop, hoff]
    · omega
    · simp only [udpParsed]
      omega
    · simp only [udpParsed]
      rw [hoff]
      congr 1
      omega

def ProtocolType.summary (protocol : ProtocolType) (p : List UInt8) : List UInt8 :=
  match protocol with
  | .redis => redisSummary p
  | .memcached => memcachedSummary p
  | .http => memcachedSummary p
  | .raw => rawSummary p

theorem formatPayload_eq {u : UserPacket} (h : u.payloadSize ≤ u.payload.length) (a : Allocs)
    (protocol : ProtocolType) :
    formatPayload a protocol u =
      some (if a.payload then some (protocol.summary (u.payload.take u.payloadSize.toNat))
        else none) := by
  cases protocol with
  | raw => exact formatRaw_summary h a.payload
  | redis => exact formatRedis_summary h a.payload
  | memcached => exact formatMemcached_summary h a.payload
  | http => exact formatMemcached_summary h a.payload

theorem processRequestPacket_isSome {u : UserPacket} (h : u.payloadSize ≤ u.payload.length)
    (a : Allocs) (s : Sniffer) : (processRequestPacket a s u).isSome := by
  have ht := formatPayload_eq h a s.protocol
  simp only [processRequestPacket]
  split
  · rfl
  · split
    · rfl
    · split
      · rfl
      · simp [ht]

theorem processUserPacket_isSome {u : UserPacket} (h : u.payloadSize ≤ u.payload.length)
    (a : Allocs) (s : Sniffer) : (processUserPacket a s u).isSome := by
  simp only [processUserPacket]
  split
  · rfl
  · split
    · rfl
    · split
      · split <;> rfl
      · split
        · rfl
        · simp [processRequestPacket_isSome h]
        · rfl

section

variable {layout : TcpLayout} {s : Sniffer} {header : PcapPkthdr} {packet : List UInt8}

theorem packetHandler_of_skipped (h : parseFrame layout s.datalink header packet = some none)
    (a : Allocs) :
    packetHandler layout a s header packet = some (dumperWrite s header packet, []) := by
  simp only [packetHandler, dumperWrite, h, Option.bind_eq_bind, Option.bind_some]
  rfl

theorem packetHandler_of_parseFrame {u : UserPacket}
    (h : parseFrame layout s.datalink header packet = some (some u)) (a : Allocs) :
    packetHandler layout a s header packet =
      processUserPacket a (dumperWrite s header packet) u := by
  simp only [packetHandler, dumperWrite, h, Option.bind_eq_bind, Option.bind_some]

end

/-- For every capture of at most the 262144 bytes libpcap allows and every wire
length, in whatever relation they stand: no read leaves the capture, an accepted
frame has its payload clipped to it, and a frame that is not accepted leaves the
tables and the expiry clock alone. -/
theorem packetHandler_stays_inside (layout : TcpLayout) (a : Allocs) (s : Sniffer)
    (header : PcapPkthdr) (packet : List UInt8) (hcap : packet.length = header.caplen.toNat)
    (hmax : header.caplen.toNat ≤ 262144) :
    ∃ s' events r, packetHandler layout a s header packet = some (s', events) ∧
      parseFrame layout s.datalink header packet = some r ∧
      (∀ u, r = some u →
        0 ≤ u.payloadSize ∧ u.payloadSize ≤ u.wirePayloadSize ∧
        u.payload = packet.drop (transportEnd s.datalink packet) ∧
        u.payloadSize =
          min u.wirePayloadSize (header.caplen.toNat - transportEnd s.datalink packet) ∧
        transportEnd s.datalink packet + u.payloadSize ≤ header.caplen.toNat ∧
        (formatRedis a.payload u.payload u.payloadSize).isSome ∧
        (formatMemcached a.payload u.payload u.payloadSize).isSome ∧
        (formatHttp a.payload u.payload u.payloadSize).isSome ∧
        (formatRaw a.payload u.payload u.payloadSize).isSome) ∧
      (r = none → s'.synTab = s.synTab ∧ s'.requests = s.requests ∧
        s'.lastExpire = s.lastExpire ∧ s'.expirePrimed = s.expirePrimed) := by
  have hparse := parseFrame_eq layout s.datalink hcap (by omega)
  cases hf : frameParsed layout s.datalink header packet with
  | none =>
    rw [hf] at hparse
    exact ⟨_, _, none, packetHandler_of_skipped hparse a, hparse, by simp,
      fun _ => ⟨rfl, rfl, rfl, rfl⟩⟩
  | some u =>
    have hc := frameParsed_clipped hf
    have hr := hc.readable
    rw [hf] at hparse
    obtain ⟨result, hresult⟩ := Option.isSome_iff_exists.mp
      (processUserPacket_isSome hr a (dumperWrite s header packet))
    refine ⟨result.1, result.2, some u, (packetHandler_of_parseFrame hparse a).trans hresult, hparse,
      ?_, by simp⟩
    rintro _ ⟨⟩
    have hformat (protocol : ProtocolType) : (formatPayload a protocol u).isSome := by
      rw [formatPayload_eq hr]
      rfl
    rw [← hcap]
    exact ⟨hc.nonneg, hc.le_wire, hc.payload_eq, hc.size_eq, hc.inside,
      hformat .redis, hformat .memcached, hformat .http, hformat .raw⟩

theorem packetHandler_stays_inside_truncated :
    (packetHandler .linux Allocs.all (snifferCreate { protocol := .redis } .raw)
      ⟨⟨1, 0⟩, 20, 1500⟩ [0x45, 0, 5, 220, 0, 0, 0, 0, 64, 6, 0, 0, 10, 0, 0, 1, 10, 0, 0, 2]).isSome := by
  obtain ⟨s', events, r, h, -⟩ := packetHandler_stays_inside .linux Allocs.all
    (snifferCreate { protocol := .redis } .raw) ⟨⟨1, 0⟩, 20, 1500⟩
    [0x45, 0, 5, 220, 0, 0, 0, 0, 64, 6, 0, 0, 10, 0, 0, 1, 10, 0, 0, 2] rfl (by decide)
  rw [h]
  rfl

end Tcpkit
