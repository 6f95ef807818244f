import Tcpkit.CaptureBounds

/-! Frames as they are on the wire, and the packets that parsing recovers from
them whatever the options, the padding and the point where the capture stops. -/

namespace Tcpkit

open MachineInt

def bytes16 (v : UInt16) : List UInt8 := [UInt8.ofNat (v.toNat / 256), UInt8.ofNat v.toNat]

def bytes32 (v : UInt32) : List UInt8 :=
  [UInt8.ofNat (v.toNat / 16777216), UInt8.ofNat (v.toNat / 65536), UInt8.ofNat (v.toNat / 256),
    UInt8.ofNat v.toNat]

/-- The octets of an `in_addr`, which a little-endian host holds lowest first. -/
def addrBytes (v : UInt32) : List UInt8 := (bytes32 v).reverse

theorem be16_bytes16 (v : UInt16) (rest : List UInt8) : be16 (bytes16 v ++ rest) 0 = v := by
  change UInt16.ofNat ((UInt8.ofNat (v.toNat / 256)).toNat * 256 + (UInt8.ofNat v.toNat).toNat) = v
  have hv := v.toNat_lt
  apply UInt16.toNat_inj.mp
  simp only [UInt8.toNat_ofNat', UInt16.toNat_ofNat']
  omega

theorem be32_bytes32 (v : UInt32) (rest : List UInt8) : be32 (bytes32 v ++ rest) 0 = v := by
  change UInt32.ofNat ((UInt8.ofNat (v.toNat / 16777216)).toNat * 16777216 +
    (UInt8.ofNat (v.toNat / 65536)).toNat * 65536 + (UInt8.ofNat (v.toNat / 256)).toNat * 256 +
    (UInt8.ofNat v.toNat).toNat) = v
  have hv := v.toNat_lt
  apply UInt32.toNat_inj.mp
  simp only [UInt8.toNat_ofNat', UInt32.toNat_ofNat']
  omega

theorem le32_addrBytes (v : UInt32) (rest : List UInt8) : le32 (addrBytes v ++ rest) 0 = v := by
  rw [← be32_bytes32 v rest]
  change UInt32.ofNat (_ + _ + _ + _) = UInt32.ofNat (_ + _ + _ + _)
  congr 1
  rw [be32_bytes32]
  change (UInt8.ofNat v.toNat).toNat + (UInt8.ofNat (v.toNat / 256)).toNat * 256 +
    (UInt8.ofNat (v.toNat / 65536)).toNat * 65536 +
    (UInt8.ofNat (v.toNat / 16777216)).toNat * 16777216 = _
  change _ = (UInt8.ofNat (v.toNat / 16777216)).toNat * 16777216 +
    (UInt8.ofNat (v.toNat / 65536)).toNat * 65536 + (UInt8.ofNat (v.toNat / 256)).toNat * 256 +
    (UInt8.ofNat v.toNat).toNat
  omega

section Fields

variable {p rest : List UInt8} {i : Nat}

theorem be16_of_drop {v : UInt16} (h : p.drop i = bytes16 v ++ rest) : be16 p i = v := by
  have hdrop : be16 p i = be16 (p.drop i) 0 := by simp [be16, byte]
  rw [hdrop, h, be16_bytes16]

theorem be32_of_drop {v : UInt32} (h : p.drop i = bytes32 v ++ rest) : be32 p i = v := by
  have hdrop : be32 p i = be32 (p.drop i) 0 := by simp [be32, byte]
  rw [hdrop, h, be32_bytes32]

theorem le32_of_drop {v : UInt32} (h : p.drop i = addrBytes v ++ rest) : le32 p i = v := by
  have hdrop : le32 p i = le32 (p.drop i) 0 := by simp [le32, byte]
  rw [hdrop, h, le32_addrBytes]

end Fields

structure HeaderOptions where
  bytes : List UInt8
  words : bytes.length % 4 = 0
  atMost : bytes.length ≤ 40

def HeaderOptions.wordCount (o : HeaderOptions) : Nat := 5 + o.bytes.length / 4

theorem HeaderOptions.wordCount_mul (o : HeaderOptions) :
    o.wordCount * 4 = 20 + o.bytes.length := by
  have := o.words
  rw [wordCount]
  omega

theorem HeaderOptions.wordCount_le (o : HeaderOptions) : o.wordCount ≤ 15 := by
  have := o.atMost
  rw [wordCount]
  omega

structure Ipv4Header where
  tos : UInt8
  ident : UInt16
  fragment : UInt16
  ttl : UInt8
  checksum : UInt16
  src : UInt32
  dst : UInt32
  options : HeaderOptions

def Ipv4Header.size (h : Ipv4Header) : Nat := 20 + h.options.bytes.length

def Ipv4Header.encode (h : Ipv4Header) (protocol : UInt8) (total : UInt16) : List UInt8 :=
  [UInt8.ofNat (0x40 + h.options.wordCount), h.tos] ++ bytes16 total ++ bytes16 h.ident ++
    bytes16 h.fragment ++ [h.ttl, protocol] ++ bytes16 h.checksum ++ addrBytes h.src ++
    addrBytes h.dst ++ h.options.bytes

namespace Ipv4Header

variable (h : Ipv4Header) (protocol : UInt8) (total : UInt16) (rest : List UInt8)

theorem length_encode : (h.encode protocol total).length = h.size := by
  simp [encode, size, bytes16, bytes32, addrBytes]
  omega

theorem vhl_eq :
    UInt8.ofNat (0x40 + h.options.wordCount) >>> 4 = 4 ∧
      iphdrSize (UInt8.ofNat (0x40 + h.options.wordCount)) = h.size := by
  have all : ∀ n : Fin 16, UInt8.ofNat (0x40 + n) >>> 4 = 4 ∧
      (UInt8.ofNat (0x40 + n) &&& 0x0f).toNat = n := by decide
  obtain ⟨hv, hl⟩ := all ⟨h.options.wordCount, by have := h.options.wordCount_le; omega⟩
  refine ⟨hv, ?_⟩
  have hw := h.options.wordCount_mul
  simp only [iphdrSize, hl, size]
  omega

theorem version_encode : byte (h.encode protocol total ++ rest) 0 >>> 4 = 4 := h.vhl_eq.1

theorem ipHeader_encode : ipHeader (h.encode protocol total ++ rest) = h.size := h.vhl_eq.2

theorem protocol_encode : byte (h.encode protocol total ++ rest) 9 = protocol := rfl

theorem total_encode : be16 (h.encode protocol total ++ rest) 2 = total := be16_of_drop rfl

theorem src_encode : le32 (h.encode protocol total ++ rest) 12 = h.src := le32_of_drop rfl

theorem dst_encode : le32 (h.encode protocol total ++ rest) 16 = h.dst := le32_of_drop rfl

theorem transport_encode : transport (h.encode protocol total ++ rest) = rest := by
  rw [transport, ipHeader_encode, Int.toNat_natCast, ← h.length_encode protocol total,
    List.drop_left]

end Ipv4Header

structure TcpHeader where
  source : UInt16
  dest : UInt16
  seq : UInt32
  ackSeq : UInt32
  reserved : Fin 16
  fin : Bool
  syn : Bool
  rst : Bool
  psh : Bool
  ack : Bool
  /-- URG, ECE and CWR. -/
  others : Fin 8
  window : UInt16
  checksum : UInt16
  urgent : UInt16
  options : HeaderOptions

namespace TcpHeader

def size (h : TcpHeader) : Nat := 20 + h.options.bytes.length

/-- The five flag bits that the Linux layout keeps. -/
def fiveFlags (fin syn rst psh ack : Bool) : UInt8 :=
  UInt8.ofNat (fin.toNat + 2 * syn.toNat + 4 * rst.toNat + 8 * psh.toNat + 16 * ack.toNat)

def flagByte (h : TcpHeader) : UInt8 :=
  fiveFlags h.fin h.syn h.rst h.psh h.ack + UInt8.ofNat (32 * h.others)

theorem tcpFlags_flagByte (h : TcpHeader) :
    tcpFlags .linux h.flagByte = fiveFlags h.fin h.syn h.rst h.psh h.ack := by
  have all : ∀ (fin syn rst psh ack : Bool) (others : Fin 8),
      tcpFlags .linux (fiveFlags fin syn rst psh ack + UInt8.ofNat (32 * others)) =
        fiveFlags fin syn rst psh ack := by decide
  exact all _ _ _ _ _ _

def encode (h : TcpHeader) : List UInt8 :=
  bytes16 h.source ++ bytes16 h.dest ++ bytes32 h.seq ++ bytes32 h.ackSeq ++
    [UInt8.ofNat (h.options.wordCount * 16 + h.reserved), h.flagByte] ++ bytes16 h.window ++
    bytes16 h.checksum ++ bytes16 h.urgent ++ h.options.bytes

variable (h : TcpHeader) (rest : List UInt8)

theorem length_encode : h.encode.length = h.size := by
  simp [encode, size, bytes16, bytes32]
  omega

theorem source_encode : be16 (h.encode ++ rest) 0 = h.source := be16_of_drop rfl

theorem dest_encode : be16 (h.encode ++ rest) 2 = h.dest := be16_of_drop rfl

theorem seq_encode : be32 (h.encode ++ rest) 4 = h.seq := be32_of_drop rfl

theorem ackSeq_encode : be32 (h.encode ++ rest) 8 = h.ackSeq := be32_of_drop rfl

theorem window_encode : be16 (h.encode ++ rest) 14 = h.window := be16_of_drop rfl

theorem flags_encode : byte (h.encode ++ rest) 13 = h.flagByte := rfl

theorem tcphdrSize_encode : tcphdrSize (byte (h.encode ++ rest) 12) = h.size := by
  change tcphdrSize (UInt8.ofNat (h.options.wordCount * 16 + h.reserved)) = h.size
  have hw := h.options.wordCount_mul
  have hle := h.options.wordCount_le
  have hr := h.reserved.isLt
  simp only [tcphdrSize, UInt8.toNat_shiftRight, UInt8.toNat_ofNat', UInt8.reduceToNat,
    Nat.reduceMod, Nat.shiftRight_eq_div_pow, size]
  omega

theorem drop_encode : (h.encode ++ rest).drop h.size = rest := by
  rw [← h.length_encode, List.drop_left]

end TcpHeader

structure UdpHeader where
  source : UInt16
  dest : UInt16
  checksum : UInt16

def UdpHeader.encode (h : UdpHeader) (len : UInt16) : List UInt8 :=
  bytes16 h.source ++ bytes16 h.dest ++ bytes16 len ++ bytes16 h.checksum

namespace UdpHeader

variable (h : UdpHeader) (len : UInt16) (rest : List UInt8)

theorem source_encode : be16 (h.encode len ++ rest) 0 = h.source := be16_of_drop rfl

theorem dest_encode : be16 (h.encode len ++ rest) 2 = h.dest := be16_of_drop rfl

theorem len_encode : be16 (h.encode len ++ rest) 4 = len := be16_of_drop rfl

end UdpHeader

def tcpDatagram (ip : Ipv4Header) (tcp : TcpHeader) (payload : List UInt8) : List UInt8 :=
  ip.encode 6 (UInt16.ofNat (ip.size + tcp.size + payload.length)) ++ tcp.encode ++ payload

def udpDatagram (ip : Ipv4Header) (udp : UdpHeader) (payload : List UInt8) : List UInt8 :=
  ip.encode 17 (UInt16.ofNat (ip.size + 8 + payload.length)) ++
    udp.encode (UInt16.ofNat (8 + payload.length)) ++ payload

/-- What libpcap hands over with the first `cut` bytes of a frame. -/
def captureHeader (ts : Timeval) (frame : List UInt8) (cut : Nat) : PcapPkthdr :=
  ⟨ts, UInt32.ofNat cut, UInt32.ofNat frame.length⟩

theorem take_behind_headers {headers rest : List UInt8} {cut : Nat} (h : headers.length ≤ cut) :
    (headers ++ rest).take cut = headers ++ rest.take (cut - headers.length) := by
  rw [List.take_append, List.take_of_length_le h]

theorem parseFrame_capture {datalink : LinkType} {ts : Timeval} {frame : List UInt8} {cut : Nat}
    (hcut : cut ≤ frame.length) (hlen : frame.length < 2 ^ 31) :
    parseFrame .linux datalink (captureHeader ts frame cut) (frame.take cut) =
      some (frameParsed .linux datalink (captureHeader ts frame cut) (frame.take cut)) := by
  have htake : (frame.take cut).length = cut := List.length_take_of_le hcut
  apply parseFrame_eq
  · simp only [htake, captureHeader, UInt32.toNat_ofNat']
    omega
  · omega

theorem wirelen_capture {ts : Timeval} {frame : List UInt8} {cut n : Nat} (hn : n ≤ frame.length)
    (hlen : frame.length < 2 ^ 31) :
    int32 (int32 (captureHeader ts frame cut).len.toNat - n) = frame.length - n := by
  have hl : (captureHeader ts frame cut).len.toNat = frame.length := by
    simp only [captureHeader, UInt32.toNat_ofNat']
    omega
  rw [int32_int32_sub, hl]
  exact int32_eq_self (by omega) (by omega)

theorem frameParsed_of_ipv4 {layout : TcpLayout} {datalink : LinkType} {header : PcapPkthdr}
    {link ip : List UInt8} (hl : linkhdrSize datalink = some link.length)
    (hmin : 20 ≤ ip.length) (hv : byte ip 0 >>> 4 = 4) :
    frameParsed layout datalink header (link ++ ip) =
      let wirelen := int32 (int32 header.len.toNat - link.length)
      if byte ip 9 = 6 then
        if TcpAccepted ip ip.length wirelen then
          some (tcpParsed layout header.ts ip ip.length (UserPacket.cleared header.len))
        else none
      else if byte ip 9 = 17 then
        if UdpAccepted ip ip.length wirelen then
          some (udpParsed header.ts ip ip.length (UserPacket.cleared header.len))
        else none
      else none := by
  have hcap : (((link ++ ip).length : Int) - link.length) = ip.length := by
    simp
  have hno : ¬((ip.length : Int) < 20 ∨ byte ip 0 >>> 4 ≠ 4) := by
    simp only [hv, ne_eq, not_true_eq_false, or_false]
    omega
  simp only [frameParsed, hl, List.drop_left, hcap, if_neg hno]

theorem take_min_append (payload padding : List UInt8) (k : Nat) :
    ((payload ++ padding).take k).take (min payload.length k) =
      payload.take (min payload.length k) := by
  rw [List.take_take, List.take_append_of_le_length (by omega)]
  congr 1
  omega

/-- The fields a packet owes to the headers both transports have, with `captured`
the number of bytes behind them in the capture. -/
structure UserPacket.Recovers (u : UserPacket) (header : PcapPkthdr) (ip : Ipv4Header)
    (source dest : UInt16) (payload : List UInt8) (captured : Nat) : Prop where
  tv_eq : u.tv = header.ts
  size_eq : u.size = header.len
  ipSrc_eq : u.ipSrc = ip.src
  ipDst_eq : u.ipDst = ip.dst
  portSrc_eq : u.portSrc = source
  portDst_eq : u.portDst = dest
  wirePayloadSize_eq : u.wirePayloadSize = payload.length
  payloadSize_eq : u.payloadSize = (min payload.length captured : Nat)
  payload_eq : u.payload.take u.payloadSize.toNat = payload.take (min payload.length captured)

section

variable {ip : Ipv4Header} {tcp : TcpHeader} {udp : UdpHeader} {total len : UInt16}
  {header : PcapPkthdr} {link payload padding : List UInt8}

theorem tcpHeader_encode (rest : List UInt8) :
    tcpHeader (ip.encode 6 total ++ (tcp.encode ++ rest)) = tcp.size := by
  rw [tcpHeader, ip.transport_encode, tcp.tcphdrSize_encode]

theorem length_tcp_encode (rest : List UInt8) :
    (ip.encode 6 total ++ (tcp.encode ++ rest)).length = ip.size + tcp.size + rest.length := by
  rw [List.length_append, List.length_append, ip.length_encode, tcp.length_encode, Nat.add_assoc]

theorem length_udp_encode (rest : List UInt8) :
    (ip.encode 17 total ++ (udp.encode len ++ rest)).length = ip.size + 8 + rest.length := by
  rw [List.length_append, List.length_append, ip.length_encode, Nat.add_assoc]
  rfl

theorem tcpAccepted_encode {wirelen : Int} (rest : List UInt8)
    (hmin : ip.size + tcp.size ≤ total.toNat) (hw : total.toNat ≤ wirelen) :
    TcpAccepted (ip.encode 6 total ++ (tcp.encode ++ rest))
      (ip.encode 6 total ++ (tcp.encode ++ rest)).length wirelen := by
  have hip : 20 ≤ ip.size := Nat.le_add_right _ _
  have htcp : 20 ≤ tcp.size := Nat.le_add_right _ _
  rw [TcpAccepted, tcpHeader_encode, ip.ipHeader_encode, ip.total_encode, length_tcp_encode]
  omega

theorem udpAccepted_encode {wirelen : Int} (rest : List UInt8) (hmin : 8 ≤ len.toNat)
    (hw : ip.size + len.toNat ≤ wirelen) :
    UdpAccepted (ip.encode 17 total ++ (udp.encode len ++ rest))
      (ip.encode 17 total ++ (udp.encode len ++ rest)).length wirelen := by
  have hip : 20 ≤ ip.size := Nat.le_add_right _ _
  rw [UdpAccepted, udpLength, ip.transport_encode, udp.len_encode, ip.ipHeader_encode,
    length_udp_encode]
  omega

theorem tcpParsed_recovers {k : Nat} (hk : k ≤ (payload ++ padding).length)
    (htotal : total.toNat = ip.size + tcp.size + payload.length) :
    let datagram := ip.encode 6 total ++ (tcp.encode ++ (payload ++ padding).take k)
    let u := tcpParsed .linux header.ts datagram datagram.length (UserPacket.cleared header.len)
    u.Recovers header ip tcp.source tcp.dest payload k ∧
      u.seq = tcp.seq ∧ u.ack = tcp.ackSeq ∧ u.window = tcp.window ∧
      u.flags = TcpHeader.fiveFlags tcp.fin tcp.syn tcp.rst tcp.psh tcp.ack ∧ u.isTcp = true := by
  intro datagram u
  have htrans : transport datagram = tcp.encode ++ (payload ++ padding).take k :=
    ip.transport_encode 6 total _
  have hwire : u.wirePayloadSize = payload.length := by
    change ((be16 datagram 2).toNat : Int) - ipHeader datagram - tcpHeader datagram = _
    rw [ip.total_encode, ip.ipHeader_encode, tcpHeader_encode, htotal]
    omega
  have hsize : u.payloadSize = (min payload.length k : Nat) := by
    change min u.wirePayloadSize (datagram.length - ipHeader datagram - tcpHeader datagram) = _
    rw [hwire, length_tcp_encode, ip.ipHeader_encode, tcpHeader_encode,
      List.length_take_of_le hk]
    omega
  refine ⟨⟨rfl, rfl, ip.src_encode 6 total _, ip.dst_encode 6 total _, ?_, ?_, hwire, hsize, ?_⟩,
    ?_, ?_, ?_, ?_, rfl⟩
  · exact (congrArg (be16 · 0) htrans).trans (tcp.source_encode _)
  · exact (congrArg (be16 · 2) htrans).trans (tcp.dest_encode _)
  · have hpayload : u.payload = (payload ++ padding).take k := by
      change (transport datagram).drop (tcpHeader datagram).toNat = _
      rw [htrans, tcpHeader_encode, Int.toNat_natCast, tcp.drop_encode]
    rw [hsize, hpayload, Int.toNat_natCast, take_min_append]
  · exact (congrArg (be32 · 4) htrans).trans (tcp.seq_encode _)
  · exact (congrArg (be32 · 8) htrans).trans (tcp.ackSeq_encode _)
  · exact (congrArg (be16 · 14) htrans).trans (tcp.window_encode _)
  · change tcpFlags .linux (byte (transport datagram) 13) = _
    rw [htrans, tcp.flags_encode, tcp.tcpFlags_flagByte]

theorem udpParsed_recovers (total : UInt16) {k : Nat} (hk : k ≤ (payload ++ padding).length)
    (hlen : len.toNat = 8 + payload.length) :
    let datagram := ip.encode 17 total ++ (udp.encode len ++ (payload ++ padding).take k)
    let u := udpParsed header.ts datagram datagram.length (UserPacket.cleared header.len)
    u.Recovers header ip udp.source udp.dest payload k ∧ u.flags = 0 ∧ u.isTcp = false := by
  intro datagram u
  have htrans : transport datagram = udp.encode len ++ (payload ++ padding).take k :=
    ip.transport_encode 17 total _
  have hwire : u.wirePayloadSize = payload.length := by
    change udpLength datagram - 8 = _
    rw [udpLength, htrans, udp.len_encode, hlen]
    omega
  have hsize : u.payloadSize = (min payload.length k : Nat) := by
    change min u.wirePayloadSize (datagram.length - ipHeader datagram - 8) = _
    rw [hwire, length_udp_encode, ip.ipHeader_encode, List.length_take_of_le hk]
    omega
  refine ⟨⟨rfl, rfl, ip.src_encode 17 total _, ip.dst_encode 17 total _, ?_, ?_, hwire, hsize, ?_⟩,
    rfl, rfl⟩
  · exact (congrArg (be16 · 0) htrans).trans (udp.source_encode len _)
  · exact (congrArg (be16 · 2) htrans).trans (udp.dest_encode len _)
  · have hpayload : u.payload = (payload ++ padding).take k := by
      change (transport datagram).drop 8 = _
      rw [htrans]
      rfl
    rw [hsize, hpayload, Int.toNat_natCast, take_min_append]

end

theorem take_frame (link iphdr transport payload padding : List UInt8) {n cut : Nat}
    (hn : n = link.length + iphdr.length + transport.length) (hcut : n ≤ cut) :
    (link ++ (iphdr ++ transport ++ payload) ++ padding).take cut =
      link ++ (iphdr ++ (transport ++ (payload ++ padding).take (cut - n))) := by
  have hassoc : link ++ (iphdr ++ transport ++ payload) ++ padding =
      (link ++ iphdr ++ transport) ++ (payload ++ padding) := by simp
  have hl : (link ++ iphdr ++ transport).length = n := by
    rw [List.length_append, List.length_append, hn]
  rw [hassoc, take_behind_headers (by omega), hl]
  simp

section

variable {ts : Timeval} {datalink : LinkType} {link : List UInt8} {ip : Ipv4Header}
  {payload padding : List UInt8} {cut : Nat}

theorem parseFrame_tcp (tcp : TcpHeader) (hlink : linkhdrSize datalink = some link.length)
    (hfits : ip.size + tcp.size + payload.length < 2 ^ 16)
    (hcut : link.length + ip.size + tcp.size ≤ cut)
    (hle : cut ≤ (link ++ tcpDatagram ip tcp payload ++ padding).length)
    (hlen : (link ++ tcpDatagram ip tcp payload ++ padding).length < 2 ^ 31) :
    let frame := link ++ tcpDatagram ip tcp payload ++ padding
    let header := captureHeader ts frame cut
    ∃ u, parseFrame .linux datalink header (frame.take cut) = some (some u) ∧
      u.Recovers header ip tcp.source tcp.dest payload
        (cut - (link.length + ip.size + tcp.size)) ∧
      u.seq = tcp.seq ∧ u.ack = tcp.ackSeq ∧ u.window = tcp.window ∧
      u.flags = TcpHeader.fiveFlags tcp.fin tcp.syn tcp.rst tcp.psh tcp.ack ∧ u.isTcp = true := by
  intro frame header
  obtain ⟨total, htotal⟩ : ∃ total, total = UInt16.ofNat (ip.size + tcp.size + payload.length) :=
    ⟨_, rfl⟩
  have hnat : total.toNat = ip.size + tcp.size + payload.length := by
    rw [htotal, UInt16.toNat_ofNat', Nat.mod_eq_of_lt hfits]
  have hdatagram : tcpDatagram ip tcp payload = ip.encode 6 total ++ tcp.encode ++ payload := by
    rw [tcpDatagram, htotal]
  have hframe : (link ++ tcpDatagram ip tcp payload ++ padding).length =
      link.length + (ip.size + tcp.size + payload.length) + padding.length := by
    simp only [tcpDatagram, List.length_append, ip.length_encode, tcp.length_encode]
  have htake := take_frame link (ip.encode 6 total) tcp.encode payload padding
    (by rw [ip.length_encode, tcp.length_encode]) hcut
  rw [← hdatagram] at htake
  have hk : cut - (link.length + ip.size + tcp.size) ≤ (payload ++ padding).length := by
    rw [List.length_append]
    omega
  refine ⟨_, ?_, tcpParsed_recovers hk hnat⟩
  rw [parseFrame_capture hle hlen, htake, frameParsed_of_ipv4 hlink
    (by rw [length_tcp_encode]; unfold Ipv4Header.size; omega) (ip.version_encode 6 total _),
    if_pos (ip.protocol_encode 6 total _), if_pos (tcpAccepted_encode _ (by omega) ?_)]
  rw [wirelen_capture (by omega) hlen]
  omega

theorem parseFrame_udp (udp : UdpHeader) (hlink : linkhdrSize datalink = some link.length)
    (hfits : ip.size + 8 + payload.length < 2 ^ 16) (hcut : link.length + ip.size + 8 ≤ cut)
    (hle : cut ≤ (link ++ udpDatagram ip udp payload ++ padding).length)
    (hlen : (link ++ udpDatagram ip udp payload ++ padding).length < 2 ^ 31) :
    let frame := link ++ udpDatagram ip udp payload ++ padding
    let header := captureHeader ts frame cut
    ∃ u, parseFrame .linux datalink header (frame.take cut) = some (some u) ∧
      u.Recovers header ip udp.source udp.dest payload (cut - (link.length + ip.size + 8)) ∧
      u.flags = 0 ∧ u.isTcp = false := by
  intro frame header
  obtain ⟨total, htotal⟩ : ∃ total, total = UInt16.ofNat (ip.size + 8 + payload.length) :=
    ⟨_, rfl⟩
  obtain ⟨len, hl⟩ : ∃ len, len = UInt16.ofNat (8 + payload.length) := ⟨_, rfl⟩
  have hnat : len.toNat = 8 + payload.length := by
    rw [hl, UInt16.toNat_ofNat', Nat.mod_eq_of_lt (by omega)]
  have hudp : (udp.encode len).length = 8 := rfl
  have hdatagram : udpDatagram ip udp payload =
      ip.encode 17 total ++ udp.encode len ++ payload := by
    rw [udpDatagram, htotal, hl]
  have hframe : (link ++ udpDatagram ip udp payload ++ padding).length =
      link.length + (ip.size + 8 + payload.length) + padding.length := by
    simp only [hdatagram, List.length_append, ip.length_encode, hudp]
  have htake := take_frame link (ip.encode 17 total) (udp.encode len) payload padding
    (by rw [ip.length_encode, hudp]) hcut
  rw [← hdatagram] at htake
  have hk : cut - (link.length + ip.size + 8) ≤ (payload ++ padding).length := by
    rw [List.length_append]
    omega
  have hproto := ip.protocol_encode 17 total
    (udp.encode len ++ (payload ++ padding).take (cut - (link.length + ip.size + 8)))
  refine ⟨_, ?_, udpParsed_recovers total hk hnat⟩
  rw [parseFrame_capture hle hlen, htake, frameParsed_of_ipv4 hlink
    (by rw [length_udp_encode]; unfold Ipv4Header.size; omega) (ip.version_encode 17 total _),
    if_neg (by rw [hproto]; decide), if_pos hproto, if_pos (udpAccepted_encode _ (by omega) ?_)]
  rw [wirelen_capture (by omega) hlen]
  omega

end

/-- Parsing undoes encoding for every link type the handler knows, all header
options, every padding that keeps the frame below `2 ^ 31` bytes and every cut
behind the transport header: the frame is handed on with the fields it was
built from and no byte of the padding. -/
theorem packetHandler_undoes_encoding (a : Allocs) (s : Sniffer) (ts : Timeval)
    (link : List UInt8) (hlink : linkhdrSize s.datalink = some link.length) (ip : Ipv4Header)
    (payload padding : List UInt8) (cut : Nat) :
    (∀ tcp : TcpHeader, ip.size + tcp.size + payload.length < 2 ^ 16 →
      let frame := link ++ tcpDatagram ip tcp payload ++ padding
      let header := captureHeader ts frame cut
      link.length + ip.size + tcp.size ≤ cut → cut ≤ frame.length → frame.length < 2 ^ 31 →
      ∃ u, packetHandler .linux a s header (frame.take cut) =
          processUserPacket a (dumperWrite s header (frame.take cut)) u ∧
        u.Recovers header ip tcp.source tcp.dest payload
          (cut - (link.length + ip.size + tcp.size)) ∧
        u.seq = tcp.seq ∧ u.ack = tcp.ackSeq ∧ u.window = tcp.window ∧
        u.flags = TcpHeader.fiveFlags tcp.fin tcp.syn tcp.rst tcp.psh tcp.ack ∧
        u.isTcp = true) ∧
    (∀ udp : UdpHeader, ip.size + 8 + payload.length < 2 ^ 16 →
      let frame := link ++ udpDatagram ip udp payload ++ padding
      let header := captureHeader ts frame cut
      link.length + ip.size + 8 ≤ cut → cut ≤ frame.length → frame.length < 2 ^ 31 →
      ∃ u, packetHandler .linux a s header (frame.take cut) =
          processUserPacket a (dumperWrite s header (frame.take cut)) u ∧
        u.Recovers header ip udp.source udp.dest payload (cut - (link.length + ip.size + 8)) ∧
        u.flags = 0 ∧ u.isTcp = false) := by
  constructor
  · intro tcp hfits frame header hcut hle hlen
    obtain ⟨u, hu, hfields⟩ := parseFrame_tcp tcp hlink hfits hcut hle hlen
    exact ⟨u, packetHandler_of_parseFrame hu a, hfields⟩
  · intro udp hfits frame header hcut hle hlen
    obtain ⟨u, hu, hfields⟩ := parseFrame_udp udp hlink hfits hcut hle hlen
    exact ⟨u, packetHandler_of_parseFrame hu a, hfields⟩

def plainIp : Ipv4Header := ⟨0, 1, 0, 64, 0, 0x0100000a, 0x0200000a, ⟨[], rfl, by decide⟩⟩

def plainTcp : TcpHeader :=
  ⟨40000, 6379, 1, 2, 0, false, false, false, true, true, 0, 512, 0, 0, ⟨[], rfl, by decide⟩⟩

theorem packetHandler_undoes_encoding_padded :
    ∃ u, u.payload.take u.payloadSize.toNat = [80, 73, 78, 71] ∧ u.flags = 0x18 ∧
      packetHandler .linux Allocs.all (snifferCreate { protocol := .redis } .raw)
        (captureHeader ⟨7, 0⟩ ([] ++ tcpDatagram plainIp plainTcp [80, 73, 78, 71] ++ [0, 0]) 45)
        (([] ++ tcpDatagram plainIp plainTcp [80, 73, 78, 71] ++ [0, 0]).take 45) =
      processUserPacket Allocs.all
        (dumperWrite (snifferCreate { protocol := .redis } .raw)
          (captureHeader ⟨7, 0⟩ ([] ++ tcpDatagram plainIp plainTcp [80, 73, 78, 71] ++ [0, 0]) 45)
          (([] ++ tcpDatagram plainIp plainTcp [80, 73, 78, 71] ++ [0, 0]).take 45)) u := by
  obtain ⟨u, hu, hr, -, -, -, hf, -⟩ := (packetHandler_undoes_encoding Allocs.all
    (snifferCreate { protocol := .redis } .raw) ⟨7, 0⟩ [] rfl plainIp
    [80, 73, 78, 71] [0, 0] 45).1 plainTcp (by decide) (by decide) (by decide) (by decide)
  exact ⟨u, hr.payload_eq, hf, hu⟩

/-- From `2 ^ 31` bytes on the length of a frame converts to a negative `int`
and the same datagram is skipped, however long its capture is. -/
theorem huge_padding_not_accepted :
    let frame := tcpDatagram plainIp plainTcp [] ++ List.replicate (2 ^ 31) 0
    frame.length < 2 ^ 32 ∧ plainIp.size + plainTcp.size ≤ 40 ∧ 40 ≤ frame.length ∧
      ∀ u, parseFrame .linux .raw (captureHeader ⟨7, 0⟩ frame 40) (frame.take 40) ≠
        some (some u) := by
  intro frame
  have hd : (tcpDatagram plainIp plainTcp []).length = 40 := rfl
  have hlen : frame.length = 40 + 2 ^ 31 := by
    simp only [frame, List.length_append, hd, List.length_replicate]
  have htake : frame.take 40 = tcpDatagram plainIp plainTcp [] := by
    simp only [frame, ← hd, List.take_left]
  have hparse : parseFrame .linux .raw ⟨⟨7, 0⟩, UInt32.ofNat 40, UInt32.ofNat (40 + 2 ^ 31)⟩
      (tcpDatagram plainIp plainTcp []) = some none := by decide
  refine ⟨by omega, by decide, by omega, fun u => ?_⟩
  rw [captureHeader, hlen, htake, hparse]
  simp

end Tcpkit
