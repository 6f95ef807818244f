import Tcpkit.Sniffer

/-! Parsing a captured frame, as in `process_tcp_packet`, `process_udp_packet`
and `packet_handler`. Header fields are read byte by byte from the capture, so
that every access is one that can fall outside it. -/

namespace Tcpkit

open MachineInt

def be16At (p : List UInt8) (i : Nat) : Access UInt16 := do
  let a ← p[i]?
  let b ← p[i + 1]?
  return UInt16.ofNat (a.toNat * 256 + b.toNat)

def be32At (p : List UInt8) (i : Nat) : Access UInt32 := do
  let a ← p[i]?
  let b ← p[i + 1]?
  let c ← p[i + 2]?
  let d ← p[i + 3]?
  return UInt32.ofNat (a.toNat * 16777216 + b.toNat * 65536 + c.toNat * 256 + d.toNat)

/-- An `in_addr` copied without conversion on a little-endian host. -/
def le32At (p : List UInt8) (i : Nat) : Access UInt32 := do
  let a ← p[i]?
  let b ← p[i + 1]?
  let c ← p[i + 2]?
  let d ← p[i + 3]?
  return UInt32.ofNat (a.toNat + b.toNat * 256 + c.toNat * 65536 + d.toNat * 16777216)

/-- The two declarations of `struct tcphdr` the code is compiled against. -/
inductive TcpLayout where
  | linux
  | bsd
  deriving DecidableEq

/-- `flags` from the byte after the data offset: BSD copies it, Linux rebuilds
it from the bit fields `fin`, `syn`, `rst`, `psh` and `ack`. -/
def tcpFlags : TcpLayout → UInt8 → UInt8
  | .bsd, b => b
  | .linux, b =>
    let fin : UInt8 := b &&& 1
    let syn : UInt8 := (b >>> 1) &&& 1
    let rst : UInt8 := (b >>> 2) &&& 1
    let psh : UInt8 := (b >>> 3) &&& 1
    let ack : UInt8 := (b >>> 4) &&& 1
    let flags := fin ||| (syn <<< 1) ||| (rst <<< 2) ||| (psh <<< 3)
    if ack ≠ 0 then flags ||| 0x10 else flags

abbrev iphdrMin : Int := 20

abbrev tcphdrMin : Int := 20

abbrev udphdrSize : Int := 8

def iphdrSize (vhl : UInt8) : Int := (vhl &&& 0x0f).toNat * 4

def tcphdrSize (off : UInt8) : Int := (off >>> 4).toNat * 4

structure IpAddrs where
  ipSrc : UInt32
  ipDst : UInt32

def readIpAddrs (ipPacket : List UInt8) : Access IpAddrs := do
  let ipSrc ← le32At ipPacket 12
  let ipDst ← le32At ipPacket 16
  return ⟨ipSrc, ipDst⟩

structure Tcphdr where
  seq : UInt32
  ackSeq : UInt32
  flags : UInt8
  source : UInt16
  dest : UInt16
  window : UInt16
  off : UInt8

def readTcphdr (tcphdr : List UInt8) : Access Tcphdr := do
  let seq ← be32At tcphdr 4
  let ackSeq ← be32At tcphdr 8
  let flags ← tcphdr[13]?
  let source ← be16At tcphdr 0
  let dest ← be16At tcphdr 2
  let window ← be16At tcphdr 14
  let off ← tcphdr[12]?
  return ⟨seq, ackSeq, flags, source, dest, window, off⟩

structure Udphdr where
  source : UInt16
  dest : UInt16
  len : UInt16

def readUdphdr (udphdr : List UInt8) : Access Udphdr := do
  let source ← be16At udphdr 0
  let dest ← be16At udphdr 2
  let len ← be16At udphdr 4
  return ⟨source, dest, len⟩

/-- `some none` is the result -1. -/
def processTcpPacket (layout : TcpLayout) (tv : Timeval) (ipPacket : List UInt8)
    (caplen wirelen : Int) (packet : UserPacket) : Access (Option UserPacket) := do
  let iphdr ← ipPacket[0]?.map iphdrSize
  if iphdr < iphdrMin then return none
  if caplen < iphdr + tcphdrMin then return none
  let addrs ← readIpAddrs ipPacket
  let tcphdr ← readTcphdr (ipPacket.drop iphdr.toNat)
  if tcphdrSize tcphdr.off < tcphdrMin then return none
  if caplen < iphdr + tcphdrSize tcphdr.off then return none
  let iplen ← (be16At ipPacket 2).map fun n => (n.toNat : Int)
  if iplen < iphdr + tcphdrSize tcphdr.off ∨ iplen > wirelen then return none
  let wire := iplen - iphdr - tcphdrSize tcphdr.off
  let captured := caplen - iphdr - tcphdrSize tcphdr.off
  return some
    { packet with
      tv := tv, ipSrc := addrs.ipSrc, ipDst := addrs.ipDst
      seq := tcphdr.seq, ack := tcphdr.ackSeq, flags := tcpFlags layout tcphdr.flags
      portSrc := tcphdr.source, portDst := tcphdr.dest, window := tcphdr.window
      wirePayloadSize := wire
      payload := (ipPacket.drop iphdr.toNat).drop (tcphdrSize tcphdr.off).toNat
      payloadSize := if wire < captured then wire else captured, isTcp := true }

def processUdpPacket (tv : Timeval) (ipPacket : List UInt8) (caplen wirelen : Int)
    (packet : UserPacket) : Access (Option UserPacket) := do
  let iphdr ← ipPacket[0]?.map iphdrSize
  if iphdr < iphdrMin then return none
  if caplen < iphdr + udphdrSize then return none
  let addrs ← readIpAddrs ipPacket
  let udphdr ← readUdphdr (ipPacket.drop iphdr.toNat)
  if (udphdr.len.toNat : Int) < udphdrSize then return none
  if iphdr + udphdr.len.toNat > wirelen then return none
  let wire := udphdr.len.toNat - udphdrSize
  let captured := caplen - iphdr - udphdrSize
  return some
    { packet with
      tv := tv, ipSrc := addrs.ipSrc, ipDst := addrs.ipDst
      portSrc := udphdr.source, portDst := udphdr.dest
      wirePayloadSize := wire
      payload := (ipPacket.drop iphdr.toNat).drop udphdrSize.toNat
      payloadSize := if wire < captured then wire else captured, isTcp := false }

def linkhdrSize : LinkType → Option Nat
  | .null => some 4
  | .linuxSll => some 16
  | .en10mb => some 14
  | .raw => some 0
  | .other _ => none

def UserPacket.cleared (size : UInt32) : UserPacket :=
  ⟨0, false, ⟨0, 0⟩, 0, 0, 0, 0, 0, 0, 0, size, 0, 0, []⟩

/-- The parsing half of `packet_handler`: `some none` for a frame it skips. -/
def parseFrame (layout : TcpLayout) (datalink : LinkType) (header : PcapPkthdr)
    (packet : List UInt8) : Access (Option UserPacket) :=
  match linkhdrSize datalink with
  | none => some none
  | some linkhdr => do
    let caplen := int32 (int32 header.caplen.toNat - linkhdr)
    let wirelen := int32 (int32 header.len.toNat - linkhdr)
    if caplen < iphdrMin then return none
    let ipPacket : List UInt8 := packet.drop linkhdr
    let vhl : UInt8 ← ipPacket[0]?
    if vhl >>> 4 ≠ 4 then return none
    let proto : UInt8 ← ipPacket[9]?
    if proto = 6 then
      processTcpPacket layout header.ts ipPacket caplen wirelen (UserPacket.cleared header.len)
    else if proto = 17 then
      processUdpPacket header.ts ipPacket caplen wirelen (UserPacket.cleared header.len)
    else return none

def dumperWrite (s : Sniffer) (header : PcapPkthdr) (packet : List UInt8) : Sniffer :=
  { s with dumper := s.dumper.map fun saved => saved ++ [(header, packet)] }

def packetHandler (layout : TcpLayout) (a : Allocs) (s : Sniffer) (header : PcapPkthdr)
    (packet : List UInt8) : Access (Sniffer × List Event) := do
  let s := dumperWrite s header packet
  match ← parseFrame layout s.datalink header packet with
  | none => return (s, [])
  | some upacket => processUserPacket a s upacket

end Tcpkit
