import Tcpkit.WireFormat

/-! Savefiles: what `-w` writes through `dumper.c`, and how libpcap opens and reads a file for
`-r`. Words stand in a file as the host that wrote it holds them. -/

namespace Tcpkit

open MachineInt

def uint32 (x : Int) : Nat := (x % 2 ^ 32).toNat

def hostBytes16 (v : UInt16) : List UInt8 := (bytes16 v).reverse

def hostBytes32 (v : UInt32) : List UInt8 := addrBytes v

def le16 (p : List UInt8) (i : Nat) : UInt16 :=
  UInt16.ofNat ((byte p i).toNat + (byte p (i + 1)).toNat * 256)

def swaplong (y : UInt32) : UInt32 :=
  ((y &&& 0xff) <<< 24) ||| ((y &&& 0xff00) <<< 8) ||| ((y &&& 0xff0000) >>> 8) ||| ((y >>> 24) &&& 0xff)

def swapshort (y : UInt16) : UInt16 := ((y &&& 0xff) <<< 8) ||| ((y &&& 0xff00) >>> 8)

def tcpdumpMagic : UInt32 := 0xa1b2c3d4

def kuznetzovTcpdumpMagic : UInt32 := 0xa1b2cd34

def nsecTcpdumpMagic : UInt32 := 0xa1b23c4d

/-- The type of the section header block that a pcapng file begins with. -/
def btShb : UInt32 := 0x0A0D0D0A

def savefileMagic (magic : UInt32) : Bool :=
  magic = tcpdumpMagic ∨ magic = kuznetzovTcpdumpMagic ∨ magic = nsecTcpdumpMagic

section LinkTypes

def dltEn10mb : Int := 1

def dltLinuxSll : Int := 113

def dltUsbLinux : Int := 189

def dltUsbLinuxMmapped : Int := 220

def dltDbus : Int := 231

def dltNflog : Int := 239

def dltAtmClip : Int := 19

/-- The values on Linux, where `DLT_FR` is not defined. -/
def linktypeMap : List (Int × Int) :=
  [(0, 0), (1, 1), (2, 2), (3, 3), (4, 4), (5, 5), (6, 6), (7, 7), (8, 8), (9, 9), (10, 10), (99, 99),
    (11, 100), (12, 101), (15, 102), (16, 103), (104, 104), (19, 106), (50, 50), (51, 51)]

/-- `DLT_PFSYNC` and `DLT_PKTAP` have the values of their link types on Linux. -/
def dltToLinktype (dlt : Int) : Int :=
  if dlt = 246 then 246
  else if dlt = 258 then 258
  else if 104 ≤ dlt ∧ dlt ≤ 275 then dlt
  else ((linktypeMap.find? fun e => e.1 = dlt).map Prod.snd).getD (-1)

def linktypeToDlt (linktype : Int) : Int :=
  if linktype = 246 then 246
  else if linktype = 258 then 258
  else if 104 ≤ linktype ∧ linktype ≤ 275 then linktype
  else ((linktypeMap.find? fun e => e.2 = linktype).map Prod.fst).getD linktype

def maxSnaplenForDlt (dlt : Int) : Nat := if dlt = dltDbus then 134217728 else 262144

def ltLinktype (x : UInt32) : UInt32 := x &&& 0x03FFFFFF

def ltLinktypeExt (x : UInt32) : UInt32 := x &&& 0xFC000000

def LinkType.ofDlt (dlt : Int) : LinkType :=
  if dlt = 0 then .null
  else if dlt = dltEn10mb then .en10mb
  else if dlt = 12 then .raw
  else if dlt = dltLinuxSll then .linuxSll
  else .other dlt

end LinkTypes

/-- What a capture handle tells of its packets. -/
structure Pcap where
  tzoff : UInt32
  snapshot : Int
  linktype : Int
  linktypeExt : UInt32
  deriving DecidableEq

section Dumping

structure PcapFileHeader where
  magic : UInt32
  versionMajor : UInt16
  versionMinor : UInt16
  thiszone : UInt32
  sigfigs : UInt32
  snaplen : UInt32
  linktype : UInt32

def PcapFileHeader.bytes (hdr : PcapFileHeader) : List UInt8 :=
  hostBytes32 hdr.magic ++ hostBytes16 hdr.versionMajor ++ hostBytes16 hdr.versionMinor ++
    hostBytes32 hdr.thiszone ++ hostBytes32 hdr.sigfigs ++ hostBytes32 hdr.snaplen ++
    hostBytes32 hdr.linktype

/-- Captures are taken with microseconds. -/
def sfWriteHeader (p : Pcap) (linktype : UInt32) : List UInt8 :=
  PcapFileHeader.bytes ⟨tcpdumpMagic, 2, 4, p.tzoff, 0, UInt32.ofInt p.snapshot, linktype⟩

/-- What the file holds once it is open, or `none` where no link type stands for the capture's. -/
def pcapDumpOpen (p : Pcap) : Option (List UInt8) :=
  let linktype := dltToLinktype p.linktype
  if linktype = -1 then none
  else some (sfWriteHeader p (UInt32.ofInt linktype ||| p.linktypeExt))

/-- `struct pcap_sf_pkthdr` and the captured bytes. -/
def pcapDump (h : PcapPkthdr) (sp : List UInt8) : List UInt8 :=
  hostBytes32 (UInt32.ofInt h.ts.tvSec) ++ hostBytes32 (UInt32.ofInt h.ts.tvUsec) ++
    hostBytes32 h.caplen ++ hostBytes32 h.len ++ sp.take h.caplen.toNat

/-- The file after `dumper_create` and a `dumper_write` for each of the frames. -/
def dumpedFile (p : Pcap) (saved : List (PcapPkthdr × List UInt8)) : Option (List UInt8) :=
  (pcapDumpOpen p).map fun header => header ++ saved.flatMap fun s => pcapDump s.1 s.2

end Dumping

section Opening

inductive SwappedType where
  | notSwapped
  | swapped
  | maybeSwapped
  deriving DecidableEq

/-- The sniffer asks for microseconds, so that nothing is scaled up. -/
inductive TstampScaleType where
  | passThrough
  | scaleDown
  deriving DecidableEq

structure PcapSf extends Pcap where
  swapped : Bool
  hdrsize : Nat
  lengthsSwapped : SwappedType
  scaleType : TstampScaleType
  deriving DecidableEq

/-- What is left of the file, the size of the packet buffer, and how often memory was asked for. -/
structure SaveStream where
  fp : List UInt8
  bufsize : Nat
  calls : Nat
  deriving DecidableEq

/-- Another format is left to the checks that follow, in the end to the reader of pcapng files. -/
inductive Opened where
  | opened (p : PcapSf) (stream : SaveStream)
  | failed
  | otherFormat
  deriving DecidableEq

/-- The header behind the magic number. -/
def readFileHeader (magic : UInt32) (rest : List UInt8) : PcapFileHeader :=
  ⟨magic, le16 rest 0, le16 rest 2, le32 rest 4, le32 rest 8, le32 rest 12, le32 rest 16⟩

def PcapFileHeader.toHost (hdr : PcapFileHeader) (swapped : Bool) : PcapFileHeader :=
  if swapped then
    { hdr with
      versionMajor := swapshort hdr.versionMajor, versionMinor := swapshort hdr.versionMinor
      thiszone := swaplong hdr.thiszone, sigfigs := swaplong hdr.sigfigs
      snaplen := swaplong hdr.snaplen, linktype := swaplong hdr.linktype }
  else hdr

/-- The snapshot length, or the maximum in place of a bogus one. -/
def PcapFileHeader.snapshot (hdr : PcapFileHeader) : Int :=
  if int32 hdr.snaplen.toNat ≤ 0 then maxSnaplenForDlt (int32 hdr.linktype.toNat)
  else int32 hdr.snaplen.toNat

def PcapFileHeader.lengthsSwapped (hdr : PcapFileHeader) : SwappedType :=
  if hdr.versionMajor = 2 then
    if hdr.versionMinor < 3 then .swapped
    else if hdr.versionMinor = 3 then .maybeSwapped
    else .notSwapped
  else if hdr.versionMajor = 543 then .swapped
  else .notSwapped

/-- The patched format has longer packet headers, and room for a faked Ethernet header. -/
def PcapFileHeader.handle (hdr : PcapFileHeader) (swapped : Bool) : PcapSf where
  tzoff := hdr.thiszone
  snapshot :=
    if hdr.magic = kuznetzovTcpdumpMagic ∧
        linktypeToDlt (ltLinktype hdr.linktype).toNat = dltEn10mb then int32 (hdr.snapshot + 14)
    else hdr.snapshot
  linktype := linktypeToDlt (ltLinktype hdr.linktype).toNat
  linktypeExt := ltLinktypeExt hdr.linktype
  swapped := swapped
  hdrsize := if hdr.magic = kuznetzovTcpdumpMagic then 24 else 16
  lengthsSwapped := hdr.lengthsSwapped
  scaleType := if hdr.magic = nsecTcpdumpMagic then .scaleDown else .passThrough

def PcapFileHeader.supported (hdr : PcapFileHeader) : Bool :=
  hdr.versionMajor = 2 ∧ hdr.versionMinor ≤ 4 ∨ hdr.versionMajor = 543 ∧ hdr.versionMinor = 0

/-- `answers k` tells whether the `k`-th request for memory is granted. -/
def pcapCheckHeader (answers : Nat → Bool) (magic : UInt32) (fp : List UInt8) : Opened :=
  let swapped := !savefileMagic magic
  let magic := if swapped then swaplong magic else magic
  if !savefileMagic magic then .otherFormat
  else if (fp.take 20).length ≠ 20 then .failed
  else
    let hdr := (readFileHeader magic (fp.take 20)).toHost swapped
    if hdr.versionMajor < 2 then .failed
    else if !hdr.supported then .failed
    else if !answers 0 then .failed
    else if !answers 1 then .failed
    else .opened (hdr.handle swapped) ⟨fp.drop 20, min (uint32 (hdr.handle swapped).snapshot) 2048, 2⟩

def pcapFopenOffline (answers : Nat → Bool) (fp : List UInt8) : Opened :=
  if (fp.take 4).length ≠ 4 then .failed
  else
    match pcapCheckHeader answers (le32 fp 0) (fp.drop 4) with
    | .otherFormat => if le32 fp 0 = btShb then .otherFormat else .failed
    | o => o

end Opening

section Reading

/-- The statuses `0`, `1` and `-1`. -/
inductive NextPacket where
  | packet (hdr : PcapPkthdr) (data : List UInt8)
  | eof
  | error
  deriving DecidableEq

def growBuffer (answers : Nat → Bool) (r : SaveStream) (bufsize : Nat) : Bool × SaveStream :=
  if answers r.calls then (true, { r with bufsize := bufsize, calls := r.calls + 1 })
  else (false, { r with calls := r.calls + 1 })

/-- `fread` of `n` bytes into the packet buffer, which has to have room for them. -/
def freadBuffer (r : SaveStream) (n : Nat) : Access (List UInt8 × SaveStream) :=
  if n ≤ r.bufsize then some (r.fp.take n, { r with fp := r.fp.drop n }) else none

/-- Reads `bytesToDiscard` bytes, 4096 at a time. -/
def discardLoop (bytesToDiscard : Nat) (fp : List UInt8) : Option (List UInt8) :=
  if bytesToDiscard = 0 then some fp
  else
    let bytesToRead := min bytesToDiscard 4096
    if (fp.take bytesToRead).length ≠ bytesToRead then none
    else discardLoop (bytesToDiscard - bytesToRead) (fp.drop bytesToRead)
termination_by bytesToDiscard
decreasing_by omega

/-- The next power of two, without wrapping for the lengths it is used on. -/
def nextPowerOf2 (caplen : Nat) : Nat :=
  let n := caplen - 1
  let n := n ||| n >>> 1
  let n := n ||| n >>> 2
  let n := n ||| n >>> 4
  let n := n ||| n >>> 8
  let n := n ||| n >>> 16
  n + 1

def scaleTime (scale : TstampScaleType) (ts : Timeval) : Timeval :=
  match scale with
  | .passThrough => ts
  | .scaleDown => { ts with tvUsec := ts.tvUsec.tdiv 1000 }

def swapLengths (order : SwappedType) (hdr : PcapPkthdr) : PcapPkthdr :=
  match order with
  | .notSwapped => hdr
  | .maybeSwapped =>
    if hdr.caplen ≤ hdr.len then hdr else { hdr with caplen := hdr.len, len := hdr.caplen }
  | .swapped => { hdr with caplen := hdr.len, len := hdr.caplen }

/-- The packet header, with the signed time of the host or the unsigned one of a swapped file. -/
def PcapSf.packetHeader (p : PcapSf) (sfHdr : List UInt8) : PcapPkthdr :=
  let hdr : PcapPkthdr :=
    if p.swapped then
      ⟨⟨(swaplong (le32 sfHdr 0)).toNat, (swaplong (le32 sfHdr 4)).toNat⟩,
        swaplong (le32 sfHdr 8), swaplong (le32 sfHdr 12)⟩
    else
      ⟨⟨int32 (le32 sfHdr 0).toNat, int32 (le32 sfHdr 4).toNat⟩, le32 sfHdr 8, le32 sfHdr 12⟩
  swapLengths p.lengthsSwapped { hdr with ts := scaleTime p.scaleType hdr.ts }

/-- `SWAPSHORT`, `SWAPLONG` or `SWAPLL` of a field of the packet, which has to be in its buffer. -/
def swapField (size i : Nat) (buf : List UInt8) : Access (List UInt8) :=
  if i + size ≤ buf.length then
    some (buf.take i ++ (((buf.drop i).take size).reverse ++ buf.drop (i + size)))
  else none

/-- The CAN identifier behind a cooked header is in the byte order of the host. -/
def swapLinuxSllHeader (hdr : PcapPkthdr) (buf : List UInt8) : Access (List UInt8) :=
  if hdr.caplen < 16 ∨ hdr.len < 16 then some buf
  else if be16 buf 14 ≠ 0x000C ∧ be16 buf 14 ≠ 0x000D then some buf
  else if hdr.caplen < 20 ∨ hdr.len < 20 then some buf
  else swapField 4 16 buf

/-- The last `size` of each `skip` bytes are swapped, as far as they were captured; with the offset
behind them, none where the packet ends before. -/
def swapFields (caplen : Nat) : List (Nat × Nat) → Nat → List UInt8 → Access (List UInt8 × Option Nat)
  | [], offset, buf => some (buf, some offset)
  | (skip, size) :: fields, offset, buf =>
    if caplen < offset + skip then some (buf, none)
    else (swapField size (offset + skip - size) buf).bind (swapFields caplen fields (offset + skip))

/-- The isochronous descriptors: `status`, `offset`, `len` and padding. -/
def isodescLoop (caplen : Nat) : Nat → Nat → List UInt8 → Access (List UInt8)
  | 0, _, buf => some buf
  | n + 1, offset, buf =>
    (swapFields caplen [(4, 4), (4, 4), (4, 4)] offset buf).bind fun r =>
      match r.2 with
      | none => some r.1
      | some offset => isodescLoop caplen n (offset + 4) r.1

/-- `id`, `bus_id`, `ts_sec`, `ts_usec`, `status`, `urb_len` and `data_len`. -/
def usbFields : List (Nat × Nat) := [(8, 8), (6, 2), (10, 8), (4, 4), (4, 4), (4, 4), (4, 4)]

def urbIsochronous : UInt8 := 0

/-- `error_count` and `numdesc` of an isochronous transfer; the setup header of another one is left. -/
def swapUsbTransfer (caplen offset : Nat) (buf : List UInt8) : Access (List UInt8 × Option Nat) :=
  if byte buf 9 = urbIsochronous then swapFields caplen [(4, 4), (4, 4)] offset buf
  else some (buf, some (offset + 8))

/-- `interval`, `start_frame`, `xfer_flags` and `ndesc`, and the descriptors. -/
def swapUsbMmapped (caplen offset : Nat) (buf : List UInt8) : Access (List UInt8) :=
  (swapFields caplen [(4, 4), (4, 4), (4, 4), (4, 4)] offset buf).bind fun r =>
    match r.2 with
    | none => some r.1
    | some offset =>
      if byte r.1 9 = urbIsochronous then isodescLoop caplen (le32 r.1 60).toNat offset r.1 else some r.1

def swapLinuxUsbHeader (hdr : PcapPkthdr) (buf : List UInt8) (headerLen64Bytes : Bool) :
    Access (List UInt8) :=
  (swapFields hdr.caplen.toNat usbFields 0 buf).bind fun r =>
    match r.2 with
    | none => some r.1
    | some offset =>
      (swapUsbTransfer hdr.caplen.toNat offset r.1).bind fun r =>
        match r.2 with
        | none => some r.1
        | some offset => if headerLen64Bytes then swapUsbMmapped hdr.caplen.toNat offset r.1 else some r.1

/-- The length rounded up, in 16 bits. -/
def nflogSize (tlvLength : UInt16) : UInt16 :=
  if tlvLength % 4 ≠ 0 then tlvLength + (4 - tlvLength % 4) else tlvLength

/-- The loop over the values of an NFLOG packet: the type and the length of each are swapped. -/
def nflogLoop (caplen length p : Nat) (buf : List UInt8) : Access (List UInt8) :=
  if caplen < 4 then some buf
  else
    (swapField 2 (p + 2) buf).bind fun buf =>
      (swapField 2 p buf).bind fun buf =>
        let size := (nflogSize (le16 buf p)).toNat
        if size < 4 then some buf
        else if caplen < size ∨ length < size then some buf
        else nflogLoop (caplen - size) (length - size) (p + size) buf
termination_by caplen
decreasing_by omega

def swapNflogHeader (hdr : PcapPkthdr) (buf : List UInt8) : Access (List UInt8) :=
  if hdr.caplen < 4 ∨ hdr.len < 4 then some buf
  else if byte buf 1 ≠ 0 then some buf
  else nflogLoop (hdr.caplen.toNat - 4) (hdr.len.toNat - 4) 4 buf

def swapPseudoHeaders (linktype : Int) (hdr : PcapPkthdr) (data : List UInt8) : Access (List UInt8) :=
  if linktype = dltLinuxSll then swapLinuxSllHeader hdr data
  else if linktype = dltUsbLinux then swapLinuxUsbHeader hdr data false
  else if linktype = dltUsbLinuxMmapped then swapLinuxUsbHeader hdr data true
  else if linktype = dltNflog then swapNflogHeader hdr data
  else some data

def PcapSf.handOut (p : PcapSf) (hdr : PcapPkthdr) (data : List UInt8) : Access NextPacket :=
  if p.swapped then (swapPseudoHeaders p.linktype hdr data).map (.packet hdr) else some (.packet hdr data)

/-- A packet longer than the snapshot length is cut to it, and the rest is read and discarded. -/
def readCut (answers : Nat → Bool) (p : PcapSf) (hdr : PcapPkthdr) (r : SaveStream) :
    Access (NextPacket × SaveStream) :=
  let grown := if r.bufsize < hdr.caplen.toNat then growBuffer answers r (uint32 p.snapshot) else (true, r)
  if !grown.1 then some (.error, grown.2)
  else
    (freadBuffer grown.2 (uint32 p.snapshot)).bind fun r =>
      if r.1.length ≠ uint32 p.snapshot then some (.error, r.2)
      else
        match discardLoop (hdr.caplen.toNat - uint32 p.snapshot) r.2.fp with
        | none => some (.error, { r.2 with fp := [] })
        | some rest =>
          (p.handOut { hdr with caplen := UInt32.ofInt p.snapshot } r.1).map (·, { r.2 with fp := rest })

def readWhole (answers : Nat → Bool) (p : PcapSf) (hdr : PcapPkthdr) (r : SaveStream) :
    Access (NextPacket × SaveStream) :=
  let grown :=
    if r.bufsize < hdr.caplen.toNat then
      growBuffer answers r (min (nextPowerOf2 hdr.caplen.toNat) (uint32 p.snapshot))
    else (true, r)
  if !grown.1 then some (.error, grown.2)
  else
    (freadBuffer grown.2 hdr.caplen.toNat).bind fun r =>
      if r.1.length ≠ hdr.caplen.toNat then some (.error, r.2) else (p.handOut hdr r.1).map (·, r.2)

def pcapNextPacket (answers : Nat → Bool) (p : PcapSf) (r : SaveStream) :
    Access (NextPacket × SaveStream) :=
  let sfHdr := r.fp.take p.hdrsize
  let r := { r with fp := r.fp.drop p.hdrsize }
  if sfHdr.length ≠ p.hdrsize then some (if sfHdr.length ≠ 0 then .error else .eof, r)
  else
    let hdr := p.packetHeader sfHdr
    if maxSnaplenForDlt p.linktype < hdr.caplen.toNat then some (.error, r)
    else if uint32 p.snapshot < hdr.caplen.toNat then readCut answers p hdr r
    else readWhole answers p hdr r

end Reading

section Looping

variable {σ : Type}

/-- The file, what the callback works on, whether the loop is told to end, and how often it has
looked whether it is. -/
structure OfflineState (σ : Type) where
  stream : SaveStream
  user : σ
  breakLoop : Bool
  checks : Nat

/-- `pcap_offline_read` without a limit on the packets. `breaks k` tells whether
`pcap_breakloop` is called before the flag is looked at for the `k`-th time, `accepts` is the
compiled filter, and `n` counts the packets handed out in an `int`. -/
def pcapOfflineRead (answers breaks : Nat → Bool) (accepts : PcapPkthdr → List UInt8 → Bool)
    (p : PcapSf) (callback : σ → PcapPkthdr → List UInt8 → Access σ) :
    Nat → Int → OfflineState σ → Access (Int × OfflineState σ)
  | 0, _, _ => none
  | fuel + 1, n, t =>
    if t.breakLoop || breaks t.checks then
      if n = 0 then some (-2, { t with breakLoop := false, checks := t.checks + 1 })
      else some (n, { t with breakLoop := true, checks := t.checks + 1 })
    else
      (pcapNextPacket answers p t.stream).bind fun r =>
        match r.1 with
        | .eof => some (0, { t with stream := r.2, checks := t.checks + 1 })
        | .error => some (-1, { t with stream := r.2, checks := t.checks + 1 })
        | .packet hdr data =>
          if accepts hdr data then
            (callback t.user hdr data).bind fun user =>
              pcapOfflineRead answers breaks accepts p callback fuel (int32 (n + 1))
                ⟨r.2, user, false, t.checks + 1⟩
          else
            pcapOfflineRead answers breaks accepts p callback fuel n ⟨r.2, t.user, false, t.checks + 1⟩

/-- `pcap_loop` with the count -1: it goes on while packets were handed out. -/
def pcapLoop (answers breaks : Nat → Bool) (accepts : PcapPkthdr → List UInt8 → Bool)
    (p : PcapSf) (callback : σ → PcapPkthdr → List UInt8 → Access σ) :
    Nat → OfflineState σ → Access (Int × OfflineState σ)
  | 0, _ => none
  | fuel + 1, t =>
    (pcapOfflineRead answers breaks accepts p callback (t.stream.fp.length + 1) 0 t).bind fun r =>
      if r.1 ≤ 0 then some r else pcapLoop answers breaks accepts p callback fuel r.2

end Looping

end Tcpkit
