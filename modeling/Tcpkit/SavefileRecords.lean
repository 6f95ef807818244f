import Tcpkit.SavefileReading

/-! Savefiles that are well written, by a host of either byte order: they are opened with what their
header says, and read to their end they give the packets that were put into them. -/

namespace Tcpkit

open MachineInt

section Writing

def shortBytes (swapped : Bool) (v : UInt16) : List UInt8 := if swapped then bytes16 v else hostBytes16 v

def longBytes (swapped : Bool) (v : UInt32) : List UInt8 := if swapped then bytes32 v else hostBytes32 v

/-- The file header as a host of either byte order writes it. -/
def PcapFileHeader.bytesOf (swapped : Bool) (hdr : PcapFileHeader) : List UInt8 :=
  longBytes swapped hdr.magic ++ (shortBytes swapped hdr.versionMajor ++
    (shortBytes swapped hdr.versionMinor ++ (longBytes swapped hdr.thiszone ++
      (longBytes swapped hdr.sigfigs ++ (longBytes swapped hdr.snaplen ++ longBytes swapped hdr.linktype)))))

def recordHeader (swapped : Bool) (h : PcapPkthdr) : List UInt8 :=
  longBytes swapped (UInt32.ofInt h.ts.tvSec) ++ (longBytes swapped (UInt32.ofInt h.ts.tvUsec) ++
    (longBytes swapped h.caplen ++ longBytes swapped h.len))

def recordsOf (swapped : Bool) (packets : List SavedPacket) : List UInt8 :=
  packets.flatMap fun f => recordHeader swapped f.1 ++ f.2

theorem dumpedFile_eq {p : Pcap} {packets : List SavedPacket}
    (h : ∀ f ∈ packets, f.2.length = f.1.caplen.toNat) :
    dumpedFile p packets = (pcapDumpOpen p).map fun header => header ++ recordsOf false packets := by
  have hrecords : packets.flatMap (fun s => pcapDump s.1 s.2) = recordsOf false packets := by
    refine List.flatMap_congr fun f hf => ?_
    rw [pcapDump, List.take_of_length_le (h f hf).le]
    simp [recordHeader, longBytes]
  rw [dumpedFile, hrecords]

theorem le16_hostBytes16 (v : UInt16) (rest : List UInt8) : le16 (hostBytes16 v ++ rest) 0 = v := by
  rw [← be16_bytes16 v rest]
  change UInt16.ofNat (_ + _) = UInt16.ofNat (_ + _)
  congr 1
  rw [be16_bytes16]
  change (UInt8.ofNat v.toNat).toNat + (UInt8.ofNat (v.toNat / 256)).toNat * 256 = _
  change _ = (UInt8.ofNat (v.toNat / 256)).toNat * 256 + (UInt8.ofNat v.toNat).toNat
  omega

theorem short_of_drop {swapped : Bool} {p rest : List UInt8} {i : Nat} {v : UInt16}
    (h : p.drop i = shortBytes swapped v ++ rest) :
    (if swapped then swapshort (le16 p i) else le16 p i) = v := by
  cases swapped with
  | true =>
    rw [if_pos rfl, swapshort_le16]
    exact be16_of_drop h
  | false =>
    have hdrop : le16 p i = le16 (p.drop i) 0 := by simp [le16, byte]
    rw [if_neg Bool.false_ne_true, hdrop, h]
    exact le16_hostBytes16 v rest

theorem long_of_drop {swapped : Bool} {p rest : List UInt8} {i : Nat} {v : UInt32}
    (h : p.drop i = longBytes swapped v ++ rest) :
    (if swapped then swaplong (le32 p i) else le32 p i) = v := by
  cases swapped with
  | true =>
    rw [if_pos rfl, swaplong_le32]
    exact be32_of_drop h
  | false =>
    rw [if_neg Bool.false_ne_true]
    exact le32_of_drop h

theorem length_longBytes (swapped : Bool) (v : UInt32) : (longBytes swapped v).length = 4 := by
  cases swapped <;> rfl

theorem length_shortBytes (swapped : Bool) (v : UInt16) : (shortBytes swapped v).length = 2 := by
  cases swapped <;> rfl

theorem length_recordHeader (swapped : Bool) (h : PcapPkthdr) : (recordHeader swapped h).length = 16 := by
  simp [recordHeader, length_longBytes]

/-- A time that the words of a file hold, signed on a host of our own byte order. -/
def Representable (swapped : Bool) (x : Int) : Prop :=
  if swapped then 0 ≤ x ∧ x < 2 ^ 32 else -2 ^ 31 ≤ x ∧ x < 2 ^ 31

theorem time_of_representable (swapped : Bool) {x : Int} (h : Representable swapped x) :
    (if swapped then ((UInt32.ofInt x).toNat : Int) else int32 (UInt32.ofInt x).toNat) = x := by
  cases swapped with
  | true =>
    obtain ⟨hlo, hhi⟩ := h
    rw [if_pos rfl, uint32_ofInt, uint32]
    omega
  | false =>
    obtain ⟨hlo, hhi⟩ := h
    rw [if_neg Bool.false_ne_true, uint32_ofInt, uint32, Int.toNat_of_nonneg (by omega), int32, Int.bmod]
    omega

section Files

variable {answers : Nat → Bool} {hdr : PcapFileHeader} {swapped : Bool}

theorem length_bytesOf (swapped : Bool) (hdr : PcapFileHeader) : (hdr.bytesOf swapped).length = 24 := by
  simp [PcapFileHeader.bytesOf, length_longBytes, length_shortBytes]

/-- The magic numbers of the formats without a patched packet header. -/
def PcapFileHeader.Plain (hdr : PcapFileHeader) : Prop :=
  hdr.magic = tcpdumpMagic ∨ hdr.magic = nsecTcpdumpMagic

theorem savefileMagic_own {rest : List UInt8} (h : hdr.Plain) :
    savefileMagic (le32 (hdr.bytesOf swapped ++ rest) 0) = !swapped := by
  have hfront : le32 (hdr.bytesOf swapped ++ rest) 0 = le32 (longBytes swapped hdr.magic) 0 := by
    rw [PcapFileHeader.bytesOf, List.append_assoc]
    cases swapped <;> rfl
  rw [hfront]
  rcases h with h | h <;> rw [h] <;> cases swapped <;> decide

theorem drop_append_eq {xs ys : List UInt8} {n : Nat} (h : xs.length = n) : (xs ++ ys).drop n = ys := by
  rw [← h, List.drop_left]

theorem header_of_bytes (magic : UInt32) (swapped : Bool) (hdr : PcapFileHeader)
    (hmagic : hdr.magic = magic) :
    (readFileHeader magic ((hdr.bytesOf swapped).drop 4)).toHost swapped = hdr := by
  subst hmagic
  generalize hp : (hdr.bytesOf swapped).drop 4 = p
  have h0 : p.drop 0 = shortBytes swapped hdr.versionMajor ++ (shortBytes swapped hdr.versionMinor ++
      (longBytes swapped hdr.thiszone ++ (longBytes swapped hdr.sigfigs ++
        (longBytes swapped hdr.snaplen ++ longBytes swapped hdr.linktype)))) := by
    rw [List.drop_zero, ← hp]
    exact drop_append_eq (length_longBytes _ _)
  have h2 := congrArg (List.drop 2) h0
  rw [List.drop_drop, drop_append_eq (length_shortBytes _ _)] at h2
  have h4 := congrArg (List.drop 2) h2
  rw [List.drop_drop, drop_append_eq (length_shortBytes _ _)] at h4
  have h8 := congrArg (List.drop 4) h4
  rw [List.drop_drop, drop_append_eq (length_longBytes _ _)] at h8
  have h12 := congrArg (List.drop 4) h8
  rw [List.drop_drop, drop_append_eq (length_longBytes _ _)] at h12
  have h16 := congrArg (List.drop 4) h12
  rw [List.drop_drop, drop_append_eq (length_longBytes _ _), ← List.append_nil (longBytes _ _)] at h16
  have heach : (readFileHeader hdr.magic p).toHost swapped =
      ⟨hdr.magic, if swapped then swapshort (le16 p 0) else le16 p 0,
        if swapped then swapshort (le16 p 2) else le16 p 2,
        if swapped then swaplong (le32 p 4) else le32 p 4, if swapped then swaplong (le32 p 8) else le32 p 8,
        if swapped then swaplong (le32 p 12) else le32 p 12,
        if swapped then swaplong (le32 p 16) else le32 p 16⟩ := by
    cases swapped <;> rfl
  rw [heach, short_of_drop h0, short_of_drop h2, long_of_drop h4, long_of_drop h8, long_of_drop h12,
    long_of_drop h16]

/-- A file with a supported header is opened with what the header says. -/
theorem pcapFopenOffline_header (swapped : Bool) (h0 : answers 0 = true) (h1 : answers 1 = true)
    (hplain : hdr.Plain)
    (hversion : hdr.versionMajor = 2 ∧ hdr.versionMinor = 4) (rest : List UInt8) :
    pcapFopenOffline answers (hdr.bytesOf swapped ++ rest) =
      .opened (hdr.handle swapped) ⟨rest, min (uint32 (hdr.handle swapped).snapshot) 2048, 2⟩ := by
  have hlen := length_bytesOf swapped hdr
  have hfour : ((hdr.bytesOf swapped ++ rest).take 4).length = 4 := by
    rw [List.length_take, List.length_append]
    omega
  have hdrop4 : (hdr.bytesOf swapped ++ rest).drop 4 = (hdr.bytesOf swapped).drop 4 ++ rest :=
    List.drop_append_of_le_length (by omega)
  have hbody : ((hdr.bytesOf swapped).drop 4).length = 20 := by
    rw [List.length_drop, hlen]
  have htake : ((hdr.bytesOf swapped).drop 4 ++ rest).take 20 = (hdr.bytesOf swapped).drop 4 := by
    rw [← hbody, List.take_left]
  have hdrop : ((hdr.bytesOf swapped).drop 4 ++ rest).drop 20 = rest := drop_append_eq hbody
  have hmagic : (if !(!swapped) then swaplong (le32 (hdr.bytesOf swapped ++ rest) 0)
      else le32 (hdr.bytesOf swapped ++ rest) 0) = hdr.magic := by
    rw [Bool.not_not]
    exact long_of_drop (by rw [List.drop_zero, PcapFileHeader.bytesOf, List.append_assoc])
  have hknown : savefileMagic hdr.magic = true := by
    rcases hplain with h | h <;> rw [h] <;> rfl
  rw [pcapFopenOffline, if_neg (not_not.mpr hfour), pcapCheckHeader]
  simp only [savefileMagic_own hplain, hmagic, hknown, hdrop4, htake, hdrop, hbody]
  rw [Bool.not_not, header_of_bytes hdr.magic swapped hdr rfl, if_neg (by decide), if_neg (by decide),
    if_neg, if_neg, if_neg (by simp [h0]), if_neg (by simp [h1])]
  · simp [PcapFileHeader.supported, hversion]
  · rw [hversion.1]
    decide

end Files

end Writing

section Records

variable {answers : Nat → Bool} {p : PcapSf} {f : SavedPacket} {packets : List SavedPacket} {b c : Nat}

/-- A packet as the file gives it out: in microseconds, and with the pseudo-header of another host
turned around. -/
def PcapSf.shown (p : PcapSf) (f : SavedPacket) : SavedPacket :=
  ({ f.1 with ts := scaleTime p.scaleType f.1.ts },
    p.turned { f.1 with ts := scaleTime p.scaleType f.1.ts } f.2)

/-- What a file can hold of a packet without loss. -/
structure PcapSf.Holds (p : PcapSf) (f : SavedPacket) : Prop where
  captured : f.2.length = f.1.caplen.toNat
  limit : f.1.caplen.toNat ≤ maxSnaplenForDlt p.linktype
  snapshot : f.1.caplen.toNat ≤ uint32 p.snapshot
  sec : Representable p.swapped f.1.ts.tvSec
  usec : Representable p.swapped f.1.ts.tvUsec

theorem packetHeader_of_record (horder : p.lengthsSwapped = .notSwapped) (h : p.Holds f) :
    p.packetHeader (recordHeader p.swapped f.1) = (p.shown f).1 := by
  generalize hp : recordHeader p.swapped f.1 = bytes
  have h0 : bytes.drop 0 = longBytes p.swapped (UInt32.ofInt f.1.ts.tvSec) ++
      (longBytes p.swapped (UInt32.ofInt f.1.ts.tvUsec) ++
        (longBytes p.swapped f.1.caplen ++ longBytes p.swapped f.1.len)) := hp.symm
  have h4 := congrArg (List.drop 4) h0
  rw [List.drop_drop, drop_append_eq (length_longBytes _ _)] at h4
  have h8 := congrArg (List.drop 4) h4
  rw [List.drop_drop, drop_append_eq (length_longBytes _ _)] at h8
  have h12 := congrArg (List.drop 4) h8
  rw [List.drop_drop, drop_append_eq (length_longBytes _ _), ← List.append_nil (longBytes _ _)] at h12
  have hsec := long_of_drop h0
  have husec := long_of_drop h4
  have hcaplen := long_of_drop h8
  have hlen := long_of_drop h12
  have htsec := time_of_representable _ h.sec
  have htusec := time_of_representable _ h.usec
  rw [PcapSf.packetHeader, horder, PcapSf.shown, swapLengths]
  cases hswapped : p.swapped with
  | true =>
    simp only [hswapped, if_true] at hsec husec hcaplen hlen htsec htusec
    simp only [if_true, hsec, husec, hcaplen, hlen, htsec, htusec]
  | false =>
    simp only [hswapped, if_false, Bool.false_eq_true] at hsec husec hcaplen hlen htsec htusec
    simp only [if_false, Bool.false_eq_true, hsec, husec, hcaplen, hlen, htsec, htusec]

theorem pcapNextPacket_record (hans : ∀ k, answers k = true) (hsize : p.hdrsize = 16)
    (horder : p.lengthsSwapped = .notSwapped) (h : p.Holds f) (hfits : b ≤ uint32 p.snapshot)
    (rest : List UInt8) : ∃ b' c', b' ≤ uint32 p.snapshot ∧
      pcapNextPacket answers p ⟨recordHeader p.swapped f.1 ++ f.2 ++ rest, b, c⟩ =
        some (.packet (p.shown f).1 (p.shown f).2, ⟨rest, b', c'⟩) := by
  have hheader := packetHeader_of_record horder h
  have hlimit : (p.packetHeader (recordHeader p.swapped f.1)).caplen.toNat ≤ maxSnaplenForDlt p.linktype := by
    rw [hheader]
    exact h.limit
  rcases pcapNextPacket_reads answers (r := ⟨[], b, c⟩) hfits
      ((length_recordHeader _ _).trans hsize.symm) hlimit with ⟨b', c', hb, hread⟩ | ⟨hrefused, -⟩
  · have hnext := hread (f.2 ++ rest)
    have hcut : p.cut (p.shown f).1 = (p.shown f).1 := if_neg (not_lt.mpr h.snapshot)
    have hcap : (p.shown f).1.caplen.toNat = f.2.length := h.captured.symm
    simp only [hheader, hcut, hcap] at hnext
    rw [if_pos (by simp), List.take_left, List.drop_left, ← List.append_assoc] at hnext
    exact ⟨b', c', hb, hnext⟩
  · rw [hans] at hrefused
    cases hrefused

/-- A file of records is read to its end and gives every one of them. -/
theorem delivers_records (hans : ∀ k, answers k = true) (hsize : p.hdrsize = 16)
    (horder : p.lengthsSwapped = .notSwapped) (h : ∀ f ∈ packets, p.Holds f) (hfits : b ≤ uint32 p.snapshot) :
    Delivers answers p ⟨recordsOf p.swapped packets, b, c⟩ (packets.map p.shown) 0 := by
  induction packets generalizing b c with
  | nil => exact .eof (pcapNextPacket_eof (by omega) rfl)
  | cons f packets ih =>
    obtain ⟨b', c', hb, hnext⟩ := pcapNextPacket_record (c := c) hans hsize horder
      (h f List.mem_cons_self) hfits (recordsOf p.swapped packets)
    exact .packet hnext (ih (fun g hg => h g (List.mem_cons_of_mem _ hg)) hb)

end Records

section Dumps

variable {p : Pcap}

/-- The bits beside the link type are those kept for the extension. -/
def Pcap.Extended (p : Pcap) : Prop := p.linktypeExt &&& 0x03FFFFFF = 0

theorem linktypeToDlt_dltToLinktype {dlt : Int} (hknown : dltToLinktype dlt ≠ -1) (hclip : dlt ≠ dltAtmClip) :
    0 ≤ dltToLinktype dlt ∧ dltToLinktype dlt < 276 ∧ linktypeToDlt (dltToLinktype dlt) = dlt := by
  have htable : ∀ e ∈ linktypeMap, e.1 ≠ dltAtmClip → 0 ≤ e.2 ∧ e.2 < 276 ∧
      linktypeToDlt e.2 = e.1 := by decide
  unfold dltToLinktype at hknown ⊢
  split_ifs with hpfsync hpktap hrange
  · subst hpfsync
    decide
  · subst hpktap
    decide
  · refine ⟨by omega, by omega, ?_⟩
    rw [linktypeToDlt, if_neg hpfsync, if_neg hpktap, if_pos hrange]
  · rw [if_neg hpfsync, if_neg hpktap, if_neg hrange] at hknown
    cases hfind : linktypeMap.find? fun e => e.1 = dlt with
    | none => simp [hfind] at hknown
    | some e =>
      have he : e.1 = dlt := by simpa using List.find?_some hfind
      subst he
      exact htable e (List.mem_of_find?_eq_some hfind) hclip

theorem or_and_mask (x y mask : UInt32) : (x ||| y) &&& mask = (x &&& mask) ||| (y &&& mask) :=
  UInt32.eq_of_toBitVec_eq BitVec.and_or_distrib_right

theorem and_or_masks (x m m' : UInt32) : x &&& (m ||| m') = (x &&& m) ||| (x &&& m') :=
  UInt32.eq_of_toBitVec_eq BitVec.and_or_distrib_left

theorem link_and_ext {n : Nat} (hn : n < 276) (hext : p.Extended) :
    ltLinktype (UInt32.ofNat n ||| p.linktypeExt) = UInt32.ofNat n ∧
      ltLinktypeExt (UInt32.ofNat n ||| p.linktypeExt) = p.linktypeExt := by
  have hmask : ∀ n : Fin 276, UInt32.ofNat n &&& 0x03FFFFFF = UInt32.ofNat n ∧
      UInt32.ofNat n &&& 0xFC000000 = 0 := by decide +kernel
  obtain ⟨hlow, hhigh⟩ := hmask ⟨n, hn⟩
  have hall : p.linktypeExt &&& 0xFC000000 = p.linktypeExt := by
    have h := and_or_masks p.linktypeExt 0x03FFFFFF 0xFC000000
    rw [hext, UInt32.zero_or, show (0x03FFFFFF ||| 0xFC000000 : UInt32) = -1 from rfl,
      UInt32.and_neg_one] at h
    exact h.symm
  rw [ltLinktype, ltLinktypeExt, or_and_mask, or_and_mask, hlow, hhigh, hext, hall, UInt32.or_zero,
    UInt32.zero_or]
  exact ⟨rfl, rfl⟩

/-- The header of a dump, read back, gives the capture it was written for. -/
theorem handle_pcapDumpOpen (hknown : dltToLinktype p.linktype ≠ -1) (hclip : p.linktype ≠ dltAtmClip)
    (hext : p.Extended) (hsnap : 0 < p.snapshot ∧ p.snapshot < 2 ^ 31) :
    ∃ hdr : PcapFileHeader, pcapDumpOpen p = some (hdr.bytesOf false) ∧ hdr.Plain ∧
      hdr.versionMajor = 2 ∧ hdr.versionMinor = 4 ∧
      hdr.handle false = ⟨p, false, 16, .notSwapped, .passThrough⟩ := by
  obtain ⟨hlo, hhi, hback⟩ := linktypeToDlt_dltToLinktype hknown hclip
  have hof : UInt32.ofInt (dltToLinktype p.linktype) = UInt32.ofNat (dltToLinktype p.linktype).toNat := by
    rw [UInt32.ofInt]
    congr 1
    omega
  have hsnapshot : int32 (UInt32.ofInt p.snapshot).toNat = p.snapshot := by
    have h := time_of_representable false (x := p.snapshot) ⟨by omega, by omega⟩
    rwa [if_neg Bool.false_ne_true] at h
  obtain ⟨hlink, hextension⟩ := link_and_ext (p := p) (n := (dltToLinktype p.linktype).toNat) (by omega) hext
  refine ⟨⟨tcpdumpMagic, 2, 4, p.tzoff, 0, UInt32.ofInt p.snapshot,
    UInt32.ofInt (dltToLinktype p.linktype) ||| p.linktypeExt⟩, ?_, .inl rfl, rfl, rfl, ?_⟩
  · rw [pcapDumpOpen, if_neg hknown]
    simp [sfWriteHeader, PcapFileHeader.bytes, PcapFileHeader.bytesOf, longBytes, shortBytes]
  · have hdlt : linktypeToDlt ((UInt32.ofNat (dltToLinktype p.linktype).toNat).toNat : Int) = p.linktype := by
      rw [UInt32.toNat_ofNat', Nat.mod_eq_of_lt (by omega), Int.toNat_of_nonneg hlo, hback]
    have hmagic : ¬(tcpdumpMagic = kuznetzovTcpdumpMagic) := by decide
    have hnsec : ¬(tcpdumpMagic = nsecTcpdumpMagic) := by decide
    simp only [PcapFileHeader.handle, PcapFileHeader.snapshot, PcapFileHeader.lengthsSwapped, hof, hlink,
      hextension, hdlt, hsnapshot, hmagic, hnsec, false_and, if_false, not_le.mpr hsnap.1]
    rfl

end Dumps

end Tcpkit
