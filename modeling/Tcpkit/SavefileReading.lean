import Tcpkit.Savefile

/-! Reading a savefile: every call keeps within the packet buffer, every file is read to an end, and
the loop over it hands the packets of the file to its callback. -/

namespace Tcpkit

open MachineInt

section Words

theorem and_byteMask (n k : Nat) : n &&& 255 <<< k = (n >>> k % 256) <<< k := by
  apply Nat.eq_of_testBit_eq
  intro i
  rw [show 255 = 2 ^ 8 - 1 from rfl, show 256 = 2 ^ 8 from rfl]
  simp only [Nat.testBit_and, Nat.testBit_shiftLeft, Nat.testBit_mod_two_pow, Nat.testBit_shiftRight,
    Nat.testBit_two_pow_sub_one]
  by_cases hi : k ≤ i
  · rw [Nat.add_sub_cancel' hi]
    simp [hi, Bool.and_comm]
  · simp [hi]

theorem or_bytes {a b c d : Nat} (hb : b < 256) (hc : c < 256) (hd : d < 256) :
    2 ^ 24 * a ||| 2 ^ 16 * b ||| 2 ^ 8 * c ||| d = 2 ^ 24 * a + 2 ^ 16 * b + 2 ^ 8 * c + d := by
  rw [← Nat.two_pow_add_eq_or_of_lt (i := 24) (by omega),
    show 2 ^ 24 * a + 2 ^ 16 * b = 2 ^ 16 * (2 ^ 8 * a + b) by ring,
    ← Nat.two_pow_add_eq_or_of_lt (i := 16) (by omega),
    show 2 ^ 16 * (2 ^ 8 * a + b) + 2 ^ 8 * c = 2 ^ 8 * (2 ^ 8 * (2 ^ 8 * a + b) + c) by ring,
    ← Nat.two_pow_add_eq_or_of_lt (i := 8) (by omega)]

theorem swaplong_toNat (y : UInt32) : (swaplong y).toNat = 2 ^ 24 * (y.toNat % 256) +
    2 ^ 16 * (y.toNat / 256 % 256) + 2 ^ 8 * (y.toNat / 65536 % 256) + y.toNat / 16777216 := by
  have hy := y.toNat_lt
  have h0 : y.toNat &&& 255 = y.toNat % 256 := by simpa using and_byteMask y.toNat 0
  have h8 : y.toNat &&& 65280 = y.toNat / 256 % 256 * 256 := by
    simpa [Nat.shiftRight_eq_div_pow, Nat.shiftLeft_eq] using and_byteMask y.toNat 8
  have h16 : y.toNat &&& 16711680 = y.toNat / 65536 % 256 * 65536 := by
    simpa [Nat.shiftRight_eq_div_pow, Nat.shiftLeft_eq] using and_byteMask y.toNat 16
  have h24 : y.toNat / 16777216 &&& 255 = y.toNat / 16777216 := by
    have h := and_byteMask (y.toNat / 16777216) 0
    rw [Nat.shiftLeft_zero, Nat.shiftRight_zero, Nat.shiftLeft_zero] at h
    rw [h]
    omega
  have hor := or_bytes (a := y.toNat % 256) (b := y.toNat / 256 % 256) (c := y.toNat / 65536 % 256)
    (d := y.toNat / 16777216) (by omega) (by omega) (by omega)
  rw [← hor, swaplong]
  simp only [UInt32.toNat_or, UInt32.toNat_shiftLeft, UInt32.toNat_shiftRight, UInt32.toNat_and,
    UInt32.reduceToNat, h0, h8, h16, Nat.shiftRight_eq_div_pow, Nat.shiftLeft_eq, Nat.reduceMod,
      Nat.reducePow,
    h24]
  congr 1
  congr 1
  · congr 1 <;> omega
  · omega

theorem swapshort_toNat (y : UInt16) : (swapshort y).toNat = y.toNat % 256 * 256 + y.toNat / 256 := by
  have hy := y.toNat_lt
  have h0 : y.toNat &&& 255 = y.toNat % 256 := by simpa using and_byteMask y.toNat 0
  have h8 : y.toNat &&& 65280 = y.toNat / 256 * 256 := by
    have h := and_byteMask y.toNat 8
    rw [Nat.shiftRight_eq_div_pow, Nat.shiftLeft_eq, Nat.shiftLeft_eq] at h
    rw [show 65280 = 255 * 2 ^ 8 from rfl, h]
    omega
  have hor := Nat.two_pow_add_eq_or_of_lt (i := 8) (b := y.toNat / 256) (by omega) (y.toNat % 256)
  rw [show y.toNat % 256 * 256 = 2 ^ 8 * (y.toNat % 256) by ring, hor, swapshort]
  simp only [UInt16.toNat_or, UInt16.toNat_shiftLeft, UInt16.toNat_shiftRight, UInt16.toNat_and,
    UInt16.reduceToNat, h0, h8, Nat.shiftRight_eq_div_pow, Nat.shiftLeft_eq, Nat.reduceMod, Nat.reducePow]
  congr 1 <;> omega

theorem swaplong_le32 (p : List UInt8) (i : Nat) : swaplong (le32 p i) = be32 p i := by
  have h0 := (byte p i).toNat_lt
  have h1 := (byte p (i + 1)).toNat_lt
  have h2 := (byte p (i + 2)).toNat_lt
  have h3 := (byte p (i + 3)).toNat_lt
  have hle : (le32 p i).toNat = (byte p i).toNat + (byte p (i + 1)).toNat * 256 +
      (byte p (i + 2)).toNat * 65536 + (byte p (i + 3)).toNat * 16777216 := by
    rw [le32, UInt32.toNat_ofNat']
    omega
  have hbe : (be32 p i).toNat = (byte p i).toNat * 16777216 + (byte p (i + 1)).toNat * 65536 +
      (byte p (i + 2)).toNat * 256 + (byte p (i + 3)).toNat := by
    rw [be32, UInt32.toNat_ofNat']
    omega
  have hn0 : (le32 p i).toNat % 256 = (byte p i).toNat := by omega
  have hd1 : (le32 p i).toNat / 256 = (byte p (i + 1)).toNat + (byte p (i + 2)).toNat * 256 +
      (byte p (i + 3)).toNat * 65536 := by omega
  have hd2 : (le32 p i).toNat / 65536 = (byte p (i + 2)).toNat + (byte p (i + 3)).toNat * 256 := by omega
  have hn1 : (le32 p i).toNat / 256 % 256 = (byte p (i + 1)).toNat := by omega
  have hn2 : (le32 p i).toNat / 65536 % 256 = (byte p (i + 2)).toNat := by omega
  have hn3 : (le32 p i).toNat / 16777216 = (byte p (i + 3)).toNat := by omega
  apply UInt32.toNat_inj.mp
  rw [swaplong_toNat, hn0, hn1, hn2, hn3, hbe]
  omega

theorem swapshort_le16 (p : List UInt8) (i : Nat) : swapshort (le16 p i) = be16 p i := by
  have h0 := (byte p i).toNat_lt
  have h1 := (byte p (i + 1)).toNat_lt
  have hle : (le16 p i).toNat = (byte p i).toNat + (byte p (i + 1)).toNat * 256 := by
    rw [le16, UInt16.toNat_ofNat']
    omega
  have hbe : (be16 p i).toNat = (byte p i).toNat * 256 + (byte p (i + 1)).toNat := by
    rw [be16, UInt16.toNat_ofNat']
    omega
  apply UInt16.toNat_inj.mp
  rw [swapshort_toNat, hle, hbe]
  omega

end Words

/-- What is handed out is as long as its header says, and within the limits of the file. -/
structure PcapSf.Handed (p : PcapSf) (hdr : PcapPkthdr) (data : List UInt8) : Prop where
  captured : data.length = hdr.caplen.toNat
  limit : hdr.caplen.toNat ≤ maxSnaplenForDlt p.linktype
  snapshot : hdr.caplen.toNat ≤ uint32 p.snapshot

/-- The packet buffer is no larger than the snapshot length. -/
def PcapSf.Fits (p : PcapSf) (r : SaveStream) : Prop := r.bufsize ≤ uint32 p.snapshot

section Steps

variable {answers : Nat → Bool} {p : PcapSf} {hdr : PcapPkthdr} {r : SaveStream} {n : Nat}
  {buf : List UInt8}

theorem swapField_eq (size i : Nat) (buf : List UInt8) (h : i + size ≤ buf.length) :
    ∃ buf', swapField size i buf = some buf' ∧ buf'.length = buf.length := by
  refine ⟨_, if_pos h, ?_⟩
  simp only [List.length_append, List.length_reverse, List.length_take, List.length_drop]
  omega

theorem swapFields_eq (fields : List (Nat × Nat)) (hfields : ∀ f ∈ fields, f.2 ≤ f.1)
    (offset : Nat) (buf : List UInt8) :
    ∃ buf' past, swapFields buf.length fields offset buf = some (buf', past) ∧ buf'.length = buf.length := by
  generalize hn : buf.length = n
  induction fields generalizing offset buf with
  | nil => exact ⟨buf, some offset, rfl, hn⟩
  | cons f fields ih =>
    obtain ⟨hsize, hfields⟩ := List.forall_mem_cons.mp hfields
    rw [swapFields]
    by_cases hshort : n < offset + f.1
    · exact ⟨buf, none, if_pos hshort, hn⟩
    · obtain ⟨buf₁, hswap, hlen⟩ := swapField_eq f.2 (offset + f.1 - f.2) buf (by omega)
      rw [if_neg hshort, hswap, Option.bind_some]
      exact ih hfields (offset + f.1) buf₁ (hlen.trans hn)

theorem isodescLoop_eq (k offset : Nat) :
    ∃ buf', isodescLoop buf.length k offset buf = some buf' ∧ buf'.length = buf.length := by
  generalize hn : buf.length = n
  induction k generalizing offset buf with
  | zero => exact ⟨buf, rfl, hn⟩
  | succ k ih =>
    obtain ⟨buf₁, past, hswap, hlen⟩ :=
      swapFields_eq [(4, 4), (4, 4), (4, 4)] (by decide) offset buf
    rw [hn] at hswap hlen
    rw [isodescLoop, hswap, Option.bind_some]
    cases past with
    | none => exact ⟨buf₁, rfl, hlen⟩
    | some offset => exact ih (offset + 4) hlen

theorem swapUsbTransfer_eq (offset : Nat) (buf : List UInt8) :
    ∃ buf' past, swapUsbTransfer buf.length offset buf = some (buf', past) ∧ buf'.length = buf.length := by
  rw [swapUsbTransfer]
  split_ifs
  · exact swapFields_eq _ (by decide) offset buf
  · exact ⟨buf, _, rfl, rfl⟩

theorem swapUsbMmapped_eq (offset : Nat) :
    ∃ buf', swapUsbMmapped buf.length offset buf = some buf' ∧ buf'.length = buf.length := by
  obtain ⟨buf₁, past, hswap, hlen⟩ :=
    swapFields_eq [(4, 4), (4, 4), (4, 4), (4, 4)] (by decide) offset buf
  rw [swapUsbMmapped, hswap, Option.bind_some]
  cases past with
  | none => exact ⟨buf₁, rfl, hlen⟩
  | some offset =>
    simp only
    split_ifs
    · rw [← hlen]
      exact isodescLoop_eq _ offset
    · exact ⟨buf₁, rfl, hlen⟩

theorem swapLinuxUsbHeader_eq (h : buf.length = hdr.caplen.toNat) (headerLen64Bytes : Bool) :
    ∃ buf', swapLinuxUsbHeader hdr buf headerLen64Bytes = some buf' ∧ buf'.length = buf.length := by
  obtain ⟨buf₁, past, hswap, hlen⟩ := swapFields_eq usbFields (by decide) 0 buf
  rw [swapLinuxUsbHeader, ← h, hswap, Option.bind_some]
  cases past with
  | none => exact ⟨buf₁, rfl, hlen⟩
  | some offset =>
    obtain ⟨buf₂, past, htransfer, hlen₂⟩ := swapUsbTransfer_eq offset buf₁
    rw [hlen] at htransfer hlen₂
    simp only [htransfer, Option.bind_some]
    cases past with
    | none => exact ⟨buf₂, rfl, hlen₂⟩
    | some offset =>
      simp only
      split_ifs
      · rw [← hlen₂]
        exact swapUsbMmapped_eq offset
      · exact ⟨buf₂, rfl, hlen₂⟩

theorem nflogLoop_eq (caplen length p : Nat) (buf : List UInt8) (h : p + caplen ≤ buf.length) :
    ∃ buf', nflogLoop caplen length p buf = some buf' ∧ buf'.length = buf.length := by
  induction caplen using Nat.strong_induction_on generalizing length p buf with
  | _ caplen ih =>
    rw [nflogLoop]
    by_cases hshort : caplen < 4
    · exact ⟨buf, if_pos hshort, rfl⟩
    obtain ⟨buf₁, htype, hlen₁⟩ := swapField_eq 2 (p + 2) buf (by omega)
    obtain ⟨buf₂, hlength, hlen₂⟩ := swapField_eq 2 p buf₁ (by omega)
    rw [if_neg hshort, htype, Option.bind_some, hlength, Option.bind_some]
    simp only
    split_ifs with hsmall hmissing
    · exact ⟨buf₂, rfl, hlen₂.trans hlen₁⟩
    · exact ⟨buf₂, rfl, hlen₂.trans hlen₁⟩
    · obtain ⟨buf₃, hrest, hlen₃⟩ := ih (caplen - (nflogSize (le16 buf₂ p)).toNat) (by omega)
        (length - (nflogSize (le16 buf₂ p)).toNat) (p + (nflogSize (le16 buf₂ p)).toNat) buf₂ (by omega)
      exact ⟨buf₃, hrest, hlen₃.trans (hlen₂.trans hlen₁)⟩

/-- Turning a pseudo-header around keeps within the captured bytes. -/
theorem swapPseudoHeaders_eq (linktype : Int) (h : buf.length = hdr.caplen.toNat) :
    ∃ buf', swapPseudoHeaders linktype hdr buf = some buf' ∧ buf'.length = buf.length := by
  rw [swapPseudoHeaders]
  split_ifs
  · rw [swapLinuxSllHeader]
    split_ifs with hshort hcan hfield
    · exact ⟨buf, rfl, rfl⟩
    · exact ⟨buf, rfl, rfl⟩
    · exact ⟨buf, rfl, rfl⟩
    · rw [not_or, UInt32.not_lt, UInt32.le_iff_toNat_le] at hfield
      exact swapField_eq 4 16 buf (h ▸ hfield.1)
  · exact swapLinuxUsbHeader_eq h false
  · exact swapLinuxUsbHeader_eq h true
  · rw [swapNflogHeader]
    split_ifs with hshort hversion
    · exact ⟨buf, rfl, rfl⟩
    · exact ⟨buf, rfl, rfl⟩
    · rw [not_or, UInt32.not_lt, UInt32.le_iff_toNat_le] at hshort
      have hfour : 4 ≤ hdr.caplen.toNat := hshort.1
      exact nflogLoop_eq _ _ 4 buf (by omega)
  · exact ⟨buf, rfl, rfl⟩

/-- The packet with the pseudo-header of another host turned around. -/
def PcapSf.turned (p : PcapSf) (hdr : PcapPkthdr) (data : List UInt8) : List UInt8 :=
  if p.swapped then (swapPseudoHeaders p.linktype hdr data).getD data else data

theorem PcapSf.handOut_eq (p : PcapSf) (hdr : PcapPkthdr) (h : buf.length = hdr.caplen.toNat) :
    p.handOut hdr buf = some (.packet hdr (p.turned hdr buf)) ∧ (p.turned hdr buf).length = buf.length := by
  obtain ⟨buf', hswap, hlen⟩ := swapPseudoHeaders_eq p.linktype h
  rw [handOut, turned, hswap]
  split_ifs
  · exact ⟨rfl, hlen⟩
  · exact ⟨rfl, rfl⟩

theorem le_nextPowerOf2 (h : 0 < n) : n ≤ nextPowerOf2 n := by
  have step (m k : Nat) : m ≤ m ||| m >>> k := Nat.left_le_or
  have := (step (n - 1) 1).trans ((step _ 2).trans ((step _ 4).trans ((step _ 8).trans (step _ 16))))
  rw [nextPowerOf2]
  omega

theorem discardLoop_eq (n : Nat) (fp : List UInt8) :
    discardLoop n fp = if n ≤ fp.length then some (fp.drop n) else none := by
  induction n, fp using discardLoop.induct with
  | case1 fp => simp [discardLoop]
  | case2 n fp hn bytesToRead hshort =>
    rw [discardLoop, if_neg hn, if_pos hshort, if_neg]
    rw [List.length_take] at hshort
    omega
  | case3 n fp hn bytesToRead hfull ih =>
    rw [discardLoop, if_neg hn, if_neg hfull, ih, List.length_drop, List.drop_drop]
    rw [not_not, List.length_take] at hfull
    have hle : bytesToRead ≤ n := min_le_left _ _
    rw [Nat.add_sub_cancel' hle]
    congr 1
    rw [eq_iff_iff]
    omega

theorem uint32_ofInt (x : Int) : (UInt32.ofInt x).toNat = uint32 x := by
  rw [UInt32.ofInt, UInt32.toNat_ofNat', uint32]
  omega

/-- The header as it is handed out: the captured length is cut to the snapshot length. -/
def PcapSf.cut (p : PcapSf) (hdr : PcapPkthdr) : PcapPkthdr :=
  if uint32 p.snapshot < hdr.caplen.toNat then { hdr with caplen := UInt32.ofInt p.snapshot } else hdr

/-- The packet behind a header: `none` where the buffer cannot be grown, else the size it has and
how often memory was asked for. -/
def PcapSf.Reads (p : PcapSf) (answers : Nat → Bool) (hdr : PcapPkthdr) (r : SaveStream)
    (body : SaveStream → Access (NextPacket × SaveStream)) : Prop :=
  (∃ b c, b ≤ uint32 p.snapshot ∧ ∀ fp, body ⟨fp, r.bufsize, r.calls⟩ =
    some (if hdr.caplen.toNat ≤ fp.length then
      (.packet (p.cut hdr) (p.turned (p.cut hdr) (fp.take (p.cut hdr).caplen.toNat)),
        ⟨fp.drop hdr.caplen.toNat, b, c⟩)
    else (.error, ⟨[], b, c⟩))) ∨
  answers r.calls = false ∧
    ∃ c, ∀ fp, body ⟨fp, r.bufsize, r.calls⟩ = some (.error, ⟨fp, r.bufsize, c⟩)

theorem reads_whole (hsnap : hdr.caplen.toNat ≤ uint32 p.snapshot) (hfits : p.Fits r) :
    p.Reads answers hdr r (readWhole answers p hdr) := by
  have hcut : p.cut hdr = hdr := if_neg (not_lt.mpr hsnap)
  have hread (fp : List UInt8) {b c : Nat} (hroom : hdr.caplen.toNat ≤ b) :
      ((freadBuffer ⟨fp, b, c⟩ hdr.caplen.toNat).bind fun r =>
          if r.1.length ≠ hdr.caplen.toNat then some (.error, r.2) else (p.handOut hdr r.1).map (·, r.2)) =
        some (if hdr.caplen.toNat ≤ fp.length then
          (.packet hdr (p.turned hdr (fp.take hdr.caplen.toNat)), ⟨fp.drop hdr.caplen.toNat, b, c⟩)
        else (.error, ⟨[], b, c⟩)) := by
    simp only [freadBuffer, if_pos hroom, Option.bind_some, List.length_take]
    by_cases hlen : hdr.caplen.toNat ≤ fp.length
    · have htake : (fp.take hdr.caplen.toNat).length = hdr.caplen.toNat := List.length_take_of_le hlen
      rw [if_pos hlen, if_neg (by omega), (p.handOut_eq hdr htake).1, Option.map_some]
    · rw [if_neg hlen, if_pos (by omega), List.drop_of_length_le (by omega)]
  rw [PcapSf.Reads, hcut]
  by_cases hbuf : r.bufsize < hdr.caplen.toNat
  · have hpow := le_nextPowerOf2 (n := hdr.caplen.toNat) (by omega)
    by_cases ha : answers r.calls = true
    · refine .inl ⟨min (nextPowerOf2 hdr.caplen.toNat) (uint32 p.snapshot), r.calls + 1,
        min_le_right _ _, fun fp => ?_⟩
      simp only [readWhole, hbuf, if_true, growBuffer, ha]
      exact hread fp (le_min hpow hsnap)
    · refine .inr ⟨by simpa using ha, r.calls + 1, fun fp => ?_⟩
      simp [readWhole, hbuf, growBuffer, ha]
  · refine .inl ⟨r.bufsize, r.calls, hfits, fun fp => ?_⟩
    simp only [readWhole, hbuf, if_false]
    exact hread fp (not_lt.mp hbuf)

theorem reads_cut (hcut : uint32 p.snapshot < hdr.caplen.toNat) (hfits : p.Fits r) :
    p.Reads answers hdr r (readCut answers p hdr) := by
  have hbuf : r.bufsize < hdr.caplen.toNat := lt_of_le_of_lt hfits hcut
  have hcaplen : (p.cut hdr).caplen.toNat = uint32 p.snapshot := by
    rw [PcapSf.cut, if_pos hcut, uint32_ofInt]
  by_cases ha : answers r.calls = true
  · refine .inl ⟨uint32 p.snapshot, r.calls + 1, le_refl _, fun fp => ?_⟩
    rw [hcaplen]
    simp only [readCut, hbuf, if_true, growBuffer, ha, freadBuffer, le_refl, Option.bind_some]
    rw [PcapSf.cut, if_pos hcut] at hcaplen ⊢
    rw [if_neg (by simp), List.length_take]
    by_cases hlen : uint32 p.snapshot ≤ fp.length
    · rw [if_neg (by omega), discardLoop_eq, List.length_drop]
      by_cases hall : hdr.caplen.toNat ≤ fp.length
      · have htake : (fp.take (uint32 p.snapshot)).length = (UInt32.ofInt p.snapshot).toNat := by
          rw [List.length_take_of_le hlen, uint32_ofInt]
        rw [if_pos (by omega), if_pos hall, List.drop_drop, Nat.add_sub_cancel' hcut.le]
        simp only [(p.handOut_eq { hdr with caplen := UInt32.ofInt p.snapshot } htake).1,
          Option.map_some]
      · rw [if_neg (by omega), if_neg hall]
    · rw [if_pos (by omega), if_neg (by omega), List.drop_of_length_le (by omega)]
  · refine .inr ⟨by simpa using ha, r.calls + 1, fun fp => ?_⟩
    simp [readCut, hbuf, growBuffer, ha]

theorem caplen_cut (hdr : PcapPkthdr) : (p.cut hdr).caplen.toNat =
    min hdr.caplen.toNat (uint32 p.snapshot) := by
  rw [PcapSf.cut]
  split_ifs with hcut
  · rw [min_eq_right hcut.le, uint32_ofInt]
  · rw [min_eq_left (not_lt.mp hcut)]

/-- The next packet of a file, by the length of what is left of it. -/
theorem pcapNextPacket_eof (hsize : 0 < p.hdrsize) (hfp : r.fp = []) :
    pcapNextPacket answers p r = some (.eof, r) := by
  obtain ⟨fp, b, c⟩ := r
  subst hfp
  simp only [pcapNextPacket, List.take_nil, List.drop_nil, List.length_nil]
  rw [if_pos (by omega), if_neg (by simp)]

theorem pcapNextPacket_short (hfp : r.fp ≠ []) (hshort : r.fp.length < p.hdrsize) :
    pcapNextPacket answers p r = some (.error, ⟨[], r.bufsize, r.calls⟩) := by
  have hpos : 0 < r.fp.length := List.length_pos_iff.mpr hfp
  simp only [pcapNextPacket]
  rw [List.length_take, if_pos (by omega), if_pos (by omega), List.drop_of_length_le (by omega)]

theorem pcapNextPacket_reads (answers : Nat → Bool) (hfits : p.Fits r)
    {sfHdr : List UInt8} (hhdr : sfHdr.length = p.hdrsize)
    (hlimit : (p.packetHeader sfHdr).caplen.toNat ≤ maxSnaplenForDlt p.linktype) :
    p.Reads answers (p.packetHeader sfHdr) r fun r =>
      pcapNextPacket answers p { r with fp := sfHdr ++ r.fp } := by
  have htake (fp : List UInt8) : (sfHdr ++ fp).take p.hdrsize = sfHdr := by
    rw [← hhdr, List.take_left]
  have hdrop (fp : List UInt8) : (sfHdr ++ fp).drop p.hdrsize = fp := by
    rw [← hhdr, List.drop_left]
  simp only [pcapNextPacket, htake, hdrop, hhdr, ne_eq, not_true_eq_false, if_false, not_lt.mpr hlimit]
  split_ifs with hcut
  · exact reads_cut hcut hfits
  · exact reads_whole (not_lt.mp hcut) hfits

theorem pcapNextPacket_insane {sfHdr fp : List UInt8} (hhdr : sfHdr.length = p.hdrsize)
    (hlimit : maxSnaplenForDlt p.linktype < (p.packetHeader sfHdr).caplen.toNat) (hfp : r.fp = sfHdr ++ fp) :
    pcapNextPacket answers p r = some (.error, ⟨fp, r.bufsize, r.calls⟩) := by
  simp only [pcapNextPacket, hfp]
  rw [← hhdr, List.take_left, List.drop_left, if_neg (not_not.mpr rfl), if_pos hlimit]

end Steps

section Contents

/-- A packet as it is handed to a callback. -/
abbrev SavedPacket := PcapPkthdr × List UInt8

/-- The packets that reading a stream to its end gives, and the status it ends with. -/
inductive Delivers (answers : Nat → Bool) (p : PcapSf) : SaveStream → List SavedPacket → Int → Prop
  | eof {r r' : SaveStream} (next : pcapNextPacket answers p r = some (.eof, r')) :
    Delivers answers p r [] 0
  | error {r r' : SaveStream} (next : pcapNextPacket answers p r = some (.error, r')) :
    Delivers answers p r [] (-1)
  | packet {r r' : SaveStream} {hdr : PcapPkthdr} {data : List UInt8} {packets : List SavedPacket}
    {status : Int} (next : pcapNextPacket answers p r = some (.packet hdr data, r'))
    (rest : Delivers answers p r' packets status) : Delivers answers p r ((hdr, data) :: packets) status

variable {answers : Nat → Bool} {p : PcapSf} {r r' : SaveStream} {packets packets' : List SavedPacket}
  {status status' : Int} {hdr : PcapPkthdr} {data fp : List UInt8} {b c : Nat}

/-- A stream with a whole packet header in front, and one without. -/
theorem split_header (p : PcapSf) (r : SaveStream) :
    r.fp.length < p.hdrsize ∨ ∃ sfHdr fp, r.fp = sfHdr ++ fp ∧ sfHdr.length = p.hdrsize := by
  rcases lt_or_ge r.fp.length p.hdrsize with h | h
  · exact .inl h
  · exact .inr ⟨r.fp.take p.hdrsize, r.fp.drop p.hdrsize, (List.take_append_drop _ _).symm, by simpa using h⟩

theorem handed_cut {hdr : PcapPkthdr} (hlimit : hdr.caplen.toNat ≤ maxSnaplenForDlt p.linktype)
    (hlen : hdr.caplen.toNat ≤ fp.length) :
    p.Handed (p.cut hdr) (p.turned (p.cut hdr) (fp.take (p.cut hdr).caplen.toNat)) := by
  have hcap := caplen_cut (p := p) hdr
  have htake : (fp.take (p.cut hdr).caplen.toNat).length = (p.cut hdr).caplen.toNat :=
    List.length_take_of_le (by omega)
  exact ⟨(p.handOut_eq (p.cut hdr) htake).2.trans htake, by omega, by omega⟩

/-- What one call can do to a stream whose buffer fits: it never reads past the buffer, and what it
hands out it takes from the stream. -/
theorem pcapNextPacket_cases (answers : Nat → Bool) (hsize : 0 < p.hdrsize) (hfits : p.Fits r) :
    pcapNextPacket answers p r = some (.eof, r) ∨ (∃ r', pcapNextPacket answers p r = some (.error, r')) ∨
      ∃ hdr data r', pcapNextPacket answers p r = some (.packet hdr data, r') ∧ p.Handed hdr data ∧
        p.Fits r' ∧ r'.fp.length < r.fp.length := by
  rcases split_header p r with hshort | ⟨sfHdr, fp, hfp, hhdr⟩
  · by_cases hnil : r.fp = []
    · exact .inl (pcapNextPacket_eof hsize hnil)
    · exact .inr (.inl ⟨_, pcapNextPacket_short hnil hshort⟩)
  rcases lt_or_ge (maxSnaplenForDlt p.linktype) (p.packetHeader sfHdr).caplen.toNat with hlimit | hlimit
  · exact .inr (.inl ⟨_, pcapNextPacket_insane hhdr hlimit hfp⟩)
  have hr : r = ⟨sfHdr ++ fp, r.bufsize, r.calls⟩ := by rw [← hfp]
  rcases pcapNextPacket_reads answers hfits hhdr hlimit with ⟨b, c, hb, hread⟩ | ⟨-, c, hread⟩
  · have hnext := hread fp
    simp only at hnext
    rw [← hr] at hnext
    split_ifs at hnext with hlen
    · refine .inr (.inr ⟨_, _, _, hnext, handed_cut hlimit hlen, hb, ?_⟩)
      rw [hfp, List.length_drop, List.length_append]
      omega
    · exact .inr (.inl ⟨_, hnext⟩)
  · have hnext := hread fp
    simp only at hnext
    rw [← hr] at hnext
    exact .inr (.inl ⟨_, hnext⟩)

/-- More bytes behind it do not change a packet that is there. -/
theorem pcapNextPacket_append (hfits : b ≤ uint32 p.snapshot)
    (h : pcapNextPacket answers p ⟨fp, b, c⟩ = some (.packet hdr data, r')) (extra : List UInt8) :
    pcapNextPacket answers p ⟨fp ++ extra, b, c⟩ =
      some (.packet hdr data, { r' with fp := r'.fp ++ extra }) := by
  rcases split_header p ⟨fp, b, c⟩ with hshort | ⟨sfHdr, rest, rfl, hhdr⟩
  · exfalso
    simp only [pcapNextPacket] at h
    rw [if_pos (by rw [List.length_take]; simp only at hshort; omega)] at h
    cases hz : (fp.take p.hdrsize).length <;> simp [hz] at h
  rcases lt_or_ge (maxSnaplenForDlt p.linktype) (p.packetHeader sfHdr).caplen.toNat with hlimit | hlimit
  · rw [pcapNextPacket_insane hhdr hlimit rfl] at h
    cases h
  rcases pcapNextPacket_reads answers (r := ⟨[], b, c⟩) hfits hhdr hlimit with
    ⟨b', c', hb, hread⟩ | ⟨-, c', hread⟩
  · have hnext := hread rest
    have hmore := hread (rest ++ extra)
    simp only at hnext hmore
    rw [hnext] at h
    split_ifs at h with hlen
    · rw [List.append_assoc, hmore, if_pos (by rw [List.length_append]; omega)]
      have hcap := caplen_cut (p := p) (p.packetHeader sfHdr)
      cases h
      rw [List.take_append_of_le_length (by omega), List.drop_append_of_le_length hlen]
    · cases h
  · have hnext := hread rest
    simp only at hnext
    rw [hnext] at h
    cases h

/-- Every stream whose buffer fits is read to an end. -/
theorem exists_delivers (answers : Nat → Bool) (hsize : 0 < p.hdrsize) (hfits : p.Fits r) : ∃ packets status,
    Delivers answers p r packets status ∧ (∀ f ∈ packets, p.Handed f.1 f.2) ∧
      packets.length ≤ r.fp.length ∧ (status = 0 ∨ status = -1) := by
  induction hn : r.fp.length using Nat.strong_induction_on generalizing r with
  | _ n ih =>
    subst hn
    rcases pcapNextPacket_cases answers hsize hfits with heof | ⟨r', herror⟩ |
      ⟨hdr, data, r', hnext, hhanded, hfits', hless⟩
    · exact ⟨[], 0, .eof heof, by simp, Nat.zero_le _, .inl rfl⟩
    · exact ⟨[], -1, .error herror, by simp, Nat.zero_le _, .inr rfl⟩
    · obtain ⟨packets, status, hrest, hall, hlen, hstatus⟩ := ih _ hless hfits' rfl
      refine ⟨(hdr, data) :: packets, status, .packet hnext hrest, ?_, by simp; omega, hstatus⟩
      intro f hf
      rcases List.mem_cons.mp hf with rfl | hf
      · exact hhanded
      · exact hall f hf

theorem Delivers.unique (h : Delivers answers p r packets status)
    (h' : Delivers answers p r packets' status') :
    packets = packets' ∧ status = status' := by
  induction h generalizing packets' with
  | eof next =>
    cases h' with
    | eof next' => exact ⟨rfl, rfl⟩
    | error next' => rw [next] at next'; cases next'
    | packet next' => rw [next] at next'; cases next'
  | error next =>
    cases h' with
    | eof next' => rw [next] at next'; cases next'
    | error next' => exact ⟨rfl, rfl⟩
    | packet next' => rw [next] at next'; cases next'
  | packet next rest ih =>
    cases h' with
    | eof next' => rw [next] at next'; cases next'
    | error next' => rw [next] at next'; cases next'
    | packet next' rest' =>
      rw [next] at next'
      cases next'
      obtain ⟨hpackets, hstatus⟩ := ih rest'
      exact ⟨congrArg _ hpackets, hstatus⟩

/-- A stream that breaks off gives the first packets of the whole one. -/
theorem Delivers.cut_short (hsize : 0 < p.hdrsize) (hshort : Delivers answers p ⟨fp, b, c⟩ packets status)
    (hfits : b ≤ uint32 p.snapshot) {extra : List UInt8}
    (hwhole : Delivers answers p ⟨fp ++ extra, b, c⟩ packets' status') : packets <+: packets' := by
  generalize hr : (⟨fp, b, c⟩ : SaveStream) = r at hshort
  induction hshort generalizing fp b c packets' with
  | eof => exact List.nil_prefix
  | error => exact List.nil_prefix
  | packet next rest ih =>
    subst hr
    have hmore := pcapNextPacket_append hfits next extra
    have hfits' := fun h => pcapNextPacket_cases answers (r := ⟨fp, b, c⟩) hsize h
    cases hwhole with
    | eof next' => rw [hmore] at next'; cases next'
    | error next' => rw [hmore] at next'; cases next'
    | packet next' rest' =>
      rw [hmore] at next'
      cases next'
      rcases hfits' hfits with h | ⟨r', h⟩ | ⟨hdr, data, r', h, -, hf, -⟩
      · rw [next] at h; cases h
      · rw [next] at h; cases h
      · rw [next] at h
        cases h
        exact (List.prefix_cons_inj _).mpr (ih hf rest' rfl)

end Contents

section Loops

variable {σ : Type} {answers breaks : Nat → Bool} {accepts : PcapPkthdr → List UInt8 → Bool} {p : PcapSf}
  {callback : σ → PcapPkthdr → List UInt8 → Access σ} {packets : List SavedPacket} {status : Int}
  {r : SaveStream}

/-- The callback on one packet after the other, on those that the filter accepts. -/
def handAll (accepts : PcapPkthdr → List UInt8 → Bool) (callback : σ → PcapPkthdr → List UInt8 → Access σ) :
    List SavedPacket → σ → Access σ
  | [], user => some user
  | f :: packets, user =>
    if accepts f.1 f.2 then (callback user f.1 f.2).bind (handAll accepts callback packets)
    else handAll accepts callback packets user

/-- How a loop over a file ends: after `k` packets, all of them and with the status of the file
unless it was told to end. -/
structure Ended (breaks : Nat → Bool) (accepts : PcapPkthdr → List UInt8 → Bool)
    (callback : σ → PcapPkthdr → List UInt8 → Access σ) (packets : List SavedPacket) (status : Int)
    (told : Bool) (user : σ) (k : Nat) (result : Int) (user' : σ) : Prop where
  handled : handAll accepts callback (packets.take k) user = some user'
  within : k ≤ packets.length
  whole : (∀ i, breaks i = false) → told = false → k = packets.length ∧ result = status

/-- One packet in front, handed to the callback or not. -/
theorem Ended.packet {f : SavedPacket} {user user₁ user' : σ} {k : Nat} {result : Int}
    (hstep : (if accepts f.1 f.2 then callback user f.1 f.2 else some user) = some user₁)
    (h : Ended breaks accepts callback packets status false user₁ k result user') (told : Bool) :
    Ended breaks accepts callback (f :: packets) status told user (k + 1) result user' := by
  refine ⟨?_, Nat.succ_le_succ h.within, fun hb _ => (h.whole hb rfl).imp_left (congrArg (· + 1))⟩
  rw [List.take_succ_cons, handAll]
  split_ifs at hstep ⊢
  · rw [hstep, Option.bind_some]
    exact h.handled
  · cases hstep
    exact h.handled

/-- A loop that is told to end does so without reading on. Its counter is an `int`, and negative after
`2 ^ 31` packets at the earliest. -/
theorem pcapOfflineRead_told (answers : Nat → Bool) (accepts : PcapPkthdr → List UInt8 → Bool) (p : PcapSf)
    (callback : σ → PcapPkthdr → List UInt8 → Access σ) {t : OfflineState σ}
    (htold : (t.breakLoop || breaks t.checks) = true) (m fuel : Nat) (packets : List SavedPacket)
    (status : Int) :
    ∃ k result t', pcapOfflineRead answers breaks accepts p callback (fuel + 1) (int32 m) t =
      some (result, t') ∧
      Ended breaks accepts callback packets status t.breakLoop t.user k result t'.user ∧
      (result = -2 ∨ 0 < result ∧ t'.breakLoop = true ∨ result < 0 ∧ 2 ^ 31 ≤ m + k) := by
  have hended (result : Int) :
      Ended breaks accepts callback packets status t.breakLoop t.user 0 result t.user :=
    ⟨rfl, Nat.zero_le _, fun hb h => by simp [hb, h] at htold⟩
  rw [pcapOfflineRead, if_pos htold]
  split_ifs with hzero
  · exact ⟨0, _, _, rfl, hended _, .inl rfl⟩
  · refine ⟨0, _, _, rfl, hended _, .inr ?_⟩
    rcases lt_or_ge (int32 m) 0 with hneg | hpos
    · refine .inr ⟨hneg, ?_⟩
      by_contra hfew
      rw [int32_eq_self (by omega) (by omega)] at hneg
      omega
    · exact .inl ⟨by omega, rfl⟩

theorem pcapOfflineRead_delivers (breaks : Nat → Bool) (accepts : PcapPkthdr → List UInt8 → Bool)
    (hd : Delivers answers p r packets status)
    (hcall : ∀ f ∈ packets, ∀ user, (callback user f.1 f.2).isSome) {fuel : Nat}
    (hfuel : packets.length < fuel)
    (m : Nat) {t : OfflineState σ} (ht : t.stream = r) :
    ∃ k result t', pcapOfflineRead answers breaks accepts p callback fuel (int32 m) t = some (result, t') ∧
      Ended breaks accepts callback packets status t.breakLoop t.user k result t'.user ∧
      (result = status ∧ k = packets.length ∨ result = -2 ∨ 0 < result ∧ t'.breakLoop = true ∨
        result < 0 ∧ 2 ^ 31 ≤ m + k) := by
  induction hd generalizing fuel m t with
  | eof next | error next =>
    obtain ⟨fuel, rfl⟩ := Nat.exists_eq_succ_of_ne_zero (Nat.ne_zero_of_lt hfuel)
    by_cases htold : (t.breakLoop || breaks t.checks) = true
    · obtain ⟨k, result, t', hrun, hended, hhow⟩ := pcapOfflineRead_told answers accepts p callback
        htold m fuel [] _
      exact ⟨k, result, t', hrun, hended, .inr hhow⟩
    · rw [pcapOfflineRead, if_neg htold, ht, next]
      exact ⟨0, _, _, rfl, ⟨rfl, le_refl _, fun _ _ => ⟨rfl, rfl⟩⟩, .inl ⟨rfl, rfl⟩⟩
  | packet next rest ih =>
    rename_i hdr data packets status
    obtain ⟨fuel, rfl⟩ := Nat.exists_eq_succ_of_ne_zero (Nat.ne_zero_of_lt hfuel)
    have hrest := fun f hf => hcall f (List.mem_cons_of_mem _ hf)
    have hless : packets.length < fuel := by simpa using hfuel
    by_cases htold : (t.breakLoop || breaks t.checks) = true
    · obtain ⟨k, result, t', hrun, hended, hhow⟩ := pcapOfflineRead_told answers accepts p callback
        htold m fuel ((hdr, data) :: packets) status
      exact ⟨k, result, t', hrun, hended, .inr hhow⟩
    rw [pcapOfflineRead, if_neg htold, ht, next, Option.bind_some]
    simp only
    by_cases hacc : accepts hdr data = true
    · obtain ⟨user, huser⟩ := Option.isSome_iff_exists.mp (hcall (hdr, data) List.mem_cons_self t.user)
      have hcount : int32 (int32 m + 1) = int32 (m + 1 : Nat) := int32_int32_add m 1
      rw [if_pos hacc, huser, Option.bind_some, hcount]
      obtain ⟨k, result, t', hrun, hended, hhow⟩ := ih hrest hless (m + 1)
        (t := ⟨_, user, false, t.checks + 1⟩) rfl
      refine ⟨k + 1, result, t', hrun, hended.packet ((if_pos hacc).trans huser) _, ?_⟩
      rwa [List.length_cons, Nat.add_right_cancel_iff, ← Nat.add_assoc, Nat.add_right_comm]
    · rw [if_neg hacc]
      obtain ⟨k, result, t', hrun, hended, hhow⟩ := ih hrest hless m
        (t := ⟨_, t.user, false, t.checks + 1⟩) rfl
      refine ⟨k + 1, result, t', hrun, hended.packet (if_neg hacc) _, ?_⟩
      rw [List.length_cons, Nat.add_right_cancel_iff]
      exact hhow.imp_right (Or.imp_right (Or.imp_right fun h => ⟨h.1, h.2.trans (Nat.le_succ _)⟩))

/-- The loop ends with the status of the file, or with -2 where it was told to; told to after
`2 ^ 31` packets it may also end with their number, which has become negative. -/
theorem pcapLoop_delivers (breaks : Nat → Bool) (accepts : PcapPkthdr → List UInt8 → Bool)
    (callback : σ → PcapPkthdr → List UInt8 → Access σ) (hd : Delivers answers p r packets status)
    (hlen : packets.length ≤ r.fp.length) (hstatus : status = 0 ∨ status = -1)
    (hcall : ∀ f ∈ packets, ∀ user, (callback user f.1 f.2).isSome) {t : OfflineState σ} (ht : t.stream = r) :
    ∃ k result t', pcapLoop answers breaks accepts p callback 2 t = some (result, t') ∧
      Ended breaks accepts callback packets status t.breakLoop t.user k result t'.user ∧
      (result = status ∧ k = packets.length ∨ result = -2 ∨ result < 0 ∧ 2 ^ 31 ≤ k) := by
  obtain ⟨k, result, t', hrun, hended, hhow⟩ := pcapOfflineRead_delivers breaks accepts hd hcall
    (show packets.length < t.stream.fp.length + 1 by rw [ht]; omega) 0 ht
  rw [Nat.zero_add] at hhow
  have hzero : int32 ((0 : Nat) : Int) = 0 := rfl
  rw [hzero] at hrun
  rw [pcapLoop, hrun, Option.bind_some]
  rcases hhow with ⟨hres, hk⟩ | hres | ⟨hpos, htold⟩ | ⟨hneg, hmany⟩
  · rw [if_pos (by simp only; omega)]
    exact ⟨k, result, t', rfl, hended, .inl ⟨hres, hk⟩⟩
  · rw [if_pos (by simp only; omega)]
    exact ⟨k, result, t', rfl, hended, .inr (.inl hres)⟩
  · rw [if_neg (by simp only; omega), pcapLoop, pcapOfflineRead, htold, Bool.true_or, if_pos rfl, if_pos rfl,
      Option.bind_some, if_pos (by simp)]
    refine ⟨k, -2, _, rfl, ⟨hended.handled, hended.within, fun hb h => ?_⟩, .inr (.inl rfl)⟩
    have := (hended.whole hb h).2
    omega
  · rw [if_pos (by simp only; omega)]
    exact ⟨k, result, t', rfl, hended, .inr (.inr ⟨hneg, hmany⟩)⟩

end Loops

end Tcpkit
