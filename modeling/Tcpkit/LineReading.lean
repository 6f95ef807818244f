import Tcpkit.PrintedLines

/-! What can be read off a printed line: the fields it was made of. -/

namespace Tcpkit

open MachineInt DecimalText

section Pieces

variable {a b c d l : List UInt8} {sep : UInt8}

/-- Two lines that are cut before the same literal, where its first byte does not stand earlier. -/
theorem cut_inj (sep : UInt8) (hl : l.head? = some sep) (ha : sep ∉ a) (hc : sep ∉ c)
    (h : a ++ (l ++ b) = c ++ (l ++ d)) : a = c ∧ b = d := by
  have hhead (s : List UInt8) : ∀ y ∈ (l ++ s).head?, y = sep := by
    intro y hy
    rw [List.head?_append, hl] at hy
    exact (Option.some.inj hy).symm
  obtain ⟨hac, hbd⟩ := (append_inj_of_notMem ha hc (hhead b) (hhead d)).mp h
  exact ⟨hac, List.append_cancel_left hbd⟩

theorem notMem_zeroPadded {w : Nat} {n : Int} (hminus : sep ≠ 0x2d) (hdigit : isDigit sep = false) :
    sep ∉ zeroPadded w n := by
  intro hm
  rcases zeroPadded_bytes hm with h | h
  · exact hminus h
  · rw [h] at hdigit
    cases hdigit

theorem notMem_fixedText {p m : Nat} {negative : Bool} (hminus : sep ≠ 0x2d) (hdot : sep ≠ 0x2e)
    (hdigit : isDigit sep = false) : sep ∉ fixedText p negative m := by
  intro hm
  rcases fixedText_bytes hm with h | h | h
  · exact hminus h
  · exact hdot h
  · rw [h] at hdigit
    cases hdigit

theorem notMem_digits {n : Nat} (hdigit : isDigit sep = false) : sep ∉ (CString.decimal n).bytes := by
  intro hm
  rw [isDigit_of_mem_decimal hm] at hdigit
  cases hdigit

theorem notMem_inetNtoa {ip : UInt32} (hdot : sep ≠ 0x2e) (hdigit : isDigit sep = false) :
    sep ∉ (inetNtoa ip).bytes := by
  simp only [inetNtoa, CString.joined_bytes, List.mem_append, List.mem_cons, not_or]
  exact ⟨notMem_digits hdigit, hdot, notMem_digits hdigit, hdot, notMem_digits hdigit, hdot,
    notMem_digits hdigit⟩

theorem notMem_endpointName {e : Endpoint} (hdot : sep ≠ 0x2e) (hcolon : sep ≠ 0x3a)
    (hdigit : isDigit sep = false) : sep ∉ (endpointName e).bytes := by
  simp only [endpointName, CString.joined_bytes, List.mem_append, List.mem_cons, not_or]
  exact ⟨notMem_inetNtoa hdot hdigit, hcolon, notMem_digits hdigit⟩

theorem notMem_dottedText {e : Endpoint} (hdot : sep ≠ 0x2e) (hdigit : isDigit sep = false) :
    sep ∉ dottedText e := by
  rw [dottedText, List.append_assoc, List.mem_append, List.mem_append]
  rintro (h | h | h)
  · exact notMem_inetNtoa hdot hdigit h
  · exact hdot (List.mem_singleton.mp h)
  · exact notMem_digits hdigit h

theorem length_inetNtoa_le (ip : UInt32) : (inetNtoa ip).bytes.length ≤ 15 := by
  have hbyte (n : Nat) : (CString.decimal (n % 256)).strlen ≤ 3 :=
    CString.strlen_decimal_le (by decide) ((Nat.mod_lt n (by decide)).trans (by decide))
  have h0 := hbyte ip.toNat
  have h1 := hbyte (ip.toNat / 2 ^ 8)
  have h2 := hbyte (ip.toNat / 2 ^ 16)
  have h3 := hbyte (ip.toNat / 2 ^ 24)
  change (inetNtoa ip).strlen ≤ 15
  rw [inetNtoa, CString.strlen_joined, CString.strlen_joined, CString.strlen_joined]
  omega

theorem length_port_le (port : UInt16) : (CString.decimal port.toNat).bytes.length ≤ 5 :=
  CString.strlen_decimal_le (by decide) (port.toNat_lt.trans (by decide))

theorem length_word_le (n : UInt32) : (CString.decimal n.toNat).bytes.length ≤ 10 :=
  CString.strlen_decimal_le (by decide) (n.toNat_lt.trans (by decide))

theorem length_usec_le (tv : Timeval) : (zeroPadded 6 (int32 tv.tvUsec)).length ≤ max 6 11 := by
  have hlow : -(2 ^ 32 / 2) ≤ int32 tv.tvUsec := Int.le_bmod (by decide)
  have hhigh : int32 tv.tvUsec < (2 ^ 32 + 1) / 2 := Int.bmod_lt (by decide)
  exact length_zeroPadded (by decide) (by omega)

/-- The five numbers of an address and a port stand between dots. -/
theorem dottedText_injective : Function.Injective dottedText := by
  have hnested (e : Endpoint) : dottedText e = (CString.joined 0x2e dot_ne_nul
      (CString.decimal (e.ip.toNat % 256)) (CString.joined 0x2e dot_ne_nul
        (CString.decimal (e.ip.toNat / 2 ^ 8 % 256)) (CString.joined 0x2e dot_ne_nul
          (CString.decimal (e.ip.toNat / 2 ^ 16 % 256)) (CString.joined 0x2e dot_ne_nul
            (CString.decimal (e.ip.toNat / 2 ^ 24 % 256)) (CString.decimal e.port.toNat))))).bytes := by
    simp only [dottedText, inetNtoa, CString.joined_bytes, List.append_assoc, List.cons_append]
    rfl
  rintro ⟨ip, port⟩ ⟨ip', port'⟩ h
  rw [hnested, hnested] at h
  have hd := dot_notMem_decimal
  obtain ⟨h0, h⟩ := CString.joined_inj_left (hd _) (hd _) (CString.ext h)
  obtain ⟨h1, h⟩ := CString.joined_inj_left (hd _) (hd _) h
  obtain ⟨h2, h⟩ := CString.joined_inj_left (hd _) (hd _) h
  obtain ⟨h3, h4⟩ := CString.joined_inj_left (hd _) (hd _) h
  have hip : inetNtoa ip = inetNtoa ip' := by rw [inetNtoa, inetNtoa, h0, h1, h2, h3]
  rw [Endpoint.mk.injEq]
  exact ⟨inetNtoa_injective hip, UInt16.toNat_inj.mp (CString.decimal_injective h4)⟩

/-- No control bytes, so no NUL and no end of a line. -/
def Visible (s : List UInt8) : Prop := ∀ b ∈ s, 0x20 ≤ b

instance : DecidablePred Visible := fun s => List.decidableBAll _ s

theorem visible_append : Visible (a ++ b) ↔ Visible a ∧ Visible b := List.forall_mem_append

theorem Visible.notMem (h : Visible a) (hsep : sep < 0x20) : sep ∉ a := by
  intro hm
  have hle := h sep hm
  rw [UInt8.le_iff_toNat_le] at hle
  rw [UInt8.lt_iff_toNat_lt] at hsep
  omega

theorem visible_of_isDigit {sep : UInt8} (h : isDigit sep = true) : 0x20 ≤ sep := by
  have hle := (isDigit_iff.mp h).1
  rw [UInt8.le_iff_toNat_le]
  exact le_trans (by decide) hle

theorem visible_decimal (n : Nat) : Visible (CString.decimal n).bytes :=
  fun _ hb => visible_of_isDigit (isDigit_of_mem_decimal hb)

theorem visible_zeroPadded (w : Nat) (n : Int) : Visible (zeroPadded w n) := by
  intro b hb
  rcases zeroPadded_bytes hb with rfl | hb
  · decide
  · exact visible_of_isDigit hb

theorem visible_fixedText (p m : Nat) (negative : Bool) : Visible (fixedText p negative m) := by
  intro b hb
  rcases fixedText_bytes hb with rfl | rfl | hb
  · decide
  · decide
  · exact visible_of_isDigit hb

theorem visible_inetNtoa (ip : UInt32) : Visible (inetNtoa ip).bytes := by
  have hcons (n : Nat) (s : List UInt8) (h : Visible s) : Visible ((CString.decimal n).bytes ++ 0x2e :: s) :=
    visible_append.mpr ⟨visible_decimal n, List.forall_mem_cons.mpr ⟨by decide, h⟩⟩
  simp only [inetNtoa, CString.joined_bytes]
  exact hcons _ _ (hcons _ _ (hcons _ _ (visible_decimal _)))

theorem visible_endpointName (e : Endpoint) : Visible (endpointName e).bytes := by
  rw [endpointName, CString.joined_bytes]
  exact visible_append.mpr ⟨visible_inetNtoa _, List.forall_mem_cons.mpr ⟨by decide, visible_decimal _⟩⟩

theorem visible_dottedText (e : Endpoint) : Visible (dottedText e) :=
  visible_append.mpr ⟨visible_append.mpr ⟨visible_inetNtoa _, by decide⟩, visible_decimal _⟩

end Pieces

section Packets

/-- What the line of a TCP segment shows. -/
@[ext]
structure TcpShown where
  flags : UInt8
  seq : Option UInt32
  ack : Option UInt32
  window : UInt16
  deriving DecidableEq

structure PacketShown where
  time : List UInt8
  usec : Int
  src : Endpoint
  dst : Endpoint
  tcp : Option TcpShown
  length : Int
  deriving DecidableEq

def UserPacket.tcpShown (p : UserPacket) : TcpShown where
  flags := p.flags &&& 0x1f
  seq := if p.wirePayloadSize > 0 then some p.seq else none
  ack := if p.flags &&& 0x10 ≠ 0 then some p.ack else none
  window := p.window

def UserPacket.shownBy (clock : Clock) (p : UserPacket) : PacketShown where
  time := clock.time p.tv.tvSec
  usec := int32 p.tv.tvUsec
  src := p.src
  dst := p.dst
  tcp := if p.isTcp then some p.tcpShown else none
  length := p.wirePayloadSize

def packetText (clock : Clock) (p : UserPacket) : List UInt8 := (packetTexts clock p).flatten

def lengthText (p : UserPacket) : List UInt8 :=
  chars [' ', 'l', 'e', 'n', 'g', 't', 'h', ' '] ++ zeroPadded 0 p.wirePayloadSize

def flagValue (text : List UInt8) : UInt8 :=
  (if 0x46 ∈ text then 0x01 else 0) ||| (if 0x53 ∈ text then 0x02 else 0) |||
  (if 0x52 ∈ text then 0x04 else 0) ||| (if 0x50 ∈ text then 0x08 else 0) |||
  (if 0x2e ∈ text then 0x10 else 0)

theorem flagValue_flagTexts (flags : UInt8) : flagValue (flagTexts flags).flatten = flags &&& 0x1f := by
  have hall : ∀ n : Fin 256, flagValue (flagTexts (UInt8.ofFin n)).flatten = UInt8.ofFin n &&& 0x1f := by
    decide +kernel
  exact hall flags.toFin

theorem bracket_notMem_flagTexts (flags : UInt8) : (0x5d : UInt8) ∉ (flagTexts flags).flatten := by
  have hall : ∀ n : Fin 256, (0x5d : UInt8) ∉ (flagTexts (UInt8.ofFin n)).flatten := by
    decide +kernel
  exact hall flags.toFin

/-- The end of the line of a TCP segment, from the acknowledgement on. -/
def ackEnd (p : UserPacket) : List UInt8 :=
  (if p.flags &&& 0x10 ≠ 0 then ackText p.ack else []) ++ (windowText p.window ++ lengthText p)

def segmentEnd (p : UserPacket) : List UInt8 :=
  (if p.wirePayloadSize > 0 then seqText p.seq p.wirePayloadSize else []) ++ ackEnd p

def packetEnd (p : UserPacket) : List UInt8 :=
  if p.isTcp then
    chars [' ', 'F', 'l', 'a', 'g', 's', ' ', '['] ++ ((flagTexts p.flags).flatten ++
      (chars [']', ','] ++ segmentEnd p))
  else lengthText p

theorem packetText_eq (clock : Clock) (p : UserPacket) :
    packetText clock p = clock.time p.tv.tvSec ++ (chars ['.'] ++ (zeroPadded 6 (int32 p.tv.tvUsec) ++
      (chars [' ', 'I', 'P', ' '] ++ (dottedText p.src ++ (chars [' ', '>', ' '] ++ (dottedText p.dst ++
        (chars [':'] ++ packetEnd p))))))) := by
  simp only [packetText, packetTexts, packetEnd, segmentEnd, ackEnd, lengthText, tcpTexts]
  split_ifs <;> simp

variable {p q : UserPacket}

theorem windowText_inj {window window' : UInt16}
    (h : windowText window ++ lengthText p = windowText window' ++ lengthText q) :
    window = window' ∧ p.wirePayloadSize = q.wirePayloadSize := by
  simp only [windowText, lengthText, List.append_assoc, List.append_cancel_left_eq] at h
  obtain ⟨hwindow, h⟩ := cut_inj 0x2c rfl (notMem_digits rfl) (notMem_digits rfl) h
  exact ⟨UInt16.toNat_inj.mp (CString.decimal_injective (CString.ext hwindow)),
    zeroPadded_inj (List.append_cancel_left h)⟩

theorem decimal_word_inj {m n : UInt32} (h : (CString.decimal m.toNat).bytes =
    (CString.decimal n.toNat).bytes) :
    m = n := UInt32.toNat_inj.mp (CString.decimal_injective (CString.ext h))

theorem ackEnd_inj (hflags : p.flags &&& 0x1f = q.flags &&& 0x1f) (h : ackEnd p = ackEnd q) :
    p.tcpShown.ack = q.tcpShown.ack ∧ p.window = q.window ∧ p.wirePayloadSize = q.wirePayloadSize := by
  have hack : p.flags &&& 0x10 = q.flags &&& 0x10 := by
    have hbit (flags : UInt8) : flags &&& 0x10 = flags &&& 0x1f &&& 0x10 := by
      rw [UInt8.and_assoc]
      rfl
    rw [hbit, hflags, ← hbit]
  simp only [ackEnd, UserPacket.tcpShown, hack] at h ⊢
  split_ifs at h ⊢
  · simp only [ackText, List.append_assoc, List.append_cancel_left_eq] at h
    obtain ⟨hnum, h⟩ := cut_inj 0x2c rfl (notMem_digits rfl) (notMem_digits rfl) h
    exact ⟨congrArg some (decimal_word_inj hnum), windowText_inj h⟩
  · exact ⟨rfl, windowText_inj h⟩

/-- The word behind a blank tells whether the sequence numbers are shown. -/
theorem seqText_ne_ackEnd (seq : UInt32) (length : Int) (rest : List UInt8) :
    seqText seq length ++ rest ≠ ackEnd p := by
  intro h
  have hsecond := congrArg (fun s : List UInt8 => s[1]?) h
  simp only [ackEnd] at hsecond
  split_ifs at hsecond
  · cases hsecond
  · cases hsecond

theorem segmentEnd_inj (hflags : p.flags &&& 0x1f = q.flags &&& 0x1f) (h : segmentEnd p = segmentEnd q) :
    p.tcpShown = q.tcpShown ∧ p.wirePayloadSize = q.wirePayloadSize := by
  have hparts : p.tcpShown.seq = q.tcpShown.seq ∧ ackEnd p = ackEnd q := by
    simp only [segmentEnd, UserPacket.tcpShown] at h ⊢
    split_ifs at h ⊢
    · simp only [seqText, List.append_assoc, List.append_cancel_left_eq] at h
      obtain ⟨hnum, h⟩ := cut_inj 0x3a rfl (notMem_digits rfl) (notMem_digits rfl) h
      obtain ⟨-, h⟩ := cut_inj 0x2c rfl (notMem_digits rfl) (notMem_digits rfl) h
      exact ⟨congrArg some (decimal_word_inj hnum), h⟩
    · exact absurd h (seqText_ne_ackEnd _ _ _)
    · exact absurd h.symm (seqText_ne_ackEnd _ _ _)
    · exact ⟨rfl, h⟩
  obtain ⟨hack, hwindow, hlength⟩ := ackEnd_inj hflags hparts.2
  exact ⟨TcpShown.ext hflags hparts.1 hack hwindow, hlength⟩

theorem packetEnd_inj (h : packetEnd p = packetEnd q) :
    (if p.isTcp then some p.tcpShown else none) = (if q.isTcp then some q.tcpShown else none) ∧
      p.wirePayloadSize = q.wirePayloadSize := by
  have hword (s t : List UInt8) : chars [' ', 'F', 'l', 'a', 'g', 's', ' ', '['] ++ s ≠
      chars [' ', 'l', 'e', 'n', 'g', 't', 'h', ' '] ++ t := by
    intro h
    cases congrArg (fun s : List UInt8 => s[1]?) h
  simp only [packetEnd] at h
  split_ifs at h ⊢
  · rw [List.append_cancel_left_eq] at h
    obtain ⟨hflags, h⟩ := cut_inj 0x5d rfl (bracket_notMem_flagTexts _)
      (bracket_notMem_flagTexts _) h
    have hvalue := congrArg flagValue hflags
    rw [flagValue_flagTexts, flagValue_flagTexts] at hvalue
    obtain ⟨hshown, hlength⟩ := segmentEnd_inj hvalue h
    exact ⟨congrArg some hshown, hlength⟩
  · exact absurd h (hword _ _)
  · exact absurd h.symm (hword _ _)
  · exact ⟨rfl, zeroPadded_inj (List.append_cancel_left h)⟩

/-- The line of a packet tells everything it shows. -/
theorem packetText_inj {clock : Clock} (h : packetText clock p = packetText clock q) :
    p.shownBy clock = q.shownBy clock := by
  have htime (t : Int) : (0x2e : UInt8) ∉ clock.time t := by
    intro hm
    rcases clock.time_bytes t _ hm with hb | hb <;> cases hb
  rw [packetText_eq, packetText_eq] at h
  obtain ⟨hclock, h⟩ := cut_inj 0x2e rfl (htime _) (htime _) h
  obtain ⟨husec, h⟩ := cut_inj 0x20 rfl (notMem_zeroPadded (by decide) rfl)
    (notMem_zeroPadded (by decide) rfl) h
  obtain ⟨hsrc, h⟩ := cut_inj 0x20 rfl (notMem_dottedText (by decide) rfl)
    (notMem_dottedText (by decide) rfl) h
  obtain ⟨hdst, h⟩ := cut_inj 0x3a rfl (notMem_dottedText (by decide) rfl)
    (notMem_dottedText (by decide) rfl) h
  obtain ⟨htcp, hlength⟩ := packetEnd_inj h
  simp only [UserPacket.shownBy, PacketShown.mk.injEq]
  exact ⟨hclock, zeroPadded_inj husec, dottedText_injective hsrc, dottedText_injective hdst, htcp, hlength⟩

theorem visible_packetText (clock : Clock) (p : UserPacket) : Visible (packetText clock p) := by
  have hflags : Visible (flagTexts p.flags).flatten := by
    have hall : ∀ n : Fin 256, Visible (flagTexts (UInt8.ofFin n)).flatten := by
      decide +kernel
    exact hall p.flags.toFin
  have hlength : Visible (lengthText p) := visible_append.mpr ⟨by decide, visible_zeroPadded _ _⟩
  have hseq : Visible (seqText p.seq p.wirePayloadSize) := by
    simp only [seqText, visible_append]
    exact ⟨⟨⟨⟨by decide, visible_decimal _⟩, by decide⟩, visible_decimal _⟩, by decide⟩
  have hack : Visible (ackText p.ack) := by
    simp only [ackText, visible_append]
    exact ⟨⟨by decide, visible_decimal _⟩, by decide⟩
  have hwindow : Visible (windowText p.window) := by
    simp only [windowText, visible_append]
    exact ⟨⟨by decide, visible_decimal _⟩, by decide⟩
  have hsegment : Visible (segmentEnd p) := by
    simp only [segmentEnd, ackEnd]
    split_ifs <;> simp only [visible_append, List.nil_append]
    · exact ⟨hseq, hack, hwindow, hlength⟩
    · exact ⟨hseq, hwindow, hlength⟩
    · exact ⟨hack, hwindow, hlength⟩
    · exact ⟨hwindow, hlength⟩
  have hend : Visible (packetEnd p) := by
    rw [packetEnd]
    split_ifs
    · simp only [visible_append]
      exact ⟨by decide, hflags, by decide, hsegment⟩
    · exact hlength
  have htime : Visible (clock.time p.tv.tvSec) := by
    intro b hb
    rcases clock.time_bytes _ b hb with hb | rfl
    · exact visible_of_isDigit hb
    · decide
  simp only [packetText_eq, visible_append]
  exact ⟨htime, by decide, visible_zeroPadded _ _, by decide, visible_dottedText _, by decide,
    visible_dottedText _, by decide, hend⟩

theorem length_packetEnd_le (h : p.wirePayloadSize.natAbs < 2 ^ 31) : (packetEnd p).length ≤ 91 := by
  have hflags : (flagTexts p.flags).flatten.length ≤ 5 := by
    have hall : ∀ n : Fin 256, (flagTexts (UInt8.ofFin n)).flatten.length ≤ 5 := by
      decide +kernel
    exact hall p.flags.toFin
  have hlength : (zeroPadded 0 p.wirePayloadSize).length ≤ max 0 11 :=
    length_zeroPadded (by decide) (lt_trans h (by decide))
  have hseq := length_word_le p.seq
  have hend := length_word_le (p.seq + UInt32.ofInt p.wirePayloadSize)
  have hack := length_word_le p.ack
  have hwindow := length_port_le p.window
  simp only [packetEnd, segmentEnd, ackEnd, seqText, ackText, windowText, lengthText]
  split_ifs <;> simp only [List.length_append, List.length_nil, chars, List.length_map,
    List.length_cons] <;> omega

theorem length_packetText_lt (clock : Clock) (h : p.wirePayloadSize.natAbs < 2 ^ 31) :
    (packetText clock p).length < 512 := by
  have htime := clock.time_short p.tv.tvSec
  have husec := length_usec_le p.tv
  have hdotted (e : Endpoint) : (dottedText e).length ≤ 21 := by
    have hip := length_inetNtoa_le e.ip
    have hport := length_port_le e.port
    simp only [dottedText, List.length_append, chars, List.length_map, List.length_cons, List.length_nil]
    omega
  have hsrc := hdotted p.src
  have hdst := hdotted p.dst
  have hend := length_packetEnd_le h
  rw [packetText_eq]
  simp only [List.length_append, chars, List.length_map, List.length_cons, List.length_nil]
  omega

/-- The buffer holds the whole line, and nothing behind the captured payload is read. -/
theorem printUserPacket_eq (clock : Clock) (ascii : Bool) {buf : List UInt8} (hbuf : buf.length = 512)
    (hlength : p.wirePayloadSize.natAbs < 2 ^ 31) (hread : p.payloadSize.toNat ≤ p.payload.length) :
    printUserPacket clock ascii buf p = some (packetText clock p ++
      ((if ascii then chars [' '] ++ (p.payload.take p.payloadSize.toNat).takeWhile fun b => b ≠ 0 else []) ++
        chars ['\n'])) := by
  obtain ⟨b, hrun, hfilled⟩ := foldlM_appendFmt (by decide) hbuf (clock.time p.tv.tvSec)
    (packetTexts clock p).tail
  have htexts : clock.time p.tv.tvSec :: (packetTexts clock p).tail = packetTexts clock p := rfl
  rw [htexts, Nat.cast_ofNat] at hrun
  obtain ⟨rest, hbytes⟩ := hfilled.bytes_eq
  have hfits := length_packetText_lt clock hlength
  change b.bytes = (packetText clock p).take (512 - 1) ++ 0 :: rest at hbytes
  rw [List.take_of_length_le (by omega)] at hbytes
  have hline : cStringAt b.bytes = some (packetText clock p) := by
    rw [hbytes, cStringAt_append rest ((visible_packetText clock p).notMem (by decide))]
  cases ascii with
  | false => simp [printUserPacket, hrun, hline]
  | true => simp [printUserPacket, hrun, hline, precisionText_eq hread]

end Packets

section Exchanges

/-- What the line of an exchange shows. -/
structure ExchangeShown where
  date : List UInt8
  usec : Int
  client : Endpoint
  server : Endpoint
  delta : Int
  payload : List UInt8
  deriving DecidableEq

/-- The line of an exchange, without its end. -/
def exchangeText (clock : Clock) (tv : Timeval) (client server : Endpoint) (delta : Int)
    (payload : List UInt8) : List UInt8 :=
  clock.dateTime tv.tvSec ++ (chars ['.'] ++ (zeroPadded 6 (int32 tv.tvUsec) ++ (chars [' '] ++
    ((endpointName client).bytes ++ (chars [' ', '=', '>', ' '] ++ ((endpointName server).bytes ++
      (chars [' ', '|', ' '] ++ (fixedText 3 (decide (delta < 0)) delta.natAbs ++
        (chars [' ', 'm', 's', ' ', '|', ' '] ++ payload)))))))))

variable {clock : Clock} {tv : Timeval} {client server : Endpoint} {delta : Int} {payload : List UInt8}

/-- Latencies that differ by a microsecond are printed differently, up to centuries. -/
theorem formatF_milliseconds (h : delta.natAbs < 2 ^ 43 * 1000) :
    formatF 3 (milliseconds delta) = fixedText 3 (decide (delta < 0)) delta.natAbs := by
  have hcast : |(delta : ℚ)| = delta.natAbs := by
    rw [← Int.cast_abs, Int.abs_eq_natAbs, Int.cast_natCast]
  have hlt : |(delta : ℚ)| < 2 ^ 43 * 1000 := by
    rw [hcast]
    exact_mod_cast h
  have hexact : Binary64.nearest delta = delta := by
    refine Binary64.nearest_intCast (hlt.trans ?_)
    norm_num
  rw [milliseconds, hexact, formatF_thousandth hlt]

theorem exchangeTexts_flatten (hdelta : delta.natAbs < 2 ^ 43 * 1000) (hpayload : Visible payload) :
    (exchangeTexts clock tv client server delta payload).flatten =
      exchangeText clock tv client server delta payload ++ chars ['\n'] := by
  have hwhole : (payload.takeWhile fun b => b ≠ 0) = payload := by
    refine List.takeWhile_eq_self_iff.mpr fun b hb => ?_
    rw [decide_eq_true_eq]
    rintro rfl
    exact hpayload.notMem (by decide) hb
  simp only [exchangeTexts, exchangeText, formatF_milliseconds hdelta, hwhole]
  simp

theorem visible_exchangeText (hpayload : Visible payload) :
    Visible (exchangeText clock tv client server delta payload) := by
  have hdate : Visible (clock.dateTime tv.tvSec) := by
    intro b hb
    rcases clock.dateTime_bytes _ b hb with hb | rfl | rfl | rfl
    · exact visible_of_isDigit hb
    · decide
    · decide
    · decide
  simp only [exchangeText, visible_append]
  exact ⟨hdate, by decide, visible_zeroPadded _ _, by decide, visible_endpointName _, by decide,
    visible_endpointName _, by decide, visible_fixedText _ _ _, by decide, hpayload⟩

theorem length_exchangeText_lt (hdelta : delta.natAbs < 2 ^ 43 * 1000) (hpayload : payload.length ≤ 127) :
    (exchangeText clock tv client server delta payload).length < 512 := by
  have hdate := clock.dateTime_short tv.tvSec
  have husec := length_usec_le tv
  have hname (e : Endpoint) : (endpointName e).bytes.length ≤ 21 := by
    have hip := length_inetNtoa_le e.ip
    have hport := length_port_le e.port
    simp only [endpointName, CString.joined_bytes, List.length_append, List.length_cons]
    omega
  have hms : (fixedText 3 (decide (delta < 0)) delta.natAbs).length ≤ 13 + 3 + 3 :=
    length_fixedText (by decide) (by decide) (hdelta.trans (by decide))
  have hclient := hname client
  have hserver := hname server
  simp only [exchangeText, List.length_append, chars, List.length_map, List.length_cons, List.length_nil]
  omega

/-- The line of an exchange tells the times, the endpoints, the latency and the request. -/
theorem exchangeText_inj {tv' : Timeval} {client' server' : Endpoint} {delta' : Int} {payload' : List UInt8}
    (h : exchangeText clock tv client server delta payload =
      exchangeText clock tv' client' server' delta' payload') :
    (⟨clock.dateTime tv.tvSec, int32 tv.tvUsec, client, server, delta, payload⟩ : ExchangeShown) =
      ⟨clock.dateTime tv'.tvSec, int32 tv'.tvUsec, client', server', delta', payload'⟩ := by
  have hdate (t : Int) : (0x2e : UInt8) ∉ clock.dateTime t := by
    intro hm
    rcases clock.dateTime_bytes t _ hm with hb | hb | hb | hb <;> cases hb
  obtain ⟨hclock, h⟩ := cut_inj 0x2e rfl (hdate _) (hdate _) h
  obtain ⟨husec, h⟩ := cut_inj 0x20 rfl (notMem_zeroPadded (by decide) rfl)
    (notMem_zeroPadded (by decide) rfl) h
  obtain ⟨hclient, h⟩ := cut_inj 0x20 rfl (notMem_endpointName (by decide) (by decide) rfl)
    (notMem_endpointName (by decide) (by decide) rfl) h
  obtain ⟨hserver, h⟩ := cut_inj 0x20 rfl (notMem_endpointName (by decide) (by decide) rfl)
    (notMem_endpointName (by decide) (by decide) rfl) h
  obtain ⟨hms, hpayload⟩ := cut_inj 0x20 rfl (notMem_fixedText (by decide) (by decide) rfl)
    (notMem_fixedText (by decide) (by decide) rfl) h
  obtain ⟨hsign, hdelta⟩ := fixedText_inj hms
  have hsame : delta = delta' := by
    rw [decide_eq_decide] at hsign
    omega
  rw [hclock, zeroPadded_inj husec, endpointName_injective (CString.ext hclient),
    endpointName_injective (CString.ext hserver), hsame, hpayload]

theorem colorPrintf_eq (terminal : Bool) {buf : List UInt8} (hbuf : buf.length = 4096)
    (hdelta : delta.natAbs < 2 ^ 43 * 1000) (hshort : payload.length ≤ 127) (hpayload : Visible payload) :
    colorPrintf terminal buf (exchangeTexts clock tv client server delta payload).flatten =
      some ((if terminal then green else []) ++ (exchangeText clock tv client server delta payload ++
        (chars ['\n'] ++ if terminal then noColor else []))) := by
  have hlength : (exchangeText clock tv client server delta payload).length < 512 :=
    length_exchangeText_lt hdelta hshort
  obtain ⟨rest, hprint, -⟩ := vsnprintf_eq buf
    (exchangeText clock tv client server delta payload ++ chars ['\n']) 0 4096 (by decide) (by omega)
  rw [List.take_zero, List.nil_append, List.take_of_length_le (by simp [chars]; omega)] at hprint
  have hnul : (0 : UInt8) ∉ exchangeText clock tv client server delta payload ++ chars ['\n'] := by
    rw [List.mem_append, not_or]
    exact ⟨(visible_exchangeText hpayload).notMem (by decide), by decide⟩
  rw [exchangeTexts_flatten hdelta hpayload]
  have hline := cStringAt_append rest hnul
  rw [List.append_assoc] at hline
  cases terminal <;> simp [colorPrintf, hprint, hline]

end Exchanges

end Tcpkit
