import Tcpkit.CivilTime
import Tcpkit.Report

/-! The lines that are printed: the packets of raw mode, put together in a buffer of 512 bytes, and
the exchanges of the other protocols, formatted into one of 4096. No line is cut, and each says what
it was printed from. -/

namespace Tcpkit

open MachineInt DecimalText

def chars (s : List Char) : List UInt8 := s.map fun c => UInt8.ofNat c.toNat

/-- What `localtime` and `strftime` make of a time with the formats `"%Y-%m-%d %H:%M:%S"` and
`"%H:%M:%S"`. -/
structure Clock where
  dateTime : Int → List UInt8
  time : Int → List UInt8
  dateTime_bytes : ∀ t, ∀ b ∈ dateTime t, isDigit b = true ∨ b = 0x2d ∨ b = 0x3a ∨ b = 0x20
  dateTime_short : ∀ t, (dateTime t).length < 64
  time_bytes : ∀ t, ∀ b ∈ time t, isDigit b = true ∨ b = 0x3a
  time_short : ∀ t, (time t).length < 32

theorem utcTime_dateTimeText_bytes {t : Int} {b : UInt8} (h : b ∈ strftime 64 (utcTime t).dateTimeText) :
    isDigit b = true ∨ b = 0x2d ∨ b = 0x3a ∨ b = 0x20 := by
  have hb := mem_of_mem_strftime h
  rw [CivilTime.dateTimeText, List.mem_append, List.mem_cons] at hb
  rcases hb with hb | rfl | hb
  · exact (dateText_bytes hb).imp_right .inl
  · exact .inr (.inr (.inr rfl))
  · exact (utcTime_timeText_bytes hb).imp_right fun hb => .inr (.inl hb)

/-- The clock of a host whose zone is UTC. -/
def utcClock : Clock where
  dateTime t := strftime 64 (utcTime t).dateTimeText
  time t := strftime 32 (utcTime t).timeText
  dateTime_bytes _ _ h := utcTime_dateTimeText_bytes h
  dateTime_short _ := length_strftime_lt (Nat.zero_lt_succ 63) _
  time_bytes _ _ h := utcTime_timeText_bytes (mem_of_mem_strftime h)
  time_short _ := length_strftime_lt (Nat.zero_lt_succ 31) _

/-- A buffer, and how far it is filled. -/
structure LineBuffer where
  bytes : List UInt8
  n : Int

/-- `vsnprintf(buf + start, size, ..)`: the text and a NUL as far as they fit, and the length of the
whole text; none for a store behind the buffer. -/
def vsnprintf (buf : List UInt8) (start size : Nat) (text : List UInt8) : Access (List UInt8 × Int) :=
  if size = 0 then some (buf, text.length)
  else
    let kept := text.take (size - 1)
    if start + kept.length + 1 ≤ buf.length then
      some (buf.take start ++ kept ++ 0 :: buf.drop (start + kept.length + 1), text.length)
    else none

def appendFmt (cap : Int) (b : LineBuffer) (text : List UInt8) : Access LineBuffer :=
  if b.n ≥ cap - 1 then some b
  else (vsnprintf b.bytes b.n.toNat (cap - b.n).toNat text).map fun r =>
    ⟨r.1, if b.n + r.2 > cap - 1 then cap - 1 else b.n + r.2⟩

/-- `%s` of a buffer, none where no NUL ends it. -/
def cStringAt (buf : List UInt8) : Access (List UInt8) :=
  if 0 ∈ buf then some (buf.takeWhile fun b => b ≠ 0) else none

/-- `%.*s` with a precision that is not negative: no byte is read behind it. -/
def precisionText : Nat → List UInt8 → Access (List UInt8)
  | 0, _ => some []
  | _ + 1, [] => none
  | n + 1, b :: s => if b = 0 then some [] else (precisionText n s).map (b :: ·)

section Packets

def flagTexts (flags : UInt8) : List (List UInt8) :=
  (if flags &&& 0x01 ≠ 0 then [chars ['F']] else []) ++
  (if flags &&& 0x02 ≠ 0 then [chars ['S']] else []) ++
  (if flags &&& 0x04 ≠ 0 then [chars ['R']] else []) ++
  (if flags &&& 0x08 ≠ 0 then [chars ['P']] else []) ++
  (if flags &&& 0x10 ≠ 0 then [chars ['.']] else [])

def seqText (seq : UInt32) (length : Int) : List UInt8 :=
  chars [' ', 's', 'e', 'q', ' '] ++ (CString.decimal seq.toNat).bytes ++ chars [':'] ++
    (CString.decimal (seq + UInt32.ofInt length).toNat).bytes ++ chars [',']

def ackText (ack : UInt32) : List UInt8 :=
  chars [' ', 'a', 'c', 'k', ' '] ++ (CString.decimal ack.toNat).bytes ++ chars [',']

def windowText (window : UInt16) : List UInt8 :=
  chars [' ', 'w', 'i', 'n', 'd', 'o', 'w', ' '] ++ (CString.decimal window.toNat).bytes ++ chars [',']

def tcpTexts (p : UserPacket) (length : Int) : List (List UInt8) :=
  [chars [' ', 'F', 'l', 'a', 'g', 's', ' ', '[']] ++ flagTexts p.flags ++ [chars [']', ',']] ++
  (if length > 0 then [seqText p.seq length] else []) ++
  (if p.flags &&& 0x10 ≠ 0 then [ackText p.ack] else []) ++
  [windowText p.window]

/-- `"%s.%d"`. -/
def dottedText (e : Endpoint) : List UInt8 :=
  (inetNtoa e.ip).bytes ++ chars ['.'] ++ (CString.decimal e.port.toNat).bytes

/-- The texts of the calls to `append_fmt` in `print_user_packet`. -/
def packetTexts (clock : Clock) (p : UserPacket) : List (List UInt8) :=
  let length := p.wirePayloadSize
  [clock.time p.tv.tvSec, chars ['.'] ++ zeroPadded 6 (int32 p.tv.tvUsec),
    chars [' ', 'I', 'P', ' '] ++ dottedText p.src,
    chars [' ', '>', ' '] ++ dottedText p.dst ++ chars [':']] ++
  (if p.isTcp then tcpTexts p length else []) ++
  [chars [' ', 'l', 'e', 'n', 'g', 't', 'h', ' '] ++ zeroPadded 0 length]

/-- `buf` is what the 512 bytes on the stack held before. -/
def printUserPacket (clock : Clock) (ascii : Bool) (buf : List UInt8) (p : UserPacket) :
    Access (List UInt8) := do
  let b ← (packetTexts clock p).foldlM (appendFmt 512) ⟨buf, 0⟩
  let line ← cStringAt b.bytes
  if !ascii then return line ++ chars ['\n']
  else
    let payload ← precisionText p.payloadSize.toNat p.payload
    return line ++ chars [' '] ++ payload ++ chars ['\n']

end Packets

section Exchanges

/-- `delta/1000.0`. -/
def milliseconds (delta : Int) : ℚ := Binary64.nearest (Binary64.nearest delta / 1000)

def exchangeTexts (clock : Clock) (tv : Timeval) (client server : Endpoint) (delta : Int)
    (payload : List UInt8) : List (List UInt8) :=
  [clock.dateTime tv.tvSec, chars ['.'], zeroPadded 6 (int32 tv.tvUsec), chars [' '],
    (endpointName client).bytes, chars [' ', '=', '>', ' '], (endpointName server).bytes,
    chars [' ', '|', ' '], formatF 3 (milliseconds delta), chars [' ', 'm', 's', ' ', '|', ' '],
    payload.takeWhile fun b => b ≠ 0, chars ['\n']]

def green : List UInt8 := chars ['\x1b', '[', '3', '2', 'm']

def noColor : List UInt8 := chars ['\x1b', '[', '0', 'm']

/-- Escape codes are only written to a terminal. -/
def colorPrintf (terminal : Bool) (buf text : List UInt8) : Access (List UInt8) := do
  let (buf, _) ← vsnprintf buf 0 4096 text
  let line ← cStringAt buf
  return if terminal then green ++ line ++ noColor else line

/-- What handling a packet writes for an event; `buf` is what the buffer on the stack held before. A
script writes its own output. -/
def Event.print (clock : Clock) (terminal ascii : Bool) (buf : List UInt8) : Event → Access (List UInt8)
  | .sample _ _ => some []
  | .exchange tv client server delta payload =>
    colorPrintf terminal (buf.take 4096) (exchangeTexts clock tv client server delta payload).flatten
  | .userPacket p => printUserPacket clock ascii (buf.take 512) p
  | .script _ => some []

end Exchanges

section Buffers

/-- The text stands behind what the buffer began with, up to a NUL. -/
theorem vsnprintf_eq (buf text : List UInt8) (start size : Nat) (hsize : 1 ≤ size)
    (hroom : start + size ≤ buf.length) : ∃ rest,
    vsnprintf buf start size text =
      some (buf.take start ++ text.take (size - 1) ++ 0 :: rest, (text.length : Int)) ∧
    (buf.take start ++ text.take (size - 1) ++ 0 :: rest).length = buf.length := by
  have hkept : (text.take (size - 1)).length ≤ size - 1 := List.length_take_le _ _
  refine ⟨buf.drop (start + (text.take (size - 1)).length + 1), ?_, ?_⟩
  · rw [vsnprintf, if_neg (by omega), if_pos (by omega)]
  · simp only [List.length_append, List.length_cons, List.length_drop, List.length_take] at hkept ⊢
    omega

theorem cStringAt_append {line : List UInt8} (rest : List UInt8) (h : 0 ∉ line) :
    cStringAt (line ++ 0 :: rest) = some line := by
  rw [cStringAt, if_pos (by simp)]
  exact congrArg some (takeWhile_ne_append h (by simp))

theorem precisionText_eq {n : Nat} {payload : List UInt8} (h : n ≤ payload.length) :
    precisionText n payload = some ((payload.take n).takeWhile fun b => b ≠ 0) := by
  induction n generalizing payload with
  | zero => rw [List.take_zero]; rfl
  | succ n ih =>
    cases payload with
    | nil => cases h
    | cons b payload =>
      rw [List.length_cons] at h
      by_cases hb : b = 0
      · simp [precisionText, hb]
      · simp [precisionText, hb, ih (Nat.le_of_succ_le_succ h)]

/-- The buffer of `append_fmt` after the calls that formatted `text`: all of it that fits. -/
structure LineBuffer.Filled (cap : Nat) (text : List UInt8) (b : LineBuffer) : Prop where
  length_eq : b.bytes.length = cap
  n_eq : b.n = min text.length (cap - 1)
  bytes_eq : ∃ rest, b.bytes = text.take (cap - 1) ++ 0 :: rest

theorem LineBuffer.appendFmt_filled {cap : Nat} {b : LineBuffer} (old text : List UInt8) (hcap : 2 ≤ cap)
    (hlength : b.bytes.length = cap) (hn : b.n = min old.length (cap - 1))
    (hbytes : b.bytes.take (min old.length (cap - 1)) = old.take (cap - 1))
    (hfull : cap - 1 ≤ old.length → ∃ rest, b.bytes = old.take (cap - 1) ++ 0 :: rest) :
    ∃ b', appendFmt cap b text = some b' ∧ b'.Filled cap (old ++ text) := by
  by_cases h : cap - 1 ≤ old.length
  · refine ⟨b, by rw [appendFmt, if_pos (by omega)], hlength, ?_, ?_⟩
    · rw [hn, List.length_append]
      omega
    · rw [List.take_append_of_le_length h]
      exact hfull h
  · obtain ⟨rest, hprint, htotal⟩ := vsnprintf_eq b.bytes text old.length (cap - old.length)
      (by omega) (by omega)
    have hstart : b.n.toNat = old.length := by omega
    have hsize : ((cap : Int) - b.n).toNat = cap - old.length := by omega
    rw [Nat.min_eq_left (by omega), List.take_of_length_le (by omega : old.length ≤ cap - 1)] at hbytes
    have htext : (old ++ text).take (cap - 1) = old ++ text.take (cap - old.length - 1) := by
      rw [List.take_append, List.take_of_length_le (by omega), Nat.sub_right_comm]
    rw [hbytes] at hprint htotal
    refine ⟨⟨old ++ text.take (cap - old.length - 1) ++ 0 :: rest,
      if b.n + text.length > cap - 1 then cap - 1 else b.n + text.length⟩, ?_, htotal.trans hlength, ?_,
      rest, by rw [htext]⟩
    · rw [appendFmt, if_neg (by omega), hstart, hsize, hprint]
      rfl
    · simp only [List.length_append]
      split_ifs <;> omega

theorem LineBuffer.Filled.foldlM {cap : Nat} (hcap : 2 ≤ cap) {old : List UInt8} {b : LineBuffer}
    (h : b.Filled cap old) (texts : List (List UInt8)) :
    ∃ b', texts.foldlM (appendFmt cap) b = some b' ∧ b'.Filled cap (old ++ texts.flatten) := by
  induction texts generalizing old b with
  | nil => exact ⟨b, rfl, by simpa using h⟩
  | cons text texts ih =>
    obtain ⟨rest, hbytes⟩ := h.bytes_eq
    have hold : b.bytes.take (min old.length (cap - 1)) = old.take (cap - 1) := by
      rw [hbytes, List.take_append_of_le_length (by simp [Nat.min_comm]), List.take_take]
      simp [Nat.min_comm]
    obtain ⟨u, hu, hfilled⟩ := LineBuffer.appendFmt_filled old text hcap h.length_eq h.n_eq hold
      fun _ => ⟨rest, hbytes⟩
    obtain ⟨b', hb', hfilled'⟩ := ih hfilled
    refine ⟨b', ?_, by simpa using hfilled'⟩
    rw [List.foldlM_cons, hu]
    exact hb'

/-- Whatever is appended in whatever pieces, the buffer ends up with all of it or with as much as
there is room for. -/
theorem foldlM_appendFmt {cap : Nat} (hcap : 2 ≤ cap) {buf : List UInt8} (hbuf : buf.length = cap)
    (text : List UInt8) (texts : List (List UInt8)) :
    ∃ b, (text :: texts).foldlM (appendFmt cap) ⟨buf, 0⟩ = some b ∧
      b.Filled cap (text ++ texts.flatten) := by
  obtain ⟨u, hu, hfilled⟩ := LineBuffer.appendFmt_filled (b := ⟨buf, 0⟩) [] text hcap hbuf
    (by simp) (by simp) fun h => absurd h (by simp; omega)
  obtain ⟨b, hb, hfilled'⟩ := LineBuffer.Filled.foldlM hcap hfilled texts
  refine ⟨b, ?_, by simpa using hfilled'⟩
  rw [List.foldlM_cons, hu]
  exact hb

end Buffers

end Tcpkit
