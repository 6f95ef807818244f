import Tcpkit.SavefileRecords
import Tcpkit.LinkLayer

/-! Record and replay: a capture written with `-w`, or by another host, replays with `-r` as if its
frames were captured anew, and whatever file is replayed, no access goes wrong. -/

namespace Tcpkit

section Ping

/-- A segment between 10.0.0.1:1000 and 10.0.0.2:6379 on Ethernet. -/
def pingBytes (answer : Bool) (flags : UInt8) (payload : List UInt8) : List UInt8 :=
  [2, 0, 0, 0, 0, 2, 2, 0, 0, 0, 0, 1, 0x08, 0x00] ++
    [0x45, 0, 0, UInt8.ofNat (40 + payload.length), 0, 0, 0, 0, 64, 6, 0, 0] ++
    (if answer then [10, 0, 0, 2, 10, 0, 0, 1, 0x18, 0xeb, 0x03, 0xe8]
      else [10, 0, 0, 1, 10, 0, 0, 2, 0x03, 0xe8, 0x18, 0xeb]) ++
    [0, 0, 0, 7, 0, 0, 0, 9, 0x50, flags, 0x10, 0, 0, 0, 0, 0] ++ payload

def synFrame : CapturedFrame :=
  ⟨⟨⟨1700000000, 0⟩, 54, 54⟩, pingBytes false 0x02 [], rfl, Nat.le_of_ble_eq_true rfl, Allocs.all⟩

def synAckFrame : CapturedFrame :=
  ⟨⟨⟨1700000000, 200⟩, 54, 54⟩, pingBytes true 0x12 [], rfl, Nat.le_of_ble_eq_true rfl, Allocs.all⟩

def ackFrame : CapturedFrame :=
  ⟨⟨⟨1700000000, 300⟩, 54, 54⟩, pingBytes false 0x10 [], rfl, Nat.le_of_ble_eq_true rfl, Allocs.all⟩

/-- `PING`. -/
def requestFrame : CapturedFrame :=
  ⟨⟨⟨1700000000, 1000⟩, 68, 68⟩,
    pingBytes false 0x18 [42, 49, 13, 10, 36, 52, 13, 10, 80, 73, 78, 71, 13, 10], rfl,
    Nat.le_of_ble_eq_true rfl, Allocs.all⟩

/-- `+PONG`. -/
def responseFrame : CapturedFrame :=
  ⟨⟨⟨1700000000, 1500⟩, 61, 61⟩, pingBytes true 0x18 [43, 80, 79, 78, 71, 13, 10], rfl,
    Nat.le_of_ble_eq_true rfl, Allocs.all⟩

/-- A handshake, a request and its response. -/
def pingFrames : List CapturedFrame :=
  [synFrame, synAckFrame, ackFrame, requestFrame, responseFrame]

theorem pingFrames_fit : ∀ f ∈ pingFrames, f.header.caplen.toNat ≤ 256 ∧
    (0 ≤ f.header.ts.tvSec ∧ f.header.ts.tvSec < 2 ^ 31) ∧
    0 ≤ f.header.ts.tvUsec ∧ f.header.ts.tvUsec < 2 ^ 31 := by
  intro f hf
  simp only [pingFrames, List.mem_cons, List.not_mem_nil, or_false] at hf
  rcases hf with rfl | rfl | rfl | rfl | rfl <;> decide

end Ping

section Replays

/-- What `packet_handler` works on, with what was printed and the frames it has handled. -/
structure Replayed where
  sniffer : Sniffer
  events : List Event
  handled : Nat

def replayHandler (layout : TcpLayout) (allocs : Nat → Allocs) (t : Replayed) (header : PcapPkthdr)
    (packet : List UInt8) : Access Replayed :=
  (packetHandler layout (allocs t.handled) t.sniffer header packet).map fun r =>
    ⟨r.1, t.events ++ r.2, t.handled + 1⟩

def Replayed.start (opts : Options) (p : PcapSf) : Replayed :=
  ⟨snifferCreate opts (LinkType.ofDlt p.linktype), [], 0⟩

/-- `sniffer_create` with an offline file, and `sniffer_run`: `some none` where the sniffer is not
created. Of pcapng files, which have a reader of their own, nothing is said. -/
def snifferReplay (layout : TcpLayout) (opts : Options) (answers breaks : Nat → Bool)
    (accepts : PcapPkthdr → List UInt8 → Bool) (allocs : Nat → Allocs) (file : List UInt8) :
    Access (Option (Int × Replayed)) :=
  match pcapFopenOffline answers file with
  | .opened p stream =>
    if opts.saveFile.isSome ∧ pcapDumpOpen p.toPcap = none then some none
    else
      (pcapLoop answers breaks accepts p (replayHandler layout allocs) 2
        ⟨stream, .start opts p, false, 0⟩).map fun r => some (r.1, r.2.user)
  | .failed => some none
  | .otherFormat => none

/-- A file that does not begin as a pcapng file does. -/
def Classic (file : List UInt8) : Prop := le32 file 0 ≠ btShb

instance : DecidablePred Classic := fun file => inferInstanceAs (Decidable (le32 file 0 ≠ btShb))

variable {layout : TcpLayout} {opts : Options} {answers breaks : Nat → Bool}
  {accepts : PcapPkthdr → List UInt8 → Bool} {allocs : Nat → Allocs} {file fp extra : List UInt8}
  {p : PcapSf} {stream : SaveStream} {t : Replayed} {hdr : PcapPkthdr} {data : List UInt8}

theorem packetHandler_isSome {a : Allocs} {s : Sniffer} (hcap : data.length = hdr.caplen.toNat)
    (hmax : data.length < 2 ^ 31) : (packetHandler layout a s hdr data).isSome := by
  have hparse := parseFrame_eq layout s.datalink hcap hmax
  cases hf : frameParsed layout s.datalink hdr data with
  | none =>
    rw [hf] at hparse
    rw [packetHandler_of_skipped hparse]
    rfl
  | some u =>
    rw [hf] at hparse
    rw [packetHandler_of_parseFrame hparse]
    exact processUserPacket_isSome (frameParsed_clipped hf).readable _ _

theorem PcapSf.Handed.handled (h : p.Handed hdr data) (layout : TcpLayout) (allocs : Nat → Allocs)
    (t : Replayed) : (replayHandler layout allocs t hdr data).isSome := by
  have hlimit : maxSnaplenForDlt p.linktype ≤ 134217728 := by
    rw [maxSnaplenForDlt]
    split_ifs <;> omega
  have hmax := h.limit
  rw [replayHandler, Option.isSome_map]
  exact packetHandler_isSome h.captured (by rw [h.captured]; omega)

theorem pcapCheckHeader_opened {magic : UInt32} (h : pcapCheckHeader answers magic fp = .opened p stream) :
    stream.fp = fp.drop 20 ∧ 20 ≤ fp.length ∧ 0 < p.hdrsize ∧ p.Fits stream ∧
      ∀ extra, pcapCheckHeader answers magic (fp ++ extra) =
        .opened p { stream with fp := stream.fp ++ extra } := by
  simp only [pcapCheckHeader] at h ⊢
  generalize (if (!savefileMagic magic) = true then swaplong magic else magic) = host at h ⊢
  split_ifs at h with hmagic hlen hold hunsupported h0 h1
  have hfull : 20 ≤ fp.length := by
    rw [not_not, List.length_take] at hlen
    omega
  cases h
  refine ⟨rfl, hfull, ?_, min_le_left _ _, fun extra => ?_⟩
  · simp only [PcapFileHeader.handle]
    split_ifs <;> decide
  · have htake : (fp ++ extra).take 20 = fp.take 20 := List.take_append_of_le_length hfull
    have hdrop : (fp ++ extra).drop 20 = fp.drop 20 ++ extra := List.drop_append_of_le_length hfull
    rw [if_neg hmagic, htake, if_neg hlen, if_neg hold, if_neg hunsupported, if_neg h0, if_neg h1, hdrop]

theorem pcapFopenOffline_opened_iff : pcapFopenOffline answers file = .opened p stream ↔
    4 ≤ file.length ∧ pcapCheckHeader answers (le32 file 0) (file.drop 4) = .opened p stream := by
  rw [pcapFopenOffline, List.length_take]
  by_cases hlen : 4 ≤ file.length
  · rw [if_neg (by omega)]
    cases hcheck : pcapCheckHeader answers (le32 file 0) (file.drop 4) with
    | opened p' stream' => simp [hlen]
    | failed => simp
    | otherFormat =>
      simp only
      split_ifs <;> simp
  · rw [if_pos (by omega)]
    simp [hlen]

theorem pcapFopenOffline_opened (h : pcapFopenOffline answers file = .opened p stream) :
    0 < p.hdrsize ∧ p.Fits stream ∧ ∀ extra, pcapFopenOffline answers (file ++ extra) =
      .opened p { stream with fp := stream.fp ++ extra } := by
  obtain ⟨hlen, hcheck⟩ := pcapFopenOffline_opened_iff.mp h
  obtain ⟨-, -, hsize, hfits, happend⟩ := pcapCheckHeader_opened hcheck
  refine ⟨hsize, hfits, fun extra => pcapFopenOffline_opened_iff.mpr ⟨?_, ?_⟩⟩
  · rw [List.length_append]
    omega
  · have hdrop : (file ++ extra).drop 4 = file.drop 4 ++ extra := List.drop_append_of_le_length hlen
    have hbyte (i : Nat) (hi : i < 4) : byte (file ++ extra) i = byte file i := by
      rw [byte, byte, List.getD_eq_getElem?_getD, List.getElem?_append_left (by omega),
        List.getD_eq_getElem?_getD]
    have hmagic : le32 (file ++ extra) 0 = le32 file 0 := by
      rw [le32, hbyte 0 (by decide), hbyte 1 (by decide), hbyte 2 (by decide), hbyte 3 (by decide), le32]
    rw [hdrop, hmagic, happend]

theorem Classic.not_otherFormat (h : Classic file) : pcapFopenOffline answers file ≠ .otherFormat := by
  rw [pcapFopenOffline]
  split_ifs with hlen hshb
  · simp
  · exact absurd hshb h
  · cases pcapCheckHeader answers (le32 file 0) (file.drop 4) <;> simp

/-- A sniffer is created, or the file is read as it was opened. -/
theorem Classic.replay_cases (h : Classic file) (layout : TcpLayout) (opts : Options)
    (answers breaks : Nat → Bool)
    (accepts : PcapPkthdr → List UInt8 → Bool) (allocs : Nat → Allocs) :
    snifferReplay layout opts answers breaks accepts allocs file = some none ∨
      ∃ p stream, pcapFopenOffline answers file = .opened p stream ∧
        ¬(opts.saveFile.isSome ∧ pcapDumpOpen p.toPcap = none) := by
  rw [snifferReplay]
  cases hopen : pcapFopenOffline answers file with
  | failed => exact .inl rfl
  | otherFormat => exact absurd hopen h.not_otherFormat
  | opened p stream =>
    by_cases hdump : opts.saveFile.isSome ∧ pcapDumpOpen p.toPcap = none
    · exact .inl (if_pos hdump)
    · exact .inr ⟨p, stream, rfl, hdump⟩

/-- A file that is opened is read to an end, whatever is in it, and the loop ends with it. -/
theorem snifferReplay_opened (layout : TcpLayout) (breaks : Nat → Bool)
    (accepts : PcapPkthdr → List UInt8 → Bool) (allocs : Nat → Allocs)
    (h : pcapFopenOffline answers file = .opened p stream)
    (hdump : ¬(opts.saveFile.isSome ∧ pcapDumpOpen p.toPcap = none)) :
    ∃ packets status k result t, Delivers answers p stream packets status ∧
      (∀ f ∈ packets, p.Handed f.1 f.2) ∧
      snifferReplay layout opts answers breaks accepts allocs file = some (some (result, t)) ∧
      Ended breaks accepts (replayHandler layout allocs) packets status false (.start opts p) k result t ∧
      (status = 0 ∨ status = -1) ∧
      (result = status ∧ k = packets.length ∨ result = -2 ∨ result < 0 ∧ 2 ^ 31 ≤ k) := by
  obtain ⟨hsize, hfits, -⟩ := pcapFopenOffline_opened h
  obtain ⟨packets, status, hd, hhanded, hlen, hstatus⟩ := exists_delivers answers hsize hfits
  obtain ⟨k, result, t, hrun, hended, hhow⟩ := pcapLoop_delivers breaks accepts
    (replayHandler layout allocs) hd hlen hstatus
    (fun f hf user => (hhanded f hf).handled layout allocs user) (t := ⟨stream, .start opts p, false, 0⟩) rfl
  refine ⟨packets, status, k, result, t.user, hd, hhanded, ?_, hended, hstatus, hhow⟩
  rw [snifferReplay, h]
  simp only
  rw [if_neg hdump, hrun, Option.map_some]

theorem snifferReplay_ne_none (layout : TcpLayout) (breaks : Nat → Bool)
    (accepts : PcapPkthdr → List UInt8 → Bool) (allocs : Nat → Allocs)
    (h : pcapFopenOffline answers file = .opened p stream)
    (hdump : ¬(opts.saveFile.isSome ∧ pcapDumpOpen p.toPcap = none)) :
    snifferReplay layout opts answers breaks accepts allocs file ≠ some none := by
  obtain ⟨_, _, _, _, _, -, -, hrun, -⟩ := snifferReplay_opened layout breaks accepts allocs h hdump
  rw [hrun]
  simp

/-- A recording of another host, of which `n` bytes are left. -/
def pingFile (n : Nat) : List UInt8 :=
  (PcapFileHeader.bytesOf true ⟨tcpdumpMagic, 2, 4, 0, 0, 256, 1⟩ ++
    recordsOf true (pingFrames.map fun f => (f.header, f.bytes))).take n

theorem handAll_append {σ : Type} {callback : σ → PcapPkthdr → List UInt8 → Access σ}
    (packets packets' : List SavedPacket) (user : σ) :
    handAll accepts callback (packets ++ packets') user =
      (handAll accepts callback packets user).bind (handAll accepts callback packets') := by
  induction packets generalizing user with
  | nil => rfl
  | cons f packets ih =>
    rw [List.cons_append, handAll, handAll]
    split_ifs
    · cases callback user f.1 f.2 with
      | none => rfl
      | some user => exact ih user
    · exact ih user

end Replays

section Recordings

variable {layout : TcpLayout} {s : Sniffer} {accepts : PcapPkthdr → List UInt8 → Bool}

def CapturedFrame.saved (f : CapturedFrame) : SavedPacket := (f.header, f.bytes)

def CapturedFrame.step (layout : TcpLayout) (t : Sniffer × List Event) (f : CapturedFrame) :
    Sniffer × List Event :=
  ((f.outcome layout t.1).1, t.2 ++ (f.outcome layout t.1).2)

/-- A capture of the frames, from the start. -/
def liveRun (layout : TcpLayout) (opts : Options) (datalink : LinkType) (frames : List CapturedFrame) :
    Sniffer × List Event :=
  frames.foldl (CapturedFrame.step layout) (snifferCreate opts datalink, [])

def allocsOf (frames : List CapturedFrame) (k : Nat) : Allocs := (frames[k]?.map (·.allocs)).getD Allocs.all

theorem dumper_expire (s : Sniffer) (now : Timeval) : (expireStaleRequests s now).dumper = s.dumper := by
  rw [expireStaleRequests]
  split_ifs <;> rfl

theorem dumper_processRequestPacket {a : Allocs} {p : UserPacket} {s' : Sniffer}
    (h : processRequestPacket a s p = some s') : s'.dumper = s.dumper := by
  simp only [processRequestPacket] at h
  split_ifs at h
  · cases h
    rfl
  · cases h
    rfl
  · cases h
    rfl
  · obtain ⟨payload, -, rfl⟩ := Option.map_eq_some_iff.mp h
    cases payload <;> rfl

/-- Handling a packet leaves what was saved alone. -/
theorem dumper_processUserPacket {a : Allocs} {p : UserPacket} {r : Sniffer × List Event}
    (h : processUserPacket a s p = some r) : r.1.dumper = s.dumper := by
  by_cases hidle : s.luaState = true ∨ s.protocol = .raw
  · rw [processUserPacket_idle hidle] at h
    cases h
    rfl
  rw [not_or, Bool.not_eq_true] at hidle
  by_cases h0 : p.payloadSize = 0
  · rw [processUserPacket_empty hidle.1 hidle.2 h0] at h
    cases h
    simp only
    split_ifs
    · exact (Sniffer.TablesOnly.register a _ _).dumper.trans (dumper_expire s p.tv)
    · exact dumper_expire s p.tv
  · rw [processUserPacket_data hidle.1 hidle.2 h0] at h
    have hdir := (Sniffer.TablesOnly.direction (expireStaleRequests s p.tv) p).dumper.trans
      (dumper_expire s p.tv)
    cases hd : (packetDirection (expireStaleRequests s p.tv) p).2 with
    | response =>
      rw [hd] at h
      cases h
      exact (Sniffer.TablesOnly.response _ p).dumper.trans hdir
    | request =>
      rw [hd] at h
      obtain ⟨s', hs', rfl⟩ := Option.map_eq_some_iff.mp h
      exact (dumper_processRequestPacket hs').trans hdir
    | unknown =>
      rw [hd] at h
      cases h
      exact hdir

theorem CapturedFrame.dumper_outcome (f : CapturedFrame) (layout : TcpLayout) (s : Sniffer) :
    (f.outcome layout s).1.dumper = s.dumper.map (· ++ [f.saved]) := by
  cases hread : f.read layout s with
  | none =>
    rw [outcome_of_skipped hread]
    rfl
  | some u => exact dumper_processUserPacket (outcome_of_read hread)

/-- What a capture saves is every frame, as it was captured and in order. -/
theorem dumper_liveRun (layout : TcpLayout) (opts : Options) (datalink : LinkType)
    (frames : List CapturedFrame) :
    (liveRun layout opts datalink frames).1.dumper =
      opts.saveFile.map fun _ => frames.map CapturedFrame.saved := by
  have hfold (frames : List CapturedFrame) (t : Sniffer × List Event) :
      (frames.foldl (CapturedFrame.step layout) t).1.dumper =
        t.1.dumper.map (· ++ frames.map CapturedFrame.saved) := by
    induction frames generalizing t with
    | nil => simp
    | cons f frames ih =>
      rw [List.foldl_cons, ih, CapturedFrame.step, f.dumper_outcome, Option.map_map]
      simp [Function.comp_def]
  rw [liveRun, hfold]
  cases h : opts.saveFile <;> simp [snifferCreate, h]

theorem handAll_frames {frames : List CapturedFrame} {allocs : Nat → Allocs} {k : Nat}
    (haccepts : ∀ f ∈ frames, accepts f.header f.bytes = true)
    (hallocs : ∀ (j : Nat) (h : j < frames.length), allocs (k + j) = (frames.get ⟨j, h⟩).allocs)
    (t : Sniffer × List Event) :
    handAll accepts (replayHandler layout allocs) (frames.map CapturedFrame.saved) ⟨t.1, t.2, k⟩ =
      some ⟨(frames.foldl (CapturedFrame.step layout) t).1, (frames.foldl (CapturedFrame.step layout) t).2,
        k + frames.length⟩ := by
  induction frames generalizing k t with
  | nil => rfl
  | cons f frames ih =>
    have hfirst : allocs k = f.allocs := hallocs 0 (by simp)
    have hhandled : replayHandler layout allocs ⟨t.1, t.2, k⟩ f.header f.bytes =
        some ⟨(f.step layout t).1, (f.step layout t).2, k + 1⟩ := by
      rw [replayHandler, hfirst, ← Option.some_get (f.handle_isSome layout t.1), Option.map_some]
      rfl
    rw [List.map_cons, handAll, CapturedFrame.saved, if_pos (haccepts f List.mem_cons_self), hhandled,
      Option.bind_some, ih (fun g hg => haccepts g (List.mem_cons_of_mem _ hg)), List.foldl_cons,
      List.length_cons, Nat.add_assoc, Nat.add_comm 1]
    intro j hj
    rw [Nat.add_assoc, Nat.add_comm 1]
    exact hallocs (j + 1) (by simpa using hj)

/-- A frame as another host's file gives it out. -/
def CapturedFrame.shown (p : PcapSf) (f : CapturedFrame) : CapturedFrame where
  header := (p.shown f.saved).1
  bytes := (p.shown f.saved).2
  captured := (p.handOut_eq (p.shown f.saved).1 f.captured).2.trans f.captured
  limit := f.limit
  allocs := f.allocs

/-- A file of records replays as a capture of the frames it gives out. -/
theorem snifferReplay_records (layout : TcpLayout) (opts : Options) (frames : List CapturedFrame)
    (accepts : PcapPkthdr → List UInt8 → Bool) {answers : Nat → Bool} (hans : ∀ k, answers k = true)
    {hdr : PcapFileHeader} (swapped : Bool) (hplain : hdr.Plain)
    (hversion : hdr.versionMajor = 2 ∧ hdr.versionMinor = 4)
    (hholds : ∀ f ∈ frames, (hdr.handle swapped).Holds f.saved)
    (haccepts : ∀ f ∈ frames, accepts (f.shown (hdr.handle swapped)).header
      (f.shown (hdr.handle swapped)).bytes = true)
    (hdump : ¬(opts.saveFile.isSome ∧ pcapDumpOpen (hdr.handle swapped).toPcap = none)) :
    snifferReplay layout opts answers (fun _ => false) accepts (allocsOf frames)
        (hdr.bytesOf swapped ++ recordsOf swapped (frames.map CapturedFrame.saved)) =
      some (some (0,
        ⟨(liveRun layout opts (LinkType.ofDlt (hdr.handle swapped).linktype)
            (frames.map (CapturedFrame.shown (hdr.handle swapped)))).1,
          (liveRun layout opts (LinkType.ofDlt (hdr.handle swapped).linktype)
            (frames.map (CapturedFrame.shown (hdr.handle swapped)))).2, frames.length⟩)) := by
  have hopen := pcapFopenOffline_header swapped (hans 0) (hans 1) hplain hversion
    (recordsOf swapped (frames.map CapturedFrame.saved))
  have hsize : (hdr.handle swapped).hdrsize = 16 := by
    rcases hplain with h | h <;> simp only [PcapFileHeader.handle, h] <;> decide
  have horder : (hdr.handle swapped).lengthsSwapped = .notSwapped := by
    simp only [PcapFileHeader.handle, PcapFileHeader.lengthsSwapped, hversion]
    decide
  generalize hp : hdr.handle swapped = p at *
  have hswapped : p.swapped = swapped := by rw [← hp]; rfl
  obtain ⟨packets, status, k, result, t, hd, -, hrun, hended, -, hhow⟩ :=
    snifferReplay_opened layout (fun _ => false) accepts (allocsOf frames) hopen hdump
  have hrecords := delivers_records (b := min (uint32 p.snapshot) 2048) (c := 2) hans hsize horder
    (show ∀ f ∈ frames.map CapturedFrame.saved, p.Holds f by simpa using hholds) (min_le_left _ _)
  rw [hswapped] at hrecords
  obtain ⟨rfl, rfl⟩ := hd.unique hrecords
  obtain ⟨rfl, rfl⟩ := hended.whole (fun _ => rfl) rfl
  have hshown : (frames.map CapturedFrame.saved).map p.shown =
      (frames.map (CapturedFrame.shown p)).map CapturedFrame.saved := by
    rw [List.map_map, List.map_map]
    rfl
  have hall := hended.handled
  rw [List.take_length, hshown, Replayed.start, handAll_frames
    (t := (snifferCreate opts (LinkType.ofDlt p.linktype), [])) (k := 0)] at hall
  · rw [hrun, liveRun, ← Option.some.inj hall, List.length_map, Nat.zero_add]
  · simpa using haccepts
  · intro j hj
    rw [List.length_map] at hj
    simp [allocsOf, hj, CapturedFrame.shown]

def ethernetCapture : Pcap := ⟨0, 256, 1, 0⟩

def savingOptions : Options := { protocol := .redis, saveFile := some (CString.literal "a.pcap") }

/-- The frame with its time in the unit of the sniffer. -/
def CapturedFrame.scaled (scale : TstampScaleType) (f : CapturedFrame) : CapturedFrame :=
  { f with header := { f.header with ts := scaleTime scale f.header.ts } }

/-- No CAN frame behind a cooked header, and no link type with a header of the host's own: USB or NFLOG. -/
structure CapturedFrame.Plain (linktype : Int) (f : CapturedFrame) : Prop where
  can : linktype = dltLinuxSll → be16 f.bytes 14 ≠ 0x000C ∧ be16 f.bytes 14 ≠ 0x000D
  usb : linktype ≠ dltUsbLinux ∧ linktype ≠ dltUsbLinuxMmapped
  nflog : linktype ≠ dltNflog

theorem CapturedFrame.shown_of_plain {q : PcapSf} {f : CapturedFrame} (h : f.Plain q.linktype) :
    f.shown q = f.scaled q.scaleType := by
  have hswap (hdr : PcapPkthdr) : swapPseudoHeaders q.linktype hdr f.bytes = some f.bytes := by
    rw [swapPseudoHeaders, if_neg h.usb.1, if_neg h.usb.2, if_neg h.nflog, swapLinuxSllHeader]
    split_ifs with hsll _ hcan
    · rfl
    · rfl
    · rfl
    · exact absurd (h.can hsll) hcan
    · rfl
  have hbytes : (q.shown f.saved).2 = f.bytes := by
    rw [PcapSf.shown, PcapSf.turned, saved, hswap]
    split_ifs <;> rfl
  obtain ⟨header, bytes, captured, limit, allocs⟩ := f
  simp only [shown, scaled, hbytes]
  rfl

end Recordings

end Tcpkit
