import Tcpkit.Coherence
import Tcpkit.LineReading
import Tcpkit.Replay

/-! What whole runs print: one complete line for each packet or exchange, from which all of them
can be read back. -/

namespace Tcpkit

open MachineInt DecimalText

section Lines

variable {sep : UInt8}

/-- Lines are recovered from the text they make, whatever stands around each of them. -/
theorem lines_inj (before after : List UInt8) {bs cs : List (List UInt8)} (hb : ∀ b ∈ bs, sep ∉ b)
    (hc : ∀ c ∈ cs, sep ∉ c) (h : (bs.flatMap fun b => before ++ (b ++ ([sep] ++ after))) =
      cs.flatMap fun c => before ++ (c ++ ([sep] ++ after))) : bs = cs := by
  induction bs generalizing cs with
  | nil =>
    cases cs with
    | nil => rfl
    | cons c cs => simp at h
  | cons b bs ih =>
    cases cs with
    | nil => simp at h
    | cons c cs =>
      rw [List.forall_mem_cons] at hb hc
      simp only [List.flatMap_cons, List.append_assoc, List.append_cancel_left_eq] at h
      obtain ⟨hbc, hrest⟩ := cut_inj sep rfl hb.1 hc.1 h
      rw [hbc, ih hb.2 hc.2 (List.append_cancel_left hrest)]

theorem count_lines (before after : List UInt8) {bs : List (List UInt8)} (hb : ∀ b ∈ bs, sep ∉ b)
    (hbefore : sep ∉ before) (hafter : sep ∉ after) :
    (bs.flatMap fun b => before ++ (b ++ ([sep] ++ after))).count sep = bs.length := by
  induction bs with
  | nil => rfl
  | cons b bs ih =>
    rw [List.forall_mem_cons] at hb
    rw [List.flatMap_cons, List.count_append, ih hb.2]
    simp [List.count_eq_zero.mpr hbefore, List.count_eq_zero.mpr hb.1, List.count_eq_zero.mpr hafter]
    omega

theorem map_inj_of {α β γ : Type} {f : α → β} {g : α → γ} {as bs : List α}
    (h : ∀ a ∈ as, ∀ b ∈ bs, f a = f b → g a = g b) (hf : as.map f = bs.map f) : as.map g = bs.map g := by
  induction as generalizing bs with
  | nil =>
    cases bs with
    | nil => rfl
    | cons b bs => cases hf
  | cons a as ih =>
    cases bs with
    | nil => cases hf
    | cons b bs =>
      obtain ⟨hab, hrest⟩ := List.cons.inj hf
      rw [List.map_cons, List.map_cons, h a List.mem_cons_self b List.mem_cons_self hab,
        ih (fun a ha b hb => h a (List.mem_cons_of_mem _ ha) b (List.mem_cons_of_mem _ hb)) hrest]

end Lines

section Events

inductive EventShown where
  | exchange (shown : ExchangeShown)
  | packet (shown : PacketShown)
  deriving DecidableEq

def Event.shownBy (clock : Clock) : Event → Option EventShown
  | .sample _ _ => none
  | .exchange tv client server delta payload =>
    some (.exchange ⟨clock.dateTime tv.tvSec, int32 tv.tvUsec, client, server, delta, payload⟩)
  | .userPacket p => some (.packet (p.shownBy clock))
  | .script _ => none

/-- The line of an event, without its end. -/
def Event.line (clock : Clock) : Event → List UInt8
  | .sample _ _ => []
  | .exchange tv client server delta payload => exchangeText clock tv client server delta payload
  | .userPacket p => packetText clock p
  | .script _ => []

/-- The events of raw mode, and those of the other protocols without a script. -/
def Event.Fits (raw : Bool) : Event → Prop
  | .sample _ _ => raw = false
  | .exchange _ _ _ delta payload =>
    raw = false ∧ delta.natAbs < 2 ^ 43 * 1000 ∧ payload.length ≤ 127 ∧ Visible payload
  | .userPacket p =>
    raw = true ∧ p.wirePayloadSize.natAbs < 2 ^ 31 ∧ p.payloadSize.toNat ≤ p.payload.length
  | .script _ => False

/-- `stack k` is what the stack holds when event `k` is printed. -/
def printEvents (clock : Clock) (terminal ascii : Bool) (stack : Nat → Vector UInt8 4096) :
    Nat → List Event → Access (List UInt8)
  | _, [] => some []
  | k, e :: es => do
    let text ← e.print clock terminal ascii (stack k).toList
    let rest ← printEvents clock terminal ascii stack (k + 1) es
    return text ++ rest

variable {clock : Clock} {raw : Bool} {e e' : Event}

theorem Event.Fits.visible_line (clock : Clock) (h : e.Fits raw) : Visible (e.line clock) := by
  cases e with
  | sample target latency => exact List.forall_mem_nil _
  | exchange tv client server delta payload => exact visible_exchangeText h.2.2.2
  | userPacket p => exact visible_packetText clock p
  | script p => exact List.forall_mem_nil _

theorem Event.Fits.shown_of_line (h : e.Fits raw) (h' : e'.Fits raw)
    (hshown : (e.shownBy clock).isSome) (hshown' : (e'.shownBy clock).isSome)
    (hline : e.line clock = e'.line clock) : e.shownBy clock = e'.shownBy clock := by
  cases e with
  | sample target latency => cases hshown
  | script p => cases hshown
  | exchange tv client server delta payload =>
    cases e' with
    | sample target latency => cases hshown'
    | script p => cases hshown'
    | userPacket p => exact absurd (h.1.symm.trans h'.1) (by decide)
    | exchange tv' client' server' delta' payload' =>
      exact congrArg (fun s => some (EventShown.exchange s)) (exchangeText_inj hline)
  | userPacket p =>
    cases e' with
    | sample target latency => cases hshown'
    | script p => cases hshown'
    | exchange tv' client' server' delta' payload' => exact absurd (h.1.symm.trans h'.1) (by decide)
    | userPacket p' => exact congrArg (fun s => some (EventShown.packet s)) (packetText_inj hline)

def lineBefore (raw terminal : Bool) : List UInt8 := if !raw && terminal then green else []

def lineAfter (raw terminal : Bool) : List UInt8 := if !raw && terminal then noColor else []

theorem Event.Fits.print (h : e.Fits raw) (clock : Clock) (terminal ascii : Bool)
    {buf : List UInt8} (hbuf : buf.length = 4096) :
    ∃ text, e.print clock terminal ascii buf = some text ∧ (ascii = false ∨ raw = false →
      text = if (e.shownBy clock).isSome then
        lineBefore raw terminal ++ (e.line clock ++ ([0x0a] ++ lineAfter raw terminal)) else []) := by
  cases e with
  | sample target latency => exact ⟨[], rfl, fun _ => rfl⟩
  | script p => cases h
  | exchange tv client server delta payload =>
    obtain ⟨rfl, hdelta, hshort, hvisible⟩ := h
    refine ⟨_, colorPrintf_eq terminal (by simp [hbuf]) hdelta hshort hvisible, fun _ => ?_⟩
    cases terminal <;> rfl
  | userPacket p =>
    obtain ⟨rfl, hlength, hread⟩ := h
    refine ⟨_, printUserPacket_eq clock ascii (by simp [hbuf]) hlength hread, fun hascii => ?_⟩
    rw [hascii.resolve_right (by decide)]
    cases terminal <;> rfl

/-- Printing never leaves a buffer, and prints the lines of the events one after the other. -/
theorem printEvents_eq (clock : Clock) (terminal ascii : Bool) (stack : Nat → Vector UInt8 4096) (k : Nat)
    {events : List Event} (h : ∀ e ∈ events, e.Fits raw) :
    ∃ out, printEvents clock terminal ascii stack k events = some out ∧ (ascii = false ∨ raw = false →
      out = ((events.filter fun e => (e.shownBy clock).isSome).map (Event.line clock)).flatMap fun b =>
        lineBefore raw terminal ++ (b ++ ([0x0a] ++ lineAfter raw terminal))) := by
  induction events generalizing k with
  | nil => exact ⟨[], rfl, fun _ => rfl⟩
  | cons e events ih =>
    rw [List.forall_mem_cons] at h
    obtain ⟨text, hprint, htext⟩ := h.1.print clock terminal ascii (stack k).length_toList
    obtain ⟨rest, hrest, htail⟩ := ih (k + 1) h.2
    refine ⟨text ++ rest, by simp [printEvents, hprint, hrest], fun hascii => ?_⟩
    rw [htext hascii, htail hascii]
    split_ifs with hshown
    · simp [hshown]
    · simp [hshown]

/-- Two runs that print the same text print the same things. -/
theorem shown_of_lines {events events' : List Event} (h : ∀ e ∈ events, e.Fits raw)
    (h' : ∀ e ∈ events', e.Fits raw)
    (hlines : (events.filter fun e => (e.shownBy clock).isSome).map (Event.line clock) =
      (events'.filter fun e => (e.shownBy clock).isSome).map (Event.line clock)) :
    events.filterMap (Event.shownBy clock) = events'.filterMap (Event.shownBy clock) := by
  have hshown : (events.filter fun e => (e.shownBy clock).isSome).map (Event.shownBy clock) =
      (events'.filter fun e => (e.shownBy clock).isSome).map (Event.shownBy clock) := by
    refine map_inj_of (fun a ha b hb => ?_) hlines
    rw [List.mem_filter] at ha hb
    exact (h a ha.1).shown_of_line (h' b hb.1) ha.2 hb.2
  have hsome (events : List Event) : (events.filter fun e => (e.shownBy clock).isSome).map
      (Event.shownBy clock) =
      (events.filterMap (Event.shownBy clock)).map some := by
    rw [List.map_filterMap_some_eq_filter_map_isSome, List.filter_map]
    rfl
  rw [hsome, hsome] at hshown
  exact List.map_injective_iff.mpr (Option.some_injective _) hshown

end Events

/-- Times as savefiles hold them, and wider than those of a capture. -/
def Timeval.Near (tv : Timeval) : Prop := tv.tvSec.natAbs ≤ 2 ^ 32 ∧ tv.tvUsec.natAbs ≤ 2 ^ 32

theorem Timeval.Near.delta {tv tv' : Timeval} (h : tv.Near) (h' : tv'.Near) :
    (tvDeltaUs tv tv').natAbs < 2 ^ 43 * 1000 := by
  obtain ⟨hsec, husec⟩ := h
  obtain ⟨hsec', husec'⟩ := h'
  rw [tvDeltaUs]
  omega

namespace Sniffer

variable {s : Sniffer}

/-- What holds of each request when it is stored holds of all that wait. -/
theorem Monitoring.requests_all (h : s.Monitoring) {P : Request → Prop}
    (hs : ∀ key req, s.requests.get key = some req → P req) (p : Packet) (hp : P (p.request s.protocol)) :
    ∀ key req, (s.process p).1.requests.get key = some req → P req := by
  intro key req hget
  rcases h.requests_process p with heq | heq | ⟨-, heq⟩
  · rw [heq] at hget
    exact hs key req (get_of_get_expire hget)
  · rw [heq, Table.get_add] at hget
    split_ifs at hget
    · cases hold : (expireStaleRequests s p.tv).requests.get (pairKey p.src p.dst) with
      | none =>
        rw [hold, Option.getD_none, Option.some_inj] at hget
        exact hget ▸ hp
      | some old =>
        rw [hold, Option.getD_some, Option.some_inj] at hget
        exact hget ▸ hs _ old (get_of_get_expire hold)
    · exact hs key req (get_of_get_expire hget)
  · rw [heq, Table.get_del] at hget
    split_ifs at hget
    exact hs key req (get_of_get_expire hget)

def PrintedRequests (s : Sniffer) : Prop := ∀ key req, s.requests.get key = some req →
    req.Printed ∧ req.tv.Near

theorem PrintedRequests.response (hs : s.PrintedRequests) {p : UserPacket} (hp : p.tv.Near) :
    ∀ e ∈ (processResponsePacket s p).2, e.Fits false := by
  rw [processResponsePacket]
  cases hget : s.requests.get (pairKey p.dst p.src) with
  | none => exact List.forall_mem_nil _
  | some req =>
    obtain ⟨hprinted, hnear⟩ := hs _ _ hget
    have hsample : ∀ e ∈ (observeResponse s p.src (tvDeltaUs p.tv req.tv)).2, e.Fits false := by
      rw [observeResponse]
      split_ifs
      · exact List.forall_mem_singleton.mpr rfl
      · exact List.forall_mem_nil _
    have hexchange : ∀ e ∈ (finishResponse (observeResponse s p.src (tvDeltaUs p.tv req.tv)).1 p req).2,
        e.Fits false := by
      simp only [finishResponse]
      split_ifs
      · exact List.forall_mem_nil _
      · exact List.forall_mem_singleton.mpr
          ⟨rfl, hp.delta hnear, hprinted.short, fun b hb => (hprinted.printable b hb).1⟩
    exact List.forall_mem_append.mpr ⟨hsample, hexchange⟩

theorem Monitoring.events_fit (h : s.Monitoring) (hs : s.PrintedRequests) (p : Packet) (hp : p.tv.Near) :
    ∀ e ∈ (s.process p).2, e.Fits false := by
  rcases h.process_cases p with ⟨-, -, hproc⟩ | ⟨-, -, hproc⟩ | ⟨-, -, hproc⟩ |
    ⟨-, -, s', -, hproc⟩ | ⟨-, -, hproc⟩
  · rw [hproc]
    exact List.forall_mem_nil _
  · rw [hproc]
    exact List.forall_mem_nil _
  · rw [hproc]
    refine PrintedRequests.response (fun key req hget => ?_) hp
    rw [requests_direction] at hget
    exact hs key req (get_of_get_expire hget)
  · rw [hproc]
    exact List.forall_mem_nil _
  · rw [hproc]
    exact List.forall_mem_nil _

end Sniffer

/-- A capture without a script, in raw mode or not. -/
structure PrintedRun (raw : Bool) where
  layout : TcpLayout
  opts : Options
  datalink : LinkType
  frames : List CapturedFrame
  noScript : opts.script = none
  mode : opts.protocol = .raw ↔ raw = true
  near : ∀ f ∈ frames, f.header.ts.Near

namespace PrintedRun

variable {raw : Bool}

def events (r : PrintedRun raw) : List Event := (liveRun r.layout r.opts r.datalink r.frames).2

theorem fits_read {layout : TcpLayout} {s : Sniffer} {f : CapturedFrame} {u : UserPacket}
    (h : f.read layout s = some u) : (Event.userPacket u).Fits true := by
  have hclip := frameParsed_clipped h
  have hnonneg := hclip.wire_nonneg
  have hreadable := hclip.readable
  refine ⟨rfl, ?_, by omega⟩
  have hword (n : UInt16) : n.toNat < 2 ^ 16 := n.toNat_lt
  have hle : u.wirePayloadSize < 2 ^ 31 := by
    obtain ⟨n, -, ⟨-, -, rfl⟩ | ⟨-, -, rfl⟩⟩ := frameParsed_cases h
    · have htotal := hword (be16 (f.bytes.drop n) 2)
      have hip := ipHeader_range (f.bytes.drop n)
      have htcp : 0 ≤ tcpHeader (f.bytes.drop n) := by
        rw [tcpHeader, tcphdrSize]
        omega
      change ((be16 (f.bytes.drop n) 2).toNat : Int) - _ - tcpHeader (f.bytes.drop n) < _
      omega
    · have htotal := hword (be16 (transport (f.bytes.drop n)) 4)
      change udpLength (f.bytes.drop n) - 8 < _
      rw [udpLength]
      omega
  omega

theorem fits_raw (layout : TcpLayout) {s : Sniffer} (hscript : s.luaState = false) (hraw : s.protocol = .raw)
    (f : CapturedFrame) : (f.outcome layout s).1.luaState = false ∧ (f.outcome layout s).1.protocol = .raw ∧
      ∀ e ∈ (f.outcome layout s).2, e.Fits true := by
  cases hread : f.read layout s with
  | none =>
    rw [f.outcome_of_skipped hread]
    exact ⟨hscript, hraw, List.forall_mem_nil _⟩
  | some u =>
    have hrun := f.outcome_of_read hread
    have hdump : (dumperWrite s f.header f.bytes).luaState = false := hscript
    rw [processUserPacket_idle (Or.inr (show (dumperWrite s f.header f.bytes).protocol = .raw from hraw)),
      if_neg (Bool.eq_false_iff.mp hdump)] at hrun
    rw [← Option.some.inj hrun]
    exact ⟨hscript, hraw, List.forall_mem_singleton.mpr (fits_read hread)⟩

theorem fits_monitoring (layout : TcpLayout) {s : Sniffer} (h : s.Monitoring) (hs : s.PrintedRequests)
    (f : CapturedFrame) (hnear : f.header.ts.Near) : (f.outcome layout s).1.Monitoring ∧
      (f.outcome layout s).1.PrintedRequests ∧ ∀ e ∈ (f.outcome layout s).2, e.Fits false := by
  have hdump : (dumperWrite s f.header f.bytes).Monitoring :=
    ⟨h.noScript, h.notRaw, h.synKeys, h.requestKeys, h.atMost⟩
  cases hread : f.read layout s with
  | none =>
    rw [f.outcome_of_skipped hread]
    exact ⟨hdump, hs, List.forall_mem_nil _⟩
  | some u =>
    have hclip := frameParsed_clipped hread
    let p : Packet := ⟨u, hclip.nonneg, hclip.readable, f.allocs⟩
    have hrun := f.outcome_of_read hread
    have hproc := Sniffer.processUserPacket_eq_process (dumperWrite s f.header f.bytes) p
    have houtcome : f.outcome layout s = (dumperWrite s f.header f.bytes).process p :=
      Option.some.inj (hrun.symm.trans hproc)
    have htv : p.tv.Near := by
      change u.tv.Near
      rwa [f.read_tv hread]
    rw [houtcome]
    refine ⟨(hdump.process_refines p).1, ?_, hdump.events_fit hs p htv⟩
    exact hdump.requests_all hs p ⟨p.request_printed _, htv⟩

theorem fits (r : PrintedRun raw) : ∀ e ∈ r.events, e.Fits raw := by
  cases raw with
  | true =>
    have hrun (frames : List CapturedFrame) (t : Sniffer × List Event)
        (ht : t.1.luaState = false ∧ t.1.protocol = .raw ∧ ∀ e ∈ t.2, e.Fits true) :
        ∀ e ∈ (frames.foldl (CapturedFrame.step r.layout) t).2, e.Fits true := by
      induction frames generalizing t with
      | nil => exact ht.2.2
      | cons f frames ih =>
        obtain ⟨hscript, hraw, hfits⟩ := fits_raw r.layout ht.1 ht.2.1 f
        exact ih _ ⟨hscript, hraw, List.forall_mem_append.mpr ⟨ht.2.2, hfits⟩⟩
    refine hrun r.frames _ ⟨?_, r.mode.mpr rfl, List.forall_mem_nil _⟩
    simp [snifferCreate, r.noScript]
  | false =>
    have hrun (frames : List CapturedFrame) (hnear : ∀ f ∈ frames, f.header.ts.Near)
        (t : Sniffer × List Event)
        (ht : t.1.Monitoring ∧ t.1.PrintedRequests ∧ ∀ e ∈ t.2, e.Fits false) :
        ∀ e ∈ (frames.foldl (CapturedFrame.step r.layout) t).2, e.Fits false := by
      induction frames generalizing t with
      | nil => exact ht.2.2
      | cons f frames ih =>
        rw [List.forall_mem_cons] at hnear
        obtain ⟨hmonitoring, hprinted, hfits⟩ := fits_monitoring r.layout ht.1 ht.2.1 f hnear.1
        exact ih hnear.2 _ ⟨hmonitoring, hprinted, List.forall_mem_append.mpr ⟨ht.2.2, hfits⟩⟩
    have hmode : r.opts.protocol ≠ .raw := fun h => Bool.false_ne_true (r.mode.mp h)
    refine hrun r.frames r.near _ ⟨Sniffer.Monitoring.create r.noScript hmode r.datalink, ?_,
      List.forall_mem_nil _⟩
    intro key req hget
    rw [← Table.lookup_toMap] at hget
    simp [snifferCreate, Table.toMap_create] at hget

end PrintedRun

/-- Whatever is captured, in raw mode and with any of the protocols, printing never leaves a buffer,
and without `-A` the output is one complete line for each packet or printed exchange. Two
captures whose outputs are the same printed the same things in the same order: times as the clock
shows them, addresses and ports, in raw mode the fields of the segment that are shown and the
length, otherwise the latency to the microsecond and the summary of the request. -/
theorem printed_runs_read_back (raw terminal : Bool) (clock : Clock) (r r' : PrintedRun raw)
    (stack stack' : Nat → Vector UInt8 4096) :
    (∀ ascii, (printEvents clock terminal ascii stack 0 r.events).isSome) ∧
    ∃ out out', printEvents clock terminal false stack 0 r.events = some out ∧
      printEvents clock terminal false stack' 0 r'.events = some out' ∧
      out.count 0x0a = (r.events.filterMap (Event.shownBy clock)).length ∧
      (out = out' → r.events.filterMap (Event.shownBy clock) =
        r'.events.filterMap (Event.shownBy clock)) := by
  have hvisible (events : List Event) (h : ∀ e ∈ events, e.Fits raw) :
      ∀ b ∈ (events.filter fun e => (e.shownBy clock).isSome).map (Event.line clock), (0x0a : UInt8) ∉ b := by
    intro b hb
    obtain ⟨e, he, rfl⟩ := List.mem_map.mp hb
    exact ((h e (List.mem_filter.mp he).1).visible_line clock).notMem (by decide)
  obtain ⟨out, hout, htext⟩ := printEvents_eq clock terminal false stack 0 r.fits
  obtain ⟨out', hout', htext'⟩ := printEvents_eq clock terminal false stack' 0 r'.fits
  refine ⟨fun ascii => ?_, out, out', hout, hout', ?_, fun h => ?_⟩
  · obtain ⟨text, hprint, -⟩ := printEvents_eq clock terminal ascii stack 0 r.fits
    rw [hprint]
    rfl
  · rw [htext (Or.inl rfl), count_lines _ _ (hvisible _ r.fits), List.length_map]
    · rw [List.length_filterMap_eq_countP, List.countP_eq_length_filter]
    · cases raw <;> cases terminal <;> decide
    · cases raw <;> cases terminal <;> decide
  · refine shown_of_lines r.fits r'.fits (lines_inj (lineBefore raw terminal) (lineAfter raw terminal)
      (hvisible _ r.fits) (hvisible _ r'.fits) ?_)
    rw [← htext (Or.inl rfl), ← htext' (Or.inl rfl), h]

theorem pingFrames_near : ∀ f ∈ pingFrames, f.header.ts.Near := by
  intro f hf
  obtain ⟨-, hsec, husec⟩ := pingFrames_fit f hf
  rw [Timeval.Near]
  omega

def rawPing : PrintedRun true where
  layout := .linux
  opts := { protocol := .raw }
  datalink := .en10mb
  frames := pingFrames
  noScript := rfl
  mode := iff_of_true rfl rfl
  near := pingFrames_near

def redisPing : PrintedRun false where
  layout := .linux
  opts := redisOptions
  datalink := .en10mb
  frames := pingFrames
  noScript := rfl
  mode := iff_of_false redisOptions_notRaw Bool.false_ne_true
  near := pingFrames_near

/-- Five packets in raw mode, and one exchange of the Redis protocol. -/
theorem printed_runs_read_back_ping :
    (∃ out, printEvents utcClock true false (fun _ => Vector.replicate 4096 0) 0 rawPing.events = some out ∧
      out.count 0x0a = 5) ∧
    ∃ out, printEvents utcClock true false (fun _ => Vector.replicate 4096 0) 0 redisPing.events = some out ∧
      out.count 0x0a = 1 := by
  have hraw : (rawPing.events.filterMap (Event.shownBy utcClock)).length = 5 := by decide +kernel
  have hredis : (redisPing.events.filterMap (Event.shownBy utcClock)).length = 1 := by decide +kernel
  obtain ⟨-, out, -, hout, -, hcount, -⟩ := printed_runs_read_back true true utcClock rawPing rawPing
    (fun _ => Vector.replicate 4096 0) (fun _ => Vector.replicate 4096 0)
  obtain ⟨-, out', -, hout', -, hcount', -⟩ := printed_runs_read_back false true utcClock redisPing redisPing
    (fun _ => Vector.replicate 4096 0) (fun _ => Vector.replicate 4096 0)
  exact ⟨⟨out, hout, hcount.trans hraw⟩, out', hout', hcount'.trans hredis⟩

end Tcpkit
