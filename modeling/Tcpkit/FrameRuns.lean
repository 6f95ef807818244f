import Tcpkit.Refinement

/-! Whole frames in statistics mode: what `packet_handler` does to the monitor, and
runs over the frames that libpcap delivers. -/

namespace Tcpkit

open MachineInt

namespace Sniffer

/-- Handling a frame in statistics mode is one step of the monitor if the frame is accepted,
and no step if it is skipped. -/
theorem Monitoring.packetHandler_refines {s : Sniffer} (hs : s.Monitoring) (layout : TcpLayout)
    (a : Allocs) {header : PcapPkthdr} {packet : List UInt8}
    (hcap : packet.length = header.caplen.toNat) (hmax : packet.length < 2 ^ 31) :
    ∃ s', (packetHandler layout a s header packet).map Prod.fst = some s' ∧ s'.Monitoring ∧
      s'.datalink = s.datalink ∧
      s'.toMonitor = (((frameParsed layout s.datalink header packet).map fun u => u.arrival a).map
        s.toMonitor.next).getD s.toMonitor := by
  have hparse := parseFrame_eq layout s.datalink hcap hmax
  have hdump : (dumperWrite s header packet).Monitoring :=
    ⟨hs.noScript, hs.notRaw, hs.synKeys, hs.requestKeys, hs.atMost⟩
  cases hf : frameParsed layout s.datalink header packet with
  | none =>
    rw [hf] at hparse
    refine ⟨dumperWrite s header packet, ?_, hdump, rfl, rfl⟩
    rw [packetHandler_of_skipped hparse]
    rfl
  | some u =>
    rw [hf] at hparse
    have hclip := frameParsed_clipped hf
    let p : Packet := ⟨u, hclip.nonneg, hclip.readable, a⟩
    refine ⟨((dumperWrite s header packet).process p).1, ?_,
      (hdump.process_refines p).1, (hdump.process_tablesOnly p).datalink.trans (datalink_expire _ _), ?_⟩
    · rw [packetHandler_of_parseFrame hparse, ← Option.map_some,
        ← Sniffer.processUserPacket_eq_process]
    · exact congrArg Prod.fst (hdump.process_refines p).2

end Sniffer

/-- A frame as libpcap delivers it, with the allocations that succeed while it is handled. -/
structure CapturedFrame where
  header : PcapPkthdr
  bytes : List UInt8
  captured : bytes.length = header.caplen.toNat
  limit : header.caplen.toNat ≤ 262144
  allocs : Allocs

namespace CapturedFrame

theorem handle_isSome (layout : TcpLayout) (s : Sniffer) (f : CapturedFrame) :
    (packetHandler layout f.allocs s f.header f.bytes).isSome := by
  have hlimit := f.limit
  have hparse := parseFrame_eq layout s.datalink f.captured (by rw [f.captured]; omega)
  cases hf : frameParsed layout s.datalink f.header f.bytes with
  | none =>
    rw [hf] at hparse
    rw [packetHandler_of_skipped hparse]
    rfl
  | some u =>
    rw [hf] at hparse
    rw [packetHandler_of_parseFrame hparse]
    exact processUserPacket_isSome (frameParsed_clipped hf).readable _ _

def handle (layout : TcpLayout) (s : Sniffer) (f : CapturedFrame) : Sniffer :=
  ((packetHandler layout f.allocs s f.header f.bytes).get (handle_isSome layout s f)).1

theorem handle_refines {s : Sniffer} (hs : s.Monitoring) (layout : TcpLayout) (f : CapturedFrame) :
    (f.handle layout s).Monitoring ∧ (f.handle layout s).datalink = s.datalink ∧
      (f.handle layout s).toMonitor =
        (((frameParsed layout s.datalink f.header f.bytes).map fun u => u.arrival f.allocs).map
          s.toMonitor.next).getD s.toMonitor := by
  have hlimit := f.limit
  obtain ⟨s', hs', hmon⟩ := hs.packetHandler_refines layout f.allocs f.captured
    (by rw [f.captured]; omega)
  have heq : f.handle layout s = s' := by
    obtain ⟨result, hresult, rfl⟩ := Option.map_eq_some_iff.mp hs'
    simp only [handle, hresult, Option.get_some]
  rw [heq]
  exact hmon

end CapturedFrame

/-- A run in statistics mode over frames with any header libpcap may deliver. -/
structure FrameCapture where
  layout : TcpLayout
  opts : Options
  datalink : LinkType
  frames : List CapturedFrame
  noScript : opts.script = none
  notRaw : opts.protocol ≠ .raw

namespace FrameCapture

variable (r : FrameCapture)

def trace : Trace (CapturedFrame.handle r.layout) :=
  Trace.ofList _ (snifferCreate r.opts r.datalink) r.frames

def before (n : Nat) : Sniffer := r.trace.state n

def frame (j : Fin r.frames.length) : CapturedFrame := r.frames.get j

def parsed (j : Fin r.frames.length) : Access (Option UserPacket) :=
  parseFrame r.layout r.datalink (r.frame j).header (r.frame j).bytes

theorem monitoring {n : Nat} (hn : n ≤ r.frames.length) :
    (r.before n).Monitoring ∧ (r.before n).datalink = r.datalink :=
  r.trace.invariant (I := fun _ s => s.Monitoring ∧ s.datalink = r.datalink)
    ⟨Sniffer.Monitoring.create r.noScript r.notRaw r.datalink, rfl⟩
    (fun k h => by
      obtain ⟨hm, hd, -⟩ := CapturedFrame.handle_refines h.1 r.layout (r.trace.input k)
      exact ⟨hm, hd.trans h.2⟩) n hn

theorem before_succ (j : Fin r.frames.length) :
    r.before (j + 1) = (r.frame j).handle r.layout (r.before j) := r.trace.next j

theorem parsed_eq (j : Fin r.frames.length) :
    r.parsed j = some (frameParsed r.layout r.datalink (r.frame j).header (r.frame j).bytes) := by
  have hlimit := (r.frame j).limit
  exact parseFrame_eq _ _ (r.frame j).captured (by rw [(r.frame j).captured]; omega)

theorem toMonitor_succ (j : Fin r.frames.length) :
    (r.parsed j = some none ∧ (r.before (j + 1)).toMonitor = (r.before j).toMonitor) ∨
    ∃ u, r.parsed j = some (some u) ∧ (r.before (j + 1)).toMonitor =
      (r.before j).toMonitor.next (u.arrival (r.frame j).allocs) := by
  obtain ⟨hmon, hdatalink⟩ := r.monitoring (Nat.le_of_lt j.isLt)
  obtain ⟨-, -, hnext⟩ := CapturedFrame.handle_refines hmon r.layout (r.frame j)
  rw [r.parsed_eq, r.before_succ, hnext, hdatalink]
  cases frameParsed r.layout r.datalink (r.frame j).header (r.frame j).bytes with
  | none => exact Or.inl ⟨rfl, rfl⟩
  | some u => exact Or.inr ⟨u, rfl, rfl⟩

end FrameCapture

end Tcpkit
