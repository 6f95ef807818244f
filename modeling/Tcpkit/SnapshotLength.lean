import Tcpkit.FrameRuns
import Tcpkit.WireFormat

/-! What a shorter snapshot changes. Cutting a frame behind its transport header
keeps every field of the packet but the captured payload, and the statistics
look at the payload only to tell whether there is any. -/

namespace Tcpkit

open MachineInt

section

variable {p : List UInt8} {i k : Nat}

theorem byte_take (h : i < k) : byte (p.take k) i = byte p i := by
  simp [byte, List.getElem?_take_of_lt h]

theorem be16_take (h : i + 1 < k) : be16 (p.take k) i = be16 p i := by
  rw [be16, byte_take (by omega), byte_take h, be16]

theorem be32_take (h : i + 3 < k) : be32 (p.take k) i = be32 p i := by
  rw [be32, byte_take (by omega), byte_take (by omega), byte_take (by omega), byte_take h, be32]

theorem le32_take (h : i + 3 < k) : le32 (p.take k) i = le32 p i := by
  rw [le32, byte_take (by omega), byte_take (by omega), byte_take (by omega), byte_take h, le32]

end

section

variable {ip : List UInt8} {k : Nat} {wirelen : Int}

theorem ipHeader_take (h : 0 < k) : ipHeader (ip.take k) = ipHeader ip := by
  rw [ipHeader, byte_take h, ipHeader]

theorem transport_take (h : 0 < k) :
    transport (ip.take k) = (transport ip).take (k - (ipHeader ip).toNat) := by
  rw [transport, ipHeader_take h, transport, List.drop_take]

theorem tcpHeader_take (h : ipHeader ip + 20 ≤ k) : tcpHeader (ip.take k) = tcpHeader ip := by
  have hr := ipHeader_range ip
  rw [tcpHeader, transport_take (by omega), byte_take (by omega), tcpHeader]

theorem udpLength_take (h : ipHeader ip + 8 ≤ k) : udpLength (ip.take k) = udpLength ip := by
  have hr := ipHeader_range ip
  rw [udpLength, transport_take (by omega), be16_take (by omega), udpLength]

theorem tcpAccepted_take (h20 : 20 ≤ k) :
    TcpAccepted (ip.take k) (ip.take k).length wirelen ↔
      TcpAccepted ip ip.length wirelen ∧ ipHeader ip + tcpHeader ip ≤ (ip.take k).length := by
  have hlen : (ip.take k).length = min k ip.length := List.length_take
  rw [TcpAccepted, TcpAccepted, ipHeader_take (by omega), be16_take (by omega), hlen]
  by_cases hk : ipHeader ip + 20 ≤ k
  · rw [tcpHeader_take hk]
    omega
  · constructor
    · intro hh
      rcases hh with ⟨-, h, -⟩
      omega
    · intro hh
      rcases hh with ⟨⟨-, -, h, -⟩, h'⟩
      omega

theorem udpAccepted_take (h20 : 20 ≤ k) :
    UdpAccepted (ip.take k) (ip.take k).length wirelen ↔
      UdpAccepted ip ip.length wirelen ∧ ipHeader ip + 8 ≤ (ip.take k).length := by
  have hlen : (ip.take k).length = min k ip.length := List.length_take
  rw [UdpAccepted, UdpAccepted, ipHeader_take (by omega), hlen]
  by_cases hk : ipHeader ip + 8 ≤ k
  · rw [udpLength_take hk]
    omega
  · constructor
    · intro hh
      rcases hh with ⟨-, h, -⟩
      omega
    · intro hh
      rcases hh with ⟨-, h⟩
      omega

end

def UserPacket.clip (u : UserPacket) (payload : List UInt8) (captured : Int) : UserPacket :=
  { u with payload := payload, payloadSize := min u.wirePayloadSize captured }

section

variable {ip : List UInt8} {k : Nat} {wirelen : Int} {layout : TcpLayout} {tv : Timeval}
  {packet : UserPacket}

theorem tcpParsed_take (h20 : 20 ≤ k) (hacc : TcpAccepted ip ip.length wirelen)
    (h : ipHeader ip + tcpHeader ip ≤ (ip.take k).length) :
    tcpParsed layout tv (ip.take k) (ip.take k).length packet =
      (tcpParsed layout tv ip ip.length packet).clip
        ((ip.take k).drop ((ipHeader ip).toNat + (tcpHeader ip).toNat))
        ((ip.take k).length - ipHeader ip - tcpHeader ip) := by
  have hlen : (ip.take k).length = min k ip.length := List.length_take
  have hr := ipHeader_range ip
  obtain ⟨-, -, h3, -⟩ := hacc
  have hk : ipHeader ip + 20 ≤ k := by omega
  have htrans : transport (ip.take k) = (transport ip).take (k - (ipHeader ip).toNat) :=
    transport_take (by omega)
  have hpayload : (transport (ip.take k)).drop (tcpHeader ip).toNat =
      (ip.take k).drop ((ipHeader ip).toNat + (tcpHeader ip).toNat) := by
    rw [transport, ipHeader_take (by omega), List.drop_drop]
  simp only [tcpParsed, UserPacket.clip, tcpHeader_take hk, hpayload]
  simp (disch := omega) only [ipHeader_take, htrans, byte_take, be16_take, be32_take, le32_take]

theorem udpParsed_take (h20 : 20 ≤ k) (h : ipHeader ip + 8 ≤ (ip.take k).length) :
    udpParsed tv (ip.take k) (ip.take k).length packet =
      (udpParsed tv ip ip.length packet).clip ((ip.take k).drop ((ipHeader ip).toNat + 8))
        ((ip.take k).length - ipHeader ip - 8) := by
  have hlen : (ip.take k).length = min k ip.length := List.length_take
  have hr := ipHeader_range ip
  have hk : ipHeader ip + 8 ≤ k := by omega
  have htrans : transport (ip.take k) = (transport ip).take (k - (ipHeader ip).toNat) :=
    transport_take (by omega)
  have hpayload : (transport (ip.take k)).drop 8 =
      (ip.take k).drop ((ipHeader ip).toNat + 8) := by
    rw [transport, ipHeader_take (by omega), List.drop_drop]
  simp only [udpParsed, UserPacket.clip, udpLength_take hk, hpayload]
  simp (disch := omega) only [ipHeader_take, htrans, be16_take, le32_take]

def UserPacket.clipAt (u : UserPacket) (p : List UInt8) (off : Int) : Option UserPacket :=
  if off ≤ p.length then some (u.clip (p.drop off.toNat) (p.length - off)) else none

theorem tcpBranch_take (h20 : 20 ≤ k) :
    (if TcpAccepted (ip.take k) (ip.take k).length wirelen then
      some (tcpParsed layout tv (ip.take k) (ip.take k).length packet) else none) =
      (if TcpAccepted ip ip.length wirelen then
        some (tcpParsed layout tv ip ip.length packet) else none).bind fun u =>
        u.clipAt (ip.take k) (ipHeader ip + tcpHeader ip) := by
  have hr := ipHeader_range ip
  have hr' := tcpHeader_range ip
  by_cases hacc : TcpAccepted ip ip.length wirelen
  · rw [if_pos hacc, Option.bind_some, UserPacket.clipAt]
    by_cases hfit : ipHeader ip + tcpHeader ip ≤ (ip.take k).length
    · rw [if_pos ((tcpAccepted_take h20).mpr ⟨hacc, hfit⟩), if_pos hfit,
        tcpParsed_take h20 hacc hfit, Int.toNat_add hr.1 hr'.1, Int.sub_sub]
    · rw [if_neg (fun h => hfit ((tcpAccepted_take h20).mp h).2), if_neg hfit]
  · rw [if_neg hacc, if_neg (fun h => hacc ((tcpAccepted_take h20).mp h).1), Option.bind_none]

theorem udpBranch_take (h20 : 20 ≤ k) :
    (if UdpAccepted (ip.take k) (ip.take k).length wirelen then
      some (udpParsed tv (ip.take k) (ip.take k).length packet) else none) =
      (if UdpAccepted ip ip.length wirelen then
        some (udpParsed tv ip ip.length packet) else none).bind fun u =>
        u.clipAt (ip.take k) (ipHeader ip + 8) := by
  have hr := ipHeader_range ip
  by_cases hacc : UdpAccepted ip ip.length wirelen
  · rw [if_pos hacc, Option.bind_some, UserPacket.clipAt]
    by_cases hfit : ipHeader ip + 8 ≤ (ip.take k).length
    · rw [if_pos ((udpAccepted_take h20).mpr ⟨hacc, hfit⟩), if_pos hfit,
        udpParsed_take h20 hfit, Int.toNat_add hr.1 (by decide), Int.sub_sub]
      rfl
    · rw [if_neg (fun h => hfit ((udpAccepted_take h20).mp h).2), if_neg hfit]
  · rw [if_neg hacc, if_neg (fun h => hacc ((udpAccepted_take h20).mp h).1), Option.bind_none]

theorem UserPacket.clipAt_drop (u : UserPacket) (p : List UInt8) {n : Nat} (hn : n ≤ p.length)
    {off : Int} (hoff : 0 ≤ off) : u.clipAt (p.drop n) off = u.clipAt p (n + off) := by
  have hlen : ((p.drop n).length : Int) = p.length - n := by
    rw [List.length_drop]
    omega
  rw [UserPacket.clipAt, UserPacket.clipAt, hlen]
  by_cases h : off ≤ (p.length : Int) - n
  · rw [if_pos h, if_pos (by omega), List.drop_drop, Int.toNat_add (by omega) hoff, Int.sub_sub]
    rfl
  · rw [if_neg h, if_neg (by omega)]

end

theorem transportEnd_eq {datalink : LinkType} {n : Nat} (hl : linkhdrSize datalink = some n)
    (packet : List UInt8) :
    transportEnd datalink packet = n + (ipHeader (packet.drop n)).toNat +
      (if byte (packet.drop n) 9 = 6 then (tcpHeader (packet.drop n)).toNat else 8) := by
  simp only [transportEnd, hl, Option.getD_some]

theorem frameParsed_transportEnd {layout : TcpLayout} {datalink : LinkType} {header : PcapPkthdr}
    {packet : List UInt8} {u : UserPacket} {n : Nat} (hl : linkhdrSize datalink = some n)
    (h : frameParsed layout datalink header packet = some u) :
    n + 20 ≤ transportEnd datalink packet := by
  obtain ⟨n', hl', hcases⟩ := frameParsed_cases h
  obtain rfl := Option.some.inj (hl.symm.trans hl')
  rw [transportEnd_eq hl]
  rcases hcases with ⟨-, hacc, -⟩ | ⟨-, hacc, -⟩
  · have := hacc.1
    omega
  · have := hacc.1
    omega

/-- Cutting an accepted frame: behind its headers it is accepted with the same
fields and less payload, before their end it is skipped. -/
theorem frameParsed_take (layout : TcpLayout) (datalink : LinkType) (header : PcapPkthdr)
    (packet : List UInt8) (k : Nat) :
    frameParsed layout datalink header (packet.take k) =
      (frameParsed layout datalink header packet).bind fun u =>
        u.clipAt (packet.take k) (transportEnd datalink packet) := by
  cases hl : linkhdrSize datalink with
  | none => simp [frameParsed, hl]
  | some n =>
    have hlen : (packet.take k).length = min k packet.length := List.length_take
    by_cases hshort : ((packet.take k).length : Int) - n < 20
    · have hcut : frameParsed layout datalink header (packet.take k) = none := by
        simp only [frameParsed, hl]
        exact if_pos (Or.inl hshort)
      rw [hcut]
      cases hf : frameParsed layout datalink header packet with
      | none => rfl
      | some u =>
        have hend := frameParsed_transportEnd hl hf
        rw [Option.bind_some, UserPacket.clipAt, if_neg (by omega)]
    · have hdrop : (packet.take k).drop n = (packet.drop n).take (k - n) := List.drop_take
      have hcap : ((packet.take k).length : Int) - n = ((packet.drop n).take (k - n)).length := by
        rw [← hdrop, List.length_drop]
        omega
      have hfull : ((packet.length : Int) - n) = (packet.drop n).length := by
        rw [List.length_drop]
        omega
      have hr := ipHeader_range (packet.drop n)
      have hr' := tcpHeader_range (packet.drop n)
      have hend (u : UserPacket) : u.clipAt (packet.take k) (transportEnd datalink packet) =
          u.clipAt ((packet.drop n).take (k - n)) (ipHeader (packet.drop n) +
            (if byte (packet.drop n) 9 = 6 then tcpHeader (packet.drop n) else 8)) := by
        rw [← hdrop, u.clipAt_drop _ (by omega) (by split <;> omega), transportEnd_eq hl]
        congr 1
        split <;> omega
      simp only [frameParsed, hl, hdrop, hcap, hfull, hend]
      rw [byte_take (by omega), byte_take (by omega)]
      by_cases hv : byte (packet.drop n) 0 >>> 4 ≠ 4
      · rw [if_pos (Or.inr hv), if_pos (Or.inr hv), Option.bind_none]
      · rw [if_neg (not_or.mpr ⟨by omega, hv⟩), if_neg (not_or.mpr ⟨by omega, hv⟩)]
        by_cases h6 : byte (packet.drop n) 9 = 6
        · simp only [if_pos h6]
          exact tcpBranch_take (by omega)
        · simp only [if_neg h6]
          by_cases h17 : byte (packet.drop n) 9 = 17
          · simp only [if_pos h17]
            exact udpBranch_take (by omega)
          · simp only [if_neg h17, Option.bind_none]

def wirePayload (datalink : LinkType) (packet : List UInt8) : Int :=
  let ip := packet.drop ((linkhdrSize datalink).getD 0)
  if byte ip 9 = 6 then (be16 ip 2).toNat - ipHeader ip - tcpHeader ip else udpLength ip - 8

theorem wirePayloadSize_eq {layout : TcpLayout} {datalink : LinkType} {header : PcapPkthdr}
    {packet : List UInt8} {u : UserPacket}
    (h : frameParsed layout datalink header packet = some u) :
    u.wirePayloadSize = wirePayload datalink packet := by
  obtain ⟨n, hl, ⟨h6, -, rfl⟩ | ⟨h17, -, rfl⟩⟩ := frameParsed_cases h
  · simp only [wirePayload, hl, Option.getD_some, h6, if_true]
    rfl
  · have h6 : ¬byte (packet.drop n) 9 = 6 := by
      rw [h17]
      decide
    simp only [wirePayload, hl, Option.getD_some, if_neg h6]
    rfl

theorem arrival_clip {u : UserPacket} {p q : List UInt8} {c d : Int}
    (h : min u.wirePayloadSize c = 0 ↔ min u.wirePayloadSize d = 0) (a : Allocs) :
    (u.clip p c).arrival a = (u.clip q d).arrival a := by
  unfold UserPacket.arrival
  by_cases hc : min u.wirePayloadSize c = 0
  · have hd := h.mp hc
    simp only [UserPacket.clip, hc, hd, if_true]
    rfl
  · have hd := mt h.mpr hc
    simp only [UserPacket.clip, hc, hd, if_false]
    rfl

/-- A frame on the wire, with the time it is captured and the allocations that
succeed while it is handled. -/
structure WireFrame where
  ts : Timeval
  bytes : List UInt8
  fits : bytes.length < 2 ^ 32
  allocs : Allocs

namespace WireFrame

def handle (layout : TcpLayout) (n : Nat) (s : Sniffer) (f : WireFrame) : Access Sniffer :=
  (packetHandler layout f.allocs s (captureHeader f.ts f.bytes (min n f.bytes.length))
    (f.bytes.take n)).map Prod.fst

def handleAll (layout : TcpLayout) (n : Nat) (s : Sniffer) (frames : List WireFrame) :
    Access Sniffer :=
  frames.foldlM (handle layout n) s

def parsed (layout : TcpLayout) (datalink : LinkType) (f : WireFrame) : Option UserPacket :=
  frameParsed layout datalink (captureHeader f.ts f.bytes f.bytes.length) f.bytes

/-- The snapshot holds the headers of every frame that is accepted. -/
def HeldBy (layout : TcpLayout) (datalink : LinkType) (f : WireFrame) (n : Nat) : Prop :=
  (f.parsed layout datalink).isSome → transportEnd datalink f.bytes ≤ n

/-- If the frame is accepted and has payload, both snapshots hold a byte of it or
neither does. -/
def SamePayloadTest (layout : TcpLayout) (datalink : LinkType) (f : WireFrame) (n₁ n₂ : Nat) :
    Prop :=
  (f.parsed layout datalink).isSome → 0 < wirePayload datalink f.bytes →
    (transportEnd datalink f.bytes < n₁ ↔ transportEnd datalink f.bytes < n₂)

variable {layout : TcpLayout} {s : Sniffer} {n : Nat}

def arrival (layout : TcpLayout) (datalink : LinkType) (n : Nat) (f : WireFrame) : Option Arrival :=
  ((f.parsed layout datalink).bind fun u =>
    u.clipAt (f.bytes.take n) (transportEnd datalink f.bytes)).map fun u => u.arrival f.allocs

theorem handle_refines (layout : TcpLayout) (hs : s.Monitoring) (hn : n < 2 ^ 31) (f : WireFrame) :
    ∃ s', f.handle layout n s = some s' ∧ s'.Monitoring ∧ s'.datalink = s.datalink ∧
      s'.toMonitor = ((f.arrival layout s.datalink n).map s.toMonitor.next).getD s.toMonitor := by
  have hlen : (f.bytes.take n).length = min n f.bytes.length := List.length_take
  have hfits := f.fits
  let header := captureHeader f.ts f.bytes (min n f.bytes.length)
  have hcap : (f.bytes.take n).length = header.caplen.toNat := by
    simp only [header, captureHeader, UInt32.toNat_ofNat', hlen]
    omega
  have hsame : f.parsed layout s.datalink = frameParsed layout s.datalink header f.bytes := rfl
  have hrefines := hs.packetHandler_refines layout f.allocs hcap (by omega)
  rw [arrival, hsame, ← frameParsed_take layout s.datalink header f.bytes n]
  exact hrefines

theorem arrival_eq {datalink : LinkType} {n₁ n₂ : Nat} {f : WireFrame}
    (h₁ : f.HeldBy layout datalink n₁) (h₂ : f.HeldBy layout datalink n₂)
    (hsame : f.SamePayloadTest layout datalink n₁ n₂) :
    f.arrival layout datalink n₁ = f.arrival layout datalink n₂ := by
  unfold arrival
  cases hp : f.parsed layout datalink with
  | none => rfl
  | some u =>
    have hclip := frameParsed_clipped hp
    have hend := hclip.off_le
    have hwire := hclip.wire_nonneg
    have hpay := wirePayloadSize_eq hp
    have hh₁ := h₁ (by rw [hp]; rfl)
    have hh₂ := h₂ (by rw [hp]; rfl)
    have hl₁ : (f.bytes.take n₁).length = min n₁ f.bytes.length := List.length_take
    have hl₂ : (f.bytes.take n₂).length = min n₂ f.bytes.length := List.length_take
    rw [Option.bind_some, Option.bind_some, UserPacket.clipAt, UserPacket.clipAt,
      if_pos (by omega), if_pos (by omega), Option.map_some, Option.map_some]
    congr 1
    apply arrival_clip
    have htest := hsame (by rw [hp]; rfl)
    omega

end WireFrame

structure Sniffer.Agree (s₁ s₂ : Sniffer) : Prop where
  left : s₁.Monitoring
  right : s₂.Monitoring
  datalink_eq : s₁.datalink = s₂.datalink
  monitor_eq : s₁.toMonitor = s₂.toMonitor

namespace Sniffer.Agree

variable {s₁ s₂ : Sniffer}

theorem get_synTab (h : s₁.Agree s₂) (key : CString) : s₁.synTab.get key = s₂.synTab.get key := by
  by_cases hk : key ∈ Set.range endpointKey
  · obtain ⟨e, rfl⟩ := hk
    rw [← lookup_stats, ← lookup_stats, h.monitor_eq]
  · have hnone {s : Sniffer} (hs : s.Monitoring) : s.synTab.get key = none := by
      rw [← Table.lookup_toMap, Finmap.lookup_eq_none, ← Finmap.mem_keys]
      exact fun hm => hk (hs.synKeys key hm)
    rw [hnone h.left, hnone h.right]

theorem get_requests (h : s₁.Agree s₂) (key : CString) :
    (s₁.requests.get key).map Request.tv = (s₂.requests.get key).map Request.tv := by
  by_cases hk : key ∈ Set.range slotKey
  · obtain ⟨⟨client, server⟩, rfl⟩ := hk
    rw [slotKey, ← lookup_pending, ← lookup_pending, h.monitor_eq]
  · have hnone {s : Sniffer} (hs : s.Monitoring) : s.requests.get key = none := by
      rw [← Table.lookup_toMap, Finmap.lookup_eq_none, ← Finmap.mem_keys]
      exact fun hm => hk (hs.requestKeys key hm)
    rw [hnone h.left, hnone h.right]

theorem handleAll {layout : TcpLayout} {n₁ n₂ : Nat} (h : s₁.Agree s₂) (hn₁ : n₁ < 2 ^ 31)
    (hn₂ : n₂ < 2 ^ 31) (frames : List WireFrame)
    (hheld : ∀ f ∈ frames, f.HeldBy layout s₁.datalink n₁ ∧ f.HeldBy layout s₁.datalink n₂)
    (hsame : ∀ f ∈ frames, f.SamePayloadTest layout s₁.datalink n₁ n₂) :
    ∃ t₁ t₂, WireFrame.handleAll layout n₁ s₁ frames = some t₁ ∧
      WireFrame.handleAll layout n₂ s₂ frames = some t₂ ∧ t₁.Agree t₂ := by
  induction frames generalizing s₁ s₂ with
  | nil => exact ⟨s₁, s₂, rfl, rfl, h⟩
  | cons f frames ih =>
    obtain ⟨u₁, hu₁, hm₁, hd₁, hmon₁⟩ := WireFrame.handle_refines layout h.left hn₁ f
    obtain ⟨u₂, hu₂, hm₂, hd₂, hmon₂⟩ := WireFrame.handle_refines layout h.right hn₂ f
    obtain ⟨hheld₁, hheld₂⟩ := hheld f List.mem_cons_self
    have harr := WireFrame.arrival_eq hheld₁ hheld₂ (hsame f List.mem_cons_self)
    have hagree : u₁.Agree u₂ := by
      refine ⟨hm₁, hm₂, by rw [hd₁, hd₂, h.datalink_eq], ?_⟩
      rw [hmon₁, hmon₂, ← h.datalink_eq, ← h.monitor_eq, harr]
    obtain ⟨t₁, t₂, ht₁, ht₂, ht⟩ := ih hagree
      (fun g hg => by rw [hd₁]; exact hheld g (List.mem_cons_of_mem f hg))
      (fun g hg => by rw [hd₁]; exact hsame g (List.mem_cons_of_mem f hg))
    refine ⟨t₁, t₂, ?_, ?_, ht⟩
    · rw [WireFrame.handleAll, List.foldlM_cons, hu₁]
      exact ht₁
    · rw [WireFrame.handleAll, List.foldlM_cons, hu₂]
      exact ht₂

end Sniffer.Agree

/-- Two snapshot lengths that hold all headers give the same statistics over a
whole capture as long as no frame has payload that only one of them can see. -/
theorem statistics_ignore_snapshot (layout : TcpLayout) (opts : Options) (datalink : LinkType)
    (hscript : opts.script = none) (hraw : opts.protocol ≠ .raw) (n₁ n₂ : Nat)
    (hn₁ : n₁ < 2 ^ 31) (hn₂ : n₂ < 2 ^ 31) (frames : List WireFrame)
    (hheld : ∀ f ∈ frames, f.HeldBy layout datalink n₁ ∧ f.HeldBy layout datalink n₂)
    (hsame : ∀ f ∈ frames, f.SamePayloadTest layout datalink n₁ n₂) :
    ∃ t₁ t₂, WireFrame.handleAll layout n₁ (snifferCreate opts datalink) frames = some t₁ ∧
      WireFrame.handleAll layout n₂ (snifferCreate opts datalink) frames = some t₂ ∧
      (∀ key, t₁.synTab.get key = t₂.synTab.get key) ∧
      ∀ key, (t₁.requests.get key).map Request.tv = (t₂.requests.get key).map Request.tv := by
  have hcreate := Sniffer.Monitoring.create hscript hraw datalink
  have hagree : (snifferCreate opts datalink).Agree (snifferCreate opts datalink) :=
    ⟨hcreate, hcreate, rfl, rfl⟩
  obtain ⟨t₁, t₂, h₁, h₂, h⟩ := hagree.handleAll hn₁ hn₂ frames hheld hsame
  exact ⟨t₁, t₂, h₁, h₂, h.get_synTab, h.get_requests⟩

def optionsTcp (syn : Bool) : TcpHeader :=
  { plainTcp with
    syn := syn, ack := !syn, psh := !syn, options := ⟨List.replicate 8 1, rfl, by decide⟩ }

/-- A handshake and a request behind a cooked link header of 16 bytes. -/
def cookedFrames : List WireFrame :=
  [⟨⟨0, 0⟩, List.replicate 16 0 ++ tcpDatagram plainIp (optionsTcp true) [], by decide,
      Allocs.all⟩,
    ⟨⟨0, 1000⟩, List.replicate 16 0 ++ tcpDatagram plainIp (optionsTcp false) [80, 73, 78, 71],
      by decide, Allocs.all⟩]

theorem statistics_ignore_snapshot_cooked :
    ∃ t₁ t₂,
      WireFrame.handleAll .linux 65 (snifferCreate { protocol := .redis } .linuxSll) cookedFrames =
        some t₁ ∧
      WireFrame.handleAll .linux 256 (snifferCreate { protocol := .redis } .linuxSll) cookedFrames =
        some t₂ ∧
      ∀ key, t₁.synTab.get key = t₂.synTab.get key := by
  obtain ⟨t₁, t₂, h₁, h₂, hsyn, -⟩ := statistics_ignore_snapshot .linux { protocol := .redis }
    .linuxSll rfl (by decide) 65 256 (by decide) (by decide) cookedFrames
    (by
      have hend : ∀ f ∈ cookedFrames, transportEnd .linuxSll f.bytes ≤ 64 := by decide
      exact fun f hf => ⟨fun _ => (hend f hf).trans (by decide), fun _ => (hend f hf).trans (by decide)⟩)
    (by
      have hend : ∀ f ∈ cookedFrames, transportEnd .linuxSll f.bytes ≤ 64 := by decide
      intro f hf _ _
      have := hend f hf
      omega)
  exact ⟨t₁, t₂, h₁, h₂, hsyn⟩

/-- A snapshot of 64 bytes ends exactly behind the headers of the request, which
then counts as a packet without payload. -/
theorem snapshot_loses_request :
    (∀ f ∈ cookedFrames, transportEnd .linuxSll f.bytes ≤ 64) ∧
      (WireFrame.handleAll .linux 64 (snifferCreate { protocol := .redis } .linuxSll)
        cookedFrames).map (fun s => (s.synTab.get (endpointKey ⟨0x0200000a, 6379⟩)).map
          QueryStats.requests) = some (some 0) ∧
      (WireFrame.handleAll .linux 256 (snifferCreate { protocol := .redis } .linuxSll)
        cookedFrames).map (fun s => (s.synTab.get (endpointKey ⟨0x0200000a, 6379⟩)).map
          QueryStats.requests) = some (some 1) :=
  ⟨by decide, by decide +kernel, by decide +kernel⟩

end Tcpkit
