import Tcpkit.Counting
import Tcpkit.FrameRuns

/-! The length on the wire, from the 32-bit field of the capture header through
`int` arithmetic into the 64-bit byte counters. -/

namespace Tcpkit

open MachineInt

/-- A length for which `(int)len - linkhdr` is computed without leaving `int`. -/
def LengthFits (linkhdr : Nat) (len : UInt32) : Prop :=
  len.toNat < 2 ^ 31 ∨ 2 ^ 31 + linkhdr ≤ len.toNat

theorem int32_of_ge {len : UInt32} (h : 2 ^ 31 ≤ len.toNat) :
    int32 len.toNat = (len.toNat : Int) - 2 ^ 32 := by
  have hlt := len.toNat_lt
  rw [int32, Int.bmod]
  omega

theorem LengthFits.range {linkhdr : Nat} {len : UInt32} (h : LengthFits linkhdr len)
    (hl : linkhdr ≤ 16) :
    -2 ^ 31 ≤ int32 len.toNat - linkhdr ∧ int32 len.toNat - linkhdr < 2 ^ 31 := by
  have hlt := len.toNat_lt
  rcases h with h | h
  · rw [int32_size h]
    omega
  · rw [int32_of_ge (by omega)]
    omega

/-- A frame is accepted only with room for a datagram in it, and its length becomes the
size of the packet. -/
theorem frameParsed_wirelen {layout : TcpLayout} {datalink : LinkType} {header : PcapPkthdr}
    {packet : List UInt8} {u : UserPacket} {linkhdr : Nat} (hl : linkhdrSize datalink = some linkhdr)
    (h : frameParsed layout datalink header packet = some u) :
    0 ≤ int32 (int32 header.len.toNat - linkhdr) ∧ u.size = header.len := by
  obtain ⟨n, hl', hcases⟩ := frameParsed_cases h
  obtain rfl := Option.some.inj (hl.symm.trans hl')
  have hr := ipHeader_range (packet.drop linkhdr)
  rcases hcases with ⟨-, ⟨h1, h2, h3, h4, h5, h6⟩, rfl⟩ | ⟨-, ⟨h1, h2, h3, h4⟩, rfl⟩
  · exact ⟨by omega, rfl⟩
  · exact ⟨by omega, rfl⟩

theorem LengthFits.lt_of_accepted {layout : TcpLayout} {datalink : LinkType} {header : PcapPkthdr}
    {packet : List UInt8} {u : UserPacket} {linkhdr : Nat} (hl : linkhdrSize datalink = some linkhdr)
    (hfits : LengthFits linkhdr header.len)
    (h : frameParsed layout datalink header packet = some u) : header.len.toNat < 2 ^ 31 := by
  have hlt := header.len.toNat_lt
  have hrange := hfits.range (linkhdrSize_le hl)
  have hwire := (frameParsed_wirelen hl h).1
  rw [int32_eq_self hrange.1 hrange.2] at hwire
  by_contra hge
  rw [int32_of_ge (by omega)] at hwire
  omega

def byteField (isRequest : Bool) (stats : QueryStats) : Nat :=
  if isRequest then stats.requestBytes else stats.responseBytes

theorem isCounter_byteField (isRequest : Bool) :
    IsCounter (byteField isRequest) isRequest UInt32.toNat := by
  cases isRequest with
  | true => exact isCounter_requestBytes
  | false => exact isCounter_responseBytes

def Sniffer.byteCounter (s : Sniffer) (e : Endpoint) (isRequest : Bool) : Option Nat :=
  (s.synTab.get (endpointKey e)).map (byteField isRequest)

theorem Sniffer.byteCounter_eq (s : Sniffer) (e : Endpoint) (isRequest : Bool) :
    s.byteCounter e isRequest = (s.toMonitor.stats.lookup e).map (byteField isRequest) := by
  rw [Sniffer.lookup_stats, Sniffer.byteCounter]

theorem UserPacket.size_of_signal {u : UserPacket} {a : Allocs} {src dst : Endpoint} {size : UInt32}
    (h : (u.arrival a).signal = .data src dst size) : size = u.size := by
  simp only [UserPacket.arrival] at h
  split at h
  · split at h <;> cases h
  · cases h
    rfl

namespace FrameCapture

variable (r : FrameCapture)

def Registered (j : Nat) (e : Endpoint) : Prop := ((r.before j).synTab.get (endpointKey e)).isSome

instance (j : Nat) (e : Endpoint) : Decidable (r.Registered j e) :=
  inferInstanceAs (Decidable (_ = true))

/-- The byte counter that frame `j` adds to: none if it is skipped, has no payload or
comes from and goes to endpoints that are not registered. -/
def counted (j : Fin r.frames.length) : Option (Endpoint × Bool) :=
  match r.parsed j with
  | some (some u) =>
    if u.payloadSize = 0 then none
    else if r.Registered j u.src then some (u.src, false)
    else if r.Registered j u.dst then some (u.dst, true)
    else none
  | _ => none

def length (j : Fin r.frames.length) : Nat := (r.frame j).header.len.toNat

/-- The true number of bytes that the first `n` frames add to a counter. -/
def total (e : Endpoint) (isRequest : Bool) (n : Nat) : Nat :=
  ∑ j ∈ Finset.univ.filter (fun j : Fin r.frames.length => (j : Nat) < n),
    if r.counted j = some (e, isRequest) then r.length j else 0

variable {r} {linkhdr : Nat} {j : Fin r.frames.length} {u : UserPacket} {e : Endpoint}
  {isRequest : Bool}

theorem registered_iff {n : Nat} : r.Registered n e ↔ (r.before n).toMonitor.Registered e :=
  (Sniffer.registered_iff _ e).symm

theorem counted_isSome (h : r.counted j = some (e, isRequest)) :
    ((r.before j).byteCounter e isRequest).isSome := by
  rw [Sniffer.byteCounter, Option.isSome_map]
  simp only [counted] at h
  split at h
  · split at h
    · cases h
    · split at h
      · rename_i hs
        cases h
        exact hs
      · split at h
        · rename_i hd
          cases h
          exact hd
        · cases h
  · cases h

theorem countedFor_eq (hu : r.parsed j = some (some u)) (hsize : u.size = (r.frame j).header.len)
    (e : Endpoint) (isRequest : Bool) :
    (r.before j).toMonitor.countedFor (u.arrival (r.frame j).allocs) e isRequest =
      if r.counted j = some (e, isRequest) then some (r.frame j).header.len else none := by
  by_cases h0 : u.payloadSize = 0
  · have hcounted : r.counted j = none := by simp only [counted, hu, if_pos h0]
    rw [hcounted, if_neg (by simp), Monitor.countedFor]
    simp only [UserPacket.arrival, if_pos h0]
    cases u.syn <;> rfl
  · have hsignal : (u.arrival (r.frame j).allocs).signal = .data u.src u.dst u.size := if_neg h0
    simp only [Monitor.countedFor, hsignal, hsize, Monitor.counted, ← registered_iff]
    refine if_congr ?_ rfl rfl
    by_cases hs : r.Registered j u.src
    · have hcounted : r.counted j = some (u.src, false) := by
        simp only [counted, hu, if_neg h0, if_pos hs]
      rw [hcounted, Option.some.injEq, Prod.mk.injEq, if_pos hs]
      constructor
      · intro hh
        exact ⟨hh.2.1, by simpa [hs] using hh.2.2⟩
      · intro hh
        exact ⟨hh.1 ▸ hs, hh.1, by simpa [hs] using hh.2⟩
    · rw [if_neg hs]
      by_cases hd : r.Registered j u.dst
      · have hcounted : r.counted j = some (u.dst, true) := by
          simp only [counted, hu, if_neg h0, if_neg hs, if_pos hd]
        rw [hcounted, Option.some.injEq, Prod.mk.injEq]
        constructor
        · intro hh
          exact ⟨hh.2.1, by simpa [hs] using hh.2.2⟩
        · intro hh
          exact ⟨hh.1 ▸ hd, hh.1, by simpa [hs] using hh.2⟩
      · have hcounted : r.counted j = none := by
          simp only [counted, hu, if_neg h0, if_neg hs, if_neg hd]
        rw [hcounted]
        refine iff_of_false ?_ (by simp)
        intro hh
        exact hd (hh.2.1 ▸ hh.1)

/-- What frame `j` does to a byte counter: it adds its length or leaves it alone, or the
endpoint is registered just now. -/
theorem byteCounter_succ (hl : linkhdrSize r.datalink = some linkhdr)
    (hfits : LengthFits linkhdr (r.frame j).header.len) (e : Endpoint) (isRequest : Bool) :
    (r.before (j + 1)).byteCounter e isRequest =
      (if r.counted j = some (e, isRequest) then
        ((r.before j).byteCounter e isRequest).map (fun c => (c + r.length j) % 2 ^ 64)
      else (r.before j).byteCounter e isRequest) ∨
    (∀ u, r.parsed j = some (some u) → u.payloadSize = 0) ∧
      (r.before j).byteCounter e isRequest = none ∧
      (r.before (j + 1)).byteCounter e isRequest = some 0 := by
  rcases r.toMonitor_succ j with ⟨hskip, hnext⟩ | ⟨u, hu, hnext⟩
  · have hnone : r.counted j = none := by rw [counted, hskip]
    refine Or.inl ?_
    rw [hnone, if_neg (by simp), Sniffer.byteCounter_eq, hnext, Sniffer.byteCounter_eq]
  · have hparsed := Option.some.inj ((r.parsed_eq j).symm.trans hu)
    have hsize := (frameParsed_wirelen hl hparsed).2
    have hlt := hfits.lt_of_accepted hl hparsed
    have hfor := countedFor_eq hu hsize e isRequest
    rw [Sniffer.byteCounter_eq, hnext, Sniffer.byteCounter_eq]
    cases hlook : (r.before j).toMonitor.stats.lookup e with
    | some stats =>
      have hsmall : ∀ src dst size, (u.arrival (r.frame j).allocs).signal = .data src dst size →
          size.toNat < 2 ^ 31 := fun src dst size hsig => by
        rw [UserPacket.size_of_signal hsig, hsize]
        exact hlt
      obtain ⟨stats', hstats', hcount⟩ := Monitor.counter_next (isCounter_byteField isRequest) hsmall hlook
      refine Or.inl ?_
      rw [hfor] at hcount
      rw [hstats', Option.map_some, hcount]
      by_cases hc : r.counted j = some (e, isRequest)
      · simp only [if_pos hc]
        rfl
      · simp only [if_neg hc]
        rfl
    | none =>
      have hreg : ¬(r.before j).toMonitor.Registered e := by simp [Monitor.Registered, hlook]
      rw [Monitor.countedFor_of_not_registered hreg] at hfor
      have hc : r.counted j ≠ some (e, isRequest) := fun hc => by simp [hc] at hfor
      rw [if_neg hc]
      rcases Monitor.lookup_stats_of_none (a := u.arrival (r.frame j).allocs) hlook with hnone |
        ⟨hsig, hzeroed⟩
      · exact Or.inl (congrArg _ hnone)
      · have h0 : u.payloadSize = 0 := by
          by_contra h0
          exact absurd hsig (by rw [UserPacket.arrival]; simp [h0])
        have hempty : ∀ v, r.parsed j = some (some v) → v.payloadSize = 0 := by
          intro v hv
          rw [hu, Option.some.injEq, Option.some.injEq] at hv
          rw [← hv, h0]
        refine Or.inr ⟨hempty, rfl, ?_⟩
        rw [hzeroed]
        cases isRequest <;> rfl

theorem total_succ (e : Endpoint) (isRequest : Bool) (j : Fin r.frames.length) :
    r.total e isRequest (j + 1) = r.total e isRequest j +
      if r.counted j = some (e, isRequest) then r.length j else 0 :=
  sum_before_succ _ j

theorem total_mono {m n : Nat} (h : m ≤ n) (e : Endpoint) (isRequest : Bool) :
    r.total e isRequest m ≤ r.total e isRequest n := by
  apply Finset.sum_le_sum_of_subset
  intro j hj
  simp only [Finset.mem_filter, Finset.mem_univ, true_and] at hj ⊢
  omega

theorem byteCounter_total_succ (hl : linkhdrSize r.datalink = some linkhdr)
    (hfits : LengthFits linkhdr (r.frame j).header.len)
    (hi : ((r.before j).byteCounter e isRequest).getD 0 = r.total e isRequest j % 2 ^ 64) :
    ((r.before (j + 1)).byteCounter e isRequest).getD 0 = r.total e isRequest (j + 1) % 2 ^ 64 := by
  rw [total_succ]
  rcases byteCounter_succ hl hfits e isRequest with hstep | ⟨-, hnone, hzero⟩
  · rw [hstep]
    by_cases hc : r.counted j = some (e, isRequest)
    · obtain ⟨c, hold⟩ := Option.isSome_iff_exists.mp (counted_isSome hc)
      rw [hold, Option.getD_some] at hi
      rw [if_pos hc, if_pos hc, hold, Option.map_some, Option.getD_some, hi, Nat.mod_add_mod]
    · rw [if_neg hc, if_neg hc, Nat.add_zero, hi]
  · have hc : r.counted j ≠ some (e, isRequest) := by
      intro hc
      have hsome := counted_isSome hc
      rw [hnone] at hsome
      cases hsome
    rw [hnone, Option.getD_none] at hi
    rw [hzero, Option.getD_some, if_neg hc, Nat.add_zero, hi]

theorem byteCounter_eq_total (hl : linkhdrSize r.datalink = some linkhdr)
    (hfits : ∀ j, LengthFits linkhdr (r.frame j).header.len) (e : Endpoint) (isRequest : Bool)
    {n : Nat} (hn : n ≤ r.frames.length) :
    ((r.before n).byteCounter e isRequest).getD 0 = r.total e isRequest n % 2 ^ 64 := by
  induction n with
  | zero =>
    have hstart : (r.before 0).byteCounter e isRequest = none := by
      rw [Sniffer.byteCounter, ← Table.lookup_toMap]
      simp [before, trace, Trace.ofList, snifferCreate, Table.toMap_create]
    rw [hstart]
    simp [total]
  | succ n ih =>
    let j : Fin r.frames.length := ⟨n, hn⟩
    exact byteCounter_total_succ (j := j) hl (hfits j) (ih (by omega))

theorem registered_mono {m n : Nat} (hmn : m ≤ n) (hn : n ≤ r.frames.length) (h : r.Registered m e) :
    r.Registered n e := by
  induction n, hmn using Nat.le_induction with
  | base => exact h
  | succ n hle ih =>
    have hreg := registered_iff.mp (ih (by omega))
    rw [registered_iff]
    rcases r.toMonitor_succ ⟨n, hn⟩ with ⟨-, hnext⟩ | ⟨u, -, hnext⟩
    · exact hnext ▸ hreg
    · exact hnext ▸ hreg.next _

/-- Outside the lengths for which `(int)len - linkhdr` overflows: the subtraction stays in
`int`, what is accepted is shorter than `2 ^ 31`, a data packet of a registered endpoint adds its
length to one byte counter and nothing to the others, one between unregistered endpoints adds
nothing, and a counter whose true total fits is that total, so that it never decreases. -/
theorem byte_counters_grow (r : FrameCapture) {linkhdr : Nat}
    (hl : linkhdrSize r.datalink = some linkhdr)
    (hfits : ∀ j, LengthFits linkhdr (r.frame j).header.len) :
    (∀ j, -2 ^ 31 ≤ int32 (r.frame j).header.len.toNat - linkhdr ∧
      int32 (r.frame j).header.len.toNat - linkhdr < 2 ^ 31) ∧
    (∀ j u, r.parsed j = some (some u) → (r.frame j).header.len.toNat < 2 ^ 31) ∧
    (∀ j u, r.parsed j = some (some u) → u.payloadSize ≠ 0 →
      ((r.counted j).isSome ↔ r.Registered j u.src ∨ r.Registered j u.dst) ∧
      (∀ e isRequest, r.counted j = some (e, isRequest) →
        ∃ c, (r.before j).byteCounter e isRequest = some c ∧
          (r.before (j + 1)).byteCounter e isRequest = some ((c + r.length j) % 2 ^ 64)) ∧
      ∀ e isRequest, r.counted j ≠ some (e, isRequest) →
        (r.before (j + 1)).byteCounter e isRequest = (r.before j).byteCounter e isRequest) ∧
    ∀ e isRequest, r.total e isRequest r.frames.length < 2 ^ 64 →
      (∀ n ≤ r.frames.length, ∀ c, (r.before n).byteCounter e isRequest = some c →
        c = r.total e isRequest n) ∧
      ∀ m n, m ≤ n → n ≤ r.frames.length → ∀ c, (r.before m).byteCounter e isRequest = some c →
        ∃ c', (r.before n).byteCounter e isRequest = some c' ∧ c ≤ c' := by
  refine ⟨fun j => (hfits j).range (linkhdrSize_le hl), fun j u hu => ?_, fun j u hu h0 => ?_,
    fun e isRequest hfit => ?_⟩
  · exact (hfits j).lt_of_accepted hl (Option.some.inj ((r.parsed_eq j).symm.trans hu))
  · have hstep (e : Endpoint) (isRequest : Bool) :=
      (byteCounter_succ hl (hfits j) e isRequest).resolve_right fun h => h0 (h.1 u hu)
    refine ⟨?_, fun e isRequest hc => ?_, fun e isRequest hc => ?_⟩
    · simp only [counted, hu, if_neg h0]
      by_cases hs : r.Registered j u.src
      · simp [hs]
      · by_cases hd : r.Registered j u.dst
        · simp [hs, hd]
        · simp [hs, hd]
    · obtain ⟨c, hold⟩ := Option.isSome_iff_exists.mp (counted_isSome hc)
      refine ⟨c, hold, ?_⟩
      rw [hstep, if_pos hc, hold, Option.map_some]
    · rw [hstep, if_neg hc]
  · have hexact (n : Nat) (hn : n ≤ r.frames.length) (c : Nat)
        (hc : (r.before n).byteCounter e isRequest = some c) : c = r.total e isRequest n := by
      have htotal := byteCounter_eq_total hl hfits e isRequest hn
      have hmono := total_mono hn e isRequest (r := r)
      rw [hc, Option.getD_some, Nat.mod_eq_of_lt (by omega)] at htotal
      exact htotal
    refine ⟨hexact, fun m n hmn hn c hc => ?_⟩
    have hreg : r.Registered n e := registered_mono hmn hn (by
      rw [Registered, ← Option.isSome_map (f := byteField isRequest), ← Sniffer.byteCounter, hc]
      rfl)
    obtain ⟨stats, hstats⟩ := Option.isSome_iff_exists.mp hreg
    have hc' : (r.before n).byteCounter e isRequest = some (byteField isRequest stats) := by
      rw [Sniffer.byteCounter, hstats, Option.map_some]
    refine ⟨_, hc', ?_⟩
    rw [hexact m (hmn.trans hn) c hc, hexact n hn _ hc']
    exact total_mono hmn e isRequest

end FrameCapture

/-- Four bytes of payload in an Ethernet frame, from and to endpoints nobody registered. -/
def strayBytes : List UInt8 :=
  List.replicate 14 0 ++ [0x45, 0, 0, 44, 0, 0, 0, 0, 64, 6, 0, 0, 10, 0, 0, 1, 10, 0, 0, 2] ++
    [0x03, 0xe8, 0x18, 0xeb, 0, 0, 0, 0, 0, 0, 0, 0, 0x50, 0x18, 0, 0, 0, 0, 0, 0, 80, 73, 78, 71]

theorem strayBytes_captured : strayBytes.length = (58 : UInt32).toNat := by decide

theorem strayBytes_limit : (58 : UInt32).toNat ≤ 262144 := by decide

def strayCapture : FrameCapture where
  layout := .linux
  opts := redisOptions
  datalink := .en10mb
  frames := [⟨⟨⟨0, 0⟩, 58, 58⟩, strayBytes, strayBytes_captured, strayBytes_limit, Allocs.all⟩]
  noScript := redisOptions_noScript
  notRaw := redisOptions_notRaw

theorem accepted_of_payloadSize {parsed : Access (Option UserPacket)} {n : Int}
    (h : parsed.map (Option.map UserPacket.payloadSize) = some (some n)) :
    ∃ u, parsed = some (some u) ∧ u.payloadSize = n := by
  obtain ⟨r, rfl, hr⟩ := Option.map_eq_some_iff.mp h
  obtain ⟨u, rfl, hu⟩ := Option.map_eq_some_iff.mp hr
  exact ⟨u, rfl, hu⟩

theorem strayCapture_parsed : ∃ u, strayCapture.parsed ⟨0, by decide⟩ = some (some u) ∧
    u.payloadSize = 4 :=
  accepted_of_payloadSize (by decide +kernel)

/-- A data packet between unregistered endpoints is counted nowhere, and a length just above
`2 ^ 31` leaves `int` in the subtraction and is accepted. -/
theorem strayCapture_counts_nothing :
    (∃ u, strayCapture.parsed ⟨0, by decide⟩ = some (some u) ∧ u.payloadSize = 4) ∧
    (∀ e isRequest, (strayCapture.before 1).byteCounter e isRequest = none) ∧
    int32 (2 ^ 31) - 14 < -2 ^ 31 ∧
    ∃ u, parseFrame .linux .en10mb ⟨⟨0, 0⟩, 58, 0x80000000⟩ strayBytes = some (some u) ∧
      u.payloadSize = 4 := by
  refine ⟨strayCapture_parsed, fun e isRequest => ?_, by decide,
    accepted_of_payloadSize (by decide +kernel)⟩
  have hempty : (strayCapture.before 1).synTab.entries = [] := by decide +kernel
  have hnone : (strayCapture.before 1).synTab.get (endpointKey e) = none :=
    (strayCapture.before 1).synTab.wellFormed.chained.get_eq_none_iff.mpr (by simp [hempty])
  rw [Sniffer.byteCounter, hnone, Option.map_none]

theorem byte_counters_grow_stray :
    (∀ j, LengthFits 14 (strayCapture.frame j).header.len) ∧
      ∀ e isRequest, (strayCapture.before 1).byteCounter e isRequest =
        (strayCapture.before 0).byteCounter e isRequest := by
  have hfits : ∀ j, LengthFits 14 (strayCapture.frame j).header.len := by
    intro j
    obtain rfl : j = ⟨0, by decide⟩ := Fin.ext (by have := j.isLt; simp [strayCapture] at this; omega)
    exact Or.inl (by decide)
  obtain ⟨u, hu, hsize⟩ := strayCapture_parsed
  have hdata := (strayCapture.byte_counters_grow rfl hfits).2.2.1 ⟨0, by decide⟩ u hu (by omega)
  have hcounted : strayCapture.counted ⟨0, by decide⟩ = none := by decide +kernel
  exact ⟨hfits, fun e isRequest => hdata.2.2 e isRequest (by simp [hcounted])⟩

end Tcpkit
