import Tcpkit.Expiry

/-! The threshold on printed exchanges. It is kept in milliseconds, and the product that makes
microseconds of it is an `int`. -/

namespace Tcpkit

open MachineInt

theorem int32_lt (x : Int) : int32 x < 2 ^ 31 := by
  rw [int32]
  have h := Int.bmod_lt (x := x) (m := 2 ^ 32) (by decide)
  omega

theorem belowThreshold_eq_false_iff {s : Sniffer} (hfits : s.threshold * 1000 < 2 ^ 31)
    (h0 : 0 ≤ s.threshold) (delta : Int) :
    belowThreshold s delta = false ↔ s.threshold = 0 ∨ 1000 * s.threshold ≤ delta := by
  rw [belowThreshold, int32_eq_self (by omega) hfits, decide_eq_false_iff_not]
  omega

namespace Sniffer

def withThreshold (s : Sniffer) (threshold : Int) : Sniffer := { s with threshold := threshold }

variable (s : Sniffer) (threshold : Int) (p : UserPacket)

theorem expire_withThreshold (now : Timeval) :
    expireStaleRequests (s.withThreshold threshold) now =
      (expireStaleRequests s now).withThreshold threshold := by
  cases hprimed : s.expirePrimed with
  | false => simp [expireStaleRequests, withThreshold, hprimed]
  | true =>
    by_cases hdelta : tvDeltaUs now s.lastExpire < expireIntervalUs <;>
      simp [expireStaleRequests, withThreshold, hprimed, hdelta]

theorem direction_withThreshold :
    packetDirection (s.withThreshold threshold) p =
      ((packetDirection s p).1.withThreshold threshold, (packetDirection s p).2) := by
  unfold packetDirection
  by_cases hsrc : (s.synTab.get (endpointKey p.src)).isSome
  · simp [withThreshold, hsrc]
  · by_cases hdst : (s.synTab.get (endpointKey p.dst)).isSome <;> simp [withThreshold, hsrc, hdst]

theorem register_withThreshold (a : Allocs) (e : Endpoint) :
    registerEndpoint a (s.withThreshold threshold) e =
      (registerEndpoint a s e).withThreshold threshold := by
  unfold registerEndpoint
  by_cases hknown : (s.synTab.get (endpointKey e)).isSome
  · simp [withThreshold, hknown]
  · cases ha : a.stats <;> simp [withThreshold, hknown]

theorem request_withThreshold (a : Allocs) :
    processRequestPacket a (s.withThreshold threshold) p =
      (processRequestPacket a s p).map (fun s => s.withThreshold threshold) := by
  unfold processRequestPacket
  by_cases hwaits : (s.requests.get (pairKey p.src p.dst)).isSome
  · simp [withThreshold, hwaits]
  · by_cases hfull : s.requests.size ≥ maxPendingRequests
    · simp [withThreshold, hwaits, hfull]
    · cases ha : a.request with
      | false => simp [withThreshold, hwaits, hfull]
      | true =>
        cases hpayload : formatPayload a s.protocol p with
        | none => simp [withThreshold, hwaits, hfull, hpayload]
        | some payload => cases payload <;> simp [withThreshold, hwaits, hfull, hpayload]

theorem observe_withThreshold (e : Endpoint) (delta : Int) :
    observeResponse (s.withThreshold threshold) e delta =
      ((observeResponse s e delta).1.withThreshold threshold, (observeResponse s e delta).2) := by
  unfold observeResponse
  by_cases hknown : (s.synTab.get (endpointKey e)).isSome <;> simp [withThreshold, hknown]

theorem threshold_observe (e : Endpoint) (delta : Int) :
    (observeResponse s e delta).1.threshold = s.threshold := by
  rw [observeResponse]
  split <;> rfl

/-- What is done with an answered request does not depend on the threshold, and what is printed
grows when fewer latencies are below it. -/
theorem response_withThreshold
    (hfewer : ∀ delta, belowThreshold s delta = false →
      belowThreshold (s.withThreshold threshold) delta = false) :
    (processResponsePacket (s.withThreshold threshold) p).1 =
        (processResponsePacket s p).1.withThreshold threshold ∧
      (processResponsePacket s p).2 ⊆ (processResponsePacket (s.withThreshold threshold) p).2 := by
  have hsame : (s.withThreshold threshold).requests = s.requests := rfl
  unfold processResponsePacket
  rw [hsame]
  cases hslot : s.requests.get (pairKey p.dst p.src) with
  | none => exact ⟨rfl, List.Subset.refl _⟩
  | some req =>
    have hold := threshold_observe s p.src (tvDeltaUs p.tv req.tv)
    simp only [observe_withThreshold, finishResponse]
    refine ⟨rfl, List.append_subset.mpr ⟨List.subset_append_left _ _, ?_⟩⟩
    refine List.Subset.trans ?_ (List.subset_append_right _ _)
    cases hbelow : belowThreshold s (tvDeltaUs p.tv req.tv) with
    | true =>
      have hsuppressed : belowThreshold (observeResponse s p.src (tvDeltaUs p.tv req.tv)).1
          (tvDeltaUs p.tv req.tv) = true := by
        rw [← hbelow, belowThreshold, belowThreshold, hold]
      rw [hsuppressed, if_pos rfl]
      exact List.nil_subset _
    | false =>
      have hprinted : belowThreshold
          ((observeResponse s p.src (tvDeltaUs p.tv req.tv)).1.withThreshold threshold)
          (tvDeltaUs p.tv req.tv) = false := hfewer _ hbelow
      rw [hprinted]
      split
      · exact List.nil_subset _
      · exact List.Subset.refl _

theorem processUserPacket_withThreshold {a : Allocs} {r : Sniffer × List Event}
    (hfewer : ∀ delta, belowThreshold s delta = false →
      belowThreshold (s.withThreshold threshold) delta = false)
    (h : processUserPacket a s p = some r) :
    ∃ events, processUserPacket a (s.withThreshold threshold) p =
      some (r.1.withThreshold threshold, events) ∧ r.2 ⊆ events := by
  by_cases hidle : s.luaState = true ∨ s.protocol = .raw
  · rw [processUserPacket_idle hidle] at h
    rw [processUserPacket_idle (s := s.withThreshold threshold) hidle]
    cases h
    exact ⟨_, rfl, List.Subset.refl _⟩
  rw [not_or, Bool.not_eq_true] at hidle
  obtain ⟨hscript, hraw⟩ := hidle
  by_cases h0 : p.payloadSize = 0
  · rw [processUserPacket_empty hscript hraw h0] at h
    rw [processUserPacket_empty (s := s.withThreshold threshold) hscript hraw h0, expire_withThreshold,
      register_withThreshold]
    cases h
    refine ⟨_, congrArg (fun t => some (t, [])) ?_, List.Subset.refl _⟩
    split <;> rfl
  rw [processUserPacket_data hscript hraw h0] at h
  rw [processUserPacket_data (s := s.withThreshold threshold) hscript hraw h0, expire_withThreshold,
    direction_withThreshold]
  have hkept := (TablesOnly.direction (expireStaleRequests s p.tv) p).threshold.trans
    (threshold_expire s p.tv)
  generalize packetDirection (expireStaleRequests s p.tv) p = directed at h hkept ⊢
  obtain ⟨t, direction⟩ := directed
  cases direction with
  | unknown =>
    cases h
    exact ⟨_, rfl, List.Subset.refl _⟩
  | request =>
    simp only [request_withThreshold] at h ⊢
    obtain ⟨t', ht', rfl⟩ := Option.map_eq_some_iff.mp h
    rw [ht']
    exact ⟨_, rfl, List.Subset.refl _⟩
  | response =>
    cases h
    have hfewer' : ∀ delta, belowThreshold t delta = false →
        belowThreshold (t.withThreshold threshold) delta = false := by
      intro delta hdelta
      refine hfewer delta ?_
      rw [← hdelta, belowThreshold, belowThreshold, show t.threshold = s.threshold from hkept]
    obtain ⟨hstate, hprinted⟩ := response_withThreshold t threshold p hfewer'
    exact ⟨_, congrArg some (Prod.ext hstate rfl), hprinted⟩

theorem process_withThreshold (q : Packet)
    (hfewer : ∀ delta, belowThreshold s delta = false →
      belowThreshold (s.withThreshold threshold) delta = false) :
    ((s.withThreshold threshold).process q).1 = (s.process q).1.withThreshold threshold ∧
      (s.process q).2 ⊆ ((s.withThreshold threshold).process q).2 := by
  obtain ⟨events, hevents, hsub⟩ := processUserPacket_withThreshold s threshold q.toUserPacket hfewer
    (processUserPacket_eq_process s q)
  rw [processUserPacket_eq_process] at hevents
  rw [Option.some.inj hevents]
  exact ⟨rfl, hsub⟩

theorem Monitoring.threshold_process {s : Sniffer} (h : s.Monitoring) (q : Packet) :
    (s.process q).1.threshold = s.threshold :=
  (h.process_tablesOnly q).threshold.trans (threshold_expire s q.tv)

/-- A response that finds its request takes one sample, drops the request and prints the exchange
unless it is below the threshold. -/
theorem processResponsePacket_of_some {req : Request}
    (hreg : (s.synTab.get (endpointKey p.src)).isSome)
    (hslot : s.requests.get (pairKey p.dst p.src) = some req) :
    ((processResponsePacket s p).2 = .sample p.src (tvDeltaUs p.tv req.tv) ::
      if belowThreshold s (tvDeltaUs p.tv req.tv) then []
      else [.exchange p.tv p.dst p.src (tvDeltaUs p.tv req.tv) req.payload]) ∧
    (processResponsePacket s p).1.synTab.get (endpointKey p.src) =
      (s.synTab.get (endpointKey p.src)).map (fun stats =>
        statsObserverLatency stats (tvDeltaUs p.tv req.tv)) ∧
    (processResponsePacket s p).1.requests.get (pairKey p.dst p.src) = none := by
  have hobserved : observeResponse s p.src (tvDeltaUs p.tv req.tv) =
      ({ s with
        synTab := s.synTab.adjust (endpointKey p.src)
          (fun stats => statsObserverLatency stats (tvDeltaUs p.tv req.tv)) },
        [.sample p.src (tvDeltaUs p.tv req.tv)]) := by
    rw [observeResponse, if_pos hreg]
  simp only [processResponsePacket, hslot, hobserved, finishResponse]
  refine ⟨rfl, ?_, ?_⟩
  · rw [Table.get_adjust, if_pos rfl]
  · rw [Table.get_del, if_pos rfl]

theorem Monitoring.process_answer {s : Sniffer} (hs : s.Monitoring) {q : Packet} {req : Request}
    (h0 : q.payloadSize ≠ 0) (hreg : (s.synTab.get (endpointKey q.src)).isSome)
    (hslot : (expireStaleRequests s q.tv).requests.get (pairKey q.dst q.src) = some req) :
    ((s.process q).2 = .sample q.src (tvDeltaUs q.tv req.tv) ::
      if belowThreshold s (tvDeltaUs q.tv req.tv) then []
      else [.exchange q.tv q.dst q.src (tvDeltaUs q.tv req.tv) req.payload]) ∧
    (s.process q).1.synTab.get (endpointKey q.src) =
      (s.synTab.get (endpointKey q.src)).map (fun stats => statsObserverLatency
        (statsIncr stats false (int32 q.size.toNat)) (tvDeltaUs q.tv req.tv)) ∧
    (s.process q).1.requests.get (pairKey q.dst q.src) = none := by
  have hknown : ((expireStaleRequests s q.tv).synTab.get (endpointKey q.src)).isSome := by
    rw [synTab_expire]
    exact hreg
  have hdirection : packetDirection (expireStaleRequests s q.tv) q.toUserPacket =
      ({ expireStaleRequests s q.tv with
        synTab := (expireStaleRequests s q.tv).synTab.adjust (endpointKey q.src)
          (fun stats => statsIncr stats false (int32 q.size.toNat)) }, .response) := by
    rw [packetDirection, if_pos hknown]
  rcases hs.process_cases q with ⟨hzero, -⟩ | ⟨hzero, -⟩ | ⟨-, -, hproc⟩ | ⟨-, hd, -⟩ | ⟨-, hd, -⟩
  · exact absurd hzero h0
  · exact absurd hzero h0
  · have hadjust := (expireStaleRequests s q.tv).synTab.get_adjust (endpointKey q.src) (endpointKey q.src)
      (fun stats => statsIncr stats false (int32 q.size.toNat))
    rw [if_pos rfl, synTab_expire] at hadjust
    rw [hproc, hdirection]
    obtain ⟨hevents, hstats, hdropped⟩ := processResponsePacket_of_some
      { expireStaleRequests s q.tv with
        synTab := (expireStaleRequests s q.tv).synTab.adjust (endpointKey q.src)
          (fun stats => statsIncr stats false (int32 q.size.toNat)) } q.toUserPacket
      (by rw [synTab_expire, hadjust, Option.isSome_map]; exact hreg) hslot
    refine ⟨?_, ?_, hdropped⟩
    · rw [hevents, belowThreshold, belowThreshold, threshold_expire]
    · rw [hstats, synTab_expire, hadjust, Option.map_map]
      rfl
  · rw [hdirection] at hd
    cases hd
  · rw [hdirection] at hd
    cases hd

end Sniffer

namespace Capture

variable {r : Capture} {j : Fin r.packets.length} {client server : Endpoint} {req : Request}

theorem before_succ (j : Fin r.packets.length) :
    r.before (j + 1) = ((r.before j).process (r.packet j)).1 := r.trace.next j

theorem threshold_before {n : Nat} (hn : n ≤ r.packets.length) :
    (r.before n).threshold = r.opts.threshold := by
  refine r.trace.invariant (I := fun n s => n ≤ r.packets.length → s.threshold = r.opts.threshold)
    (fun _ => rfl) (fun k ih hk => ?_) n hn hn
  have hmonitoring := r.monitoring (Nat.le_of_lt k.isLt)
  exact (hmonitoring.threshold_process _).trans (ih (Nat.le_of_lt k.isLt))

/-- The same packets under another threshold. -/
def withThreshold (r : Capture) (threshold : Int) : Capture :=
  { r with opts := { r.opts with threshold := threshold } }

section Lower

variable {threshold : Int} (hfewer : ∀ s : Sniffer, s.threshold = r.opts.threshold →
  ∀ delta, belowThreshold s delta = false → belowThreshold (s.withThreshold threshold) delta = false)

include hfewer

theorem before_withThreshold {n : Nat} (hn : n ≤ r.packets.length) :
    (r.withThreshold threshold).before n = (r.before n).withThreshold threshold := by
  induction n with
  | zero => rfl
  | succ n ih =>
    let k : Fin r.packets.length := ⟨n, hn⟩
    have hstep : (r.withThreshold threshold).before (k + 1) =
        (((r.withThreshold threshold).before k).process (r.packet k)).1 :=
      (r.withThreshold threshold).trace.next k
    have hlow := hfewer (r.before k) (threshold_before (Nat.le_of_lt hn))
    change (r.withThreshold threshold).before (k + 1) = (r.before (k + 1)).withThreshold threshold
    rw [hstep, ih (Nat.le_of_lt hn), (Sniffer.process_withThreshold _ _ _ hlow).1, before_succ]

theorem events_withThreshold (j : Fin r.packets.length) :
    r.events j ⊆ (r.withThreshold threshold).events j := by
  have hlow := hfewer (r.before j) (threshold_before (Nat.le_of_lt j.isLt))
  have hevents : (r.withThreshold threshold).events j =
      (((r.withThreshold threshold).before j).process (r.packet j)).2 := rfl
  rw [hevents, before_withThreshold hfewer (Nat.le_of_lt j.isLt)]
  exact (Sniffer.process_withThreshold _ _ _ hlow).2

end Lower

theorem Responds.process (hr : r.Responds j client server) (hslot : r.slot j client server = some req) :
    (r.events j = .sample server (tvDeltaUs (r.packet j).tv req.tv) ::
      if belowThreshold (r.before j) (tvDeltaUs (r.packet j).tv req.tv) then []
      else [.exchange (r.packet j).tv client server (tvDeltaUs (r.packet j).tv req.tv) req.payload]) ∧
    (r.before (j + 1)).synTab.get (endpointKey server) =
      ((r.before j).synTab.get (endpointKey server)).map (fun stats => statsObserverLatency
        (statsIncr stats false (int32 (r.packet j).size.toNat)) (tvDeltaUs (r.packet j).tv req.tv)) ∧
    (r.before (j + 1)).requests.get (pairKey client server) = none := by
  obtain ⟨⟨hpos, rfl, rfl⟩, hreg⟩ := hr
  rw [before_succ]
  exact (r.monitoring (Nat.le_of_lt j.isLt)).process_answer (ne_of_gt hpos) hreg hslot

end Capture

/-- The threshold filter is exact: the exchange is printed when the latency reaches the threshold or
there is none, the sample is counted and the request dropped either way, and a lower threshold
prints no less. -/
structure ExactThreshold (threshold : Int) : Prop where
  exact : ∀ r : Capture, r.opts.threshold = threshold → ∀ j client server req,
    r.Responds j client server → r.slot j client server = some req →
      (r.events j = .sample server (tvDeltaUs (r.packet j).tv req.tv) ::
        if threshold = 0 ∨ 1000 * threshold ≤ tvDeltaUs (r.packet j).tv req.tv then
          [.exchange (r.packet j).tv client server (tvDeltaUs (r.packet j).tv req.tv) req.payload]
        else []) ∧
      (r.before (j + 1)).synTab.get (endpointKey server) =
        ((r.before j).synTab.get (endpointKey server)).map (fun stats => statsObserverLatency
          (statsIncr stats false (int32 (r.packet j).size.toNat))
          (tvDeltaUs (r.packet j).tv req.tv)) ∧
      (r.before (j + 1)).requests.get (pairKey client server) = none
  monotone : ∀ r : Capture, r.opts.threshold = threshold → ∀ lower, 0 < lower → lower ≤ threshold →
    ∀ j, r.events j ⊆ (r.withThreshold lower).events j

theorem exactThreshold_of_le {threshold : Int} (h0 : 0 ≤ threshold) (hle : threshold ≤ 2147483) :
    ExactThreshold threshold where
  exact r hopts j client server req hr hslot := by
    have hthreshold : (r.before j).threshold = threshold :=
      (Capture.threshold_before (Nat.le_of_lt j.isLt)).trans hopts
    have hbelow := belowThreshold_eq_false_iff (show (r.before j).threshold * 1000 < 2 ^ 31 by omega)
      (by omega) (tvDeltaUs (r.packet j).tv req.tv)
    obtain ⟨hevents, hstats, hdropped⟩ := hr.process hslot
    refine ⟨?_, hstats, hdropped⟩
    rw [hevents]
    rw [hthreshold] at hbelow
    by_cases hprinted : threshold = 0 ∨ 1000 * threshold ≤ tvDeltaUs (r.packet j).tv req.tv
    · rw [hbelow.mpr hprinted, if_pos hprinted, if_neg Bool.false_ne_true]
    · rw [if_neg hprinted, if_pos (Bool.eq_true_of_not_eq_false (mt hbelow.mp hprinted))]
  monotone r hopts lower hlower hle' := by
    refine Capture.events_withThreshold fun s hs delta hprinted => ?_
    have hbelow := belowThreshold_eq_false_iff (show s.threshold * 1000 < 2 ^ 31 by omega) (by omega) delta
    have hlow := belowThreshold_eq_false_iff
      (show (s.withThreshold lower).threshold * 1000 < 2 ^ 31 from (by omega : lower * 1000 < 2 ^ 31))
      (le_of_lt hlower) delta
    refine hlow.mpr (Or.inr ?_)
    have hreached := hbelow.mp hprinted
    change 1000 * lower ≤ delta
    omega

namespace Monitor

variable {late tv : Timeval} (client server : Endpoint) (size : UInt32)

theorem start_opened : start.next ⟨late, .opening server, true⟩ =
    { start.register server with lastExpire := some late } := by
  rw [next, step_opening rfl, if_pos rfl]
  rfl

variable (hearly : tvDeltaUs tv late < expireIntervalUs)

include hearly

theorem expire_opened : (start.next ⟨late, .opening server, true⟩).expire tv =
    start.next ⟨late, .opening server, true⟩ :=
  expire_eq_self (by rw [start_opened]) hearly

/-- The first request after a handshake is admitted. -/
theorem admits_opened (hne : client ≠ server) :
    (start.next ⟨late, .opening server, true⟩).Admits ⟨tv, .data client server size, true⟩ client server := by
  have hempty : (start.next ⟨late, .opening server, true⟩).pending = ∅ := by
    rw [start_opened]
    rfl
  refine ⟨⟨size, rfl, ?_, registered_next_iff.mpr (Or.inr ⟨rfl, rfl⟩)⟩, ?_, ?_, rfl⟩
  · rw [registered_next_iff]
    rintro (hold | ⟨hnamed, -⟩)
    · exact absurd hold (by simp [Registered, start])
    · exact hne (Signal.opening.inj hnamed).symm
  · rw [expire_opened server hearly, hempty, Finmap.lookup_empty]
  · rw [expire_opened server hearly, full, hempty]
    rfl

theorem lastExpire_asked :
    ((start.next ⟨late, .opening server, true⟩).next
      ⟨tv, .data client server size, true⟩).lastExpire = some late := by
  rw [lastExpire_next, expire_opened server hearly, start_opened]

end Monitor

theorem fourBytes_nonneg : (0 : Int) ≤ 4 := Int.natCast_nonneg 4

theorem ping_readable : (4 : Int) ≤ ([80, 73, 78, 71] : List UInt8).length := Int.le_refl 4

theorem pong_readable : (4 : Int) ≤ ([80, 79, 78, 71] : List UInt8).length := Int.le_refl 4

/-- A handshake, a request and its answer. The request is stamped with an earlier time than the
handshake, so no sweep runs in between however late the answer is. -/
def slowCapture (threshold : Int) (late : Timeval) : Capture where
  opts := { redisOptions with threshold := threshold }
  datalink := .raw
  packets :=
    [⟨⟨0x02, true, late, 1, 2, 1000, 6379, 0, 0, 0, 60, 0, 0, []⟩, emptyPayload_readable,
        emptyPayload_readable, Allocs.all⟩,
      ⟨⟨0x18, true, ⟨0, 0⟩, 1, 2, 1000, 6379, 0, 0, 0, 64, 4, 4, [80, 73, 78, 71]⟩,
        fourBytes_nonneg, ping_readable, Allocs.all⟩,
      ⟨⟨0x18, true, late, 2, 1, 6379, 1000, 0, 0, 0, 64, 4, 4, [80, 79, 78, 71]⟩,
        fourBytes_nonneg, pong_readable, Allocs.all⟩]
  noScript := redisOptions_noScript
  notRaw := redisOptions_notRaw

section Slow

variable (threshold : Int) (late : Timeval)

def slowAnswer : Fin (slowCapture threshold late).packets.length := ⟨2, Nat.lt_succ_self 2⟩

theorem slowCapture_toMonitor :
    ((slowCapture threshold late).before 2).toMonitor =
      (Monitor.start.next ⟨late, .opening ⟨2, 6379⟩, true⟩).next
        ⟨⟨0, 0⟩, .data ⟨1, 1000⟩ ⟨2, 6379⟩ 64, true⟩ := by
  have h₁ := (slowCapture threshold late).monitor.next ⟨0, Nat.zero_lt_succ 2⟩
  have h₂ := (slowCapture threshold late).monitor.next ⟨1, Nat.one_lt_succ_succ 1⟩
  have hopens : (slowCapture threshold late).monitor.input ⟨0, Nat.zero_lt_succ 2⟩ =
      ⟨late, .opening ⟨2, 6379⟩, true⟩ := by
    change UserPacket.arrival ⟨0x02, true, late, 1, 2, 1000, 6379, 0, 0, 0, 60, 0, 0, []⟩ Allocs.all = _
    have hack : (0x02 : UInt8) &&& 0x10 = 0 := by decide
    simp [UserPacket.arrival, UserPacket.syn, UserPacket.named, UserPacket.dst, Allocs.keepsEndpoint,
      Allocs.all, hack]
  have hasks : (slowCapture threshold late).monitor.input ⟨1, Nat.one_lt_succ_succ 1⟩ =
      ⟨⟨0, 0⟩, .data ⟨1, 1000⟩ ⟨2, 6379⟩ 64, true⟩ := rfl
  rw [(slowCapture threshold late).monitor_start, hopens] at h₁
  rw [hasks] at h₂
  exact h₂.trans (congrArg (Monitor.next · _) h₁)

theorem slowCapture_answers (hlate : 0 ≤ tvDeltaUs late ⟨0, 0⟩) :
    (slowCapture threshold late).Responds (slowAnswer threshold late) ⟨1, 1000⟩ ⟨2, 6379⟩ ∧
      ∃ req, (slowCapture threshold late).slot (slowAnswer threshold late) ⟨1, 1000⟩ ⟨2, 6379⟩ = some req ∧
        req.tv = ⟨0, 0⟩ := by
  have hbefore := slowCapture_toMonitor threshold late
  -- The request is not later than the mark of the handshake.
  have hadd := tvDeltaUs_add late ⟨0, 0⟩ late
  rw [tvDeltaUs_self] at hadd
  have hearly : tvDeltaUs ⟨0, 0⟩ late < expireIntervalUs := by
    rw [expireIntervalUs]
    omega
  have hadmits := Monitor.admits_opened ⟨1, 1000⟩ ⟨2, 6379⟩ 64 hearly (by decide)
  have hswept := Monitor.expire_eq_self (Monitor.lastExpire_asked ⟨1, 1000⟩ ⟨2, 6379⟩ 64 hearly)
    (show tvDeltaUs late late < expireIntervalUs by rw [tvDeltaUs_self]; decide)
  have hlook : ((slowCapture threshold late).monitorRun.swept (slowAnswer threshold late)).pending.lookup
        (⟨1, 1000⟩, ⟨2, 6379⟩) =
      ((slowCapture threshold late).slot (slowAnswer threshold late) ⟨1, 1000⟩ ⟨2, 6379⟩).map
        Request.tv := Capture.lookup_swept
  have hstate : (slowCapture threshold late).monitorRun.swept (slowAnswer threshold late) =
      ((slowCapture threshold late).before 2).toMonitor.expire late := rfl
  rw [hstate, hbefore, hswept, hadmits.lookup_next] at hlook
  obtain ⟨req, hreq, htv⟩ := Option.map_eq_some_iff.mp hlook.symm
  obtain ⟨-, -, -, hserver⟩ := hadmits.1
  refine ⟨⟨⟨?_, rfl, rfl⟩, ?_⟩, req, hreq, htv⟩
  · exact (by decide : (0 : Int) < 4)
  · refine Capture.registered_iff.mpr ?_
    change ((slowCapture threshold late).before 2).toMonitor.Registered ⟨2, 6379⟩
    rw [hbefore]
    exact hserver.next _

end Slow

end Tcpkit
