import Tcpkit.CaptureBounds
import Tcpkit.EndpointKeys
import Tcpkit.Monitor

/-! In statistics mode the sniffer computes the monitor: each part of
`process_user_packet` is one operation on the maps its two tables stand for. -/

namespace Tcpkit

open MachineInt

/-- A packet as the parser hands it over, whose payload can be read as far as it
declares, with the allocations that succeed while it is processed. -/
structure Packet extends UserPacket where
  nonneg : 0 ≤ payloadSize
  readable : payloadSize ≤ payload.length
  allocs : Allocs

theorem emptyPayload_readable : (0 : Int) ≤ ([] : List UInt8).length := Int.le_refl 0

/-- The record under which a request packet waits. -/
def UserPacket.request (p : UserPacket) (protocol : ProtocolType) : Request where
  tv := p.tv
  seq := int32 p.seq.toNat
  size := summaryLength (protocol.summary (p.payload.take p.payloadSize.toNat))
  payload := protocol.summary (p.payload.take p.payloadSize.toNat)

def Allocs.keepsRequest (a : Allocs) : Bool := a.request && a.payload && (a.entry && a.key)

def Allocs.keepsEndpoint (a : Allocs) : Bool := a.stats && (a.entry && a.key)

def UserPacket.arrival (p : UserPacket) (a : Allocs) : Arrival where
  tv := p.tv
  signal :=
    if p.payloadSize = 0 then if p.syn then .opening p.named else .silent
    else .data p.src p.dst p.size
  stored := if p.payloadSize = 0 then a.keepsEndpoint else a.keepsRequest

def Packet.arrival (p : Packet) : Arrival := p.toUserPacket.arrival p.allocs

def samplesOf (events : List Event) : List (Endpoint × Int) :=
  events.filterMap fun
    | .sample target latency => some (target, latency)
    | _ => none

theorem mem_samplesOf {events : List Event} {target : Endpoint} {latency : Int} :
    (target, latency) ∈ samplesOf events ↔ .sample target latency ∈ events := by
  rw [samplesOf, List.mem_filterMap]
  constructor
  · intro hh
    rcases hh with ⟨event, hm, he⟩
    cases event <;> cases he
    exact hm
  · intro hm
    exact ⟨_, hm, rfl⟩

theorem samplesOf_append (xs ys : List Event) : samplesOf (xs ++ ys) = samplesOf xs ++ samplesOf ys :=
  List.filterMap_append

namespace Sniffer

noncomputable def toMonitor (s : Sniffer) : Monitor where
  stats := s.synTab.toMap.comap endpointKey endpointKey_injective id
  pending := s.requests.toMap.comap slotKey slotKey_injective Request.tv
  lastExpire := if s.expirePrimed then some s.lastExpire else none

/-- Statistics mode, with tables whose keys all come from endpoints. -/
structure Monitoring (s : Sniffer) : Prop where
  noScript : s.luaState = false
  notRaw : s.protocol ≠ .raw
  synKeys : ∀ key ∈ s.synTab.toMap.keys, key ∈ Set.range endpointKey
  requestKeys : ∀ key ∈ s.requests.toMap.keys, key ∈ Set.range slotKey
  atMost : s.requests.toMap.keys.card ≤ maxPendingRequests

@[simp]
theorem lookup_stats (s : Sniffer) (e : Endpoint) :
    s.toMonitor.stats.lookup e = s.synTab.get (endpointKey e) := by
  simp [toMonitor]

@[simp]
theorem lookup_pending (s : Sniffer) (client server : Endpoint) :
    s.toMonitor.pending.lookup (client, server) =
      (s.requests.get (pairKey client server)).map Request.tv := by
  simp [toMonitor, slotKey]

theorem registered_iff (s : Sniffer) (e : Endpoint) :
    s.toMonitor.Registered e ↔ (s.synTab.get (endpointKey e)).isSome := by
  rw [Monitor.Registered, lookup_stats]

theorem toMonitor_expire (s : Sniffer) (now : Timeval) :
    (expireStaleRequests s now).toMonitor = s.toMonitor.expire now := by
  rw [expireStaleRequests, Monitor.expire]
  by_cases hp : s.expirePrimed
  · by_cases hd : tvDeltaUs now s.lastExpire < expireIntervalUs
    · simp [toMonitor, hp, hd]
    · simp only [toMonitor, hp, hd, Bool.not_true, Bool.false_eq_true, if_false, if_true,
        requestsExpire, Table.toMap_sweep, Monitor.mk.injEq, true_and, and_true]
      apply Finmap.comap_filterValues
      intro req
      simp only [requestExpired, ← decide_not, gt_iff_lt, not_lt]
  · simp [toMonitor, hp]

theorem toMonitor_adjust (s : Sniffer) (e : Endpoint) (f : QueryStats → QueryStats) :
    toMonitor { s with synTab := s.synTab.adjust (endpointKey e) f } =
      { s.toMonitor with stats := s.toMonitor.stats.adjust e f } := by
  have hstats := Finmap.comap_adjust endpointKey_injective id s.synTab.toMap e (u := f) (v := f)
    fun _ => rfl
  simp only [toMonitor, Table.toMap_adjust, hstats]

theorem toMonitor_direction (s : Sniffer) (p : UserPacket) :
    (packetDirection s p).1.toMonitor = s.toMonitor.count p.src p.dst p.size ∧
      (packetDirection s p).2 = s.toMonitor.direction p.src p.dst := by
  rw [packetDirection, Monitor.count, Monitor.direction]
  simp only [registered_iff]
  by_cases hs : (s.synTab.get (endpointKey p.src)).isSome
  · rw [if_pos hs, if_pos hs, if_pos hs]
    exact ⟨toMonitor_adjust _ _ _, rfl⟩
  · rw [if_neg hs, if_neg hs, if_neg hs]
    by_cases hd : (s.synTab.get (endpointKey p.dst)).isSome
    · rw [if_pos hd, if_pos hd]
      exact ⟨toMonitor_adjust _ _ _, rfl⟩
    · rw [if_neg hd, if_neg hd]
      refine ⟨?_, rfl⟩
      -- adjusting the counters of an endpoint that is not there changes nothing
      have hnone : s.toMonitor.stats.lookup p.dst = none := by
        simpa using hd
      simp only [Finmap.adjust, hnone]

theorem registerEndpoint_eq (a : Allocs) (s : Sniffer) (e : Endpoint) :
    registerEndpoint a s e = if a.keepsEndpoint then registerEndpoint Allocs.all s e else s := by
  unfold registerEndpoint Allocs.keepsEndpoint
  by_cases hg : (s.synTab.get (endpointKey e)).isSome
  · simp only [if_pos hg, ite_self]
  · rw [if_neg hg]
    cases a.stats with
    | false => rfl
    | true =>
      cases hok : a.entry && a.key with
      | false =>
        rw [Table.add_of_alloc_failed hok]
        rfl
      | true =>
        obtain ⟨he, hk⟩ := Bool.and_eq_true_iff.mp hok
        rw [he, hk, if_neg hg]
        rfl

theorem toMonitor_register (a : Allocs) (s : Sniffer) (e : Endpoint) :
    (registerEndpoint a s e).toMonitor =
      if a.keepsEndpoint then s.toMonitor.register e else s.toMonitor := by
  rw [registerEndpoint_eq, apply_ite toMonitor]
  congr 1
  rw [registerEndpoint, Monitor.register]
  by_cases h : (s.synTab.get (endpointKey e)).isSome
  · obtain ⟨stats, hs⟩ := Option.isSome_iff_exists.mp h
    have hlook : s.toMonitor.stats.lookup e = some stats := by rw [lookup_stats, hs]
    rw [if_pos h]
    simp only [Finmap.addNew, hlook]
  · have hstats := Finmap.comap_addNew endpointKey_injective id s.synTab.toMap e
      (QueryStats.zeroed e)
    rw [if_neg h]
    simp only [Allocs.all, if_true, toMonitor, Table.toMap_add, hstats, id_eq]

theorem toMonitor_observe (s : Sniffer) (target : Endpoint) (delta : Int) :
    (observeResponse s target delta).1.toMonitor = s.toMonitor.observe target delta ∧
      samplesOf (observeResponse s target delta).2 =
        if s.toMonitor.Registered target then [(target, delta)] else [] := by
  rw [observeResponse, Monitor.observe]
  simp only [registered_iff]
  by_cases h : (s.synTab.get (endpointKey target)).isSome
  · rw [if_pos h, if_pos h]
    exact ⟨toMonitor_adjust _ _ _, rfl⟩
  · have hnone : s.toMonitor.stats.lookup target = none := by
      simpa using h
    rw [if_neg h, if_neg h]
    refine ⟨?_, rfl⟩
    simp only [Finmap.adjust, hnone]

theorem toMonitor_finish (s : Sniffer) (p : UserPacket) (req : Request) :
    (finishResponse s p req).1.toMonitor = s.toMonitor.forget (p.dst, p.src) ∧
      samplesOf (finishResponse s p req).2 = [] := by
  have hpending := Finmap.comap_erase slotKey_injective Request.tv s.requests.toMap (p.dst, p.src)
  constructor
  · simp only [finishResponse, Monitor.forget, toMonitor, Table.toMap_del]
    exact congrArg (Monitor.mk _ · _) hpending
  · simp only [finishResponse]
    split <;> rfl

theorem toMonitor_response (s : Sniffer) (p : UserPacket) :
    ((processResponsePacket s p).1.toMonitor, samplesOf (processResponsePacket s p).2) =
      s.toMonitor.answer p.dst p.src p.tv := by
  rw [processResponsePacket, Monitor.answer]
  rw [lookup_pending]
  cases h : s.requests.get (pairKey p.dst p.src) with
  | none => rfl
  | some req =>
    have hobs := toMonitor_observe s p.src (tvDeltaUs p.tv req.tv)
    have hfin := toMonitor_finish (observeResponse s p.src (tvDeltaUs p.tv req.tv)).1 p req
    simp only [Option.map_some]
    rw [hfin.1, hobs.1]
    rw [samplesOf_append, hobs.2, hfin.2, List.append_nil]

theorem Monitoring.size_card {s : Sniffer} (h : s.Monitoring) :
    s.requests.size = s.requests.toMap.keys.card := by
  have hmost := h.atMost
  unfold maxPendingRequests at hmost
  rw [s.requests.size_eq]
  exact int32_eq_self (by omega) (by omega)

theorem Monitoring.size_eq {s : Sniffer} (h : s.Monitoring) :
    s.requests.size = s.toMonitor.pending.keys.card := by
  have hcard : s.toMonitor.pending.keys.card = s.requests.toMap.keys.card :=
    Finmap.card_comap slotKey_injective Request.tv _ h.requestKeys
  rw [h.size_card, hcard]

/-- A request is dropped or enters its slot under the time of its packet. -/
theorem processRequestPacket_eq {a : Allocs} {s : Sniffer} {p : UserPacket} (hs : s.Monitoring)
    (h : p.payloadSize ≤ p.payload.length) :
    processRequestPacket a s p =
      some (if (s.requests.get (pairKey p.src p.dst)).isSome ∨ s.toMonitor.full ∨ ¬a.keepsRequest
        then s else { s with
          requests := s.requests.add true true (pairKey p.src p.dst) (p.request s.protocol) }) := by
  have ht := formatPayload_eq h a s.protocol
  have hfull : s.requests.size ≥ maxPendingRequests ↔ s.toMonitor.full = true := by
    rw [hs.size_eq, Monitor.full, decide_eq_true_iff]
  simp only [processRequestPacket, hfull, ht]
  by_cases hg : (s.requests.get (pairKey p.src p.dst)).isSome
  · simp only [hg, if_true, true_or]
  · by_cases hf : s.toMonitor.full
    · simp only [hg, hf, if_true, true_or, or_true]
      rfl
    · simp only [hg, hf, Bool.false_eq_true, if_false, false_or]
      rw [Allocs.keepsRequest]
      cases a.request with
      | false => rfl
      | true =>
        cases a.payload with
        | false => rfl
        | true =>
          cases hok : a.entry && a.key with
          | false =>
            simp only [Table.add_of_alloc_failed hok]
            rfl
          | true =>
            obtain ⟨he, hk⟩ := Bool.and_eq_true_iff.mp hok
            rw [he, hk]
            rfl

theorem toMonitor_add (s : Sniffer) (client server : Endpoint) (req : Request) :
    toMonitor { s with requests := s.requests.add true true (pairKey client server) req } =
      { s.toMonitor with pending := s.toMonitor.pending.addNew (client, server) req.tv } := by
  have hpending := Finmap.comap_addNew slotKey_injective Request.tv s.requests.toMap
    (client, server) req
  simp only [toMonitor, Table.toMap_add]
  exact congrArg (Monitor.mk _ · _) hpending

theorem toMonitor_request {a : Allocs} {s s' : Sniffer} {p : UserPacket} (hs : s.Monitoring)
    (h : p.payloadSize ≤ p.payload.length) (hstep : processRequestPacket a s p = some s') :
    s'.toMonitor =
      if a.keepsRequest then s.toMonitor.enter (p.src, p.dst) p.tv else s.toMonitor := by
  rw [processRequestPacket_eq hs h] at hstep
  cases hstep
  cases hk : a.keepsRequest with
  | false => simp
  | true =>
    simp only [not_true_eq_false, or_false, if_true, Monitor.enter, lookup_pending,
      Option.isSome_map]
    split
    · rfl
    · rw [toMonitor_add]
      rfl

theorem Monitoring.withSynTab {s : Sniffer} (h : s.Monitoring) {t : Table QueryStats}
    (ht : ∀ key ∈ t.toMap.keys, key ∈ s.synTab.toMap.keys ∨ key ∈ Set.range endpointKey) :
    Monitoring { s with synTab := t } :=
  ⟨h.noScript, h.notRaw, fun key hk => (ht key hk).elim (h.synKeys key) id, h.requestKeys, h.atMost⟩

theorem Monitoring.withRequests {s : Sniffer} (h : s.Monitoring) {t : Table Request}
    (ht : t.toMap.keys ⊆ s.requests.toMap.keys) : Monitoring { s with requests := t } :=
  ⟨h.noScript, h.notRaw, h.synKeys, fun key hk => h.requestKeys key (ht hk),
    (Int.ofNat_le.mpr (Finset.card_le_card ht)).trans h.atMost⟩

theorem Monitoring.adjust {s : Sniffer} (h : s.Monitoring) (key : CString)
    (f : QueryStats → QueryStats) : Monitoring { s with synTab := s.synTab.adjust key f } := by
  apply h.withSynTab
  rw [Table.toMap_adjust, Finmap.keys_adjust]
  exact fun key hk => Or.inl hk

theorem Monitoring.expire {s : Sniffer} (h : s.Monitoring) (now : Timeval) :
    (expireStaleRequests s now).Monitoring := by
  rw [expireStaleRequests]
  split
  · exact ⟨h.noScript, h.notRaw, h.synKeys, h.requestKeys, h.atMost⟩
  · split
    · exact h
    · have hsub : (requestsExpire s.requests now requestTimeoutUs).toMap.keys ⊆
          s.requests.toMap.keys := by
        rw [requestsExpire, Table.toMap_sweep]
        exact Finmap.keys_filterValues_subset _ _
      have hr := h.withRequests hsub
      exact ⟨hr.noScript, hr.notRaw, hr.synKeys, hr.requestKeys, hr.atMost⟩

theorem Monitoring.direction {s : Sniffer} (h : s.Monitoring) (p : UserPacket) :
    (packetDirection s p).1.Monitoring := by
  rw [packetDirection]
  split
  · exact h.adjust _ _
  · split
    · exact h.adjust _ _
    · exact h

theorem Monitoring.register {s : Sniffer} (h : s.Monitoring) (a : Allocs) (e : Endpoint) :
    (registerEndpoint a s e).Monitoring := by
  rw [registerEndpoint_eq]
  rw [registerEndpoint]
  split
  · split
    · exact h
    · apply h.withSynTab
      intro key hk
      simp only [Allocs.all] at hk
      rw [Table.toMap_add, Finmap.keys_addNew, Finset.mem_insert] at hk
      exact hk.symm.imp id fun he => ⟨e, he.symm⟩
  · exact h

theorem Monitoring.observe {s : Sniffer} (h : s.Monitoring) (target : Endpoint) (delta : Int) :
    (observeResponse s target delta).1.Monitoring := by
  rw [observeResponse]
  split
  · exact h.adjust _ _
  · exact h

theorem Monitoring.finish {s : Sniffer} (h : s.Monitoring) (p : UserPacket) (req : Request) :
    (finishResponse s p req).1.Monitoring := by
  apply h.withRequests
  rw [Table.toMap_del, Finmap.keys_erase]
  exact Finset.erase_subset _ _

theorem Monitoring.response {s : Sniffer} (h : s.Monitoring) (p : UserPacket) :
    (processResponsePacket s p).1.Monitoring := by
  rw [processResponsePacket]
  cases s.requests.get (pairKey p.dst p.src) with
  | none => exact h
  | some req => exact (h.observe _ _).finish p req

theorem Monitoring.request {a : Allocs} {s s' : Sniffer} {p : UserPacket} (hs : s.Monitoring)
    (h : p.payloadSize ≤ p.payload.length) (hstep : processRequestPacket a s p = some s') :
    s'.Monitoring := by
  rw [processRequestPacket_eq hs h] at hstep
  cases hstep
  split
  · exact hs
  · rename_i hroom
    have hkeys := congrArg Finset.card
      (Finmap.keys_addNew (pairKey p.src p.dst) (p.request s.protocol) s.requests.toMap)
    have hle := Finset.card_insert_le (pairKey p.src p.dst) s.requests.toMap.keys
    have hfull : ¬maxPendingRequests ≤ s.toMonitor.pending.keys.card :=
      fun hf => hroom (Or.inr (Or.inl (decide_eq_true hf)))
    have hcard : s.toMonitor.pending.keys.card = s.requests.toMap.keys.card :=
      Finmap.card_comap slotKey_injective Request.tv _ hs.requestKeys
    refine ⟨hs.noScript, hs.notRaw, hs.synKeys, fun key hk => ?_, ?_⟩
    · simp only [Table.toMap_add, Finmap.keys_addNew, Finset.mem_insert] at hk
      rcases hk with rfl | hk
      · exact ⟨(p.src, p.dst), rfl⟩
      · exact hs.requestKeys key hk
    · simp only [Table.toMap_add]
      omega

theorem Monitoring.create {opts : Options} (hscript : opts.script = none)
    (hraw : opts.protocol ≠ .raw) (datalink : LinkType) :
    (snifferCreate opts datalink).Monitoring := by
  refine ⟨by simp [snifferCreate, hscript], hraw, ?_, ?_, ?_⟩
  · simp [snifferCreate, Table.toMap_create]
  · simp [snifferCreate, Table.toMap_create]
  · simp [snifferCreate, Table.toMap_create, maxPendingRequests]

theorem toMonitor_create (opts : Options) (datalink : LinkType) :
    (snifferCreate opts datalink).toMonitor = Monitor.start := by
  simp [toMonitor, snifferCreate, Table.toMap_create, Finmap.comap_empty, Monitor.start]

def process (s : Sniffer) (p : Packet) : Sniffer × List Event :=
  (processUserPacket p.allocs s p.toUserPacket).get (processUserPacket_isSome p.readable _ s)

theorem processUserPacket_eq_process (s : Sniffer) (p : Packet) :
    processUserPacket p.allocs s p.toUserPacket = some (s.process p) := by
  simp [process]

/-- Everything the processing of a packet can be in statistics mode. -/
theorem Monitoring.process_cases {s : Sniffer} (h : s.Monitoring) (p : Packet) :
    (p.payloadSize = 0 ∧ p.syn = true ∧
      s.process p = (registerEndpoint p.allocs (expireStaleRequests s p.tv) p.named, [])) ∨
    (p.payloadSize = 0 ∧ p.syn = false ∧ s.process p = (expireStaleRequests s p.tv, [])) ∨
    (p.payloadSize ≠ 0 ∧ (packetDirection (expireStaleRequests s p.tv) p.toUserPacket).2 = .response ∧
      s.process p = processResponsePacket
        (packetDirection (expireStaleRequests s p.tv) p.toUserPacket).1 p.toUserPacket) ∨
    (p.payloadSize ≠ 0 ∧ (packetDirection (expireStaleRequests s p.tv) p.toUserPacket).2 = .request ∧
      ∃ s', processRequestPacket p.allocs
          (packetDirection (expireStaleRequests s p.tv) p.toUserPacket).1 p.toUserPacket = some s' ∧
        s.process p = (s', [])) ∨
    (p.payloadSize ≠ 0 ∧ (packetDirection (expireStaleRequests s p.tv) p.toUserPacket).2 = .unknown ∧
      s.process p = ((packetDirection (expireStaleRequests s p.tv) p.toUserPacket).1, [])) := by
  have hrun := processUserPacket_eq_process s p
  by_cases h0 : p.payloadSize = 0
  · rw [processUserPacket_empty h.noScript h.notRaw h0] at hrun
    cases hsyn : p.syn with
    | true =>
      rw [if_pos hsyn] at hrun
      exact Or.inl ⟨h0, rfl, (Option.some.inj hrun).symm⟩
    | false =>
      rw [if_neg (Bool.eq_false_iff.mp hsyn)] at hrun
      exact Or.inr (Or.inl ⟨h0, rfl, (Option.some.inj hrun).symm⟩)
  · rw [processUserPacket_data h.noScript h.notRaw h0] at hrun
    cases hd : (packetDirection (expireStaleRequests s p.tv) p.toUserPacket).2 with
    | response =>
      simp only [hd] at hrun
      exact Or.inr (Or.inr (Or.inl ⟨h0, rfl, (Option.some.inj hrun).symm⟩))
    | request =>
      simp only [hd] at hrun
      obtain ⟨s', hs', hproc⟩ := Option.map_eq_some_iff.mp hrun
      exact Or.inr (Or.inr (Or.inr (Or.inl ⟨h0, rfl, s', hs', hproc.symm⟩)))
    | unknown =>
      simp only [hd] at hrun
      exact Or.inr (Or.inr (Or.inr (Or.inr ⟨h0, rfl, (Option.some.inj hrun).symm⟩)))

/-- Processing a packet in statistics mode is one step of the monitor. -/
theorem Monitoring.process_refines {s : Sniffer} (h : s.Monitoring) (p : Packet) :
    (s.process p).1.Monitoring ∧
      ((s.process p).1.toMonitor, samplesOf (s.process p).2) = s.toMonitor.step p.arrival := by
  have hexp := h.expire p.tv
  have hdirected := hexp.direction p.toUserPacket
  have hmon := toMonitor_expire s p.tv
  obtain ⟨hcount, hdir⟩ := toMonitor_direction (expireStaleRequests s p.tv) p.toUserPacket
  rw [hmon] at hcount hdir
  have hopen (h0 : p.payloadSize = 0) : p.arrival.stored = p.allocs.keepsEndpoint := if_pos h0
  have hkeep (h0 : p.payloadSize ≠ 0) : p.arrival.stored = p.allocs.keepsRequest := if_neg h0
  have hdata (h0 : p.payloadSize ≠ 0) : p.arrival.signal = .data p.src p.dst p.size := if_neg h0
  have htv : p.arrival.tv = p.tv := rfl
  rcases h.process_cases p with ⟨h0, hsyn, hproc⟩ | ⟨h0, hsyn, hproc⟩ | ⟨h0, hd, hproc⟩ |
    ⟨h0, hd, s', hs', hproc⟩ | ⟨h0, hd, hproc⟩
  · have hsig : p.arrival.signal = .opening p.named := by
      simp [Packet.arrival, UserPacket.arrival, h0, hsyn]
    rw [hproc, Monitor.step_opening hsig, hopen h0]
    exact ⟨hexp.register _ _, Prod.ext (by rw [toMonitor_register, hmon]; rfl) rfl⟩
  · have hsig : p.arrival.signal = .silent := by
      simp [Packet.arrival, UserPacket.arrival, h0, hsyn]
    rw [hproc, Monitor.step_silent hsig]
    exact ⟨hexp, Prod.ext hmon rfl⟩
  · simp only [Monitor.step, hdata h0, htv, ← hdir, hd]
    rw [hproc, toMonitor_response, hcount]
    exact ⟨hdirected.response _, rfl⟩
  · simp only [Monitor.step, hdata h0, htv, ← hdir, hd, hkeep h0]
    rw [hproc, toMonitor_request hdirected p.readable hs', hcount]
    exact ⟨hdirected.request p.readable hs', rfl⟩
  · simp only [Monitor.step, hdata h0, htv, ← hdir, hd]
    rw [hproc, hcount]
    exact ⟨hdirected, rfl⟩

theorem expire_eq (s : Sniffer) (now : Timeval) : ∃ last requests, expireStaleRequests s now =
    { s with expirePrimed := true, lastExpire := last, requests := requests } := by
  rw [expireStaleRequests]
  cases hprimed : s.expirePrimed with
  | false => exact ⟨now, s.requests, rfl⟩
  | true =>
    split
    · exact ⟨now, s.requests, rfl⟩
    · split
      · exact ⟨s.lastExpire, s.requests, by rw [← hprimed]⟩
      · exact ⟨now, _, by rw [← hprimed]⟩

theorem protocol_expire (s : Sniffer) (now : Timeval) :
    (expireStaleRequests s now).protocol = s.protocol := by
  obtain ⟨last, requests, heq⟩ := s.expire_eq now
  rw [heq]

theorem datalink_expire (s : Sniffer) (now : Timeval) :
    (expireStaleRequests s now).datalink = s.datalink := by
  obtain ⟨last, requests, heq⟩ := s.expire_eq now
  rw [heq]

theorem threshold_expire (s : Sniffer) (now : Timeval) :
    (expireStaleRequests s now).threshold = s.threshold := by
  obtain ⟨last, requests, heq⟩ := s.expire_eq now
  rw [heq]

theorem synTab_expire (s : Sniffer) (now : Timeval) :
    (expireStaleRequests s now).synTab = s.synTab := by
  obtain ⟨last, requests, heq⟩ := s.expire_eq now
  rw [heq]

/-- `t` differs from `s` in its two tables only. -/
structure TablesOnly (s t : Sniffer) : Prop where
  datalink : t.datalink = s.datalink
  protocol : t.protocol = s.protocol
  threshold : t.threshold = s.threshold
  lastExpire : t.lastExpire = s.lastExpire
  expirePrimed : t.expirePrimed = s.expirePrimed
  luaState : t.luaState = s.luaState
  dumper : t.dumper = s.dumper

namespace TablesOnly

theorem refl (s : Sniffer) : s.TablesOnly s := ⟨rfl, rfl, rfl, rfl, rfl, rfl, rfl⟩

theorem trans {s t u : Sniffer} (h : s.TablesOnly t) (h' : t.TablesOnly u) : s.TablesOnly u :=
  ⟨h'.datalink.trans h.datalink, h'.protocol.trans h.protocol, h'.threshold.trans h.threshold,
    h'.lastExpire.trans h.lastExpire, h'.expirePrimed.trans h.expirePrimed,
    h'.luaState.trans h.luaState, h'.dumper.trans h.dumper⟩

theorem set (s : Sniffer) (synTab : Table QueryStats) (requests : Table Request) :
    s.TablesOnly { s with synTab := synTab, requests := requests } :=
  ⟨rfl, rfl, rfl, rfl, rfl, rfl, rfl⟩

theorem direction (s : Sniffer) (p : UserPacket) : s.TablesOnly (packetDirection s p).1 := by
  rw [packetDirection]
  split
  · exact set s _ s.requests
  · split
    · exact set s _ s.requests
    · exact refl s

theorem register (a : Allocs) (s : Sniffer) (e : Endpoint) :
    s.TablesOnly (registerEndpoint a s e) := by
  rw [registerEndpoint]
  split
  · exact refl s
  · split
    · exact set s _ s.requests
    · exact refl s

theorem response (s : Sniffer) (p : UserPacket) : s.TablesOnly (processResponsePacket s p).1 := by
  rw [processResponsePacket]
  split
  · exact refl s
  · rw [observeResponse]
    split
    · exact set s _ _
    · exact set s s.synTab _

end TablesOnly

theorem Monitoring.process_tablesOnly {s : Sniffer} (h : s.Monitoring) (p : Packet) :
    (expireStaleRequests s p.tv).TablesOnly (s.process p).1 := by
  have hdirected := (h.expire p.tv).direction p.toUserPacket
  have hdir := TablesOnly.direction (expireStaleRequests s p.tv) p.toUserPacket
  rcases h.process_cases p with ⟨-, -, hproc⟩ | ⟨-, -, hproc⟩ | ⟨-, -, hproc⟩ |
    ⟨-, -, s', hs', hproc⟩ | ⟨-, -, hproc⟩
  · rw [hproc]
    exact TablesOnly.register _ _ _
  · rw [hproc]
    exact TablesOnly.refl _
  · rw [hproc]
    exact hdir.trans (TablesOnly.response _ _)
  · rw [processRequestPacket_eq hdirected p.readable] at hs'
    rw [hproc, ← Option.some.inj hs']
    split
    · exact hdir
    · exact hdir.trans (TablesOnly.set _ _ _)
  · rw [hproc]
    exact hdir

theorem requests_direction (s : Sniffer) (p : UserPacket) :
    (packetDirection s p).1.requests = s.requests := by
  rw [packetDirection]
  split
  · rfl
  · split <;> rfl

theorem requests_register (a : Allocs) (s : Sniffer) (e : Endpoint) :
    (registerEndpoint a s e).requests = s.requests := by
  rw [registerEndpoint]
  split
  · rfl
  · split <;> rfl

theorem requests_observe (s : Sniffer) (e : Endpoint) (delta : Int) :
    (observeResponse s e delta).1.requests = s.requests := by
  rw [observeResponse]
  split <;> rfl

theorem Monitoring.requests_process {s : Sniffer} (h : s.Monitoring) (p : Packet) :
    (s.process p).1.requests = (expireStaleRequests s p.tv).requests ∨
    (s.process p).1.requests = (expireStaleRequests s p.tv).requests.add true true
      (pairKey p.src p.dst) (p.request s.protocol) ∨
    p.payloadSize ≠ 0 ∧ (s.process p).1.requests =
      (expireStaleRequests s p.tv).requests.del (pairKey p.dst p.src) := by
  have hdirected := (h.expire p.tv).direction p.toUserPacket
  have hdir := requests_direction (expireStaleRequests s p.tv) p.toUserPacket
  have hprotocol := (TablesOnly.direction (expireStaleRequests s p.tv) p.toUserPacket).protocol.trans
    (protocol_expire s p.tv)
  rcases h.process_cases p with ⟨-, -, hproc⟩ | ⟨-, -, hproc⟩ | ⟨h0, -, hproc⟩ |
    ⟨-, -, s', hs', hproc⟩ | ⟨-, -, hproc⟩
  · rw [hproc, requests_register]
    exact Or.inl rfl
  · rw [hproc]
    exact Or.inl rfl
  · rw [hproc, processResponsePacket]
    split
    · exact Or.inl hdir
    · refine Or.inr (Or.inr ⟨h0, ?_⟩)
      simp only [finishResponse, requests_observe, hdir]
  · rw [processRequestPacket_eq hdirected p.readable] at hs'
    rw [hproc, ← Option.some.inj hs']
    split
    · exact Or.inl hdir
    · refine Or.inr (Or.inl ?_)
      rw [← hdir, ← hprotocol]
  · rw [hproc]
    exact Or.inl hdir

theorem get_expire_of_le {s : Sniffer} {now : Timeval} {key : CString} {req : Request}
    (h : s.requests.get key = some req) (hle : tvDeltaUs now req.tv ≤ requestTimeoutUs) :
    (expireStaleRequests s now).requests.get key = some req := by
  rw [expireStaleRequests]
  split
  · exact h
  · split
    · exact h
    · have hkeep : (!requestExpired now requestTimeoutUs req) = true := by
        simpa [requestExpired] using hle
      rw [requestsExpire, Table.get_sweep, h, Option.filter_some, if_pos hkeep]

theorem Monitoring.get_process {s : Sniffer} (h : s.Monitoring) (p : Packet)
    {client server : Endpoint} {req : Request}
    (hget : s.requests.get (pairKey client server) = some req)
    (hle : tvDeltaUs p.tv req.tv ≤ requestTimeoutUs)
    (hno : ¬(p.payloadSize ≠ 0 ∧ p.src = server ∧ p.dst = client)) :
    (s.process p).1.requests.get (pairKey client server) = some req := by
  have hswept := get_expire_of_le hget hle
  rcases h.requests_process p with heq | heq | ⟨h0, heq⟩
  · rw [heq, hswept]
  · rw [heq, Table.get_add]
    split
    · rename_i hkey
      rw [← hkey, hswept]
      rfl
    · exact hswept
  · have hkey : pairKey client server ≠ pairKey p.dst p.src := by
      intro hk
      have hpair : (client, server) = (p.dst, p.src) := slotKey_injective hk
      cases hpair
      exact hno ⟨h0, rfl, rfl⟩
    rw [heq, Table.get_del, if_neg hkey, hswept]

end Sniffer

/-- A run in statistics mode: the packets processed by a sniffer that was just
created, with no script and a protocol to decode. -/
structure Capture where
  opts : Options
  datalink : LinkType
  packets : List Packet
  noScript : opts.script = none
  notRaw : opts.protocol ≠ .raw

namespace Capture

variable (r : Capture)

def trace : Trace (fun s p => (Sniffer.process s p).1) :=
  Trace.ofList _ (snifferCreate r.opts r.datalink) r.packets

/-- The state after the first `n` packets. -/
def before (n : Nat) : Sniffer := r.trace.state n

def packet (j : Fin r.packets.length) : Packet := r.packets.get j

def events (j : Fin r.packets.length) : List Event := ((r.before j).process (r.packet j)).2

/-- The state in which packet `j` is looked up, after the sweep it may trigger. -/
def swept (j : Fin r.packets.length) : Sniffer :=
  expireStaleRequests (r.before j) (r.packet j).tv

theorem monitoring {n : Nat} (hn : n ≤ r.packets.length) : (r.before n).Monitoring :=
  r.trace.invariant (I := fun _ s => s.Monitoring)
    (Sniffer.Monitoring.create r.noScript r.notRaw r.datalink)
    (fun k h => (h.process_refines (r.trace.input k)).1) n hn

theorem process_refines (j : Fin r.packets.length) :
    (((r.before j).process (r.packet j)).1.toMonitor, samplesOf (r.events j)) =
      (r.before j).toMonitor.step (r.packet j).arrival :=
  ((r.monitoring (Nat.le_of_lt j.isLt)).process_refines (r.packet j)).2

noncomputable def monitor : Trace Monitor.next :=
  r.trace.map Sniffer.toMonitor (fun p => p.arrival) fun k =>
    congrArg Prod.fst (r.process_refines k)

theorem monitor_start : r.monitor.state 0 = Monitor.start :=
  Sniffer.toMonitor_create r.opts r.datalink

theorem swept_toMonitor (j : Fin r.packets.length) :
    (r.swept j).toMonitor = (r.before j).toMonitor.expire (r.packet j).tv :=
  Sniffer.toMonitor_expire _ _

theorem swept_monitoring (j : Fin r.packets.length) : (r.swept j).Monitoring :=
  (r.monitoring (Nat.le_of_lt j.isLt)).expire _

theorem mem_events_iff {j : Fin r.packets.length} {server : Endpoint} {latency : Int} :
    .sample server latency ∈ r.events j ↔
      (server, latency) ∈ ((r.before j).toMonitor.step (r.packet j).arrival).2 := by
  rw [← r.process_refines, mem_samplesOf]

end Capture

end Tcpkit
