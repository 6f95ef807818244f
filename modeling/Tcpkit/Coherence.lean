import Tcpkit.Matching

/-! How the two tables of the sniffer fit together in every state of a run: their
sizes, their keys, the servers that requests wait for and the summaries they hold. -/

namespace Tcpkit

open MachineInt

theorem endpoint_statsIncr (stats : QueryStats) (isRequest : Bool) (bytes : Int) :
    (statsIncr stats isRequest bytes).endpoint = stats.endpoint := by
  cases isRequest <;> rfl

theorem endpoint_observer (stats : QueryStats) (latency : Int) :
    (statsObserverLatency stats latency).endpoint = stats.endpoint := rfl

namespace Monitor

/-- Counters stand under their own endpoint, and requests wait for registered servers. -/
structure Linked (m : Monitor) : Prop where
  named : ∀ e stats, m.stats.lookup e = some stats → stats.endpoint = e
  served : ∀ client server asked, m.pending.lookup (client, server) = some asked → m.Registered server

theorem Linked.start : start.Linked := by
  constructor <;> simp [Monitor.start]

theorem Linked.named_next {m : Monitor} (h : m.Linked) (a : Arrival) (e : Endpoint)
    (stats : QueryStats) (hs : (m.next a).stats.lookup e = some stats) : stats.endpoint = e := by
  cases ha : a.signal with
  | silent =>
    rw [lookup_stats_silent ha] at hs
    exact h.named e stats hs
  | opening server =>
    rw [lookup_stats_opening ha] at hs
    split at hs
    · rename_i hnew
      cases hold : m.stats.lookup e with
      | none =>
        rw [hold, Option.getD_none, Option.some_inj] at hs
        rw [← hs, hnew.1]
        rfl
      | some old =>
        rw [hold, Option.getD_some, Option.some_inj] at hs
        rw [← hs]
        exact h.named e old hold
    · exact h.named e stats hs
  | data src dst size =>
    obtain ⟨f, hlook, hf⟩ := lookup_stats_data (m := m) ha
    rw [hlook] at hs
    split at hs
    · obtain ⟨old, hold, rfl⟩ := Option.map_eq_some_iff.mp hs
      have hkept : (f old).endpoint = old.endpoint := by
        rcases hf with hf | ⟨latency, hf⟩
        · rw [hf, endpoint_statsIncr]
        · rw [hf, endpoint_observer, endpoint_statsIncr]
      rw [hkept]
      exact h.named e old hold
    · exact h.named e stats hs

theorem Linked.next {m : Monitor} (h : m.Linked) (a : Arrival) : (m.next a).Linked := by
  refine ⟨h.named_next a, fun client server asked hp => ?_⟩
  by_cases hr : m.Responds a client server
  · rw [hr.lookup_next] at hp
    cases hp
  · by_cases hadm : m.Admits a client server
    · obtain ⟨-, -, -, hreg⟩ := hadm.1
      exact hreg.next a
    · rw [lookup_next_of_not hr hadm] at hp
      exact (h.served client server asked (lookup_of_lookup_expire hp)).next a

end Monitor

/-- What a request record holds: a summary of one printable line, and its length. -/
structure Request.Printed (req : Request) : Prop where
  short : req.payload.length ≤ 127
  printable : ∀ c ∈ req.payload, 0x20 ≤ c ∧ c ≤ 0x7e
  size_eq : req.size = req.payload.length

theorem ProtocolType.summary_printed (protocol : ProtocolType) (p : List UInt8) :
    (protocol.summary p).length ≤ 127 ∧ ∀ c ∈ protocol.summary p, 0x20 ≤ c ∧ c ≤ 0x7e := by
  cases protocol with
  | raw => exact rawSummary_printed p
  | redis => exact redisSummary_printed p
  | memcached => exact memcachedSummary_printed p
  | http => exact memcachedSummary_printed p

theorem UserPacket.request_printed (p : UserPacket) (protocol : ProtocolType) :
    (p.request protocol).Printed := by
  obtain ⟨hshort, hprint⟩ := protocol.summary_printed (p.payload.take p.payloadSize.toNat)
  refine ⟨hshort, hprint, ?_⟩
  have hall : ∀ c ∈ protocol.summary (p.payload.take p.payloadSize.toNat), decide (c ≠ 0) = true := by
    intro c hc
    have := (hprint c hc).1
    rw [decide_eq_true_eq]
    intro h0
    rw [h0] at this
    exact absurd this (by decide)
  rw [request, summaryLength, List.takeWhile_eq_self_iff.mpr hall]

namespace Sniffer

theorem get_of_get_expire {s : Sniffer} {now : Timeval} {key : CString} {req : Request}
    (h : (expireStaleRequests s now).requests.get key = some req) : s.requests.get key = some req := by
  rw [expireStaleRequests] at h
  split at h
  · exact h
  · split at h
    · exact h
    · rw [requestsExpire, Table.get_sweep] at h
      exact (Option.filter_eq_some_iff.mp h).1

theorem Monitoring.printed_process {s : Sniffer} (h : s.Monitoring)
    (hs : ∀ key req, s.requests.get key = some req → req.Printed) (p : Packet) :
    ∀ key req, (s.process p).1.requests.get key = some req → req.Printed := by
  intro key req hget
  rcases h.requests_process p with heq | heq | ⟨-, heq⟩
  · rw [heq] at hget
    exact hs key req (get_of_get_expire hget)
  · rw [heq, Table.get_add] at hget
    split at hget
    · rw [Option.some_inj] at hget
      cases hold : (expireStaleRequests s p.tv).requests.get (pairKey p.src p.dst) with
      | none =>
        rw [hold, Option.getD_none] at hget
        rw [← hget]
        exact p.request_printed s.protocol
      | some old =>
        rw [hold, Option.getD_some] at hget
        rw [← hget]
        exact hs _ old (get_of_get_expire hold)
    · exact hs key req (get_of_get_expire hget)
  · rw [heq, Table.get_del] at hget
    split at hget
    · cases hget
    · exact hs key req (get_of_get_expire hget)

/-- The tables hold what their keys say: one entry for each client and server under the
decimal rendering of the two, waiting for a server that is registered under its own. -/
structure Coherent (s : Sniffer) : Prop where
  size_eq : s.requests.size = s.requests.entries.length
  atMost : s.requests.size ≤ 100000
  single : ∀ client server, (s.requests.entries.filter (fun e => e.key =
    CString.joined 0x20 (by decide) (endpointText client) (endpointText server))).length ≤ 1
  awaited : ∀ e ∈ s.requests.entries, ∃ client server,
    e.key = CString.joined 0x20 (by decide) (endpointText client) (endpointText server) ∧
      ∃ x ∈ s.synTab.entries, x.key = endpointText server
  printed : ∀ e ∈ s.requests.entries, e.value.Printed
  named : ∀ e ∈ s.synTab.entries, e.key = endpointText e.value.endpoint

theorem Monitoring.get_endpoint {s : Sniffer} (h : s.Monitoring) (hl : s.toMonitor.Linked)
    {key : CString} {stats : QueryStats} (hg : s.synTab.get key = some stats) :
    key = endpointKey stats.endpoint := by
  have hkey : key ∈ s.synTab.toMap.keys := by
    rw [Finmap.mem_keys_iff_isSome, Table.lookup_toMap, hg]
    rfl
  obtain ⟨e, rfl⟩ := h.synKeys key hkey
  rw [hl.named e stats (by rw [lookup_stats, hg])]

theorem Monitoring.coherent {s : Sniffer} (h : s.Monitoring) (hl : s.toMonitor.Linked)
    (hp : ∀ key req, s.requests.get key = some req → req.Printed) : s.Coherent := by
  have hreq (e : Entry Request) : e ∈ s.requests.entries ↔ s.requests.get e.key = some e.value :=
    s.requests.wellFormed.chained.get_eq_some_iff.symm
  have hsyn (e : Entry QueryStats) : e ∈ s.synTab.entries ↔ s.synTab.get e.key = some e.value :=
    s.synTab.wellFormed.chained.get_eq_some_iff.symm
  have hcard : s.requests.toMap.keys.card = s.requests.entries.length :=
    Hashtable.card_toMap s.requests.wellFormed.chained
  have hsize : s.requests.size = s.requests.entries.length := by
    rw [s.requests.size_eq, hcard]
    have := h.atMost
    rw [hcard, maxPendingRequests] at this
    exact int32_eq_self (by omega) (by omega)
  refine ⟨hsize, ?_, fun client server => ?_, fun e he => ?_, fun e he => hp _ _ ((hreq e).mp he),
    fun e he => ?_⟩
  · rw [hsize, ← hcard]
    exact h.atMost
  · have hcount := List.nodup_iff_count_le_one.mp s.requests.wellFormed.chained.keys_nodup
      (CString.joined 0x20 (by decide) (endpointText client) (endpointText server))
    rw [List.count, List.countP_map, List.countP_eq_length_filter] at hcount
    simpa only [Function.comp_def, beq_eq_decide] using hcount
  · have hget := (hreq e).mp he
    have hkey : e.key ∈ s.requests.toMap.keys := by
      rw [Finmap.mem_keys_iff_isSome, Table.lookup_toMap, hget]
      rfl
    obtain ⟨⟨client, server⟩, hslot⟩ := h.requestKeys e.key hkey
    rw [slotKey] at hslot
    have hreg := hl.served client server e.value.tv (by rw [lookup_pending, hslot, hget]; rfl)
    obtain ⟨stats, hstats⟩ := Option.isSome_iff_exists.mp ((registered_iff s server).mp hreg)
    refine ⟨client, server, by rw [← hslot, pairKey_eq], ⟨endpointKey server, stats⟩,
      (hsyn _).mpr hstats, endpointKey_eq server⟩
  · rw [← endpointKey_eq]
    exact h.get_endpoint hl ((hsyn e).mp he)

end Sniffer

namespace Capture

variable (r : Capture)

theorem linked {n : Nat} (hn : n ≤ r.packets.length) : (r.before n).toMonitor.Linked :=
  r.monitor.invariant (I := fun _ m => m.Linked)
    (by rw [r.monitor_start]; exact Monitor.Linked.start) (fun k h => h.next _) n hn

theorem printed {n : Nat} (hn : n ≤ r.packets.length) :
    ∀ key req, (r.before n).requests.get key = some req → req.Printed := by
  refine (r.trace.invariant (I := fun _ s => s.Monitoring ∧
    ∀ key req, s.requests.get key = some req → req.Printed) ?_ (fun k h => ?_) n hn).2
  · refine ⟨r.monitoring (Nat.zero_le _), fun key req h => ?_⟩
    rw [← Table.lookup_toMap] at h
    simp [trace, Trace.ofList, snifferCreate, Table.toMap_create] at h
  · exact ⟨(h.1.process_refines _).1, h.1.printed_process h.2 _⟩

/-- In every state of a run the two tables are coherent, and an endpoint stays registered
under the same key for the rest of the run. -/
theorem tables_stay_coherent :
    (∀ n ≤ r.packets.length, (r.before n).Coherent) ∧
      ∀ m n, m ≤ n → n ≤ r.packets.length → ∀ e ∈ (r.before m).synTab.entries,
        ∃ e' ∈ (r.before n).synTab.entries, e'.key = e.key ∧ e'.value.endpoint = e.value.endpoint := by
  refine ⟨fun n hn => (r.monitoring hn).coherent (r.linked hn) (r.printed hn), ?_⟩
  intro m n hmn hn e he
  have hget (k : Nat) (x : Entry QueryStats) :
      x ∈ (r.before k).synTab.entries ↔ (r.before k).synTab.get x.key = some x.value :=
    (r.before k).synTab.wellFormed.chained.get_eq_some_iff.symm
  have hkey := (r.monitoring (hmn.trans hn)).get_endpoint (r.linked (hmn.trans hn)) ((hget m e).mp he)
  have hreg : (r.before m).toMonitor.Registered e.value.endpoint := by
    rw [Sniffer.registered_iff, ← hkey, (hget m e).mp he]
    rfl
  have hstays := r.monitor.stable (P := fun m => m.Registered e.value.endpoint) hmn hn
    (fun k _ _ h => h.next _) hreg
  obtain ⟨stats, hstats⟩ := Option.isSome_iff_exists.mp ((Sniffer.registered_iff _ _).mp hstays)
  refine ⟨⟨e.key, stats⟩, (hget n _).mpr (hkey ▸ hstats), rfl, ?_⟩
  exact (r.linked hn).named _ stats (by rw [Sniffer.lookup_stats]; exact hstats)

end Capture

end Tcpkit
