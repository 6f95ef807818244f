import Tcpkit.Threshold
import Tcpkit.FrameRuns

/-! Packets that leave the statistics alone. Nothing but the mode, the payload, the SYN flag and the
registered endpoints decides whether a packet is one of them. -/

namespace Tcpkit

open MachineInt

/-- What `r` is reached with changes no counter and no endpoint, takes no sample and drops requests
only when they are overdue. -/
structure Sniffer.Quiet (s : Sniffer) (now : Timeval) (r : Sniffer × List Event) : Prop where
  counters : ∀ key, r.1.synTab.get key = s.synTab.get key
  samples : samplesOf r.2 = []
  requests : ∀ key, r.1.requests.get key = s.requests.get key ∨
    r.1.requests.get key = none ∧
      ∃ req, s.requests.get key = some req ∧ requestExpired now requestTimeoutUs req = true

abbrev Sniffer.Registered (s : Sniffer) (e : Endpoint) : Prop := (s.synTab.get (endpointKey e)).isSome

/-- A packet that registers an endpoint, or carries payload from or to a registered one. -/
def Sniffer.Touches (s : Sniffer) (a : Allocs) (p : UserPacket) : Prop :=
  s.luaState = false ∧ s.protocol ≠ .raw ∧
    if p.payloadSize = 0 then p.syn = true ∧ a.keepsEndpoint = true ∧ ¬s.Registered p.named
    else s.Registered p.src ∨ s.Registered p.dst

namespace Sniffer

variable {s : Sniffer} {a : Allocs} {p : UserPacket} {r : Sniffer × List Event}

theorem get_expire_cases (s : Sniffer) (now : Timeval) (key : CString) :
    (expireStaleRequests s now).requests.get key = s.requests.get key ∨
      (expireStaleRequests s now).requests.get key = none ∧
        ∃ req, s.requests.get key = some req ∧ requestExpired now requestTimeoutUs req = true := by
  rw [expireStaleRequests]
  split
  · exact Or.inl rfl
  · split
    · exact Or.inl rfl
    · rw [requestsExpire, Table.get_sweep]
      cases hget : s.requests.get key with
      | none => exact Or.inl rfl
      | some req =>
        cases hexpired : requestExpired now requestTimeoutUs req with
        | false => exact Or.inl (by simp [hexpired])
        | true => exact Or.inr ⟨by simp [hexpired], req, rfl, hexpired⟩

theorem Quiet.refl (s : Sniffer) (now : Timeval) {events : List Event} (h : samplesOf events = []) :
    s.Quiet now (s, events) := ⟨fun _ => rfl, h, fun _ => Or.inl rfl⟩

theorem Quiet.expire (s : Sniffer) (now : Timeval) : s.Quiet now (expireStaleRequests s now, []) := by
  refine ⟨fun key => ?_, rfl, get_expire_cases s now⟩
  change (expireStaleRequests s now).synTab.get key = s.synTab.get key
  rw [synTab_expire]

theorem register_of_registered {e : Endpoint} (h : s.Registered e) (a : Allocs) :
    registerEndpoint a s e = s := by
  rw [registerEndpoint, if_pos h]

theorem registered_register {e : Endpoint} (ha : a.keepsEndpoint = true) (s : Sniffer) :
    (registerEndpoint a s e).Registered e := by
  rw [registerEndpoint_eq, if_pos ha]
  by_cases h : s.Registered e
  · rw [register_of_registered h]
    exact h
  · rw [registerEndpoint, if_neg h, Registered]
    simp only [Allocs.all, if_true, Table.get_add, Option.isSome_some]

theorem registered_expire (s : Sniffer) (now : Timeval) (e : Endpoint) :
    (expireStaleRequests s now).Registered e ↔ s.Registered e := by
  rw [Registered, synTab_expire, Registered]

theorem direction_response (h : s.Registered p.src) :
    (packetDirection s p).2 = .response ∧
      (packetDirection s p).1.synTab.get (endpointKey p.src) =
        (s.synTab.get (endpointKey p.src)).map (fun stats => statsIncr stats false (int32 p.size.toNat)) := by
  rw [packetDirection, if_pos h]
  exact ⟨rfl, by rw [Table.get_adjust, if_pos rfl]⟩

theorem direction_request (hsrc : ¬s.Registered p.src) (hdst : s.Registered p.dst) :
    (packetDirection s p).2 = .request ∧
      (packetDirection s p).1.synTab.get (endpointKey p.dst) =
        (s.synTab.get (endpointKey p.dst)).map (fun stats => statsIncr stats true (int32 p.size.toNat)) := by
  rw [packetDirection, if_neg hsrc, if_pos hdst]
  exact ⟨rfl, by rw [Table.get_adjust, if_pos rfl]⟩

theorem direction_unknown (hsrc : ¬s.Registered p.src) (hdst : ¬s.Registered p.dst) :
    packetDirection s p = (s, .unknown) := by
  rw [packetDirection, if_neg hsrc, if_neg hdst]

theorem responses_processResponse (s : Sniffer) (p : UserPacket) (key : CString) :
    ((processResponsePacket s p).1.synTab.get key).map QueryStats.responses =
      (s.synTab.get key).map QueryStats.responses := by
  rw [processResponsePacket]
  cases s.requests.get (pairKey p.dst p.src) with
  | none => rfl
  | some req =>
    change ((observeResponse s p.src (tvDeltaUs p.tv req.tv)).1.synTab.get key).map _ = _
    rw [observeResponse]
    split
    · rw [Table.get_adjust]
      split
      · rename_i hkey
        rw [hkey, Option.map_map]
        rfl
      · rfl
    · rfl

theorem synTab_processRequest {s' : Sniffer} (h : processRequestPacket a s p = some s') :
    s'.synTab = s.synTab := by
  simp only [processRequestPacket] at h
  split at h
  · cases h
    rfl
  · split at h
    · cases h
      rfl
    · split at h
      · cases h
        rfl
      · obtain ⟨payload, -, rfl⟩ := Option.map_eq_some_iff.mp h
        cases payload <;> rfl

theorem responses_statsIncr_ne (stats : QueryStats) (bytes : Int) :
    (statsIncr stats false bytes).responses ≠ stats.responses := by
  change uint64 (stats.responses + 1) ≠ stats.responses
  rw [uint64]
  omega

theorem requests_statsIncr_ne (stats : QueryStats) (bytes : Int) :
    (statsIncr stats true bytes).requests ≠ stats.requests := by
  change uint64 (stats.requests + 1) ≠ stats.requests
  rw [uint64]
  omega

/-- A packet that touches nothing leaves what the sweep leaves. In the other modes not even a sweep
is made. -/
theorem untouched_cases (h : processUserPacket a s p = some r) (hno : ¬s.Touches a p) :
    ((s.luaState = true ∨ s.protocol = .raw) ∧ r.1 = s ∧ samplesOf r.2 = []) ∨
      (s.luaState = false ∧ s.protocol ≠ .raw ∧ r = (expireStaleRequests s p.tv, [])) := by
  by_cases hidle : s.luaState = true ∨ s.protocol = .raw
  · rw [processUserPacket_idle hidle] at h
    rw [← Option.some.inj h]
    exact Or.inl ⟨hidle, rfl, by split <;> rfl⟩
  rw [not_or, Bool.not_eq_true] at hidle
  obtain ⟨hscript, hraw⟩ := hidle
  have hexp (e : Endpoint) := registered_expire s p.tv e
  refine Or.inr ⟨hscript, hraw, ?_⟩
  by_cases h0 : p.payloadSize = 0
  · have hno' : ¬(p.syn = true ∧ a.keepsEndpoint = true ∧ ¬s.Registered p.named) :=
      fun hh => hno ⟨hscript, hraw, by rwa [if_pos h0]⟩
    rw [processUserPacket_empty hscript hraw h0, Option.some_inj] at h
    rw [← h]
    split
    · rename_i hsyn
      rw [registerEndpoint_eq]
      split
      · rename_i hkeeps
        have hold : s.Registered p.named := by
          by_contra hnew
          exact hno' ⟨hsyn, hkeeps, hnew⟩
        rw [register_of_registered ((hexp p.named).mpr hold)]
      · rfl
    · rfl
  · have hno' : ¬s.Registered p.src ∧ ¬s.Registered p.dst :=
      not_or.mp fun hh => hno ⟨hscript, hraw, by rwa [if_neg h0]⟩
    rw [processUserPacket_data hscript hraw h0,
      direction_unknown (mt (hexp p.src).mp hno'.1) (mt (hexp p.dst).mp hno'.2)] at h
    exact (Option.some.inj h).symm

/-- A packet that touches the statistics registers an endpoint or counts for one. -/
theorem changes_of_touches (h : processUserPacket a s p = some r) (ht : s.Touches a p) :
    ∃ key, r.1.synTab.get key ≠ s.synTab.get key := by
  obtain ⟨hscript, hraw, hends⟩ := ht
  have hexp (e : Endpoint) := registered_expire s p.tv e
  by_cases h0 : p.payloadSize = 0
  · rw [if_pos h0] at hends
    obtain ⟨hsyn, hkeeps, hnew⟩ := hends
    rw [processUserPacket_empty hscript hraw h0, if_pos hsyn, Option.some_inj] at h
    refine ⟨endpointKey p.named, fun hsame => hnew ?_⟩
    rw [Registered, ← hsame, ← h]
    exact registered_register hkeeps (expireStaleRequests s p.tv)
  rw [if_neg h0] at hends
  rw [processUserPacket_data hscript hraw h0] at h
  by_cases hsrc : s.Registered p.src
  · obtain ⟨hdir, hcounted⟩ := direction_response ((hexp p.src).mpr hsrc)
    rw [hdir] at h
    refine ⟨endpointKey p.src, fun hsame => ?_⟩
    obtain ⟨stats, hstats⟩ := Option.isSome_iff_exists.mp hsrc
    have hresponses := responses_processResponse (packetDirection (expireStaleRequests s p.tv) p).1 p
      (endpointKey p.src)
    rw [Option.some.inj h, hsame, hcounted, synTab_expire, hstats] at hresponses
    exact responses_statsIncr_ne stats _ (Option.some.inj hresponses).symm
  · have hdst := hends.resolve_left hsrc
    obtain ⟨hdir, hcounted⟩ := direction_request (mt (hexp p.src).mp hsrc) ((hexp p.dst).mpr hdst)
    rw [hdir] at h
    refine ⟨endpointKey p.dst, fun hsame => ?_⟩
    obtain ⟨s', hs', rfl⟩ := Option.map_eq_some_iff.mp h
    obtain ⟨stats, hstats⟩ := Option.isSome_iff_exists.mp hdst
    rw [synTab_processRequest hs', hcounted, synTab_expire, hstats] at hsame
    exact requests_statsIncr_ne stats _ (congrArg QueryStats.requests (Option.some.inj hsame))

theorem quiet_iff (h : processUserPacket a s p = some r) : s.Quiet p.tv r ↔ ¬s.Touches a p := by
  constructor
  · intro hquiet ht
    obtain ⟨key, hchanged⟩ := changes_of_touches h ht
    exact hchanged (hquiet.counters key)
  · intro hno
    obtain ⟨next, events⟩ := r
    rcases untouched_cases h hno with ⟨-, rfl, hsamples⟩ | ⟨-, -, hr⟩
    · exact Quiet.refl next p.tv hsamples
    · rw [hr]
      exact Quiet.expire s p.tv

theorem registered_of_register {e e' : Endpoint} (h : (registerEndpoint a s e').Registered e) :
    s.Registered e ∨ e = e' := by
  rw [registerEndpoint_eq] at h
  split at h
  · by_cases hold : s.Registered e'
    · rw [register_of_registered hold] at h
      exact Or.inl h
    · rw [registerEndpoint, if_neg hold, Registered] at h
      simp only [Allocs.all, if_true, Table.get_add] at h
      split at h
      · rename_i hkey
        exact Or.inr (endpointKey_injective hkey)
      · exact Or.inl h
  · exact Or.inl h

theorem registered_direction (s : Sniffer) (p : UserPacket) (e : Endpoint) :
    (packetDirection s p).1.Registered e ↔ s.Registered e := by
  have hadjust (key : CString) (f : QueryStats → QueryStats) :
      ((s.synTab.adjust key f).get (endpointKey e)).isSome ↔ s.Registered e := by
    rw [Table.get_adjust]
    split
    · rename_i hkey
      rw [Option.isSome_map, ← hkey]
    · exact Iff.rfl
  rw [packetDirection]
  split
  · exact hadjust _ _
  · split
    · exact hadjust _ _
    · exact Iff.rfl

theorem registered_cases (h : processUserPacket a s p = some r) {e : Endpoint} (hnow : r.1.Registered e) :
    s.Registered e ∨ p.payloadSize = 0 ∧ p.syn = true ∧ p.named = e := by
  by_cases hidle : s.luaState = true ∨ s.protocol = .raw
  · rw [processUserPacket_idle hidle] at h
    rw [← Option.some.inj h] at hnow
    exact Or.inl hnow
  rw [not_or, Bool.not_eq_true] at hidle
  obtain ⟨hscript, hraw⟩ := hidle
  by_cases h0 : p.payloadSize = 0
  · rw [processUserPacket_empty hscript hraw h0, Option.some_inj] at h
    rw [← h] at hnow
    split at hnow
    · rename_i hsyn
      rcases registered_of_register hnow with hold | hnamed
      · exact Or.inl ((registered_expire s p.tv e).mp hold)
      · exact Or.inr ⟨h0, hsyn, hnamed.symm⟩
    · exact Or.inl ((registered_expire s p.tv e).mp hnow)
  · left
    rw [processUserPacket_data hscript hraw h0] at h
    rw [← registered_expire s p.tv e, ← registered_direction _ p e]
    split at h
    · have hresponses := responses_processResponse (packetDirection (expireStaleRequests s p.tv) p).1 p
        (endpointKey e)
      rw [Option.some.inj h] at hresponses
      have hsome := congrArg Option.isSome hresponses
      rw [Option.isSome_map, Option.isSome_map] at hsome
      rw [Registered, ← hsome]
      exact hnow
    · obtain ⟨s', hs', rfl⟩ := Option.map_eq_some_iff.mp h
      rw [Registered, ← synTab_processRequest hs']
      exact hnow
    · rw [← Option.some.inj h] at hnow
      exact hnow

end Sniffer

namespace CapturedFrame

def outcome (layout : TcpLayout) (s : Sniffer) (f : CapturedFrame) : Sniffer × List Event :=
  (packetHandler layout f.allocs s f.header f.bytes).get (handle_isSome layout s f)

def read (layout : TcpLayout) (s : Sniffer) (f : CapturedFrame) : Option UserPacket :=
  frameParsed layout s.datalink f.header f.bytes

variable {layout : TcpLayout} {s : Sniffer} {f : CapturedFrame} {u : UserPacket}

theorem parseFrame_read (layout : TcpLayout) (s : Sniffer) (f : CapturedFrame) :
    parseFrame layout s.datalink f.header f.bytes = some (f.read layout s) := by
  have hlimit := f.limit
  exact parseFrame_eq layout s.datalink f.captured (by rw [f.captured]; omega)

theorem outcome_of_skipped (h : f.read layout s = none) :
    f.outcome layout s = (dumperWrite s f.header f.bytes, []) := by
  have hparse := f.parseFrame_read layout s
  rw [h] at hparse
  simp only [outcome, packetHandler_of_skipped hparse, Option.get_some]

theorem outcome_of_read (h : f.read layout s = some u) :
    processUserPacket f.allocs (dumperWrite s f.header f.bytes) u = some (f.outcome layout s) := by
  have hparse := f.parseFrame_read layout s
  rw [h] at hparse
  rw [← packetHandler_of_parseFrame hparse f.allocs, outcome, Option.some_get]

theorem read_tv (h : f.read layout s = some u) : u.tv = f.header.ts := by
  obtain ⟨n, -, ⟨-, -, rfl⟩ | ⟨-, -, rfl⟩⟩ := frameParsed_cases h <;> rfl

/-- A frame is noticed if and only if it is read as a packet that touches the statistics. -/
theorem quiet_outcome_iff (layout : TcpLayout) (s : Sniffer) (f : CapturedFrame) :
    s.Quiet f.header.ts (f.outcome layout s) ↔ ∀ u, f.read layout s = some u → ¬s.Touches f.allocs u := by
  have hdump (now : Timeval) (r : Sniffer × List Event) :
      (dumperWrite s f.header f.bytes).Quiet now r ↔ s.Quiet now r :=
    ⟨fun h => ⟨h.counters, h.samples, h.requests⟩, fun h => ⟨h.counters, h.samples, h.requests⟩⟩
  cases hread : f.read layout s with
  | none =>
    rw [outcome_of_skipped hread, ← hdump]
    exact iff_of_true (Sniffer.Quiet.refl _ _ rfl) (fun u hu => by cases hu)
  | some u =>
    have hquiet := Sniffer.quiet_iff (outcome_of_read hread)
    rw [hdump, read_tv hread] at hquiet
    rw [hquiet]
    constructor
    · rintro hno u' ⟨⟩
      exact hno
    · exact fun hno => hno u rfl

end CapturedFrame

end Tcpkit
