import Tcpkit.Refinement

/-! The points of the capture thread between two of its sections, and what the
counters and the pending table owe each other at every one of them. -/

namespace Tcpkit

open MachineInt

/-- Where the capture thread is between two of its sections. -/
inductive CapturePc where
  | idle
  | direction (p : Packet)
  | response (p : Packet)
  | sample (p : Packet) (req : Request)
  | finish (p : Packet) (req : Request)
  | request (p : Packet)
  | registration (p : Packet)

def CapturePc.received (p : Packet) : CapturePc :=
  if p.payloadSize = 0 then if p.syn then .registration p else .idle else .direction p

def CapturePc.directed (p : Packet) : Direction → CapturePc
  | .response => .response p
  | .request => .request p
  | .unknown => .idle

namespace Monitor

variable {m : Monitor} {client server : Endpoint} {slot : Endpoint × Endpoint}

def waiting (m : Monitor) (server : Endpoint) : Finset Endpoint :=
  (m.pending.keys.filter (fun slot => slot.2 = server)).image Prod.fst

theorem mem_waiting : client ∈ m.waiting server ↔ (m.pending.lookup (client, server)).isSome := by
  rw [← Finmap.mem_keys_iff_isSome, waiting, Finset.mem_image]
  constructor
  · intro hh
    rcases hh with ⟨⟨c, s⟩, hm, rfl⟩
    obtain ⟨hk, rfl⟩ := Finset.mem_filter.mp hm
    exact hk
  · intro hk
    exact ⟨(client, server), Finset.mem_filter.mpr ⟨hk, rfl⟩, rfl⟩

theorem waiting_expire_subset (m : Monitor) (now : Timeval) (server : Endpoint) :
    (m.expire now).waiting server ⊆ m.waiting server := by
  intro client hm
  rw [mem_waiting] at hm ⊢
  obtain ⟨asked, ha⟩ := Option.isSome_iff_exists.mp hm
  rw [lookup_of_lookup_expire ha]
  rfl

theorem waiting_forget (m : Monitor) (slot : Endpoint × Endpoint) (server : Endpoint) :
    (m.forget slot).waiting server =
      if slot.2 = server then (m.waiting server).erase slot.1 else m.waiting server := by
  obtain ⟨c, s⟩ := slot
  ext client
  by_cases hs : s = server
  · subst hs
    by_cases hc : client = c
    · subst hc
      simp [mem_waiting, forget]
    · have hne : (client, s) ≠ (c, s) := fun h => hc (Prod.ext_iff.mp h).1
      simp [mem_waiting, forget, hc, Finmap.lookup_erase_ne hne]
  · have hne : (client, server) ≠ (c, s) := fun h => hs (Prod.ext_iff.mp h).2.symm
    simp [mem_waiting, forget, hs, Finmap.lookup_erase_ne hne]

theorem waiting_enter_subset (m : Monitor) (slot : Endpoint × Endpoint) (tv : Timeval)
    (server : Endpoint) :
    (m.enter slot tv).waiting server ⊆
      if slot.2 = server then insert slot.1 (m.waiting server) else m.waiting server := by
  obtain ⟨c, s⟩ := slot
  intro client hm
  rw [mem_waiting] at hm
  unfold enter at hm
  split at hm
  · have hold : client ∈ m.waiting server := mem_waiting.mpr hm
    split
    · exact Finset.mem_insert_of_mem hold
    · exact hold
  · rw [Finmap.lookup_addNew] at hm
    by_cases hslot : (client, server) = (c, s)
    · cases hslot
      simp
    · rw [if_neg hslot] at hm
      have hold : client ∈ m.waiting server := mem_waiting.mpr hm
      split
      · exact Finset.mem_insert_of_mem hold
      · exact hold

end Monitor

namespace CapturePc

def uncounted : CapturePc → Nat
  | .direction _ => 1
  | _ => 0

/-- A response of the endpoint is counted and its sample is not taken. -/
def owedSample (e : Endpoint) : CapturePc → Nat
  | .response p => if p.src = e then 1 else 0
  | .sample p _ => if p.src = e then 1 else 0
  | _ => 0

/-- A request to the endpoint is counted and does not wait yet. -/
def owedSlot (e : Endpoint) : CapturePc → Nat
  | .request p => if p.dst = e then 1 else 0
  | _ => 0

/-- The sample of the endpoint is taken and its request still waits. -/
def answered (e : Endpoint) : CapturePc → Nat
  | .finish p _ => if p.src = e then 1 else 0
  | _ => 0

def Reached (m : Monitor) : CapturePc → Prop
  | .response p => m.Registered p.src
  | .sample p _ => m.Registered p.src ∧ p.dst ∈ m.waiting p.src
  | .finish p _ => p.dst ∈ m.waiting p.src
  | .request p => m.Registered p.dst
  | _ => True

theorem received_owes_nothing (e : Endpoint) (p : Packet) :
    (received p).uncounted ≤ 1 ∧ (received p).owedSample e = 0 ∧ (received p).owedSlot e = 0 ∧
      (received p).answered e = 0 := by
  rw [received]
  split
  · split <;> exact ⟨Nat.zero_le 1, rfl, rfl, rfl⟩
  · exact ⟨Nat.le_refl 1, rfl, rfl, rfl⟩

end CapturePc

/-- The counters of one endpoint at a point of the capture thread, after `n`
packets and with `pending` requests that wait for it. -/
structure QueryStats.Balanced (stats : QueryStats) (e : Endpoint) (pc : CapturePc) (pending n : Nat) :
    Prop where
  requests_le : stats.requests + pc.uncounted ≤ n
  responses_le : stats.responses + pc.uncounted ≤ n
  samples_le_responses : stats.samples + pc.owedSample e ≤ stats.responses
  samples_le_requests : stats.samples + pending + pc.owedSlot e ≤ stats.requests + pc.answered e

theorem QueryStats.Balanced.mono {stats : QueryStats} {e : Endpoint} {pc pc' : CapturePc}
    {pending pending' n : Nat} (h : stats.Balanced e pc pending n)
    (hu : pc'.uncounted ≤ pc.uncounted) (hs : pc'.owedSample e ≤ pc.owedSample e)
    (hp : pending' + pc'.owedSlot e + pc.answered e ≤
      pending + pc.owedSlot e + pc'.answered e) :
    stats.Balanced e pc' pending' n := by
  obtain ⟨h1, h2, h3, h4⟩ := h
  exact ⟨by omega, by omega, by omega, by omega⟩

namespace QueryStats.Balanced

variable {old : QueryStats} {p : Packet} {req : Request} {pending n : Nat}

theorem response (h : old.Balanced p.src (.direction p) pending n) (hn : n < 2 ^ 64) (bytes : Int) :
    (statsIncr old false bytes).Balanced p.src (.response p) pending n := by
  obtain ⟨h1, h2, h3, h4⟩ := h
  simp only [CapturePc.uncounted, CapturePc.owedSample, CapturePc.owedSlot,
    CapturePc.answered] at h1 h2 h3 h4
  have hsucc := responses_response bytes (show old.responses + 1 < 2 ^ 64 by omega)
  constructor <;> simp only [CapturePc.uncounted, CapturePc.owedSample, CapturePc.owedSlot,
    CapturePc.answered, if_true, requests_response, samples_statsIncr, hsucc] <;> omega

theorem request (h : old.Balanced p.dst (.direction p) pending n) (hn : n < 2 ^ 64) (bytes : Int) :
    (statsIncr old true bytes).Balanced p.dst (.request p) pending n := by
  obtain ⟨h1, h2, h3, h4⟩ := h
  simp only [CapturePc.uncounted, CapturePc.owedSample, CapturePc.owedSlot,
    CapturePc.answered] at h1 h2 h3 h4
  have hsucc := requests_request bytes (show old.requests + 1 < 2 ^ 64 by omega)
  constructor <;> simp only [CapturePc.uncounted, CapturePc.owedSample, CapturePc.owedSlot,
    CapturePc.answered, if_true, responses_request, samples_statsIncr, hsucc] <;> omega

theorem sample (h : old.Balanced p.src (.sample p req) pending n) (hn : n < 2 ^ 64)
    (latency : Int) :
    (statsObserverLatency old latency).Balanced p.src (.finish p req) pending n := by
  obtain ⟨h1, h2, h3, h4⟩ := h
  simp only [CapturePc.uncounted, CapturePc.owedSample, CapturePc.owedSlot,
    CapturePc.answered, if_true] at h1 h2 h3 h4
  have hsucc := samples_observer latency (show old.samples + 1 < 2 ^ 64 by omega)
  constructor <;> simp only [CapturePc.uncounted, CapturePc.owedSample, CapturePc.owedSlot,
    CapturePc.answered, if_true, requests_observer, responses_observer, hsucc] <;> omega

end QueryStats.Balanced

namespace Monitor

/-- The invariant of the capture thread after it received `n` packets. -/
structure Balanced (m : Monitor) (pc : CapturePc) (n : Nat) : Prop where
  registered : ∀ client server, client ∈ m.waiting server → m.Registered server
  reached : pc.Reached m
  balanced : ∀ e stats, m.stats.lookup e = some stats →
    stats.Balanced e pc (m.waiting e).card n

namespace Balanced

variable {m : Monitor} {n : Nat} {p : Packet} {req : Request} {pc : CapturePc}

theorem start : Monitor.start.Balanced .idle 0 := by
  refine ⟨fun client server hm => ?_, trivial, fun e stats h => ?_⟩
  · rw [mem_waiting] at hm
    simp [Monitor.start] at hm
  · simp [Monitor.start] at h

theorem receive (h : m.Balanced .idle n) (p : Packet) :
    (m.expire p.tv).Balanced (.received p) (n + 1) := by
  have hsub := waiting_expire_subset m p.tv
  refine ⟨fun client server hm => registered_expire.mpr (h.registered client server (hsub server hm)),
    ?_, fun e stats hl => ?_⟩
  · rw [CapturePc.received]
    split
    · split <;> trivial
    · trivial
  · rw [stats_expire] at hl
    obtain ⟨h1, h2, h3, h4⟩ := h.balanced e stats hl
    obtain ⟨ho, hs, ht, ha⟩ := CapturePc.received_owes_nothing e p
    have hcard := Finset.card_le_card (hsub e)
    simp only [CapturePc.uncounted, CapturePc.owedSample, CapturePc.owedSlot,
      CapturePc.answered, Nat.add_zero] at h1 h2 h3 h4
    exact ⟨by omega, by omega, by omega, by omega⟩

theorem waiting_count (m : Monitor) (src dst e : Endpoint) (size : UInt32) :
    (m.count src dst size).waiting e = m.waiting e := by
  rw [waiting, pending_count, waiting]

theorem registered_of_waiting_count (h : m.Balanced pc n) {src dst client server : Endpoint}
    {size : UInt32} (hm : client ∈ (m.count src dst size).waiting server) :
    (m.count src dst size).Registered server := by
  rw [waiting_count] at hm
  exact registered_count.mpr (h.registered client server hm)

theorem direct_response (h : m.Balanced (.direction p) n) (hn : n < 2 ^ 64)
    (hs : m.Registered p.src) : (m.count p.src p.dst p.size).Balanced (.response p) n := by
  refine ⟨fun _ _ => h.registered_of_waiting_count, registered_count.mpr hs, fun e stats hl => ?_⟩
  have hcounted : m.counted p.src p.dst = p.src := if_pos hs
  rw [stats_count, Finmap.lookup_adjust, hcounted] at hl
  rw [waiting_count]
  by_cases he : e = p.src
  · subst he
    rw [if_pos rfl, Option.map_eq_some_iff] at hl
    obtain ⟨old, hold, rfl⟩ := hl
    simp only [hs, not_true_eq_false, decide_false]
    exact (h.balanced p.src old hold).response hn _
  · rw [if_neg he] at hl
    have hne : CapturePc.owedSample e (.response p) = 0 := if_neg fun h => he h.symm
    exact (h.balanced e stats hl).mono (Nat.zero_le 1) (by rw [hne]; exact Nat.zero_le _)
      (Nat.le_refl _)

theorem direct_request (h : m.Balanced (.direction p) n) (hn : n < 2 ^ 64)
    (hs : ¬m.Registered p.src) (hd : m.Registered p.dst) :
    (m.count p.src p.dst p.size).Balanced (.request p) n := by
  refine ⟨fun _ _ => h.registered_of_waiting_count, registered_count.mpr hd, fun e stats hl => ?_⟩
  have hcounted : m.counted p.src p.dst = p.dst := if_neg hs
  rw [stats_count, Finmap.lookup_adjust, hcounted] at hl
  rw [waiting_count]
  by_cases he : e = p.dst
  · subst he
    rw [if_pos rfl, Option.map_eq_some_iff] at hl
    obtain ⟨old, hold, rfl⟩ := hl
    simp only [hs, not_false_eq_true, decide_true]
    exact (h.balanced p.dst old hold).request hn _
  · rw [if_neg he] at hl
    have hne : CapturePc.owedSlot e (.request p) = 0 := if_neg fun h => he h.symm
    exact (h.balanced e stats hl).mono (Nat.zero_le 1) (Nat.le_refl _) (by rw [hne]; exact Nat.le_refl _)

theorem direct_unknown (h : m.Balanced (.direction p) n) (hs : ¬m.Registered p.src)
    (hd : ¬m.Registered p.dst) : (m.count p.src p.dst p.size).Balanced .idle n := by
  refine ⟨fun _ _ => h.registered_of_waiting_count, trivial, fun e stats hl => ?_⟩
  have hcounted : m.counted p.src p.dst = p.dst := if_neg hs
  rw [stats_count, Finmap.lookup_adjust, hcounted] at hl
  rw [waiting_count]
  by_cases he : e = p.dst
  · have hnone : m.stats.lookup p.dst = none := by simpa [Registered] using hd
    rw [if_pos he, hnone] at hl
    cases hl
  · rw [if_neg he] at hl
    exact (h.balanced e stats hl).mono (Nat.zero_le 1) (Nat.le_refl _) (Nat.le_refl _)

theorem direct (h : m.Balanced (.direction p) n) (hn : n < 2 ^ 64) :
    (m.count p.src p.dst p.size).Balanced (.directed p (m.direction p.src p.dst)) n := by
  by_cases hs : m.Registered p.src
  · rw [direction_eq_response hs]
    exact h.direct_response hn hs
  · by_cases hd : m.Registered p.dst
    · rw [direction_eq_request hs hd]
      exact h.direct_request hn hs hd
    · rw [direction_eq_unknown hs hd]
      exact h.direct_unknown hs hd

theorem leave (h : m.Balanced pc n) {pc' : CapturePc} (hr : pc'.Reached m)
    (hu : pc'.uncounted ≤ pc.uncounted) (hs : ∀ e, pc'.owedSample e ≤ pc.owedSample e)
    (hp : ∀ e, pc'.owedSlot e + pc.answered e ≤ pc.owedSlot e + pc'.answered e) :
    m.Balanced pc' n := by
  refine ⟨h.registered, hr, fun e stats hl => (h.balanced e stats hl).mono hu (hs e) ?_⟩
  have hh := hp e
  omega

theorem unanswered (h : m.Balanced (.response p) n) : m.Balanced .idle n :=
  h.leave trivial (Nat.le_refl _) (fun _ => Nat.zero_le _) fun _ => Nat.le_refl _

theorem answer (h : m.Balanced (.response p) n) (hw : p.dst ∈ m.waiting p.src) :
    m.Balanced (.sample p req) n :=
  h.leave ⟨h.reached, hw⟩ (Nat.le_refl _) (fun _ => Nat.le_refl _) fun _ => Nat.le_refl _

theorem drop (h : m.Balanced (.request p) n) : m.Balanced .idle n :=
  h.leave trivial (Nat.le_refl _) (fun _ => Nat.le_refl _) fun _ => Nat.zero_le _

theorem unregistered (h : m.Balanced (.registration p) n) : m.Balanced .idle n :=
  h.leave trivial (Nat.le_refl _) (fun _ => Nat.le_refl _) fun _ => Nat.le_refl _

theorem sample (h : m.Balanced (.sample p req) n) (hn : n < 2 ^ 64) (latency : Int) :
    (m.observe p.src latency).Balanced (.finish p req) n := by
  obtain ⟨hreg, hwait⟩ := h.reached
  have hregistered (e : Endpoint) : (m.observe p.src latency).Registered e ↔ m.Registered e := by
    rw [Registered, Registered, ← Finmap.mem_keys_iff_isSome, ← Finmap.mem_keys_iff_isSome, observe,
      Finmap.keys_adjust]
  refine ⟨fun client server hm => (hregistered server).mpr (h.registered client server hm), hwait,
    fun e stats hl => ?_⟩
  rw [observe, Finmap.lookup_adjust] at hl
  change stats.Balanced e _ (m.waiting e).card n
  by_cases he : e = p.src
  · subst he
    rw [if_pos rfl, Option.map_eq_some_iff] at hl
    obtain ⟨old, hold, rfl⟩ := hl
    exact (h.balanced p.src old hold).sample hn latency
  · rw [if_neg he] at hl
    have hans : CapturePc.answered e (.finish p req) = 0 := if_neg fun h => he h.symm
    exact (h.balanced e stats hl).mono (Nat.le_refl _) (Nat.zero_le _)
      (by rw [hans]; exact Nat.le_refl _)

theorem finish (h : m.Balanced (.finish p req) n) : (m.forget (p.dst, p.src)).Balanced .idle n := by
  have hwait : p.dst ∈ m.waiting p.src := h.reached
  have hsub (e : Endpoint) : (m.forget (p.dst, p.src)).waiting e ⊆ m.waiting e := by
    rw [waiting_forget]
    split
    · exact Finset.erase_subset _ _
    · exact Finset.Subset.refl _
  refine ⟨fun client server hm => h.registered client server (hsub server hm), trivial,
    fun e stats hl => (h.balanced e stats hl).mono (Nat.le_refl _) (Nat.zero_le _) ?_⟩
  rw [waiting_forget]
  by_cases he : p.src = e
  · subst he
    have hcard := Finset.card_erase_add_one hwait
    simp only [CapturePc.owedSlot, CapturePc.answered, if_true]
    omega
  · simp only [CapturePc.owedSlot, CapturePc.answered, if_neg he]
    exact Nat.le_refl _

theorem enter (h : m.Balanced (.request p) n) (tv : Timeval) :
    (m.enter (p.src, p.dst) tv).Balanced .idle n := by
  have hreg : m.Registered p.dst := h.reached
  have hsub := waiting_enter_subset m (p.src, p.dst) tv
  refine ⟨fun client server hm => ?_, trivial, fun e stats hl => ?_⟩
  · rw [Registered, stats_enter]
    have hm' := hsub server hm
    simp only at hm'
    split at hm'
    · rename_i he
      exact he ▸ hreg
    · exact h.registered client server hm'
  · rw [stats_enter] at hl
    refine (h.balanced e stats hl).mono (Nat.le_refl _) (Nat.le_refl _) ?_
    have hcard := Finset.card_le_card (hsub e)
    simp only at hcard
    by_cases he : p.dst = e
    · have hins := Finset.card_insert_le p.src (m.waiting e)
      rw [if_pos he] at hcard
      simp only [CapturePc.owedSlot, CapturePc.answered, if_pos he]
      omega
    · rw [if_neg he] at hcard
      simp only [CapturePc.owedSlot, CapturePc.answered, if_neg he]
      omega

theorem register (h : m.Balanced (.registration p) n) (e : Endpoint) :
    (m.register e).Balanced .idle n := by
  have hkeys : (m.register e).stats.keys = insert e m.stats.keys := Finmap.keys_addNew _ _ _
  refine ⟨fun client server hm => ?_, trivial, fun e' stats hl => ?_⟩
  · have hold := h.registered client server hm
    rw [Registered, ← Finmap.mem_keys_iff_isSome] at hold ⊢
    rw [hkeys]
    exact Finset.mem_insert_of_mem hold
  · rw [Monitor.register, Finmap.lookup_addNew] at hl
    change stats.Balanced e' _ (m.waiting e').card n
    have hkept (old : QueryStats) (ho : m.stats.lookup e' = some old) :
        old.Balanced e' .idle (m.waiting e').card n :=
      (h.balanced e' old ho).mono (Nat.le_refl _) (Nat.le_refl _) (Nat.le_refl _)
    by_cases he : e' = e
    · subst he
      rw [if_pos rfl] at hl
      cases ho : m.stats.lookup e' with
      | some old =>
        rw [ho, Option.getD_some] at hl
        cases hl
        exact hkept _ ho
      | none =>
        rw [ho, Option.getD_none] at hl
        cases hl
        have hempty : m.waiting e' = ∅ := by
          by_contra hne
          obtain ⟨client, hc⟩ := Finset.nonempty_iff_ne_empty.mpr hne
          have hreg := h.registered client e' hc
          rw [Registered, ho] at hreg
          cases hreg
        rw [hempty]
        refine ⟨Nat.zero_le n, Nat.zero_le n, ?_, ?_⟩
        · rw [QueryStats.samples_zeroed]
          exact Nat.zero_le _
        · rw [QueryStats.samples_zeroed]
          exact Nat.zero_le _
    · rw [if_neg he] at hl
      exact hkept stats hl

theorem answered_le (h : m.Balanced pc n) (e : Endpoint) : pc.answered e ≤ (m.waiting e).card := by
  cases pc with
  | finish p req =>
    by_cases he : p.src = e
    · subst he
      simp only [CapturePc.answered, if_true]
      exact Finset.card_pos.mpr ⟨p.dst, h.reached⟩
    · simp only [CapturePc.answered, if_neg he]
      exact Nat.zero_le _
  | _ => exact Nat.zero_le _

theorem samples_le (h : m.Balanced pc n) {e : Endpoint} {stats : QueryStats}
    (hl : m.stats.lookup e = some stats) :
    stats.samples ≤ stats.requests ∧ stats.samples ≤ stats.responses := by
  obtain ⟨-, -, hresp, hreq⟩ := h.balanced e stats hl
  have ha := h.answered_le e
  omega

theorem samples_add_waiting_le (h : m.Balanced .idle n) {e : Endpoint} {stats : QueryStats}
    (hl : m.stats.lookup e = some stats) :
    stats.samples + (m.waiting e).card ≤ stats.requests := by
  have hreq := (h.balanced e stats hl).samples_le_requests
  simp only [CapturePc.owedSlot, CapturePc.answered, Nat.add_zero] at hreq
  exact hreq

end Balanced

end Monitor

end Tcpkit
