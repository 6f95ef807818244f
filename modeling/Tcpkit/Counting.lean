import Mathlib.Algebra.BigOperators.Fin
import Tcpkit.Matching

/-! The running counters of an endpoint are counts over the whole run: a packet
counts for the endpoint that decides its direction, from the endpoint's
registration on. -/

namespace Tcpkit

open MachineInt

theorem sum_before_succ {n : Nat} (f : Fin n → Nat) (k : Fin n) :
    ∑ i ∈ Finset.univ.filter (fun i : Fin n => (i : Nat) < k + 1), f i =
      ∑ i ∈ Finset.univ.filter (fun i : Fin n => (i : Nat) < k), f i + f k := by
  have hset : Finset.univ.filter (fun i : Fin n => (i : Nat) < k + 1) =
      insert k (Finset.univ.filter (fun i : Fin n => (i : Nat) < k)) := by
    ext i
    simp only [Finset.mem_filter, Finset.mem_univ, true_and, Finset.mem_insert, Fin.ext_iff]
    omega
  rw [hset, Finset.sum_insert (by simp), Nat.add_comm]

/-- A counter that grows by a weight for each packet of one direction. -/
structure IsCounter (counter : QueryStats → Nat) (isRequest : Bool) (weight : UInt32 → Nat) :
    Prop where
  zeroed : ∀ e, counter (QueryStats.zeroed e) = 0
  observer : ∀ stats latency, counter (statsObserverLatency stats latency) = counter stats
  own : ∀ stats (size : UInt32), size.toNat < 2 ^ 31 →
    counter (statsIncr stats isRequest (int32 size.toNat)) = (counter stats + weight size) % 2 ^ 64
  other : ∀ stats bytes, counter (statsIncr stats (!isRequest) bytes) = counter stats

theorem uint64_add (n k : Nat) : uint64 ((n : Int) + k) = (n + k) % 2 ^ 64 := by
  rw [← Int.natCast_add, uint64_natCast]

theorem int32_size {size : UInt32} (h : size.toNat < 2 ^ 31) :
    int32 size.toNat = (size.toNat : Int) :=
  int32_eq_self (by omega) (by omega)

theorem isCounter_requests : IsCounter QueryStats.requests true (fun _ => 1) :=
  ⟨fun _ => rfl, fun _ _ => rfl, fun stats _ _ => uint64_add stats.requests 1, fun _ _ => rfl⟩

theorem isCounter_responses : IsCounter QueryStats.responses false (fun _ => 1) :=
  ⟨fun _ => rfl, fun _ _ => rfl, fun stats _ _ => uint64_add stats.responses 1, fun _ _ => rfl⟩

theorem isCounter_requestBytes : IsCounter QueryStats.requestBytes true UInt32.toNat :=
  ⟨fun _ => rfl, fun _ _ => rfl, fun stats size h => by
    rw [int32_size h]
    exact uint64_add stats.requestBytes size.toNat, fun _ _ => rfl⟩

theorem isCounter_responseBytes : IsCounter QueryStats.responseBytes false UInt32.toNat :=
  ⟨fun _ => rfl, fun _ _ => rfl, fun stats size h => by
    rw [int32_size h]
    exact uint64_add stats.responseBytes size.toNat, fun _ _ => rfl⟩

namespace Monitor

def countedFor (m : Monitor) (a : Arrival) (e : Endpoint) (isRequest : Bool) : Option UInt32 :=
  match a.signal with
  | .data src dst size =>
    if m.Registered e ∧ m.counted src dst = e ∧ (decide ¬m.Registered src) = isRequest then some size
    else none
  | _ => none

variable {m : Monitor} {a : Arrival} {e : Endpoint} {counter : QueryStats → Nat}
  {isRequest : Bool} {weight : UInt32 → Nat}

theorem counter_next (hc : IsCounter counter isRequest weight)
    (hsize : ∀ src dst size, a.signal = .data src dst size → size.toNat < 2 ^ 31)
    {stats : QueryStats} (h : m.stats.lookup e = some stats) :
    ∃ stats', (m.next a).stats.lookup e = some stats' ∧
      counter stats' = match m.countedFor a e isRequest with
        | some size => (counter stats + weight size) % 2 ^ 64
        | none => counter stats := by
  cases ha : a.signal with
  | silent => exact ⟨stats, by rw [lookup_stats_silent ha, h], by simp [countedFor, ha]⟩
  | opening server =>
    refine ⟨stats, ?_, by simp [countedFor, ha]⟩
    rw [lookup_stats_opening ha, h]
    simp
  | data src dst size =>
    obtain ⟨f, hlook, hf⟩ := lookup_stats_data (m := m) ha
    have hreg : m.Registered e := by rw [Registered, h]; rfl
    by_cases he : e = m.counted src dst
    · refine ⟨f stats, by rw [hlook, if_pos he, h]; rfl, ?_⟩
      have hincr : counter (f stats) =
          counter (statsIncr stats (decide ¬m.Registered src) (int32 size.toNat)) := by
        rcases hf with hf | ⟨latency, hf⟩
        · rw [hf]
        · rw [hf, hc.observer]
      by_cases hdir : (decide ¬m.Registered src) = isRequest
      · have hfor : m.countedFor a e isRequest = some size := by
          simp only [countedFor, ha]
          exact if_pos ⟨hreg, he.symm, hdir⟩
        rw [hfor, hincr, hdir, hc.own stats size (hsize src dst size ha)]
      · have hother : (decide ¬m.Registered src) = !isRequest := Bool.eq_not.mpr hdir
        have hfor : m.countedFor a e isRequest = none := by
          simp only [countedFor, ha]
          exact if_neg fun hh => hdir hh.2.2
        rw [hfor, hincr, hother, hc.other]
    · refine ⟨stats, by rw [hlook, if_neg he, h], ?_⟩
      have hfor : m.countedFor a e isRequest = none := by
        simp only [countedFor, ha]
        exact if_neg fun hh => he hh.2.1.symm
      rw [hfor]

theorem countedFor_of_not_registered (h : ¬m.Registered e) :
    m.countedFor a e isRequest = none := by
  rw [countedFor]
  split
  · exact if_neg fun hh => h hh.1
  · rfl

namespace Run

variable (t : Run)

def share (e : Endpoint) (isRequest : Bool) (weight : UInt32 → Nat) (k : Fin t.length) : Nat :=
  (((t.state k).countedFor (t.input k) e isRequest).map weight).getD 0

variable {t}

theorem counter_eq_sum (hc : IsCounter counter isRequest weight)
    (hsize : ∀ k src dst size, (t.input k).signal = .data src dst size → size.toNat < 2 ^ 31)
    {n : Nat} (hn : n ≤ t.length) :
    (((t.state n).stats.lookup e).map counter).getD 0 =
      (∑ k ∈ Finset.univ.filter (fun k : Fin t.length => (k : Nat) < n),
        t.share e isRequest weight k) % 2 ^ 64 := by
  refine t.invariant (I := fun n m => ((m.stats.lookup e).map counter).getD 0 =
    (∑ k ∈ Finset.univ.filter (fun k : Fin t.length => (k : Nat) < n),
      t.share e isRequest weight k) % 2 ^ 64) ?_ ?_ n hn
  · simp [t.fresh, start]
  · intro k ih
    rw [sum_before_succ]
    cases h : (t.state k).stats.lookup e with
    | some stats =>
      obtain ⟨stats', hnext, hcount⟩ := counter_next hc (hsize k) h
      rw [h] at ih
      simp only [Option.map_some, Option.getD_some] at ih
      rw [hnext, Option.map_some, Option.getD_some, hcount, share]
      cases (t.state k).countedFor (t.input k) e isRequest with
      | some size => simp [ih]
      | none => simpa using ih
    | none =>
      have hreg : ¬(t.state k).Registered e := by simp [Registered, h]
      have hshare : t.share e isRequest weight k = 0 := by
        rw [share, countedFor_of_not_registered hreg]
        rfl
      rw [h] at ih
      rw [hshare, Nat.add_zero, ← ih]
      rcases lookup_stats_of_none (a := t.input k) h with hnone | ⟨-, hzeroed⟩
      · rw [hnone]
      · rw [hzeroed]
        exact hc.zeroed e

theorem registered_iff_opened {n : Nat} (hn : n ≤ t.length) :
    (t.state n).Registered e ↔ ∃ i : Fin t.length, (i : Nat) < n ∧
      (t.input i).signal = .opening e ∧ (t.input i).stored = true := by
  refine t.invariant (I := fun n m => m.Registered e ↔ ∃ i : Fin t.length, (i : Nat) < n ∧
    (t.input i).signal = .opening e ∧ (t.input i).stored = true) ?_ ?_ n hn
  · simp [t.fresh, start, Registered]
  · intro k ih
    rw [registered_next_iff, ih]
    constructor
    · intro hh
      rcases hh with ⟨i, hi, hopen⟩ | hopen
      · exact ⟨i, by omega, hopen⟩
      · exact ⟨k, Nat.lt_succ_self k, hopen⟩
    · intro hh
      rcases hh with ⟨i, hi, hopen⟩
      by_cases hik : i = k
      · exact Or.inr (hik ▸ hopen)
      · have hne : (i : Nat) ≠ k := fun h => hik (Fin.ext h)
        exact Or.inl ⟨i, by omega, hopen⟩

end Run

end Monitor

namespace Capture

variable (r : Capture)

def Opens (j : Fin r.packets.length) (e : Endpoint) : Prop :=
  (r.packet j).payloadSize = 0 ∧ (r.packet j).syn = true ∧ (r.packet j).named = e

instance (j : Fin r.packets.length) (e : Endpoint) : Decidable (r.Opens j e) :=
  inferInstanceAs (Decidable (_ ∧ _ ∧ _))

def Known (n : Nat) (e : Endpoint) : Prop := ∃ i : Fin r.packets.length, i < n ∧ r.Opens i e

instance (n : Nat) (e : Endpoint) : Decidable (r.Known n e) :=
  inferInstanceAs (Decidable (∃ _, _))

def responsesOf (e : Endpoint) : Finset (Fin r.packets.length) :=
  Finset.univ.filter fun j => 0 < (r.packet j).payloadSize ∧ (r.packet j).src = e ∧ r.Known j e

/-- The data packets a registered endpoint receives from endpoints that are not
registered at that time. -/
def requestsOf (e : Endpoint) : Finset (Fin r.packets.length) :=
  Finset.univ.filter fun j => 0 < (r.packet j).payloadSize ∧ (r.packet j).dst = e ∧ r.Known j e ∧
    ¬r.Known j (r.packet j).src

def packetsOf (e : Endpoint) : Bool → Finset (Fin r.packets.length)
  | true => r.requestsOf e
  | false => r.responsesOf e

def TotalsFit (e : Endpoint) : Prop :=
  (r.requestsOf e).card < 2 ^ 64 ∧ ∑ j ∈ r.requestsOf e, (r.packet j).size.toNat < 2 ^ 64 ∧
    (r.responsesOf e).card < 2 ^ 64 ∧ ∑ j ∈ r.responsesOf e, (r.packet j).size.toNat < 2 ^ 64

variable {r}

theorem opens_iff (halloc : r.Allocates) {j : Fin r.packets.length} {e : Endpoint} :
    r.Opens j e ↔
      (r.packet j).arrival.signal = .opening e ∧ (r.packet j).arrival.stored = true := by
  rw [Opens, Packet.arrival, UserPacket.arrival]
  rw [halloc j]
  by_cases h0 : (r.packet j).payloadSize = 0
  · by_cases hsyn : (r.packet j).syn
    · simp [h0, hsyn, Allocs.keepsEndpoint, Allocs.all]
    · simp [h0, hsyn]
  · simp [h0]

theorem registered_iff_known (halloc : r.Allocates) {n : Nat} (hn : n ≤ r.packets.length) {e : Endpoint} :
    (r.before n).toMonitor.Registered e ↔ r.Known n e := by
  rw [Known]
  simp only [opens_iff halloc]
  exact r.monitorRun.registered_iff_opened hn

theorem signal_of_pos {j : Fin r.packets.length} (h : 0 < (r.packet j).payloadSize) :
    (r.packet j).arrival.signal = .data (r.packet j).src (r.packet j).dst (r.packet j).size :=
  if_neg (by omega)

theorem signal_of_not_pos {j : Fin r.packets.length} (h : ¬0 < (r.packet j).payloadSize)
    (src dst : Endpoint) (size : UInt32) : (r.packet j).arrival.signal ≠ .data src dst size := by
  intro he
  exact h (data_iff.mpr ⟨size, he⟩).1

theorem countedFor_eq (halloc : r.Allocates) (j : Fin r.packets.length) (e : Endpoint) (isRequest : Bool) :
    (r.before j).toMonitor.countedFor (r.packet j).arrival e isRequest =
      if j ∈ r.packetsOf e isRequest then some (r.packet j).size
      else none := by
  have hreg (e : Endpoint) := registered_iff_known halloc (Nat.le_of_lt j.isLt) (e := e)
  by_cases hpos : 0 < (r.packet j).payloadSize
  · simp only [Monitor.countedFor, signal_of_pos hpos, Monitor.counted, hreg]
    congr 1
    cases isRequest with
    | true =>
      simp only [packetsOf, requestsOf, Finset.mem_filter, Finset.mem_univ, true_and, hpos,
        decide_eq_true_eq, eq_iff_iff]
      constructor
      · intro hh
        rcases hh with ⟨he, hcounted, hsrc⟩
        rw [if_neg hsrc] at hcounted
        exact ⟨hcounted, he, hsrc⟩
      · intro hh
        rcases hh with ⟨hdst, he, hsrc⟩
        exact ⟨he, by rw [if_neg hsrc, hdst], hsrc⟩
    | false =>
      simp only [packetsOf, responsesOf, Finset.mem_filter, Finset.mem_univ, true_and, hpos,
        decide_eq_false_iff_not, not_not, eq_iff_iff]
      constructor
      · intro hh
        rcases hh with ⟨he, hcounted, hsrc⟩
        rw [if_pos hsrc] at hcounted
        exact ⟨hcounted, he⟩
      · intro hh
        rcases hh with ⟨hsrc, he⟩
        rw [hsrc]
        exact ⟨he, if_pos he, he⟩
  · have hnone : (r.before j).toMonitor.countedFor (r.packet j).arrival e isRequest = none := by
      rw [Monitor.countedFor]
      split
      · rename_i hsig
        exact absurd hsig (signal_of_not_pos hpos _ _ _)
      · rfl
    rw [hnone]
    cases isRequest <;> simp [packetsOf, requestsOf, responsesOf, hpos]

theorem counter_eq_total {counter : QueryStats → Nat} {isRequest : Bool} {weight : UInt32 → Nat}
    (hc : IsCounter counter isRequest weight) (halloc : r.Allocates)
    (hsize : ∀ j, (r.packet j).size.toNat < 2 ^ 31) {e : Endpoint} {stats : QueryStats}
    (h : (r.before r.packets.length).synTab.get (endpointKey e) = some stats) :
    counter stats =
      (∑ j ∈ r.packetsOf e isRequest, weight (r.packet j).size) % 2 ^ 64 := by
  have hsize' : ∀ (k : Fin r.monitorRun.length) src dst size,
      (r.monitorRun.input k).signal = .data src dst size → size.toNat < 2 ^ 31 := by
    intro k src dst size hk
    have hpos := (data_iff.mpr ⟨size, hk⟩ : r.Data k src dst).1
    have hsig := (signal_of_pos hpos).symm.trans hk
    cases hsig
    exact hsize k
  have hrun := r.monitorRun.counter_eq_sum (e := e) hc hsize' (Nat.le_refl _)
  have hlook : (r.monitorRun.state r.monitorRun.length).stats.lookup e = some stats :=
    (Sniffer.lookup_stats _ e).trans h
  rw [hlook, Option.map_some, Option.getD_some] at hrun
  have hshare (j : Fin r.packets.length) : r.monitorRun.share e isRequest weight j =
      if j ∈ r.packetsOf e isRequest then weight (r.packet j).size
      else 0 := by
    change (((r.before j).toMonitor.countedFor (r.packet j).arrival e isRequest).map weight).getD 0 = _
    rw [countedFor_eq halloc]
    split <;> rfl
  have hsum := Finset.sum_congr (rfl : (Finset.univ : Finset (Fin r.packets.length)) = Finset.univ)
    fun j _ => hshare j
  rw [hrun, Finset.filter_true_of_mem fun k _ => k.isLt]
  change (∑ k : Fin r.packets.length, r.monitorRun.share e isRequest weight k) % _ = _
  rw [hsum, Finset.sum_ite_mem, Finset.univ_inter]

/-- At the end of a run the table holds exactly the endpoints a SYN named, each
counter is the count or the sum over the packets of its direction since then,
and a data packet counts for one endpoint at most and leaves the others alone. -/
theorem counters_count_packets (r : Capture) (halloc : r.Allocates)
    (hsize : ∀ j, (r.packet j).size.toNat < 2 ^ 31) :
    (∀ key, ((r.before r.packets.length).synTab.get key).isSome ↔
      ∃ e, r.Known r.packets.length e ∧ endpointKey e = key) ∧
    (∀ e stats, (r.before r.packets.length).synTab.get (endpointKey e) = some stats →
      r.TotalsFit e →
      stats.requests = (r.requestsOf e).card ∧
      stats.requestBytes = ∑ j ∈ r.requestsOf e, (r.packet j).size.toNat ∧
      stats.responses = (r.responsesOf e).card ∧
      stats.responseBytes = ∑ j ∈ r.responsesOf e, (r.packet j).size.toNat) ∧
    (∀ j, 0 < (r.packet j).payloadSize → ∃ e,
      (∀ e', j ∈ r.requestsOf e' ∪ r.responsesOf e' → e' = e) ∧
      ∀ e', e' ≠ e →
        (r.before (j + 1)).synTab.get (endpointKey e') = (r.before j).synTab.get (endpointKey e')) := by
  refine ⟨fun key => ?_, fun e stats h hfit => ?_, fun j hpos => ?_⟩
  · constructor
    · intro hsome
      have hkey : key ∈ (r.before r.packets.length).synTab.toMap.keys := by
        rw [Finmap.mem_keys_iff_isSome, Table.lookup_toMap, hsome]
      obtain ⟨e, rfl⟩ := (r.monitoring (Nat.le_refl _)).synKeys key hkey
      exact ⟨e, (registered_iff_known halloc (Nat.le_refl _)).mp ((Sniffer.registered_iff _ e).mpr hsome),
        rfl⟩
    · intro hh
      rcases hh with ⟨e, hknown, rfl⟩
      exact (Sniffer.registered_iff _ e).mp ((registered_iff_known halloc (Nat.le_refl _)).mpr hknown)
  · obtain ⟨h1, h2, h3, h4⟩ := hfit
    have hrequests := counter_eq_total isCounter_requests halloc hsize h
    have hresponses := counter_eq_total isCounter_responses halloc hsize h
    rw [← Finset.card_eq_sum_ones] at hrequests hresponses
    exact ⟨hrequests.trans (Nat.mod_eq_of_lt h1),
      (counter_eq_total isCounter_requestBytes halloc hsize h).trans (Nat.mod_eq_of_lt h2),
      hresponses.trans (Nat.mod_eq_of_lt h3),
      (counter_eq_total isCounter_responseBytes halloc hsize h).trans (Nat.mod_eq_of_lt h4)⟩
  · refine ⟨(r.before j).toMonitor.counted (r.packet j).src (r.packet j).dst, fun e' hmem => ?_,
      fun e' hne => ?_⟩
    · have hreg (e : Endpoint) := registered_iff_known halloc (Nat.le_of_lt j.isLt) (e := e)
      rw [Monitor.counted]
      rcases Finset.mem_union.mp hmem with hm | hm
      · obtain ⟨-, -, hdst, -, hsrc⟩ := Finset.mem_filter.mp hm
        rw [if_neg (mt (hreg _).mp hsrc), hdst]
      · obtain ⟨-, -, hsrc, hknown⟩ := Finset.mem_filter.mp hm
        rw [if_pos ((hreg _).mpr (hsrc ▸ hknown)), hsrc]
    · obtain ⟨f, hlook, -⟩ := Monitor.lookup_stats_data (m := (r.before j).toMonitor)
        (signal_of_pos hpos)
      have hnext : (r.before (j + 1)).toMonitor =
          (r.before j).toMonitor.next (r.packet j).arrival := r.monitor.next j
      rw [← Sniffer.lookup_stats, ← Sniffer.lookup_stats, hnext, hlook, if_neg hne]

end Capture

theorem counters_count_packets_ping :
    ∃ stats, (pingCapture.before 3).synTab.get (endpointKey ⟨2, 6379⟩) = some stats ∧
      stats.requests = 1 ∧ stats.requestBytes = 64 ∧ stats.responses = 1 ∧
      stats.responseBytes = 65 := by
  obtain ⟨hkeys, hcounters, -⟩ := pingCapture.counters_count_packets pingCapture_allocates (by decide)
  have hsome := (hkeys (endpointKey ⟨2, 6379⟩)).mpr ⟨⟨2, 6379⟩, by decide, rfl⟩
  obtain ⟨stats, hstats⟩ := Option.isSome_iff_exists.mp hsome
  exact ⟨stats, hstats, hcounters ⟨2, 6379⟩ stats hstats (by unfold Capture.TotalsFit; decide)⟩

end Tcpkit
